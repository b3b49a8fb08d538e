import ViewDesign.Text.Printable

/-!
# Texts quoted in a message

A text that a message shows stands between double quotes.  Inside them the quote, the backslash and
the common controls have short escapes, and every other character that would not show is written by
its code point.
-/

namespace ViewDesign.Text

/-- The hexadecimal digits of a number, in lower case. -/
def hexDigits (n : Nat) : List Char :=
  if n < 16 then [digit n] else hexDigits (n / 16) ++ [digit (n % 16)]
termination_by n
decreasing_by omega
where
  digit (d : Nat) : Char := if d < 10 then Char.ofNat (48 + d) else Char.ofNat (87 + d)

/-- One character between the quotes. -/
def showChar (c : Char) : List Char :=
  if c = '\x00' then ['\\', '0']
  else if c = '\t' then ['\\', 't']
  else if c = '\r' then ['\\', 'r']
  else if c = '\n' then ['\\', 'n']
  else if c = '"' then ['\\', '"']
  else if c = '\\' then ['\\', '\\']
  else if isPrintable c then [c]
  else ['\\', 'u', '\x7b'] ++ hexDigits c.toNat ++ ['\x7d']

/-- A text between double quotes. -/
def quoted (s : String) : String :=
  String.ofList ('"' :: (s.toList.flatMap showChar ++ ['"']))

end ViewDesign.Text
