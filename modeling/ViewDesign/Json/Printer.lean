import ViewDesign.Json.Basic

/-!
# JSON texts

Two renderings of one value: `Json.compact` without any blank, and `Json.pretty` with one member or
element a line, indented by two blanks a level.  How numbers are written is a parameter of the
first.  An element after the first is preceded by a comma, which is why each list has a function for
its head and one for its tail.
-/

namespace ViewDesign.Json

/-! ## Strings and numbers -/

/-- The digit of a value below sixteen, in lower case. -/
def hexDigit (d : Nat) : Char :=
  if d < 10 then Char.ofNat (48 + d) else Char.ofNat (87 + d)

/-- A character inside a string: the quote, the backslash and the control characters are escaped,
all others stand for themselves. -/
def escapeChar (c : Char) : List Char :=
  if c = '"' then ['\\', '"']
  else if c = '\\' then ['\\', '\\']
  else if c = '\n' then ['\\', 'n']
  else if c = '\r' then ['\\', 'r']
  else if c = '\t' then ['\\', 't']
  else if c = '\x08' then ['\\', 'b']
  else if c = '\x0c' then ['\\', 'f']
  else if c.toNat < 32 then ['\\', 'u', '0', '0', hexDigit (c.toNat / 16), hexDigit (c.toNat % 16)]
  else [c]

/-- A string between quotes. -/
def quoted (s : String) : List Char := '"' :: (s.toList.flatMap escapeChar ++ ['"'])

/-- The text of a number. -/
def Number.text : Number → List Char
  | .int i => Decimal.ofInt i
  | .float x => (floatLayout.float x).toList

/-! ## Compact texts -/

mutual

/-- The text of a value without blanks, its numbers written as `number` says. -/
def compactChars (number : Number → List Char) : Json → List Char
  | .null => ['n', 'u', 'l', 'l']
  | .bool true => ['t', 'r', 'u', 'e']
  | .bool false => ['f', 'a', 'l', 's', 'e']
  | .num n => number n
  | .str s => quoted s
  | .arr items => '[' :: (compactItems number items ++ [']'])
  | .obj members => '\x7b' :: (compactMembers number members ++ ['\x7d'])

/-- The elements of an array. -/
def compactItems (number : Number → List Char) : List Json → List Char
  | [] => []
  | v :: rest => compactChars number v ++ compactMoreItems number rest

/-- Elements that follow another one. -/
def compactMoreItems (number : Number → List Char) : List Json → List Char
  | [] => []
  | v :: rest => ',' :: (compactChars number v ++ compactMoreItems number rest)

/-- The members of an object. -/
def compactMembers (number : Number → List Char) : List (String × Json) → List Char
  | [] => []
  | (k, v) :: rest => quoted k ++ ':' :: (compactChars number v ++ compactMoreMembers number rest)

/-- Members that follow another one. -/
def compactMoreMembers (number : Number → List Char) : List (String × Json) → List Char
  | [] => []
  | (k, v) :: rest =>
    ',' :: (quoted k ++ ':' :: (compactChars number v ++ compactMoreMembers number rest))

end

/-- The text of a value without blanks. -/
def compact (v : Json) : String := String.ofList (v.compactChars Number.text)

/-! ## Indented texts -/

/-- A line break and the indentation of a level. -/
def newLine (level : Nat) : List Char := '\n' :: List.replicate (2 * level) ' '

mutual

/-- The indented text of a value that stands on a given level. -/
def prettyChars (level : Nat) : Json → List Char
  | .null => ['n', 'u', 'l', 'l']
  | .bool true => ['t', 'r', 'u', 'e']
  | .bool false => ['f', 'a', 'l', 's', 'e']
  | .num n => n.text
  | .str s => quoted s
  | .arr items => '[' :: (prettyItems level items ++ [']'])
  | .obj members => '\x7b' :: (prettyMembers level members ++ ['\x7d'])

/-- The elements of an array and the break before its bracket closes. -/
def prettyItems (level : Nat) : List Json → List Char
  | [] => []
  | v :: rest => newLine (level + 1) ++ (prettyChars (level + 1) v ++ prettyMoreItems level rest)

/-- Elements that follow another one. -/
def prettyMoreItems (level : Nat) : List Json → List Char
  | [] => newLine level
  | v :: rest =>
    ',' :: (newLine (level + 1) ++ (prettyChars (level + 1) v ++ prettyMoreItems level rest))

/-- The members of an object and the break before its brace closes. -/
def prettyMembers (level : Nat) : List (String × Json) → List Char
  | [] => []
  | (k, v) :: rest =>
    newLine (level + 1) ++
      (quoted k ++ ':' :: ' ' :: (prettyChars (level + 1) v ++ prettyMoreMembers level rest))

/-- Members that follow another one. -/
def prettyMoreMembers (level : Nat) : List (String × Json) → List Char
  | [] => newLine level
  | (k, v) :: rest =>
    ',' :: (newLine (level + 1) ++
      (quoted k ++ ':' :: ' ' :: (prettyChars (level + 1) v ++ prettyMoreMembers level rest)))

end

/-- The text of a value with one element or member a line. -/
def pretty (v : Json) : String := String.ofList (v.prettyChars 0)

end ViewDesign.Json
