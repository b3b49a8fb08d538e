import ViewDesign.Decimal.Reading
import ViewDesign.Script.Token
import ViewDesign.Text.Units

/-!
# From characters to tokens

The scanner takes one character at a time.  Its state is what has been seen of the token that is
under way; a character either belongs to that token, or ends it and starts the next one.  A run
over two texts is therefore a run over the first followed by a run over the second, which is what
lets a text be put into another one and its tokens be found there again.

* `Mode`            the token under way;
* `State.step`      one character;
* `State.run`       a text; `State.run_append` cuts it anywhere;
* `Lexeme.scan?`    the tokens of a whole text.
-/

namespace ViewDesign.Script

/-! ## Classes of characters -/

/-- The characters that end a line. -/
def isLineBreak (c : Char) : Bool :=
  c == '\n' || c == '\r' || c == '\u2028' || c == '\u2029'

/-- The other characters that only separate tokens. -/
def isBlank (c : Char) : Bool :=
  c == ' ' || c == '\t' || c == '\x0b' || c == '\x0c' || c == '\xa0' || c == '\u1680' ||
    ('\u2000' ≤ c && c ≤ '\u200a') || c == '\u202f' || c == '\u205f' || c == '\u3000' ||
    c == '\ufeff'

/-- The characters a word may start with.  Beyond ASCII letters are not told from other signs. -/
def isWordStart (c : Char) : Bool :=
  c.isAlpha || c == '_' || c == '$' || ('\xa0' < c && !isBlank c && !isLineBreak c)

/-- The characters a word may go on with. -/
def isWordPart (c : Char) : Bool := isWordStart c || c.isDigit

/-! ## The token under way -/

/-- How far an escape inside a text literal has come. -/
inductive Escape where
  /-- there is none -/
  | outside
  /-- the backslash has been seen -/
  | begun
  /-- a carriage return was escaped; a line feed still belongs to it -/
  | brokenLine
  /-- `u` has been seen -/
  | codePoint
  /-- hexadecimal digits that are still to come and the value of those seen -/
  | hex (left value : Nat)
  /-- the value of the digits seen between braces -/
  | braced (value : Option Nat)
deriving Repr, DecidableEq, Inhabited

/-- What has been seen of the token that is under way.  Characters and units are kept last to
first. -/
inductive Mode where
  | ready
  | word (chars : List Char)
  | numeral (chars : List Char)
  | mark (m : Mark)
  /-- a point: a mark, or the start of a numeral -/
  | dot
  /-- a slash: a mark, or the start of a comment -/
  | slash
  /-- a character that means something only when it comes twice -/
  | half (c : Char)
  | lineComment
  /-- whether the last character was a star -/
  | blockComment (star : Bool)
  | text (quote : Char) (units : List Nat) (escape : Escape)
deriving Repr, DecidableEq, Inhabited

/-! ## Numerals -/

/-- A whole number of a base. -/
def wholeNumber? (base : Nat) (digits : List Char) : Option Number :=
  (Decimal.natural? base digits).map fun (n : Nat) => Number.ofInt n

/-- The number of a numeral: digits of another base after its mark, or a decimal.  Digits after a
zero are octal unless one of them is too large for that. -/
def numeral? : List Char → Option Number
  | '0' :: c :: r =>
    if c = 'x' ∨ c = 'X' then wholeNumber? 16 r
    else if c = 'o' ∨ c = 'O' then wholeNumber? 8 r
    else if c = 'b' ∨ c = 'B' then wholeNumber? 2 r
    else if c.isDigit then (wholeNumber? 8 (c :: r)).or (wholeNumber? 10 (c :: r))
    else (Decimal.read? ('0' :: c :: r)).map Number.ofDecimal
  | cs => (Decimal.read? cs).map Number.ofDecimal

/-- Whether a character goes on with a numeral: a letter or digit, a point after the digits of a
decimal, or a sign after the mark of an exponent. -/
def continuesNumeral (chars : List Char) (c : Char) : Bool :=
  isWordPart c ||
    (c == '.' && chars.all Char.isDigit && (chars.length == 1 || chars.getLast? != some '0')) ||
    ((c == '+' || c == '-') && match chars with
      | e :: before => (e == 'e' || e == 'E') && before.all fun d => d.isDigit || d == '.'
      | [] => false)

/-! ## Text literals -/

/-- The units of a code point, which may be half of a character. -/
def unitsOfCode (n : Nat) : List Nat := if n < 0x10000 then [n] else Units.ofChar (Char.ofNat n)

/-- The characters that letters stand for after a backslash. -/
def escapeLetter (c : Char) : Char :=
  match c with
  | 'n' => '\n'
  | 't' => '\t'
  | 'r' => '\r'
  | 'b' => '\x08'
  | 'f' => '\x0c'
  | 'v' => '\x0b'
  | '0' => '\x00'
  | c => c

/-- A character right after a backslash. -/
def afterBackslash (units : List Nat) (c : Char) : Option (List Nat × Escape) :=
  if c = 'u' then some (units, .codePoint)
  else if c = 'x' then some (units, .hex 2 0)
  else if c = '\r' then some (units, .brokenLine)
  else if isLineBreak c then some (units, .outside)
  else if c.isDigit ∧ c ≠ '0' then none
  else some ((Units.ofChar (escapeLetter c)).reverse ++ units, .outside)

/-- One more hexadecimal digit. -/
def hexStep (units : List Nat) (left value : Nat) (c : Char) : Option (List Nat × Escape) :=
  (Decimal.digitValue? 16 c).map fun d =>
    let value := 16 * value + d
    if left ≤ 1 then (value :: units, .outside) else (units, .hex (left - 1) value)

/-- One more character between braces. -/
def bracedStep (units : List Nat) (value : Option Nat) (c : Char) : Option (List Nat × Escape) :=
  if c = '\x7d' then value.map fun n => ((unitsOfCode n).reverse ++ units, .outside)
  else do
    let d ← Decimal.digitValue? 16 c
    let n := 16 * value.getD 0 + d
    if n ≤ 0x10FFFF then some (units, .braced (some n)) else none

/-- A character of a text literal that does not close it. -/
def textStep (units : List Nat) (escape : Escape) (c : Char) : Option (List Nat × Escape) :=
  let plain :=
    if c = '\\' then some (units, Escape.begun)
    else if c = '\n' ∨ c = '\r' then none
    else some ((Units.ofChar c).reverse ++ units, .outside)
  match escape with
  | .outside => plain
  | .brokenLine => if c = '\n' then some (units, .outside) else plain
  | .begun => afterBackslash units c
  | .codePoint => if c = '\x7b' then some (units, .braced none) else hexStep units 4 0 c
  | .hex left value => hexStep units left value c
  | .braced value => bracedStep units value c

/-- Whether an escape leaves the quote its meaning. -/
def Escape.closes : Escape → Bool
  | .outside => true
  | .brokenLine => true
  | _ => false

/-! ## One character -/

namespace Mode

/-- What a character starts when no token is under way. -/
def start? (c : Char) : Option Mode :=
  if isWordStart c then some (.word [c])
  else if c.isDigit then some (.numeral [c])
  else if c = '.' then some .dot
  else if c = '/' then some .slash
  else if c = '&' ∨ c = '|' then some (.half c)
  else if c = '\'' ∨ c = '"' then some (.text c [] .outside)
  else (Mark.ofChar? c).map .mark

/-- The token under way with one more character, if the character belongs to it. -/
def extend? : Mode → Char → Option Mode
  | .word chars, c => if isWordPart c then some (.word (c :: chars)) else none
  | .numeral chars, c => if continuesNumeral chars c then some (.numeral (c :: chars)) else none
  | .mark m, c => (m.extend? c).map .mark
  | .dot, c => if c.isDigit then some (.numeral [c, '.']) else none
  | .slash, c =>
    if c = '/' then some .lineComment
    else if c = '*' then some (.blockComment false)
    else if c = '=' then some (.mark .divAssign)
    else none
  | .half d, c =>
    if c ≠ d then none else if d = '&' then some (.mark .and) else some (.mark .or)
  | _, _ => none

/-- The token under way when nothing more belongs to it; `none` when it is incomplete. -/
def token? : Mode → Option (Option Token)
  | .ready => some none
  | .word chars => some (some (.word (String.ofList chars.reverse)))
  | .numeral chars => (numeral? chars.reverse).map fun n => some (.number n)
  | .mark m => some (some (.mark m))
  | .dot => some (some (.mark .dot))
  | .slash => some (some (.mark .slash))
  | .lineComment => some none
  | .half _ => none
  | .blockComment _ => none
  | .text _ _ _ => none

end Mode

/-- The state of the scanner. -/
structure State where
  mode : Mode
  /-- a line was broken since the last token -/
  newLine : Bool
deriving Repr, DecidableEq, Inhabited

namespace State

/-- Nothing has been seen. -/
def initial : State := ⟨.ready, false⟩

/-- A character when no token is under way. -/
def begin? (newLine : Bool) (c : Char) : Option State :=
  if isLineBreak c then some ⟨.ready, true⟩
  else if isBlank c then some ⟨.ready, newLine⟩
  else (Mode.start? c).map fun mode => ⟨mode, newLine⟩

/-- The end of the token under way. -/
def settle? (s : State) : Option (List Lexeme × Bool) :=
  s.mode.token?.map fun
    | none => ([], s.newLine)
    | some token => ([⟨token, s.newLine⟩], false)

/-- One character: the tokens it completes, and the state after it. -/
def step (s : State) (c : Char) : Option (List Lexeme × State) :=
  match s.mode with
  | .text quote units escape =>
    if c = quote ∧ escape.closes then
      some ([⟨.text (String.ofList (Units.join units.reverse)), s.newLine⟩], ⟨.ready, false⟩)
    else (textStep units escape c).map fun (units, escape) =>
      ([], ⟨.text quote units escape, s.newLine⟩)
  | .lineComment =>
    some ([], if isLineBreak c then ⟨.ready, true⟩ else s)
  | .blockComment star =>
    some ([], if star && c == '/' then ⟨.ready, s.newLine⟩
      else ⟨.blockComment (c == '*'), s.newLine || isLineBreak c⟩)
  | mode =>
    match mode.extend? c with
    | some mode => some ([], ⟨mode, s.newLine⟩)
    | none => do
      let (out, newLine) ← s.settle?
      let next ← begin? newLine c
      return (out, next)

/-- A text: the tokens it completes, and the state after it. -/
def run (s : State) : List Char → Option (List Lexeme × State)
  | [] => some ([], s)
  | c :: cs => do
    let (out, s) ← s.step c
    let (more, s) ← s.run cs
    return (out ++ more, s)

/-- A run over two texts is a run over the first and a run over the second. -/
theorem run_append (s : State) (as bs : List Char) :
    s.run (as ++ bs) = do
      let (out, s) ← s.run as
      let (more, s) ← s.run bs
      return (out ++ more, s) := by
  induction as generalizing s with
  | nil => cases h : s.run bs <;> simp [run, h]
  | cons c cs ih =>
    simp only [List.cons_append, run, ih]
    cases s.step c with
    | none => rfl
    | some r =>
      obtain ⟨out, s'⟩ := r
      simp only [Option.bind_eq_bind, Option.bind_some, Option.pure_def]
      cases s'.run cs with
      | none => rfl
      | some q =>
        obtain ⟨more, s''⟩ := q
        simp only [Option.bind_some]
        cases s''.run bs with
        | none => rfl
        | some p => simp [List.append_assoc]

end State

/-- The tokens of a whole text. -/
def Lexeme.scan? (cs : List Char) : Option (List Lexeme) := do
  let (out, s) ← State.initial.run cs
  let (last, _) ← s.settle?
  return out ++ last

end ViewDesign.Script
