import ViewDesign.Decimal.Reading
import ViewDesign.Document.Node

/-!
# Reading JSON texts

`Node.readJson` turns a text into the tree of its value.  It never fails: at the first fault the
tree holds `Node.broken` and nothing after it.  Every reader returns the text that follows, or
`none` once a fault has been met, so that no reader goes on after one.

* `readString?`      the characters of a string up to its closing quote;
* `readValue`        a value;
* `readItems`        the elements after an opening bracket or a comma;
* `readMembers`      the members after an opening brace or a comma.

The readers take the number of steps they may still make; twice the length of the text is always
enough, since of two steps one consumes a character.
-/

namespace ViewDesign.Json

/-! ## Blanks and strings -/

/-- The blanks that may stand between the parts of a text. -/
def isBlank (c : Char) : Bool := c == ' ' || c == '\n' || c == '\t' || c == '\r'

/-- The text without leading blanks. -/
def skipBlank (cs : List Char) : List Char := cs.dropWhile isBlank

/-- The value of four hexadecimal digits. -/
def hexQuad? (a b c d : Char) : Option Nat := Decimal.natural? 16 [a, b, c, d]

/-- The character of an escape letter. -/
def escapeLetter? (c : Char) : Option Char :=
  if c = '"' then some '"'
  else if c = '\\' then some '\\'
  else if c = '/' then some '/'
  else if c = 'b' then some '\x08'
  else if c = 'f' then some '\x0c'
  else if c = 'n' then some '\n'
  else if c = 'r' then some '\r'
  else if c = 't' then some '\t'
  else none

/-- One unit of a string: a character, or half of a pair of escapes. -/
inductive Piece where
  | char (c : Char)
  | high (n : Nat)
  | low (n : Nat)
deriving Repr, DecidableEq, Inhabited

/-- The piece of a sixteen-bit escape. -/
def Piece.ofUnit (n : Nat) : Piece :=
  if 0xD800 ≤ n ∧ n < 0xDC00 then .high n
  else if 0xDC00 ≤ n ∧ n < 0xE000 then .low n
  else .char (Char.ofNat n)

/-- Joins the halves of pairs; `none` when a half stands alone. -/
def joinPieces? : List Piece → Option (List Char)
  | [] => some []
  | .char c :: rest => (joinPieces? rest).map (c :: ·)
  | .high h :: .low l :: rest =>
    (joinPieces? rest).map (Char.ofNat ((h - 0xD800) * 1024 + (l - 0xDC00) + 0x10000) :: ·)
  | .high _ :: _ => none
  | .low _ :: _ => none

/-- The pieces of a string up to its closing quote and the text after it. Control characters,
unknown escapes and the end of the text are faults. -/
def readPieces? : List Char → Option (List Piece × List Char)
  | [] => none
  | '"' :: rest => some ([], rest)
  | '\\' :: 'u' :: a :: b :: c :: d :: rest => do
    let n ← hexQuad? a b c d
    let (pieces, rest) ← readPieces? rest
    return (.ofUnit n :: pieces, rest)
  | '\\' :: e :: rest => do
    let c ← escapeLetter? e
    let (pieces, rest) ← readPieces? rest
    return (.char c :: pieces, rest)
  | c :: rest =>
    if c.toNat < 32 ∨ c = '\\' then none
    else do
      let (pieces, rest) ← readPieces? rest
      return (.char c :: pieces, rest)

/-- A string after its opening quote. -/
def readString? (cs : List Char) : Option (Option String × List Char) :=
  (readPieces? cs).map fun (pieces, rest) => ((joinPieces? pieces).map String.ofList, rest)

/-! ## Values -/

/-- A text after a literal word, if it starts with the word. -/
def afterWord? : List Char → List Char → Option (List Char)
  | [], cs => some cs
  | w :: ws, c :: cs => if w = c then afterWord? ws cs else none
  | _ :: _, [] => none

/-- A node for a literal word. -/
def readWord (word : List Char) (node : Node) (cs : List Char) : Node × Option (List Char) :=
  match afterWord? word cs with
  | some rest => (node, some rest)
  | none => (.broken, none)

/-- A node for a number literal. -/
def readNumeral (cs : List Char) : Node × Option (List Char) :=
  match Numeral.read? cs with
  | some (n, rest) => (.numeral n, some rest)
  | none => (.broken, none)

mutual

/-- The value at the start of a text. -/
def readValue : Nat → List Char → Node × Option (List Char)
  | 0, _ => (.broken, none)
  | fuel + 1, cs =>
    match skipBlank cs with
    | [] => (.broken, none)
    | '"' :: rest =>
      match readString? rest with
      | some (s, rest) => (.string s, some rest)
      | none => (.broken, none)
    | '[' :: rest =>
      match skipBlank rest with
      | ']' :: rest => (.sequence [], some rest)
      | rest =>
        let (items, rest) := readItems fuel rest
        (.sequence items, rest)
    | '\x7b' :: rest =>
      match skipBlank rest with
      | '\x7d' :: rest => (.mapping [], some rest)
      | rest =>
        let (members, rest) := readMembers fuel rest
        (.mapping members, rest)
    | 'n' :: rest => readWord ['u', 'l', 'l'] .null rest
    | 't' :: rest => readWord ['r', 'u', 'e'] (.bool true) rest
    | 'f' :: rest => readWord ['a', 'l', 's', 'e'] (.bool false) rest
    | cs => readNumeral cs

/-- The elements of an array, from the first one that is still to come. -/
def readItems : Nat → List Char → List Node × Option (List Char)
  | 0, _ => ([.broken], none)
  | fuel + 1, cs =>
    match readValue fuel cs with
    | (v, none) => ([v], none)
    | (v, some rest) =>
      match skipBlank rest with
      | ']' :: rest => ([v], some rest)
      | ',' :: rest =>
        let (items, rest) := readItems fuel rest
        (v :: items, rest)
      | _ => ([v, .broken], none)

/-- The members of an object, from the first one that is still to come.  A name that is no string
ends the tree, and so does a missing colon; what stands in its place is kept. -/
def readMembers : Nat → List Char → List (Node × Node) × Option (List Char)
  | 0, _ => ([(.broken, .broken)], none)
  | fuel + 1, cs =>
    match readValue fuel cs with
    | (.string k, some rest) =>
      match skipBlank rest with
      | ':' :: rest =>
        match readValue fuel rest with
        | (v, none) => ([(.string k, v)], none)
        | (v, some rest) =>
          match skipBlank rest with
          | '\x7d' :: rest => ([(.string k, v)], some rest)
          | ',' :: rest =>
            let (members, rest) := readMembers fuel rest
            ((.string k, v) :: members, rest)
          | _ => ([(.string k, v), (.broken, .broken)], none)
      | _ => ([(.string k, .broken)], none)
    | (k, _) => ([(k, .broken)], none)

end

/-! ## Whole texts -/

/-- The tree of a text, and whether nothing but blanks follows its value. -/
structure Source where
  root : Node
  ends : Bool
deriving Inhabited

/-- Reads a whole text. -/
def Source.ofChars (cs : List Char) : Source :=
  match readValue (2 * cs.length + 1) cs with
  | (root, none) => ⟨root, false⟩
  | (root, some rest) => ⟨root, (skipBlank rest).isEmpty⟩

/-- Reads a whole text. -/
def Source.ofText (text : String) : Source := .ofChars text.toList

end ViewDesign.Json
