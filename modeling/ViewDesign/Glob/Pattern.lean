import ViewDesign.Decimal.Shortest

/-!
# Patterns for file names

* `Glob.Piece`      one part of a pattern: a character, a wildcard, a class of characters;
* `Glob.parse`      the parts of a pattern, or the fault and its position;
* `Glob.isMatch`    whether a name fits.

`?` stands for one character, `*` for any run of them, `[…]` and `[!…]` for one character in or
outside a class.  `**` stands for any number of directories and must be a whole component.
-/

namespace ViewDesign.Glob

/-- One part of a class of characters. -/
inductive CharClass where
  | one (c : Char)
  | range (first last : Char)
deriving Repr, DecidableEq, Inhabited

/-- Whether a character belongs to a part of a class. -/
def CharClass.holds (c : Char) : CharClass → Bool
  | .one d => c == d
  | .range first last => first ≤ c && c ≤ last

/-- One part of a pattern. -/
inductive Piece where
  | char (c : Char)
  | anyChar
  | anyRun
  | anyDirectories
  | within (cs : List CharClass)
  | except (cs : List CharClass)
deriving Repr, DecidableEq, Inhabited

/-- What is wrong with a pattern. -/
inductive FaultKind where
  | tooManyStars
  | partOfComponent
  | badClass
deriving Repr, DecidableEq, Inhabited

/-- A fault and the position of the character that shows it. -/
structure Fault where
  position : Nat
  kind : FaultKind
deriving Repr, DecidableEq, Inhabited

/-- The wording of a fault. -/
def FaultKind.message : FaultKind → String
  | .tooManyStars => "wildcards are either regular `*` or recursive `**`"
  | .partOfComponent => "recursive wildcards must form a single path component"
  | .badClass => "invalid range pattern"

/-- The wording of a fault with its position. -/
def Fault.message (f : Fault) : String :=
  "Pattern syntax error near position " ++ String.ofList (Decimal.digitsOf f.position) ++ ": "
    ++ f.kind.message

/-! ## Reading a pattern -/

/-- The members of a class, where three characters around a hyphen are a range. -/
def readClass : List Char → List CharClass
  | a :: '-' :: b :: rest => .range a b :: readClass rest
  | a :: rest => .one a :: readClass rest
  | [] => []

/-- The text up to a closing bracket and the text after it; the first character of a class always
belongs to it. -/
def splitClass? : List Char → Option (List Char × List Char)
  | [] => none
  | first :: rest =>
    match rest.dropWhile (· ≠ ']') with
    | _ :: after => some (first :: rest.takeWhile (· ≠ ']'), after)
    | [] => none

/-- A class after its opening bracket, and the text after it. -/
def readBracket? : List Char → Option (Piece × List Char)
  | '!' :: rest => (splitClass? rest).map fun (cs, after) => (.except (readClass cs), after)
  | rest => (splitClass? rest).map fun (cs, after) => (.within (readClass cs), after)

/-- Reads a pattern from a position on.  `before` is the character in front of it. The first
argument bounds the number of parts. -/
def parseFrom : Nat → Nat → Option Char → List Char → Except Fault (List Piece)
  | 0, _, _, _ => .ok []
  | _ + 1, _, _, [] => .ok []
  | fuel + 1, i, _, '?' :: rest => do
    return .anyChar :: (← parseFrom fuel (i + 1) (some '?') rest)
  | fuel + 1, i, before, '*' :: rest =>
    let more := (rest.takeWhile (· = '*')).length
    let after := rest.dropWhile (· = '*')
    if 1 < more then .error ⟨i + 2, .tooManyStars⟩
    else if more = 0 then do
      return .anyRun :: (← parseFrom fuel (i + 1) (some '*') rest)
    else if before ≠ none ∧ before ≠ some '/' then .error ⟨i - 1, .partOfComponent⟩
    else
      match after with
      | [] => .ok [.anyDirectories]
      | '/' :: after => do
        return .anyDirectories :: (← parseFrom fuel (i + 3) (some '/') after)
      | _ => .error ⟨i + 2, .partOfComponent⟩
  | fuel + 1, i, _, '[' :: rest =>
    match readBracket? rest with
    | some (piece, after) => do
      return piece :: (← parseFrom fuel (i + 1 + (rest.length - after.length)) (some ']') after)
    | none => .error ⟨i, .badClass⟩
  | fuel + 1, i, _, c :: rest => do
    return .char c :: (← parseFrom fuel (i + 1) (some c) rest)

/-- The parts of a pattern. -/
def parse (text : String) : Except Fault (List Piece) :=
  parseFrom text.length 0 none text.toList

/-! ## Matching -/

/-- Whether a part of a pattern accepts a character. -/
def Piece.accepts (c : Char) : Piece → Bool
  | .char d => c == d
  | .anyChar => true
  | .within cs => cs.any (CharClass.holds c)
  | .except cs => !cs.any (CharClass.holds c)
  | .anyRun | .anyDirectories => true

/-- Whether a test holds of the list or of one of its tails. -/
def anySuffix (test : List Char → Bool) : List Char → Bool
  | [] => test []
  | c :: cs => test (c :: cs) || anySuffix test cs

/-- Whether a name fits a pattern.  A run is tried with every suffix of the name. -/
def isMatch : List Piece → List Char → Bool
  | [], cs => cs.isEmpty
  | .anyRun :: ps, cs => anySuffix (isMatch ps) cs
  | .anyDirectories :: ps, cs => anySuffix (isMatch ps) cs
  | _ :: _, [] => false
  | p :: ps, c :: cs => p.accepts c && isMatch ps cs

/-- The text of a pattern without wildcards. -/
def literal? : List Piece → Option (List Char)
  | [] => some []
  | .char c :: ps => (literal? ps).map (c :: ·)
  | _ :: _ => none

end ViewDesign.Glob
