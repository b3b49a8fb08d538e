import ViewDesign.Json.Basic

/-!
# Number literals

A literal is kept as its digits until somebody asks for its value, because a literal may be
well-formed and still out of range, and a value that nobody asks for is no error.

* `Numeral`           the digits of a literal;
* `Numeral.read?`     splits a literal off a text;
* `Numeral.value?`    the number it stands for in a document, `none` beyond the range of floats;
* `Numeral.decimal`   the same number as a natural times a power of ten, unrounded.

In a document the digits are collected into sixty-four bits; digits that no longer fit are dropped
and only counted.  An integer that fits is exact.  Every other literal becomes the float nearest to
the collected digits, times or divided by a power of ten, rounded once more.
-/

namespace ViewDesign

/-- A number literal. -/
structure Numeral where
  negative : Bool
  /-- the digits before the point, at least one -/
  whole : List Char
  /-- the digits after the point, if there is one -/
  fraction : Option (List Char)
  /-- the sign and the digits of the exponent, if there is one; `true` is below zero -/
  exponent : Option (Bool × List Char)
deriving Repr, DecidableEq, Inhabited

namespace Numeral

/-! ## Reading a literal -/

/-- A leading minus. -/
def readSign : List Char → Bool × List Char
  | '-' :: r => (true, r)
  | cs => (false, cs)

/-- The digits before the point: a zero stands alone. -/
def readWhole? : List Char → Option (List Char × List Char)
  | '0' :: r => if (r.head?.map Char.isDigit).getD false then none else some (['0'], r)
  | c :: r =>
    if c.isDigit then some (c :: r.takeWhile Char.isDigit, r.dropWhile Char.isDigit) else none
  | [] => none

/-- The point and the digits after it, at least one. -/
def readFraction? : List Char → Option (Option (List Char) × List Char)
  | '.' :: r =>
    let digits := r.takeWhile Char.isDigit
    if digits.isEmpty then none else some (some digits, r.dropWhile Char.isDigit)
  | cs => some (none, cs)

/-- The sign of an exponent. -/
def readExponentSign : List Char → Bool × List Char
  | '+' :: r => (false, r)
  | '-' :: r => (true, r)
  | cs => (false, cs)

/-- The exponent mark, a sign and at least one digit. -/
def readExponent? : List Char → Option (Option (Bool × List Char) × List Char)
  | c :: r =>
    if c = 'e' ∨ c = 'E' then
      let (sign, r) := readExponentSign r
      let digits := r.takeWhile Char.isDigit
      if digits.isEmpty then none else some (some (sign, digits), r.dropWhile Char.isDigit)
    else some (none, c :: r)
  | [] => some (none, [])

/-- The literal at the start of a text and what follows it. -/
def read? (cs : List Char) : Option (Numeral × List Char) := do
  let (negative, cs) := readSign cs
  let (whole, cs) ← readWhole? cs
  let (fraction, cs) ← readFraction? cs
  let (exponent, cs) ← readExponent? cs
  return (⟨negative, whole, fraction, exponent⟩, cs)

/-! ## The number a literal denotes -/

/-- The exponent as an integer. -/
def exponentValue (n : Numeral) : Int :=
  match n.exponent with
  | none => 0
  | some (true, ds) => -(Decimal.valueOf ds : Int)
  | some (false, ds) => Decimal.valueOf ds

/-- The literal without its sign as a natural times a power of ten. -/
def decimal (n : Numeral) : Decimal :=
  let fraction := n.fraction.getD []
  ⟨Decimal.valueOf (n.whole ++ fraction), n.exponentValue - fraction.length⟩

/-! ## Its value in a document -/

/-- The greatest value of sixty-four bits, `2 ^ 64 - 1`. -/
def maxWord : Nat := 18446744073709551615

/-- Appends digits to a number as long as it fits sixty-four bits; also gives the digits left. -/
def collect (start : Nat) : List Char → Nat × List Char
  | [] => (start, [])
  | c :: rest =>
    let next := 10 * start + (c.toNat - 48)
    if next ≤ maxWord then collect next rest else (start, c :: rest)

/-- A power of ten as a float, exact or the nearest one. -/
def powerOfTen (k : Nat) : Float := Float.ofScientific 1 false k

/-- Divides by `10 ^ k` in steps of at most `10 ^ 308`; after three full steps nothing is left. -/
def divideByPower : Nat → Float → Nat → Float
  | 0, _, _ => 0
  | steps + 1, x, k =>
    if k ≤ 308 then x / powerOfTen k
    else divideByPower steps (x / powerOfTen 308) (k - 308)

/-- `significand * 10 ^ exponent`, rounded after each step; `none` when it exceeds all floats. -/
def scaled? (significand : Nat) (exponent : Int) : Option Float :=
  let x := Float.ofNat significand
  if exponent < 0 then some (divideByPower 4 x (-exponent).toNat)
  else if significand = 0 then some 0
  else if 308 < exponent then none
  else
    let y := x * powerOfTen exponent.toNat
    if y.isInf then none else some y

/-- The number in a document, `none` when it is out of range. -/
def value? (n : Numeral) : Option Json.Number :=
  let (significand, left) := collect 0 n.whole
  match n.fraction, n.exponent, left with
  | none, none, [] =>
    if !n.negative then some (.int significand)
    else if 0 < significand ∧ Json.minInt ≤ -(significand : Int) then
      some (.int (-(significand : Int)))
    else some (.float (-(Float.ofNat significand)))
  | fraction, _, left =>
    let digits := fraction.getD []
    let (significand, dropped) := collect significand digits
    let taken : Int := (digits.length : Int) - dropped.length
    (scaled? significand (n.exponentValue + left.length - taken)).map fun x =>
      .float (if n.negative then -x else x)

end Numeral

end ViewDesign
