import ViewDesign.Decimal.Layout
import ViewDesign.Json.Numeral

/-!
# Numbers of a script

Every number is a binary64 float.  The whole ones of at most `2 ^ 53`, a zero below zero apart, are
kept as integers, so that counting, indexing and adding small numbers is integer arithmetic; all
others are kept as floats.  Each float has one form: `Number.ofFloat` chooses it.

* `Number`              the two forms;
* `Number.ofInt`        the number nearest to an integer;
* `Number.ofDecimal`    the number nearest to a decimal;
* `Number.text`         its text.
-/

namespace ViewDesign.Script

/-- A number. -/
inductive Number where
  /-- a whole number of at most `2 ^ 53` -/
  | int (i : Int)
  | double (x : Float)
deriving Inhabited

namespace Number

/-- The greatest integer up to which all integers are numbers, `2 ^ 53`. -/
def greatestExact : Nat := 9007199254740992

/-! ## Making numbers -/

/-- The float of a number. -/
def toFloat : Number → Float
  | .int i => Float.ofInt i
  | .double x => x

/-- The number nearest to an integer. -/
def ofInt (i : Int) : Number :=
  if i.natAbs ≤ greatestExact then .int i else .double (Float.ofInt i)

/-- The number of a float. -/
def ofFloat (x : Float) : Number :=
  match Binary64.ofFloat x with
  | .finite negative s e =>
    match Binary64.wholePart? negative s e with
    | some i =>
      if i.natAbs ≤ greatestExact ∧ ¬ (negative = true ∧ s = 0) then .int i else .double x
    | none => .double x
  | _ => .double x

/-- Not a number. -/
def nan : Number := .double (0 / 0)

/-- The infinity above all numbers. -/
def infinity : Number := .double (1 / 0)

/-- The zero below zero. -/
def negativeZero : Number := .double (-0.0)

/-- The number with the opposite sign. -/
def neg : Number → Number
  | .int i => if i = 0 then negativeZero else .int (-i)
  | .double x => ofFloat (-x)

/-- The number nearest to a decimal.  A whole one goes through the integers. -/
def ofDecimal (d : Decimal) : Number :=
  if 0 ≤ d.exponent ∧ d.exponent ≤ 400 then ofInt (d.digits * Nat.pow 10 d.exponent.toNat : Nat)
  else ofFloat d.toFloat

/-- The number of a literal. -/
def ofNumeral (n : Numeral) : Number :=
  if n.negative then neg (ofDecimal n.decimal) else ofDecimal n.decimal

/-! ## Arithmetic -/

/-- The sum. -/
def add : Number → Number → Number
  | .int i, .int j => ofInt (i + j)
  | x, y => ofFloat (x.toFloat + y.toFloat)

/-- The difference. -/
def sub : Number → Number → Number
  | .int i, .int j => ofInt (i - j)
  | x, y => ofFloat (x.toFloat - y.toFloat)

/-- The product.  Zero times a negative number is the zero below zero. -/
def mul : Number → Number → Number
  | .int i, .int j =>
    if i * j = 0 ∧ (i < 0 ∨ j < 0) then negativeZero else ofInt (i * j)
  | x, y => ofFloat (x.toFloat * y.toFloat)

/-- The quotient. -/
def div (x y : Number) : Number := ofFloat (x.toFloat / y.toFloat)

/-- The remainder of two floats, with the sign of the first.  There is none of an infinity and none
by zero; by an infinity the number itself remains. -/
def floatRemainder (x y : Float) : Number :=
  match Binary64.ofFloat x, Binary64.ofFloat y with
  | .finite negative s e, .finite _ t f =>
    if t = 0 then nan else ofFloat (Binary64.remainder negative s e t f)
  | .finite _ _ _, .infinite _ => ofFloat x
  | _, _ => nan

/-- The remainder, with the sign of the first number. -/
def mod : Number → Number → Number
  | .int i, .int j =>
    if j = 0 then nan
    else
      let r := i.tmod j
      if r = 0 ∧ i < 0 then negativeZero else .int r
  | x, y => floatRemainder x.toFloat y.toFloat

/-! ## Comparison -/

/-- Whether two numbers are equal.  Not-a-number equals nothing. -/
def eq : Number → Number → Bool
  | .int i, .int j => i == j
  | x, y => x.toFloat == y.toFloat

/-- Whether a number is below another. -/
def lt : Number → Number → Bool
  | .int i, .int j => decide (i < j)
  | x, y => decide (x.toFloat < y.toFloat)

/-- Whether a number is at most another. -/
def le : Number → Number → Bool
  | .int i, .int j => decide (i ≤ j)
  | x, y => decide (x.toFloat ≤ y.toFloat)

/-- Whether a number counts as true: all do but the zeros and not-a-number. -/
def truth : Number → Bool
  | .int i => i != 0
  | .double x => !(x == 0 || x.isNaN)

/-! ## Texts -/

/-- A number is written with the fewest digits that identify it, positionally from `0.000001` up to
`10^21`; a whole number has no point and zero no sign. -/
def layout : Decimal.Layout where
  positional := some (-5, 21)
  keepPoint := false
  signedZero := false
  notANumber := "NaN"
  infinity := "Infinity"

/-- The text of a number. -/
def text : Number → String
  | .int i => String.ofList (Decimal.ofInt i)
  | .double x => layout.float x

/-- The JSON number of a float; an infinity and not-a-number have none. -/
def floatJson? (x : Float) : Option Json.Number :=
  if Binary64.isFinite x then some (.float x) else none

/-- The JSON number of a number; an integer that is not exact is the float nearest to it. -/
def json? : Number → Option Json.Number
  | .int i => if i.natAbs ≤ greatestExact then some (.int i) else floatJson? (Float.ofInt i)
  | .double x => floatJson? x

end Number

end ViewDesign.Script
