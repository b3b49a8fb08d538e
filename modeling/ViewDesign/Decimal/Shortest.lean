import ViewDesign.Decimal.Binary64

/-!
# The fewest decimal digits that identify a float

The reals that round to `s * 2 ^ e` form an interval, from halfway to the float below to halfway
to the float above, its ends included exactly when `s` is even.  `shortest` walks the decimal
grids from one digit upwards and tries the two neighbours of the value on each; the first grid
with a point in the interval wins, of two points the nearer one, of two equally near ones the even
one.  All comparisons are between naturals, after cross-multiplication.

* `Decimal`             a natural times a power of ten;
* `Interval.ofFinite`   the interval of a float;
* `Interval.holds`      whether a decimal lies in it;
* `shortest`            the decimal chosen.
-/

namespace ViewDesign

/-- The number `digits * 10 ^ exponent`. -/
structure Decimal where
  digits : Nat
  exponent : Int
deriving Repr, DecidableEq, Inhabited

namespace Decimal

/-! ## Decimal digits of a natural -/

/-- The character of a digit below ten. -/
def digitChar (d : Nat) : Char := Char.ofNat (48 + d)

/-- The decimal digits of `n`, the most significant first and no leading zero. -/
def digitsOf (n : Nat) : List Char :=
  if n < 10 then [digitChar n] else digitsOf (n / 10) ++ [digitChar (n % 10)]
termination_by n
decreasing_by omega

/-- The value of a run of digit characters that continues the number `start`. -/
def valueFrom (start : Nat) (digits : List Char) : Nat :=
  digits.foldl (fun value c => 10 * value + (c.toNat - 48)) start

/-- The value of a run of digit characters. -/
def valueOf (digits : List Char) : Nat := valueFrom 0 digits

/-- An integer in decimal, with a sign when it is negative. -/
def ofInt : Int → List Char
  | .ofNat n => digitsOf n
  | .negSucc n => '-' :: digitsOf (n + 1)

/-- The float nearest to the decimal.  Beyond four hundred places either way the answer is known
without computing the power of ten. -/
def toFloat (d : Decimal) : Float :=
  if d.digits = 0 then 0
  else
    let point : Int := (digitsOf d.digits).length + d.exponent
    if 400 < point then 1 / 0
    else if point < -400 then 0
    else if 0 ≤ d.exponent then Float.ofScientific d.digits false d.exponent.toNat
    else Float.ofScientific d.digits true (-d.exponent).toNat

/-- The same number without trailing zeros in its digits. -/
def trimmed (d : Decimal) : Decimal :=
  go (digitsOf d.digits).length d
where
  go : Nat → Decimal → Decimal
    | 0, d => d
    | n + 1, d =>
      if d.digits % 10 = 0 ∧ d.digits ≠ 0 then go n ⟨d.digits / 10, d.exponent + 1⟩ else d

/-! ## The rounding interval -/

/-- The reals that round to one float, as numerators over `denominator`. -/
structure Interval where
  low : Nat
  value : Nat
  high : Nat
  denominator : Nat
  /-- the ends belong to the interval -/
  closed : Bool

namespace Interval

/-- The interval of `s * 2 ^ e`.  Below a power of two the floats lie twice as dense, so the
interval is narrower there. -/
def ofFinite (s : Nat) (e : Int) : Interval :=
  let below := if s = Binary64.leastNormal ∧ Binary64.leastExponent < e then 1 else 2
  let quarter := e - 2
  let unit := Nat.pow 2 quarter.toNat
  { low := (4 * s - below) * unit
    value := 4 * s * unit
    high := (4 * s + 2) * unit
    denominator := Nat.pow 2 (-quarter).toNat
    closed := s % 2 == 0 }

/-- Compares `d * 10 ^ t` with `bound / denominator`. -/
def cmp (i : Interval) (d : Nat) (t : Int) (bound : Nat) : Ordering :=
  compare (d * Nat.pow 10 t.toNat * i.denominator) (bound * Nat.pow 10 (-t).toNat)

/-- Whether `d * 10 ^ t` lies in the interval. -/
def holds (i : Interval) (d : Nat) (t : Int) : Bool :=
  let atLow := i.cmp d t i.low
  let atHigh := i.cmp d t i.high
  (atLow == .gt || (i.closed && atLow == .eq)) && (atHigh == .lt || (i.closed && atHigh == .eq))

/-- The largest multiple of `10 ^ t` that does not exceed the value. -/
def floorAt (i : Interval) (t : Int) : Nat :=
  i.value * Nat.pow 10 (-t).toNat / (i.denominator * Nat.pow 10 t.toNat)

/-- The point of the grid `10 ^ t` that stands for the value, if one of its two neighbours there
lies in the interval. -/
def pick? (i : Interval) (t : Int) : Option Nat :=
  let d := i.floorAt t
  match i.holds d t, i.holds (d + 1) t with
  | true, false => some d
  | false, true => some (d + 1)
  | true, true =>
    match compare ((2 * d + 1) * Nat.pow 10 t.toNat * i.denominator)
      (2 * i.value * Nat.pow 10 (-t).toNat) with
    | .lt => some (d + 1)
    | .gt => some d
    | .eq => some (if d % 2 = 0 then d else d + 1)
  | false, false => none

/-- The `k` with `10 ^ (k - 1) ≤ value < 10 ^ k`, for a value above zero. -/
def magnitude (i : Interval) : Int :=
  if i.denominator ≤ i.value then (digitsOf (i.value / i.denominator)).length
  else
    let s := (digitsOf (i.denominator / i.value)).length
    if Nat.pow 10 (s - 1) * i.value = i.denominator then 2 - (s : Int) else 1 - (s : Int)

end Interval

/-- The shortest decimal that identifies the float `s * 2 ^ e`. Seventeen digits always do. -/
def shortest (s : Nat) (e : Int) : Decimal :=
  if s = 0 then ⟨0, 0⟩
  else
    let i := Interval.ofFinite s e
    let k := i.magnitude
    let found := (List.range 17).findSome? fun n =>
      let t := k - (n + 1 : Nat)
      (i.pick? t).map fun d => (⟨d, t⟩ : Decimal)
    (found.getD ⟨i.floorAt (k - 17), k - 17⟩).trimmed

end Decimal

end ViewDesign
