/-!
# What a binary64 float denotes

A float is read off its bits as not a number, an infinity, or `± s * 2 ^ e` with naturals and
integers, so that every later question about it (which decimals round to it, what remains of a
division, whether it is whole) is a question of exact arithmetic.

* `Binary64.ofFloat`       the reading;
* `Binary64.isFinite`      whether it is a number;
* `Binary64.rounded`       the float nearest to `± s * 2 ^ e`;
* `Binary64.remainder`     the exact remainder of two floats;
* `Binary64.wholePart?`    the integer a float denotes, when it denotes one;
* `Binary64.truncated?`    the float rounded toward zero.
-/

namespace ViewDesign

/-- The number a float stands for. -/
inductive Binary64 where
  | nan
  | infinite (negative : Bool)
  /-- `± significand * 2 ^ exponent` -/
  | finite (negative : Bool) (significand : Nat) (exponent : Int)
deriving Repr, DecidableEq, Inhabited

namespace Binary64

/-- The exponent of the subnormal floats, the least there is. -/
def leastExponent : Int := -1074

/-- The least significand of the other floats, `2 ^ 52`. -/
def leastNormal : Nat := 4503599627370496

/-- The reading of the three bit fields: sign, eleven bits of exponent, fifty-two of fraction. -/
def ofFields (negative : Bool) (exponent fraction : Nat) : Binary64 :=
  if exponent = 2047 then
    if fraction = 0 then .infinite negative else .nan
  else if exponent = 0 then .finite negative fraction leastExponent
  else .finite negative (leastNormal + fraction) ((exponent : Int) - 1075)

/-- What the float denotes. -/
def ofFloat (x : Float) : Binary64 :=
  let bits := x.toBits.toNat
  ofFields (bits / 9223372036854775808 == 1) (bits / leastNormal % 2048) (bits % leastNormal)

/-- Whether the float is neither infinite nor not a number. -/
def isFinite (x : Float) : Bool :=
  match ofFloat x with
  | .finite _ _ _ => true
  | _ => false

/-- The float nearest to `± significand * 2 ^ exponent`.  A power of two below one is a power of
five times a power of ten. -/
def rounded (negative : Bool) (significand : Nat) (exponent : Int) : Float :=
  let size :=
    if 0 ≤ exponent then Float.ofNat (significand * Nat.pow 2 exponent.toNat)
    else Float.ofScientific (significand * Nat.pow 5 (-exponent).toNat) true (-exponent).toNat
  if negative then -size else size

/-- The remainder of `x` by `y` with the sign of `x`, where neither is infinite and `y` is not
zero.  It is computed in units of the finer of the two exponents and is exact. -/
def remainder (negative : Bool) (s : Nat) (e : Int) (t : Nat) (f : Int) : Float :=
  let unit := min e f
  rounded negative (s * Nat.pow 2 (e - unit).toNat % (t * Nat.pow 2 (f - unit).toNat)) unit

/-- The integer that `± significand * 2 ^ exponent` is, if it is whole. -/
def wholePart? (negative : Bool) (significand : Nat) (exponent : Int) : Option Int :=
  let signed (n : Nat) : Int := if negative then -(n : Int) else n
  if 0 ≤ exponent then some (signed (significand * Nat.pow 2 exponent.toNat))
  else if significand % Nat.pow 2 (-exponent).toNat = 0 then
    some (signed (significand / Nat.pow 2 (-exponent).toNat))
  else none

/-- Rounded toward zero; `none` when it is no finite number. -/
def truncated? : Binary64 → Option Int
  | .finite negative s e =>
    let size : Nat := if 0 ≤ e then s * Nat.pow 2 e.toNat else s / Nat.pow 2 (-e).toNat
    some (if negative then -(size : Int) else size)
  | _ => none

end Binary64

end ViewDesign
