import ViewDesign.Decimal.Shortest

/-!
# Laying out a decimal

Which digits a float is written with is settled by `Decimal.shortest`; where the point stands and
when an exponent is used is the decision of each output format, and one `Layout` value holds it.
-/

namespace ViewDesign.Decimal

/-- How a decimal is written. The position of the point is counted from the first digit: it is `1`
for `5.25`, `0` for `0.525`. -/
structure Layout where
  /-- the point positions from the first to the last that are written without an exponent;
  `none` when all are -/
  positional : Option (Int × Int)
  /-- a whole number ends in `.0` -/
  keepPoint : Bool
  /-- a zero below zero keeps its sign -/
  signedZero : Bool
  notANumber : String
  infinity : String

namespace Layout

/-- Digits with the point after the `n`-th of them, filled up with zeros on either side. -/
def placePoint (keepPoint : Bool) (digits : List Char) (n : Int) : List Char :=
  if n ≤ 0 then '0' :: '.' :: (List.replicate (-n).toNat '0' ++ digits)
  else
    let n := n.toNat
    if digits.length ≤ n then
      digits ++ List.replicate (n - digits.length) '0' ++ (if keepPoint then ['.', '0'] else [])
    else digits.take n ++ '.' :: digits.drop n

/-- One digit, the others after the point, and an exponent with its sign. -/
def scientific (digits : List Char) (exponent : Int) : List Char :=
  let mantissa := match digits with
    | d :: ds => if ds.isEmpty then [d] else d :: '.' :: ds
    | [] => []
  mantissa ++ 'e' :: (if 0 ≤ exponent then '+' else '-') :: digitsOf exponent.natAbs

/-- The text of a decimal. -/
def write (l : Layout) (d : Decimal) : List Char :=
  let digits := digitsOf d.digits
  let point : Int := digits.length + d.exponent
  match l.positional with
  | none => placePoint l.keepPoint digits point
  | some (least, greatest) =>
    if least ≤ point ∧ point ≤ greatest then placePoint l.keepPoint digits point
    else scientific digits (point - 1)

/-- The text of a float. -/
def float (l : Layout) (x : Float) : String :=
  match Binary64.ofFloat x with
  | .nan => l.notANumber
  | .infinite negative => if negative then "-" ++ l.infinity else l.infinity
  | .finite negative s e =>
    let text := l.write (shortest s e)
    String.ofList (if negative && (l.signedZero || s != 0) then '-' :: text else text)

end Layout

end ViewDesign.Decimal
