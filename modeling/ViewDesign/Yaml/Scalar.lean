import ViewDesign.Decimal.Reading
import ViewDesign.Document.Complaint
import ViewDesign.Document.Node

/-!
# What a YAML scalar stands for

A quoted scalar is a text.  A plain one is tried in turn as null, a boolean, an integer in one of
four bases, a float, and is a text when all of these fail.  A tag overrides this: the core tags
force a type, every other tag makes the scalar a text.
-/

namespace ViewDesign.Scalar

/-! ## Integers -/

/-- The bases that are announced by two characters. -/
def announced? : List Char → Option (Nat × List Char)
  | '0' :: 'x' :: r => some (16, r)
  | '0' :: 'o' :: r => some (8, r)
  | '0' :: 'b' :: r => some (2, r)
  | _ => none

/-- A leading sign of either kind is dropped. -/
def dropSign : List Char → List Char
  | '+' :: r => r
  | '-' :: r => r
  | cs => cs

/-- Several digits after a leading zero are no number. -/
def zeroPadded (cs : List Char) : Bool :=
  match dropSign cs with
  | '0' :: r => !r.isEmpty && r.all Char.isDigit
  | _ => false

/-- An integer in decimal or after the mark of another base; `none` if the digits do not fit. -/
def unsigned? (whole cs : List Char) : Option Nat :=
  match (announced? cs).bind fun (base, r) => Decimal.natural? base r with
  | some n => some n
  | none => if zeroPadded whole then none else Decimal.natural? 10 cs

/-- The integer a plain scalar denotes, with an optional sign. -/
def integer? (cs : List Char) : Option Int :=
  match cs with
  | '-' :: r => (unsigned? cs r).map fun n => -(n : Int)
  | '+' :: r => (unsigned? cs r).map fun n => (n : Int)
  | _ => (unsigned? cs cs).map fun n => (n : Int)

/-- The least integer of twice sixty-four bits, `-2 ^ 127`. -/
def minWide : Int := -170141183460469231731687303715884105728

/-- The greatest integer of twice sixty-four bits, `2 ^ 128 - 1`. -/
def maxWide : Int := 340282366920938463463374607431768211455

/-- An integer of sixty-four bits, of twice as many, or none of either. -/
def foundInteger? (i : Int) : Option Found :=
  if Json.minInt ≤ i ∧ i ≤ Json.maxInt then some (.int i)
  else if minWide ≤ i ∧ i ≤ maxWide then some (.wide i)
  else none

/-! ## Floats -/

/-- A finite decimal with an optional sign as the nearest float. -/
def finite? (cs : List Char) : Option Float :=
  let (negative, r) := match cs with
    | '-' :: r => (true, r)
    | '+' :: r => (false, r)
    | r => (false, r)
  match Decimal.read? r with
  | none => none
  | some d =>
    let x := d.toFloat
    if x.isInf then none else some (if negative then -x else x)

/-- The float a plain scalar denotes: a decimal in range, or one of the marked words. -/
def float? (s : String) : Option Float :=
  if s ∈ [".inf", ".Inf", ".INF", "+.inf", "+.Inf", "+.INF"] then some (1 / 0)
  else if s ∈ ["-.inf", "-.Inf", "-.INF"] then some (-1 / 0)
  else if s ∈ [".nan", ".NaN", ".NAN"] then some (0 / 0)
  else finite? s.toList

/-! ## Scalars -/

/-- The two spellings of null. -/
def isNullText (s : String) : Bool := s == "~" || s == "null"

/-- What an untagged plain scalar stands for. -/
def plainFound (s : String) : Found :=
  if isNullText s then .unit
  else if s = "true" then .bool true
  else if s = "false" then .bool false
  else
    match (integer? s.toList).bind foundInteger? with
    | some found => found
    | none =>
      if zeroPadded s.toList then .text s
      else match float? s with
        | some x => .float x
        | none => .text s

/-- A decimal integer of sixty-four bits with an optional sign. -/
def decimalInteger? (cs : List Char) : Option Int :=
  let i? : Option Int := match cs with
    | '-' :: r => (Decimal.natural? 10 r).map fun n => -(n : Int)
    | '+' :: r => (Decimal.natural? 10 r).map fun n => (n : Int)
    | r => (Decimal.natural? 10 r).map fun n => (n : Int)
  i?.filter fun i => decide (Json.minInt ≤ i ∧ i < -Json.minInt)

/-- What a scalar under a core tag stands for. -/
def taggedFound (suffix text : String) : Except Complaint Found :=
  let orRefuse (expected : String) : Option Found → Except Complaint Found
    | some found => .ok found
    | none => .error (.unexpectedValue (.text text) expected)
  if suffix = "bool" then
    orRefuse "a boolean"
      (if text = "true" then some (.bool true)
        else if text = "false" then some (.bool false) else none)
  else if suffix = "int" then orRefuse "an integer" ((decimalInteger? text.toList).map .int)
  else if suffix = "float" then orRefuse "a float" ((float? text).map .float)
  else if suffix = "null" then orRefuse "null" (if isNullText text then some .unit else none)
  else .ok (.text text)

/-- What a scalar stands for. -/
def found (s : Scalar) : Except Complaint Found :=
  match s.tag with
  | some ("!!", suffix) => taggedFound suffix s.text
  | some _ => .ok (.text s.text)
  | none => .ok (if s.plain then plainFound s.text else .text s.text)

/-- Whether a scalar leaves an optional value out. -/
def isAbsent (s : Scalar) : Except Complaint Bool :=
  if !s.plain then .ok false
  else match s.tag with
    | some ("!!", "null") =>
      if isNullText s.text then .ok true
      else .error (.unexpectedValue (.text s.text) "null")
    | some _ => .ok false
    | none => .ok (isNullText s.text)

end ViewDesign.Scalar
