import ViewDesign.Decimal.Layout
import ViewDesign.NameMap

/-!
# JSON values

* `Json.Number`    an integer in `-2^63 … 2^64 - 1`, or a float;
* `Json`           a value; the members of an object in the order in which they are written;
* `Json.object`    the object of a list of members: ascending, the last of repeated names.
-/

namespace ViewDesign

/-- A JSON number. -/
inductive Json.Number where
  | int (i : Int)
  | float (x : Float)
deriving Inhabited

/-- A JSON value. -/
inductive Json where
  | null
  | bool (b : Bool)
  | num (n : Json.Number)
  | str (s : String)
  | arr (items : List Json)
  | obj (members : List (String × Json))
deriving Inhabited

namespace Json

/-- A float is written with the fewest digits that identify it, positionally from `0.00001` up to
`10^16`, and keeps a point. -/
def floatLayout : Decimal.Layout where
  positional := some (-4, 16)
  keepPoint := true
  signedZero := true
  notANumber := "null"
  infinity := "null"

/-- The greatest integer that stays one, `2 ^ 64 - 1`. -/
def maxInt : Int := 18446744073709551615

/-- The least integer that stays one, `-2 ^ 63`. -/
def minInt : Int := -9223372036854775808

/-- The JSON number of a float; an infinity and not-a-number have none. -/
def ofFloat (x : Float) : Json :=
  if Binary64.isFinite x then .num (.float x) else .null

/-- The integer `i` as a value. -/
def ofInt (i : Int) : Json := .num (.int i)

/-- The number `n` as a value. -/
def ofCount (n : UInt64) : Json := ofInt n.toNat

/-- An object of members that may come in any order and repeat. -/
def object (members : List (String × Json)) : Json := .obj (Entries.ofList members)

/-- The value of a member. -/
def get? (v : Json) (name : String) : Option Json :=
  match v with
  | .obj members => Entries.get? name members
  | _ => none

/-- The text of a string. -/
def str? : Json → Option String
  | .str s => some s
  | _ => none

/-- The elements of an array. -/
def arr? : Json → Option (List Json)
  | .arr items => some items
  | _ => none

/-- The truth value of a boolean. -/
def bool? : Json → Option Bool
  | .bool b => some b
  | _ => none

end Json

end ViewDesign
