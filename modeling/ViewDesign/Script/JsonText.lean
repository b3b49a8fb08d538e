import ViewDesign.Json.Printer
import ViewDesign.Json.Reader
import ViewDesign.Script.Coercion

/-!
# JSON texts and the values of a script

* `Value.ofNode`       makes the value of a document tree, with an object for each level;
* `Value.parse`        from a text to a value;
* `Value.serialize`    the JSON value of a value: functions and undefined have none;
* `Value.stringify`    from a value to a text.
-/

namespace ViewDesign.Script

namespace Value

/-! ## From texts -/

mutual

/-- The value of a tree. -/
def ofNode : Node → Run Value
  | .null => return .null
  | .bool b => return .bool b
  | .numeral n => return .number (.ofNumeral n)
  | .string (some s) => return .text s
  | .sequence items => do
    let values ← ofItems items
    return .object (← Run.allocate { kind := .array values.toArray })
  | .mapping members => do
    let entries ← ofMembers members
    return .object (← Run.allocate { members := Entries.made entries })
  | _ => Run.thrown

/-- The values of elements. -/
def ofItems : List Node → Run (List Value)
  | [] => return []
  | v :: rest => do
    let value ← ofNode v
    return value :: (← ofItems rest)

/-- The names and values of members. -/
def ofMembers : List (Node × Node) → Run (List (String × Value))
  | [] => return []
  | (.string (some k), v) :: rest => do
    let value ← ofNode v
    return (k, value) :: (← ofMembers rest)
  | _ :: _ => Run.thrown

end

/-- The value of a JSON text, however deeply it is nested. -/
def parse (text : String) : Run Value :=
  let source := Json.Source.ofText text
  if source.ends && source.root.sound then ofNode source.root else Run.thrown

/-! ## To texts -/

/-- What is written in place of a value: what its function `toJSON` gives for its name, if it has
one. -/
def replaced (call : Caller) (name : String) (v : Value) : Run Value :=
  match v with
  | .object _ => do
    let f ← v.getMember "toJSON"
    if ← f.isFunction then call v f [.text name] else return v
  | v => return v

/-- The JSON value of a value that is no object. -/
def leafJson : Value → Option Json
  | .undefined => none
  | .null => some .null
  | .bool b => some (.bool b)
  | .number n => some ((n.json?.map .num).getD .null)
  | .text s => some (.str s)
  | .object _ => none

/-- The JSON value of an object that stands for a value which is none. -/
def wrappedJson (call : Caller) (v w : Value) : Run (Option Json) :=
  match w with
  | .number _ => return (Value.number (← v.numeric call)).leafJson
  | .text _ => return some (.str (← v.textual call))
  | w => return w.leafJson

/-- The JSON value of an array with so many elements, each written by its name; null stands for one
that has none. -/
def elementsJson (write : String → Run (Option Json)) (n : Nat) : Run (Option Json) := do
  let values ← (indexNames n).mapM write
  return some (.arr (values.map fun j => j.getD .null))

/-- The JSON value of an object with members of these names, in the order in which they are visited.
Those that have none are left out. -/
def membersJson (write : String → Run (Option Json)) (names : List String) : Run (Option Json) := do
  let members ← (visited names).mapM fun key => do
    let j ← write key
    return j.map fun j => (key, j)
  return some (.obj (members.filterMap id))

/-- Goes on unless an object is one of those around it. -/
def unlessAround {α : Type} (around : List Nat) (a : Nat) (x : Run α) : Run α :=
  if a ∈ around then Run.thrown else x

/-- The JSON value of a value with a name, `none` for undefined and for functions.  Elements and
members are read when their turn comes.  `around` are the objects that are being written; a value
among them would contain itself. -/
def serialize (call : Caller) : Nat → List Nat → String → Value → Run (Option Json)
  | 0, _, _, _ => throw .exhausted
  | levels + 1, around, name, v => do
    match ← v.replaced call name with
    | .object a => do
      let o ← Run.load a
      let write (key : String) : Run (Option Json) := do
        serialize call levels (a :: around) key (← (Value.object a).getMember key)
      match o.kind with
      | .function _ => return none
      | .native _ => return none
      | .wrapped w => (Value.object a).wrappedJson call w
      | .array items => unlessAround around a (elementsJson write items.size)
      | _ => unlessAround around a (membersJson write (o.members.map Prod.fst))
    | v => return v.leafJson

/-- The text of a number inside a JSON text. -/
def numberText : Json.Number → List Char
  | .int i => Decimal.ofInt i
  | .float x => (Number.layout.float x).toList

/-- The JSON text of a value, undefined if it has none. -/
def stringify (call : Caller) (v : Value) : Run Value := do
  match ← v.serialize call maxNesting [] "" with
  | some j => return .text (String.ofList (j.compactChars numberText))
  | none => return .undefined

end Value

end ViewDesign.Script
