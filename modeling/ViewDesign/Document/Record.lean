import ViewDesign.Document.Decoder

/-!
# Records

A record is described once, by the list of its fields; both of its written forms, the map of names
and the sequence of values in the order of declaration, are read and written by that list.

* `Field`            name, reading and writing of one field;
* `Record`           a list of fields, a value to start from, and which fields may not be missing;
* `Record.decoder`   reads either form;
* `Record.encode`    writes the map, without the fields that are left out.
-/

namespace ViewDesign

/-- One field of a record of type `σ`. -/
structure Field (σ : Type) where
  name : String
  /-- reads a value and tells how it changes the record -/
  read : Decoder (σ → σ)
  /-- the value to write, `none` to leave the field out -/
  write : σ → Option Json

namespace Field

variable {σ α : Type}

/-- A field that may be absent. -/
def optional (name : String) (decode : Decoder α) (encode : α → Json)
    (get : σ → Option α) (set : Option α → σ → σ) : Field σ where
  name := name
  read := (decode.optional).map set
  write s := (get s).map encode

/-- A field that is always written. -/
def always (name : String) (decode : Decoder α) (encode : α → Json)
    (get : σ → α) (set : α → σ → σ) : Field σ where
  name := name
  read := decode.map set
  write s := some (encode (get s))

end Field

/-- A record type. -/
structure Record (σ : Type) where
  /-- what complaints call it -/
  title : String
  fields : List (Field σ)
  /-- the fields that may not be missing -/
  required : List String
  /-- names that are no field are refused -/
  strict : Bool
  /-- the record before anything is read -/
  blank : σ

namespace Record

variable {σ : Type}

/-- The names of the fields. -/
def names (r : Record σ) : List String := r.fields.map Field.name

/-! ## Reading -/

/-- Reads members in their order; `seen` are the fields met so far. -/
def readMembers (r : Record σ) (ctx : Context) :
    List String → σ → List (Node × Node) → Except Refusal (List String × σ)
  | seen, s, [] => .ok (seen, s)
  | seen, s, (key, node) :: rest => do
    let k ← Decoder.name "field identifier" ctx key
    match r.fields.find? (·.name = k) with
    | none =>
      if r.strict then ctx.refuse (.unknownField k r.names)
      else if node.sound then readMembers r ctx seen s rest
      else .error .malformed
    | some field =>
      if k ∈ seen then ctx.refuse (.duplicateField k)
      else do
        let change ← field.read (ctx.member k) node
        readMembers r ctx (k :: seen) (change s) rest

/-- Reads a map. -/
def readMap (r : Record σ) (ctx : Context) (members : List (Node × Node)) : Except Refusal σ := do
  let (seen, s) ← r.readMembers (← ctx.enter) [] r.blank members
  match r.required.find? (· ∉ seen) with
  | some k => ctx.refuse (.missingField k)
  | none => return s

/-- The complaint about values after the last field. -/
def tooMany {α : Type} (r : Record σ) (ctx : Context) (total : Nat) : Except Refusal α :=
  match ctx.dialect with
  | .text => .error .malformed
  | .value => ctx.refuse (.wrongLength total "fewer elements in array")
  | .yaml =>
    let n := r.fields.length
    let unit := if n = 1 then " element" else " elements"
    ctx.refuse (.wrongLength total ("sequence of " ++ String.ofList (Decimal.digitsOf n) ++ unit))

/-- Reads values for the fields in the order of declaration. -/
def readValues (r : Record σ) (ctx : Context) (total : Nat) :
    Nat → σ → List (Field σ) → List Node → Except Refusal σ
  | _, s, [], [] => .ok s
  | _, _, [], _ :: _ => r.tooMany ctx total
  | i, s, field :: fields, [] =>
    if field.name ∈ r.required then
      let n := String.ofList (Decimal.digitsOf r.fields.length)
      ctx.refuse (.wrongLength i (r.title ++ " with " ++ n ++ " elements"))
    else readValues r ctx total (i + 1) s fields []
  | i, s, field :: fields, node :: nodes => do
    let change ← field.read (ctx.item i) node
    readValues r ctx total (i + 1) (change s) fields nodes

/-- Reads a record in either form. -/
def decoder (r : Record σ) : Decoder σ := fun ctx node =>
  match node with
  | .mapping members => r.readMap ctx members
  | .sequence nodes => do r.readValues (← ctx.enter) nodes.length 0 r.blank r.fields nodes
  | _ => Decoder.mismatch r.title ctx node

/-! ## Writing -/

/-- The members of the fields that are not left out. -/
def writeMembers (fields : List (Field σ)) (s : σ) : List (String × Json) :=
  fields.filterMap fun field => (field.write s).map fun v => (field.name, v)

/-- Writes a record as a map. -/
def encode (r : Record σ) (s : σ) : Json := .obj (writeMembers r.fields s)

end Record

end ViewDesign
