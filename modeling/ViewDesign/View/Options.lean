import ViewDesign.Document.Record
import ViewDesign.View.Language

/-!
# View options

Which documents a view selects and what it emits for them.

* `Key`           the property or properties emitted as the key;
* `EmitValue`     what is emitted as the value;
* `ViewOptions`   both, a condition and the language; `ViewOptions.record` its written form.
-/

namespace ViewDesign

/-! ## Keys -/

/-- The property emitted as the key, or several, emitted in order. -/
inductive Key where
  | single (property : String)
  | composite (properties : List String)
deriving Repr, DecidableEq, Inhabited

namespace Key

/-- The written form of a key. -/
def encode : Key → Json
  | .single p => .str p
  | .composite ps => .arr (ps.map .str)

/-- A string or a sequence of strings; anything else is set aside whole and then refused, in the
name of what encloses it. -/
def decoder : Decoder Key := fun ctx node => do
  Decoder.walkNode ctx node
  let refused : Except Refusal Key := .error (.refused ctx.path.tail (.noAlternative "Key"))
  match node with
  | .sequence items =>
    match items.mapM (Decoder.textOnly? ctx) with
    | some ps => .ok (.composite ps)
    | none => refused
  | _ =>
    match Decoder.textOnly? ctx node with
    | some p => .ok (.single p)
    | none => refused

end Key

/-! ## Emit values -/

/-- What a map function emits as the value of a row. -/
inductive EmitValue where
  /-- the number one -/
  | default
  /-- the value of a property of the document -/
  | property (name : String)
  /-- a source expression, taken as it is -/
  | expression (source : String)
  | integer (i : Int64)
  | float (x : Float)
  /-- a value of a kind that cannot be emitted -/
  | unsupported (kind : String)
deriving Inhabited

namespace EmitValue

/-- A decimal without exponent and without a trailing `.0`. -/
def floatLayout : Decimal.Layout where
  positional := none
  keepPoint := false
  signedZero := true
  notANumber := "NaN"
  infinity := "inf"

/-- The value that stands for "nothing said". -/
def isDefault : EmitValue → Bool
  | .default => true
  | _ => false

theorem isDefault_iff {v : EmitValue} : v.isDefault = true ↔ v = .default := by
  cases v <;> simp [isDefault]

/-- A number is an integer if it has sixty-four bits with a sign, and a float otherwise. -/
def ofNumber : Json.Number → EmitValue
  | .int i =>
    if Int64.minValue.toInt ≤ i ∧ i ≤ Int64.maxValue.toInt then .integer (Int64.ofInt i)
    else .float (Float.ofInt i)
  | .float x => .float x

/-- A loosely typed value: null is the default, a string an expression, a number itself, and an
object whose only member is `property` a property. -/
def ofJson : Json → EmitValue
  | .null => .default
  | .bool _ => .unsupported "boolean"
  | .num n => .ofNumber n
  | .str s => .expression s
  | .arr _ => .unsupported "array"
  | .obj [("property", .str p)] => .property p
  | .obj _ => .unsupported "object"

/-- The written form. Of an unsupported value only its kind is left. -/
def encode : EmitValue → Json
  | .default => .null
  | .property p => .obj [("property", .str p)]
  | .expression s => .str s
  | .integer i => .ofInt i.toInt
  | .float x => .ofFloat x
  | .unsupported kind => .obj [("unsupported", .str kind)]

/-- Any value decodes. -/
def decoder : Decoder EmitValue := Decoder.free.map ofJson

end EmitValue

/-! ## Options -/

/-- The options of a view. -/
structure ViewOptions where
  /-- the key; the empty string is emitted without one -/
  key : Option Key := none
  /-- a source expression that narrows the selection, taken as it is -/
  conditions : Option String := none
  emitValue : EmitValue := .default
  language : Language := .javaScript
deriving Inhabited

namespace ViewOptions

/-- The written form of view options; a default emit value is left out. -/
def record : Record ViewOptions where
  title := "struct ViewOptions"
  fields := [
    .optional "key" Key.decoder Key.encode (·.key) fun v o => { o with key := v },
    .optional "conditions" Decoder.text .str (·.conditions) fun v o => { o with conditions := v },
    { name := "emit_value"
      read := EmitValue.decoder.map fun v o => { o with emitValue := v }
      write := fun o => if o.emitValue.isDefault then none else some o.emitValue.encode },
    .always "language" (Decoder.choice Language.choices) (fun l => .str l.name) (·.language)
      fun v o => { o with language := v }]
  required := []
  strict := true
  blank := {}

/-- Reads view options. -/
def decoder : Decoder ViewOptions := record.decoder

/-- Writes view options. -/
def encode (o : ViewOptions) : Json := record.encode o

end ViewOptions

end ViewDesign
