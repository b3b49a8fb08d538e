import ViewDesign.NameMap
import ViewDesign.View.Options

/-!
# What a view indexes

A view without raw code has a class, a key and a value.  It has one row for each document of the
class, with the properties that the key and the value name.

* `Json.isOf`       whether a document is of a class;
* `Json.property`   a property of a document, null if it has none;
* `keyIn`           the key of the row of a document;
* `valueIn`         its value.
-/

namespace ViewDesign

/-! ## Documents -/

/-- Whether a document is of a class: its `ruby_class` is that text, and it is not empty. -/
def Json.isOf (className : String) (d : Json) : Bool :=
  match d.get? "ruby_class" with
  | some (.str s) => !s.isEmpty && s == className
  | _ => false

/-- The class of a document, if it has one, is a text. -/
def Json.ClassIsText (d : Json) : Prop := ∀ j, d.get? "ruby_class" = some j → ∃ s, j = .str s

/-- The members of an object come in ascending order. -/
def Json.InOrder : Json → Prop
  | .obj members => Entries.Ascending members
  | _ => True

/-- A property of a document, null if it has none. -/
def Json.property (d : Json) (p : String) : Json := (d.get? p).getD .null

/-! ## Rows -/

/-- The properties that a key looks up. -/
def keyProperties : Option Key → List String
  | none => []
  | some (.single p) => [p]
  | some (.composite ps) => ps

/-- The key of the row of a document: the empty text, a property, or the array of several. -/
def keyIn (d : Json) : Option Key → Json
  | none => .str ""
  | some (.single p) => d.property p
  | some (.composite ps) => .arr (ps.map d.property)

/-- The value of the row of a document: one, a property or an integer.  A value that is raw code,
a float or of an unsupported kind has no meaning of its own. -/
def valueIn (d : Json) : EmitValue → Json
  | .default => .ofInt 1
  | .property p => d.property p
  | .integer i => .ofInt i.toInt
  | _ => .null

end ViewDesign
