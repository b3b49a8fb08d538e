import ViewDesign.Document.Format
import ViewDesign.View.Spec

/-!
# Design definitions

The definitions of all views over the documents of one model.

* `DesignDefinition`        the model and its views by name;
* `DesignDefinition.spec`   the specification of one view, `specs` of all, `evaluable` of those
                            that can be evaluated locally.
-/

namespace ViewDesign

/-- The definition of a single view. -/
structure ViewDefinition where
  view : ViewOptions := {}
  query : QueryOptions := {}
deriving Inhabited

namespace ViewDefinition

/-- The written form of a view definition. -/
def record : Record ViewDefinition where
  title := "struct ViewDefinition"
  fields := [
    .always "view" ViewOptions.decoder ViewOptions.encode (·.view) fun v d => { d with view := v },
    .always "query" QueryOptions.decoder QueryOptions.encode (·.query)
      fun v d => { d with query := v }]
  required := []
  strict := true
  blank := {}

end ViewDefinition

/-- The views over the documents of a model. -/
structure DesignDefinition where
  /-- the class name that the documents carry -/
  model : String
  views : NameMap ViewDefinition := .empty
deriving Inhabited

namespace DesignDefinition

/-- The written form of the views. -/
def encodeViews (views : NameMap ViewDefinition) : Json :=
  .obj (views.entries.map fun (name, d) => (name, ViewDefinition.record.encode d))

/-- The written form of a design definition; the model may not be missing. -/
def record : Record DesignDefinition where
  title := "struct DesignDefinition"
  fields := [
    .always "model" Decoder.text .str (·.model) fun v d => { d with model := v },
    .always "views" (Decoder.names ViewDefinition.record.decoder) encodeViews (·.views)
      fun v d => { d with views := v }]
  required := ["model"]
  strict := true
  blank := { model := "" }

/-- Reads a design definition. -/
def decoder : Decoder DesignDefinition := record.decoder

/-- Writes a design definition. -/
def encode (d : DesignDefinition) : Json := record.encode d

/-! ## Specifications -/

/-- The specification of one of the views. -/
def specOf (d : DesignDefinition) (name : String) (v : ViewDefinition) : ViewSpec :=
  ⟨d.model, name, v.view, v.query⟩

/-- The specification of the view of a name. -/
def spec (d : DesignDefinition) (name : String) : Except Failure ViewSpec :=
  match d.views.get? name with
  | some v => .ok (d.specOf name v)
  | none => .error (.noSuchView d.model name)

/-- The specifications of all views, ascending by name. -/
def specs (d : DesignDefinition) : List ViewSpec :=
  d.views.entries.map fun (name, v) => d.specOf name v

/-- Whether a view can be evaluated locally. -/
def isEvaluable (s : ViewSpec) : Bool := s.language = .javaScript

/-- The views that are evaluated: the named one, whatever its language, or all that can be. -/
def evaluable (d : DesignDefinition) : Option String → Except Failure (List ViewSpec)
  | some name => (d.spec name).map fun s => [s]
  | none => .ok (d.specs.filter isEvaluable)

/-- The views that are passed over when none is named. -/
def skipped (d : DesignDefinition) : Option String → List ViewSpec
  | some _ => []
  | none => d.specs.filter fun s => !isEvaluable s

end DesignDefinition

end ViewDesign
