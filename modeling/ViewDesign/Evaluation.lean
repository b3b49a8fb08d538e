import ViewDesign.Design
import ViewDesign.Script.Execution

/-!
# Evaluating a view over documents

The map function of a view is run over documents without a database: a script parses the documents,
calls the function on each, and collects what it emits together with the number of the document.
What comes out is read back as JSON and attached to the documents that went in.

* `Evaluation.source`     the script;
* `Emission`              what one call of `emit` leaves behind;
* `Evaluation.rows`       the rows of the emissions;
* `ViewSpec.evaluate`     the rows of a view.
-/

namespace ViewDesign

/-! ## The script -/

namespace Evaluation

/-- The script up to the text of the documents. -/
def opening : List Char :=
  "\n            var __docs = JSON.parse('".toList

/-- The script between the documents and the map function. -/
def middle : List Char :=
  ("');\n            var __emitted = [];\n            var __index = 0;\n" ++
    "            function emit(key, value) \x7b\n                __emitted.push(\x7b\n" ++
    "                    index: __index,\n" ++
    "                    key: key === undefined ? null : key,\n" ++
    "                    value: value === undefined ? null : value\n" ++
    "                \x7d);\n            \x7d\n            var __map = ").toList

/-- The script after the map function. -/
def closing : List Char :=
  (";\n            for (__index = 0; __index < __docs.length; __index++) \x7b\n" ++
    "                __map(__docs[__index]);\n            \x7d\n" ++
    "            JSON.stringify(__emitted)\n        ").toList

/-- The script that runs a map function over documents. -/
def source (mapFunction : List Char) (docs : List Json) : List Char :=
  opening ++ MapFunction.JavaScript.escape (Json.compactChars Json.Number.text (.arr docs)) ++
    middle ++ mapFunction ++ closing

end Evaluation

/-! ## Emissions -/

/-- What one call of `emit` leaves behind. -/
structure Emission where
  /-- the number of the document, as the script counted -/
  index : Json.Number := .int 0
  key : Json := .null
  value : Json := .null
deriving Inhabited

namespace Emission

/-- The written form of an emission. -/
def record : Record Emission where
  title := "struct Emitted"
  fields := [
    .always "index" Decoder.number .num (·.index) fun v e => { e with index := v },
    .always "key" Decoder.free (fun v => v) (·.key) fun v e => { e with key := v },
    .always "value" Decoder.free (fun v => v) (·.value) fun v e => { e with value := v }]
  required := ["index"]
  strict := false
  blank := {}

/-- Reads the emissions of a script. -/
def readAll (text : String) : Except Refusal (List Emission) :=
  Format.parseJson (Decoder.list record.decoder) text

/-- The position a number denotes: it is rounded toward zero, and what is below zero is zero.  An
infinity denotes none. -/
def position? : Json.Number → Option Nat
  | .int i => some i.toNat
  | .float x =>
    match Binary64.ofFloat x with
    | .nan => some 0
    | .infinite negative => if negative then some 0 else none
    | b => b.truncated?.map Int.toNat

/-- The row of an emission, `none` when its number is that of no document. -/
def row? (docs : List Json) (wantsDocs : Bool) (e : Emission) : Option Row := do
  let doc ← docs[← position? e.index]?
  return {
    id := (doc.get? "_id").bind Json.str?
    key := e.key
    value := e.value
    doc := if wantsDocs then some doc else none }

end Emission

namespace Evaluation

/-- The answer that the rows of some emissions make. -/
def rows (docs : List Json) (wantsDocs : Bool) (emissions : List Emission) : RowEnvelope :=
  let rows := emissions.filterMap (Emission.row? docs wantsDocs)
  { totalRows := some (UInt64.ofNat rows.length), offset := some 0, rows }

end Evaluation

/-! ## Views -/

namespace ViewSpec

/-- What the script of a view emits for documents. -/
def emissions (s : ViewSpec) (docs : List Json) : Except Failure (List Emission) := do
  if s.language ≠ .javaScript then throw (.cannotEvaluate s.language)
  let mapFunction ← s.mapFunction
  match Script.run (Evaluation.source mapFunction.toList docs) with
  | .error _ => throw (.script s.name)
  | .ok (.text result) => (Emission.readAll result).mapError .emissions
  | .ok _ => throw (.noScriptResult s.name)

/-- The rows that the view has over documents, in the order in which they are emitted.  The id of a
row is that of its document. -/
def evaluate (s : ViewSpec) (docs : List Json) : Except Failure RowEnvelope :=
  (s.emissions docs).map (Evaluation.rows docs s.query.wantsDocs)

end ViewSpec

end ViewDesign
