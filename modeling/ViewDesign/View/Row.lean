import ViewDesign.Document.Record

/-!
# Rows of a view

What a query of a view returns, and what is taken from it.

* `Row`, `RowEnvelope`     the answer of a query; `RowEnvelope.record` its written form;
* `ViewResult`             a document or an id;
* `RowEnvelope.process`    the results of the rows, in their order.
-/

namespace ViewDesign

/-- One row of an index. -/
structure Row where
  id : Option String := none
  key : Json := .null
  value : Json := .null
  /-- the document, if it was asked for and still exists -/
  doc : Option Json := none
deriving Inhabited

namespace Row

/-- The written form of a row. Members that are no field are passed over. -/
def record : Record Row where
  title := "struct Row"
  fields := [
    .optional "id" Decoder.text .str (·.id) fun v r => { r with id := v },
    .always "key" Decoder.free (fun v => v) (·.key) fun v r => { r with key := v },
    .always "value" Decoder.free (fun v => v) (·.value) fun v r => { r with value := v },
    .optional "doc" Decoder.free (fun v => v) (·.doc) fun v r => { r with doc := v }]
  required := []
  strict := false
  blank := {}

end Row

/-- The answer of a query. -/
structure RowEnvelope where
  totalRows : Option UInt64 := none
  offset : Option UInt64 := none
  rows : List Row := []
deriving Inhabited

namespace RowEnvelope

/-- The written form of an answer. Members that are no field are passed over. -/
def record : Record RowEnvelope where
  title := "struct RowEnvelope"
  fields := [
    .optional "total_rows" Decoder.count Json.ofCount (·.totalRows)
      fun v e => { e with totalRows := v },
    .optional "offset" Decoder.count Json.ofCount (·.offset) fun v e => { e with offset := v },
    .always "rows" (Decoder.list Row.record.decoder) (fun rows => .arr (rows.map Row.record.encode))
      (·.rows) fun v e => { e with rows := v }]
  required := []
  strict := false
  blank := {}

/-- Reads an answer. -/
def decoder : Decoder RowEnvelope := record.decoder

/-- Writes an answer. -/
def encode (e : RowEnvelope) : Json := record.encode e

/-- Rows without counts. -/
def ofRows (rows : List Row) : RowEnvelope := { rows }

end RowEnvelope

/-! ## Results -/

/-- What is taken from a row. -/
inductive ViewResult where
  | document (doc : Json)
  /-- the id of the document, if the row has one -/
  | docId (id : Option String)
deriving Inhabited

namespace ViewResult

/-- The document, if the result is one. -/
def document? : ViewResult → Option Json
  | .document doc => some doc
  | .docId _ => none

/-- The id, if the result is one. -/
def id? : ViewResult → Option String
  | .document _ => none
  | .docId id => id

/-- The written form of a result. -/
def encode : ViewResult → Json
  | .document doc => doc
  | .docId (some id) => .str id
  | .docId none => .null

end ViewResult

/-- The documents of the rows that have one, or the ids of all rows. -/
def RowEnvelope.process (e : RowEnvelope) (wantsDocs : Bool) : List ViewResult :=
  if wantsDocs then e.rows.filterMap fun row => row.doc.map .document
  else e.rows.map fun row => .docId row.id

end ViewDesign
