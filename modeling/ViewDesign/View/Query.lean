import ViewDesign.Document.Record
import ViewDesign.Json.Printer

/-!
# Query options

The parameters that go along with a query of a view.  All of them are optional.

* `QueryOptions`          the parameters; `QueryOptions.record` their written form;
* `QueryOptions.pairs`    the parameters that are set, as names and texts in ascending order.
-/

namespace ViewDesign

/-- Whether a query may be answered from an index that is not up to date. -/
inductive Stale where
  | ok
  | updateAfter
deriving Repr, DecidableEq, Inhabited

namespace Stale

/-- The name of a choice. -/
def name : Stale → String
  | .ok => "ok"
  | .updateAfter => "update_after"

/-- The choices by their names. -/
def choices : List (String × Stale) := [("ok", .ok), ("update_after", .updateAfter)]

end Stale

/-- The parameters of a query. -/
structure QueryOptions where
  includeDocs : Option Bool := none
  key : Option Json := none
  keys : Option (List Json) := none
  startKey : Option Json := none
  startKeyDocId : Option String := none
  endKey : Option Json := none
  endKeyDocId : Option String := none
  limit : Option UInt64 := none
  skip : Option UInt64 := none
  descending : Option Bool := none
  group : Option Bool := none
  groupLevel : Option UInt64 := none
  reduce : Option Bool := none
  inclusiveEnd : Option Bool := none
  stale : Option Stale := none
deriving Inhabited

namespace QueryOptions

/-- The written form of query options. -/
def record : Record QueryOptions where
  title := "struct QueryOptions"
  fields := [
    .optional "include_docs" Decoder.flag .bool (·.includeDocs)
      fun v o => { o with includeDocs := v },
    .optional "key" Decoder.free id (·.key) fun v o => { o with key := v },
    .optional "keys" (Decoder.list Decoder.free) .arr (·.keys) fun v o => { o with keys := v },
    .optional "startkey" Decoder.free id (·.startKey) fun v o => { o with startKey := v },
    .optional "startkey_docid" Decoder.text .str (·.startKeyDocId)
      fun v o => { o with startKeyDocId := v },
    .optional "endkey" Decoder.free id (·.endKey) fun v o => { o with endKey := v },
    .optional "endkey_docid" Decoder.text .str (·.endKeyDocId)
      fun v o => { o with endKeyDocId := v },
    .optional "limit" Decoder.count Json.ofCount (·.limit) fun v o => { o with limit := v },
    .optional "skip" Decoder.count Json.ofCount (·.skip) fun v o => { o with skip := v },
    .optional "descending" Decoder.flag .bool (·.descending) fun v o => { o with descending := v },
    .optional "group" Decoder.flag .bool (·.group) fun v o => { o with group := v },
    .optional "group_level" Decoder.count Json.ofCount (·.groupLevel)
      fun v o => { o with groupLevel := v },
    .optional "reduce" Decoder.flag .bool (·.reduce) fun v o => { o with reduce := v },
    .optional "inclusive_end" Decoder.flag .bool (·.inclusiveEnd)
      fun v o => { o with inclusiveEnd := v },
    .optional "stale" (Decoder.choice Stale.choices) (fun s => .str s.name) (·.stale)
      fun v o => { o with stale := v }]
  required := []
  strict := true
  blank := {}

/-- Reads query options. -/
def decoder : Decoder QueryOptions := record.decoder

/-- Writes query options. -/
def encode (o : QueryOptions) : Json := record.encode o

/-- Whether rows are to carry their documents. -/
def wantsDocs (o : QueryOptions) : Bool := o.includeDocs.getD false

/-- The parameters whose texts are passed on as they are. -/
def rawNames : List String := ["startkey_docid", "endkey_docid", "stale"]

/-- The text of a parameter: JSON, except for the raw ones. -/
def pairText (name : String) : Json → String
  | .str s => if name ∈ rawNames then s else (Json.str s).compact
  | v => v.compact

/-- The parameters that are set, ascending by name. -/
def pairs (o : QueryOptions) : List (String × String) :=
  (Entries.ofList (Record.writeMembers record.fields o)).map
    fun (name, v) => (name, pairText name v)

end QueryOptions

end ViewDesign
