import ViewDesign.Proofs.DesignSchema
import ViewDesign.Proofs.Document.Given
import ViewDesign.View.Spec

/-!
# The results of stored rows

A text gives rows as objects, with members in any order and others among them, or as arrays.  Of a
row only its id and its document become results: where documents are wanted, those that are there
and not null, in the order of the rows; where they are not, one id for each row.

* `Row.idIn`, `Row.docIn`                 the id and the document that the tree of a row gives;
* `Row.id_of_reads`, `Row.doc_of_reads`   they are those of the row;
* `RowEnvelope.rowsIn`                    the rows that a text gives;
* `RowEnvelope.rows_of_text`              they are those of the answer;
* `RowEnvelope.results_of_text`           the results of a text.
-/

namespace ViewDesign

/-- only null has the value null -/
theorem Node.value_ne_null {node : Node} (h : node.Literal) {depth : Nat}
    (hread : node.Readable depth) (hne : node ≠ .null) : node.value ≠ .null := by
  cases node with
  | null => exact absurd rfl hne
  | broken => cases hread
  | scalar s => cases h
  | numeral n =>
    obtain ⟨v, hv⟩ := Option.isSome_iff_exists.mp hread
    simp [value, hv]
  | mapping members => simp [value, Json.object]
  | _ => simp [value]

/-! ## Rows -/

namespace Row

/-- The id that the tree of a row gives, unless it is missing or null. -/
def idIn (row : Node) : Option String :=
  match Entries.get? "id" (record.given row) with
  | some (.string s) => s
  | _ => none

/-- The document that the tree of a row gives, unless it is missing or null. -/
def docIn (row : Node) : Option Json :=
  match Entries.get? "doc" (record.given row) with
  | none => none
  | some .null => none
  | some node => some node.value

theorem idPart : record.Part "id" Decoder.text.optional Row.id where
  field := ⟨_, .head _, rfl, _, rfl, fun _ _ => rfl⟩
  others := by
    simp only [record, List.forall_mem_cons]
    exact ⟨fun h => absurd rfl h, fun _ => Field.keeps_always fun _ _ => rfl,
      fun _ => Field.keeps_always fun _ _ => rfl, fun _ => Field.keeps_optional fun _ _ => rfl,
      List.forall_mem_nil _⟩

theorem docPart : record.Part "doc" Decoder.free.optional Row.doc where
  field := ⟨_, .tail _ (.tail _ (.tail _ (.head _))), rfl, _, rfl, fun _ _ => rfl⟩
  others := by
    simp only [record, List.forall_mem_cons]
    exact ⟨fun _ => Field.keeps_optional fun _ _ => rfl, fun _ => Field.keeps_always fun _ _ => rfl,
      fun _ => Field.keeps_always fun _ _ => rfl, fun h => absurd rfl h, List.forall_mem_nil _⟩

theorem id_of_reads {node : Node} (hnode : node.Literal) {row : Row}
    (h : record.decoder.Reads node row) :
    row.id = idIn node ∧ ∀ v, Entries.get? "id" (record.given node) = some v →
      v = .null ∨ ∃ s, v = .string (some s) := by
  rcases idPart.of_reads (by decide) hnode h with ⟨hnone, hid⟩ | ⟨v, hv, hliteral, hreads⟩
  · rw [idIn, hnone, hid]
    exact ⟨rfl, fun v hv => nomatch hv⟩
  · rw [idIn, hv]
    rcases hreads.of_optional hliteral with ⟨rfl, hid⟩ | ⟨-, s, hs, hid⟩
    · rw [hid]
      exact ⟨rfl, fun w hw => .inl (Option.some.inj hw).symm⟩
    · obtain rfl := hs.of_text hliteral
      rw [← hid]
      exact ⟨rfl, fun w hw => .inr ⟨s, (Option.some.inj hw).symm⟩⟩

theorem doc_of_reads {node : Node} (hnode : node.Literal) {row : Row}
    (h : record.decoder.Reads node row) : row.doc = docIn node ∧ row.doc ≠ some .null := by
  rcases docPart.of_reads (by decide) hnode h with ⟨hnone, hdoc⟩ | ⟨v, hv, hliteral, hreads⟩
  · rw [docIn, hnone, hdoc]
    exact ⟨rfl, fun h => nomatch h⟩
  · rw [docIn, hv]
    rcases hreads.of_optional hliteral with ⟨rfl, hdoc⟩ | ⟨hne, w, hw, hdoc⟩
    · rw [hdoc]
      exact ⟨rfl, fun h => nomatch h⟩
    · obtain ⟨⟨depth, hread⟩, rfl⟩ := hw.of_free hliteral
      rw [← hdoc]
      refine ⟨?_, fun h => v.value_ne_null hliteral hread hne (Option.some.inj h)⟩
      cases v with
      | null => exact absurd rfl hne
      | _ => rfl

end Row

/-! ## Texts -/

namespace RowEnvelope

/-- The rows that a text gives, in its order. -/
def rowsIn (text : String) : List Node :=
  match Entries.get? "rows" (record.given (Json.Source.ofText text).root) with
  | some (.sequence rows) => rows
  | _ => []

theorem rowsPart : record.Part "rows" (Decoder.list Row.record.decoder) RowEnvelope.rows where
  field := ⟨_, .tail _ (.tail _ (.head _)), rfl, _, rfl, fun _ _ => rfl⟩
  others := by
    simp only [record, List.forall_mem_cons]
    exact ⟨fun _ => Field.keeps_optional fun _ _ => rfl,
      fun _ => Field.keeps_optional fun _ _ => rfl,
      fun h => absurd rfl h, List.forall_mem_nil _⟩

/-- the rows of an answer are decoded from those of its text, one by one -/
theorem rows_of_text {text : String} {e : RowEnvelope}
    (h : Format.parse .json decoder text = .ok e) :
    List.Forall₂ (fun node row => node.Literal ∧ Row.record.decoder.Reads node row) (rowsIn text)
      e.rows := by
  have hreads : record.decoder.Reads (Json.Source.ofText text).root e :=
    ⟨127, [], (parse_eq_ok_iff.mp h).1⟩
  rcases rowsPart.of_reads (by decide) (Json.literal_ofText text) hreads with
    ⟨hnone, hrows⟩ | ⟨v, hv, hliteral, hlist⟩
  · rw [rowsIn, hnone, hrows]
    exact .nil
  · rw [rowsIn, hv]
    obtain ⟨nodes, rfl, hrows⟩ := hlist.of_list
    exact (List.forall₂_and_left nodes e.rows).mpr ⟨Node.literalItems_iff.mp hliteral, hrows⟩

/-- results are taken from the documents or from the ids of a text -/
theorem process_of_text {text : String} {e : RowEnvelope}
    (h : Format.parse .json decoder text = .ok e) :
    e.process true = ((rowsIn text).map Row.docIn).filterMap (Option.map ViewResult.document) ∧
      e.process false = ((rowsIn text).map Row.idIn).map ViewResult.docId := by
  have hdocs : (rowsIn text).map Row.docIn = e.rows.map Row.doc :=
    map_eq_of_forall₂ (rows_of_text h) fun _ _ hrow => (Row.doc_of_reads hrow.1 hrow.2).1.symm
  have hids : (rowsIn text).map Row.idIn = e.rows.map Row.id :=
    map_eq_of_forall₂ (rows_of_text h) fun _ _ hrow => (Row.id_of_reads hrow.1 hrow.2).1.symm
  rw [hdocs, hids, List.filterMap_map, List.map_map]
  exact ⟨rfl, rfl⟩

/-- no document of a text is null -/
theorem docs_ne_null {text : String} {e : RowEnvelope}
    (h : Format.parse .json decoder text = .ok e) :
    Json.null ∉ (rowsIn text).filterMap Row.docIn := by
  intro hnull
  obtain ⟨node, hnode, hdoc⟩ := List.mem_filterMap.mp hnull
  obtain ⟨row, -, hliteral, hreads⟩ := exists_of_forall₂ (rows_of_text h) hnode
  obtain ⟨heq, hne⟩ := Row.doc_of_reads hliteral hreads
  exact hne (heq.trans hdoc)

end RowEnvelope

/-- Two rows give the same id and the same document, whatever else they give. -/
def Row.SameResult (row other : Node) : Prop :=
  Row.idIn row = Row.idIn other ∧ Row.docIn row = Row.docIn other

theorem QueryOptions.wantsDocs_iff {o : QueryOptions} :
    o.wantsDocs = true ↔ o.includeDocs = some true := by
  unfold wantsDocs
  cases o.includeDocs <;> simp

namespace RowEnvelope

section
variable {text : String} {e : RowEnvelope} (h : Format.parse .json decoder text = .ok e)
include h

/-- the results with documents, as they are written -/
theorem encode_process_docs :
    (e.process true).map ViewResult.encode = (rowsIn text).filterMap Row.docIn := by
  rw [(process_of_text h).1, List.map_filterMap, List.filterMap_map]
  refine List.filterMap_congr fun row _ => ?_
  show ((Row.docIn row).map ViewResult.document).map ViewResult.encode = Row.docIn row
  cases Row.docIn row <;> rfl

/-- the results without documents, as they are written -/
theorem encode_process_ids :
    (e.process false).map ViewResult.encode =
      (rowsIn text).map fun row => (Row.idIn row).elim .null .str := by
  rw [(process_of_text h).2, List.map_map, List.map_map]
  refine List.map_congr_left fun row _ => ?_
  show (ViewResult.docId (Row.idIn row)).encode = _
  cases Row.idIn row <;> rfl

/-- nothing but the ids and the documents makes a difference -/
theorem process_congr {other : String} {e' : RowEnvelope}
    (h' : Format.parse .json decoder other = .ok e')
    (hsame : List.Forall₂ Row.SameResult (rowsIn text) (rowsIn other)) (wantsDocs : Bool) :
    e'.process wantsDocs = e.process wantsDocs := by
  have hids : (rowsIn text).map Row.idIn = (rowsIn other).map Row.idIn :=
    map_eq_of_forall₂ hsame fun _ _ hrow => hrow.1
  have hdocs : (rowsIn text).map Row.docIn = (rowsIn other).map Row.docIn :=
    map_eq_of_forall₂ hsame fun _ _ hrow => hrow.2
  cases wantsDocs with
  | false => rw [(process_of_text h).2, (process_of_text h').2, hids]
  | true => rw [(process_of_text h).1, (process_of_text h').1, hdocs]

end

/-- **Results.** Where documents are wanted, the results are the documents of the rows, in the order
of the text; a row whose document is missing or null has none, and no result is null.  Otherwise
there is one result for each row, its id, which is a string, or null for one that is missing or
null.  Nothing else makes a difference: neither the rest of a text nor any other option. -/
theorem results_of_text {text : String} {e : RowEnvelope}
    (h : Format.parse .json decoder text = .ok e) (s : ViewSpec) :
    (s.query.includeDocs = some true →
      (s.processResults e).map ViewResult.encode = (rowsIn text).filterMap Row.docIn ∧
        Json.null ∉ (s.processResults e).map ViewResult.encode) ∧
    (s.query.includeDocs ≠ some true →
      (s.processResults e).map ViewResult.encode =
        (rowsIn text).map fun row => (Row.idIn row).elim .null .str) ∧
    (∀ row ∈ rowsIn text, ∀ v, Entries.get? "id" (Row.record.given row) = some v →
      v = .null ∨ ∃ t, v = .string (some t)) ∧
    ∀ (other : String) (e' : RowEnvelope) (s' : ViewSpec),
      Format.parse .json decoder other = .ok e' → s'.query.wantsDocs = s.query.wantsDocs →
        List.Forall₂ Row.SameResult (rowsIn text) (rowsIn other) →
          s'.processResults e' = s.processResults e := by
  refine ⟨fun hwant => ?_, fun hwant => ?_, fun row hrow v hv => ?_, ?_⟩
  · rw [ViewSpec.processResults, QueryOptions.wantsDocs_iff.mpr hwant, encode_process_docs h]
    exact ⟨rfl, docs_ne_null h⟩
  · have hfalse : s.query.wantsDocs = false :=
      Bool.eq_false_iff.mpr fun htrue => hwant (QueryOptions.wantsDocs_iff.mp htrue)
    rw [ViewSpec.processResults, hfalse, encode_process_ids h]
  · obtain ⟨_, -, hliteral, hreads⟩ := exists_of_forall₂ (rows_of_text h) hrow
    exact (Row.id_of_reads hliteral hreads).2 v hv
  · intro other e' s' h' hwant hsame
    rw [ViewSpec.processResults, ViewSpec.processResults, hwant]
    exact process_congr h h' hsame _

/-- An answer as an object, with rows in both forms. -/
def objectAnswer : String :=
  "\x7b\"more\":[],\"rows\":[\x7b\"doc\":\x7b\"a\":null\x7d,\"y\":[],\"id\":\"1\"\x7d," ++
    "[\"2\",\"k\",null,null],\x7b\"id\":null,\"doc\":false\x7d],\"offset\":null\x7d"

theorem ofText_objectAnswer : Json.Source.ofText objectAnswer = ⟨.mapping [
    (.string (some "more"), .sequence []),
    (.string (some "rows"), .sequence [
      .mapping [(.string (some "doc"), .mapping [(.string (some "a"), .null)]),
        (.string (some "y"), .sequence []),
        (.string (some "id"), .string (some "1"))],
      .sequence [.string (some "2"), .string (some "k"), .null, .null],
      .mapping [(.string (some "id"), .null), (.string (some "doc"), .bool false)]]),
    (.string (some "offset"), .null)], true⟩ := by
  cbv

/-- An answer as an array, whose rows give the same ids and documents. -/
def arrayAnswer : String :=
  "[null,null,[[\"1\",[],[],\x7b\"a\":null\x7d],\x7b\"id\":\"2\"\x7d,[null,[],[],false]]]"

theorem ofText_arrayAnswer : Json.Source.ofText arrayAnswer = ⟨.sequence [
    .null, .null, .sequence [
      .sequence [.string (some "1"), .sequence [], .sequence [],
        .mapping [(.string (some "a"), .null)]],
      .mapping [(.string (some "id"), .string (some "2"))],
      .sequence [.null, .sequence [], .sequence [], .bool false]]], true⟩ := by
  cbv

/-- both answers have the same results; the row without a document has none -/
theorem results_of_text_mixed :
    ∃ e e', Format.parse .json decoder objectAnswer = .ok e ∧
      Format.parse .json decoder arrayAnswer = .ok e' ∧
      (ViewSpec.processResults ⟨"User", "v", {}, { includeDocs := some true }⟩ e).map
        ViewResult.encode = [.obj [("a", .null)], .bool false] ∧
      (ViewSpec.processResults ⟨"User", "v", {}, {}⟩ e).map ViewResult.encode =
        [.str "1", .str "2", .null] ∧
      ViewSpec.processResults ⟨"Post", "w", {}, { limit := some 1 }⟩ e' =
        ViewSpec.processResults ⟨"User", "v", {}, {}⟩ e := by
  have hparse : ∃ e, Format.parse .json decoder objectAnswer = .ok e := by
    rw [parse_ok_iff, ofText_objectAnswer]
    exact ⟨⟨_, rfl⟩, rfl⟩
  have hparse' : ∃ e, Format.parse .json decoder arrayAnswer = .ok e := by
    rw [parse_ok_iff, ofText_arrayAnswer]
    exact ⟨⟨_, rfl⟩, rfl⟩
  obtain ⟨e, he⟩ := hparse
  obtain ⟨e', he'⟩ := hparse'
  have hdocs := (results_of_text he ⟨"User", "v", {}, { includeDocs := some true }⟩).1 rfl
  obtain ⟨-, hids, -, hsame⟩ := results_of_text he ⟨"User", "v", {}, {}⟩
  refine ⟨e, e', he, he', hdocs.1.trans ?_, (hids (by rintro ⟨⟩)).trans ?_,
    hsame arrayAnswer e' _ he' rfl ?_⟩
  · rw [rowsIn, ofText_objectAnswer]
    rfl
  · rw [rowsIn, ofText_objectAnswer]
    rfl
  · rw [rowsIn, rowsIn, ofText_objectAnswer, ofText_arrayAnswer]
    exact .cons ⟨rfl, rfl⟩ (.cons ⟨rfl, rfl⟩ (.cons ⟨rfl, rfl⟩ .nil))

end RowEnvelope

end ViewDesign
