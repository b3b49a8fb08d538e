import Mathlib.Algebra.Order.Floor.Semifield
import Mathlib.Data.Rat.Floor
import Mathlib.Tactic.Linarith
import ViewDesign.Proofs.Evaluation.Rows

/-!
# Rows belong to documents that went in

A script may do anything to its own variables: it may count as it likes, change the documents it
was given, or put a list of its own in the place of the emitted one.  All that comes back is a text,
and what is read from it names documents by numbers only.  So every row is about one of the
documents as they went in, and records with any other number are dropped.

* `Binary64.toRat`         the rational that a float stands for;
* `Number.target?`         the number of a document that a recorded number points at;
* `Attributed`             a row of the document that a record points at;
* `rows_attributed`        the rows of a view are those of the records that point at a document.
-/

namespace ViewDesign

/-! ## Recorded numbers -/

/-- The rational `± significand * 2 ^ exponent`; zero if the float is none. -/
def Binary64.toRat : Binary64 → ℚ
  | .finite negative s e => (if negative then -1 else 1) * (s * 2 ^ e)
  | _ => 0

/-- The number of the document that a recorded number points at: the number rounded toward zero, and
zero if it is below zero.  An infinity points at none. -/
def Json.Number.target? : Json.Number → Option Nat
  | .int i => some ⌊(i : ℚ)⌋₊
  | .float x =>
    if Binary64.ofFloat x = .infinite false then none else some ⌊(Binary64.ofFloat x).toRat⌋₊

/-- rounding a float toward zero is rounding the rational down, if it is not below zero -/
theorem Binary64.truncated_toNat (negative : Bool) (s : Nat) (e : Int) :
    (Binary64.finite negative s e).truncated?.map Int.toNat =
      some ⌊(Binary64.finite negative s e).toRat⌋₊ := by
  have hsize : (0 : ℚ) ≤ s * 2 ^ e := mul_nonneg (Nat.cast_nonneg s) (zpow_nonneg (by norm_num) e)
  cases negative with
  | true =>
    have hbelow : (Binary64.finite true s e).toRat ≤ 0 := by
      simp only [toRat, if_true]
      linarith
    rw [Nat.floor_of_nonpos hbelow]
    have hsigned : ∀ n : Nat, (-(n : Int)).toNat = 0 := fun n => by omega
    simp only [truncated?, if_true, Option.map_some, hsigned]
  | false =>
    simp only [toRat, truncated?, Bool.false_eq_true, if_false, one_mul, Option.map_some,
      Int.toNat_natCast]
    by_cases he : 0 ≤ e
    · obtain ⟨k, rfl⟩ := Int.eq_ofNat_of_zero_le he
      rw [if_pos he, zpow_natCast, Int.toNat_natCast]
      have hcast : (s : ℚ) * 2 ^ k = ((s * 2 ^ k : Nat) : ℚ) := by push_cast; rfl
      rw [hcast, Nat.floor_natCast]
      rfl
    · obtain ⟨k, hk⟩ := Int.eq_ofNat_of_zero_le (show 0 ≤ -e by omega)
      have hdiv : (s : ℚ) * 2 ^ e = (s : ℚ) / ((2 ^ k : Nat) : ℚ) := by
        rw [← neg_neg e, hk, zpow_neg, zpow_natCast, ← div_eq_mul_inv]
        push_cast
        rfl
      rw [if_neg he, hk, Int.toNat_natCast, hdiv,
        Nat.floor_div_natCast, Nat.floor_natCast]
      rfl

theorem Emission.position?_eq_target? (n : Json.Number) : position? n = n.target? := by
  cases n with
  | int i =>
    simp only [position?, Json.Number.target?]
    by_cases hi : 0 ≤ i
    · obtain ⟨k, rfl⟩ := Int.eq_ofNat_of_zero_le hi
      simp
    · have hbelow : (i : ℚ) ≤ 0 := by exact_mod_cast (by omega : i ≤ 0)
      rw [Nat.floor_of_nonpos hbelow, Int.toNat_of_nonpos (by omega)]
  | float x =>
    simp only [position?, Json.Number.target?]
    cases hx : Binary64.ofFloat x with
    | nan => simp [Binary64.toRat]
    | infinite negative => cases negative <;> simp [Binary64.toRat]
    | finite negative s e =>
      rw [if_neg (by simp)]
      exact Binary64.truncated_toNat negative s e

namespace Evaluation

/-! ## Rows of documents -/

/-- Whether a record points at one of some documents. -/
def pointsInto (docs : List Json) (e : Emission) : Bool :=
  match e.index.target? with
  | some i => i < docs.length
  | none => false

/-- A row of the document that a record points at, with the key and the value of the record. -/
structure Attributed (docs : List Json) (wantsDocs : Bool) (e : Emission) (row : Row) : Prop where
  key : row.key = e.key
  value : row.value = e.value
  document : ∃ i d, e.index.target? = some i ∧ docs[i]? = some d ∧
    (∀ t, row.id = some t ↔ ∃ ms, d = .obj ms ∧ Entries.get? "_id" ms = some (.str t)) ∧
      row.doc = if wantsDocs then some d else none

theorem id_iff (d : Json) (t : String) : (d.get? "_id").bind Json.str? = some t ↔
    ∃ ms, d = .obj ms ∧ Entries.get? "_id" ms = some (.str t) := by
  cases d with
  | obj ms => simp [Json.get?, Option.bind_eq_some_iff, str?_eq_some]
  | _ => simp [Json.get?]

/-- a record that points at a document has a row of it, and any other record has none -/
theorem row?_cases (docs : List Json) (wantsDocs : Bool) (e : Emission) :
    (pointsInto docs e = true ∧ ∃ row, Emission.row? docs wantsDocs e = some row ∧
      Attributed docs wantsDocs e row) ∨
    (pointsInto docs e = false ∧ Emission.row? docs wantsDocs e = none) := by
  simp only [Emission.row?, pointsInto, Emission.position?_eq_target?]
  cases hi : e.index.target? with
  | none => exact .inr ⟨rfl, rfl⟩
  | some i =>
    by_cases hlt : i < docs.length
    · have hd : docs[i]? = some docs[i] := List.getElem?_eq_getElem hlt
      simp only [Option.bind_eq_bind, Option.bind_some, hd]
      exact .inl ⟨decide_eq_true hlt, _, rfl, rfl, rfl, i, docs[i], hi, hd, id_iff docs[i], rfl⟩
    · have hd : docs[i]? = none := List.getElem?_eq_none (Nat.le_of_not_lt hlt)
      simp only [Option.bind_eq_bind, Option.bind_some, hd]
      exact .inr ⟨decide_eq_false hlt, rfl⟩

/-- the rows are those of the records that point at a document, in their order -/
theorem filterMap_attributed (docs : List Json) (wantsDocs : Bool) (es : List Emission) :
    List.Forall₂ (Attributed docs wantsDocs) (es.filter (pointsInto docs))
      (es.filterMap (Emission.row? docs wantsDocs)) := by
  induction es with
  | nil => exact .nil
  | cons e es ih =>
    obtain ⟨hinto, row, hrow, hof⟩ | ⟨hinto, hrow⟩ := row?_cases docs wantsDocs e
    · rw [List.filter_cons_of_pos hinto, List.filterMap_cons_some hrow]
      exact .cons hof ih
    · rw [List.filter_cons_of_neg (by simp [hinto]), List.filterMap_cons_none hrow]
      exact ih

end Evaluation

/-! ## Query options -/

/-- What a row says apart from its document. -/
def Row.entry (row : Row) : Option String × Json × Json := (row.id, row.key, row.value)

/-- The same view with other parameters of its query. -/
def ViewSpec.withQuery (s : ViewSpec) (q : QueryOptions) : ViewSpec := { s with query := q }

namespace Evaluation

open Script MapFunction.JavaScript

theorem entry_row? (docs : List Json) (wantsDocs wantsDocs' : Bool) (e : Emission) :
    (Emission.row? docs wantsDocs e).map Row.entry =
      (Emission.row? docs wantsDocs' e).map Row.entry := by
  simp only [Emission.row?, Option.bind_eq_bind]
  cases Emission.position? e.index with
  | none => rfl
  | some i => cases h : docs[i]? <;> simp [h, Row.entry]

/-- whether documents are wanted changes nothing else in the rows -/
theorem entries_rows (docs : List Json) (wantsDocs wantsDocs' : Bool) (es : List Emission) :
    (rows docs wantsDocs es).rows.map Row.entry = (rows docs wantsDocs' es).rows.map Row.entry := by
  simp only [rows, List.map_filterMap]
  exact List.filterMap_congr fun e _ => entry_row? docs wantsDocs wantsDocs' e

/-- the script does not know the parameters of the query -/
theorem emissions_withQuery (s : ViewSpec) (q : QueryOptions) (docs : List Json) :
    (s.withQuery q).emissions docs = s.emissions docs := by
  have hlanguage : (s.withQuery q).language = s.language := rfl
  have hmap : (s.withQuery q).mapFunction = s.mapFunction := rfl
  have hname : (s.withQuery q).name = s.name := rfl
  simp only [ViewSpec.emissions, hlanguage, hmap, hname]

/-! ## Views -/

/-- a view has an answer only if its script gives a text and records can be read from it -/
theorem emissions_ok {s : ViewSpec} {docs : List Json} {es : List Emission}
    (h : s.emissions docs = .ok es) : ∃ src text, s.mapFunction = .ok src ∧
      Script.run (source src.toList docs) = .ok (.text text) ∧ Emission.readAll text = .ok es := by
  by_cases hl : s.language = .javaScript
  · cases hsrc : s.mapFunction with
    | error f => simp [ViewSpec.emissions, hl, hsrc, bind, Except.bind] at h
    | ok src =>
      rw [emissions_eq hl hsrc] at h
      split at h
      · cases h
      · rename_i text hrun
        refine ⟨src, text, rfl, hrun, ?_⟩
        cases hread : Emission.readAll text with
        | error f =>
          rw [hread] at h
          cases h
        | ok es' =>
          rw [hread] at h
          rw [← Except.ok.inj h]
      · cases h
  · simp [ViewSpec.emissions, hl, bind, Except.bind] at h

/-- **Rows are attributed to the documents that went in, whatever the script does.**  An answer is
made of the records that can be read from the text of the script: those that point at a document
have a row of that document as it went in, the others are dropped.  Another query of the same view
fails alike, or has the same ids, keys and values in its rows. -/
theorem rows_attributed (s : ViewSpec) (docs : List Json) :
    (∀ a, s.evaluate docs = .ok a →
      a.totalRows = some (UInt64.ofNat a.rows.length) ∧ a.offset = some 0 ∧
        ∃ src text es, s.mapFunction = .ok src ∧
          Script.run (source src.toList docs) = .ok (.text text) ∧
          Emission.readAll text = .ok es ∧
          List.Forall₂ (Attributed docs s.query.wantsDocs) (es.filter (pointsInto docs)) a.rows) ∧
      ∀ q, (∃ f, s.evaluate docs = .error f ∧ (s.withQuery q).evaluate docs = .error f) ∨
        ∃ a b, s.evaluate docs = .ok a ∧ (s.withQuery q).evaluate docs = .ok b ∧
          a.rows.map Row.entry = b.rows.map Row.entry := by
  refine ⟨?_, ?_⟩
  · intro a ha
    cases hes : s.emissions docs with
    | error f =>
      rw [ViewSpec.evaluate, hes] at ha
      cases ha
    | ok es =>
      rw [ViewSpec.evaluate, hes] at ha
      obtain ⟨src, text, hsrc, hrun, hread⟩ := emissions_ok hes
      rw [← Except.ok.inj ha]
      exact ⟨rfl, rfl, src, text, es, hsrc, hrun, hread, filterMap_attributed docs _ es⟩
  · intro q
    simp only [ViewSpec.evaluate, emissions_withQuery]
    cases s.emissions docs with
    | error f => exact .inl ⟨f, rfl, rfl⟩
    | ok es => exact .inr ⟨_, _, rfl, rfl, entries_rows docs _ _ es⟩

/-! ## A view that forges numbers -/

/-- A view whose value sets the number of the document that the script is at. -/
def forging : ViewSpec where
  ownerClass := "Post"
  name := "forging"
  view := { emitValue := .expression "__index = 1" }

/-- A document of that class and one without a class. -/
def forgedDocs : List Json :=
  [.obj [("_id", .str "a"), ("ruby_class", .str "Post")], .obj [("_id", .str "b")]]

/-- The value of `forging`. -/
def forgedValue : Expr := .assign (.name "__index") (.number (.int 1))

/-- The function of `forging`. -/
def forgedFunction : Expr := .function none ["doc"] (bodyOf (ofClass "Post") (.text "") forgedValue)

/-- The record of `forging`, as one of the second document. -/
def forgedRecords : List (List Emitted) := [[], [⟨some (.str ""), some (.num (.int 1))⟩]]

set_option maxRecDepth 20000 in
theorem run_forged :
    gives forgedRecords
      ((runAll (program (docsText forgedDocs) forgedFunction)).run' Realm.heap) = true := by
  decide +kernel

theorem isSingle_forgedValue : Expr.IsSingle "__index = 1".toList forgedValue := by
  have hscan : Lexeme.scan? "__index = 1".toList =
      some [word "__index", mark .assign, ⟨.number (.int 1), false⟩] := by decide
  exact ⟨_, .of_silent hscan (by decide), by cbv⟩

theorem readRecords_forged :
    readRecords 0 forgedRecords = some [⟨.int 1, .str "", .num (.int 1)⟩] := by
  have hone : Json.Number.reread Number.layout (.int 1) = some (.num (.int 1)) :=
    Json.reread_int Number.layout (by decide) (by decide)
  simp [readRecords, forgedRecords, Emitted.reread, rereadPart, Json.reread, hone]

/-- The text of the function of `forging`. -/
def forgedSource : String :=
  String.ofList (frame (filter "Post" none) (key none) "__index = 1".toList)

theorem run_forgedSource :
    Script.run (source forgedSource.toList forgedDocs) = .ok (scriptValue forgedRecords) := by
  obtain ⟨ts, hts, hread⟩ := isSingle_frame none (isWhole_filter "Post" .none) isSingle_forgedValue
  rw [forgedSource, String.toList_ofList, Script.run, parse_source hts hread]
  exact eq_of_gives run_forged

theorem emissions_forging :
    forging.emissions forgedDocs = .ok [⟨.int 1, .str "", .num (.int 1)⟩] := by
  have hsrc : forging.mapFunction = .ok forgedSource := rfl
  have hfinite : ∀ es ∈ forgedRecords, ∀ e ∈ es, e.Finite := by
    simp [forgedRecords, Emitted.Finite, Json.EachNumber, Json.Number.Finite]
  rw [ok_iff_toOption, emissions_of_run rfl hsrc run_forgedSource hfinite (by decide)]
  exact readRecords_forged

/-- the first document emits with the number of the second, so the row is one of the second -/
theorem rows_attributed_forged :
    ∃ a, forging.evaluate forgedDocs = .ok a ∧ a.offset = some 0 ∧
      a.rows.map Row.entry = [(some "b", .str "", .num (.int 1))] := by
  have hok : forging.evaluate forgedDocs =
      .ok (rows forgedDocs false [⟨.int 1, .str "", .num (.int 1)⟩]) := by
    rw [ViewSpec.evaluate, emissions_forging]
    rfl
  exact ⟨_, hok, ((rows_attributed forging forgedDocs).1 _ hok).2.1, rfl⟩

end Evaluation

end ViewDesign
