import ViewDesign.Proofs.Evaluation.Conversion
import ViewDesign.Proofs.Evaluation.Rows
import ViewDesign.Proofs.MapFunction.Structure

/-!
# What the rows of a view are

A view without raw code has a row for each document of its class, with the key and the value that
its options name.

* `emittedFor`          what the function of a view emits for a document;
* `rows_simple`         the rows of a view without raw code for one document;
* `evaluate_simple`     its rows for all documents.
-/

namespace ViewDesign

open Script Evaluation

/-! ## One document -/

namespace Evaluation

/-- Whether a document meets a condition; `none` if it fails on the document. -/
def meets (c : Option Expr) (d : Json) : Option Bool :=
  match c with
  | none => some true
  | some e => holdsOn e d

/-- What the function of a view emits for a document, by the expressions that it consists of; `none`
if one of them fails or what it records cannot be written. -/
def emittedFor (levels : Nat) (className : String) (c : Option Expr) (k : Option Key) (v : Expr)
    (d : Json) : Option (List Emitted) :=
  match holdsOn (MapFunction.JavaScript.testOf className c) d with
  | none => none
  | some false => some []
  | some true => do
    let key ← recordedOn levels "key" (MapFunction.JavaScript.keyOf k) d
    let value ← recordedOn levels "value" v d
    return [⟨key, value⟩]

section
variable {className : String} {c : Option Expr} {k : Option Key} {v : Expr} {d : Json}

/-- this is what it emits -/
theorem goes_mapperOf (levels : Nat) (hc : ∀ e, c = some e → Harmless e) (hv : Harmless v)
    (k : Option Key) (d : Json) :
    Goes levels (mapperOf className c k v) d (emittedFor levels className c k v d) :=
  goes_bodyOf levels (harmless_testOf className hc) (harmless_keyOf k) hv d

theorem emittedFor_class (levels : Nat) (hnull : d ≠ .null) (hclass : d.ClassIsText)
    (horder : d.InOrder) : emittedFor levels className c k v d =
      if d.isOf className then
        match meets c d with
        | none => none
        | some false => some []
        | some true => do
          let key ← recordedOn levels "key" (MapFunction.JavaScript.keyOf k) d
          let value ← recordedOn levels "value" v d
          return [⟨key, value⟩]
      else some [] := by
  rw [emittedFor, holdsOn_testOf className c hnull hclass horder]
  cases d.isOf className with
  | false => rfl
  | true => cases c <;> rfl

theorem emittedFor_null (levels : Nat) : emittedFor levels className c k v .null = none := by
  rw [emittedFor, holdsOn_null]

end

/-- a document of a class is an object -/
theorem exists_of_isOf {className : String} {d : Json} (h : d.isOf className = true) :
    ∃ ms, d = .obj ms := by
  cases d with
  | obj ms => exact ⟨ms, rfl⟩
  | _ => cases h

/-- a part of a record that was left out is read like null -/
theorem rereadPart_eq (r : Option Json) :
    rereadPart r = Json.reread Number.layout keyDepth (r.getD .null) := by
  cases r with
  | none => simp [rereadPart, Json.reread]
  | some j => rfl

end Evaluation

/-! ## Properties of documents -/

namespace Json

/-- A document as it is read from a text: its numbers are finite, and its members come in ascending
order. -/
structure Proper (d : Json) : Prop where
  finite : d.Finite
  ordered : d.Ordered

theorem Ordered.inOrder {d : Json} (h : d.Ordered) : d.InOrder := by
  cases d with
  | obj ms =>
    simp only [Ordered] at h
    exact h.1
  | _ => trivial

theorem ordered_of_mem {ms : List (String × Json)} (h : OrderedOf ms) {m : String × Json}
    (hm : m ∈ ms) : m.2.Ordered := by
  induction ms with
  | nil => cases hm
  | cons n ms ih =>
    obtain ⟨k, v⟩ := n
    simp only [OrderedOf] at h
    rcases List.mem_cons.mp hm with rfl | hm
    · exact h.1
    · exact ih h.2 hm

/-- a property is one level less deep than its document -/
theorem property_obj {ms : List (String × Json)} (h : (Json.obj ms).Ordered) (p : String) :
    ((Json.obj ms).property p).Ordered ∧
      ((Json.obj ms).property p).nesting + 1 ≤ (Json.obj ms).nesting := by
  simp only [Ordered] at h
  rw [property, nesting]
  cases hp : (Json.obj ms).get? p with
  | none => exact ⟨trivial, Nat.succ_le_succ (Nat.zero_le _)⟩
  | some v =>
    have hmem : (p, v) ∈ ms := Entries.mem_of_get? hp
    exact ⟨ordered_of_mem h.2 hmem, Nat.succ_le_succ (nesting_member hmem)⟩

theorem orderedIn_iff {vs : List Json} : OrderedIn vs ↔ ∀ v ∈ vs, v.Ordered := by
  induction vs with
  | nil => simp [OrderedIn]
  | cons v vs ih => simp [OrderedIn, ih]

theorem nestingItems_le {vs : List Json} {n : Nat} (h : ∀ v ∈ vs, v.nesting ≤ n) :
    nestingItems vs ≤ n := by
  induction vs with
  | nil => exact Nat.zero_le _
  | cons v vs ih =>
    rw [nestingItems]
    exact Nat.max_le.mpr ⟨h v (List.mem_cons_self ..),
      ih fun w hw => h w (List.mem_cons_of_mem _ hw)⟩

/-- a key is at most as deep as its document -/
theorem keyIn_obj {ms : List (String × Json)} (h : (Json.obj ms).Ordered) (k : Option Key) :
    (keyIn (.obj ms) k).Ordered ∧ (keyIn (.obj ms) k).nesting ≤ (Json.obj ms).nesting := by
  have hproperty := property_obj h
  match k with
  | none => exact ⟨trivial, Nat.zero_le _⟩
  | some (.single p) =>
    have hp := hproperty p
    exact ⟨hp.1, by rw [keyIn]; omega⟩
  | some (.composite ps) =>
    rw [keyIn, Ordered, orderedIn_iff, nesting, nesting]
    refine ⟨?_, Nat.succ_le_succ (nestingItems_le ?_)⟩
    · intro v hv
      obtain ⟨p, -, rfl⟩ := List.mem_map.mp hv
      exact (hproperty p).1
    · intro v hv
      obtain ⟨p, -, rfl⟩ := List.mem_map.mp hv
      have hp := (hproperty p).2
      rw [nesting] at hp
      omega

end Json

/-! ## Views without raw code -/

/-- A value that is no raw code: one, a property or an integer.  The prototype of a document is no
property of it. -/
def EmitValue.IsSimple : EmitValue → Prop
  | .default => True
  | .property p => p ≠ "__proto__"
  | .integer _ => True
  | _ => False

theorem valueIn_obj {ms : List (String × Json)} (h : (Json.obj ms).Ordered) (v : EmitValue) :
    (valueIn (.obj ms) v).Ordered ∧ (valueIn (.obj ms) v).nesting ≤ (Json.obj ms).nesting := by
  cases v with
  | property p =>
    have hp := Json.property_obj h p
    exact ⟨hp.1, by rw [valueIn]; omega⟩
  | _ => exact ⟨trivial, Nat.zero_le _⟩

theorem EmitValue.IsSimple.expr {v : EmitValue} (h : v.IsSimple) :
    ∃ e, MapFunction.JavaScript.valueOf? v = some e ∧ Harmless e ∧
      ∀ levels ms, Entries.Ascending ms → (Json.obj ms).nesting < levels →
        ∃ r, recordedOn levels "value" e (.obj ms) = some r ∧
          r.getD .null = throughScript (valueIn (.obj ms) v) := by
  have hpositive : ∀ {n levels : Nat}, n < levels → 0 < levels :=
    fun h => Nat.lt_of_le_of_lt (Nat.zero_le _) h
  cases v with
  | default =>
    refine ⟨_, rfl, harmless_number _, fun levels ms _ hlevels =>
      ⟨_, recordedOn_number (hpositive hlevels) "value" _ _, ?_⟩⟩
    rw [valueIn, Json.ofInt, throughScript, Json.ofJson_exact (by decide)]
    rfl
  | property p =>
    refine ⟨_, rfl, harmless_propertyOf p, fun levels ms hms hlevels => ?_⟩
    obtain ⟨r, hr, hlooked⟩ := recordedOn_propertyOf "value" hms hlevels p
    exact ⟨r, hr, (hlooked h).trans (throughScript_property _ p).symm⟩
  | integer i =>
    exact ⟨_, rfl, harmless_integerOf _, fun levels ms _ hlevels =>
      ⟨_, recordedOn_integerOf (hpositive hlevels) "value" _ _, rfl⟩⟩
  | expression source => exact h.elim
  | float x => exact h.elim
  | unsupported kind => exact h.elim

/-- The row that a view without raw code has for a document. -/
def simpleRow (s : ViewSpec) (d : Json) : Row where
  id := (d.get? "_id").bind Json.str?
  key := (keyIn d s.view.key).converted
  value := (valueIn d s.view.emitValue).converted
  doc := if s.query.wantsDocs then some d else none

theorem rows_simple {s : ViewSpec} {v : Expr} {d : Json}
    (hkey : "__proto__" ∉ keyProperties s.view.key)
    (hrecorded : ∀ levels ms, Entries.Ascending ms → (Json.obj ms).nesting < levels →
      ∃ r, recordedOn levels "value" v (.obj ms) = some r ∧
        r.getD .null = throughScript (valueIn (.obj ms) s.view.emitValue))
    (hnull : d ≠ .null) (hordered : d.Ordered) (hdepth : d.nesting ≤ keyDepth)
    (hclass : d.ClassIsText) :
    rowsOf s.query.wantsDocs d (emittedFor recordLevels s.ownerClass none s.view.key v d) =
      some (if d.isOf s.ownerClass then [simpleRow s d] else []) := by
  rw [rowsOf, emittedFor_class recordLevels hnull hclass hordered.inOrder]
  cases hof : d.isOf s.ownerClass with
  | false => rfl
  | true =>
    obtain ⟨ms, rfl⟩ := exists_of_isOf hof
    have hlevels : (Json.obj ms).nesting < recordLevels :=
      Nat.lt_of_le_of_lt hdepth (by decide)
    obtain ⟨key, hkey', hkeyvalue⟩ := recordedOn_keyOf "key" hordered.inOrder hlevels s.view.key
    obtain ⟨value, hvalue, hvaluevalue⟩ := hrecorded recordLevels ms hordered.inOrder hlevels
    obtain ⟨hkeyordered, hkeydepth⟩ := Json.keyIn_obj hordered s.view.key
    obtain ⟨hvalueordered, hvaluedepth⟩ := valueIn_obj hordered s.view.emitValue
    have hreread : Emitted.reread ⟨key, value⟩ = some ((keyIn (.obj ms) s.view.key).converted,
        (valueIn (.obj ms) s.view.emitValue).converted) := by
      rw [Emitted.reread, rereadPart_eq, rereadPart_eq, hkeyvalue hkey, hvaluevalue,
        ← throughScript_keyIn, reread_throughScript _ hkeyordered _ (by omega),
        reread_throughScript _ hvalueordered _ (by omega)]
      rfl
    simp only [if_true, meets, hkey', hvalue, Option.bind_eq_bind, Option.bind_some, Option.pure_def,
      List.mapM_cons, List.mapM_nil, hreread]
    rfl

theorem flatten_map_ite {α β : Type} (p : α → Bool) (f : α → β) (xs : List α) :
    (xs.map fun x => if p x then [f x] else []).flatten = (xs.filter p).map f := by
  induction xs with
  | nil => rfl
  | cons x xs ih =>
    rw [List.map_cons, List.flatten_cons, ih]
    cases hp : p x with
    | true => rw [List.filter_cons_of_pos hp]; rfl
    | false => rw [List.filter_cons_of_neg (by simp [hp])]; rfl

/-- **What a view without raw code evaluates to.**  The evaluation fails exactly if some document is
null, and then the script has thrown.  Otherwise there is one row for each document of the class, in
the order of the documents. -/
theorem evaluate_simple (s : ViewSpec) (docs : List Json) (hlanguage : s.language = .javaScript)
    (hconditions : s.view.conditions = none) (hkey : "__proto__" ∉ keyProperties s.view.key)
    (hvalue : s.view.emitValue.IsSimple) (hlen : docs.length < Number.greatestExact)
    (hdocs : ∀ d ∈ docs, d.Proper ∧ d.nesting ≤ 125 ∧ d.ClassIsText) :
    ((∃ failure, s.evaluate docs = .error failure) ↔ .null ∈ docs) ∧
    (.null ∈ docs → s.evaluate docs = .error (.script s.name)) ∧
    (.null ∉ docs → s.evaluate docs =
      .ok (envelope ((docs.filter (·.isOf s.ownerClass)).map (simpleRow s)))) := by
  obtain ⟨v, hvalueOf, hharmless, hrecorded⟩ := hvalue.expr
  obtain ⟨text, htext, hsingle⟩ := MapFunction.JavaScript.isSingle_value hvalueOf
  have hmapped : Mapped s (mapperOf s.ownerClass none s.view.key v) := by
    refine Mapped.of_fragments hlanguage htext ?_ hsingle (by rintro _ ⟨⟩) hharmless.closed
    rw [hconditions]
    exact .none
  have hfinite : Json.EachNumberIn Json.Number.Finite docs :=
    Json.eachNumberIn_iff.mpr fun d hd => (hdocs d hd).1.finite
  have hyields : ∀ d ∈ docs, (mapperOf s.ownerClass none s.view.key v).Yields d
      (emittedFor recordLevels s.ownerClass none s.view.key v d) := fun d _ =>
    (goes_mapperOf recordLevels (by rintro _ ⟨⟩) hharmless s.view.key d).yields
  have hfails : .null ∈ docs → s.evaluate docs = .error (.script s.name) := by
    intro hnull
    exact hmapped.evaluate_script hfinite hlen hyields
      (mapM_eq_none hnull (emittedFor_null recordLevels))
  have hrows : .null ∉ docs → s.evaluate docs =
      .ok (envelope ((docs.filter (·.isOf s.ownerClass)).map (simpleRow s))) := by
    intro hnull
    have hall := mapM_eq_map (f := fun d => rowsOf s.query.wantsDocs d
        (emittedFor recordLevels s.ownerClass none s.view.key v d))
      fun d hd => rows_simple hkey hrecorded (fun h => hnull (h ▸ hd))
        (hdocs d hd).1.ordered (hdocs d hd).2.1 (hdocs d hd).2.2
    have hevaluate := hmapped.evaluate_rows hfinite hlen hyields
    rw [hall, Option.map_some, flatten_map_ite] at hevaluate
    cases hresult : s.evaluate docs with
    | error failure =>
      rw [hresult] at hevaluate
      cases hevaluate
    | ok a =>
      rw [hresult] at hevaluate
      cases hevaluate
      rfl
  refine ⟨⟨?_, fun hnull => ⟨_, hfails hnull⟩⟩, hfails, hrows⟩
  rintro ⟨failure, hfailure⟩
  by_contra hnull
  rw [hrows hnull] at hfailure
  cases hfailure

/-- A view with a composite key and an integer as its value that includes the documents. -/
def byNumber : ViewSpec where
  ownerClass := "Post"
  name := "by_number"
  view := { key := some (.composite ["n", "missing"]), emitValue := .integer (-3) }
  query := { includeDocs := some true }

/-- A document of that class. -/
def numbered : Json :=
  .obj [("_id", .str "a"), ("n", .num (.int 7)), ("ruby_class", .str "Post")]

theorem proper_numbered : numbered.Proper := by
  refine ⟨?_, ?_⟩
  · simp [numbered, Json.EachNumber, Json.EachNumberOf, Json.Number.Finite]
  · refine ⟨Entries.ascending_of_names ["_id", "n", "ruby_class"] rfl (by decide), ?_⟩
    simp [Json.OrderedOf, Json.Ordered]

/-- one row for the document of the class, none for a text and an object without a class -/
theorem evaluate_simple_numbered :
    byNumber.evaluate [.str "Post", numbered, .obj []] =
        .ok (envelope [⟨some "a", .arr [.num (.int 7), .null], .num (.int (-3)), some numbered⟩]) ∧
      byNumber.evaluate [numbered, .null] = .error (.script "by_number") := by
  have htext : (Json.str "Post").Proper ∧ (Json.str "Post").nesting ≤ 125 ∧
      (Json.str "Post").ClassIsText := ⟨⟨trivial, trivial⟩, by decide, by rintro j ⟨⟩⟩
  have hempty : (Json.obj []).Proper ∧ (Json.obj []).nesting ≤ 125 ∧ (Json.obj []).ClassIsText :=
    ⟨⟨trivial, .nil, trivial⟩, by decide, by rintro j ⟨⟩⟩
  have hnull : Json.null.Proper ∧ Json.null.nesting ≤ 125 ∧ Json.null.ClassIsText :=
    ⟨⟨trivial, trivial⟩, by decide, by rintro j ⟨⟩⟩
  have hnumbered : numbered.Proper ∧ numbered.nesting ≤ 125 ∧ numbered.ClassIsText :=
    ⟨proper_numbered, by decide, fun j hj => ⟨"Post", (Option.some.inj hj).symm⟩⟩
  have hrow : simpleRow byNumber numbered =
      ⟨some "a", .arr [.num (.int 7), .null], .num (.int (-3)), some numbered⟩ := by
    have hseven : Json.Number.converted (.int 7) = .num (.int 7) := Json.converted_int (by decide)
    have hthree : Json.Number.converted (.int (-3)) = .num (.int (-3)) :=
      Json.converted_int (by decide)
    have hkey : keyIn numbered byNumber.view.key = .arr [.num (.int 7), .null] := rfl
    have hvalue : valueIn numbered byNumber.view.emitValue = .num (.int (-3)) := rfl
    rw [simpleRow, hkey, hvalue]
    simp only [Json.mapNumbers, Json.mapNumbersIn, hseven, hthree]
    rfl
  have hrows := evaluate_simple byNumber [.str "Post", numbered, .obj []] rfl rfl (by decide)
    trivial (by decide)
    (by simp only [List.forall_mem_cons]; exact ⟨htext, hnumbered, hempty, by simp⟩)
  have hfails := evaluate_simple byNumber [numbered, .null] rfl rfl (by decide) trivial
    (by decide) (by simp only [List.forall_mem_cons]; exact ⟨hnumbered, hnull, by simp⟩)
  refine ⟨?_, hfails.2.1 (by simp)⟩
  rw [hrows.2.2 (by simp [numbered]), ← hrow]
  rfl

end ViewDesign
