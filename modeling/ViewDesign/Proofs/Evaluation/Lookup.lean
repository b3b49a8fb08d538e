import ViewDesign.Proofs.Entries
import ViewDesign.Proofs.Evaluation.Members
import ViewDesign.Proofs.View.Indexing

/-!
# The class test and the lookups of a generated function

What the parts of a generated function that come from names give on a document: the test compares
the class of the document, a lookup gives a property, a composite key the array of several.

* `holdsOn_testOf`         the test, with and without a condition;
* `lookedUp`, `keyValue`   a property and a key as they are recorded;
* `recordedOn_keyOf`       this is what the key gives.
-/

namespace ViewDesign

namespace Evaluation

open Script MapFunction.JavaScript

/-! ## The test -/

theorem unknown_class : Unknown "ruby_class" := by
  constructor <;> rw [← Option.isNone_iff_eq_none] <;> decide +kernel

theorem inherited_class {K : Heap} (hK : Untouched K) (type : Primitive) :
    Value.inherited type "ruby_class" K = .ok (.undefined, K) := by
  have hsize := Realm.ten_le_size
  have hget : K[Realm.prototypeOf type]? = some (Realm.objectAt (Realm.prototypeOf type)) := by
    cases type <;> exact hK.get_objectAt (by decide) (Nat.lt_of_le_of_lt (by decide) hsize)
  have hown : (Realm.objectAt (Realm.prototypeOf type)).own? "ruby_class" = none := by
    rw [← Option.isNone_iff_eq_none]
    cases type <;> decide +kernel
  have hparent : (Realm.objectAt (Realm.prototypeOf type)).parent = some Realm.objectPrototype := by
    cases type <;> decide +kernel
  have hfind : Run.find "ruby_class" (Realm.prototypeOf type) K = .ok (none, K) := by
    rw [find_run, maxNesting_succ, hK.find_missing unknown_class hget hown (Or.inr hparent)]
    rfl
  unfold Value.inherited
  rw [Run.bind_ok hfind]
  rfl

/-- The class that a script finds in a document. -/
def classFound (d : Json) : Value :=
  match d.get? "ruby_class" with
  | some (.str s) => .text s
  | _ => .undefined

theorem getMember_class {K : Heap} {lo hi : Nat} (hK : Untouched K) {v : Value} {d : Json}
    (h : v.Represents K lo hi d) (hnull : d ≠ .null) (hclass : d.ClassIsText)
    (horder : d.InOrder) : v.getMember "ruby_class" K = .ok (classFound d, K) := by
  -- only an object may have the member of its own; all others inherit nothing by this name
  cases d with
  | null => exact absurd rfl hnull
  | bool _ | num _ =>
    simp only [Value.Represents] at h
    rw [h]
    exact inherited_class hK _
  | str s =>
    have hindex : index? "ruby_class" = none := by decide
    have hmember : Value.textMember? s "ruby_class" = none := by
      simp [Value.textMember?, hindex]
    simp only [Value.Represents] at h
    rw [h]
    simp only [Value.getMember, hmember]
    exact inherited_class hK _
  | arr items =>
    simp only [Value.Represents] at h
    obtain ⟨a, xs, rfl, -, ha, -⟩ := h
    have helement : Object.element? xs "ruby_class" = none := by
      have hnatural : Decimal.natural? 10 "ruby_class".toList = none := by decide
      rw [Object.element?, hnatural]
      rfl
    exact getMember_missing hK unknown_class ha
      (by simp [Object.own?, helement, Object.kept?, Entries.get?]) (Or.inl rfl)
  | obj ms =>
    have hget : (Json.obj ms).get? "ruby_class" = Entries.get? "ruby_class" ms := rfl
    obtain ⟨w, j, hj, hrun, hw⟩ | ⟨hnone, a, rfl, o, ho, hparent, hown⟩ :=
      getMember_object h horder "ruby_class"
    · obtain ⟨s, rfl⟩ := hclass j (hget.trans hj)
      simp only [Value.Represents] at hw
      rw [hrun, hw, classFound, hget, hj]
    · rw [getMember_missing hK unknown_class ho hown (Or.inr hparent), classFound, hget, hnone]

section
variable {K : Heap} {s : Scope} {call : Caller} {a lo hi : Nat} {v : Value} {d : Json}

theorem eval_classOf (hdoc : s.find? K "doc" = some (a, v)) :
    classOf.eval call s K = v.getMember "ruby_class" K := by
  rw [classOf, eval_member (eval_name hdoc) (eval_text "ruby_class") rfl, Value.toText]

theorem eval_propertyOf (hdoc : s.find? K "doc" = some (a, v)) (p : String) :
    (propertyOf p).eval call s K = v.getMember p K := by
  rw [propertyOf, eval_member (eval_name hdoc) (eval_text p) rfl, Value.toText]

/-- the test compares the class of the document -/
theorem eval_ofClass (hK : Untouched K) (hdoc : s.find? K "doc" = some (a, v))
    (h : v.Represents K lo hi d) (hnull : d ≠ .null) (hclass : d.ClassIsText) (horder : d.InOrder)
    (className : String) :
    ∃ w, (ofClass className).eval call s K = .ok (w, K) ∧ w.truth = d.isOf className := by
  have hfound : classOf.eval call s K = .ok (classFound d, K) :=
    (eval_classOf hdoc).trans (getMember_class hK h hnull hclass horder)
  have hundefined : classFound d = .undefined → d.isOf className = false →
      ∃ w, (ofClass className).eval call s K = .ok (w, K) ∧ w.truth = d.isOf className := by
    intro hc hof
    rw [hc] at hfound
    exact ⟨_, eval_and_false hfound rfl, hof.symm⟩
  cases hj : d.get? "ruby_class" with
  | none => exact hundefined (by simp [classFound, hj]) (by simp [Json.isOf, hj])
  | some j =>
    obtain ⟨t, rfl⟩ := hclass j hj
    have ht : classFound d = .text t := by simp [classFound, hj]
    have hof : d.isOf className = (!t.isEmpty && t == className) := by simp [Json.isOf, hj]
    rw [ht] at hfound
    cases hempty : t.isEmpty with
    | true =>
      refine ⟨_, eval_and_false hfound (by simp [Value.truth, hempty]), ?_⟩
      simp [hof, Value.truth, hempty]
    | false =>
      have hequal : (Expr.binary .equal classOf (.text className)).eval call s K =
          .ok (.bool (t == className), K) := eval_binary hfound (eval_text className)
      refine ⟨_, (eval_and_true hfound (by simp [Value.truth, hempty])).trans hequal, ?_⟩
      simp [hof, Value.truth, hempty]

end

/-- A scope in which `doc` is a document. -/
structure Holds (s : Scope) (K : Heap) (v : Value) (d : Json) : Prop where
  pristine : Pristine K
  found : ∃ a, s.find? K "doc" = some (a, v)
  represents : v.Represents K Realm.size K.size d

/-- an expression on a document is computed where `doc` is the document -/
theorem onDocument_run (d : Json) : ∃ s K v, Holds s K v d ∧
    ∀ e, onDocument e d = (e.eval (apply (maxDepth - 1)) s K).toOption := by
  obtain ⟨v, K, hrun, hext, hrep⟩ := ofNode_run d Realm.heap
  have hscope : documentScope d Realm.heap =
      .ok ([K.size, Scope.globals], K.push { members := [("doc", v)] }) := by
    rw [documentScope, Run.bind_ok hrun]
    rfl
  have hpush := Heap.Extends.push K { members := [("doc", v)] }
  refine ⟨[K.size, Scope.globals], K.push { members := [("doc", v)] }, v,
    ⟨pristine_heap.grow (hext.trans hpush), ⟨K.size, ?_⟩, ?_⟩, fun e => ?_⟩
  · have hframe : (K.push { members := [("doc", v)] })[K.size]? =
        some { members := [("doc", v)] } := by simp
    exact find?_hit _ hframe (by simp [Entries.get?])
  · rw [show Realm.heap.size = Realm.size from size_heapWith {}] at hrep
    exact hrep.mono (Nat.le_refl _) hpush.size (fun _ _ _ ha => hpush.get ha) d
  · rw [onDocument, Run.bind_ok hscope]

/-- null has no class -/
theorem holdsOn_null (className : String) (c : Option Expr) :
    holdsOn (testOf className c) .null = none := by
  obtain ⟨s, K, v, ⟨-, ⟨a, hdoc⟩, hrep⟩, hon⟩ := onDocument_run .null
  simp only [Value.Represents] at hrep
  have hclass : classOf.eval (apply (maxDepth - 1)) s K = .error .thrown := by
    rw [eval_classOf hdoc, hrep]
    rfl
  have hof : (ofClass className).eval (apply (maxDepth - 1)) s K = .error .thrown := by
    simp only [ofClass, Expr.eval]
    exact Run.bind_error hclass
  rw [holdsOn, hon]
  cases c with
  | none =>
    rw [testOf, hof]
    rfl
  | some e =>
    simp only [testOf, Expr.eval]
    rw [Run.bind_error hof]
    rfl

/-- the test for the class, followed by a condition -/
theorem holdsOn_testOf (className : String) (c : Option Expr) {d : Json} (hnull : d ≠ .null)
    (hclass : d.ClassIsText) (horder : d.InOrder) : holdsOn (testOf className c) d =
      if d.isOf className then
        match c with
        | none => some true
        | some e => holdsOn e d
      else some false := by
  obtain ⟨s, K, v, ⟨hK, ⟨a, hdoc⟩, hrep⟩, hon⟩ := onDocument_run d
  obtain ⟨w, hw, htruth⟩ : ∃ w, (ofClass className).eval (apply (maxDepth - 1)) s K = .ok (w, K) ∧
      w.truth = d.isOf className :=
    eval_ofClass hK.untouched hdoc hrep hnull hclass horder className
  cases c with
  | none =>
    rw [holdsOn, hon, testOf, hw]
    simp only [Except.toOption, Option.map_some, htruth]
    cases d.isOf className <;> rfl
  | some e =>
    rw [holdsOn, hon, testOf]
    cases hof : d.isOf className with
    | false =>
      rw [eval_and_false hw (htruth.trans hof)]
      simp [Except.toOption, htruth, hof]
    | true =>
      rw [eval_and_true hw (htruth.trans hof), if_pos rfl]
      show _ = holdsOn e d
      rw [holdsOn, hon]

/-! ## The key and the value -/

/-- The key of a document as it is recorded. -/
def keyValue (d : Json) : Option Key → Json
  | none => .str ""
  | some (.single p) => lookedUp d p
  | some (.composite ps) => .arr (ps.map (lookedUp d))

theorem throughScript_property (d : Json) (p : String) :
    throughScript (d.property p) = lookedUp d p := by
  rw [lookedUp, Json.property]
  cases d.get? p with
  | none => simp [throughScript]
  | some j => rfl

/-- the key of a document as it comes out of a script -/
theorem throughScript_keyIn (d : Json) (k : Option Key) :
    throughScript (keyIn d k) = keyValue d k := by
  have hitems : ∀ ps : List String, itemsThroughScript (ps.map d.property) =
      ps.map (lookedUp d) := by
    intro ps
    induction ps with
    | nil => simp [itemsThroughScript]
    | cons p ps ih =>
      rw [List.map_cons, List.map_cons, itemsThroughScript, throughScript_property, ih]
  cases k with
  | none => simp [keyIn, keyValue, throughScript]
  | some k =>
    cases k with
    | single p => exact throughScript_property d p
    | composite ps => rw [keyIn, throughScript, hitems, keyValue]

/-- what is recorded for an expression is what is written for its value -/
theorem recordedOn_of_written {e : Expr} {d : Json} {w : Value} {K : Heap} {hi deep levels : Nat}
    {r : Option Json} (hon : onDocument e d = some (w, K)) (h : WrittenAs K hi deep w r)
    (hdeep : deep < levels) (name : String) :
    ∃ r', recordedOn levels name e d = some r' ∧ r'.getD .null = r.getD .null := by
  obtain ⟨r', hr, hget⟩ := h.recorded
  refine ⟨r', ?_, hget⟩
  rw [recordedOn, hon, Option.bind_some, recordedIn, hr K (.refl K) _ _ _ name (by simp) hdeep]
  rfl

/-- a number is recorded as a script holds it -/
theorem recordedOn_of_number {e : Expr} {d : Json} {n : Number} {K : Heap} {levels : Nat}
    (hon : onDocument e d = some (.number n, K)) (hlevels : 0 < levels) (name : String) :
    recordedOn levels name e d = some (some n.toJson) := by
  obtain ⟨levels, rfl⟩ : ∃ k, levels = k + 1 := ⟨levels - 1, by omega⟩
  rw [recordedOn, hon]
  rfl

section
variable {ms : List (String × Json)} {levels : Nat} (name : String)

/-- a property is recorded as it was looked up -/
theorem recordedOn_propertyOf (hms : Entries.Ascending ms)
    (hlevels : (Json.obj ms).nesting < levels) (p : String) :
    ∃ r, recordedOn levels name (propertyOf p) (.obj ms) = some r ∧
      (p ≠ "__proto__" → r.getD .null = lookedUp (.obj ms) p) := by
  obtain ⟨s, K, v, ⟨hK, ⟨a, hdoc⟩, hrep⟩, hon⟩ := onDocument_run (.obj ms)
  have hsize : Realm.objectPrototype < K.size :=
    Nat.lt_of_lt_of_le (by decide +kernel) hK.size
  obtain ⟨w, r, hw, hwritten, hr⟩ := getMember_property hK hrep hms hsize p
  have hvalue : onDocument (propertyOf p) (.obj ms) = some (w, K) := by
    rw [hon, eval_propertyOf hdoc, hw]
    rfl
  rw [Json.nesting] at hlevels
  obtain ⟨r', hr', hget⟩ := recordedOn_of_written hvalue hwritten (Nat.lt_of_succ_lt hlevels) name
  exact ⟨r', hr', fun hp => hget.trans (hr hp)⟩

theorem evalAll_properties {K : Heap} {s : Scope} {call : Caller} {a lo hi : Nat} {v : Value}
    (hK : Pristine K) (hdoc : s.find? K "doc" = some (a, v))
    (hrep : v.Represents K lo hi (.obj ms)) (hms : Entries.Ascending ms)
    (hhi : Realm.objectPrototype < hi) (ps : List String) :
    ∃ vs rs, Expr.evalAll call s (ps.map propertyOf) K = .ok (vs, K) ∧
      List.Forall₂ (WrittenAs K hi (Json.nestingMembers ms)) vs rs ∧
        List.Forall₂ (fun r p => p ≠ "__proto__" → r.getD .null = lookedUp (.obj ms) p) rs ps := by
  induction ps with
  | nil => exact ⟨[], [], evalAll_nil, .nil, .nil⟩
  | cons p ps ih =>
    obtain ⟨w, r, hw, hwritten, hr⟩ := getMember_property hK hrep hms hhi p
    obtain ⟨vs, rs, hvs, hall, hrs⟩ := ih
    exact ⟨w :: vs, r :: rs, evalAll_cons ((eval_propertyOf hdoc p).trans hw) hvs,
      .cons hwritten hall, .cons hr hrs⟩

/-- a composite key is recorded as the array of its properties -/
theorem recordedOn_properties (hms : Entries.Ascending ms)
    (hlevels : (Json.obj ms).nesting < levels) (ps : List String) :
    ∃ r, recordedOn levels name (.array (ps.map propertyOf)) (.obj ms) = some r ∧
      ("__proto__" ∉ ps → r.getD .null = .arr (ps.map (lookedUp (.obj ms)))) := by
  obtain ⟨s, K, v, ⟨hK, ⟨a, hdoc⟩, hrep⟩, hon⟩ := onDocument_run (.obj ms)
  have hsize : Realm.objectPrototype < K.size :=
    Nat.lt_of_lt_of_le (by decide +kernel) hK.size
  obtain ⟨vs, rs, hvs, hall, hrs⟩ : ∃ vs rs,
      Expr.evalAll (apply (maxDepth - 1)) s (ps.map propertyOf) K = .ok (vs, K) ∧
      List.Forall₂ (WrittenAs K K.size (Json.nestingMembers ms)) vs rs ∧
        List.Forall₂ (fun r p => p ≠ "__proto__" → r.getD .null = lookedUp (.obj ms) p) rs ps :=
    evalAll_properties hK hdoc hrep hms hsize ps
  have hpush := Heap.Extends.push K { kind := .array vs.toArray }
  have hget : (K.push { kind := .array vs.toArray })[K.size]? =
      some { kind := .array vs.toArray } := by simp
  have hvalue : onDocument (.array (ps.map propertyOf)) (.obj ms) =
      some (.object K.size, K.push { kind := .array vs.toArray }) := by
    rw [hon, eval_array hvs]
    rfl
  have hwritten := WrittenAs.array (hK.grow hpush) hget
    (hall.imp fun _ _ h => h.extend hpush)
  rw [Json.nesting] at hlevels
  obtain ⟨r, hr, hgetr⟩ := recordedOn_of_written hvalue hwritten (by omega) name
  refine ⟨r, hr, fun hps => ?_⟩
  have hmap : rs.map (fun r => r.getD .null) = ps.map (lookedUp (.obj ms)) := by
    rw [← List.forall₂_eq_eq_eq, List.forall₂_map_left_iff, List.forall₂_map_right_iff]
    refine ((List.forall₂_and_left _ _).mpr ⟨fun p hp => ?_, hrs.flip⟩).flip.imp
      fun r p h => h.2 h.1
    exact fun e => hps (e ▸ hp)
  rw [hgetr, ← hmap]
  rfl

theorem recordedOn_keyOf (hms : Entries.Ascending ms) (hlevels : (Json.obj ms).nesting < levels)
    (k : Option Key) : ∃ r, recordedOn levels name (keyOf k) (.obj ms) = some r ∧
      ("__proto__" ∉ keyProperties k → r.getD .null = keyValue (.obj ms) k) := by
  match k with
  | none =>
    obtain ⟨s, K, v, -, hon⟩ := onDocument_run (.obj ms)
    have hvalue : onDocument (.text "") (.obj ms) = some (.text "", K) := by
      rw [hon, eval_text]
      rfl
    have hwritten : WrittenAs K 0 0 (.text "") (some (.str "")) := .leaf rfl
    obtain ⟨r, hr, hget⟩ := recordedOn_of_written hvalue hwritten (Nat.zero_lt_of_lt hlevels) name
    exact ⟨r, hr, fun _ => hget⟩
  | some (.single p) =>
    obtain ⟨r, hr, hget⟩ := recordedOn_propertyOf name hms hlevels p
    exact ⟨r, hr, fun hp => hget fun e => hp (by simp [keyProperties, e])⟩
  | some (.composite ps) => exact recordedOn_properties name hms hlevels ps

end

theorem ofJson_int (i : Int) : Number.ofJson (.int i) =
    if i < 0 then (Number.ofInt i.natAbs).neg else Number.ofInt i.natAbs := by
  have hdecimal : (Json.Number.literal Json.floatLayout (.int i)).decimal = ⟨i.natAbs, 0⟩ := by
    simp [Json.Number.literal, Numeral.decimal, Numeral.exponentValue, Decimal.valueOf_digitsOf]
  have hnumber : Number.ofDecimal ⟨i.natAbs, 0⟩ = Number.ofInt i.natAbs := by
    simp [Number.ofDecimal]
  rw [Number.ofJson, Number.ofNumeral, hdecimal, hnumber]
  by_cases h : i < 0 <;> simp [Json.Number.literal, h]

theorem recordedOn_number {levels : Nat} (hlevels : 0 < levels) (name : String) (n : Number)
    (d : Json) : recordedOn levels name (.number n) d = some (some n.toJson) := by
  obtain ⟨s, K, v, -, hon⟩ := onDocument_run d
  refine recordedOn_of_number (K := K) ?_ hlevels name
  rw [hon, eval_number]
  rfl

/-- an integer is recorded like a number of a document -/
theorem recordedOn_integerOf {levels : Nat} (hlevels : 0 < levels) (name : String) (i : Int)
    (d : Json) : recordedOn levels name (integerOf i) d =
      some (some (throughScript (.num (.int i)))) := by
  simp only [throughScript, ofJson_int]
  unfold integerOf
  by_cases h : i < 0
  · obtain ⟨s, K, v, -, hon⟩ := onDocument_run d
    have hnegate : (Expr.unary .negate (.number (.ofInt i.natAbs))).eval (apply (maxDepth - 1)) s K
        = .ok (.number (Number.ofInt i.natAbs).neg, K) := by
      simp only [Expr.eval, pure_bind, UnaryOp.apply]
      rw [Run.bind_ok (numeric_run rfl _)]
      rfl
    rw [if_pos h, if_pos h]
    refine recordedOn_of_number (K := K) ?_ hlevels name
    rw [hon, hnegate]
    rfl
  · rw [if_neg h, if_neg h]
    exact recordedOn_number hlevels name _ d

/-! ## They are harmless -/

theorem harmless_number (n : Number) : Harmless (.number n) := ⟨rfl, rfl⟩

theorem harmless_propertyOf (p : String) : Harmless (propertyOf p) := ⟨rfl, rfl⟩

theorem harmless_integerOf (i : Int) : Harmless (integerOf i) := by
  unfold integerOf
  split <;> exact ⟨rfl, rfl⟩

theorem plain_properties (ps : List String) : Expr.allPlain (ps.map propertyOf) = true := by
  induction ps with
  | nil => rfl
  | cons p ps ih => simp [Expr.allPlain, propertyOf, Expr.plain, ih]

theorem closed_properties (ps : List String) :
    Expr.allClosed ["doc"] (ps.map propertyOf) = true := by
  induction ps with
  | nil => rfl
  | cons p ps ih => simp [Expr.allClosed, propertyOf, Expr.closed, known, ih]

theorem harmless_keyOf (k : Option Key) : Harmless (keyOf k) := by
  match k with
  | none => exact ⟨rfl, rfl⟩
  | some (.single p) => exact harmless_propertyOf p
  | some (.composite ps) =>
    refine ⟨?_, ?_⟩
    · simp only [keyOf, Expr.closed]
      exact closed_properties ps
    · simp only [keyOf, Expr.plain]
      exact plain_properties ps

theorem closed_testOf (className : String) {c : Option Expr}
    (h : ∀ e, c = some e → e.closed ["doc"] = true) :
    (testOf className c).closed ["doc"] = true := by
  cases c with
  | none => rfl
  | some e => simp [testOf, ofClass, classOf, Expr.closed, known, h e rfl]

theorem harmless_testOf (className : String) {c : Option Expr} (h : ∀ e, c = some e → Harmless e) :
    Harmless (testOf className c) := by
  refine ⟨closed_testOf className fun e he => (h e he).closed, ?_⟩
  cases c with
  | none => rfl
  | some e => simp [testOf, ofClass, classOf, Expr.plain, (h e rfl).plain]

end Evaluation

end ViewDesign
