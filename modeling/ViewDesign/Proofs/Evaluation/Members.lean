import ViewDesign.Proofs.Evaluation.Alone

/-!
# The members of a document

A property of a document is what it was in the document.  If there is none of a name, what is found
is undefined, or a function that all objects inherit, which is left out when it is written, like
undefined; only `__proto__` is found and written.

* `WrittenAs`             what is written for a value, wherever it stands;
* `writtenAs_inherited`   what is written for a member that all objects inherit;
* `lookedUp`              a property of a document as it is recorded;
* `getMember_property`    this is what is found and written for it.
-/

namespace ViewDesign.Evaluation

open Script

/-! ## What is written for a value -/

/-- A value is written as a JSON value, or left out, wherever it stands: inside objects from an
address on, if it may be nested more deeply than it is.  It stays so while the heap grows. -/
def WrittenAs (K : Heap) (hi deep : Nat) (v : Value) (r : Option Json) : Prop :=
  ∀ K', Heap.Extends K K' → ∀ call levels around name, (∀ b ∈ around, hi ≤ b) → deep < levels →
    v.serialize call levels around name K' = .ok (r, K')

namespace WrittenAs

variable {K K' : Heap} {lo hi hi' deep deep' a : Nat} {v : Value} {r : Option Json}

theorem mono (h : WrittenAs K hi deep v r) (hhi : hi ≤ hi') (hdeep : deep ≤ deep') :
    WrittenAs K hi' deep' v r :=
  fun K' hext call levels around name haround hlevels =>
    h K' hext call levels around name (fun b hb => Nat.le_trans hhi (haround b hb)) (by omega)

theorem extend (h : WrittenAs K hi deep v r) (hext : Heap.Extends K K') :
    WrittenAs K' hi deep v r :=
  fun K'' hext' => h K'' (hext.trans hext')

/-- a value that is no object stands for itself -/
theorem leaf (h : v.isPrimitive = true) : WrittenAs K hi 0 v v.leafJson := by
  intro K' _ call levels around name _ hlevels
  obtain ⟨levels, rfl⟩ : ∃ n, levels = n + 1 := ⟨levels - 1, by omega⟩
  cases v with
  | object => cases h
  | _ => rfl

theorem represents (hK : Pristine K) {j : Json} (h : v.Represents K lo hi j) :
    WrittenAs K hi j.nesting v (some (throughScript j)) :=
  fun _ hext call levels _ name haround hlevels =>
    serialize_of_represents (hK.grow hext).untouched call levels name (h.extend hext) haround
      hlevels

/-- what is recorded for a value is written as the value, and as null if this is left out -/
theorem recorded (h : WrittenAs K hi deep v r) :
    ∃ r', WrittenAs K hi deep (Evaluation.recorded v) r' ∧ r'.getD .null = r.getD .null := by
  cases v with
  | undefined =>
    have hnone : r = none := by
      have hrun := h K (.refl K) (apply 0) (deep + 1) [] "" (by simp) (by omega)
      cases hrun
      rfl
    rw [hnone]
    exact ⟨some .null, (leaf (v := .null) rfl).mono (Nat.le_refl _) (Nat.zero_le _), rfl⟩
  | _ => exact ⟨r, h, rfl⟩

/-- an array is written element by element -/
theorem array (hK : Pristine K) {xs : Array Value} (ha : K[a]? = some { kind := .array xs })
    {rs : List (Option Json)} (h : List.Forall₂ (WrittenAs K a deep) xs.toList rs) :
    WrittenAs K (a + 1) (deep + 1) (.object a) (some (.arr (rs.map fun r => r.getD .null))) := by
  intro K' hext call levels around name haround hlevels
  obtain ⟨levels, rfl⟩ : ∃ n, levels = n + 1 := ⟨levels - 1, by omega⟩
  rw [List.forall₂_iff_get] at h
  obtain ⟨hlen, helements⟩ := h
  have hnot : a ∉ around := fun hmem => by
    have := haround a hmem
    omega
  refine serialize_array (hK.grow hext).untouched (hext.get ha) hnot (by simpa using hlen.symm)
    (fun i hi => ?_) name
  have hi' : i < rs.length := by
    rw [← hlen]
    simpa using hi
  refine ⟨rs[i], ?_, by simp⟩
  refine helements i (by simpa using hi) hi' K' hext call levels _ _ ?_ (by omega)
  intro b hb
  rcases List.mem_cons.mp hb with rfl | hb
  · exact Nat.le_refl _
  · have := haround b hb
    omega

end WrittenAs

/-! ## What all objects inherit -/

/-- Whether an object is a function that is there from the start and left out when it is written. -/
def isLeftOut (o : Object) : Bool :=
  match o.kind with
  | .native _ => (o.own? "toJSON").isNone && o.parent == some Realm.functionPrototype
  | _ => false

/-- Whether a member is such a function, or what an object inherits from. -/
def isInheritable (e : String × Slot) : Bool :=
  match e.2 with
  | .value (.object a) =>
    decide (0 < a) && decide (a < Realm.size) && isLeftOut (Realm.objectAt a)
  | .ancestor => e.1 == "__proto__"
  | _ => false

theorem objectPrototype_members :
    ((Realm.objectAt Realm.objectPrototype).hidden.all isInheritable) = true := by
  decide +kernel

section
variable {K : Heap}

theorem get_objectPrototype (hK : Untouched K) : ∃ o, K[Realm.objectPrototype]? = some o ∧
    o.kind = .plain ∧ o.members = [] ∧ o.parent = none ∧
      ∀ e ∈ o.hidden, isInheritable e = true := by
  have hpos : 0 < Realm.objectPrototype := by decide
  refine ⟨_, hK.get_objectAt hpos (by decide +kernel), ?_, ?_, ?_,
    List.all_eq_true.mp objectPrototype_members⟩ <;>
  · rw [Realm.objectPrototype, Realm.objectAt_succ]
    rfl

/-- no function has a function `toJSON` -/
theorem getMember_function (hK : Untouched K) {a : Nat} {o : Object} (ha : K[a]? = some o)
    (hown : o.own? "toJSON" = none) (hparent : o.parent = some Realm.functionPrototype) :
    (Value.object a).getMember "toJSON" K = .ok (.undefined, K) := by
  have hpos : 0 < Realm.functionPrototype := by decide
  have hget := hK.get_objectAt hpos (by decide +kernel)
  have hnone : (Realm.objectAt Realm.functionPrototype).own? "toJSON" = none := by
    rw [← Option.isNone_iff_eq_none]
    decide +kernel
  have hup : (Realm.objectAt Realm.functionPrototype).parent = some Realm.objectPrototype := by
    decide +kernel
  have hfind : Run.find "toJSON" a K = .ok (none, K) := by
    rw [find_run, show maxNesting = 9007199254740989 + 3 + 1 from rfl,
      find_parent _ ha hown hparent, hK.find_missing unknown_toJson hget hnone (Or.inr hup)]
    rfl
  simp only [Value.getMember]
  rw [Run.bind_ok hfind]
  rfl

section
variable (hK : Pristine K)
include hK

theorem writtenAs_function {a : Nat} (hpos : 0 < a) (hlt : a < Realm.size)
    (h : isLeftOut (Realm.objectAt a) = true) (hi : Nat) :
    WrittenAs K hi 0 (.object a) none := by
  intro K' hext call levels around name _ hlevels
  obtain ⟨levels, rfl⟩ : ∃ n, levels = n + 1 := ⟨levels - 1, by omega⟩
  have hK' := (hK.grow hext).untouched
  have hget := hK'.get_objectAt hpos hlt
  unfold isLeftOut at h
  cases hkind : (Realm.objectAt a).kind with
  | native b =>
    rw [hkind] at h
    simp only [Bool.and_eq_true, Option.isNone_iff_eq_none, beq_iff_eq] at h
    unfold Value.serialize
    rw [Run.bind_ok (replaced_itself call name (getMember_function hK' hget h.1 h.2) rfl)]
    dsimp only
    rw [Run.bind_ok (load_run hget), hkind]
    rfl
  | _ =>
    rw [hkind] at h
    cases h

theorem writtenAs_objectPrototype {hi : Nat} (hhi : Realm.objectPrototype < hi) :
    WrittenAs K hi 0 (.object Realm.objectPrototype) (some (.obj [])) := by
  intro K' hext call levels around name haround hlevels
  obtain ⟨levels, rfl⟩ : ∃ n, levels = n + 1 := ⟨levels - 1, by omega⟩
  have hK' := (hK.grow hext).untouched
  obtain ⟨o, ho, hkind, hmembers, -, -⟩ := get_objectPrototype hK'
  have hfind : Run.find "toJSON" Realm.objectPrototype K' = .ok (none, K') := by
    rw [find_run, maxNesting_succ, hK'.find_object unknown_toJson]
    rfl
  have hmissing : (Value.object Realm.objectPrototype).getMember "toJSON" K' =
      .ok (.undefined, K') := by
    simp only [Value.getMember]
    rw [Run.bind_ok hfind]
    rfl
  unfold Value.serialize
  rw [Run.bind_ok (replaced_itself call name hmissing rfl)]
  dsimp only
  rw [Run.bind_ok (load_run ho), hkind]
  dsimp only
  rw [unlessAround_run fun hmem => by have := haround _ hmem; omega, hmembers]
  rfl

/-- what is written for a member that a document inherits -/
theorem writtenAs_inherited {a : Nat} {o : Object} (ha : K[a]? = some o)
    (hparent : o.parent = some Realm.objectPrototype) {p : String} (hown : o.own? p = none)
    {hi : Nat} (hhi : Realm.objectPrototype < hi) :
    ∃ w r, (Value.object a).getMember p K = .ok (w, K) ∧ WrittenAs K hi 0 w r ∧
      (p ≠ "__proto__" → r = none) := by
  obtain ⟨q, hq, hkind, hmembers, hup, hhidden⟩ := get_objectPrototype hK.untouched
  have hqown : q.own? p = Entries.get? p q.hidden := by
    simp [Object.own?, hkind, Object.kept?, hmembers, Entries.get?]
  have hfind : K.find p maxNesting a = .ok (Entries.get? p q.hidden) := by
    rw [maxNesting_succ, find_parent _ ha hown hparent]
    cases hget : Entries.get? p q.hidden with
    | none => simp only [Heap.find, hq, Option.getD_some, hqown, hget, hup]; rfl
    | some s => exact find_own _ hq (hqown.trans hget)
  have hrun : Run.find p a K = .ok (Entries.get? p q.hidden, K) := by
    rw [find_run, hfind]
    rfl
  simp only [Value.getMember]
  rw [Run.bind_ok hrun]
  cases hget : Entries.get? p q.hidden with
  | none => exact ⟨.undefined, none, rfl, .leaf rfl, fun _ => rfl⟩
  | some s =>
    have hs := hhidden _ (Entries.mem_of_get? hget)
    cases s with
    | value v =>
      cases v with
      | object m =>
        simp only [isInheritable, Bool.and_eq_true, decide_eq_true_eq] at hs
        exact ⟨.object m, none, rfl, writtenAs_function hK hs.1.1 hs.1.2 hs.2 hi, fun _ => rfl⟩
      | _ => cases hs
    | locked v => cases hs
    | ancestor =>
      refine ⟨.object Realm.objectPrototype, _, ?_, writtenAs_objectPrototype hK hhi,
        fun hne => absurd (beq_iff_eq.mp hs) hne⟩
      simp only [Value.ofSlot, Run.ancestor]
      rw [Run.bind_ok (load_run ha), hparent]
      rfl

end

end

/-! ## Members of a document -/

section
variable {K : Heap} {lo hi : Nat} {v : Value} {ms : List (String × Json)}

/-- a member of a document is its own or inherited -/
theorem getMember_object (h : v.Represents K lo hi (.obj ms)) (hms : Entries.Ascending ms)
    (p : String) :
    (∃ w j, Entries.get? p ms = some j ∧ v.getMember p K = .ok (w, K) ∧ w.Represents K lo hi j) ∨
      (Entries.get? p ms = none ∧ ∃ a, v = .object a ∧ ∃ o, K[a]? = some o ∧
        o.parent = some Realm.objectPrototype ∧ o.own? p = none) := by
  simp only [Value.Represents] at h
  obtain ⟨a, es, rfl, ⟨-, hhi⟩, ha, hes⟩ := h
  have hnames : (es.map Prod.fst).Nodup := by
    rw [names_related (Members.represent_iff.mp hes)]
    exact hms.nodup_names
  rw [Entries.made_of_nodup hnames] at ha
  have hown : ({ members := es } : Object).own? p = (Entries.get? p es).map .value :=
    own?_of_plain rfl rfl p
  have hget := get?_related (Members.represent_iff.mp hes) p
  generalize Entries.get? p ms = r at hget ⊢
  generalize Entries.get? p es = s at hget hown
  cases hget with
  | none => exact Or.inr ⟨rfl, a, rfl, _, ha, rfl, hown⟩
  | some hw =>
    exact Or.inl ⟨_, _, rfl, getMember_own ha hown,
      hw.mono (Nat.le_refl _) (Nat.le_of_lt hhi) (fun _ _ _ ho => ho) _⟩

/-- A property of a document as it is recorded: null if there is none. -/
def lookedUp (d : Json) (p : String) : Json := ((d.get? p).map throughScript).getD .null

/-- what is found for a property, and what is written for it -/
theorem getMember_property (hK : Pristine K) (h : v.Represents K lo hi (.obj ms))
    (hms : Entries.Ascending ms) (hhi : Realm.objectPrototype < hi) (p : String) :
    ∃ w r, v.getMember p K = .ok (w, K) ∧ WrittenAs K hi (Json.nestingMembers ms) w r ∧
      (p ≠ "__proto__" → r.getD .null = lookedUp (.obj ms) p) := by
  obtain ⟨w, j, hj, hrun, hw⟩ | ⟨hnone, a, rfl, o, ho, hparent, hown⟩ := getMember_object h hms p
  · refine ⟨w, some (throughScript j), hrun, ?_, fun _ => ?_⟩
    · exact (WrittenAs.represents hK hw).mono (Nat.le_refl _)
        (Json.nesting_member (Entries.mem_of_get? hj))
    · rw [lookedUp, Json.get?, hj]
      rfl
  · obtain ⟨w, r, hrun, hw, hr⟩ := writtenAs_inherited hK ho hparent hown hhi
    refine ⟨w, r, hrun, hw.mono (Nat.le_refl _) (Nat.zero_le _), fun hne => ?_⟩
    rw [hr hne, lookedUp, Json.get?, hnone]
    rfl

end

end ViewDesign.Evaluation
