import ViewDesign.Proofs.Evaluation.Reference

/-!
# The documents of a script

All documents are loaded before the first call, one after the other, so each of them occupies an
interval of addresses of its own.  There it corresponds to the same document loaded alone.

* `Loaded`         a document in an interval of addresses;
* `LoadedAll`      documents in consecutive intervals;
* `items_loaded`   loading puts them there.
-/

namespace ViewDesign.Evaluation

open Script

/-- A document whose objects have addresses in an interval, corresponding to the document alone. -/
def Loaded (K : Heap) (lo hi : Nat) (v : Value) (d : Json) : Prop :=
  ∃ L H w, Value.ofNode (Json.nodeIn Json.floatLayout d) soleHeap = .ok (w, H) ∧
    Value.Linked L v w ∧ Mirrored true finished L K H ∧
      ∀ a b r, L a b r → nativeLink a b r ∨ (lo ≤ a ∧ a < hi) ∧ soleHeap.size ≤ b

/-- Documents in consecutive intervals of addresses. -/
def LoadedAll (K : Heap) (hi : Nat) : Nat → List Value → List Json → Prop
  | lo, [], [] => lo ≤ hi
  | lo, v :: vs, d :: ds => ∃ mid, lo ≤ mid ∧ Loaded K lo mid v d ∧ LoadedAll K hi mid vs ds
  | _, _, _ => False

/-! ## They stay where they are -/

/-- Nothing has changed in an interval and among the objects from the start. -/
def SameIn (lo hi : Nat) (K K' : Heap) : Prop :=
  ∀ a, Realm.Shared a ∨ (lo ≤ a ∧ a < hi) → K'[a]? = K[a]?

theorem SameIn.sub {K K' : Heap} {lo hi lo' hi' : Nat} (h : SameIn lo hi K K') (hlo : lo ≤ lo')
    (hhi : hi' ≤ hi) : SameIn lo' hi' K K' := by
  intro a ha
  refine h a (ha.imp_right ?_)
  omega

theorem Loaded.of_same {K K' : Heap} {lo hi : Nat} {v : Value} {d : Json} (h : Loaded K lo hi v d)
    (hsame : SameIn lo hi K K') : Loaded K' lo hi v d := by
  obtain ⟨L, H, w, hrun, hvw, hc, hin⟩ := h
  refine ⟨L, H, w, hrun, hvw, hc.of_same (fun hp => hp) (fun hl => ?_) (fun _ => rfl), hin⟩
  obtain ⟨-, -, hshared⟩ | ⟨hlt, -⟩ := hin _ _ _ hl
  · exact hsame _ (Or.inl hshared)
  · exact hsame _ (Or.inr hlt)

theorem LoadedAll.le {K : Heap} {lo hi : Nat} {vs : List Value} {ds : List Json}
    (h : LoadedAll K hi lo vs ds) : lo ≤ hi := by
  induction vs generalizing lo ds with
  | nil =>
    cases ds with
    | nil => exact h
    | cons => exact h.elim
  | cons v vs ih =>
    cases ds with
    | nil => exact h.elim
    | cons d ds =>
      obtain ⟨mid, hle, -, hrest⟩ := h
      exact Nat.le_trans hle (ih hrest)

theorem LoadedAll.of_same {K K' : Heap} {lo hi : Nat} {vs : List Value} {ds : List Json}
    (h : LoadedAll K hi lo vs ds) (hsame : SameIn lo hi K K') : LoadedAll K' hi lo vs ds := by
  induction vs generalizing lo ds with
  | nil =>
    cases ds with
    | nil => exact h
    | cons => exact h.elim
  | cons v vs ih =>
    cases ds with
    | nil => exact h.elim
    | cons d ds =>
      obtain ⟨mid, hle, hv, hrest⟩ := h
      exact ⟨mid, hle, hv.of_same (hsame.sub (Nat.le_refl _) hrest.le),
        ih hrest (hsame.sub hle (Nat.le_refl _))⟩

theorem LoadedAll.length_eq {K : Heap} {lo hi : Nat} {vs : List Value} {ds : List Json}
    (h : LoadedAll K hi lo vs ds) : vs.length = ds.length := by
  induction vs generalizing lo ds with
  | nil =>
    cases ds with
    | nil => rfl
    | cons => exact h.elim
  | cons v vs ih =>
    cases ds with
    | nil => exact h.elim
    | cons d ds =>
      obtain ⟨mid, -, -, hrest⟩ := h
      simp [ih hrest]

/-! ## Loading them -/

theorem node_loaded {K : Heap} (hK : Pristine K) (d : Json) :
    ∃ v K', Value.ofNode (Json.nodeIn Json.floatLayout d) K = .ok (v, K') ∧ Heap.Extends K K' ∧
      Loaded K' K.size K'.size v d := by
  obtain ⟨v, K', hrun, hext, -⟩ := ofNode_run d K
  obtain ⟨w, H, hrun', hext', -⟩ := ofNode_run d soleHeap
  have hends := agree_ofNode (Json.nodeIn Json.floatLayout d) K soleHeap
    (corresponds_natives hK pristine_soleHeap)
  rw [hrun, hrun'] at hends
  obtain ⟨M, -, hc, hvw⟩ := hends
  refine ⟨v, K', hrun, hext, M, H, w, hrun', hvw, hc.mirrored, ?_⟩
  intro a b r hl
  obtain ⟨-, -, hnew⟩ := hc.rest
  exact (hnew a b r hl).imp_right fun h => ⟨⟨h.1, (hc.lt_size hl).1⟩, h.2⟩

/-- what is in use stays as it is while the heap grows -/
theorem sameIn_of_extends {K K' : Heap} (hK : Pristine K) (h : Heap.Extends K K') (lo : Nat) :
    SameIn lo K.size K K' := by
  rintro a (ha | ha)
  · exact h.same a (Nat.lt_of_lt_of_le ha.2 hK.size)
  · exact h.same a ha.2

/-- documents are loaded one after the other -/
theorem items_loaded {K : Heap} (hK : Pristine K) (ds : List Json) :
    ∃ vs K', Value.ofItems (Json.writtenItems (fun n => .numeral (n.literal Json.floatLayout)) ds) K
        = .ok (vs, K') ∧ Heap.Extends K K' ∧ LoadedAll K' K'.size K.size vs ds := by
  induction ds generalizing K with
  | nil =>
    refine ⟨[], K, ?_, .refl K, Nat.le_refl _⟩
    simp only [Json.writtenItems, Value.ofItems]
    rfl
  | cons d ds ih =>
    obtain ⟨v, K1, hrun1, hext1, hv⟩ := node_loaded hK d
    have hK1 := hK.grow hext1
    obtain ⟨vs, K2, hrun2, hext2, hvs⟩ := ih hK1
    refine ⟨v :: vs, K2, ?_, hext1.trans hext2, K1.size, hext1.size,
      hv.of_same (sameIn_of_extends hK1 hext2 _), hvs⟩
    simp only [Json.writtenItems, Value.ofItems]
    rw [Run.bind_ok hrun1, Run.bind_ok hrun2]
    rfl

end ViewDesign.Evaluation
