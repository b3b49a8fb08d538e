import ViewDesign.Proofs.Script.Loading

/-!
# Heaps that only grow

Loading a document, and plain code, make new objects and change no old ones.

* `Pristine`     the objects from the start are as they were, and no global variable hides a constant;
* `quiet`        the setting in which both heaps only grow, and new objects are linked to new ones.
-/

namespace ViewDesign.Script

/-- The objects from the start are as they were, and no global variable hides a constant. -/
structure Pristine (K : Heap) : Prop where
  size : Realm.size ≤ K.size
  untouched : Untouched K
  constant : ∀ x, (Scope.constant? x).isSome = true → Scope.find? K x [Scope.globals] = none

theorem find?_sole {K K' : Heap} (h : K'[Scope.globals]? = K[Scope.globals]?) (x : String) :
    Scope.find? K' x [Scope.globals] = Scope.find? K x [Scope.globals] := by
  simp only [Scope.find?, h]

/-- `JSON` and what other objects inherit from come first -/
theorem Realm.ten_le_size : 10 ≤ Realm.size := by decide +kernel

theorem Realm.size_pos : 0 < Realm.size := Nat.lt_of_lt_of_le (by decide) Realm.ten_le_size

namespace Pristine

variable {K K' : Heap}

theorem pos (h : Pristine K) : 0 < K.size := Nat.lt_of_lt_of_le Realm.size_pos h.size

theorem of_same (h : Pristine K) (hsame : ∀ a < Realm.size, K'[a]? = K[a]?) : Pristine K' := by
  have hpos := Realm.size_pos
  refine ⟨?_, fun a ha hlt => (hsame a hlt).trans (h.untouched a ha hlt), fun x hx => ?_⟩
  · have hlast := hsame (Realm.size - 1) (by omega)
    have hsize := h.size
    rw [Array.getElem?_eq_getElem (by omega : Realm.size - 1 < K.size)] at hlast
    have hlt := (Array.getElem?_eq_some_iff.1 hlast).1
    omega
  · exact (find?_sole (hsame _ hpos) x).trans (h.constant x hx)

theorem grow (h : Pristine K) (hext : Heap.Extends K K') : Pristine K' :=
  h.of_same fun a ha => hext.same a (Nat.lt_of_lt_of_le ha h.size)

end Pristine

theorem Heap.Extends.set {K0 K : Heap} (h : Heap.Extends K0 K) {a : Nat} (ha : K0.size ≤ a)
    (o : Object) : Heap.Extends K0 (K.setIfInBounds a o) := by
  refine ⟨by simpa using h.size, fun c hc => ?_⟩
  rw [Array.getElem?_setIfInBounds, if_neg (by omega)]
  exact h.same c hc

/-- The setting in which both heaps only grow.  What is linked was linked at the start, or is new on
both sides. -/
def quiet {K0 H0 : Heap} (hK : Pristine K0) (hH : Pristine H0) (L0 : Link) : Setting where
  plain := true
  floor := K0.size
  floor' := H0.size
  emitter := .undefined
  emitter' := .undefined
  Spoiled _ := False
  Rest L K H := Heap.Extends K0 K ∧ Heap.Extends H0 H ∧
    ∀ a b r, L a b r → L0 a b r ∨ (K0.size ≤ a ∧ H0.size ≤ b)
  rest_push := by
    rintro L K H r o p ⟨hK', hH', hl⟩
    refine ⟨hK'.trans (.push K o), hH'.trans (.push H p), ?_⟩
    rintro a b s (h | ⟨rfl, rfl, -⟩)
    · exact hl a b s h
    · exact Or.inr ⟨hK'.size, hH'.size⟩
  rest_set := by
    rintro L K H a b r o p ⟨hK', hH', hl⟩ _ ha hb
    exact ⟨hK'.set ha o, hH'.set hb p, hl⟩
  rest_constant := by
    rintro L K H x ⟨hK', hH', -⟩ hx
    exact ⟨(hK.grow hK').constant x hx, (hH.grow hH').constant x hx⟩
  rest_emit := fun h => nomatch h
  rest_native := by
    rintro L K H - ⟨hK', hH', -⟩
    exact ⟨(hK.grow hK').untouched, (hH.grow hH').untouched⟩
  floor_zero := fun h => nomatch h

/-- the objects from the start, and nothing else, are linked in two pristine heaps -/
theorem mirrored_natives (plain : Bool) {K H : Heap} (hK : Pristine K) (hH : Pristine H) :
    Mirrored plain finished nativeLink K H := by
  have hfour : Realm.objectPrototype = 4 := rfl
  refine ⟨⟨natives_nativeLink, ?_⟩, ?_, ?_, ?_, ?_⟩
  · rintro a b r a' b' r' ⟨rfl, -⟩ ⟨rfl, -⟩
    exact Iff.rfl
  · rintro a b r ⟨rfl, -, ha⟩
    exact linked_native natives_nativeLink plain hK.untouched hH.untouched ha
  · rintro a b names o ⟨-, hr, -⟩
    cases hr
  · rintro a b r r' ⟨-, rfl, -⟩ ⟨-, rfl, -⟩
    rfl
  · rintro a b r ⟨rfl, -, ha, -⟩
    omega

/-- what is linked now is all that is known of the heaps from here on -/
theorem corresponds_quiet {L : Link} {K H : Heap} (h : Mirrored true finished L K H)
    (hK : Pristine K) (hH : Pristine H) : Corresponds (quiet hK hH L) finished L K H where
  mirrored := h
  room := ⟨Nat.le_refl _, Nat.le_refl _, hK.pos, hH.pos⟩
  rest := ⟨.refl K, .refl H, fun _ _ _ hl => Or.inl hl⟩

/-- the heaps at the start, when nothing else is linked -/
theorem corresponds_natives {K H : Heap} (hK : Pristine K) (hH : Pristine H) :
    Corresponds (quiet hK hH nativeLink) finished nativeLink K H :=
  corresponds_quiet (mirrored_natives true hK hH) hK hH

end ViewDesign.Script
