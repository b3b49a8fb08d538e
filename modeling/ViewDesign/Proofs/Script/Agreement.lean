import ViewDesign.Proofs.Script.Natives

/-!
# Computations that agree on corresponding heaps

* `Mirrored`       both heaps hold the same objects along a link;
* `Setting`        the rest of both heaps: what holds of it, and which changes keep that;
* `Corresponds`    the heaps are mirrored, and the rest is as the setting says;
* `Agree`          two computations end in corresponding heaps with corresponding results, or fail
                   with the same fault; `Agree.bind` composes them.

The second computation may be one that checks what it does.  When it fails since a check has failed,
nothing is said about the first one.

In a plain setting nothing is written below two floors, the sizes of the heaps at some moment, and
the objects from the start are as they were.
-/

namespace ViewDesign.Script

/-! ## Runs -/

section
variable {α β : Type} {x : Run α} {f : α → Run β} {K K' : Heap}

theorem Run.bind_ok {a : α} (h : x K = .ok (a, K')) : (x >>= f) K = f a K' := by
  show Except.bind (x K) (fun p => f p.1 p.2) = _
  rw [h]
  rfl

theorem Run.bind_error {e : Fault} (h : x K = .error e) : (x >>= f) K = .error e := by
  show Except.bind (x K) (fun p => f p.1 p.2) = _
  rw [h]
  rfl

theorem allocate_run (o : Object) : Run.allocate o K = .ok (K.size, K.push o) := rfl

theorem load_run {a : Nat} {o : Object} (h : K[a]? = some o) : Run.load a K = .ok (o, K) := by
  show Except.ok (K[a]?.getD {}, K) = _
  rw [h]
  rfl

/-- a variable that was found is written where it is -/
theorem Scope.write_of_find {s : Scope} {x : String} {a : Nat} {v w : Value} {K : Heap}
    (h : s.find? K x = some (a, v)) : s.write x w K = Run.setOwn a x w K := by
  have hget : (get : Run Heap) K = .ok (K, K) := rfl
  unfold Scope.write
  rw [Run.bind_ok hget, h]

end

/-! ## The rest of the heaps -/

/-- What is known of the rest of both heaps.  It survives new objects, and changes of linked
objects from the floors on. -/
structure Setting where
  /-- nothing is assigned or called -/
  plain : Bool
  floor : Nat
  floor' : Nat
  /-- the values of `emit` -/
  emitter : Value
  emitter' : Value
  /-- a fault of the second side after which nothing is known of the first -/
  Spoiled : Fault → Prop
  Rest : Link → Heap → Heap → Prop
  rest_push : ∀ {L K H} (r o p), Rest L K H → Rest (L.add K.size H.size r) (K.push o) (H.push p)
  rest_set : ∀ {L K H a b r} (o p), Rest L K H → L a b r → floor ≤ a → floor' ≤ b →
    Rest L (K.setIfInBounds a o) (H.setIfInBounds b p)
  rest_constant : ∀ {L K H} (x : String), Rest L K H → (Scope.constant? x).isSome = true →
    Scope.find? K x [Scope.globals] = none ∧ Scope.find? H x [Scope.globals] = none
  rest_emit : ∀ {L K H}, plain = false → Rest L K H →
    Scope.find? K "emit" [Scope.globals] = some (Scope.globals, emitter) ∧
      Scope.find? H "emit" [Scope.globals] = some (Scope.globals, emitter')
  rest_native : ∀ {L K H}, plain = true → Rest L K H → Untouched K ∧ Untouched H
  floor_zero : plain = false → floor = 0 ∧ floor' = 0

/-- where only plain code is let in, none is that is not plain -/
theorem Setting.not_plain {S : Setting} {b : Bool} (hp : S.plain = true → b = true)
    (hb : b = false) : S.plain = false := by
  cases hS : S.plain with
  | false => rfl
  | true => exact absurd (hp hS) (by simp [hb])

theorem Setting.vacuous {S : Setting} (hplain : S.plain = false) {q : Prop} : S.plain = true → q :=
  fun hp => absurd hp (by simp [hplain])

/-! ## Heaps along a link -/

/-- Both heaps hold the same objects along a link.  A frame has exactly its names, unless it is
unfinished and some are still missing. -/
structure Mirrored (plain : Bool) (unfinished : Nat → Prop) (L : Link) (K H : Heap) : Prop
    extends proper : L.Proper where
  object : ∀ {a b r}, L a b r →
    ∃ o p, K[a]? = some o ∧ H[b]? = some p ∧ Object.Linked plain L o p
  frame : ∀ {a b names o}, L a b (.frame names) → K[a]? = some o →
    o.kind = .plain ∧ (∀ x ∈ o.members.map Prod.fst, x ∈ names) ∧
      (¬ unfinished a → ∀ x ∈ names, x ∈ o.members.map Prod.fst)
  role : ∀ {a b r r'}, L a b r → L a b r' → r = r'
  inner : ∀ {a b r}, L a b r → a ≠ 0 ∧ b ≠ 0

/-- No frame is unfinished. -/
abbrev finished : Nat → Prop := fun _ => False

namespace Mirrored

section
variable {plain : Bool} {U : Nat → Prop} {L : Link} {K H : Heap}

theorem lt_size (h : Mirrored plain U L K H) {a b : Nat} {r : Role} (hl : L a b r) :
    a < K.size ∧ b < H.size := by
  obtain ⟨o, p, ho, hp, -⟩ := h.object hl
  exact ⟨(Array.getElem?_eq_some_iff.1 ho).1, (Array.getElem?_eq_some_iff.1 hp).1⟩

/-- a new object on both sides -/
theorem push (h : Mirrored plain U L K H) (hK : 0 < K.size) (hH : 0 < H.size) (r : Role)
    {o p : Object} (hop : Object.Linked plain L o p)
    (hframe : ∀ names, r = .frame names → o.kind = .plain ∧
      (∀ x ∈ o.members.map Prod.fst, x ∈ names) ∧
        (¬ U K.size → ∀ x ∈ names, x ∈ o.members.map Prod.fst)) :
    Mirrored plain U (L.add K.size H.size r) (K.push o) (H.push p) := by
  have hle := L.le_add K.size H.size r
  have hold : ∀ {a b s}, L a b s → (K.push o)[a]? = K[a]? ∧ (H.push p)[b]? = H[b]? := by
    intro a b s hl
    obtain ⟨ha, hb⟩ := h.lt_size hl
    rw [Array.getElem?_push, Array.getElem?_push, if_neg (by omega), if_neg (by omega)]
    exact ⟨rfl, rfl⟩
  -- a linked pair of addresses is an old one, or the pair of the new objects
  refine ⟨⟨h.natives.mono hle, ?_⟩, ?_, ?_, ?_, ?_⟩
  · rintro a b s a' b' s' (hl | ⟨rfl, rfl, rfl⟩) (hl' | ⟨rfl, rfl, rfl⟩)
    · exact h.unique hl hl'
    · have := h.lt_size hl
      omega
    · have := h.lt_size hl'
      omega
    · simp
  · rintro a b s (hl | ⟨rfl, rfl, rfl⟩)
    · obtain ⟨o', p', ho, hp, hop'⟩ := h.object hl
      exact ⟨o', p', (hold hl).1.trans ho, (hold hl).2.trans hp, hop'.mono hle⟩
    · exact ⟨o, p, by simp, by simp, hop.mono hle⟩
  · rintro a b names o' (hl | ⟨rfl, rfl, hr⟩) ho'
    · exact h.frame hl ((hold hl).1.symm.trans ho')
    · rw [Array.getElem?_push, if_pos rfl] at ho'
      cases ho'
      exact hframe names hr.symm
  · rintro a b s s' (hl | ⟨ha, -, hs⟩) (hl' | ⟨ha', -, hs'⟩)
    · exact h.role hl hl'
    · have := h.lt_size hl
      omega
    · have := h.lt_size hl'
      omega
    · rw [hs, hs']
  · rintro a b s (hl | ⟨rfl, rfl, rfl⟩)
    · exact h.inner hl
    · omega

/-- a change of a linked object on both sides -/
theorem set (h : Mirrored plain U L K H) {a b : Nat} {r : Role} (hl : L a b r) {o p : Object}
    (hop : Object.Linked plain L o p)
    (hframe : ∀ names, r = .frame names → o.kind = .plain ∧
      (∀ x ∈ o.members.map Prod.fst, x ∈ names) ∧
        (¬ U a → ∀ x ∈ names, x ∈ o.members.map Prod.fst)) :
    Mirrored plain U L (K.setIfInBounds a o) (H.setIfInBounds b p) := by
  obtain ⟨ha, hb⟩ := h.lt_size hl
  -- links are one to one, so the change is seen at both ends of one link and at no other
  have hget : ∀ {a' b' s}, L a' b' s →
      (a' = a ∧ b' = b ∧ (K.setIfInBounds a o)[a']? = some o ∧
        (H.setIfInBounds b p)[b']? = some p) ∨
      (a' ≠ a ∧ (K.setIfInBounds a o)[a']? = K[a']? ∧ (H.setIfInBounds b p)[b']? = H[b']?) := by
    intro a' b' s hl'
    have hu := h.unique hl hl'
    by_cases e : a = a'
    · have e' := hu.1 e
      subst e e'
      exact Or.inl ⟨rfl, rfl, by simp [ha], by simp [hb]⟩
    · have e' : b ≠ b' := fun e' => e (hu.2 e')
      refine Or.inr ⟨fun e' => e e'.symm, ?_, ?_⟩
      · rw [Array.getElem?_setIfInBounds, if_neg e]
      · rw [Array.getElem?_setIfInBounds, if_neg e']
  refine ⟨h.proper, ?_, ?_, h.role, h.inner⟩
  · intro a' b' s hl'
    rcases hget hl' with ⟨rfl, rfl, ho, hp⟩ | ⟨-, ho, hp⟩
    · exact ⟨o, p, ho, hp, hop⟩
    · obtain ⟨o', p', ho', hp', hop'⟩ := h.object hl'
      exact ⟨o', p', ho.trans ho', hp.trans hp', hop'⟩
  · intro a' b' names o' hl' ho'
    rcases hget hl' with ⟨rfl, rfl, ho, -⟩ | ⟨-, ho, -⟩
    · rw [ho] at ho'
      cases ho'
      exact hframe names (h.role hl hl')
    · exact h.frame hl' (ho.symm.trans ho')

/-- fewer frames need to be finished -/
theorem weaken {U' : Nat → Prop} (h : Mirrored plain U L K H) (hU : ∀ a, U a → U' a) :
    Mirrored plain U' L K H where
  proper := h.proper
  object := h.object
  frame hl ho := ⟨(h.frame hl ho).1, (h.frame hl ho).2.1,
    fun hu => (h.frame hl ho).2.2 (fun hu' => hu (hU _ hu'))⟩
  role := h.role
  inner := h.inner

/-- frames that have all their names are finished -/
theorem finish (h : Mirrored plain U L K H)
    (hall : ∀ a b names o, U a → L a b (.frame names) → K[a]? = some o →
      ∀ x ∈ names, x ∈ o.members.map Prod.fst) : Mirrored plain finished L K H := by
  refine ⟨h.proper, h.object, ?_, h.role, h.inner⟩
  intro a b names o hl ho
  obtain ⟨hk, hup, hlow⟩ := h.frame hl ho
  refine ⟨hk, hup, fun _ => ?_⟩
  by_cases hu : U a
  · exact hall a b names o hu hl ho
  · exact hlow hu

/-- heaps that are the same at all linked addresses -/
theorem of_same {q : Bool} {K' H' : Heap} (h : Mirrored plain U L K H)
    (hplain : q = true → plain = true)
    (hK : ∀ {a b r}, L a b r → K'[a]? = K[a]?) (hH : ∀ {a b r}, L a b r → H'[b]? = H[b]?) :
    Mirrored q U L K' H' := by
  refine ⟨h.proper, ?_, ?_, h.role, h.inner⟩
  · intro a b r hl
    obtain ⟨o, p, ho, hp, hop⟩ := h.object hl
    exact ⟨o, p, (hK hl).trans ho, (hH hl).trans hp, hop.weaken hplain⟩
  · intro a b names o hl ho
    exact h.frame hl ((hK hl).symm.trans ho)

/-- the objects from the start are as they were on one side if they are on the other -/
theorem untouched (h : Mirrored plain U L K H) (hH : ∀ a, Realm.Shared a → H[a]? = Realm.heap[a]?)
    {a : Nat} (ha : Realm.Shared a) : K[a]? = Realm.heap[a]? := by
  obtain ⟨o, p, ho, hp, hop⟩ := h.object (h.natives a ha)
  obtain ⟨q, hq, hshared⟩ := Realm.isShared_get ha
  rw [hH a ha, hq] at hp
  cases hp
  rw [ho, hq, hop.eq_shared h.proper hshared]

end

end Mirrored

/-- The heaps are mirrored along a link, and the rest of them is as the setting says. -/
structure Corresponds (S : Setting) (unfinished : Nat → Prop) (L : Link) (K H : Heap) : Prop
    extends mirrored : Mirrored S.plain unfinished L K H where
  room : S.floor ≤ K.size ∧ S.floor' ≤ H.size ∧ 0 < K.size ∧ 0 < H.size
  rest : S.Rest L K H

section
variable {S : Setting} {U : Nat → Prop} {L : Link} {K H : Heap}

namespace Corresponds

/-- a new object on both sides -/
theorem push (h : Corresponds S U L K H) (r : Role) {o p : Object}
    (hop : Object.Linked S.plain L o p)
    (hframe : ∀ names, r = .frame names → o.kind = .plain ∧
      (∀ x ∈ o.members.map Prod.fst, x ∈ names) ∧
        (¬ U K.size → ∀ x ∈ names, x ∈ o.members.map Prod.fst)) :
    Corresponds S U (L.add K.size H.size r) (K.push o) (H.push p) where
  mirrored := h.mirrored.push h.room.2.2.1 h.room.2.2.2 r hop hframe
  room := by
    have := h.room
    rw [Array.size_push, Array.size_push]
    omega
  rest := S.rest_push r o p h.rest

/-- a change of a linked object on both sides -/
theorem set (h : Corresponds S U L K H) {a b : Nat} {r : Role} (hl : L a b r)
    (hfloor : S.floor ≤ a ∧ S.floor' ≤ b) {o p : Object} (hop : Object.Linked S.plain L o p)
    (hframe : ∀ names, r = .frame names → o.kind = .plain ∧
      (∀ x ∈ o.members.map Prod.fst, x ∈ names) ∧
        (¬ U a → ∀ x ∈ names, x ∈ o.members.map Prod.fst)) :
    Corresponds S U L (K.setIfInBounds a o) (H.setIfInBounds b p) where
  mirrored := h.mirrored.set hl hop hframe
  room := by simpa using h.room
  rest := S.rest_set o p h.rest hl hfloor.1 hfloor.2

theorem weaken {U' : Nat → Prop} (h : Corresponds S U L K H) (hU : ∀ a, U a → U' a) :
    Corresponds S U' L K H := ⟨h.mirrored.weaken hU, h.room, h.rest⟩

theorem finish (h : Corresponds S U L K H)
    (hall : ∀ a b names o, U a → L a b (.frame names) → K[a]? = some o →
      ∀ x ∈ names, x ∈ o.members.map Prod.fst) : Corresponds S finished L K H :=
  ⟨h.mirrored.finish hall, h.room, h.rest⟩

/-- heaps that are the same at all linked addresses -/
theorem transfer {S' : Setting} {K' H' : Heap} (h : Corresponds S U L K H)
    (hplain : S'.plain = true → S.plain = true)
    (hK : ∀ {a b r}, L a b r → K'[a]? = K[a]?) (hH : ∀ {a b r}, L a b r → H'[b]? = H[b]?)
    (hroom : S'.floor ≤ K'.size ∧ S'.floor' ≤ H'.size ∧ 0 < K'.size ∧ 0 < H'.size)
    (hrest : S'.Rest L K' H') : Corresponds S' U L K' H' :=
  ⟨h.mirrored.of_same hplain hK hH, hroom, hrest⟩

end Corresponds

end

/-! ## Agreement -/

/-- Two ends of computations agree. -/
def Ends (S : Setting) {α β : Type} (L : Link) (R : Link → α → β → Prop) :
    Except Fault (α × Heap) → Except Fault (β × Heap) → Prop
  | .ok (a, K), .ok (b, H) => ∃ M, L.Le M ∧ Corresponds S finished M K H ∧ R M a b
  | .error e, .error f => e = f ∨ S.Spoiled f
  | .ok _, .error f => S.Spoiled f
  | .error _, .ok _ => False

/-- Two computations agree: on corresponding heaps they end alike. -/
def Agree (S : Setting) {α β : Type} (L : Link) (R : Link → α → β → Prop) (x : Run α) (y : Run β) :
    Prop :=
  ∀ K H, Corresponds S finished L K H → Ends S L R (x K) (y H)

/-- Results that are equal. -/
abbrev Same {α : Type} : Link → α → α → Prop := fun _ a b => a = b

section
variable {S : Setting} {L : Link} {α β γ δ : Type}

theorem Ends.error {R : Link → α → β → Prop} (e : Fault) :
    Ends S L R (.error e) (.error e) := Or.inl rfl

theorem Ends.spoiled {R : Link → α → β → Prop} {x : Except Fault (α × Heap)} {f : Fault}
    (h : S.Spoiled f) : Ends S L R x (.error f) := by
  cases x with
  | error e => exact Or.inr h
  | ok a => exact h

/-- the second side fails and the first one fails with the same fault, or both succeed -/
theorem Ends.cases {R : Link → α → β → Prop} {x : Except Fault (α × Heap)}
    {y : Except Fault (β × Heap)} (h : Ends S L R x y) :
    (∃ f, y = .error f ∧ (x = .error f ∨ S.Spoiled f)) ∨
      ∃ a K b H M, x = .ok (a, K) ∧ y = .ok (b, H) ∧ L.Le M ∧ Corresponds S finished M K H ∧
        R M a b := by
  match x, y, h with
  | .ok (a, K), .ok (b, H), ⟨M, hle, hc, hR⟩ => exact .inr ⟨a, K, b, H, M, rfl, rfl, hle, hc, hR⟩
  | .error e, .error f, h => exact .inl ⟨f, rfl, h.imp (fun he => by rw [he]) id⟩
  | .ok _, .error f, h => exact .inl ⟨f, rfl, Or.inr h⟩

theorem Ends.mono {R : Link → α → β → Prop} {L M : Link} {x : Except Fault (α × Heap)}
    {y : Except Fault (β × Heap)} (h : Ends S M R x y) (hle : L.Le M) : Ends S L R x y := by
  match x, y, h with
  | .ok (a, K), .ok (b, H), ⟨N, hMN, hc, hR⟩ => exact ⟨N, hle.trans hMN, hc, hR⟩
  | .error e, .error f, h => exact h
  | .ok _, .error f, h => exact h

namespace Agree

theorem pure {R : Link → α → β → Prop} {a : α} {b : β} (h : R L a b) :
    Agree S L R (Pure.pure a) (Pure.pure b) :=
  fun _ _ hc => ⟨L, Link.Le.refl L, hc, h⟩

theorem throw {R : Link → α → β → Prop} (e : Fault) :
    Agree S L R (throwThe Fault e) (throwThe Fault e) :=
  fun _ _ _ => Ends.error e

theorem thrown {R : Link → α → β → Prop} : Agree S L R Run.thrown Run.thrown :=
  fun _ _ _ => Ends.error .thrown

theorem thrownIf (b : Bool) : Agree S L Same (if b then Run.thrown else Pure.pure ())
    (if b then Run.thrown else Pure.pure ()) := by
  split
  · exact thrown
  · exact pure rfl

theorem bind {R : Link → α → β → Prop} {Q : Link → γ → δ → Prop} {x : Run α} {y : Run β}
    {f : α → Run γ} {g : β → Run δ} (h : Agree S L R x y)
    (hfg : ∀ M, L.Le M → ∀ a b, R M a b → Agree S M Q (f a) (g b)) :
    Agree S L Q (x >>= f) (y >>= g) := by
  intro K H hc
  obtain ⟨e, hy, hx | hspoiled⟩ | ⟨a, K', b, H', M, hx, hy, hle, hc', hR⟩ := (h K H hc).cases
  · rw [Run.bind_error hx, Run.bind_error hy]
    exact Ends.error e
  · rw [Run.bind_error hy]
    exact Ends.spoiled hspoiled
  · rw [Run.bind_ok hx, Run.bind_ok hy]
    exact (hfg M hle a b hR K' H' hc').mono hle

/-- a computation whose result is used through a function -/
theorem map {R : Link → α → β → Prop} {Q : Link → γ → δ → Prop} {x : Run α} {y : Run β}
    {f : α → γ} {g : β → δ} (h : Agree S L R x y)
    (hfg : ∀ M, L.Le M → ∀ a b, R M a b → Q M (f a) (g b)) :
    Agree S L Q (x >>= fun a => Pure.pure (f a)) (y >>= fun b => Pure.pure (g b)) :=
  h.bind fun M hle a b hab => Agree.pure (hfg M hle a b hab)

end Agree

/-! ## The heap -/

/-- a new object that values may refer to -/
theorem agree_allocate {o p : Object} (h : Object.Linked S.plain L o p) :
    Agree S L (fun M a b => M a b .data) (Run.allocate o) (Run.allocate p) := by
  intro K H hc
  refine ⟨L.add K.size H.size .data, L.le_add _ _ _, ?_, L.add_self _ _ _⟩
  exact hc.push .data h (fun _ hr => nomatch hr)

theorem agree_load {a b : Nat} {r : Role} (h : L a b r) :
    Agree S L (fun M o p => Object.Linked S.plain M o p) (Run.load a) (Run.load b) := by
  intro K H hc
  obtain ⟨o, p, ho, hp, hop⟩ := hc.object h
  refine ⟨L, Link.Le.refl L, hc, ?_⟩
  show Object.Linked S.plain L (K[a]?.getD {}) (H[b]?.getD {})
  rw [ho, hp]
  exact hop

theorem agree_store {a b : Nat} (hplain : S.plain = false) (h : L a b .data) {o p : Object}
    (hop : Object.Linked S.plain L o p) : Agree S L Same (Run.store a o) (Run.store b p) := by
  intro K H hc
  have hz := S.floor_zero hplain
  exact ⟨L, Link.Le.refl L, hc.set h (by omega) hop (fun _ hr => nomatch hr), rfl⟩

end

end ViewDesign.Script
