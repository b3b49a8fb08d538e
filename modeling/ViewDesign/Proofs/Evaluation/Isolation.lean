import ViewDesign.Proofs.Evaluation.Emitting

/-!
# A call in two scripts

One and the same function is called in two scripts, on values that correspond.  It sees no more of
them than its argument, so both calls do the same; what they emit corresponds, and everything else
that was in the first heap stays as it is.

* `Traffic`         the records that both calls have emitted so far, and what has stayed;
* `between`         the setting of the two calls;
* `emit_agrees`     calls of `emit` agree in it, if arrays append;
* `calls_agree`     so do all calls;
* `enter_agrees`    and the bodies of closed functions.

The second script watches whether arrays append.
-/

namespace ViewDesign.Evaluation

open Script

/-! ## The setting -/

/-- The two sides of a call: where `emit` appends to on each, what was emitted before, the heaps at
the start, and the addresses where they stay as they are.  With the fault the second one fails when
`emit` is called and arrays do not append. -/
structure Sides where
  fault : Fault
  left : Site
  right : Site
  before : Array Value
  before' : Array Value
  start : Heap
  start' : Heap
  kept : Nat → Prop
  kept' : Nat → Prop
  kept_lt : ∀ a, kept a → a < start.size ∧ a ≠ left.emitted
  kept_lt' : ∀ b, kept' b → b < start'.size ∧ b ≠ right.emitted

/-- Records at corresponding places. -/
def Recorded (i j : Value) (L : Link) (K H : Heap) (p : Nat × Nat) : Prop :=
  ∃ k v k' v', K[p.1]? = some (record i k v) ∧ H[p.2]? = some (record j k' v') ∧
    Value.Linked L k k' ∧ Value.Linked L v v'

section
variable {i j : Value} {L : Link} {K H : Heap} {p : Nat × Nat}

theorem Recorded.lt_size (h : Recorded i j L K H p) : p.1 < K.size ∧ p.2 < H.size := by
  obtain ⟨k, v, k', v', hk, hh, -⟩ := h
  exact ⟨(Array.getElem?_eq_some_iff.1 hk).1, (Array.getElem?_eq_some_iff.1 hh).1⟩

/-- records that are still where they were -/
theorem Recorded.of_same (h : Recorded i j L K H p) {M : Link} {K' H' : Heap} (hle : L.Le M)
    (hK : K'[p.1]? = K[p.1]?) (hH : H'[p.2]? = H[p.2]?) : Recorded i j M K' H' p := by
  obtain ⟨k, v, k', v', hk, hh, hkk, hvv⟩ := h
  exact ⟨k, v, k', v', hK.trans hk, hH.trans hh, hkk.mono hle, hvv.mono hle⟩

/-- a record is no array -/
theorem Recorded.ne (h : Recorded i j L K H p) {a b : Nat} {xs ys : Array Value}
    (ha : K[a]? = some { kind := .array xs }) (hb : H[b]? = some { kind := .array ys }) :
    p.1 ≠ a ∧ p.2 ≠ b := by
  obtain ⟨k, v, k', v', hk, hh, -⟩ := h
  constructor
  · rintro rfl
    rw [ha] at hk
    cases hk
  · rintro rfl
    rw [hb] at hh
    cases hh

end

/-- The records of both sides so far, and what has stayed. -/
structure Traffic (P : Sides) (ps : List (Nat × Nat)) (L : Link) (K H : Heap) : Prop where
  left : Channel P.left K (P.before ++ (ps.map fun p => Value.object p.1).toArray)
  right : Channel P.right H (P.before' ++ (ps.map fun p => Value.object p.2).toArray)
  records : ∀ p ∈ ps, Recorded P.left.index P.right.index L K H p
  new : ∀ p ∈ ps, P.start.size ≤ p.1
  size : P.start.size ≤ K.size ∧ P.start'.size ≤ H.size
  kept : ∀ a, P.kept a → K[a]? = P.start[a]?
  kept' : ∀ b, P.kept' b → H[b]? = P.start'[b]?
  apart : ∀ {a b r}, L a b r →
    (¬ P.kept a ∧ (a ≠ Scope.globals ∧ a ≠ P.left.emitter ∧ a ≠ P.left.emitted)) ∧
      (¬ P.kept' b ∧ (b ≠ Scope.globals ∧ b ≠ P.right.emitter ∧ b ≠ P.right.emitted)) ∧
        ∀ p ∈ ps, a ≠ p.1 ∧ b ≠ p.2

namespace Traffic

variable {P : Sides} {ps : List (Nat × Nat)} {L : Link} {K H : Heap}

theorem push (h : Traffic P ps L K H) (r : Role) (o p : Object) :
    Traffic P ps (L.add K.size H.size r) (K.push o) (H.push p) := by
  obtain ⟨h0, hf, he⟩ := h.left.lt_size
  obtain ⟨h0', hf', he'⟩ := h.right.lt_size
  obtain ⟨hsize, hsize'⟩ := h.size
  have hle := L.le_add K.size H.size r
  have hK := Heap.Extends.push K o
  have hH := Heap.Extends.push H p
  have hgrown : P.start.size ≤ (K.push o).size ∧ P.start'.size ≤ (H.push p).size := by
    simp only [Array.size_push]
    omega
  refine ⟨h.left.push o, h.right.push p, ?_, h.new, hgrown, ?_, ?_, ?_⟩
  · intro q hq
    obtain ⟨hq1, hq2⟩ := (h.records q hq).lt_size
    exact (h.records q hq).of_same hle (hK.same _ hq1) (hH.same _ hq2)
  · intro a ha
    have := (P.kept_lt a ha).1
    exact (hK.same a (by omega)).trans (h.kept a ha)
  · intro b hb
    have := (P.kept_lt' b hb).1
    exact (hH.same b (by omega)).trans (h.kept' b hb)
  · rintro a b s (hl | ⟨rfl, rfl, -⟩)
    · exact h.apart hl
    · refine ⟨⟨fun hk => ?_, by omega, by omega, by omega⟩,
        ⟨fun hk => ?_, by omega, by omega, by omega⟩, fun q hq => ?_⟩
      · have := (P.kept_lt _ hk).1
        omega
      · have := (P.kept_lt' _ hk).1
        omega
      · have := (h.records q hq).lt_size
        omega

theorem set (h : Traffic P ps L K H) {a b : Nat} {r : Role} (hl : L a b r) (o p : Object) :
    Traffic P ps L (K.setIfInBounds a o) (H.setIfInBounds b p) := by
  obtain ⟨⟨hkept, ha⟩, ⟨hkept', hb⟩, hps⟩ := h.apart hl
  refine ⟨h.left.set ha o, h.right.set hb p, ?_, h.new, by simpa using h.size, ?_, ?_, h.apart⟩
  · intro q hq
    refine (h.records q hq).of_same (.refl L) ?_ ?_
    · rw [Array.getElem?_setIfInBounds, if_neg (hps q hq).1]
    · rw [Array.getElem?_setIfInBounds, if_neg (hps q hq).2]
  · intro c hc
    have hne : a ≠ c := fun e => hkept (e ▸ hc)
    rw [Array.getElem?_setIfInBounds, if_neg hne]
    exact h.kept c hc
  · intro c hc
    have hne : b ≠ c := fun e => hkept' (e ▸ hc)
    rw [Array.getElem?_setIfInBounds, if_neg hne]
    exact h.kept' c hc

end Traffic

theorem find?_globals {S : Site} {K : Heap} {items : Array Value} (hc : Channel S K items)
    {x : String} (hx : Entries.get? x S.globals.members = none) :
    Scope.find? K x [Scope.globals] = none := by
  rw [find?_miss _ hc.globals hx]
  rfl

/-- The setting of the two calls. -/
def between (P : Sides) : Setting where
  plain := false
  floor := 0
  floor' := 0
  emitter := .object P.left.emitter
  emitter' := .object P.right.emitter
  Spoiled f := f = P.fault
  Rest L K H := ∃ ps, Traffic P ps L K H
  rest_push := by
    rintro L K H r o p ⟨ps, h⟩
    exact ⟨ps, h.push r o p⟩
  rest_set := by
    rintro L K H a b r o p ⟨ps, h⟩ hl - -
    exact ⟨ps, h.set hl o p⟩
  rest_constant := by
    rintro L K H x ⟨ps, h⟩ hx
    exact ⟨find?_globals h.left (P.left.constant x hx),
      find?_globals h.right (P.right.constant x hx)⟩
  rest_emit := by
    rintro L K H - ⟨ps, h⟩
    exact ⟨find?_hit _ h.left.globals P.left.emit, find?_hit _ h.right.globals P.right.emit⟩
  rest_native := fun h => nomatch h
  floor_zero := fun _ => ⟨rfl, rfl⟩

/-! ## Calls of `emit` -/

section
variable {P : Sides} {L : Link}

theorem argument_linked {args args' : List Value} (h : Values.Linked L args args') (n : Nat) :
    Value.Linked L (argument args n) (argument args' n) := by
  have hn := getElem?_linked h n
  unfold argument
  rw [List.getD_eq_getElem?_getD, List.getD_eq_getElem?_getD]
  cases ha : args[n]? with
  | none =>
    rw [ha] at hn
    cases hb : args'[n]? with
    | none => exact .primitive rfl
    | some w => rw [hb] at hn; cases hn
  | some v =>
    rw [ha] at hn
    cases hb : args'[n]? with
    | none => rw [hb] at hn; cases hn
    | some w =>
      rw [hb] at hn
      cases hn with
      | some hvw => exact hvw

theorem recorded_linked {v w : Value} (h : Value.Linked L v w) :
    Value.Linked L (recorded v) (recorded w) := by
  cases h with
  | primitive hp =>
    unfold recorded
    split
    · exact .primitive rfl
    · exact .primitive hp
  | object hl => exact .object hl

theorem append_map_push {α : Type} (xs : Array Value) (ps : List α) (f : α → Value) (p : α) :
    (xs ++ (ps.map f).toArray).push (f p) = xs ++ ((ps ++ [p]).map f).toArray := by
  simp

theorem Traffic.emit {ps : List (Nat × Nat)} {K H : Heap} {items items' : Array Value}
    (h : Traffic P ps L K H)
    (hitems : items = P.before ++ (ps.map fun p => Value.object p.1).toArray)
    (hitems' : items' = P.before' ++ (ps.map fun p => Value.object p.2).toArray)
    (hlt : ∀ {a b r}, L a b r → a < K.size ∧ b < H.size) {args args' : List Value}
    (hargs : Values.Linked L args args') :
    Traffic P (ps ++ [(K.size + 1, H.size + 1)]) L (afterEmit P.left K items args)
      (afterEmit P.right H items' args') := by
  obtain ⟨h0, hf, he⟩ := h.left.lt_size
  obtain ⟨h0', hf', he'⟩ := h.right.lt_size
  obtain ⟨hsize, hsize'⟩ := h.size
  subst hitems hitems'
  -- the two new records are one more pair; nothing else that is linked or kept has changed
  refine ⟨?_, ?_, ?_, ?_, by simp only [size_afterEmit]; omega, ?_, ?_, ?_⟩
  · have hc := h.left.afterEmit args
    rw [append_map_push _ ps (fun p => Value.object p.1) (K.size + 1, H.size + 1)] at hc
    exact hc
  · have hc := h.right.afterEmit args'
    rw [append_map_push _ ps (fun p => Value.object p.2) (K.size + 1, H.size + 1)] at hc
    exact hc
  · intro q hq
    rcases List.mem_append.1 hq with hq | hq
    · have hold := h.records q hq
      obtain ⟨hne, hne'⟩ := hold.ne h.left.emitted h.right.emitted
      exact hold.of_same (.refl L) (afterEmit_of_lt hold.lt_size.1 hne args)
        (afterEmit_of_lt hold.lt_size.2 hne' args')
    · rw [List.mem_singleton.1 hq]
      exact ⟨_, _, _, _, afterEmit_record he args, afterEmit_record he' args',
        recorded_linked (argument_linked hargs 0), recorded_linked (argument_linked hargs 1)⟩
  · intro q hq
    rcases List.mem_append.1 hq with hq | hq
    · exact h.new q hq
    · rw [List.mem_singleton.1 hq]
      dsimp only
      omega
  · intro a ha
    obtain ⟨hlt', hne⟩ := P.kept_lt a ha
    rw [afterEmit_of_lt (by omega) hne]
    exact h.kept a ha
  · intro b hb
    obtain ⟨hlt', hne⟩ := P.kept_lt' b hb
    rw [afterEmit_of_lt (by omega) hne]
    exact h.kept' b hb
  · intro a b r hl
    obtain ⟨ha, hb, hps⟩ := h.apart hl
    obtain ⟨hla, hlb⟩ := hlt hl
    refine ⟨ha, hb, ?_⟩
    intro q hq
    rcases List.mem_append.1 hq with hq | hq
    · exact hps q hq
    · rw [List.mem_singleton.1 hq]
      dsimp only
      omega

/-- if arrays append on one side, they do on the other -/
theorem appends_of_mirrored {plain : Bool} {U : Nat → Prop} {K H : Heap}
    (hc : Mirrored plain U L K H) (h : H.appends = true) : K.appends = true := by
  obtain ⟨b, ⟨p, hp, hown⟩, q, hq, hkind⟩ := appends_iff.mp h
  have hprototype : Realm.Shared Realm.arrayPrototype :=
    Realm.shared_of_lt (show 4 ≤ 6 by decide) (show 6 < 10 by decide)
  obtain ⟨o, p', ho, hp', hop⟩ := hc.object (hc.natives _ hprototype)
  rw [hp] at hp'
  cases hp'
  have howns := own?_linked hop "push"
  rw [hown] at howns
  generalize hfound : o.own? "push" = s at howns
  cases howns with
  | some hs =>
    cases hs with
    | value hv =>
      cases hv with
      | primitive h => cases h
      | object hl =>
        obtain ⟨q', q'', hq', hq'', hqq⟩ := hc.object hl
        rw [hq] at hq''
        cases hq''
        have hkinds := hqq.kind
        rw [hkind] at hkinds
        refine appends_iff.mpr ⟨_, ⟨o, ho, hfound⟩, q', hq', ?_⟩
        generalize q'.kind = k at hkinds ⊢
        cases hkinds
        rfl

/-- calls of `emit` agree, unless arrays do not append -/
theorem emit_agrees (P : Sides) (depth : Nat) :
    Caller.Emits (between P) (apply depth) (watched P.right.emitter P.fault depth) := by
  intro _ L args args' hargs K H hc
  obtain ⟨ps, ht⟩ := hc.rest
  show Ends _ _ _ (apply depth .undefined (.object P.left.emitter) args K)
    (watched P.right.emitter P.fault depth .undefined (.object P.right.emitter) args' H)
  have hleft := faithful_apply P.left.emitter
  have hright := faithful_watched P.right.emitter P.fault
  match depth with
  | 0 => exact Ends.error .exhausted
  | depth + 1 =>
    cases happends : H.appends with
    | false =>
      rw [watched_spoiled _ _ happends]
      exact Ends.spoiled rfl
    | true =>
      have happends' := appends_of_mirrored hc.mirrored happends
      match depth with
      | 0 =>
        rw [emit_short hleft ht.left happends', emit_short hright ht.right happends]
        exact Ends.error .exhausted
      | n + 1 =>
        rw [emit_run hleft ht.left happends', emit_run hright ht.right happends]
        refine ⟨L, Link.Le.refl L, ?_, .primitive rfl⟩
        refine hc.transfer (fun hp => hp) ?_ ?_ ?_ ⟨_, ht.emit rfl rfl hc.lt_size hargs⟩
        · intro a b r hl
          exact afterEmit_of_lt (hc.lt_size hl).1 (ht.apart hl).1.2.2.2 args
        · intro a b r hl
          exact afterEmit_of_lt (hc.lt_size hl).2 (ht.apart hl).2.1.2.2.2 args'
        · rw [size_afterEmit, size_afterEmit]
          exact ⟨Nat.zero_le _, Nat.zero_le _, by omega, by omega⟩

/-- calls of functions that correspond agree -/
theorem calls_agree (P : Sides) (depth : Nat) :
    Caller.Agrees (between P) (apply depth) (watched P.right.emitter P.fault depth) := by
  refine Layered.agrees ⟨fun _ _ _ => ⟨rfl, rfl⟩, ?_⟩ (emit_agrees P) depth
  intro L K H n v v' f f' args args' hc hf
  refine ⟨rfl, (faithful_watched P.right.emitter P.fault).next _ _ _ ?_⟩
  -- `emit` is among the rest of the heap
  rintro rfl
  cases hf with
  | primitive h => cases h
  | object hl =>
    obtain ⟨ps, ht⟩ := hc.rest
    exact absurd rfl (ht.apart hl).2.1.2.2.1

/-- calls of a closed function agree -/
theorem enter_agrees (P : Sides) {parameters : List String} {body : List Stmt}
    (h : Stmt.allClosed (Stmt.localNames parameters body) body = true) (depth : Nat)
    {v w : Value} (hvw : Value.Linked L v w) :
    Agree (between P) L Value.Linked
      (Closure.enter (apply depth) ⟨parameters, body, [Scope.globals]⟩ [v])
      (Closure.enter (watched P.right.emitter P.fault depth)
        ⟨parameters, body, [Scope.globals]⟩ [w]) := by
  refine agree_enter (calls_agree P depth) (emit_agrees P depth) ?_ (.cons hvw .nil)
  exact ⟨rfl, rfl, ⟨[], .globals, by simpa using h⟩, fun hp => nomatch hp⟩

end

end ViewDesign.Evaluation
