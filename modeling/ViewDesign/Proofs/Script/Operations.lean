import ViewDesign.Proofs.Script.Agreement

/-!
# Variables, members and conversions agree

Every operation on values that does not call back into code agrees on corresponding heaps.  Those
that do take a caller, and agree if the caller does.

* `agree_read`, `agree_write`          variables in scope;
* `agree_getMember`, `agree_setMember`    members;
* `Caller.Agrees`                      what is asked of a caller;
* `agree_primitive`, …, `agree_binary`    conversions and operators.
-/

namespace ViewDesign.Script

variable {S : Setting} {L : Link}

/-! ## Variables -/

section
variable {K H : Heap} {bound : List String} {s t : Scope}

theorem find?_cons (K : Heap) (x : String) (a : Nat) (s : Scope) :
    Scope.find? K x (a :: s) =
      match K[a]?.bind fun o => Entries.get? x o.members with
      | some v => some (a, v)
      | none => Scope.find? K x s := rfl

/-- a name in scope is found in a frame -/
theorem find?_bound (hc : Corresponds S finished L K H) (hs : Scope.Linked L bound s t)
    {x : String} (hx : x ∈ bound) :
    ∃ a b names v w, L a b (.frame names) ∧ x ∈ names ∧ Value.Linked L v w ∧
      Scope.find? K x s = some (a, v) ∧ Scope.find? H x t = some (b, w) := by
  induction hs with
  | globals => exact absurd hx (by simp)
  | cons h hs ih =>
    rename_i a b names bound s t
    obtain ⟨o, p, ho, hp, hop⟩ := hc.object h
    have hrel := get?_related hop.members x
    rw [find?_cons, find?_cons, ho, hp]
    simp only [Option.bind_some]
    -- a finished frame has exactly its names, so the name is found here or not before the next one
    by_cases hn : x ∈ names
    · have hm := (hc.frame h ho).2.2 (fun hf => hf) x hn
      have hsome := Entries.isSome_get?.2 hm
      cases hg : Entries.get? x o.members with
      | none => rw [hg] at hsome; exact absurd hsome (by simp)
      | some v =>
        rw [hg] at hrel
        cases hg' : Entries.get? x p.members with
        | none => rw [hg'] at hrel; cases hrel
        | some w =>
          rw [hg'] at hrel
          cases hrel with
          | some hvw => exact ⟨a, b, names, v, w, h, hn, hvw, rfl, rfl⟩
    · have hb : x ∈ bound := (List.mem_append.1 hx).resolve_left hn
      have hm : ¬ x ∈ o.members.map Prod.fst := fun hm => hn ((hc.frame h ho).2.1 x hm)
      cases hg : Entries.get? x o.members with
      | some v => exact absurd (Entries.isSome_get?.1 (by rw [hg]; rfl)) hm
      | none =>
        rw [hg] at hrel
        cases hg' : Entries.get? x p.members with
        | some w => rw [hg'] at hrel; cases hrel
        | none =>
          simp only
          exact ih hb

/-- any other name is looked for among the global variables -/
theorem find?_free (hc : Corresponds S finished L K H) (hs : Scope.Linked L bound s t)
    {x : String} (hx : x ∉ bound) :
    Scope.find? K x s = Scope.find? K x [Scope.globals] ∧
      Scope.find? H x t = Scope.find? H x [Scope.globals] := by
  induction hs with
  | globals => exact ⟨rfl, rfl⟩
  | cons h hs ih =>
    rename_i a b names bound s t
    obtain ⟨o, p, ho, hp, hop⟩ := hc.object h
    rw [List.mem_append, not_or] at hx
    have hm : ¬ x ∈ o.members.map Prod.fst := fun hm => hx.1 ((hc.frame h ho).2.1 x hm)
    have hm' : ¬ x ∈ p.members.map Prod.fst := by rw [← names_related hop.members]; exact hm
    have hg : Entries.get? x o.members = none := by
      cases hg : Entries.get? x o.members with
      | none => rfl
      | some v => exact absurd (Entries.isSome_get?.1 (by rw [hg]; rfl)) hm
    have hg' : Entries.get? x p.members = none := by
      cases hg : Entries.get? x p.members with
      | none => rfl
      | some v => exact absurd (Entries.isSome_get?.1 (by rw [hg]; rfl)) hm'
    have e : Scope.find? K x (a :: s) = Scope.find? K x s := by
      rw [find?_cons, ho, Option.bind_some, hg]
    have e' : Scope.find? H x (b :: t) = Scope.find? H x t := by
      rw [find?_cons, hp, Option.bind_some, hg']
    rw [e, e']
    exact ih hx.2

end

theorem constant?_primitive {x : String} {v : Value} (h : Scope.constant? x = some v) :
    v.isPrimitive = true ∧ Scope.builtin? x = some v := by
  have hj : x ≠ "JSON" := by
    intro hx
    have hn : Scope.constant? "JSON" = none := by simp [Scope.constant?]
    rw [hx, hn] at h
    cases h
  refine ⟨?_, by rw [Scope.builtin?, if_neg hj, h]⟩
  unfold Scope.constant? at h
  split at h
  · cases h; rfl
  · split at h
    · cases h; rfl
    · split at h
      · cases h; rfl
      · cases h

section
variable {bound : List String} {s t : Scope}

theorem agree_read? (hs : Scope.Linked L bound s t) {x : String} (hx : known bound x = true) :
    Agree S L (fun M v w => ∃ v' w', v = some v' ∧ w = some w' ∧ Value.Linked M v' w')
      (s.read? x) (t.read? x) := by
  intro K H hc
  refine ⟨L, Link.Le.refl L, hc, ?_⟩
  by_cases hb : x ∈ bound
  · obtain ⟨a, b, names, v, w, -, -, hvw, hk, hh⟩ := find?_bound hc hs hb
    refine ⟨v, w, ?_, ?_, hvw⟩
    · show ((s.find? K x).map Prod.snd).or _ = _
      rw [hk]
      rfl
    · show ((t.find? H x).map Prod.snd).or _ = _
      rw [hh]
      rfl
  · simp only [known, hb, decide_false, Bool.false_or] at hx
    obtain ⟨hk, hh⟩ := find?_free hc hs hb
    obtain ⟨hk', hh'⟩ := S.rest_constant x hc.rest hx
    obtain ⟨v, hv⟩ := Option.isSome_iff_exists.1 hx
    obtain ⟨hp, hbi⟩ := constant?_primitive hv
    refine ⟨v, v, ?_, ?_, .primitive hp⟩
    · show ((s.find? K x).map Prod.snd).or _ = _
      rw [hk, hk', hbi]
      rfl
    · show ((t.find? H x).map Prod.snd).or _ = _
      rw [hh, hh', hbi]
      rfl

theorem agree_read (hs : Scope.Linked L bound s t) {x : String} (hx : known bound x = true) :
    Agree S L Value.Linked (s.read x) (t.read x) := by
  refine (agree_read? hs hx).bind fun M hle v w hvw => ?_
  obtain ⟨v', w', rfl, rfl, hvw'⟩ := hvw
  exact Agree.pure hvw'

theorem agree_write (hplain : S.plain = false) (hs : Scope.Linked L bound s t) {x : String}
    (hx : x ∈ bound) {v w : Value} (hvw : Value.Linked L v w) :
    Agree S L Same (s.write x v) (t.write x w) := by
  intro K H hc
  obtain ⟨a, b, names, v', w', hl, hn, -, hk, hh⟩ := find?_bound hc hs hx
  obtain ⟨o, p, ho, hp, hop⟩ := hc.object hl
  obtain ⟨hkind, hup, hlow⟩ := hc.frame hl ho
  have hz := S.floor_zero hplain
  rw [Scope.write_of_find hk, Scope.write_of_find hh]
  refine ⟨L, Link.Le.refl L, ?_, rfl⟩
  show Corresponds S finished L (K.setIfInBounds a _) (H.setIfInBounds b _)
  rw [ho, hp]
  refine hc.set hl (by omega) (hop.put hkind x hvw) ?_
  intro names' hr
  cases hr
  refine ⟨hkind, ?_, ?_⟩
  · intro y hy
    rcases Entries.mem_names_put.1 hy with rfl | hy
    · exact hn
    · exact hup y hy
  · intro _ y hy
    exact Entries.mem_names_put.2 (Or.inr (hlow (fun hf => hf) y hy))

end

/-! ## Members -/

theorem getElem?_linked {vs ws : List Value} (h : Values.Linked L vs ws) (i : Nat) :
    Option.Rel (Value.Linked L) vs[i]? ws[i]? := by
  induction h generalizing i with
  | nil => exact .none
  | cons hvw _ ih =>
    cases i with
    | zero => exact .some hvw
    | succ i => exact ih i

theorem size_linked {xs ys : Array Value} (h : Values.Linked L xs.toList ys.toList) :
    xs.size = ys.size := by
  simpa using List.Forall₂.length_eq h

theorem isPrimitive_textMember? {s key : String} {v : Value}
    (h : Value.textMember? s key = some v) : v.isPrimitive = true := by
  unfold Value.textMember? at h
  split at h
  · cases h
    rfl
  · obtain ⟨t, -, rfl⟩ := Option.map_eq_some_iff.mp h
    rfl

theorem element?_linked {xs ys : Array Value} (h : Values.Linked L xs.toList ys.toList)
    (key : String) :
    Option.Rel (Value.Linked L) (Object.element? xs key) (Object.element? ys key) := by
  unfold Object.element?
  cases Decimal.natural? 10 key.toList with
  | none => exact .none
  | some i =>
    have hi := getElem?_linked h i
    rw [Array.getElem?_toList, Array.getElem?_toList] at hi
    show Option.Rel _ (xs[i]?.bind _) (ys[i]?.bind _)
    cases hx : xs[i]? with
    | none =>
      rw [hx] at hi
      cases hy : ys[i]? with
      | none => exact .none
      | some w => rw [hy] at hi; cases hi
    | some v =>
      rw [hx] at hi
      cases hy : ys[i]? with
      | none => rw [hy] at hi; cases hi
      | some w =>
        rw [hy] at hi
        cases hi with
        | some hvw =>
          simp only [Option.bind_some]
          split
          · exact .some hvw
          · exact .none

theorem or_related {α β : Type} {R : α → β → Prop} {x x' : Option α} {y y' : Option β}
    (h : Option.Rel R x y) (h' : Option.Rel R x' y') : Option.Rel R (x.or x') (y.or y') := by
  cases h with
  | none => exact h'
  | some h => exact .some h

theorem map_related {α β γ δ : Type} {R : α → β → Prop} {Q : γ → δ → Prop} {x : Option α}
    {y : Option β} (h : Option.Rel R x y) {f : α → γ} {g : β → δ}
    (hfg : ∀ a b, R a b → Q (f a) (g b)) : Option.Rel Q (x.map f) (y.map g) := by
  cases h with
  | none => exact .none
  | some h => exact .some (hfg _ _ h)

theorem isNone_related {α β : Type} {R : α → β → Prop} {x : Option α} {y : Option β}
    (h : Option.Rel R x y) : x.isNone = y.isNone := by
  cases h <;> rfl

theorem isSome_related {α β : Type} {R : α → β → Prop} {x : Option α} {y : Option β}
    (h : Option.Rel R x y) : x.isSome = y.isSome := by
  cases h <;> rfl

section
variable {plain : Bool} {o p : Object} (h : Object.Linked plain L o p)
include h

theorem kept?_linked (key : String) :
    Option.Rel (Slot.Linked L) (o.kept? key) (p.kept? key) :=
  or_related (get?_related h.hidden key)
    (map_related (get?_related h.members key) fun _ _ hvw => .value hvw)

theorem own?_linked (key : String) : Option.Rel (Slot.Linked L) (o.own? key) (p.own? key) := by
  have hkept := kept?_linked h key
  have hkind := h.kind
  unfold Object.own?
  generalize o.kind = k at hkind ⊢
  generalize p.kind = l at hkind ⊢
  cases hkind with
  | array hxy =>
    dsimp only
    split
    · rw [size_linked hxy]
      exact .some (.value (.primitive rfl))
    · exact or_related (map_related (element?_linked hxy key) fun _ _ hvw => .value hvw) hkept
  | plain => exact hkept
  | function => exact hkept
  | native => exact hkept
  | wrapped => exact hkept

theorem parent_linked (hL : L.Natives) : References.Linked L o.parent p.parent := by
  have hparent : o.kind.parent = p.kind.parent ∧ Realm.Shared o.kind.parent := by
    refine ⟨?_, Kind.shared_parent _⟩
    have hkind := h.kind
    generalize o.kind = k at hkind ⊢
    generalize p.kind = l at hkind ⊢
    cases hkind <;> rfl
  have hinherits := h.inherits
  unfold Object.parent
  generalize o.inherits = i at hinherits ⊢
  generalize p.inherits = j at hinherits ⊢
  cases hinherits with
  | none =>
    rw [← hparent.1]
    exact .some (hL _ hparent.2)
  | some h => exact h

end

/-- a member is found on both sides or on neither, by induction on the objects that are looked
through -/
theorem find_linked {plain : Bool} {U : Nat → Prop} {K H : Heap} (hc : Mirrored plain U L K H)
    (key : String) (n : Nat) {a b : Nat} (hl : L a b .data) :
    (∃ e, K.find key n a = .error e ∧ H.find key n b = .error e) ∨
      ∃ s t, K.find key n a = .ok s ∧ H.find key n b = .ok t ∧ Option.Rel (Slot.Linked L) s t := by
  induction n generalizing a b with
  | zero => exact Or.inl ⟨_, rfl, rfl⟩
  | succ n ih =>
    obtain ⟨o, p, ho, hp, hop⟩ := hc.object hl
    have hown := own?_linked hop key
    have hparent := parent_linked hop hc.natives
    simp only [Heap.find, ho, hp, Option.getD_some]
    generalize o.own? key = s at hown ⊢
    generalize p.own? key = t at hown ⊢
    generalize o.parent = x at hparent ⊢
    generalize p.parent = y at hparent ⊢
    cases hown with
    | some hst => exact Or.inr ⟨_, _, rfl, rfl, .some hst⟩
    | none =>
      cases hparent with
      | none => exact Or.inr ⟨_, _, rfl, rfl, .none⟩
      | some hl' => exact ih hl'

theorem find_run (key : String) (a : Nat) (K : Heap) :
    Run.find key a K = (K.find key maxNesting a).map fun s => (s, K) := by
  show Except.bind (K.find key maxNesting a) _ = _
  cases K.find key maxNesting a <;> rfl

theorem agree_find (key : String) {a b : Nat} (hl : L a b .data) :
    Agree S L (fun M s t => Option.Rel (Slot.Linked M) s t) (Run.find key a) (Run.find key b) := by
  intro K H hc
  rw [find_run, find_run]
  obtain ⟨e, hx, hy⟩ | ⟨s, t, hx, hy, hst⟩ := find_linked hc.mirrored key maxNesting hl
  · rw [hx, hy]
    exact Ends.error e
  · rw [hx, hy]
    exact ⟨L, Link.Le.refl L, hc, hst⟩

/-- the objects from the start may be used wherever two computations are compared -/
theorem agree_of_natives {α β : Type} {R : Link → α → β → Prop} {x : Run α} {y : Run β}
    (h : L.Natives → Agree S L R x y) : Agree S L R x y :=
  fun K H hc => h hc.natives K H hc

theorem reference_linked {x y : Option Nat} (h : References.Linked L x y) :
    Value.Linked L (Run.reference x) (Run.reference y) := by
  cases h with
  | none => exact .primitive rfl
  | some h => exact .object h

theorem agree_ancestor {a b : Nat} (hl : L a b .data) :
    Agree S L Value.Linked (Run.ancestor a) (Run.ancestor b) :=
  agree_of_natives fun hL => (agree_load hl).map fun _ hle _ _ hop =>
    reference_linked (parent_linked hop (hL.mono hle))

theorem agree_ofSlot {x y : Run Value} (hxy : Agree S L Value.Linked x y) {s t : Option Slot}
    (hst : Option.Rel (Slot.Linked L) s t) :
    Agree S L Value.Linked (Value.ofSlot x s) (Value.ofSlot y t) := by
  cases hst with
  | none => exact Agree.pure (.primitive rfl)
  | some hst =>
    cases hst with
    | value h => exact Agree.pure h
    | locked h => exact Agree.pure h
    | ancestor => exact hxy

theorem agree_inherited (type : Primitive) (key : String) :
    Agree S L Value.Linked (Value.inherited type key) (Value.inherited type key) := by
  refine agree_of_natives fun hL => ?_
  have hl := hL _ (Realm.shared_prototypeOf type)
  refine (agree_find key hl).bind fun M hle s t hst => ?_
  exact agree_ofSlot (Agree.pure (.object (hle _ _ _ hl))) hst

theorem agree_getMember {v w : Value} (hvw : Value.Linked L v w) (key : String) :
    Agree S L Value.Linked (v.getMember key) (w.getMember key) := by
  cases hvw with
  | primitive hp =>
    cases v with
    | undefined => exact Agree.thrown
    | null => exact Agree.thrown
    | bool b => exact agree_inherited _ key
    | number n => exact agree_inherited _ key
    | text s =>
      simp only [Value.getMember]
      cases hm : Value.textMember? s key with
      | some v => exact Agree.pure (.primitive (isPrimitive_textMember? hm))
      | none => exact agree_inherited _ key
    | object a => cases hp
  | object hl =>
    refine (agree_find key hl).bind fun M hle s t hst => ?_
    exact agree_ofSlot (agree_ancestor (hle _ _ _ hl)) hst

/-! ## Writing members -/

theorem set_linked {vs ws : List Value} (h : Values.Linked L vs ws) (i : Nat) {v w : Value}
    (hvw : Value.Linked L v w) : Values.Linked L (vs.set i v) (ws.set i w) := by
  induction h generalizing i with
  | nil => exact .nil
  | cons hab hrest ih =>
    cases i with
    | zero => exact .cons hvw hrest
    | succ i => exact .cons hab (ih i)

theorem take_linked {vs ws : List Value} (h : Values.Linked L vs ws) (n : Nat) :
    Values.Linked L (vs.take n) (ws.take n) := List.forall₂_take n h

theorem append_linked {vs ws vs' ws' : List Value} (h : Values.Linked L vs ws)
    (h' : Values.Linked L vs' ws') : Values.Linked L (vs ++ vs') (ws ++ ws') := by
  induction h with
  | nil => exact h'
  | cons hab _ ih => exact .cons hab ih

theorem replicate_linked (n : Nat) :
    Values.Linked L (List.replicate n .undefined) (List.replicate n .undefined) := by
  induction n with
  | zero => exact .nil
  | succ n ih => exact .cons (.primitive rfl) ih

/-- Arrays that correspond, or none on both sides. -/
abbrev Items.Linked (L : Link) : Option (Array Value) → Option (Array Value) → Prop :=
  Option.Rel fun xs ys => Values.Linked L xs.toList ys.toList

theorem resize?_linked {xs ys : Array Value} (h : Values.Linked L xs.toList ys.toList) (n : Nat) :
    Items.Linked L (Object.resize? xs n) (Object.resize? ys n) := by
  unfold Object.resize?
  rw [size_linked h]
  split
  · refine .some ?_
    simpa using take_linked h n
  split
  · refine .some ?_
    simpa using append_linked h (replicate_linked _)
  · exact .none

theorem setItem?_linked {xs ys : Array Value} (h : Values.Linked L xs.toList ys.toList) (i : Nat)
    {v w : Value} (hvw : Value.Linked L v w) :
    Items.Linked L (Object.setItem? xs i v) (Object.setItem? ys i w) := by
  unfold Object.setItem?
  rw [size_linked h]
  split
  · refine .some ?_
    simpa using set_linked h i hvw
  · have hr := resize?_linked h i
    cases hx : Object.resize? xs i with
    | none =>
      rw [hx] at hr
      cases hy : Object.resize? ys i with
      | none => exact .none
      | some ys' => rw [hy] at hr; cases hr
    | some xs' =>
      rw [hx] at hr
      cases hy : Object.resize? ys i with
      | none => rw [hy] at hr; cases hr
      | some ys' =>
        rw [hy] at hr
        cases hr with
        | some hxy =>
          refine .some ?_
          simpa using append_linked hxy (.cons hvw .nil)

section
variable (hplain : S.plain = false)
include hplain

theorem agree_setItems {a b : Nat} (hl : L a b .data) {xs ys : Option (Array Value)}
    (h : Items.Linked L xs ys) :
    Agree S L Same (Value.setItems a xs) (Value.setItems b ys) := by
  cases h with
  | none => exact Agree.throw .exhausted
  | some hxy =>
    refine (agree_load hl).bind fun M hle o p hop => ?_
    exact agree_store hplain (hle _ _ _ hl) ⟨.array (Values.Linked.mono hxy hle), hop.inherits,
      hop.hidden, hop.members, Setting.vacuous hplain⟩

theorem put_linked {o p : Object} (h : Object.Linked S.plain L o p) (key : String) {v w : Value}
    (hvw : Value.Linked L v w) : Object.Linked S.plain L (o.put key v) (p.put key w) := by
  have hsome := isSome_related (get?_related h.hidden key)
  unfold Object.put
  rw [← hsome]
  split
  · refine ⟨h.kind, h.inherits, ?_, h.members, Setting.vacuous hplain⟩
    rw [Entries.Related, List.forall₂_map_left_iff, List.forall₂_map_right_iff]
    refine h.hidden.imp fun x y hxy => ?_
    rw [← hxy.1]
    split
    · exact ⟨rfl, .value hvw⟩
    · exact hxy
  · exact ⟨h.kind, h.inherits, h.hidden, put_related h.members key hvw, Setting.vacuous hplain⟩

omit hplain in
/-- an object inherits from another one on both sides or on neither -/
theorem inheritsFrom_linked {plain : Bool} {U : Nat → Prop} {K H : Heap}
    (hc : Mirrored plain U L K H) {a b : Nat} (hl : L a b .data) (n : Nat) {c d : Nat}
    (hl' : L c d .data) : K.inheritsFrom a n c = H.inheritsFrom b n d := by
  induction n generalizing c d with
  | zero => rfl
  | succ n ih =>
    obtain ⟨o, p, ho, hp, hop⟩ := hc.object hl'
    have hparent := parent_linked hop hc.natives
    have hsame := hc.unique hl' hl
    simp only [Heap.inheritsFrom, ho, hp, Option.getD_some, hsame]
    generalize o.parent = x at hparent ⊢
    generalize p.parent = y at hparent ⊢
    cases hparent with
    | none => rfl
    | some hl'' => simp only [ih hl'']

omit hplain in
theorem inheritsFrom_run (other a : Nat) (K : Heap) :
    Run.inheritsFrom other a K = (K.inheritsFrom other maxNesting a).map fun b => (b, K) := by
  show Except.bind (K.inheritsFrom other maxNesting a) _ = _
  cases K.inheritsFrom other maxNesting a <;> rfl

omit hplain in
theorem agree_inheritsFrom {a b c d : Nat} (hl : L a b .data) (hl' : L c d .data) :
    Agree S L Same (Run.inheritsFrom a c) (Run.inheritsFrom b d) := by
  intro K H hc
  rw [inheritsFrom_run, inheritsFrom_run, inheritsFrom_linked hc.mirrored hl _ hl']
  cases H.inheritsFrom b maxNesting d with
  | error e => exact Ends.error e
  | ok r => exact ⟨L, Link.Le.refl L, hc, rfl⟩

theorem inherits_linked {o p : Object} (h : Object.Linked S.plain L o p) {x y : Option Nat}
    (hxy : References.Linked L x y) :
    Object.Linked S.plain L { o with inherits := some x } { p with inherits := some y } :=
  ⟨h.kind, .some hxy, h.hidden, h.members, Setting.vacuous hplain⟩

theorem agree_setAncestor {a b : Nat} (hl : L a b .data) {x y : Option Nat}
    (hxy : References.Linked L x y) :
    Agree S L Same (Run.setAncestor a x) (Run.setAncestor b y) := by
  intro K H hc
  have hroot : a = Realm.objectPrototype ↔ b = Realm.objectPrototype :=
    hc.unique hl (hc.natives _ Realm.shared_objectPrototype)
  unfold Run.setAncestor
  by_cases ha : a = Realm.objectPrototype
  · rw [if_pos ha, if_pos (hroot.mp ha), isSome_related hxy]
    refine Agree.thrownIf _ K H hc
  · rw [if_neg ha, if_neg (mt hroot.mpr ha)]
    refine ((agree_load hl).bind fun M hle o p hop => ?_ :
      Agree S L Same _ _) K H hc
    have hl' := hle _ _ _ hl
    cases hxy with
    | none => exact agree_store hplain hl' (inherits_linked hplain hop .none)
    | some hl'' =>
      refine (agree_inheritsFrom hl' (hle _ _ _ hl'')).bind fun M' hle' c d hcd => ?_
      cases hcd
      split
      · exact Agree.thrown
      · exact agree_store hplain (hle' _ _ _ hl') (inherits_linked hplain (hop.mono hle')
          (.some (hle' _ _ _ (hle _ _ _ hl''))))

theorem agree_setKept {a b : Nat} (hl : L a b .data) (key : String) {new new' : Value}
    (hnew : Value.Linked L new new') :
    Agree S L Same (Value.setKept a key new) (Value.setKept b key new') := by
  have hput : ∀ {M}, L.Le M → Agree S M Same (do let o ← Run.load a; Run.store a (o.put key new))
      (do let p ← Run.load b; Run.store b (p.put key new')) := by
    intro M hle
    refine (agree_load (hle _ _ _ hl)).bind fun M' hle' o p hop => ?_
    exact agree_store hplain (hle' _ _ _ (hle _ _ _ hl))
      (put_linked hplain hop key (hnew.mono (hle.trans hle')))
  refine (agree_find key hl).bind fun M hle s t hst => ?_
  cases hst with
  | none => exact hput hle
  | some hst =>
    cases hst with
    | value => exact hput hle
    | locked => exact Agree.pure rfl
    | ancestor =>
      cases hnew with
      | object hl' => exact agree_setAncestor hplain (hle _ _ _ hl) (.some (hle _ _ _ hl'))
      | primitive hp =>
        cases new with
        | object => cases hp
        | null => exact agree_setAncestor hplain (hle _ _ _ hl) .none
        | _ => exact Agree.pure rfl

theorem agree_setMember {v w : Value} (hvw : Value.Linked L v w) (key : String)
    {new new' : Value} (hnew : Value.Linked L new new') :
    Agree S L Same (v.setMember key new) (w.setMember key new') := by
  cases hvw with
  | primitive hp =>
    cases v with
    | undefined => exact Agree.thrown
    | null => exact Agree.thrown
    | object => cases hp
    | _ => exact Agree.pure rfl
  | object hl =>
    refine (agree_load hl).bind fun M hle o p hop => ?_
    have hl' := hle _ _ _ hl
    have hnew' := hnew.mono hle
    have hkept := agree_setKept hplain hl' key hnew'
    have hkind := hop.kind
    -- linked objects are of the same kind, and only arrays have members of their own sort
    generalize o.kind = k at hkind ⊢
    generalize p.kind = l at hkind ⊢
    cases hkind with
    | plain => exact hkept
    | function => exact hkept
    | native => exact hkept
    | wrapped => exact hkept
    | array hxy =>
      dsimp only
      split
      · rw [hnew'.length?_eq]
        split
        · exact agree_setItems hplain hl' (resize?_linked hxy _)
        · exact Agree.thrown
      · split
        · exact agree_setItems hplain hl' (setItem?_linked hxy _ hnew')
        · exact hkept

end

/-! ## Kinds -/

theorem agree_isFunction {v w : Value} (hvw : Value.Linked L v w) :
    Agree S L Same v.isFunction w.isFunction := by
  cases hvw with
  | primitive hp =>
    cases v with
    | object => cases hp
    | _ => exact Agree.pure rfl
  | object hl =>
    refine (agree_load hl).bind fun M hle o p hop => ?_
    have hkind := hop.kind
    generalize o.kind = k at hkind ⊢
    generalize p.kind = l at hkind ⊢
    cases hkind <;> exact Agree.pure rfl

theorem agree_ofType (type : Primitive) {v w : Value} (hvw : Value.Linked L v w) :
    Agree S L (fun _ x y => x = y ∧ x.isPrimitive = true) (v.ofType type) (w.ofType type) := by
  cases hvw with
  | primitive hp =>
    cases v with
    | object => cases hp
    | _ =>
      simp only [Value.ofType]
      split
      · exact Agree.pure ⟨rfl, rfl⟩
      · exact Agree.thrown
  | object hl =>
    refine (agree_load hl).bind fun M hle o p hop => ?_
    have hkind := hop.kind
    generalize o.kind = k at hkind ⊢
    generalize p.kind = l at hkind ⊢
    cases hkind with
    | wrapped hp =>
      dsimp only
      split
      · exact Agree.pure ⟨rfl, hp⟩
      · exact Agree.thrown
    | _ => exact Agree.thrown

theorem agree_kindText {v w : Value} (hvw : Value.Linked L v w) :
    Agree S L Same v.kindText w.kindText := by
  cases hvw with
  | primitive hp =>
    cases v with
    | object => cases hp
    | _ => exact Agree.pure rfl
  | object hl =>
    refine (agree_load hl).map fun M hle o p hop => ?_
    have hname : o.kind.name = p.kind.name := by
      have hkind := hop.kind
      generalize o.kind = k at hkind ⊢
      generalize p.kind = l at hkind ⊢
      cases hkind <;> rfl
    rw [hname]

theorem agree_functionText {v w : Value} (hvw : Value.Linked L v w) :
    Agree S L Same v.functionText w.functionText := by
  refine (agree_isFunction hvw).bind fun M hle b c hbc => ?_
  cases hbc
  split
  · exact Agree.pure rfl
  · exact Agree.thrown

theorem agree_hasOwn {v w : Value} (hvw : Value.Linked L v w) (key : String) :
    Agree S L Same (v.hasOwn key) (w.hasOwn key) := by
  cases hvw with
  | primitive hp =>
    cases v with
    | object => cases hp
    | undefined => exact Agree.thrown
    | null => exact Agree.thrown
    | _ => exact Agree.pure rfl
  | object hl =>
    exact (agree_load hl).map fun M hle o p hop => isSome_related (own?_linked hop key)

/-! ## Callers -/

/-- A value is no array. -/
def Value.NoArray (K : Heap) (v : Value) : Prop :=
  ∀ a o items, v = .object a → K[a]? = some o → o.kind ≠ .array items

/-- Two callers agree: they do the same to values that correspond.  In a plain setting they are only
ever given arguments together with a receiver that is no array. -/
def Caller.Agrees (S : Setting) (call call' : Caller) : Prop :=
  ∀ L v v' f f' args args', Value.Linked L v v' → Value.Linked L f f' →
    Values.Linked L args args' → ∀ K H, Corresponds S finished L K H →
      (S.plain = true → args = [] ∨ v.NoArray K) →
      Ends S L Value.Linked (call v f args K) (call' v' f' args' H)

theorem Caller.Agrees.agree {call call' : Caller} (hcall : Caller.Agrees S call call')
    {v v' f f' : Value} {args args' : List Value} (hv : Value.Linked L v v')
    (hf : Value.Linked L f f')
    (hargs : Values.Linked L args args') (hnone : S.plain = true → args = []) :
    Agree S L Value.Linked (call v f args) (call' v' f' args') :=
  fun K H hc => hcall L v v' f f' args args' hv hf hargs K H hc fun hp => Or.inl (hnone hp)

theorem agree_mapM {α β : Type} {f g : α → Run β} {xs : List α}
    (h : ∀ M, L.Le M → ∀ x ∈ xs, Agree S M Same (f x) (g x)) :
    Agree S L Same (xs.mapM f) (xs.mapM g) := by
  induction xs generalizing L with
  | nil => exact Agree.pure rfl
  | cons x xs ih =>
    rw [List.mapM_cons, List.mapM_cons]
    refine (h L (Link.Le.refl L) x (List.mem_cons_self ..)).bind fun M hle y z hyz => ?_
    cases hyz
    exact (ih fun N hN w hw => h N (hle.trans hN) w (List.mem_cons_of_mem _ hw)).map
      fun _ _ _ _ e => by rw [e]

section
variable {call call' : Caller} (hcall : Caller.Agrees S call call')
include hcall

theorem agree_firstPrimitive {v w : Value} (hvw : Value.Linked L v w) (names : List String) :
    Agree S L (fun _ x y => x = y ∧ x.isPrimitive = true) (Value.firstPrimitive call v names)
      (Value.firstPrimitive call' w names) := by
  induction names generalizing L with
  | nil => exact Agree.thrown
  | cons name rest ih =>
    refine (agree_getMember hvw name).bind fun M hle f f' hf => ?_
    refine (agree_isFunction hf).bind fun M' hle' b b' hb => ?_
    cases hb
    have hvw' := hvw.mono (hle.trans hle')
    split
    · refine (hcall.agree hvw' (hf.mono hle') .nil (fun _ => rfl)).bind
        fun M'' hle'' r r' hr => ?_
      rw [← hr.isPrimitive_eq]
      split
      · rename_i hp
        exact Agree.pure ⟨hr.of_primitive hp, hp⟩
      · exact ih (hvw'.mono hle'')
    · exact ih hvw'

theorem agree_primitive (textFirst : Bool) {v w : Value} (hvw : Value.Linked L v w) :
    Agree S L (fun _ x y => x = y ∧ x.isPrimitive = true) (v.primitive call textFirst)
      (w.primitive call' textFirst) := by
  unfold Value.primitive
  rw [← hvw.isPrimitive_eq]
  split
  · rename_i hp
    exact Agree.pure ⟨hvw.of_primitive hp, hp⟩
  · exact agree_firstPrimitive hcall hvw _

theorem agree_textual {v w : Value} (hvw : Value.Linked L v w) :
    Agree S L Same (v.textual call) (w.textual call') :=
  (agree_primitive hcall true hvw).map fun _ _ _ _ hxy => by rw [hxy.1]

theorem agree_numeric {v w : Value} (hvw : Value.Linked L v w) :
    Agree S L Same (v.numeric call) (w.numeric call') :=
  (agree_primitive hcall false hvw).map fun _ _ _ _ hxy => by rw [hxy.1]

theorem agree_elementText {v w : Value} (hvw : Value.Linked L v w) :
    Agree S L Same (Value.elementText call v) (Value.elementText call' w) := by
  have htext := agree_textual hcall hvw
  cases hvw with
  | object => exact htext
  | primitive hp => cases v <;> first | exact htext | exact Agree.pure rfl

theorem agree_separatorText {v w : Value} (hvw : Value.Linked L v w) :
    Agree S L Same (v.separatorText call) (w.separatorText call') := by
  have htext := agree_textual hcall hvw
  cases hvw with
  | object => exact htext
  | primitive hp => cases v <;> first | exact htext | exact Agree.pure rfl

theorem agree_join {v w v' w' : Value} (hv : Value.Linked L v v') (hw : Value.Linked L w w') :
    Agree S L Same (v.join call w) (v'.join call' w') := by
  cases hv with
  | primitive hp =>
    cases v with
    | object => cases hp
    | undefined => exact Agree.thrown
    | null => exact Agree.thrown
    | _ => exact Agree.throw .unknown
  | object hl =>
    refine (agree_load hl).bind fun M hle o p hop => ?_
    have hkind := hop.kind
    generalize o.kind = k at hkind ⊢
    generalize p.kind = l at hkind ⊢
    cases hkind with
    | array hxy =>
      dsimp only
      refine (agree_separatorText hcall (hw.mono hle)).bind fun M' hle' x y hxy' => ?_
      cases hxy'
      rw [size_linked hxy]
      refine (agree_mapM fun M'' hle'' key _ => ?_).map fun _ _ _ _ e => by rw [e]
      have hl' := hle'' _ _ _ (hle' _ _ _ (hle _ _ _ hl))
      exact (agree_getMember (.object hl') key).bind fun _ _ _ _ hx => agree_elementText hcall hx
    | _ => exact Agree.throw .unknown

theorem agree_arrayText {v w : Value} (hvw : Value.Linked L v w) :
    Agree S L Value.Linked (v.arrayText call) (w.arrayText call') := by
  refine (agree_getMember hvw "join").bind fun M hle f f' hf => ?_
  refine (agree_isFunction hf).bind fun M' hle' b b' hb => ?_
  cases hb
  have hvw' := hvw.mono (hle.trans hle')
  split
  · exact hcall.agree hvw' (hf.mono hle') .nil (fun _ => rfl)
  · exact (agree_kindText hvw').map fun _ _ _ _ e => by cases e; exact .primitive rfl

omit hcall in
theorem agree_typeName {v w : Value} (hvw : Value.Linked L v w) :
    Agree S L Same v.typeName w.typeName := by
  cases hvw with
  | primitive hp =>
    cases v with
    | object => cases hp
    | _ => exact Agree.pure rfl
  | object hl => exact (agree_isFunction (.object hl)).map fun _ _ _ _ e => by rw [e]

/-! ## Operators -/

omit hcall in
/-- identity of objects is kept, because a link pairs addresses one to one -/
theorem same_linked {K H : Heap} (hc : Corresponds S finished L K H) {v w v' w' : Value}
    (hv : Value.Linked L v v') (hw : Value.Linked L w w') : v.same w = v'.same w' := by
  cases hv with
  | primitive hp =>
    cases hw with
    | primitive => rfl
    | object => cases v <;> first | rfl | exact absurd hp (by simp [Value.isPrimitive])
  | object hl =>
    cases hw with
    | primitive hp => cases w <;> first | rfl | exact absurd hp (by simp [Value.isPrimitive])
    | object hl' =>
      rename_i a b a' b'
      have hu := hc.unique hl hl'
      show (a == a') = (b == b')
      rw [Bool.eq_iff_iff, beq_iff_eq, beq_iff_eq, hu]

omit hcall in
theorem agree_same {v w v' w' : Value} (hv : Value.Linked L v v') (hw : Value.Linked L w w')
    (f : Bool → Value) (hf : ∀ b, (f b).isPrimitive = true) :
    Agree S L Value.Linked (pure (f (v.same w))) (pure (f (v'.same w'))) := by
  intro K H hc
  refine ⟨L, Link.Le.refl L, hc, ?_⟩
  rw [same_linked hc hv hw]
  exact .primitive (hf _)

theorem agree_equal {v w v' w' : Value} (hv : Value.Linked L v v') (hw : Value.Linked L w w') :
    Agree S L Same (v.equal call w) (v'.equal call' w') := by
  unfold Value.equal
  rw [hv.isNothing_eq, hw.isNothing_eq, hv.isPrimitive_eq, hw.isPrimitive_eq]
  split
  · exact Agree.pure rfl
  split
  · intro K H hc
    refine ⟨L, Link.Le.refl L, hc, ?_⟩
    show v.same w = v'.same w'
    exact same_linked hc hv hw
  · refine (agree_primitive hcall false hv).bind fun M hle x y hxy => ?_
    refine (agree_primitive hcall false (hw.mono hle)).map fun _ _ x' y' hxy' => ?_
    rw [hxy.1, hxy'.1]

theorem agree_compare (texts : String → String → Bool) (numbers : Number → Number → Bool)
    {v w v' w' : Value} (hv : Value.Linked L v v') (hw : Value.Linked L w w') :
    Agree S L Same (v.compare call texts numbers w) (v'.compare call' texts numbers w') := by
  refine (agree_primitive hcall false hv).bind fun M hle x y hxy => ?_
  refine (agree_primitive hcall false (hw.mono hle)).bind fun _ _ x' y' hxy' => ?_
  rw [hxy.1, hxy'.1]
  split <;> exact Agree.pure rfl

theorem agree_add {v w v' w' : Value} (hv : Value.Linked L v v') (hw : Value.Linked L w w') :
    Agree S L Value.Linked (v.add call w) (v'.add call' w') := by
  refine (agree_primitive hcall false hv).bind fun M hle x y hxy => ?_
  refine (agree_primitive hcall false (hw.mono hle)).bind fun _ _ x' y' hxy' => ?_
  rw [hxy.1, hxy'.1]
  split <;> exact Agree.pure (.primitive rfl)

theorem agree_arithmetic (f : Number → Number → Number) {v w v' w' : Value}
    (hv : Value.Linked L v v') (hw : Value.Linked L w w') :
    Agree S L Value.Linked (v.arithmetic call f w) (v'.arithmetic call' f w') := by
  refine (agree_numeric hcall hv).bind fun M hle x y e => ?_
  cases e
  refine (agree_numeric hcall (hw.mono hle)).map fun _ _ x' y' e' => ?_
  cases e'
  exact .primitive rfl

theorem agree_binary (op : BinaryOp) {v w v' w' : Value} (hv : Value.Linked L v v')
    (hw : Value.Linked L w w') :
    Agree S L Value.Linked (op.apply call v w) (op.apply call' v' w') := by
  have bool : ∀ {x y : Run Bool} (f : Bool → Bool), Agree S L Same x y →
      Agree S L Value.Linked (x >>= fun b => pure (.bool (f b)))
        (y >>= fun b => pure (.bool (f b))) :=
    fun f h => h.map fun _ _ _ _ e => by cases e; exact .primitive rfl
  cases op with
  | add => exact agree_add hcall hv hw
  | subtract => exact agree_arithmetic hcall _ hv hw
  | multiply => exact agree_arithmetic hcall _ hv hw
  | divide => exact agree_arithmetic hcall _ hv hw
  | remainder => exact agree_arithmetic hcall _ hv hw
  | less => exact bool id (agree_compare hcall _ _ hv hw)
  | lessEqual => exact bool id (agree_compare hcall _ _ hv hw)
  | greater => exact bool id (agree_compare hcall _ _ hv hw)
  | greaterEqual => exact bool id (agree_compare hcall _ _ hv hw)
  | equal => exact bool id (agree_equal hcall hv hw)
  | notEqual => exact bool (!·) (agree_equal hcall hv hw)
  | same => exact agree_same hv hw .bool (fun _ => rfl)
  | notSame => exact agree_same hv hw (fun b => .bool !b) (fun _ => rfl)

theorem agree_unary (op : UnaryOp) {v w : Value} (hvw : Value.Linked L v w) :
    Agree S L Value.Linked (op.apply call v) (op.apply call' w) := by
  cases op with
  | not =>
    refine Agree.pure ?_
    rw [hvw.truth_eq]
    exact .primitive rfl
  | negate =>
    exact (agree_numeric hcall hvw).map fun _ _ _ _ e => by cases e; exact .primitive rfl
  | number =>
    exact (agree_numeric hcall hvw).map fun _ _ _ _ e => by cases e; exact .primitive rfl

end

end ViewDesign.Script
