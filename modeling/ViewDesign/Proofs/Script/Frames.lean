import ViewDesign.Proofs.Script.Operations

/-!
# Functions and their frames agree

A frame is made with the arguments of a call and gets its other names before the body runs.  Until
then it is unfinished; no code runs in between, so nobody sees it in that state.

* `agree_makeFunction`, `agree_makeNamed`    new functions;
* `Corresponds.setName`                      a name is written into a frame;
* `declareAll_run`, `defineAll_run`          the declarations of a body;
* `frame_run`                                a frame from its making to the start of the body.
-/

namespace ViewDesign.Script

variable {S : Setting} {L : Link}

/-! ## New functions -/

/-- the code of a function is closed in a scope -/
structure Code (plain : Bool) (bound : List String) (parameters : List String) (body : List Stmt) :
    Prop where
  closed : Stmt.allClosed (Stmt.localNames parameters body ++ bound) body = true
  plain : plain = true → Stmt.allPlain body = true

theorem closure_linked {bound parameters : List String} {body : List Stmt} {s t : Scope}
    (hs : Scope.Linked L bound s t) (h : Code S.plain bound parameters body) :
    Closure.Linked S.plain L ⟨parameters, body, s⟩ ⟨parameters, body, t⟩ :=
  ⟨rfl, rfl, ⟨bound, hs, h.closed⟩, h.plain⟩

theorem agree_makeFunction (name : String) {bound parameters : List String} {body : List Stmt}
    {s t : Scope} (hs : Scope.Linked L bound s t) (h : Code S.plain bound parameters body) :
    Agree S L Value.Linked (makeFunction name parameters body s)
      (makeFunction name parameters body t) :=
  (agree_allocate (ofClosure_linked name (closure_linked hs h))).map fun _ _ _ _ hab => .object hab

/-! ## Writing names into a frame -/

/-- The names that the object at an address has. -/
def namesAt (K : Heap) (a : Nat) : List String := (K[a]?.getD {}).members.map Prod.fst

/-- The heap after a member of the object at an address has been written. -/
def withOwn (K : Heap) (a : Nat) (x : String) (v : Value) : Heap :=
  K.setIfInBounds a { K[a]?.getD {} with
    members := Entries.put x v (K[a]?.getD {}).members }

theorem mem_namesAt_withOwn {K : Heap} {a : Nat} (ha : a < K.size) {x y : String} {v : Value} :
    y ∈ namesAt (withOwn K a x v) a ↔ y = x ∨ y ∈ namesAt K a := by
  unfold namesAt withOwn
  rw [Array.getElem?_setIfInBounds, if_pos rfl, if_pos ha]
  exact Entries.mem_names_put

section
variable {U : Nat → Prop} {K H : Heap} {a b : Nat} {names : List String}

/-- one of the names of a frame is written -/
theorem Corresponds.setName (hc : Corresponds S U L K H) (hl : L a b (.frame names))
    (hfloor : S.floor ≤ a ∧ S.floor' ≤ b) {x : String} (hx : x ∈ names) {v w : Value}
    (hvw : Value.Linked L v w) : Corresponds S U L (withOwn K a x v) (withOwn H b x w) := by
  obtain ⟨o, p, ho, hp, hop⟩ := hc.object hl
  obtain ⟨hkind, hup, hlow⟩ := hc.frame hl ho
  unfold withOwn
  rw [ho, hp]
  refine hc.set hl hfloor (hop.put hkind x hvw) ?_
  intro names' hr
  cases hr
  refine ⟨hkind, ?_, ?_⟩
  · intro y hy
    rcases Entries.mem_names_put.1 hy with rfl | hy
    · exact hx
    · exact hup y hy
  · intro hu y hy
    exact Entries.mem_names_put.2 (Or.inr (hlow hu y hy))

theorem declareAll_cons {K : Heap} {a : Nat} (ha : a ≠ 0) (x : String) (xs : List String) :
    declareAll a (x :: xs) K =
      declareAll a xs (if (Entries.get? x (K[a]?.getD {}).members).isNone
        then withOwn K a x .undefined else K) := by
  have hg : (a == Scope.globals) = false := by simp [Scope.globals, ha]
  show (do
    let _ ← if (Entries.get? x (K[a]?.getD {}).members).isNone &&
        !(a == Scope.globals && (Scope.constant? x).isSome)
      then Run.setOwn a x .undefined else pure PUnit.unit
    declareAll a xs : Run Unit) K = _
  rw [hg]
  by_cases hn : (Entries.get? x (K[a]?.getD {}).members).isNone = true
  · rw [if_pos hn, hn]
    rfl
  · rw [if_neg hn, Bool.not_eq_true _ |>.mp hn]
    rfl

/-- variables are declared alike on both sides -/
theorem declareAll_run (hc : Corresponds S U L K H) (hl : L a b (.frame names))
    (hfloor : S.floor ≤ a ∧ S.floor' ≤ b) (xs : List String) (hxs : ∀ x ∈ xs, x ∈ names) :
    ∃ K' H', declareAll a xs K = .ok ((), K') ∧ declareAll b xs H = .ok ((), H') ∧
      Corresponds S U L K' H' ∧ ∀ x, x ∈ namesAt K a ∨ x ∈ xs → x ∈ namesAt K' a := by
  induction xs generalizing K H with
  | nil => exact ⟨K, H, rfl, rfl, hc, fun x hx => hx.resolve_right (by simp)⟩
  | cons x xs ih =>
    obtain ⟨o, p, ho, hp, hop⟩ := hc.object hl
    have hin := hc.inner hl
    have ha := (hc.lt_size hl).1
    have hxs' : ∀ y ∈ xs, y ∈ names := fun y hy => hxs y (List.mem_cons_of_mem _ hy)
    have hnone := isNone_related (get?_related hop.members x)
    rw [declareAll_cons hin.1, declareAll_cons hin.2, ho, hp, Option.getD_some, Option.getD_some,
      ← hnone]
    by_cases hn : (Entries.get? x o.members).isNone = true
    · rw [if_pos hn, if_pos hn]
      have hc' := hc.setName hl hfloor (hxs x (List.mem_cons_self ..))
        (.primitive (v := .undefined) rfl)
      obtain ⟨K', H', hK, hH, hc'', hnames⟩ := ih hc' hxs'
      refine ⟨K', H', hK, hH, hc'', ?_⟩
      intro y hy
      apply hnames
      rcases hy with hy | hy
      · exact Or.inl ((mem_namesAt_withOwn ha).2 (Or.inr hy))
      · rcases List.mem_cons.1 hy with rfl | hy
        · exact Or.inl ((mem_namesAt_withOwn ha).2 (Or.inl rfl))
        · exact Or.inr hy
    · rw [if_neg hn, if_neg hn]
      obtain ⟨K', H', hK, hH, hc'', hnames⟩ := ih hc hxs'
      refine ⟨K', H', hK, hH, hc'', ?_⟩
      intro y hy
      apply hnames
      rcases hy with hy | hy
      · exact Or.inl hy
      · rcases List.mem_cons.1 hy with rfl | hy
        · refine Or.inl ?_
          unfold namesAt
          rw [ho]
          apply Entries.isSome_get?.1
          rwa [Option.isNone_iff_eq_none, ← ne_eq, Option.ne_none_iff_isSome] at hn
        · exact Or.inr hy

theorem namesAt_push {K : Heap} {a : Nat} (ha : a < K.size) (o : Object) :
    namesAt (K.push o) a = namesAt K a := by
  unfold namesAt
  rw [Array.getElem?_push, if_neg (by omega)]

/-- functions are declared alike on both sides -/
theorem defineAll_run {bound : List String} {s t : Scope} (hc : Corresponds S U L K H)
    (hl : L a b (.frame names)) (hfloor : S.floor ≤ a ∧ S.floor' ≤ b)
    (hs : Scope.Linked L bound s t) (fs : List (String × List String × List Stmt))
    (hfs : ∀ f ∈ fs, f.1 ∈ names ∧ Declared S.plain bound f) :
    ∃ L' K' H', L.Le L' ∧ defineAll a s fs K = .ok ((), K') ∧ defineAll b t fs H = .ok ((), H') ∧
      Corresponds S U L' K' H' ∧
      ∀ x, x ∈ namesAt K a ∨ x ∈ fs.map Prod.fst → x ∈ namesAt K' a := by
  induction fs generalizing L K H with
  | nil => exact ⟨L, K, H, Link.Le.refl L, rfl, rfl, hc, fun x hx => hx.resolve_right (by simp)⟩
  | cons f fs ih =>
    obtain ⟨name, parameters, body⟩ := f
    obtain ⟨hname, hclosed, hplain⟩ := hfs _ (List.mem_cons_self ..)
    have ha := (hc.lt_size hl).1
    have hle := L.le_add K.size H.size .data
    have hc1 := hc.push .data (o := .ofClosure name ⟨parameters, body, s⟩)
      (p := .ofClosure name ⟨parameters, body, t⟩)
      (ofClosure_linked name (closure_linked hs ⟨hclosed, hplain⟩)) (fun _ hr => nomatch hr)
    have hc2 := hc1.setName (hle _ _ _ hl) hfloor hname (.object (L.add_self K.size H.size .data))
    obtain ⟨L', K', H', hle', hK, hH, hc', hnames⟩ := ih hc2 (hle _ _ _ hl) (hs.mono hle)
      (fun f hf => hfs f (List.mem_cons_of_mem _ hf))
    refine ⟨L', K', H', hle.trans hle', hK, hH, hc', ?_⟩
    intro y hy
    apply hnames
    have hsize : a < (K.push (.ofClosure name ⟨parameters, body, s⟩)).size := by
      rw [Array.size_push]
      omega
    rcases hy with hy | hy
    · exact Or.inl ((mem_namesAt_withOwn hsize).2 (Or.inr (by rw [namesAt_push ha]; exact hy)))
    · rcases List.mem_cons.1 hy with rfl | hy
      · exact Or.inl ((mem_namesAt_withOwn hsize).2 (Or.inl rfl))
      · exact Or.inr hy

end

theorem eq_of_namesAt {K : Heap} {a : Nat} {o : Object} (ho : K[a]? = some o) :
    namesAt K a = o.members.map Prod.fst := by
  unfold namesAt
  rw [ho]
  rfl

/-- the one frame that was not finished has got all its names -/
theorem Corresponds.finishFrame {a b : Nat} {names : List String} {K H : Heap}
    (hc : Corresponds S (· = a) L K H) (hl : L a b (.frame names))
    (hnames : ∀ x ∈ names, x ∈ namesAt K a) : Corresponds S finished L K H := by
  refine hc.finish ?_
  rintro a' b' names' o rfl hl' ho x hx
  obtain rfl := (hc.unique hl' hl).1 rfl
  cases hc.role hl' hl
  rw [← eq_of_namesAt ho]
  exact hnames x hx

theorem agree_makeNamed {bound parameters : List String} {body : List Stmt} {s t : Scope}
    (name : String) (hs : Scope.Linked L bound s t)
    (h : Code S.plain ([name] ++ bound) parameters body) :
    Agree S L Value.Linked (makeNamed name parameters body s)
      (makeNamed name parameters body t) := by
  intro K H hc
  have hroom := hc.room
  have hU : Corresponds S (· = K.size) L K H := hc.weaken fun _ hf => hf.elim
  have hle1 := L.le_add K.size H.size (.frame [name])
  have hl1 := L.add_self K.size H.size (.frame [name])
  have hc1 := hU.push (.frame [name]) (o := {}) (p := {}) (members_linked .nil)
    (fun _ hr => ⟨rfl, by simp, fun hu => absurd rfl hu⟩)
  have hs1 : Scope.Linked (L.add K.size H.size (.frame [name])) ([name] ++ bound) (K.size :: s)
      (H.size :: t) := .cons hl1 (hs.mono hle1)
  have hle2 := (L.add K.size H.size (.frame [name])).le_add (K.push {}).size (H.push {}).size .data
  have hc2 := hc1.push .data (o := .ofClosure name ⟨parameters, body, K.size :: s⟩)
    (p := .ofClosure name ⟨parameters, body, H.size :: t⟩)
    (ofClosure_linked name (closure_linked hs1 h)) (fun _ hr => nomatch hr)
  have hself := (L.add K.size H.size (.frame [name])).add_self (K.push {}).size (H.push {}).size
    .data
  have hc3 := hc2.setName (hle2 _ _ _ hl1) ⟨hroom.1, hroom.2.1⟩ (List.mem_singleton.2 rfl)
    (.object hself)
  refine ⟨_, hle1.trans hle2, hc3.finishFrame (hle2 _ _ _ hl1) fun x hx => ?_, .object hself⟩
  rw [mem_namesAt_withOwn (by rw [Array.size_push, Array.size_push]; omega)]
  exact Or.inl (List.mem_singleton.1 hx)

/-! ## The frame of a call -/

theorem bindArguments_linked (parameters : List String) {args args' : List Value}
    (h : Values.Linked L args args') :
    Members.Linked L (bindArguments parameters args) (bindArguments parameters args') := by
  induction parameters generalizing args args' with
  | nil => exact .nil
  | cons x xs ih =>
    cases h with
    | nil => exact .cons ⟨rfl, .primitive rfl⟩ (ih .nil)
    | cons hvw hrest => exact .cons ⟨rfl, hvw⟩ (ih hrest)

theorem names_bindArguments (parameters : List String) (args : List Value) :
    (bindArguments parameters args).map Prod.fst = parameters := by
  induction parameters generalizing args with
  | nil => rfl
  | cons x xs ih =>
    cases args with
    | nil => rw [bindArguments, List.map_cons, ih]
    | cons v vs => rw [bindArguments, List.map_cons, ih]

/-- The frame of a call, with all its names. -/
def openFrame (c : Closure) (args : List Value) : Run Scope := do
  let frame ← Run.allocate { members := Entries.made (bindArguments c.parameters args) }
  prepare frame (frame :: c.scope) c.body
  return frame :: c.scope

theorem enter_eq (call : Caller) (c : Closure) (args : List Value) :
    c.enter call args = do
      let scope ← openFrame c args
      match ← Stmt.execAll call scope c.body with
      | .returned v => return v
      | .normal _ => return .undefined := by
  simp only [openFrame, bind_assoc, pure_bind]
  rfl

/-- the names of a body are declared alike on both sides -/
theorem prepare_linked {a b : Nat} {names bound : List String} {body : List Stmt} {s t : Scope}
    {U : Nat → Prop} {K H : Heap} (hc : Corresponds S U L K H) (hl : L a b (.frame names))
    (hfloor : S.floor ≤ a ∧ S.floor' ≤ b) (hs : Scope.Linked L bound s t)
    (hclosed : Stmt.allClosed bound body = true)
    (hplain : S.plain = true → Stmt.allPlain body = true)
    (hvariables : ∀ x ∈ Stmt.allDeclared body, x ∈ names)
    (hfunctions : ∀ f ∈ Stmt.allFunctions body, f.1 ∈ names) :
    ∃ M K' H', L.Le M ∧ prepare a s body K = .ok ((), K') ∧ prepare b t body H = .ok ((), H') ∧
      Corresponds S U M K' H' ∧ ∀ x, x ∈ namesAt K a ∨ x ∈ Stmt.allDeclared body ∨
        x ∈ (Stmt.allFunctions body).map Prod.fst → x ∈ namesAt K' a := by
  have hdeclared := Stmt.declared_of_allClosed S.plain _ body hclosed hplain
  obtain ⟨K1, H1, hK1, hH1, hc1, hnames1⟩ := declareAll_run hc hl hfloor _ hvariables
  obtain ⟨M, K2, H2, hle, hK2, hH2, hc2, hnames2⟩ := defineAll_run hc1 hl hfloor hs _
    fun f hf => ⟨hfunctions f hf, hdeclared f hf⟩
  refine ⟨M, K2, H2, hle, ?_, ?_, hc2, ?_⟩
  · rw [prepare, Run.bind_ok hK1, hK2]
  · rw [prepare, Run.bind_ok hH1, hH2]
  · rintro x (hx | hx | hx)
    · exact hnames2 x (Or.inl (hnames1 x (Or.inl hx)))
    · exact hnames2 x (Or.inl (hnames1 x (Or.inr hx)))
    · exact hnames2 x (Or.inr hx)

/-- a frame is made alike on both sides, and the body is closed in it -/
theorem agree_openFrame {c d : Closure} (hcd : Closure.Linked S.plain L c d)
    {args args' : List Value} (hargs : Values.Linked L args args') :
    Agree S L (fun M s t => ∃ bound, Scope.Linked M bound s t ∧
      Stmt.allClosed bound c.body = true) (openFrame c args) (openFrame d args') := by
  obtain ⟨parameters, body, s⟩ := c
  obtain ⟨parameters', body', t⟩ := d
  obtain ⟨hpar, hbody, ⟨bound, hs, hclosed⟩, hplain⟩ := hcd
  dsimp only at hpar hbody hs hclosed hplain
  subst hpar hbody
  intro K H hc
  have hU : Corresponds S (· = K.size) L K H := hc.weaken fun _ hf => hf.elim
  have hle1 := L.le_add K.size H.size (.frame (Stmt.localNames parameters body))
  have hl1 := L.add_self K.size H.size (.frame (Stmt.localNames parameters body))
  have hs1 := Scope.Linked.cons hl1 (hs.mono hle1)
  have hparameters : ∀ {x : String},
      x ∈ (Entries.made (bindArguments parameters args)).map Prod.fst ↔ x ∈ parameters := by
    intro x
    rw [Entries.mem_names_made, names_bindArguments]
  have hc1 := hU.push (.frame (Stmt.localNames parameters body))
    (o := { members := Entries.made (bindArguments parameters args) })
    (p := { members := Entries.made (bindArguments parameters args') })
    (members_linked (made_related (bindArguments_linked parameters hargs))) (by
      intro names hr
      cases hr
      refine ⟨rfl, fun x hx => ?_, fun hu => absurd rfl hu⟩
      exact List.mem_append_left _ (List.mem_append_left _ (hparameters.1 hx)))
  obtain ⟨M, K', H', hle2, hK', hH', hc2, hnames⟩ := prepare_linked hc1 hl1
    ⟨hc.room.1, hc.room.2.1⟩ hs1 hclosed hplain
    (fun x hx => List.mem_append_left _ (List.mem_append_right _ hx))
    fun f hf => List.mem_append_right _ (List.mem_map_of_mem hf)
  have hrun : openFrame ⟨parameters, body, s⟩ args K = .ok (K.size :: s, K') := by
    rw [openFrame, Run.bind_ok (allocate_run _), Run.bind_ok hK']
    rfl
  have hrun' : openFrame ⟨parameters, body, t⟩ args' H = .ok (H.size :: t, H') := by
    rw [openFrame, Run.bind_ok (allocate_run _), Run.bind_ok hH']
    rfl
  rw [hrun, hrun']
  refine ⟨M, hle1.trans hle2, hc2.finishFrame (hle2 _ _ _ hl1) fun x hx => hnames x ?_, _,
    hs1.mono hle2, hclosed⟩
  rcases List.mem_append.1 hx with hx | hx
  · rcases List.mem_append.1 hx with hx | hx
    · left
      unfold namesAt
      rw [Array.getElem?_push, if_pos rfl]
      exact hparameters.2 hx
    · exact Or.inr (Or.inl hx)
  · exact Or.inr (Or.inr hx)

end ViewDesign.Script
