import ViewDesign.Proofs.Script.Frames

/-!
# Closed code agrees

Closed code does the same on corresponding heaps: it sees only what is linked, and all that it makes
is linked in turn.  The induction is on the form of the code, with calls left to a caller; a second
induction, on the depth of calls, ties the knot.

* `Caller.Emits`           calls of `emit` agree;
* `agree_eval`             expressions;
* `agree_exec`             statements;
* `agree_enter`            calls of functions;
* `Layered.agrees`         calls up to any depth.
-/

namespace ViewDesign.Script

variable {S : Setting} {L : Link}

/-! ## Places -/

/-- Places that correspond: the same variable in scope, or the same member of values that
correspond. -/
inductive Place.Linked (bound : List String) (L : Link) : Place → Place → Prop where
  | name {x : String} (hx : x ∈ bound) : Place.Linked bound L (.variable x) (.variable x)
  | member {v w : Value} {key : String} (hvw : Value.Linked L v w) :
      Place.Linked bound L (.member v key) (.member w key)

section
variable {bound : List String} {s t : Scope}

theorem Place.Linked.mono {M : Link} {p q : Place} (h : Place.Linked bound L p q) (hle : L.Le M) :
    Place.Linked bound M p q := by
  cases h with
  | name hx => exact .name hx
  | member hvw => exact .member (hvw.mono hle)

theorem agree_placeRead (hs : Scope.Linked L bound s t) {p q : Place}
    (h : Place.Linked bound L p q) : Agree S L Value.Linked (p.read s) (q.read t) := by
  cases h with
  | name hx => exact agree_read hs (by simp [known, hx])
  | member hvw => exact agree_getMember hvw _

theorem agree_placeWrite (hplain : S.plain = false) (hs : Scope.Linked L bound s t) {p q : Place}
    (h : Place.Linked bound L p q) {v w : Value} (hvw : Value.Linked L v w) :
    Agree S L Same (p.write s v) (q.write t w) := by
  cases h with
  | name hx => exact agree_write hplain hs hx hvw
  | member hu => exact agree_setMember hplain hu _ hvw

end

/-! ## Calls of `emit` -/

/-- Calls of `emit` agree. -/
def Caller.Emits (S : Setting) (call call' : Caller) : Prop :=
  S.plain = false → ∀ L args args', Values.Linked L args args' →
    Agree S L Value.Linked (call .undefined S.emitter args) (call' .undefined S.emitter' args')

/-- `emit` is found among the global variables, unless the code has a name of its own for it -/
theorem agree_readEmit {bound : List String} {s t : Scope} (hplain : S.plain = false)
    (hs : Scope.Linked L bound s t) (hx : "emit" ∉ bound) :
    Agree S L (fun _ v w => v = S.emitter ∧ w = S.emitter') (s.read "emit") (t.read "emit") := by
  intro K H hc
  obtain ⟨hk, hh⟩ := find?_free hc hs hx
  obtain ⟨hk', hh'⟩ := S.rest_emit hplain hc.rest
  have e : s.read? "emit" K = .ok (some S.emitter, K) := by
    show Except.ok (((s.find? K "emit").map Prod.snd).or _, K) = _
    rw [hk, hk']
    rfl
  have e' : t.read? "emit" H = .ok (some S.emitter', H) := by
    show Except.ok (((t.find? H "emit").map Prod.snd).or _, H) = _
    rw [hh, hh']
    rfl
  rw [Scope.read, Scope.read, Run.bind_ok e, Run.bind_ok e']
  exact ⟨L, Link.Le.refl L, hc, rfl, rfl⟩

/-! ## Equations for calls and names -/

/-- Whether an expression is a member of another one. -/
def Expr.isMember : Expr → Bool
  | .member _ _ => true
  | _ => false

theorem eval_call {call : Caller} {s : Scope} {f : Expr} {args : List Expr}
    (h : f.isMember = false) :
    (Expr.call f args).eval call s = (do
      let v ← f.eval call s
      let vs ← Expr.evalAll call s args
      call .undefined v vs) := by
  cases f with
  | member => exact absurd h (by simp [Expr.isMember])
  | _ => rfl

theorem eval_callMember {call : Caller} {s : Scope} {o k : Expr} {args : List Expr} :
    (Expr.call (.member o k) args).eval call s = (do
      let v ← o.eval call s
      let k ← k.eval call s
      let f ← v.getMember (← k.textual call)
      let args ← Expr.evalAll call s args
      call v f args) := rfl

/-- Whether an expression is a name. -/
def Expr.isName : Expr → Bool
  | .name _ => true
  | _ => false

theorem eval_typeOf {call : Caller} {s : Scope} {e : Expr} (h : e.isName = false) :
    (Expr.typeOf e).eval call s = do
      let v ← e.eval call s
      return .text (← v.typeName) := by
  cases e with
  | name => exact absurd h (by simp [Expr.isName])
  | _ => rfl

/-! ## Calls, from their parts -/

section
variable {call call' : Caller} {bound : List String} {s t : Scope} {args : List Expr}
  (hcall : Caller.Agrees S call call') (hplain : S.plain = false)
  (hargs : ∀ M, L.Le M →
    Agree S M Values.Linked (Expr.evalAll call s args) (Expr.evalAll call' t args))
include hcall hplain hargs

theorem agree_callMember {o k : Expr} (ho : Agree S L Value.Linked (o.eval call s) (o.eval call' t))
    (hk : ∀ M, L.Le M → Agree S M Value.Linked (k.eval call s) (k.eval call' t)) :
    Agree S L Value.Linked ((Expr.call (.member o k) args).eval call s)
      ((Expr.call (.member o k) args).eval call' t) := by
  rw [eval_callMember, eval_callMember]
  refine ho.bind fun M hle v w hvw => ?_
  refine (hk M hle).bind fun M1 hle1 x x' hx => ?_
  refine (agree_textual hcall hx).bind fun M2 hle2 y y' e => ?_
  cases e
  have hvw2 := hvw.mono (hle1.trans hle2)
  refine (agree_getMember hvw2 y).bind fun M3 hle3 f f' hff' => ?_
  have hle03 := hle.trans (hle1.trans (hle2.trans hle3))
  refine (hargs M3 hle03).bind fun M4 hle4 vs ws hvs => ?_
  exact hcall.agree (hvw2.mono (hle3.trans hle4)) (hff'.mono hle4) hvs (Setting.vacuous hplain)

theorem agree_callValue {f : Expr} (hm : f.isMember = false)
    (hf : Agree S L Value.Linked (f.eval call s) (f.eval call' t)) :
    Agree S L Value.Linked ((Expr.call f args).eval call s) ((Expr.call f args).eval call' t) := by
  rw [eval_call hm, eval_call hm]
  refine hf.bind fun M hle v w hvw => ?_
  refine (hargs M hle).bind fun M' hle' vs ws hvs => ?_
  exact hcall.agree (.primitive rfl) (hvw.mono hle') hvs (Setting.vacuous hplain)

omit hcall in
/-- a call of `emit`, which is not one of the code's own names -/
theorem agree_callEmit (hemit : Caller.Emits S call call') (hs : Scope.Linked L bound s t)
    (hfree : "emit" ∉ bound) :
    Agree S L Value.Linked ((Expr.call (.name "emit") args).eval call s)
      ((Expr.call (.name "emit") args).eval call' t) := by
  rw [eval_call rfl, eval_call rfl]
  refine (agree_readEmit hplain hs hfree).bind fun M hle v w hvw => ?_
  obtain ⟨rfl, rfl⟩ := hvw
  refine (hargs M hle).bind fun M' hle' vs ws hvs => ?_
  exact hemit hplain M' vs ws hvs

end

/-! ## Literals and names -/

theorem filter_related {α β : Type} {R : α → β → Prop} {es : List (String × α)}
    {fs : List (String × β)} (h : Entries.Related R es fs) (f : String → Bool) :
    Entries.Related R (es.filter fun e => f e.1) (fs.filter fun e => f e.1) := by
  induction h with
  | nil => exact .nil
  | cons hxy _ ih =>
    rw [List.filter_cons, List.filter_cons, ← hxy.1]
    split
    · exact .cons hxy ih
    · exact ih

theorem ancestorIn_linked {es fs : List (String × Value)} (h : Members.Linked L es fs) :
    Option.Rel (References.Linked L) (ancestorIn es) (ancestorIn fs) := by
  have hget := get?_related h ancestorName
  unfold ancestorIn
  generalize Entries.get? ancestorName es = x at hget ⊢
  generalize Entries.get? ancestorName fs = y at hget ⊢
  cases hget with
  | none => exact .none
  | some hvw =>
    cases hvw with
    | object hl => exact .some (.some hl)
    | primitive hp =>
      rename_i v
      cases v with
      | object => cases hp
      | null => exact .some .none
      | _ => exact .none

theorem ofLiteral_linked {plain : Bool} {es fs : List (String × Value)}
    (h : Members.Linked L es fs) :
    Object.Linked plain L (.ofLiteral es) (.ofLiteral fs) :=
  ⟨.plain, ancestorIn_linked h, .nil, made_related (filter_related h fun x => x ≠ ancestorName),
    fun _ => ⟨Object.bare_of_not_array (by simp [Object.ofLiteral]),
      Object.bare_of_not_array (by simp [Object.ofLiteral])⟩⟩

/-- an expression that is given a name is computed like any other -/
theorem agree_named {call call' : Caller} {bound : List String} {s t : Scope} {e : Expr}
    (hs : Scope.Linked L bound s t) (h : e.closed bound = true)
    (hp : S.plain = true → e.plain = true) (name : Option String)
    (hvw : Agree S L Value.Linked (e.eval call s) (e.eval call' t)) :
    Agree S L Value.Linked (e.named s name (e.eval call s)) (e.named t name (e.eval call' t)) := by
  cases name with
  | none => exact hvw
  | some x =>
    cases e with
    | function f parameters body =>
      cases f with
      | some => exact hvw
      | none =>
        simp only [Expr.closed] at h
        simp only [Expr.plain] at hp
        exact agree_makeFunction x hs ⟨h, hp⟩
    | _ => exact hvw

/-! ## Expressions -/

section
variable {call call' : Caller} {bound : List String} {s t : Scope}

mutual

/-- the value of a closed expression -/
theorem agree_eval {L : Link} (hcall : Caller.Agrees S call call')
    (hemit : Caller.Emits S call call') (hs : Scope.Linked L bound s t) (e : Expr)
    (h : e.closed bound = true) (hp : S.plain = true → e.plain = true) :
    Agree S L Value.Linked (e.eval call s) (e.eval call' t) := by
  cases e with
  | absent => simp only [Expr.eval]; exact Agree.pure (.primitive rfl)
  | null => simp only [Expr.eval]; exact Agree.pure (.primitive rfl)
  | bool b => simp only [Expr.eval]; exact Agree.pure (.primitive rfl)
  | number n => simp only [Expr.eval]; exact Agree.pure (.primitive rfl)
  | text x => simp only [Expr.eval]; exact Agree.pure (.primitive rfl)
  | name x =>
    simp only [Expr.eval]
    simp only [Expr.closed] at h
    exact agree_read hs h
  | array items =>
    simp only [Expr.eval]
    simp only [Expr.closed] at h
    simp only [Expr.plain] at hp
    refine (agree_evalAll hcall hemit hs items h hp).bind fun M hle vs ws hvw => ?_
    exact (agree_allocate (items_linked (by simpa using hvw))).map fun _ _ _ _ hab => .object hab
  | object members =>
    simp only [Expr.eval]
    simp only [Expr.closed] at h
    simp only [Expr.plain] at hp
    refine (agree_evalMembers hcall hemit hs members h hp).bind fun M hle es fs hef => ?_
    exact (agree_allocate (ofLiteral_linked hef)).map fun _ _ _ _ hab => .object hab
  | function name parameters body =>
    simp only [Expr.closed] at h
    simp only [Expr.plain] at hp
    cases name with
    | none =>
      simp only [Expr.eval]
      exact agree_makeFunction "" hs ⟨h, hp⟩
    | some name =>
      simp only [Expr.eval]
      exact agree_makeNamed name hs ⟨h, hp⟩
  | member object key =>
    simp only [Expr.eval]
    simp only [Expr.closed, Bool.and_eq_true] at h
    simp only [Expr.plain, Bool.and_eq_true] at hp
    refine (agree_eval hcall hemit hs object h.1 (fun e => (hp e).1)).bind fun M hle v w hvw => ?_
    refine (agree_eval hcall hemit (hs.mono hle) key h.2 (fun e => (hp e).2)).bind
      fun M' hle' k k' hk => ?_
    refine (agree_textual hcall hk).bind fun M'' hle'' x y e => ?_
    cases e
    exact agree_getMember (hvw.mono (hle'.trans hle'')) x
  | call function arguments =>
    have hplain := Setting.not_plain hp rfl
    simp only [Expr.closed, Bool.and_eq_true, Bool.or_eq_true] at h
    have hargs := fun M (hle : L.Le M) =>
      agree_evalAll hcall hemit (hs.mono hle) arguments h.2 (Setting.vacuous hplain)
    by_cases hm : function.isMember = true
    · cases function with
      | member object key =>
        simp only [Expr.isEmit, Bool.false_eq_true, false_or, Expr.closed, Bool.and_eq_true] at h
        exact agree_callMember hcall hplain hargs
          (agree_eval hcall hemit hs object h.1.1 (Setting.vacuous hplain))
          fun M hle => agree_eval hcall hemit (hs.mono hle) key h.1.2 (Setting.vacuous hplain)
      | _ => exact absurd hm (by simp [Expr.isMember])
    · by_cases hc : function.closed bound = true
      · exact agree_callValue hcall hplain hargs (by simpa using hm)
          (agree_eval hcall hemit hs function hc (Setting.vacuous hplain))
      · -- only the name `emit` may be called without being closed
        have he : function.isEmit = true := h.1.resolve_right hc
        cases function with
        | name x =>
          obtain rfl : x = "emit" := by simpa [Expr.isEmit] using he
          have hfree : "emit" ∉ bound := fun hin => hc (by simp [Expr.closed, known, hin])
          exact agree_callEmit hplain hargs hemit hs hfree
        | _ => exact absurd he (by simp [Expr.isEmit])
  | typeOf e =>
    simp only [Expr.closed] at h
    simp only [Expr.plain] at hp
    by_cases hn : e.isName = true
    · cases e with
      | name x =>
        simp only [Expr.eval]
        simp only [Expr.closed] at h
        refine (agree_read? hs h).bind fun M hle v w hvw => ?_
        obtain ⟨v', w', rfl, rfl, hvw'⟩ := hvw
        exact (agree_typeName hvw').map fun _ _ _ _ e => by cases e; exact .primitive rfl
      | _ => exact absurd hn (by simp [Expr.isName])
    · rw [eval_typeOf (by simpa using hn), eval_typeOf (by simpa using hn)]
      refine (agree_eval hcall hemit hs e h hp).bind fun M hle v w hvw => ?_
      exact (agree_typeName hvw).map fun _ _ _ _ e => by cases e; exact .primitive rfl
  | unary op e =>
    simp only [Expr.eval]
    simp only [Expr.closed] at h
    simp only [Expr.plain] at hp
    refine (agree_eval hcall hemit hs e h hp).bind fun M hle v w hvw => ?_
    exact agree_unary hcall op hvw
  | binary op left right =>
    simp only [Expr.eval]
    simp only [Expr.closed, Bool.and_eq_true] at h
    simp only [Expr.plain, Bool.and_eq_true] at hp
    refine (agree_eval hcall hemit hs left h.1 (fun e => (hp e).1)).bind fun M hle v w hvw => ?_
    refine (agree_eval hcall hemit (hs.mono hle) right h.2 (fun e => (hp e).2)).bind
      fun M' hle' v' w' hvw' => ?_
    exact agree_binary hcall op (hvw.mono hle') hvw'
  | and left right =>
    simp only [Expr.eval]
    simp only [Expr.closed, Bool.and_eq_true] at h
    simp only [Expr.plain, Bool.and_eq_true] at hp
    refine (agree_eval hcall hemit hs left h.1 (fun e => (hp e).1)).bind fun M hle v w hvw => ?_
    rw [hvw.truth_eq]
    split
    · exact agree_eval hcall hemit (hs.mono hle) right h.2 (fun e => (hp e).2)
    · exact Agree.pure hvw
  | or left right =>
    simp only [Expr.eval]
    simp only [Expr.closed, Bool.and_eq_true] at h
    simp only [Expr.plain, Bool.and_eq_true] at hp
    refine (agree_eval hcall hemit hs left h.1 (fun e => (hp e).1)).bind fun M hle v w hvw => ?_
    rw [hvw.truth_eq]
    split
    · exact Agree.pure hvw
    · exact agree_eval hcall hemit (hs.mono hle) right h.2 (fun e => (hp e).2)
  | choice test yes no =>
    simp only [Expr.eval]
    simp only [Expr.closed, Bool.and_eq_true] at h
    simp only [Expr.plain, Bool.and_eq_true] at hp
    refine (agree_eval hcall hemit hs test h.1.1 (fun e => (hp e).1.1)).bind fun M hle v w hvw => ?_
    rw [hvw.truth_eq]
    split
    · exact agree_eval hcall hemit (hs.mono hle) yes h.1.2 (fun e => (hp e).1.2)
    · exact agree_eval hcall hemit (hs.mono hle) no h.2 (fun e => (hp e).2)
  | sequence first second =>
    simp only [Expr.eval]
    simp only [Expr.closed, Bool.and_eq_true] at h
    simp only [Expr.plain, Bool.and_eq_true] at hp
    refine (agree_eval hcall hemit hs first h.1 (fun e => (hp e).1)).bind fun M hle v w hvw => ?_
    exact agree_eval hcall hemit (hs.mono hle) second h.2 (fun e => (hp e).2)
  | assign target e =>
    simp only [Expr.eval]
    simp only [Expr.closed, Bool.and_eq_true] at h
    have hplain := Setting.not_plain hp rfl
    refine (agree_place hcall hemit hplain hs target h.1).bind fun M hle p q hpq => ?_
    have hvalue := agree_eval hcall hemit (hs.mono hle) e h.2 (Setting.vacuous hplain)
    refine (agree_named (hs.mono hle) h.2 (Setting.vacuous hplain) target.name? hvalue).bind
      fun M' hle' v w hvw => ?_
    have hs' := hs.mono (hle.trans hle')
    refine (agree_placeWrite hplain hs' (hpq.mono hle') hvw).bind fun M'' hle'' _ _ _ => ?_
    exact Agree.pure (hvw.mono hle'')
  | update target op e =>
    simp only [Expr.eval]
    simp only [Expr.closed, Bool.and_eq_true] at h
    have hplain := Setting.not_plain hp rfl
    refine (agree_place hcall hemit hplain hs target h.1).bind fun M hle p q hpq => ?_
    refine (agree_placeRead (hs.mono hle) hpq).bind fun M1 hle1 old old' hold => ?_
    have hs1 := hs.mono (hle.trans hle1)
    refine (agree_eval hcall hemit hs1 e h.2 (Setting.vacuous hplain)).bind fun M2 hle2 v w hvw => ?_
    refine (agree_binary hcall op (hold.mono hle2) hvw).bind fun M3 hle3 new new' hnew => ?_
    refine (agree_placeWrite hplain (hs1.mono (hle2.trans hle3))
      (hpq.mono (hle1.trans (hle2.trans hle3))) hnew).bind fun M4 hle4 _ _ _ => ?_
    exact Agree.pure (hnew.mono hle4)
  | count target up valueAfter =>
    simp only [Expr.eval]
    simp only [Expr.closed] at h
    have hplain := Setting.not_plain hp rfl
    refine (agree_place hcall hemit hplain hs target h).bind fun M hle p q hpq => ?_
    refine (agree_placeRead (hs.mono hle) hpq).bind fun M1 hle1 old old' hold => ?_
    refine (agree_numeric hcall hold).bind fun M2 hle2 n n' hn => ?_
    cases hn
    refine (agree_placeWrite hplain (hs.mono (hle.trans (hle1.trans hle2)))
      (hpq.mono (hle1.trans hle2)) (.primitive rfl)).bind fun M3 hle3 _ _ _ => ?_
    exact Agree.pure (.primitive rfl)

theorem agree_evalAll {L : Link} (hcall : Caller.Agrees S call call')
    (hemit : Caller.Emits S call call') (hs : Scope.Linked L bound s t) (es : List Expr)
    (h : Expr.allClosed bound es = true)
    (hp : S.plain = true → Expr.allPlain es = true) :
    Agree S L Values.Linked (Expr.evalAll call s es) (Expr.evalAll call' t es) := by
  cases es with
  | nil => simp only [Expr.evalAll]; exact Agree.pure .nil
  | cons e rest =>
    simp only [Expr.evalAll]
    simp only [Expr.allClosed, Bool.and_eq_true] at h
    simp only [Expr.allPlain, Bool.and_eq_true] at hp
    refine (agree_eval hcall hemit hs e h.1 (fun e => (hp e).1)).bind fun M hle v w hvw => ?_
    refine (agree_evalAll hcall hemit (hs.mono hle) rest h.2 (fun e => (hp e).2)).map
      fun _ hle' vs ws hvs => ?_
    exact .cons (hvw.mono hle') hvs

theorem agree_evalMembers {L : Link} (hcall : Caller.Agrees S call call')
    (hemit : Caller.Emits S call call') (hs : Scope.Linked L bound s t) (ms : List (String × Expr))
    (h : Expr.membersClosed bound ms = true) (hp : S.plain = true → Expr.membersPlain ms = true) :
    Agree S L Members.Linked (Expr.evalMembers call s ms) (Expr.evalMembers call' t ms) := by
  cases ms with
  | nil => simp only [Expr.evalMembers]; exact Agree.pure .nil
  | cons m rest =>
    obtain ⟨name, e⟩ := m
    simp only [Expr.evalMembers]
    simp only [Expr.membersClosed, Bool.and_eq_true] at h
    simp only [Expr.membersPlain, Bool.and_eq_true] at hp
    have hvalue := agree_eval hcall hemit hs e h.1 (fun e => (hp e).1)
    refine (agree_named hs h.1 (fun e => (hp e).1) (memberName? name) hvalue).bind
      fun M hle v w hvw => ?_
    refine (agree_evalMembers hcall hemit (hs.mono hle) rest h.2 (fun e => (hp e).2)).map
      fun _ hle' vs ws hvs => ?_
    exact .cons ⟨rfl, hvw.mono hle'⟩ hvs

theorem agree_place {L : Link} (hcall : Caller.Agrees S call call')
    (hemit : Caller.Emits S call call') (hplain : S.plain = false) (hs : Scope.Linked L bound s t)
    (x : Target) (h : x.closed bound = true) :
    Agree S L (Place.Linked bound) (x.place call s) (x.place call' t) := by
  have hno : ∀ {q : Prop}, S.plain = true → q := Setting.vacuous hplain
  cases x with
  | name x =>
    simp only [Target.place]
    simp only [Target.closed, decide_eq_true_eq] at h
    exact Agree.pure (.name h)
  | member object key =>
    simp only [Target.place]
    simp only [Target.closed, Bool.and_eq_true] at h
    refine (agree_eval hcall hemit hs object h.1 hno).bind fun M hle v w hvw => ?_
    refine (agree_eval hcall hemit (hs.mono hle) key h.2 hno).bind fun M' hle' k k' hk => ?_
    refine (agree_textual hcall hk).map fun _ hle'' x y e => ?_
    cases e
    exact .member (hvw.mono (hle'.trans hle''))

end

/-! ## Statements -/

/-- Completions that correspond. -/
inductive Completion.Linked (L : Link) : Completion → Completion → Prop where
  | normal {v w : Value} (h : Value.Linked L v w) : Completion.Linked L (.normal v) (.normal w)
  | returned {v w : Value} (h : Value.Linked L v w) :
      Completion.Linked L (.returned v) (.returned w)

/-- a loop whose test, body and step agree, by induction on the rounds -/
theorem agree_repeatWhile {test test' : Run Bool} {body body' : Run Completion}
    {step step' : Run Unit} (htest : ∀ M, L.Le M → Agree S M Same test test')
    (hbody : ∀ M, L.Le M → Agree S M Completion.Linked body body')
    (hstep : ∀ M, L.Le M → Agree S M Same step step') (rounds : Nat) :
    Agree S L Completion.Linked (repeatWhile test body step rounds)
      (repeatWhile test' body' step' rounds) := by
  induction rounds generalizing L with
  | zero => exact Agree.throw .exhausted
  | succ rounds ih =>
    unfold repeatWhile
    refine (htest L (Link.Le.refl L)).bind fun M hle b b' hb => ?_
    cases hb
    split
    · refine (hbody M hle).bind fun M' hle' c c' hc => ?_
      cases hc with
      | returned h => exact Agree.pure (.returned h)
      | normal =>
        have hle2 := hle.trans hle'
        refine (hstep M' hle2).bind fun M'' hle'' _ _ _ => ?_
        have hle3 := hle2.trans hle''
        exact ih (fun N hN => htest N (hle3.trans hN)) (fun N hN => hbody N (hle3.trans hN))
          (fun N hN => hstep N (hle3.trans hN))
    · exact Agree.pure (.normal (.primitive rfl))

theorem execAll_cons {call : Caller} {s : Scope} {c : Stmt} {rest : List Stmt} (h : rest ≠ []) :
    Stmt.execAll call s (c :: rest) = (do
      match ← c.exec call s with
      | .returned v => return .returned v
      | .normal _ => Stmt.execAll call s rest) := by
  cases rest with
  | nil => exact absurd rfl h
  | cons => rfl

mutual

/-- a closed statement -/
theorem agree_exec {L : Link} (hcall : Caller.Agrees S call call')
    (hemit : Caller.Emits S call call') (hs : Scope.Linked L bound s t) (c : Stmt)
    (h : c.closed bound = true)
    (hp : S.plain = true → c.plain = true) :
    Agree S L Completion.Linked (c.exec call s) (c.exec call' t) := by
  -- on the statement, its expressions by `agree_eval`; a loop goes by its rounds
  cases c with
  | expression e =>
    simp only [Stmt.exec]
    simp only [Stmt.closed] at h
    simp only [Stmt.plain] at hp
    exact (agree_eval hcall hemit hs e h hp).map fun _ _ _ _ hvw => .normal hvw
  | declare x => simp only [Stmt.exec]; exact Agree.pure (.normal (.primitive rfl))
  | define x ps body => simp only [Stmt.exec]; exact Agree.pure (.normal (.primitive rfl))
  | block body =>
    simp only [Stmt.exec]
    simp only [Stmt.closed] at h
    simp only [Stmt.plain] at hp
    exact agree_execAll hcall hemit hs body h hp
  | «when» test body =>
    simp only [Stmt.exec]
    simp only [Stmt.closed, Bool.and_eq_true] at h
    simp only [Stmt.plain, Bool.and_eq_true] at hp
    refine (agree_eval hcall hemit hs test h.1 (fun e => (hp e).1)).bind fun M hle v w hvw => ?_
    rw [hvw.truth_eq]
    split
    · exact agree_exec hcall hemit (hs.mono hle) body h.2 (fun e => (hp e).2)
    · exact Agree.pure (.normal (.primitive rfl))
  | branch test yes no =>
    simp only [Stmt.exec]
    simp only [Stmt.closed, Bool.and_eq_true] at h
    simp only [Stmt.plain, Bool.and_eq_true] at hp
    refine (agree_eval hcall hemit hs test h.1.1 (fun e => (hp e).1.1)).bind
      fun M hle v w hvw => ?_
    rw [hvw.truth_eq]
    split
    · exact agree_exec hcall hemit (hs.mono hle) yes h.1.2 (fun e => (hp e).1.2)
    · exact agree_exec hcall hemit (hs.mono hle) no h.2 (fun e => (hp e).2)
  | loop test step body =>
    simp only [Stmt.exec]
    simp only [Stmt.closed, Bool.and_eq_true] at h
    simp only [Stmt.plain, Bool.and_eq_true] at hp
    refine agree_repeatWhile (fun M hle => ?_) (fun M hle => ?_) (fun M hle => ?_) maxRounds
    · exact (agree_eval hcall hemit (hs.mono hle) test h.1.1 (fun e => (hp e).1.1)).map
        fun _ _ _ _ hvw => hvw.truth_eq
    · exact agree_exec hcall hemit (hs.mono hle) body h.2 (fun e => (hp e).2)
    · exact (agree_eval hcall hemit (hs.mono hle) step h.1.2 (fun e => (hp e).1.2)).map
        fun _ _ _ _ _ => rfl
  | result e =>
    simp only [Stmt.exec]
    simp only [Stmt.closed] at h
    simp only [Stmt.plain] at hp
    exact (agree_eval hcall hemit hs e h hp).map fun _ _ _ _ hvw => .returned hvw

theorem agree_execAll {L : Link} (hcall : Caller.Agrees S call call')
    (hemit : Caller.Emits S call call') (hs : Scope.Linked L bound s t) (cs : List Stmt)
    (h : Stmt.allClosed bound cs = true)
    (hp : S.plain = true → Stmt.allPlain cs = true) :
    Agree S L Completion.Linked (Stmt.execAll call s cs) (Stmt.execAll call' t cs) := by
  cases cs with
  | nil => simp only [Stmt.execAll]; exact Agree.pure (.normal (.primitive rfl))
  | cons c rest =>
    simp only [Stmt.allClosed, Bool.and_eq_true] at h
    simp only [Stmt.allPlain, Bool.and_eq_true] at hp
    have hfirst := agree_exec hcall hemit hs c h.1 (fun e => (hp e).1)
    by_cases hr : rest = []
    · subst hr
      simp only [Stmt.execAll]
      exact hfirst
    · rw [execAll_cons hr, execAll_cons hr]
      refine hfirst.bind fun M hle d d' hd => ?_
      cases hd with
      | returned hvw => exact Agree.pure (.returned hvw)
      | normal => exact agree_execAll hcall hemit (hs.mono hle) rest h.2 (fun e => (hp e).2)

end

end

/-! ## Calls -/

section
variable {call call' : Caller} (hcall : Caller.Agrees S call call')
include hcall

theorem agree_enter (hemit : Caller.Emits S call call') {c d : Closure}
    (hcd : Closure.Linked S.plain L c d) {args args' : List Value}
    (hargs : Values.Linked L args args') :
    Agree S L Value.Linked (c.enter call args) (d.enter call' args') := by
  rw [enter_eq, enter_eq]
  refine (agree_openFrame hcd hargs).bind fun M hle s t hst => ?_
  obtain ⟨bound, hs, hclosed⟩ := hst
  rw [← hcd.body]
  refine (agree_execAll hcall hemit hs c.body hclosed hcd.plain).bind fun M' hle' r r' hr => ?_
  cases hr with
  | normal => exact Agree.pure (.primitive rfl)
  | returned hvw => exact Agree.pure hvw

end

/-! ## Functions that are there from the start -/

theorem headD_linked {args args' : List Value} (h : Values.Linked L args args') :
    Value.Linked L (args.headD .undefined) (args'.headD .undefined) := by
  cases h with
  | nil => exact .primitive rfl
  | cons hvw _ => exact hvw

theorem store_same {K : Heap} {a : Nat} {o : Object} (h : K[a]? = some o) :
    K.setIfInBounds a o = K := by
  obtain ⟨hlt, rfl⟩ := Array.getElem?_eq_some_iff.1 h
  rw [Array.setIfInBounds, dif_pos hlt, Array.set_getElem_self]

/-- appending to an array; in a plain setting nothing is appended -/
theorem ends_push {v v' : Value} (hv : Value.Linked L v v') {args args' : List Value}
    (hargs : Values.Linked L args args') {K H : Heap} (hc : Corresponds S finished L K H)
    (hnone : S.plain = true → args = [] ∨ v.NoArray K) :
    Ends S L Value.Linked (v.push args K) (v'.push args' H) := by
  cases hv with
  | primitive hp => cases v <;> first | exact Ends.error _ | cases hp
  | object hl =>
    obtain ⟨o, p, ho, hp, hop⟩ := hc.object hl
    simp only [Value.push]
    rw [Run.bind_ok (load_run ho), Run.bind_ok (load_run hp)]
    have hkind := hop.kind
    cases ho' : o.kind with
    | array xs =>
      rw [ho'] at hkind
      cases hp' : p.kind with
      | array ys =>
        rw [hp'] at hkind
        cases hkind with
        | array hxy =>
          dsimp only
          have hxy' : Values.Linked L (xs ++ args.toArray).toList (ys ++ args'.toArray).toList := by
            simpa using append_linked hxy hargs
          cases hS : S.plain with
          | false =>
            have hstore := agree_store hS hl
              (o := { o with kind := .array (xs ++ args.toArray) })
              (p := { p with kind := .array (ys ++ args'.toArray) })
              ⟨.array hxy', hop.inherits, hop.hidden, hop.members, Setting.vacuous hS⟩
            refine (hstore.map fun _ _ _ _ _ => ?_ : Agree S L Value.Linked _ _) K H hc
            rw [size_linked hxy']
            exact .primitive rfl
          | true =>
            obtain rfl | hno := hnone hS
            · cases hargs
              have nothing : ∀ zs : Array Value, zs ++ ([] : List Value).toArray = zs := by simp
              have same : ∀ {q : Object} {zs : Array Value}, q.kind = .array zs →
                  { q with kind := .array (zs ++ ([] : List Value).toArray) } = q := by
                intro q zs hq
                rw [nothing, ← hq]
              rw [same ho', same hp', nothing, nothing]
              refine ⟨L, Link.Le.refl L, ?_, ?_⟩
              · show Corresponds S finished L (K.setIfInBounds _ o) (H.setIfInBounds _ p)
                rw [store_same ho, store_same hp]
                exact hc
              · rw [size_linked hxy]
                exact .primitive rfl
            · exact absurd ho' (hno _ o xs rfl ho)
      | _ => rw [hp'] at hkind; cases hkind
    | _ =>
      rw [ho'] at hkind
      cases hp' : p.kind with
      | array ys => rw [hp'] at hkind; cases hkind
      | _ => exact Ends.error _

/-- a call of one of the functions that are there from the start -/
theorem ends_builtin {call call' : Caller} (hcall : Caller.Agrees S call call') {b : Builtin}
    (hb : b.shared = true) {v v' : Value} (hv : Value.Linked L v v') {args args' : List Value}
    (hargs : Values.Linked L args args') {K H : Heap} (hc : Corresponds S finished L K H)
    (hnone : S.plain = true → args = [] ∨ v.NoArray K) :
    Ends S L Value.Linked (b.call call v args K) (b.call call' v' args' H) := by
  have hfirst := headD_linked hargs
  have text : ∀ {x y : Run String}, Agree S L Same x y →
      Ends S L Value.Linked ((do return .text (← x) : Run Value) K)
        ((do return .text (← y) : Run Value) H) :=
    fun h => (h.map fun _ _ _ _ e => by cases e; exact .primitive rfl :
      Agree S L Value.Linked _ _) K H hc
  cases b with
  | parse => cases hb
  | stringify => cases hb
  | push => exact ends_push hv hargs hc hnone
  | join => exact text (agree_join hcall hv hfirst)
  | kindText => exact text (agree_kindText hv)
  | arrayText => exact agree_arrayText hcall hv K H hc
  | functionText => exact text (agree_functionText hv)
  | other => exact Ends.error _
  | hasOwn =>
    refine ((agree_textual hcall hfirst).bind fun M hle key key' e => ?_ :
      Agree S L Value.Linked _ _) K H hc
    cases e
    exact (agree_hasOwn (hv.mono hle) key).map fun _ _ _ _ e => by cases e; exact .primitive rfl
  | itself =>
    simp only [Builtin.call]
    rw [hv.isNothing_eq]
    split
    · exact Ends.error _
    · exact ⟨L, Link.Le.refl L, hc, hv⟩
  | text type =>
    have hempty : args.isEmpty = args'.isEmpty := by cases hargs <;> rfl
    refine ((agree_ofType type hv).bind fun M hle x y hxy => ?_ :
      Agree S L Value.Linked _ _) K H hc
    rw [hxy.1, hempty]
    split
    · exact Agree.throw .unknown
    · exact Agree.pure (.primitive rfl)
  | value type =>
    have hvalue : Agree S L Value.Linked (v.ofType type >>= fun x => pure x)
        (v'.ofType type >>= fun x => pure x) :=
      (agree_ofType type hv).map fun _ _ x y hxy => by rw [← hxy.1]; exact .primitive hxy.2
    rw [bind_pure, bind_pure] at hvalue
    exact hvalue K H hc

/-! ## Depth -/

/-- calls of values that correspond, by what is called in turn -/
theorem ends_invoke {call call' : Caller} (hcall : Caller.Agrees S call call')
    (hemit : Caller.Emits S call call') {v v' f f' : Value} (hv : Value.Linked L v v')
    (hf : Value.Linked L f f') {args args' : List Value} (hargs : Values.Linked L args args')
    {K H : Heap} (hc : Corresponds S finished L K H)
    (hnone : S.plain = true → args = [] ∨ v.NoArray K) :
    Ends S L Value.Linked (v.invoke call f args K) (v'.invoke call' f' args' H) := by
  cases hf with
  | primitive hp => cases f <;> first | exact Ends.error _ | cases hp
  | object hl =>
    obtain ⟨o, p, ho, hp, hop⟩ := hc.object hl
    simp only [Value.invoke]
    rw [Run.bind_ok (load_run ho), Run.bind_ok (load_run hp)]
    have hkind := hop.kind
    generalize o.kind = k at hkind ⊢
    generalize p.kind = l at hkind ⊢
    cases hkind with
    | function hcd => exact agree_enter hcall hemit hcd hargs K H hc
    | native hb => exact ends_builtin hcall hb hv hargs hc hnone
    | _ => exact Ends.error _

/-- Callers for each depth.  At none they fail; above, calls of values that correspond are carried
out, with the caller of the depth below. -/
structure Layered (S : Setting) (left right : Nat → Caller) : Prop where
  bottom : ∀ v f args, left 0 v f args = throw .exhausted ∧ right 0 v f args = throw .exhausted
  next : ∀ {L K H} n v v' {f f'} args args', Corresponds S finished L K H → Value.Linked L f f' →
    left (n + 1) v f args K = v.invoke (left n) f args K ∧
      right (n + 1) v' f' args' H = v'.invoke (right n) f' args' H

/-- calls up to any depth agree, if those of `emit` do -/
theorem Layered.agrees {left right : Nat → Caller} (h : Layered S left right)
    (hemit : ∀ depth, Caller.Emits S (left depth) (right depth)) (depth : Nat) :
    Caller.Agrees S (left depth) (right depth) := by
  induction depth with
  | zero =>
    intro L v v' f f' args args' _ _ _ K H _ _
    rw [(h.bottom v f args).1, (h.bottom v' f' args').2]
    exact Ends.error _
  | succ depth ih =>
    intro L v v' f f' args args' hv hf hargs K H hc hnone
    obtain ⟨hleft, hright⟩ := h.next depth v v' args args' hc hf
    rw [hleft, hright]
    exact ends_invoke ih (hemit depth) hv hf hargs hc hnone

end ViewDesign.Script
