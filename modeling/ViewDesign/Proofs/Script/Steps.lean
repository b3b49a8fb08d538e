import ViewDesign.Proofs.Script.Serializing

/-!
# Single steps of a run

What the simplest computations do on a heap of which only a few objects are known: each one says
what comes out, and that the heap stays as it is or how it changes.
-/

namespace ViewDesign.Script

section
variable {K : Heap}

/-! ## Objects -/

/-- there is always one more object to look through -/
theorem maxNesting_succ : maxNesting = 9007199254740989 + 4 := rfl

theorem getMember_own {a : Nat} {o : Object} {key : String} {v : Value} (h : K[a]? = some o)
    (hv : o.own? key = some (.value v)) : (Value.object a).getMember key K = .ok (v, K) := by
  have hfind : Run.find key a K = .ok (some (.value v), K) := by
    rw [find_run, maxNesting_succ, find_own _ h hv]
    rfl
  simp only [Value.getMember]
  rw [Run.bind_ok hfind]
  rfl

/-- a member that is not among those of an object and those it inherits is undefined -/
theorem getMember_missing {a : Nat} {o : Object} {key : String} (hK : Untouched K)
    (hkey : Unknown key) (h : K[a]? = some o) (hv : o.own? key = none)
    (hparent : o.parent = some Realm.arrayPrototype ∨ o.parent = some Realm.objectPrototype) :
    (Value.object a).getMember key K = .ok (.undefined, K) := by
  have hfind : Run.find key a K = .ok (none, K) := by
    rw [find_run, maxNesting_succ, hK.find_missing hkey h hv hparent]
    rfl
  simp only [Value.getMember]
  rw [Run.bind_ok hfind]
  rfl

theorem put_kind (o : Object) (key : String) (v : Value) : (o.put key v).kind = o.kind := by
  unfold Object.put
  split <;> rfl

theorem put_hidden {o : Object} (h : o.hidden = []) (key : String) (v : Value) :
    (o.put key v).hidden = [] := by
  unfold Object.put
  rw [h]
  rfl

theorem put_parent (o : Object) (key : String) (v : Value) : (o.put key v).parent = o.parent := by
  unfold Object.put
  split <;> rfl

theorem own?_of_plain {o : Object} (hkind : o.kind = .plain) (hhidden : o.hidden = [])
    (key : String) : o.own? key = (Entries.get? key o.members).map .value := by
  simp [Object.own?, Object.kept?, hkind, hhidden, Entries.get?]

/-- a member that is not known to what an object inherits from is written to the object itself -/
theorem setMember_plain {a : Nat} {o : Object} {key : String} (hK : Untouched K)
    (hkey : Unknown key) (h : K[a]? = some o) (hkind : o.kind = .plain) (hhidden : o.hidden = [])
    (hparent : o.parent = some Realm.objectPrototype) (new : Value) :
    (Value.object a).setMember key new K = .ok ((), K.setIfInBounds a (o.put key new)) := by
  have hown := own?_of_plain hkind hhidden key
  obtain ⟨found, hfind, hplain⟩ : ∃ found, Run.find key a K = .ok (found, K) ∧
      ∀ slot, found = some slot → ∃ v, slot = .value v := by
    cases hget : Entries.get? key o.members with
    | some w =>
      rw [hget] at hown
      refine ⟨some (.value w), ?_, by rintro _ ⟨⟩; exact ⟨w, rfl⟩⟩
      rw [find_run, maxNesting_succ, find_own _ h hown]
      rfl
    | none =>
      rw [hget] at hown
      refine ⟨none, ?_, by rintro _ ⟨⟩⟩
      rw [find_run, maxNesting_succ, hK.find_missing hkey h hown (Or.inr hparent)]
      rfl
  simp only [Value.setMember]
  rw [Run.bind_ok (load_run h), hkind]
  simp only [Value.setKept]
  rw [Run.bind_ok hfind]
  cases found with
  | none => exact Run.bind_ok (load_run h)
  | some slot =>
    obtain ⟨v, rfl⟩ := hplain slot rfl
    exact Run.bind_ok (load_run h)

/-! ## Variables -/

theorem find?_hit {a : Nat} {o : Object} {x : String} {v : Value} (s : Scope) (h : K[a]? = some o)
    (hv : Entries.get? x o.members = some v) : Scope.find? K x (a :: s) = some (a, v) := by
  rw [Scope.find?, h, Option.bind_some, hv]

theorem find?_miss {a : Nat} {o : Object} {x : String} (s : Scope) (h : K[a]? = some o)
    (hv : Entries.get? x o.members = none) :
    Scope.find? K x (a :: s) = Scope.find? K x s := by
  rw [Scope.find?, h, Option.bind_some, hv]

theorem read?_run (s : Scope) (x : String) :
    s.read? x K = .ok (((s.find? K x).map Prod.snd).or (Scope.builtin? x), K) := rfl

theorem read_found {s : Scope} {x : String} {a : Nat} {v : Value}
    (h : s.find? K x = some (a, v)) : s.read x K = .ok (v, K) := by
  rw [Scope.read, Run.bind_ok (read?_run s x), h]
  rfl

theorem read_builtin {s : Scope} {x : String} {v : Value} (h : s.find? K x = none)
    (hv : Scope.builtin? x = some v) : s.read x K = .ok (v, K) := by
  rw [Scope.read, Run.bind_ok (read?_run s x), h, hv]
  rfl

theorem setOwn_run {a : Nat} {o : Object} (h : K[a]? = some o) (x : String) (v : Value) :
    Run.setOwn a x v K =
      .ok ((), K.setIfInBounds a { o with members := Entries.put x v o.members }) := by
  rw [Run.setOwn, Run.bind_ok (load_run h)]
  rfl

theorem write_found {s : Scope} {x : String} {a : Nat} {v w : Value} {o : Object}
    (h : s.find? K x = some (a, v)) (ho : K[a]? = some o) :
    s.write x w K =
      .ok ((), K.setIfInBounds a { o with members := Entries.put x w o.members }) := by
  rw [Scope.write_of_find h]
  exact setOwn_run ho x w

/-! ## Conversions -/

theorem primitive_run {v : Value} (h : v.isPrimitive = true) (call : Caller) (textFirst : Bool) :
    v.primitive call textFirst = pure v := by
  rw [Value.primitive, if_pos h]

theorem textual_run {v : Value} (h : v.isPrimitive = true) (call : Caller) :
    v.textual call K = .ok (v.toText, K) := by
  rw [Value.textual, primitive_run h]
  rfl

theorem numeric_run {v : Value} (h : v.isPrimitive = true) (call : Caller) :
    v.numeric call K = .ok (v.toNumber, K) := by
  rw [Value.numeric, primitive_run h]
  rfl

/-! ## Expressions -/

section
variable {K1 K2 : Heap} {call : Caller} {s : Scope}

theorem eval_name {x : String} {a : Nat} {v : Value} (h : s.find? K x = some (a, v)) :
    (Expr.name x).eval call s K = .ok (v, K) := by
  simp only [Expr.eval]
  exact read_found h

theorem eval_text (t : String) : (Expr.text t).eval call s K = .ok (.text t, K) := by
  simp only [Expr.eval]
  rfl

theorem eval_number (n : Number) : (Expr.number n).eval call s K = .ok (.number n, K) := by
  simp only [Expr.eval]
  rfl

theorem eval_null : Expr.null.eval call s K = .ok (.null, K) := by
  simp only [Expr.eval]
  rfl

/-- a member whose name is computed from a primitive value -/
theorem eval_member {o k : Expr} {v w : Value} (ho : o.eval call s K = .ok (v, K1))
    (hk : k.eval call s K1 = .ok (w, K2)) (hw : w.isPrimitive = true) :
    (Expr.member o k).eval call s K = v.getMember w.toText K2 := by
  simp only [Expr.eval]
  rw [Run.bind_ok ho, Run.bind_ok hk, Run.bind_ok (textual_run hw call)]

/-- an assignment to a member by name -/
theorem eval_assignText {o e : Expr} {m : String} {v new : Value} {K3 : Heap}
    (ho : o.eval call s K = .ok (v, K1))
    (he : e.named s none (e.eval call s) K1 = .ok (new, K2))
    (hset : v.setMember m new K2 = .ok ((), K3)) :
    (Expr.assign (.member o (.text m)) e).eval call s K = .ok (new, K3) := by
  simp only [Expr.eval, Target.place, Target.name?, bind_assoc, pure_bind]
  rw [Run.bind_ok ho, Run.bind_ok (textual_run rfl call)]
  simp only [Value.toText]
  rw [Run.bind_ok he, Place.write, Run.bind_ok hset]
  rfl

theorem eval_binary {op : BinaryOp} {l r : Expr} {v w : Value} (hl : l.eval call s K = .ok (v, K1))
    (hr : r.eval call s K1 = .ok (w, K2)) :
    (Expr.binary op l r).eval call s K = op.apply call v w K2 := by
  simp only [Expr.eval]
  rw [Run.bind_ok hl, Run.bind_ok hr]

theorem eval_and_true {l r : Expr} {v : Value} (hl : l.eval call s K = .ok (v, K1))
    (hv : v.truth = true) : (Expr.and l r).eval call s K = r.eval call s K1 := by
  simp only [Expr.eval]
  rw [Run.bind_ok hl, if_pos hv]

theorem eval_and_false {l r : Expr} {v : Value} (hl : l.eval call s K = .ok (v, K1))
    (hv : v.truth = false) : (Expr.and l r).eval call s K = .ok (v, K1) := by
  simp only [Expr.eval]
  rw [Run.bind_ok hl, if_neg (by simp [hv])]
  rfl

theorem eval_choice_true {t y n : Expr} {v : Value} (ht : t.eval call s K = .ok (v, K1))
    (hv : v.truth = true) : (Expr.choice t y n).eval call s K = y.eval call s K1 := by
  simp only [Expr.eval]
  rw [Run.bind_ok ht, if_pos hv]

theorem eval_choice_false {t y n : Expr} {v : Value} (ht : t.eval call s K = .ok (v, K1))
    (hv : v.truth = false) : (Expr.choice t y n).eval call s K = n.eval call s K1 := by
  simp only [Expr.eval]
  rw [Run.bind_ok ht, if_neg (by simp [hv])]

theorem evalAll_nil : Expr.evalAll call s [] K = .ok ([], K) := by
  simp only [Expr.evalAll]
  rfl

theorem evalAll_cons {e : Expr} {es : List Expr} {v : Value} {vs : List Value}
    (he : e.eval call s K = .ok (v, K1)) (hes : Expr.evalAll call s es K1 = .ok (vs, K2)) :
    Expr.evalAll call s (e :: es) K = .ok (v :: vs, K2) := by
  simp only [Expr.evalAll]
  rw [Run.bind_ok he, Run.bind_ok hes]
  rfl

theorem evalMembers_nil : Expr.evalMembers call s [] K = .ok ([], K) := by
  simp only [Expr.evalMembers]
  rfl

theorem evalMembers_cons {x : String} {e : Expr} {ms : List (String × Expr)} {v : Value}
    {es : List (String × Value)} (he : e.named s (memberName? x) (e.eval call s) K = .ok (v, K1))
    (hms : Expr.evalMembers call s ms K1 = .ok (es, K2)) :
    Expr.evalMembers call s ((x, e) :: ms) K = .ok ((x, v) :: es, K2) := by
  simp only [Expr.evalMembers]
  rw [Run.bind_ok he, Run.bind_ok hms]
  rfl

/-- an expression that is no function is not called by the name it is given -/
theorem named_of_not_function {e : Expr} (h : ∀ parameters body, e ≠ .function none parameters body)
    (name : Option String) (value : Run Value) : e.named s name value = value := by
  unfold Expr.named
  split
  · exact absurd rfl (h _ _)
  · rfl

theorem eval_object {ms : List (String × Expr)} {es : List (String × Value)}
    (h : Expr.evalMembers call s ms K = .ok (es, K1)) :
    (Expr.object ms).eval call s K = .ok (.object K1.size, K1.push (.ofLiteral es)) := by
  simp only [Expr.eval]
  rw [Run.bind_ok h]
  rfl

theorem eval_array {items : List Expr} {vs : List Value}
    (h : Expr.evalAll call s items K = .ok (vs, K1)) :
    (Expr.array items).eval call s K =
      .ok (.object K1.size, K1.push { kind := .array vs.toArray }) := by
  simp only [Expr.eval]
  rw [Run.bind_ok h]
  rfl

theorem eval_callName {x : String} {args : List Expr} {f : Value} {vs : List Value}
    (hf : (Expr.name x).eval call s K = .ok (f, K1))
    (hargs : Expr.evalAll call s args K1 = .ok (vs, K2)) :
    (Expr.call (.name x) args).eval call s K = call .undefined f vs K2 := by
  simp only [Expr.eval] at hf ⊢
  rw [Run.bind_ok hf, Run.bind_ok hargs]

theorem eval_callText {o : Expr} {m : String} {args : List Expr} {v f : Value} {vs : List Value}
    {K3 : Heap} (ho : o.eval call s K = .ok (v, K1)) (hf : v.getMember m K1 = .ok (f, K2))
    (hargs : Expr.evalAll call s args K2 = .ok (vs, K3)) :
    (Expr.call (.member o (.text m)) args).eval call s K = call v f vs K3 := by
  simp only [Expr.eval]
  have hm : (pure (.text m) : Run Value) K1 = .ok (.text m, K1) := rfl
  rw [Run.bind_ok ho, Run.bind_ok hm, Run.bind_ok (textual_run rfl call)]
  show (do let f ← v.getMember m; _ : Run Value) K1 = _
  rw [Run.bind_ok hf, Run.bind_ok hargs]

end

end

end ViewDesign.Script
