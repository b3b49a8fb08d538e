import ViewDesign.Proofs.Decimal.Digits
import ViewDesign.Proofs.Evaluation.Writing

/-!
# The loop over the documents

* `loopTest`, `loopBody`, `loopStep`    the parts of the loop;
* `loop_run`                            the loop calls the function on one document after the
                                        other, by induction on those that are left.
-/

namespace ViewDesign.Evaluation

open Script

/-! ## The parts of the loop -/

/-- There is a document with this number. -/
def loopTest : Expr :=
  .binary .less (.name "__index") (.member (.name "__docs") (.text "length"))

/-- The call on the document with this number. -/
def loopBody : Stmt :=
  .block [.expression (.call (.name "__map") [.member (.name "__docs") (.name "__index")])]

/-- The next number. -/
def loopStep : Expr := .count (.name "__index") true false

section
variable {m : Mapper} {p : Places} {vs items : Array Value} {i : Nat} {K : Heap}

theorem ofInt_nat {n : Nat} (h : n ≤ Number.greatestExact) : Number.ofInt n = .int n := by
  rw [Number.ofInt, if_pos (by simpa using h)]

theorem find?_variable (h : Ready m p vs K i items) {x : String} {v : Value}
    (hx : Entries.get? x (p.globals i).members = some v) :
    Scope.find? K x [Scope.globals] = some (Scope.globals, v) :=
  find?_hit _ h.globals hx

theorem test_run (h : Ready m p vs K i items) (hn : vs.size ≤ Number.greatestExact)
    (call : Caller) :
    (do return (← loopTest.eval call [Scope.globals]).truth : Run Bool) K =
      .ok (decide (i < vs.size), K) := by
  have hindex : (Expr.name "__index").eval call [Scope.globals] K = .ok (.number (.int i), K) :=
    eval_name (find?_variable h (by simp [Places.globals, Entries.get?]))
  have hdocs : (Expr.name "__docs").eval call [Scope.globals] K = .ok (.object p.docs, K) :=
    eval_name (find?_variable h (by simp [Places.globals, Entries.get?]))
  have hlength : (Expr.member (.name "__docs") (.text "length")).eval call [Scope.globals] K =
      .ok (.number (.int vs.size), K) := by
    rw [eval_member hdocs (eval_text _) rfl]
    refine getMember_own h.docs ?_
    simp [Object.own?, Value.toText, ofInt_nat hn]
  have htest : loopTest.eval call [Scope.globals] K = .ok (.bool (decide (i < vs.size)), K) := by
    rw [loopTest, eval_binary hindex hlength]
    have hlt : Number.lt (.int i) (.int vs.size) = decide (i < vs.size) := by
      simp [Number.lt]
    rw [← hlt]
    rfl
  rw [Run.bind_ok htest]
  rfl

theorem step_run (h : Ready m p vs K i items) (hi : i < Number.greatestExact) (call : Caller) :
    loopStep.eval call [Scope.globals] K =
      .ok (.number (.int i), K.setIfInBounds Scope.globals (p.globals (i + 1))) := by
  have hfind := find?_variable h (x := "__index") (v := .number (.int i))
    (by simp [Places.globals, Entries.get?])
  have hadd : Number.add (.int i) (.int 1) = .int (i + 1 : Nat) := by
    show Number.ofInt ((i : Int) + 1) = _
    exact ofInt_nat (n := i + 1) (by omega)
  have hwrite := write_found (w := .number (.int (i + 1 : Nat))) hfind h.globals
  simp only [loopStep, Expr.eval, Target.place, pure_bind, Place.read, Place.write]
  rw [Run.bind_ok (read_found hfind), Run.bind_ok (numeric_run rfl call)]
  simp only [Value.toNumber, if_true, hadd]
  have hinsert : Entries.put "__index" (.number (.int (i + 1 : Nat))) (p.globals i).members =
      (p.globals (i + 1)).members := by
    simp only [Places.globals, Entries.put_later (show "__index" ≠ "__docs" by decide),
      Entries.put_later (show "__index" ≠ "__emitted" by decide), Entries.put_same]
  rw [Run.bind_ok hwrite, hinsert]
  rfl

/-- the body is the call on the document -/
theorem body_run (h : Ready m p vs K i items) {v : Value} (hv : vs[i]? = some v) :
    loopBody.exec (apply maxDepth) [Scope.globals] K =
      (do return .normal (← m.closure.enter (apply (maxDepth - 1)) [v]) : Run Completion) K := by
  have hmap : (Expr.name "__map").eval (apply maxDepth) [Scope.globals] K =
      .ok (.object p.map, K) :=
    eval_name (find?_variable h (by simp [Places.globals, Entries.get?]))
  have hdocs : (Expr.name "__docs").eval (apply maxDepth) [Scope.globals] K =
      .ok (.object p.docs, K) :=
    eval_name (find?_variable h (by simp [Places.globals, Entries.get?]))
  have hindex : (Expr.name "__index").eval (apply maxDepth) [Scope.globals] K =
      .ok (.number (.int i), K) :=
    eval_name (find?_variable h (by simp [Places.globals, Entries.get?]))
  have hlt : i < vs.size := (Array.getElem?_eq_some_iff.1 hv).1
  have hdoc : (Expr.member (.name "__docs") (.name "__index")).eval (apply maxDepth)
      [Scope.globals] K = .ok (v, K) := by
    rw [eval_member hdocs hindex rfl]
    have helement := getMember_element h.docs rfl hlt
    rw [(Array.getElem?_eq_some_iff.1 hv).2] at helement
    exact helement
  have hcall := eval_callName hmap (evalAll_cons hdoc evalAll_nil)
  have happly : apply maxDepth .undefined (.object p.map) [v] K =
      m.closure.enter (apply (maxDepth - 1)) [v] K := by
    show apply (511 + 1) .undefined (.object p.map) [v] K = m.closure.enter (apply 511) [v] K
    rw [apply, Value.invoke, Run.bind_ok (load_run h.map)]
    rfl
  simp only [loopBody, Stmt.exec, Stmt.execAll]
  cases hr : m.closure.enter (apply (maxDepth - 1)) [v] K with
  | error e => rw [Run.bind_error hr, Run.bind_error (hcall.trans (happly.trans hr))]
  | ok q =>
    obtain ⟨r, K'⟩ := q
    rw [Run.bind_ok hr, Run.bind_ok (hcall.trans (happly.trans hr))]

end

/-! ## The loop -/

/-- The loop over the documents. -/
def loop (rounds : Nat) : Run Completion :=
  repeatWhile (do return (← loopTest.eval (apply maxDepth) [Scope.globals]).truth)
    (loopBody.exec (apply maxDepth) [Scope.globals])
    (do let _ ← loopStep.eval (apply maxDepth) [Scope.globals]) rounds

section
variable {m : Mapper} {p : Places} {vs items : Array Value} {hi lo i : Nat} {K : Heap}
  {ws : List Wait} {ds : List Json}

theorem loop_end (h : Ready m p vs K i items) (hn : vs.size ≤ Number.greatestExact)
    (hle : vs.size ≤ i) (rounds : Nat) : loop (rounds + 1) K = .ok (.normal .undefined, K) := by
  have htest := test_run h hn (apply maxDepth)
  rw [decide_eq_false (by omega)] at htest
  rw [loop, repeatWhile, Run.bind_ok htest]
  rfl

theorem loop_next (h : Ready m p vs K i items) (hn : vs.size ≤ Number.greatestExact)
    {v : Value} (hv : vs[i]? = some v) (rounds : Nat) :
    loop (rounds + 1) K = (do
      let _ ← m.closure.enter (apply (maxDepth - 1)) [v]
      let _ ← loopStep.eval (apply maxDepth) [Scope.globals]
      loop rounds : Run Completion) K := by
  have hlt : i < vs.size := (Array.getElem?_eq_some_iff.1 hv).1
  have htest := test_run h hn (apply maxDepth)
  rw [decide_eq_true hlt] at htest
  rw [loop, repeatWhile, Run.bind_ok htest]
  have hbody := body_run h hv
  simp only [if_true]
  cases hr : m.closure.enter (apply (maxDepth - 1)) [v] K with
  | error e =>
    rw [Run.bind_error hr] at hbody
    rw [Run.bind_error hr, Run.bind_error hbody]
  | ok q =>
    obtain ⟨r, K'⟩ := q
    rw [Run.bind_ok hr] at hbody
    rw [Run.bind_ok hr, Run.bind_ok hbody]
    simp only [bind_assoc, pure_bind]
    rfl

/-- the whole loop, by induction on the documents that are left -/
theorem loop_run (hm : Stmt.allClosed (Stmt.localNames m.parameters m.body) m.body = true)
    (hn : vs.size < Number.greatestExact) (h : State m p vs hi K i ws lo ds)
    {outs : List (Option (List Emitted))} (hyields : List.Forall₂ m.Yields ds outs) (rounds : Nat)
    (hrounds : ds.length < rounds) :
    (outs.mapM id = none ∧ ∃ e, loop rounds K = .error e) ∨
    ∃ K' ws' lo', loop rounds K = .ok (.normal .undefined, K') ∧
      State m p vs hi K' (i + ds.length) (ws ++ ws') lo' [] ∧ Waits i outs ws' := by
  obtain ⟨rounds, rfl⟩ : ∃ n, rounds = n + 1 := ⟨rounds - 1, by omega⟩
  have hlength := h.loaded.length_eq
  rw [List.length_drop, Array.length_toList] at hlength
  -- on the documents to come: each call takes the state of one round to that of the next
  induction hyields generalizing K i ws lo rounds with
  | nil =>
    have hle : vs.size ≤ i := by simpa [Nat.sub_eq_zero_iff_le] using hlength
    refine Or.inr ⟨K, [], lo, loop_end h.ready (by omega) hle rounds, ?_, trivial⟩
    rw [List.append_nil]
    exact h
  | cons hfirst _ ih =>
    rename_i d out ds outs _
    rw [List.length_cons] at hlength hrounds
    have hlt : i < vs.toList.length := by
      rw [Array.length_toList]
      omega
    have hlt' : i < vs.size := hlt
    have hloaded := h.loaded
    rw [List.drop_eq_getElem_cons hlt] at hloaded
    obtain ⟨mid, hmid, hv, hrest⟩ := hloaded
    have hget : vs[i]? = some vs.toList[i] := by simp [hlt']
    rw [loop_next h.ready (by omega) hget, List.mapM_cons]
    obtain ⟨rfl, e, he⟩ | ⟨fault, r, K', H, H', M, ps, hrun, hc, ht, hH', hof⟩ :=
      call_yields hm h hv hmid hrest.le hfirst
    · exact Or.inl ⟨rfl, e, Run.bind_error he⟩
    · have hstep := step_run (ready_afterCall ht) (by omega) (apply maxDepth)
      have hstate := State.afterCall hc ht hmid hH' hrest
      obtain ⟨rounds, rfl⟩ : ∃ n, rounds = n + 1 := ⟨rounds - 1, by omega⟩
      rw [Run.bind_ok hrun, Run.bind_ok hstep]
      obtain ⟨hnone, e, he⟩ | ⟨K2, ws', lo', hloop, hend, hwaits⟩ :=
        ih hstate rounds (by omega) (by omega)
      · refine Or.inl ⟨?_, e, he⟩
        rw [hnone]
        cases out <;> rfl
      · refine Or.inr ⟨K2, _ :: ws', lo', hloop, ?_, ⟨rfl, fault, hof⟩, hwaits⟩
        rw [List.append_assoc, List.singleton_append] at hend
        rw [List.length_cons, Nat.add_comm ds.length 1, ← Nat.add_assoc]
        exact hend

end

end ViewDesign.Evaluation
