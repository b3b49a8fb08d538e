import ViewDesign.Evaluation
import ViewDesign.Proofs.Script.Quiet

/-!
# What a call of `emit` does

The script declares `emit` and keeps what it emits in an array.  A call makes a frame for its two
parameters and a record, and appends the record to the array; nothing else changes.  This holds as
long as `push` does for arrays what it did at the start, and that can be checked.

* `Heap.appends`    `push` does what it did at the start;
* `Faithful`        callers that carry out what they are asked to;
* `watched`         callers that fail when `emit` is called and `push` does not;
* `emitBody`        the body of `emit`;
* `Site`            the global variables that `emit` reads;
* `Channel`         a heap in which `emit` works;
* `emit_run`        a call of `emit`;
* `emit_short`      a call of `emit` so deep that it cannot append.
-/

namespace ViewDesign.Script

/-! ## Appending -/

/-- The function that arrays have as `push`. -/
def Heap.appender? (K : Heap) : Option Nat :=
  match (K[Realm.arrayPrototype]?.getD {}).own? "push" with
  | some (.value (.object a)) => some a
  | _ => none

/-- Whether this function appends, as it does at the start. -/
def Heap.appends (K : Heap) : Bool :=
  match K.appender? with
  | some a =>
    match (K[a]?.getD {}).kind with
    | .native .push => true
    | _ => false
  | none => false

/-- The function that appends. -/
structure Appends (K : Heap) (a : Nat) : Prop where
  array : ∃ o, K[Realm.arrayPrototype]? = some o ∧ o.own? "push" = some (.value (.object a))
  push : ∃ o, K[a]? = some o ∧ o.kind = .native .push

section
variable {K K' : Heap}

theorem appender?_iff {a : Nat} : K.appender? = some a ↔
    ∃ o, K[Realm.arrayPrototype]? = some o ∧ o.own? "push" = some (.value (.object a)) := by
  unfold Heap.appender?
  cases K[Realm.arrayPrototype]? with
  | none =>
    constructor
    · rintro ⟨⟩
    · rintro ⟨_, ⟨⟩, _⟩
  | some o =>
    rw [Option.getD_some]
    constructor
    · intro h
      refine ⟨o, rfl, ?_⟩
      split at h
      · rename_i hown
        cases h
        exact hown
      · cases h
    · rintro ⟨_, ⟨⟩, hown⟩
      rw [hown]

theorem appends_iff : K.appends = true ↔ ∃ a, Appends K a := by
  unfold Heap.appends
  constructor
  · intro h
    cases happender : K.appender? with
    | none =>
      rw [happender] at h
      cases h
    | some a =>
      rw [happender] at h
      refine ⟨a, appender?_iff.mp happender, ?_⟩
      cases hobject : K[a]? with
      | none =>
        simp only [hobject] at h
        cases h
      | some p =>
        simp only [hobject, Option.getD_some] at h
        refine ⟨p, rfl, ?_⟩
        split at h
        · assumption
        · cases h
  · rintro ⟨a, harray, p, hp, hkind⟩
    simp only [appender?_iff.mpr harray, hp, Option.getD_some, hkind]

theorem Appends.extends {a : Nat} (h : Appends K a) (hext : Heap.Extends K K') : Appends K' a := by
  obtain ⟨⟨o, ho, hown⟩, p, hp, hkind⟩ := h
  exact ⟨⟨o, hext.get ho, hown⟩, p, hext.get hp, hkind⟩

/-- at the start arrays append -/
theorem Untouched.appends (h : Untouched K) : K.appends = true := by
  have happends : Realm.heap.appends = true := by decide +kernel
  obtain ⟨a, ⟨o, ho, hown⟩, p, hp, hkind⟩ := appends_iff.mp happends
  have hpos : 0 < a := by
    refine Nat.pos_of_ne_zero ?_
    rintro rfl
    have hglobals : Realm.heap[0]? = some ({} : Object) := by
      rw [Realm.heap, Realm.heapWith]
      exact List.getElem?_toArray
    rw [hglobals] at hp
    cases hp
    cases hkind
  exact appends_iff.mpr ⟨a, ⟨o, h.get ho (by decide), hown⟩, p, h.get hp hpos, hkind⟩

/-- `push` is found through what arrays inherit from -/
theorem Appends.getMember {a e : Nat} (h : Appends K a) {items : Array Value}
    (he : K[e]? = some { kind := .array items }) :
    (Value.object e).getMember "push" K = .ok (.object a, K) := by
  obtain ⟨o, ho, hown⟩ := h.array
  have hmissing : ({ kind := .array items } : Object).own? "push" = none := by
    have hnatural : Decimal.natural? 10 "push".toList = none := by decide
    have helement : Object.element? items "push" = none := by
      rw [Object.element?, hnatural]
      rfl
    simp [Object.own?, helement, Object.kept?, Entries.get?]
  have hfind : Run.find "push" e K = .ok (some (.value (.object a)), K) := by
    rw [find_run, maxNesting_succ, find_parent _ he hmissing rfl]
    exact congrArg (Except.map fun s => (s, K)) (find_own _ ho hown)
  simp only [Value.getMember]
  rw [Run.bind_ok hfind]
  rfl

end

/-- Callers for each depth that carry out what they are asked to.  Of calls of one function this is
asked only as long as arrays append. -/
structure Faithful (emitter : Nat) (calls : Nat → Caller) : Prop where
  bottom : ∀ v f args, calls 0 v f args = throw .exhausted
  next : ∀ {K f} n v args, (f = .object emitter → K.appends = true) →
    calls (n + 1) v f args K = v.invoke (calls n) f args K

theorem faithful_apply (emitter : Nat) : Faithful emitter apply :=
  ⟨fun _ _ _ => rfl, fun _ _ _ _ => rfl⟩

/-- Whether a value is the object at an address. -/
def Value.isAt (emitter : Nat) : Value → Bool
  | .object a => a == emitter
  | _ => false

/-- Calls as they are carried out, but those of one function fail unless arrays append. -/
def watched (emitter : Nat) (fault : Fault) : Nat → Caller
  | 0, _, _, _ => throw .exhausted
  | depth + 1, receiver, f, args => do
    let heap ← get
    if f.isAt emitter && !heap.appends then throw fault
    else receiver.invoke (watched emitter fault depth) f args

section
variable (emitter : Nat) (fault : Fault)

theorem watched_succ (depth : Nat) (receiver f : Value) (args : List Value) (K : Heap) :
    watched emitter fault (depth + 1) receiver f args K =
      if f.isAt emitter && !K.appends then .error fault
      else receiver.invoke (watched emitter fault depth) f args K := by
  have hget : (get : Run Heap) K = .ok (K, K) := rfl
  rw [watched, Run.bind_ok hget]
  split <;> rfl

theorem faithful_watched : Faithful emitter (watched emitter fault) where
  bottom _ _ _ := rfl
  next {K f} n v args h := by
    rw [watched_succ, if_neg]
    rw [Bool.and_eq_true, Bool.not_eq_true', not_and, Bool.not_eq_false]
    intro hf
    refine h ?_
    cases f with
    | object a => rw [beq_iff_eq.mp hf]
    | _ => cases hf

theorem watched_spoiled {K : Heap} (h : K.appends = false) (depth : Nat) (receiver : Value)
    (args : List Value) :
    watched emitter fault (depth + 1) receiver (.object emitter) args K = .error fault := by
  rw [watched_succ, if_pos (by simp [Value.isAt, h])]

end

end ViewDesign.Script

namespace ViewDesign.Evaluation

open Script

/-! ## The function -/

/-- A parameter of `emit`, with null in place of undefined. -/
def orNull (x : String) : Expr :=
  .choice (.binary .same (.name x) (.name "undefined")) .null (.name x)

/-- The record that `emit` appends. -/
def recordExpr : Expr :=
  .object [("index", .name "__index"), ("key", orNull "key"), ("value", orNull "value")]

/-- The body of `emit`. -/
def emitBody : List Stmt :=
  [.expression (.call (.member (.name "__emitted") (.text "push")) [recordExpr])]

/-- The parameters of `emit`. -/
def emitParameters : List String := ["key", "value"]

/-- The function `emit`, closed over the global variables. -/
def emitClosure : Closure := ⟨emitParameters, emitBody, [Scope.globals]⟩

/-- The global variables of a script: the function `emit`, the array it appends to, and the number
of the document. -/
structure Site where
  globals : Object
  emitter : Nat
  emitted : Nat
  index : Value
  emit : Entries.get? "emit" globals.members = some (.object emitter)
  array : Entries.get? "__emitted" globals.members = some (.object emitted)
  number : Entries.get? "__index" globals.members = some index
  constant : ∀ x, (Scope.constant? x).isSome = true → Entries.get? x globals.members = none
  apart : emitted ≠ emitter
  later : Realm.size ≤ emitter ∧ Realm.size ≤ emitted

theorem Site.emitted_ne (S : Site) : S.emitted ≠ Scope.globals ∧ S.emitter ≠ Scope.globals := by
  have hpos := Realm.size_pos
  have hglobals : Scope.globals = 0 := rfl
  have hlater := S.later
  omega

/-- A heap in which `emit` works. -/
structure Channel (S : Site) (K : Heap) (items : Array Value) : Prop where
  globals : K[Scope.globals]? = some S.globals
  emitter : K[S.emitter]? = some (.ofClosure "emit" emitClosure)
  emitted : K[S.emitted]? = some { kind := .array items }

theorem Channel.extends {S : Site} {K K' : Heap} {items : Array Value} (h : Channel S K items)
    (hext : Heap.Extends K K') : Channel S K' items :=
  ⟨hext.get h.globals, hext.get h.emitter, hext.get h.emitted⟩

theorem Channel.push {S : Site} {K : Heap} {items : Array Value} (h : Channel S K items)
    (o : Object) : Channel S (K.push o) items :=
  h.extends (.push K o)

/-! ## A call -/

/-- The value that is recorded for an argument. -/
def recorded (v : Value) : Value := if v.same .undefined then .null else v

/-- An argument, undefined if there is none. -/
def argument (args : List Value) (i : Nat) : Value := args.getD i .undefined

/-- The frame of a call of `emit`. -/
def emitFrame (args : List Value) : Object :=
  { members := [("key", argument args 0), ("value", argument args 1)] }

/-- A record. -/
def record (index key value : Value) : Object :=
  { members := [("index", index), ("key", key), ("value", value)] }

/-- The record of a call of `emit`. -/
def emitRecord (index : Value) (args : List Value) : Object :=
  record index (recorded (argument args 0)) (recorded (argument args 1))

/-- The heap after a call of `emit`. -/
def afterEmit (S : Site) (K : Heap) (items : Array Value) (args : List Value) : Heap :=
  ((K.push (emitFrame args)).push (emitRecord S.index args)).setIfInBounds S.emitted
    { kind := .array (items.push (.object (K.size + 1))) }

theorem bindArguments_emit (args : List Value) :
    Entries.made (bindArguments emitParameters args) = (emitFrame args).members := by
  have hbind : bindArguments emitParameters args =
      [("key", argument args 0), ("value", argument args 1)] := by
    match args with
    | [] => rfl
    | [_] => rfl
    | _ :: _ :: _ => rfl
  have hnames : ((emitFrame args).members.map Prod.fst).Nodup :=
    show ["key", "value"].Nodup by decide
  rw [hbind]
  exact Entries.made_of_nodup hnames

section
variable {S : Site} {K : Heap} {items : Array Value}

/-- one of the two parameters, with null in place of undefined -/
theorem eval_orNull (hc : Channel S K items) (call : Caller)
    (args : List Value) {x : String} {v : Value}
    (hx : Entries.get? x (emitFrame args).members = some v) :
    (orNull x).eval call [K.size, Scope.globals] (K.push (emitFrame args)) =
      .ok (recorded v, K.push (emitFrame args)) := by
  have hframe : (K.push (emitFrame args))[K.size]? = some (emitFrame args) := by simp
  have hglobals := (hc.push (emitFrame args)).globals
  have hname : (Expr.name x).eval call [K.size, Scope.globals] (K.push (emitFrame args)) =
      .ok (v, K.push (emitFrame args)) := eval_name (find?_hit _ hframe hx)
  have hundefined : (Expr.name "undefined").eval call [K.size, Scope.globals]
      (K.push (emitFrame args)) = .ok (.undefined, K.push (emitFrame args)) := by
    simp only [Expr.eval]
    refine read_builtin ?_ (by simp [Scope.builtin?, Scope.constant?])
    have hconstant := S.constant "undefined" (by simp [Scope.constant?])
    rw [find?_miss _ hframe (by simp [emitFrame, Entries.get?]), find?_miss _ hglobals hconstant]
    rfl
  have htest : (Expr.binary .same (.name x) (.name "undefined")).eval call
      [K.size, Scope.globals] (K.push (emitFrame args)) =
      .ok (.bool (v.same .undefined), K.push (emitFrame args)) := eval_binary hname hundefined
  unfold orNull recorded
  by_cases hsame : v.same .undefined = true
  · rw [eval_choice_true htest hsame, if_pos hsame]
    exact eval_null
  · rw [eval_choice_false htest (by simpa [Value.truth] using hsame), if_neg hsame]
    exact hname

theorem ofLiteral_record (index key value : Value) :
    Object.ofLiteral [("index", index), ("key", key), ("value", value)] =
      record index key value := by
  have hancestor : ancestorIn [("index", index), ("key", key), ("value", value)] = none := by
    simp [ancestorIn, ancestorName, Entries.get?]
  have hfilter : [("index", index), ("key", key), ("value", value)].filter
      (fun e => e.1 ≠ ancestorName) = [("index", index), ("key", key), ("value", value)] := rfl
  have hnames : ([("index", index), ("key", key), ("value", value)].map Prod.fst).Nodup :=
    show ["index", "key", "value"].Nodup by decide
  rw [Object.ofLiteral, hancestor, hfilter, Entries.made_of_nodup hnames]
  rfl

theorem eval_record (hc : Channel S K items) (call : Caller)
    (args : List Value) :
    recordExpr.eval call [K.size, Scope.globals] (K.push (emitFrame args)) =
      .ok (.object (K.size + 1), (K.push (emitFrame args)).push (emitRecord S.index args)) := by
  have hframe : (K.push (emitFrame args))[K.size]? = some (emitFrame args) := by simp
  have hglobals := (hc.push (emitFrame args)).globals
  have hindex : (Expr.name "__index").eval call [K.size, Scope.globals]
      (K.push (emitFrame args)) = .ok (S.index, K.push (emitFrame args)) := by
    apply eval_name
    rw [find?_miss _ hframe (by simp [emitFrame, Entries.get?])]
    exact find?_hit _ hglobals S.number
  have hkey := eval_orNull hc call args (x := "key") (v := argument args 0)
    (by simp [emitFrame, Entries.get?])
  have hvalue := eval_orNull hc call args (x := "value") (v := argument args 1)
    (by simp [emitFrame, Entries.get?])
  have hmembers := evalMembers_cons (x := "index") (e := .name "__index") hindex
    (evalMembers_cons (x := "key") (e := orNull "key") hkey
      (evalMembers_cons (x := "value") (e := orNull "value") hvalue evalMembers_nil))
  rw [recordExpr, eval_object hmembers, ofLiteral_record, Array.size_push]
  rfl

/-- a call of `emit` up to the point where it appends the record -/
theorem enter_emit (hc : Channel S K items) {push : Nat} (hpush : Appends K push) (call : Caller)
    (args : List Value) :
    emitClosure.enter call args K = (do
      let _ ← call (.object S.emitted) (.object push) [.object (K.size + 1)]
      return .undefined : Run Value)
        ((K.push (emitFrame args)).push (emitRecord S.index args)) := by
  have hframe : (K.push (emitFrame args))[K.size]? = some (emitFrame args) := by simp
  have hglobals := (hc.push (emitFrame args)).globals
  have hemitted := (hc.push (emitFrame args)).emitted
  have harray : (Expr.name "__emitted").eval call [K.size, Scope.globals]
      (K.push (emitFrame args)) = .ok (.object S.emitted, K.push (emitFrame args)) := by
    apply eval_name
    rw [find?_miss _ hframe (by simp [emitFrame, Entries.get?])]
    exact find?_hit _ hglobals S.array
  have hmember := (hpush.extends (.push K (emitFrame args))).getMember hemitted
  have hcall := eval_callText harray hmember
    (evalAll_cons (eval_record hc call args) evalAll_nil)
  rw [Closure.enter]
  simp only [emitClosure]
  rw [bindArguments_emit, Run.bind_ok (allocate_run _)]
  have hprepare : prepare K.size [K.size, Scope.globals] emitBody
      (K.push { members := (emitFrame args).members }) = .ok ((), K.push (emitFrame args)) := rfl
  rw [Run.bind_ok hprepare]
  simp only [emitBody, Stmt.execAll, Stmt.exec, bind_assoc, pure_bind]
  cases hr : call (.object S.emitted) (.object push) [.object (K.size + 1)]
      ((K.push (emitFrame args)).push (emitRecord S.index args)) with
  | error x =>
    rw [Run.bind_error hr, Run.bind_error (hcall.trans hr)]
  | ok p =>
    obtain ⟨v, K'⟩ := p
    rw [Run.bind_ok hr, Run.bind_ok (hcall.trans hr)]

/-- a call of `emit`, with what it calls left to a caller -/
theorem invoke_emit (hc : Channel S K items) {push : Nat} (hpush : Appends K push) (call : Caller)
    (receiver : Value) (args : List Value) :
    receiver.invoke call (.object S.emitter) args K = (do
      let _ ← call (.object S.emitted) (.object push) [.object (K.size + 1)]
      return .undefined : Run Value)
        ((K.push (emitFrame args)).push (emitRecord S.index args)) := by
  rw [Value.invoke, Run.bind_ok (load_run hc.emitter)]
  exact enter_emit hc hpush call args

section
variable {calls : Nat → Caller} (hcalls : Faithful S.emitter calls) (hc : Channel S K items)
  (happends : K.appends = true)
include hcalls hc happends

theorem emit_run (n : Nat) (receiver : Value) (args : List Value) :
    calls (n + 2) receiver (.object S.emitter) args K =
      .ok (.undefined, afterEmit S K items args) := by
  obtain ⟨push, hpush⟩ := appends_iff.mp happends
  have hext := (Heap.Extends.push K (emitFrame args)).trans (.push _ (emitRecord S.index args))
  have hemitted := (hc.extends hext).emitted
  obtain ⟨o, ho, hkind⟩ := hpush.push
  -- the function that appends is not `emit`
  have hne : Value.object push ≠ .object S.emitter := by
    rintro ⟨⟩
    rw [hc.emitter] at ho
    cases ho
    cases hkind
  have happend : calls (n + 1) (.object S.emitted) (.object push) [.object (K.size + 1)]
      ((K.push (emitFrame args)).push (emitRecord S.index args)) =
      .ok (.number (.ofInt (items.push (.object (K.size + 1))).size),
        afterEmit S K items args) := by
    rw [hcalls.next _ _ _ (fun h => absurd h hne), Value.invoke,
      Run.bind_ok (load_run (hext.get ho)),
      hkind]
    simp only [Builtin.call, Value.push]
    rw [Run.bind_ok (load_run hemitted)]
    rfl
  rw [hcalls.next _ _ _ (fun _ => happends), invoke_emit hc hpush, Run.bind_ok happend]
  rfl

/-- a call of `emit` so deep that nothing can be called from it -/
theorem emit_short (receiver : Value) (args : List Value) :
    calls 1 receiver (.object S.emitter) args K = .error .exhausted := by
  obtain ⟨push, hpush⟩ := appends_iff.mp happends
  rw [hcalls.next _ _ _ (fun _ => happends), invoke_emit hc hpush, hcalls.bottom]
  rfl

end

/-! ## What stays -/

theorem size_afterEmit (S : Site) (K : Heap) (items : Array Value) (args : List Value) :
    (afterEmit S K items args).size = K.size + 2 := by
  simp [afterEmit]

theorem afterEmit_of_lt {a : Nat} (ha : a < K.size) (hne : a ≠ S.emitted) (args : List Value) :
    (afterEmit S K items args)[a]? = K[a]? := by
  rw [afterEmit, Array.getElem?_setIfInBounds, if_neg (fun h => hne h.symm)]
  exact ((Heap.Extends.push K _).trans (.push _ _)).same a ha

theorem afterEmit_record (h : S.emitted < K.size) (args : List Value) :
    (afterEmit S K items args)[K.size + 1]? = some (emitRecord S.index args) := by
  rw [afterEmit, Array.getElem?_setIfInBounds, if_neg (by omega), Array.getElem?_push,
    if_pos (by rw [Array.size_push])]

namespace Channel

theorem lt_size (hc : Channel S K items) :
    Scope.globals < K.size ∧ S.emitter < K.size ∧ S.emitted < K.size :=
  ⟨(Array.getElem?_eq_some_iff.1 hc.globals).1, (Array.getElem?_eq_some_iff.1 hc.emitter).1,
    (Array.getElem?_eq_some_iff.1 hc.emitted).1⟩

/-- the channel works on after a call -/
theorem afterEmit (hc : Channel S K items) (args : List Value) :
    Channel S (afterEmit S K items args) (items.push (.object (K.size + 1))) := by
  obtain ⟨h0, hf, he⟩ := hc.lt_size
  refine ⟨?_, ?_, ?_⟩
  · rw [afterEmit_of_lt h0 (fun h => S.emitted_ne.1 h.symm)]
    exact hc.globals
  · rw [afterEmit_of_lt hf (fun h => S.apart h.symm)]
    exact hc.emitter
  · rw [Evaluation.afterEmit, Array.getElem?_setIfInBounds, if_pos rfl, if_pos (by simp; omega)]

theorem set (hc : Channel S K items) {a : Nat}
    (ha : a ≠ Scope.globals ∧ a ≠ S.emitter ∧ a ≠ S.emitted) (o : Object) :
    Channel S (K.setIfInBounds a o) items := by
  refine ⟨?_, ?_, ?_⟩
  · rw [Array.getElem?_setIfInBounds, if_neg ha.1]
    exact hc.globals
  · rw [Array.getElem?_setIfInBounds, if_neg ha.2.1]
    exact hc.emitter
  · rw [Array.getElem?_setIfInBounds, if_neg ha.2.2]
    exact hc.emitted

end Channel

end

end ViewDesign.Evaluation
