import ViewDesign.Proofs.Evaluation.Writing
import ViewDesign.Proofs.MapFunction.Template

/-!
# Expressions of a document on their own

The test, the key and the value of a generated function are expressions with one free name, `doc`.
If they assign and call nothing, none of them notices what was computed before it, so what the
function emits is settled by what each of them gives in a heap with nothing but the document.

* `onDocument`        the value of an expression on a document;
* `holdsOn`           whether it counts as true;
* `recordedOn`        the JSON value that is written for it once `emit` has recorded it;
* `Goes`              how a call goes, whoever carries it out;
* `goes_bodyOf`       how a call of a generated function goes.

Such a call makes new objects only, so it leaves the objects from the start as they were.
-/

namespace ViewDesign.Evaluation

open Script MapFunction.JavaScript

/-- The scope of a function of a document. -/
def documentScope (d : Json) : Run Scope := do
  let v ← Value.ofNode (Json.nodeIn Json.floatLayout d)
  let frame ← Run.allocate { members := [("doc", v)] }
  return [frame, Scope.globals]

/-- The value of an expression on a document and the heap it is in; `none` if it fails. -/
def onDocument (e : Expr) (d : Json) : Option (Value × Heap) :=
  ((documentScope d >>= e.eval (apply (maxDepth - 1))) Realm.heap).toOption

/-- Whether an expression counts as true on a document; `none` if it fails. -/
def holdsOn (e : Expr) (d : Json) : Option Bool := (onDocument e d).map fun r => r.1.truth

/-- The JSON value that is written for a value in a heap, as the member of a record that has this
name, if it has one. -/
def recordedIn (levels : Nat) (name : String) (r : Value × Heap) : Except Fault (Option Json) :=
  ((recorded r.1).serialize (apply (maxDepth - 1)) levels [] name r.2).map Prod.fst

/-- The JSON value that is written for an expression on a document; `none` if the expression fails
or its value cannot be written. -/
def recordedOn (levels : Nat) (name : String) (e : Expr) (d : Json) : Option (Option Json) :=
  (onDocument e d).bind fun r => (recordedIn levels name r).toOption

/-- An expression that assigns and calls nothing and has no free name but `doc` and the constants
`undefined`, `NaN` and `Infinity`. -/
structure Harmless (e : Expr) : Prop where
  closed : e.closed ["doc"] = true
  plain : e.plain = true

theorem pristine_heap : Pristine Realm.heap where
  size := Nat.le_of_eq (size_heapWith {}).symm
  untouched := untouched_heapWith {}
  constant x _ := by
    have hglobals : Realm.heap[Scope.globals]? = some ({} : Object) := by
      rw [Realm.heap, Realm.heapWith]
      exact List.getElem?_toArray
    rw [find?_miss _ hglobals rfl]
    rfl

/-! ## Two heaps that only grow -/

section
variable {L : Link} {K H : Heap}

/-- Two heaps have grown.  What is linked was linked before or is new. -/
structure Grown (L : Link) (K K' H' : Heap) (M : Link) : Prop where
  grows : Heap.Extends K K'
  left : Pristine K'
  right : Pristine H'
  mirrored : Mirrored true finished M K' H'
  linked : ∀ a b r, M a b r → L a b r ∨ K.size ≤ a

variable {hK : Pristine K} {hH : Pristine H} {α β : Type} {R : Link → α → β → Prop}
  {x : Except Fault (α × Heap)}

theorem quiet_error {f : Fault} (h : Ends (quiet hK hH L) L R x (.error f)) : x = .error f := by
  obtain ⟨_, hf, hx | hspoiled⟩ | ⟨a, K', b, H', M, -, hb, -⟩ := h.cases
  · cases hf
    exact hx
  · exact hspoiled.elim
  · cases hb

theorem quiet_ok {b : β} {H' : Heap} (h : Ends (quiet hK hH L) L R x (.ok (b, H'))) :
    ∃ a K' M, x = .ok (a, K') ∧ Grown L K K' H' M ∧ R M a b := by
  obtain ⟨_, hf, -⟩ | ⟨a, K', b, H', M, hx, hb, -, hc, hR⟩ := h.cases
  · cases hf
  · cases hb
    obtain ⟨hleft, hright, hnew⟩ := hc.rest
    exact ⟨a, K', M, hx, ⟨hleft, hK.grow hleft, hH.grow hright, hc.mirrored,
      fun a b r hl => (hnew a b r hl).imp_right And.left⟩, hR⟩

end

/-! ## Two heaps with the same document -/

/-- Two scopes in which `doc` is the same document. -/
structure Alike (L : Link) (s t : Scope) (K H : Heap) : Prop where
  mirrored : Mirrored true finished L K H
  left : Pristine K
  right : Pristine H
  scopes : Scope.Linked L ["doc"] s t

theorem Alike.extend {L : Link} {s t : Scope} {K K' H : Heap} (h : Alike L s t K H)
    (hext : Heap.Extends K K') : Alike L s t K' H where
  mirrored := h.mirrored.of_same (fun hp => hp)
    (fun hl => hext.same _ (h.mirrored.lt_size hl).1) (fun _ => rfl)
  left := h.left.grow hext
  right := h.right
  scopes := h.scopes

/-- plain code does not call `emit` -/
theorem emits_of_plain {S : Setting} (hplain : S.plain = true) (call call' : Caller) :
    Caller.Emits S call call' := by
  intro hp
  rw [hplain] at hp
  cases hp

/-- plain code spoils nothing, so calls are carried out throughout -/
theorem faithful_agrees {emitter : Nat} {calls : Nat → Caller} (h : Faithful emitter calls)
    {S : Setting} (hplain : S.plain = true) (depth : Nat) :
    Caller.Agrees S (calls depth) (apply depth) := by
  have hlayered : Layered S calls apply := by
    refine ⟨fun v f args => ⟨h.bottom v f args, rfl⟩, ?_⟩
    intro L K H n v v' f f' args args' hc _
    exact ⟨h.next n v args fun _ => (S.rest_native hplain hc.rest).1.appends, rfl⟩
  exact hlayered.agrees (fun n => emits_of_plain hplain (calls n) (apply n)) depth

section
variable {L : Link} {s t : Scope} {K H H' : Heap} {e : Expr} {calls : Nat → Caller} {depth : Nat}
  (hcalls : Faithful sole.emitter calls) (h : Alike L s t K H) (he : Harmless e)
include hcalls h he

/-- an expression that assigns and calls nothing ends alike in both heaps -/
theorem Alike.ends : Ends (quiet h.left h.right L) L Value.Linked (e.eval (calls depth) s K)
    (e.eval (apply depth) t H) :=
  agree_eval (faithful_agrees hcalls rfl depth) (emits_of_plain rfl _ _) h.scopes e
    he.closed (fun _ => he.plain) K H (corresponds_quiet h.mirrored h.left h.right)

theorem Alike.eval_error {f : Fault} (hf : e.eval (apply depth) t H = .error f) :
    e.eval (calls depth) s K = .error f :=
  quiet_error (hf ▸ h.ends hcalls he)

theorem Alike.eval_ok {w : Value} (hw : e.eval (apply depth) t H = .ok (w, H')) :
    ∃ v K' M, e.eval (calls depth) s K = .ok (v, K') ∧ Grown L K K' H' M ∧ Value.Linked M v w :=
  quiet_ok (hw ▸ h.ends hcalls he)

end

/-! ## What was recorded is written -/

section
variable {M : Link} {K H H' : Heap} {v w : Value} {calls : Nat → Caller} {depth levels : Nat}
  {name : String} (hcalls : Faithful sole.emitter calls) (hm : Mirrored true finished M K H)
  (hK : Pristine K) (hH : Pristine H) (hvw : Value.Linked M v w)
include hcalls hm hK hH hvw

/-- values that plain code has made are written alike -/
theorem serialize_ends : Ends (quiet hK hH M) M Same
    ((recorded v).serialize (calls depth) levels [] name K)
    ((recorded w).serialize (apply depth) levels [] name H) :=
  agree_serialize (faithful_agrees hcalls rfl depth) levels stacked_nil name (recorded_linked hvw)
    K H (corresponds_quiet hm hK hH)

theorem serialize_error {f : Fault}
    (hf : (recorded w).serialize (apply depth) levels [] name H = .error f) :
    (recorded v).serialize (calls depth) levels [] name K = .error f :=
  quiet_error (hf ▸ serialize_ends hcalls hm hK hH hvw)

theorem serialize_ok {r : Option Json}
    (hr : (recorded w).serialize (apply depth) levels [] name H = .ok (r, H')) :
    ∃ K', (recorded v).serialize (calls depth) levels [] name K = .ok (r, K') ∧
      Heap.Extends K K' := by
  obtain ⟨_, K', N, hrun, hgrown, rfl⟩ := quiet_ok (hr ▸ serialize_ends hcalls hm hK hH hvw)
  exact ⟨K', hrun, hgrown.grows⟩

end

/-! ## How a call goes -/

/-- The record at an address is written in the end, or it cannot be, and the objects from the start
are as they were. -/
def Written (levels : Nat) (call : Caller) (a : Nat) (K : Heap) : Except Fault Emitted → Prop
  | .error x => writeRecord levels call a K = .error x
  | .ok e => ∃ K', writeRecord levels call a K = .ok (e, K') ∧ Untouched K'

/-- How a call on a document goes, whoever carries out the calls in it, and what it emits.  It
leaves the objects from the start as they were. -/
inductive Goes (levels : Nat) (m : Mapper) (d : Json) : Option (List Emitted) → Prop where
  | fails (x : Fault) (h : ∀ calls, Faithful sole.emitter calls →
      m.call (calls (maxDepth - 1)) d soleHeap = .error x) : Goes levels m d none
  | passes (h : ∀ calls, Faithful sole.emitter calls → ∃ r K,
      m.call (calls (maxDepth - 1)) d soleHeap = .ok (r, K) ∧ Untouched K ∧
        K[sole.emitted]? = some { kind := .array #[] }) : Goes levels m d (some [])
  | writes (out : Except Fault Emitted) (h : ∀ calls, Faithful sole.emitter calls → ∃ r K a,
      m.call (calls (maxDepth - 1)) d soleHeap = .ok (r, K) ∧ Untouched K ∧
        K[sole.emitted]? = some { kind := .array #[.object a] } ∧
          Written levels (calls (maxDepth - 1)) a K out) :
      Goes levels m d (out.toOption.map fun e => [e])

section
variable {m : Mapper} {d : Json} {es : Option (List Emitted)}

theorem Goes.run {levels : Nat} (h : Goes levels m d es) {calls : Nat → Caller}
    (hcalls : Faithful sole.emitter calls) :
    ((m.run levels (calls (maxDepth - 1)) d) soleHeap).toOption.map Prod.fst = es := by
  cases h with
  | fails x h =>
    rw [Mapper.run, Run.bind_error (h calls hcalls)]
    rfl
  | passes h =>
    obtain ⟨r, K, hrun, -, hemitted⟩ := h calls hcalls
    rw [Mapper.run, Run.bind_ok hrun, Run.bind_ok (load_run hemitted)]
    rfl
  | writes out h =>
    obtain ⟨r, K, a, hrun, -, hemitted, hwritten⟩ := h calls hcalls
    rw [Mapper.run, Run.bind_ok hrun, Run.bind_ok (load_run hemitted)]
    show (((List.mapM (writeRecord levels (calls (maxDepth - 1))) [a]) K).toOption).map Prod.fst = _
    rw [List.mapM_cons]
    cases out with
    | error x =>
      rw [Run.bind_error hwritten]
      rfl
    | ok e =>
      obtain ⟨K', hwritten, -⟩ := hwritten
      rw [Run.bind_ok hwritten]
      rfl

theorem Goes.emits (h : Goes (recordLevels + d.nesting) m d es) : m.emits d = es :=
  h.run (faithful_apply sole.emitter)

/-- There is a fault with which a call does not end. -/
theorem exists_fault_ne (x : Fault) : ∃ fault : Fault, x ≠ fault := by
  by_cases h : x = .malformed
  · exact ⟨.thrown, by simp [h]⟩
  · exact ⟨.malformed, h⟩

theorem Goes.yields (h : Goes recordLevels m d es) : m.Yields d es := by
  suffices hintact : ∃ fault, m.IntactFor fault d by
    obtain ⟨fault, hfault⟩ := hintact
    exact ⟨fault, hfault, (h.run (faithful_watched sole.emitter fault)).symm⟩
  cases h with
  | fails x h =>
    obtain ⟨fault, hne⟩ := exists_fault_ne x
    have hrun := h _ (faithful_watched sole.emitter fault)
    refine ⟨fault, fun a K' hok => ?_, fun f hf => ?_⟩
    · cases hok.symm.trans hrun
    · cases hf.symm.trans hrun
      exact hne
  | passes h =>
    obtain ⟨r, K, hrun, huntouched, hemitted⟩ := h _ (faithful_watched sole.emitter .malformed)
    refine ⟨.malformed, fun a K' hok => ?_, fun f hf => ?_⟩
    · cases hok.symm.trans hrun
      rw [hemitted]
      exact ⟨huntouched, trivial⟩
    · cases hf.symm.trans hrun
  | writes out h =>
    -- if the record cannot be written, this has a fault of its own
    obtain ⟨fault, hne⟩ : ∃ fault : Fault, ∀ x, out = .error x → x ≠ fault := by
      cases out with
      | error x =>
        obtain ⟨fault, hne⟩ := exists_fault_ne x
        exact ⟨fault, by rintro _ ⟨⟩; exact hne⟩
      | ok e => exact ⟨.malformed, by rintro _ ⟨⟩⟩
    obtain ⟨r, K, a, hrun, huntouched, hemitted, hwritten⟩ :=
      h _ (faithful_watched sole.emitter fault)
    refine ⟨fault, fun b K' hok => ?_, fun f hf => ?_⟩
    · cases hok.symm.trans hrun
      rw [hemitted]
      refine ⟨huntouched, fun e K2 hok => ?_, fun f hf => ?_⟩
      · cases out with
        | error x => cases hok.symm.trans hwritten
        | ok e' =>
          obtain ⟨K3, hwritten, hK3⟩ := hwritten
          cases hok.symm.trans hwritten
          exact ⟨hK3, trivial⟩
      · cases out with
        | error x =>
          cases hf.symm.trans hwritten
          exact hne _ rfl
        | ok e' =>
          obtain ⟨K3, hwritten, -⟩ := hwritten
          cases hf.symm.trans hwritten
    · cases hf.symm.trans hrun

end

/-! ## The call of a generated function -/

/-- What a generated function does in its scope. -/
def guarded (call : Caller) (test key value : Expr) (s : Scope) : Run Value := do
  let t ← test.eval call s
  if t.truth then do
    let _ ← (Expr.call (.name "emit") [key, value]).eval call s
    return .undefined
  else return .undefined

theorem call_bodyOf (call : Caller) (test key value : Expr) (d : Json) :
    (Mapper.mk ["doc"] (bodyOf test key value)).call call d =
      documentScope d >>= guarded call test key value := by
  rw [Mapper.call, documentScope, bind_assoc]
  congr 1
  funext v
  rw [bind_assoc, Closure.enter]
  congr 1
  funext frame
  show (prepare frame [frame, Scope.globals] (bodyOf test key value) >>= fun _ => _) = _
  have hprepare : prepare frame [frame, Scope.globals] (bodyOf test key value) = pure () := by
    rfl
  rw [hprepare, pure_bind, pure_bind, guarded]
  simp only [Mapper.closure, bodyOf, Stmt.execAll, Stmt.exec, bind_assoc]
  congr 1
  funext t
  split <;> simp

/-- A heap in which a generated function runs. -/
structure Reachable (s : Scope) (K : Heap) : Prop where
  channel : Channel sole K #[]
  emit : s.find? K "emit" = some (Scope.globals, .object sole.emitter)

/-- both runs start with the document loaded and `emit` in reach of one of them -/
theorem documentScope_alike (d : Json) :
    ∃ L s t K H, documentScope d soleHeap = .ok (s, K) ∧ documentScope d Realm.heap = .ok (t, H) ∧
      Alike L s t K H ∧ (∀ a b r, L a b r → a < Realm.size ∨ soleHeap.size ≤ a) ∧
      ∀ K', Heap.Extends K K' → Reachable s K' := by
  obtain ⟨v, K, hrun, hext, -⟩ := ofNode_run d soleHeap
  obtain ⟨w, H, hrun', hext', -⟩ := ofNode_run d Realm.heap
  have hends := agree_ofNode (Json.nodeIn Json.floatLayout d) soleHeap Realm.heap
    (corresponds_natives pristine_soleHeap pristine_heap)
  rw [hrun, hrun'] at hends
  obtain ⟨M, -, hc, hvw⟩ := hends
  obtain ⟨-, -, hnew⟩ := hc.rest
  have hK := pristine_soleHeap.grow (hext.trans (.push K { members := [("doc", v)] }))
  have hH := pristine_heap.grow (hext'.trans (.push H { members := [("doc", w)] }))
  have hpush := hc.push (.frame ["doc"]) (o := { members := [("doc", v)] })
    (p := { members := [("doc", w)] }) (members_linked (.cons ⟨rfl, hvw⟩ .nil))
    (by rintro _ ⟨⟩; simp)
  refine ⟨M.add K.size H.size (.frame ["doc"]), [K.size, Scope.globals], [H.size, Scope.globals],
    K.push { members := [("doc", v)] }, H.push { members := [("doc", w)] }, ?_, ?_,
    ⟨hpush.mirrored, hK, hH, .cons (M.add_self _ _ _) .globals⟩, ?_, ?_⟩
  · rw [documentScope, Run.bind_ok hrun]
    rfl
  · rw [documentScope, Run.bind_ok hrun']
    rfl
  · rintro a b r (hl | ⟨rfl, -, -⟩)
    · obtain ⟨-, -, -, hlt⟩ | ⟨hle, -⟩ := hnew a b r hl
      · exact Or.inl hlt
      · exact Or.inr hle
    · exact Or.inr hext.size
  · intro K' hK'
    have hchannel : Channel sole K' #[] := ((channel_soleHeap.extends hext).push _).extends hK'
    have hframe : K'[K.size]? = some { members := [("doc", v)] } := hK'.get (by simp)
    refine ⟨hchannel, ?_⟩
    rw [find?_miss _ hframe (by simp [Entries.get?])]
    exact find?_hit _ hchannel.globals sole.emit

theorem eval_emit {key value : Expr} {s : Scope} {K : Heap} {call : Caller} {f : Value}
    (hemit : (Expr.name "emit").eval call s K = .ok (f, K)) :
    (Expr.call (.name "emit") [key, value]).eval call s K = (do
      let k ← key.eval call s
      let v ← value.eval call s
      call .undefined f [k, v] : Run Value) K := by
  simp only [Expr.eval, Expr.evalAll, bind_assoc, pure_bind] at hemit ⊢
  rw [Run.bind_ok hemit]

/-! ## What it emits -/

/-- nothing that a value refers to has changed when it is written -/
theorem Grown.later {L M : Link} {K K' K1 H' : Heap} (h : Grown L K K' H' M)
    (hL : ∀ a b r, L a b r → a < Realm.size ∨ soleHeap.size ≤ a) (hK : soleHeap.size ≤ K.size)
    (hsame : ∀ a < K'.size, a ≠ sole.emitted → K1[a]? = K'[a]?) :
    Mirrored true finished M K1 H' ∧ Pristine K1 := by
  have hemitted : sole.emitted = Realm.size + 1 := rfl
  have hsole := size_soleHeap
  have hgrows := h.grows.size
  refine ⟨h.mirrored.of_same (fun hp => hp) (fun {a b r} hl => ?_) (fun _ => rfl),
    h.left.of_same fun a ha => hsame a (by have := h.left.size; omega) (by omega)⟩
  refine hsame a (h.mirrored.lt_size hl).1 ?_
  obtain hl | hl := h.linked a b r hl
  · have := hL a b r hl
    omega
  · omega

/-- Two values that were recorded: they correspond to values in two other heaps. -/
structure Recording (K : Heap) (a : Nat) (key value : Value × Heap) : Prop where
  left : Pristine K
  right : Pristine key.2 ∧ Pristine value.2
  emitted : K[sole.emitted]? = some { kind := .array #[.object a] }
  record : ∃ k v M N, K[a]? = some (record (.number (.int 0)) (recorded k) (recorded v)) ∧
    (Mirrored true finished M K key.2 ∧ Value.Linked M k key.1) ∧
      Mirrored true finished N K value.2 ∧ Value.Linked N v value.1

/-- What is written of a record, the key first. -/
def writtenFor (levels : Nat) (key value : Value × Heap) : Except Fault Emitted := do
  let k ← recordedIn levels "key" key
  let v ← recordedIn levels "value" value
  return ⟨k, v⟩

section
variable {calls : Nat → Caller} (hcalls : Faithful sole.emitter calls)
include hcalls

theorem Recording.written (levels : Nat) {K : Heap} {a : Nat} {key value : Value × Heap}
    (h : Recording K a key value) :
    Written levels (calls (maxDepth - 1)) a K (writtenFor levels key value) := by
  obtain ⟨k, v, M, N, ha, ⟨hkm, hk⟩, hvm, hv⟩ := h.record
  have hwrite := writeRecord_eq ha levels (calls (maxDepth - 1))
  unfold writtenFor recordedIn
  cases hkey : (recorded key.1).serialize (apply (maxDepth - 1)) levels [] "key" key.2 with
  | error x =>
    rw [Run.bind_error (serialize_error hcalls hkm h.left h.right.1 hk hkey)] at hwrite
    exact hwrite
  | ok r =>
    obtain ⟨K1, hkrun, hext⟩ := serialize_ok hcalls hkm h.left h.right.1 hk hkey
    rw [Run.bind_ok hkrun] at hwrite
    have hvm' : Mirrored true finished N K1 value.2 :=
      hvm.of_same (fun hp => hp) (fun hl => hext.same _ (hvm.lt_size hl).1) (fun _ => rfl)
    have hK1 := h.left.grow hext
    cases hvalue :
      (recorded value.1).serialize (apply (maxDepth - 1)) levels [] "value" value.2 with
    | error x =>
      rw [Run.bind_error (serialize_error hcalls hvm' hK1 h.right.2 hv hvalue)] at hwrite
      exact hwrite
    | ok r' =>
      obtain ⟨K2, hvrun, hext'⟩ := serialize_ok hcalls hvm' hK1 h.right.2 hv hvalue
      rw [Run.bind_ok hvrun] at hwrite
      exact ⟨K2, hwrite, (hK1.grow hext').untouched⟩

section
variable {test key value : Expr} {L : Link} {s t : Scope} {K H H1 H2 : Heap}
  (hkey : Harmless key) (hvalue : Harmless value) (h : Alike L s t K H)
  (hreach : ∀ K', Heap.Extends K K' → Reachable s K')
include hkey h hreach

theorem emission_key_error {x : Fault} (hx : key.eval (apply (maxDepth - 1)) t H = .error x) :
    (Expr.call (.name "emit") [key, value]).eval (calls (maxDepth - 1)) s K = .error x := by
  rw [eval_emit (eval_name (hreach K (.refl K)).emit),
    Run.bind_error (h.eval_error hcalls hkey hx)]

include hvalue

theorem emission_value_error {k : Value} (hk : key.eval (apply (maxDepth - 1)) t H = .ok (k, H1))
    {x : Fault} (hx : value.eval (apply (maxDepth - 1)) t H = .error x) :
    (Expr.call (.name "emit") [key, value]).eval (calls (maxDepth - 1)) s K = .error x := by
  obtain ⟨k', K1, M, hkrun, hgrown, -⟩ := h.eval_ok hcalls hkey hk
  rw [eval_emit (eval_name (hreach K (.refl K)).emit), Run.bind_ok hkrun,
    Run.bind_error ((h.extend hgrown.grows).eval_error hcalls hvalue hx)]

theorem emission_ok (hL : ∀ a b r, L a b r → a < Realm.size ∨ soleHeap.size ≤ a) {k v : Value}
    (hk : key.eval (apply (maxDepth - 1)) t H = .ok (k, H1))
    (hv : value.eval (apply (maxDepth - 1)) t H = .ok (v, H2)) :
    ∃ r K' a, (Expr.call (.name "emit") [key, value]).eval (calls (maxDepth - 1)) s K =
      .ok (r, K') ∧ Recording K' a (k, H1) (v, H2) := by
  obtain ⟨k', K1, M, hkrun, hgrown, hkk⟩ := h.eval_ok hcalls hkey hk
  obtain ⟨v', K2, N, hvrun, hgrown', hvv⟩ := (h.extend hgrown.grows).eval_ok hcalls hvalue hv
  have hchannel := (hreach K2 (hgrown.grows.trans hgrown'.grows)).channel
  have hrun := emit_run hcalls hchannel hgrown'.left.untouched.appends 509 .undefined [k', v']
  have hsize : soleHeap.size ≤ K.size := by
    have := (hreach K (.refl K)).channel.lt_size.2.2
    have hsole := size_soleHeap
    have hemitted : sole.emitted = Realm.size + 1 := rfl
    omega
  -- what was there before the record is still there
  have hsame : ∀ a < K2.size, a ≠ sole.emitted → (afterEmit sole K2 #[] [k', v'])[a]? = K2[a]? :=
    fun a ha hne => afterEmit_of_lt ha hne _
  obtain ⟨hvm, hpristine⟩ := hgrown'.later hL (Nat.le_trans hsize hgrown.grows.size) hsame
  have hfirst : ∀ a < K1.size, a ≠ sole.emitted →
      (afterEmit sole K2 #[] [k', v'])[a]? = K1[a]? := fun a ha hne =>
    (hsame a (Nat.lt_of_lt_of_le ha hgrown'.grows.size) hne).trans (hgrown'.grows.same a ha)
  obtain ⟨hkm, -⟩ := hgrown.later hL hsize hfirst
  refine ⟨.undefined, _, K2.size + 1, ?_, hpristine, ⟨hgrown.right, hgrown'.right⟩,
    (hchannel.afterEmit [k', v']).emitted, k', v', M, N,
    afterEmit_record hchannel.lt_size.2.2 [k', v'], ⟨hkm, hkk⟩, hvm, hvv⟩
  rw [eval_emit (eval_name (hreach K (.refl K)).emit), Run.bind_ok hkrun, Run.bind_ok hvrun]
  exact hrun

end

end

theorem toOption_writtenFor (levels : Nat) (key value : Value × Heap) :
    (writtenFor levels key value).toOption.map (fun e => [e]) = do
      let k ← (recordedIn levels "key" key).toOption
      let v ← (recordedIn levels "value" value).toOption
      return [⟨k, v⟩] := by
  unfold writtenFor
  cases recordedIn levels "key" key with
  | error x => rfl
  | ok k => cases recordedIn levels "value" value <;> rfl

/-- how a call goes once the test has passed: `emit` is called with the key and the value -/
theorem goes_of_passed (levels : Nat) {m : Mapper} {key value : Expr} {L : Link} {s t : Scope}
    {H : Heap} {d : Json} (hkey : Harmless key) (hvalue : Harmless value)
    (hL : ∀ a b r, L a b r → a < Realm.size ∨ soleHeap.size ≤ a)
    (hon : ∀ e : Expr, onDocument e d = (e.eval (apply (maxDepth - 1)) t H).toOption)
    (hcall : ∀ calls, Faithful sole.emitter calls → ∃ K, Alike L s t K H ∧
      (∀ K', Heap.Extends K K' → Reachable s K') ∧
        m.call (calls (maxDepth - 1)) d soleHeap =
          ((Expr.call (.name "emit") [key, value]).eval (calls (maxDepth - 1)) s >>= fun _ =>
            pure .undefined) K) :
    Goes levels m d (do
      let k ← recordedOn levels "key" key d
      let v ← recordedOn levels "value" value d
      return [⟨k, v⟩]) := by
  cases hk : key.eval (apply (maxDepth - 1)) t H with
  | error x =>
    have hnone : recordedOn levels "key" key d = none := by
      rw [recordedOn, hon, hk]
      rfl
    rw [hnone]
    refine .fails x fun calls hcalls => ?_
    obtain ⟨K, halike, hreach, hrun⟩ := hcall calls hcalls
    rw [hrun, Run.bind_error (emission_key_error hcalls hkey halike hreach hk)]
  | ok rk =>
    obtain ⟨k, H1⟩ := rk
    cases hv : value.eval (apply (maxDepth - 1)) t H with
    | error x =>
      have hnone : recordedOn levels "value" value d = none := by
        rw [recordedOn, hon, hv]
        rfl
      simp only [hnone, Option.bind_eq_bind, Option.bind_none, Option.bind_fun_none]
      refine .fails x fun calls hcalls => ?_
      obtain ⟨K, halike, hreach, hrun⟩ := hcall calls hcalls
      rw [hrun, Run.bind_error (emission_value_error hcalls hkey hvalue halike hreach hk hv)]
    | ok rv =>
      obtain ⟨v, H2⟩ := rv
      have hk' : recordedOn levels "key" key d = (recordedIn levels "key" (k, H1)).toOption := by
        rw [recordedOn, hon, hk]
        rfl
      have hv' : recordedOn levels "value" value d =
          (recordedIn levels "value" (v, H2)).toOption := by
        rw [recordedOn, hon, hv]
        rfl
      rw [hk', hv', ← toOption_writtenFor]
      refine .writes _ fun calls hcalls => ?_
      obtain ⟨K, halike, hreach, hrun⟩ := hcall calls hcalls
      obtain ⟨r, K', a, hemit, hrecording⟩ :=
        emission_ok hcalls hkey hvalue halike hreach hL hk hv
      refine ⟨.undefined, K', a, ?_, hrecording.left.untouched, hrecording.emitted,
        hrecording.written hcalls levels⟩
      rw [hrun, Run.bind_ok hemit]
      rfl

/-- **How a call of a generated function goes is settled by its three expressions on their own.** -/
theorem goes_bodyOf (levels : Nat) {test key value : Expr} (htest : Harmless test)
    (hkey : Harmless key) (hvalue : Harmless value) (d : Json) :
    Goes levels (Mapper.mk ["doc"] (bodyOf test key value)) d (match holdsOn test d with
      | none => none
      | some false => some []
      | some true => do
        let k ← recordedOn levels "key" key d
        let v ← recordedOn levels "value" value d
        return [⟨k, v⟩]) := by
  obtain ⟨L, s, t, K, H, hsole, hbare, halike, hL, hreach⟩ := documentScope_alike d
  have hcall : ∀ call, (Mapper.mk ["doc"] (bodyOf test key value)).call call d soleHeap =
      guarded call test key value s K := by
    intro call
    rw [call_bodyOf, Run.bind_ok hsole]
  have hon : ∀ e : Expr, onDocument e d = (e.eval (apply (maxDepth - 1)) t H).toOption := by
    intro e
    rw [onDocument, Run.bind_ok hbare]
  cases ht : test.eval (apply (maxDepth - 1)) t H with
  | error x =>
    rw [holdsOn, hon, ht]
    refine .fails x fun calls hcalls => ?_
    rw [hcall, guarded, Run.bind_error (halike.eval_error hcalls htest ht)]
  | ok r =>
    obtain ⟨w, H0⟩ := r
    have hholds : holdsOn test d = some w.truth := by
      rw [holdsOn, hon, ht]
      rfl
    -- the test holds in both heaps or in neither
    have htested : ∀ calls, Faithful sole.emitter calls → ∃ K0, Heap.Extends K K0 ∧ Pristine K0 ∧
        guarded (calls (maxDepth - 1)) test key value s K =
          (if w.truth then do
            let _ ← (Expr.call (.name "emit") [key, value]).eval (calls (maxDepth - 1)) s
            return .undefined
          else return .undefined : Run Value) K0 := by
      intro calls hcalls
      obtain ⟨v, K0, M, hrun, hgrown, hvw⟩ := halike.eval_ok hcalls htest ht
      refine ⟨K0, hgrown.grows, hgrown.left, ?_⟩
      rw [guarded, Run.bind_ok hrun, hvw.truth_eq]
    rw [hholds]
    cases hw : w.truth with
    | false =>
      refine .passes fun calls hcalls => ?_
      obtain ⟨K0, hext, hK0, hrun⟩ := htested calls hcalls
      rw [hw] at hrun
      exact ⟨_, K0, (hcall _).trans hrun, hK0.untouched, (hreach K0 hext).channel.emitted⟩
    | true =>
      refine goes_of_passed levels (s := s) hkey hvalue hL hon fun calls hcalls => ?_
      obtain ⟨K0, hext, -, hrun⟩ := htested calls hcalls
      rw [if_pos hw] at hrun
      exact ⟨K0, halike.extend hext, fun K' hK' => hreach K' (hext.trans hK'), (hcall _).trans hrun⟩

end ViewDesign.Evaluation
