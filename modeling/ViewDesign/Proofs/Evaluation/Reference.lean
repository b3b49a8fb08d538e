import ViewDesign.Proofs.Evaluation.Isolation

/-!
# What a function emits for one document

The meaning of a map function, apart from the script that runs it over many documents: a heap with
nothing but `emit` in it, one document, one call, and what it emitted written record by record.

* `Mapper`           a function that is closed over nothing but the global variables;
* `Mapper.run`       a call on a document, and the keys and values that it emits;
* `Mapper.emits`     what a call on a document emits;
* `Mapper.Intact`    neither the call nor the writing changes the objects from the start;
* `Mapper.Yields`    what a call emits that is watched for this.

What a function does to the objects from the start is seen by the calls that come after it, so only
a function that leaves them alone does the same for each of many documents as for one.
-/

namespace ViewDesign.Evaluation

open Script

/-! ## The function and its call -/

/-- A function of a document. -/
structure Mapper where
  parameters : List String
  body : List Stmt

namespace Mapper

/-- The function as an expression. -/
def expr (m : Mapper) : Expr := .function none m.parameters m.body

/-- The function once it is made, in reach of the global variables. -/
def closure (m : Mapper) : Closure := ⟨m.parameters, m.body, [Scope.globals]⟩

end Mapper

/-- The global variables around a single call. -/
def soleGlobals : Object :=
  { members := [("__emitted", .object (Realm.size + 1)), ("__index", .number (.int 0)),
      ("emit", .object Realm.size)] }

theorem soleGlobals_emit :
    Entries.get? "emit" soleGlobals.members = some (.object Realm.size) := by
  simp [soleGlobals, Entries.get?]

theorem soleGlobals_emitted :
    Entries.get? "__emitted" soleGlobals.members = some (.object (Realm.size + 1)) := by
  simp [soleGlobals, Entries.get?]

theorem soleGlobals_index :
    Entries.get? "__index" soleGlobals.members = some (.number (.int 0)) := by
  simp [soleGlobals, Entries.get?]

/-- no variable around the call is a constant -/
theorem soleGlobals_constant (x : String) (hx : (Scope.constant? x).isSome = true) :
    Entries.get? x soleGlobals.members = none := by
  have hne : ∀ y : String, Scope.constant? y = none → x ≠ y := by
    rintro y hy rfl
    rw [hy] at hx
    cases hx
  simp [soleGlobals, Entries.get?, hne "__emitted" (by simp [Scope.constant?]),
    hne "__index" (by simp [Scope.constant?]), hne "emit" (by simp [Scope.constant?])]

theorem sole_apart : Realm.size + 1 ≠ Realm.size := by omega

theorem sole_later : Realm.size ≤ Realm.size ∧ Realm.size ≤ Realm.size + 1 := by omega

/-- The place where a single call emits. -/
def sole : Site where
  globals := soleGlobals
  emitter := Realm.size
  emitted := Realm.size + 1
  index := .number (.int 0)
  emit := soleGlobals_emit
  array := soleGlobals_emitted
  number := soleGlobals_index
  constant := soleGlobals_constant
  apart := sole_apart
  later := sole_later

/-- The heap before a single call. -/
def soleHeap : Heap :=
  ((Realm.heapWith soleGlobals).push (.ofClosure "emit" emitClosure)).push { kind := .array #[] }

theorem size_heapWith (globals : Object) : (Realm.heapWith globals).size = Realm.size := by
  rw [Realm.heapWith, List.size_toArray, List.length_cons, Realm.size]

theorem size_soleHeap : soleHeap.size = Realm.size + 2 := by
  rw [soleHeap, Array.size_push, Array.size_push, size_heapWith]

theorem channel_soleHeap : Channel sole soleHeap #[] := by
  have hsize := size_heapWith soleGlobals
  have hpos := Realm.size_pos
  have hext := (Heap.Extends.push (Realm.heapWith soleGlobals)
    (.ofClosure "emit" emitClosure)).trans (.push _ { kind := .array #[] })
  have hglobals : (Realm.heapWith soleGlobals)[Scope.globals]? = some soleGlobals :=
    List.getElem?_toArray
  refine ⟨hext.get hglobals, Heap.Extends.get (.push _ _) ?_, ?_⟩
  · rw [Array.getElem?_push, if_pos (by rw [hsize]; rfl)]
  · rw [soleHeap, Array.getElem?_push, if_pos (by rw [Array.size_push, hsize]; rfl)]

theorem pristine_soleHeap : Pristine soleHeap where
  size := by rw [size_soleHeap]; omega
  untouched := by
    have hext := (Heap.Extends.push (Realm.heapWith soleGlobals)
      (.ofClosure "emit" emitClosure)).trans (.push _ { kind := .array #[] })
    intro a ha hlt
    exact (hext.same a hlt).trans (untouched_heapWith soleGlobals a ha hlt)
  constant x hx := find?_globals channel_soleHeap (sole.constant x hx)

/-- The call of a function on a document. -/
def Mapper.call (call : Caller) (m : Mapper) (d : Json) : Run Value := do
  let v ← Value.ofNode (Json.nodeIn Json.floatLayout d)
  m.closure.enter call [v]

/-! ## What it emits -/

/-- The key and the value of a record.  One that has no JSON value is left out of the record. -/
structure Emitted where
  key : Option Json
  value : Option Json

/-- A record as a JSON value. -/
def Emitted.record (index : Int) (e : Emitted) : Json :=
  .obj (("index", .num (.int index)) ::
    ((e.key.map fun j => ("key", j)).toList ++ (e.value.map fun j => ("value", j)).toList))

/-- The key and the value of the record at an address as JSON values, the key first, when they may
be nested so deeply. -/
def writeRecord (levels : Nat) (call : Caller) (a : Nat) : Run Emitted := do
  let o ← Run.load a
  let write (name : String) : Run (Option Json) :=
    ((Entries.get? name o.members).getD .undefined).serialize call levels [] name
  let key ← write "key"
  let value ← write "value"
  return ⟨key, value⟩

/-- The addresses in an array. -/
def addressesIn (o : Object) : List Nat :=
  match o.kind with
  | .array items => items.toList.filterMap fun
    | .object a => some a
    | _ => none
  | _ => []

theorem addressesIn_objects (as : List Nat) :
    addressesIn { kind := .array (as.map Value.object).toArray } = as := by
  simp [addressesIn, List.filterMap_map]

/-- A call on a document, and then what it has emitted, record by record. -/
def Mapper.run (levels : Nat) (call : Caller) (m : Mapper) (d : Json) : Run (List Emitted) := do
  let _ ← m.call call d
  let o ← Run.load sole.emitted
  (addressesIn o).mapM (writeRecord levels call)

/-- How deeply keys and values may be nested that a script writes: a record is two levels deep. -/
def recordLevels : Nat := maxNesting - 2

/-- What a call on a document emits, however deeply the document is nested; `none` if it fails or
what it emits cannot be written. -/
def Mapper.emits (m : Mapper) (d : Json) : Option (List Emitted) :=
  ((m.run (recordLevels + d.nesting) (apply (maxDepth - 1)) d) soleHeap).toOption.map Prod.fst

/-! ## The objects from the start -/

/-- Calls of functions that fail when `emit` is called and `push` does not append to arrays. -/
def watcher (fault : Fault) : Caller := watched sole.emitter fault (maxDepth - 1)

/-- A computation that leaves the objects from the start as they were and does not fail with a
fault, and what holds after it. -/
structure Run.Keeps {α : Type} (fault : Fault) (x : Run α) (K : Heap) (next : Heap → Prop) :
    Prop where
  ok : ∀ a K', x K = .ok (a, K') → Untouched K' ∧ next K'
  error : ∀ f, x K = .error f → f ≠ fault

/-- The writing of records keeps the objects from the start, one record after the other. -/
def WritesKeep (fault : Fault) : List Nat → Heap → Prop
  | [], _ => True
  | a :: rest, K =>
    Run.Keeps fault (writeRecord recordLevels (watcher fault) a) K (WritesKeep fault rest)

/-- The call on a document leaves the objects from the start as they were, and so does the writing
of each record that it emits.  Whenever `emit` is called, `push` appends to arrays: else there would
be the fault, which there is not. -/
def Mapper.IntactFor (fault : Fault) (m : Mapper) (d : Json) : Prop :=
  Run.Keeps fault (m.call (watcher fault) d) soleHeap fun K =>
    WritesKeep fault (addressesIn (K[sole.emitted]?.getD {})) K

/-- The objects from the start are left alone by the call on a document and by the writing of what
it emits.  Any fault will do to watch for this but the one that the function may have by itself. -/
def Mapper.Intact (m : Mapper) (d : Json) : Prop := ∃ fault, m.IntactFor fault d

/-- What a call on a document emits that leaves the objects from the start alone; `none` if it fails
or what it emits cannot be written. -/
def Mapper.Yields (m : Mapper) (d : Json) (es : Option (List Emitted)) : Prop :=
  ∃ fault, m.IntactFor fault d ∧
    es = ((m.run recordLevels (watcher fault) d) soleHeap).toOption.map Prod.fst

theorem Mapper.Intact.yields {m : Mapper} {d : Json} (h : m.Intact d) : ∃ es, m.Yields d es := by
  obtain ⟨fault, hfault⟩ := h
  exact ⟨_, fault, hfault, rfl⟩

end ViewDesign.Evaluation
