import ViewDesign.Proofs.Evaluation.Loop

/-!
# The whole script

* `program`          the statements of the script;
* `loopHeap`         the heap before its loop;
* `program_run`      the script gives the text of what the calls on single documents emit, and fails
                     exactly if one of them does.
-/

namespace ViewDesign.Evaluation

open Script

/-! ## The statements -/

/-- The statements of the script, from the text of the documents and the function. -/
def program (text : String) (f : Expr) : List Stmt :=
  [.block [.declareAs "__docs" (.call (.member (.name "JSON") (.text "parse")) [.text text])],
    .block [.declareAs "__emitted" (.array [])],
    .block [.declareAs "__index" (.number (.int 0))],
    .define "emit" emitParameters emitBody,
    .block [.declareAs "__map" f],
    .block ([.expression (.assign (.name "__index") (.number (.int 0)))] ++
      [.loop loopTest loopStep loopBody]),
    .expression (.call (.member (.name "JSON") (.text "stringify")) [.name "__emitted"])]

/-- The text of the documents. -/
def docsText (docs : List Json) : String :=
  String.ofList (Json.compactChars Json.Number.text (.arr docs))

/-- The global variables with their values. -/
def globalsHolding (docs emitted index map : Value) : Object :=
  { members := [("__docs", docs), ("__emitted", emitted), ("__index", index), ("__map", map),
      ("emit", .object Realm.size)] }

/-- The heap before the first statement. -/
def initialHeap : Heap :=
  (Realm.heapWith (globalsHolding .undefined .undefined .undefined .undefined)).push
    (.ofClosure "emit" emitClosure)

theorem get?_heapWith (globals : Object) :
    (Realm.heapWith globals)[Scope.globals]? = some globals := List.getElem?_toArray

theorem set_heapWith (globals globals' : Object) :
    (Realm.heapWith globals).setIfInBounds Scope.globals globals' = Realm.heapWith globals' := by
  simp [Realm.heapWith, Scope.globals]

/-- an object is changed before or after another one is made -/
theorem set_push {K : Heap} {a : Nat} (h : a < K.size) (o p : Object) :
    (K.push p).setIfInBounds a o = (K.setIfInBounds a o).push p := by
  apply Array.ext_getElem?
  intro b
  rw [Array.getElem?_setIfInBounds, Array.getElem?_push, Array.getElem?_push,
    Array.size_setIfInBounds, Array.getElem?_setIfInBounds, Array.size_push]
  by_cases hb : b = K.size
  · rw [if_pos hb, if_pos hb, if_neg (by omega)]
  · rw [if_neg hb, if_neg hb]
    by_cases ha : a = b
    · rw [if_pos ha, if_pos ha, if_pos (by omega), if_pos h]
    · rw [if_neg ha, if_neg ha]

/-- a variable with a name of its own -/
theorem declareAll_last {ms : List (String × Value)} {x : String} (hnew : x ∉ ms.map Prod.fst)
    (hx : Scope.constant? x = none) (xs : List String) :
    declareAll Scope.globals (x :: xs) (Realm.heapWith { members := ms }) =
      declareAll Scope.globals xs (Realm.heapWith { members := ms ++ [(x, .undefined)] }) := by
  have hnone : Entries.get? x ms = none := Entries.get?_eq_none_iff.mpr hnew
  rw [declareAll, Run.bind_ok (load_run (get?_heapWith _))]
  have hset := setOwn_run (get?_heapWith { members := ms }) x .undefined
  rw [set_heapWith] at hset
  simp only [hnone, hx, Option.isNone_none, Option.isSome_none, Bool.and_false, Bool.not_false,
    Bool.and_true, if_true]
  rw [Run.bind_ok hset, Entries.put_last hnew]

theorem prepare_run (text : String) (f : Expr) :
    prepare Scope.globals [Scope.globals] (program text f) Realm.heap = .ok ((), initialHeap) := by
  have hdeclared : Stmt.allDeclared (program text f) =
      ["__docs", "__emitted", "__index", "__map"] := by
    simp [program, Stmt.declareAs, Stmt.allDeclared, Stmt.declared, loopBody]
  have hfunctions : Stmt.allFunctions (program text f) = [("emit", emitParameters, emitBody)] := by
    simp [program, Stmt.declareAs, Stmt.allFunctions, Stmt.functions, loopBody]
  have hdeclare : declareAll Scope.globals ["__docs", "__emitted", "__index", "__map"] Realm.heap =
      .ok ((), Realm.heapWith { members := [("__docs", .undefined), ("__emitted", .undefined),
        ("__index", .undefined), ("__map", .undefined)] }) := by
    rw [Realm.heap, declareAll_last (by simp) (by decide),
      declareAll_last (by decide) (by decide), declareAll_last (by decide) (by decide),
      declareAll_last (by decide) (by decide)]
    rfl
  -- the function is the first new object, and its name comes last
  generalize hvariables : ({ members := [("__docs", .undefined), ("__emitted", .undefined),
    ("__index", .undefined), ("__map", .undefined)] } : Object) = o at hdeclare
  have hpush := Heap.Extends.push (Realm.heapWith o) (.ofClosure "emit" emitClosure)
  have hdefine := setOwn_run (hpush.get (get?_heapWith o)) "emit" (.object Realm.size)
  have hinsert : { o with members := Entries.put "emit" (.object Realm.size) o.members } =
      globalsHolding .undefined .undefined .undefined .undefined := by
    rw [← hvariables]
    exact congrArg (fun ms => ({ members := ms } : Object)) (Entries.put_last (by decide))
  have hsize := size_heapWith o
  rw [hinsert, set_push (by rw [hsize]; exact Realm.size_pos), set_heapWith] at hdefine
  rw [prepare, hdeclared, hfunctions, Run.bind_ok hdeclare, defineAll]
  have hmake : makeFunction "emit" emitParameters emitBody [Scope.globals] (Realm.heapWith o) =
      .ok (.object Realm.size, (Realm.heapWith o).push (.ofClosure "emit" emitClosure)) := by
    rw [← hsize]
    rfl
  rw [Run.bind_ok hmake, Run.bind_ok hdefine]
  rfl

/-! ## Single statements -/

section
variable {K : Heap} {call : Caller} {d e i m : Value}

theorem find?_variables (h : K[Scope.globals]? = some (globalsHolding d e i m)) {x : String}
    {v : Value} (hx : Entries.get? x (globalsHolding d e i m).members = some v) :
    Scope.find? K x [Scope.globals] = some (Scope.globals, v) := find?_hit _ h hx

theorem exec_declareAs {x : String} {f : Expr} {s : Scope} {v : Value} {K1 K2 : Heap}
    (hf : f.named s (some x) (f.eval call s) K = .ok (v, K1)) (hw : s.write x v K1 = .ok ((), K2)) :
    (Stmt.block [Stmt.declareAs x f]).exec call s K = .ok (.normal v, K2) := by
  have hassign : (Expr.assign (.name x) f).eval call s K = .ok (v, K2) := by
    simp only [Expr.eval, Target.place, pure_bind, Target.name?]
    rw [Run.bind_ok hf]
    simp only [Place.write]
    rw [Run.bind_ok hw]
    rfl
  simp only [Stmt.declareAs, Stmt.exec, Stmt.execAll]
  simp only [pure_bind]
  rw [Run.bind_ok hassign]
  rfl

theorem execAll_next {c : Stmt} {rest : List Stmt} {s : Scope} {v : Value} {K1 : Heap}
    (hc : c.exec call s K = .ok (.normal v, K1)) (hrest : rest ≠ []) :
    Stmt.execAll call s (c :: rest) K = Stmt.execAll call s rest K1 := by
  rw [execAll_cons hrest, Run.bind_ok hc]

theorem eval_json (h : K[Scope.globals]? = some (globalsHolding d e i m)) :
    (Expr.name "JSON").eval call [Scope.globals] K = .ok (.object Realm.json, K) := by
  simp only [Expr.eval]
  refine read_builtin ?_ (by simp [Scope.builtin?])
  rw [find?_miss _ h (by simp [globalsHolding, Entries.get?])]
  rfl

/-- a function of the object `JSON` is found and does what it does at the start -/
theorem json_function (hK : Untouched K) {name : String} {a : Nat} {b : Builtin}
    (ha : (Realm.objectAt Realm.json).own? name = some (.value (.object a)))
    (hb : (Realm.objectAt a).kind = .native b) (hpos : 0 < a) (hlt : a < Realm.size)
    (depth : Nat) :
    (Value.object Realm.json).getMember name K = .ok (.object a, K) ∧
      ∀ receiver args, apply (depth + 1) receiver (.object a) args K =
        b.call (apply depth) receiver args K := by
  refine ⟨getMember_own (hK.get_objectAt (by decide) (by decide +kernel)) ha,
    fun receiver args => ?_⟩
  rw [apply, Value.invoke, Run.bind_ok (load_run (hK.get_objectAt hpos hlt)), hb]

theorem eval_parse (hK : Untouched K) (h : K[Scope.globals]? = some (globalsHolding d e i m))
    (text : String) :
    (Expr.call (.member (.name "JSON") (.text "parse")) [.text text]).eval (apply maxDepth)
      [Scope.globals] K = Value.parse text K := by
  have hown : (Realm.objectAt Realm.json).own? "parse" = some (.value (.object 2)) := by
    rw [Realm.json, Realm.objectAt_succ]
    rfl
  have hkind : (Realm.objectAt 2).kind = .native .parse := by
    rw [Realm.objectAt_succ]
    rfl
  obtain ⟨hmember, hcall⟩ := json_function hK hown hkind (by decide) (by decide +kernel) 511
  rw [eval_callText (eval_json h) hmember (evalAll_cons (eval_text text) evalAll_nil)]
  refine (hcall _ _).trans ?_
  rw [Builtin.call, List.headD_cons, Run.bind_ok (textual_run rfl _)]
  rfl

theorem eval_stringify {n : Nat} (hK : Untouched K)
    (h : K[Scope.globals]? = some (globalsHolding d (.object n) i m)) :
    (Expr.call (.member (.name "JSON") (.text "stringify")) [.name "__emitted"]).eval
      (apply maxDepth) [Scope.globals] K = (Value.object n).stringify (apply (maxDepth - 1)) K := by
  have hown : (Realm.objectAt Realm.json).own? "stringify" = some (.value (.object 3)) := by
    rw [Realm.json, Realm.objectAt_succ]
    rfl
  have hkind : (Realm.objectAt 3).kind = .native .stringify := by
    rw [Realm.objectAt_succ]
    rfl
  obtain ⟨hmember, hcall⟩ := json_function hK hown hkind (by decide) (by decide +kernel) 511
  have harray : (Expr.name "__emitted").eval (apply maxDepth) [Scope.globals] K =
      .ok (.object n, K) := eval_name (find?_variables h (by simp [globalsHolding, Entries.get?]))
  rw [eval_callText (eval_json h) hmember (evalAll_cons harray evalAll_nil)]
  exact hcall _ _

end

/-- documents are parsed back from their text -/
theorem parse_run {docs : List Json} (h : Json.EachNumberIn Json.Number.Finite docs) :
    Value.parse (docsText docs) = (do
      let vs ← Value.ofItems
        (Json.writtenItems (fun n => .numeral (n.literal Json.floatLayout)) docs)
      return .object (← Run.allocate { kind := .array vs.toArray })) := by
  have hfinite : (Json.arr docs).Finite := by
    simp only [Json.Finite, Json.EachNumber]
    exact h
  have hsource : Json.Source.ofText (docsText docs) =
      ⟨Json.nodeIn Json.floatLayout (.arr docs), true⟩ := by
    rw [Json.Source.ofText, docsText, String.toList_ofList, Json.text_eq_charsIn]
    exact Json.ofChars_charsIn Json.floatLayout (.arr docs) hfinite
  unfold Value.parse
  simp only [hsource, Json.sound_nodeIn, Bool.and_self, if_true]
  simp only [Json.written, Value.ofNode]

/-! ## Up to the loop -/

/-- A heap with values for the global variables. -/
def holding (docs emitted index map : Value) (K : Heap) : Heap :=
  K.setIfInBounds Scope.globals (globalsHolding docs emitted index map)

section
variable {K : Heap} {d e i m : Value}

theorem size_holding : (holding d e i m K).size = K.size := by
  simp [holding]

theorem holding_other {a : Nat} (h : a ≠ 0) : (holding d e i m K)[a]? = K[a]? := by
  rw [holding, Array.getElem?_setIfInBounds, if_neg (fun e => h e.symm)]

theorem holding_self (h : K[Scope.globals]? = some (globalsHolding d e i m)) :
    holding d e i m K = K := by
  obtain ⟨hlt, hget⟩ := Array.getElem?_eq_some_iff.1 h
  rw [holding, Array.setIfInBounds, dif_pos hlt, ← hget, Array.set_getElem_self]

variable (h : Scope.globals < K.size)
include h

theorem holding_globals : (holding d e i m K)[Scope.globals]? = some (globalsHolding d e i m) := by
  rw [holding, Array.getElem?_setIfInBounds, if_pos rfl, if_pos h]

theorem push_holding (o : Object) : (holding d e i m K).push o = holding d e i m (K.push o) :=
  (set_push h _ o).symm

theorem write_holding {x : String} {u v : Value} {ms : List (String × Value)}
    (hx : Entries.get? x (globalsHolding d e i m).members = some u)
    (hms : Entries.put x v (globalsHolding d e i m).members = ms) :
    Scope.write [Scope.globals] x v (holding d e i m K) =
      .ok ((), K.setIfInBounds Scope.globals { members := ms }) := by
  have hg := holding_globals (d := d) (e := e) (i := i) (m := m) h
  rw [write_found (find?_variables hg hx) hg, hms, holding, Array.setIfInBounds_setIfInBounds]
  rfl

theorem write_docs (v : Value) : Scope.write [Scope.globals] "__docs" v (holding d e i m K) =
    .ok ((), holding v e i m K) :=
  write_holding h (u := d) (by simp [globalsHolding, Entries.get?])
    (by simp only [globalsHolding, Entries.put_same])

theorem write_emitted (v : Value) : Scope.write [Scope.globals] "__emitted" v (holding d e i m K) =
    .ok ((), holding d v i m K) :=
  write_holding h (u := e) (by simp [globalsHolding, Entries.get?])
    (by
      simp only [globalsHolding, Entries.put_later (show "__emitted" ≠ "__docs" by decide),
        Entries.put_same])

theorem write_index (v : Value) : Scope.write [Scope.globals] "__index" v (holding d e i m K) =
    .ok ((), holding d e v m K) :=
  write_holding h (u := i) (by simp [globalsHolding, Entries.get?])
    (by
      simp only [globalsHolding, Entries.put_later (show "__index" ≠ "__docs" by decide),
        Entries.put_later (show "__index" ≠ "__emitted" by decide),
        Entries.put_same])

theorem write_map (v : Value) : Scope.write [Scope.globals] "__map" v (holding d e i m K) =
    .ok ((), holding d e i v K) :=
  write_holding h (u := m) (by simp [globalsHolding, Entries.get?])
    (by
      simp only [globalsHolding, Entries.put_later (show "__map" ≠ "__docs" by decide),
        Entries.put_later (show "__map" ≠ "__emitted" by decide),
        Entries.put_later (show "__map" ≠ "__index" by decide),
        Entries.put_same])

theorem exec_emitted (call : Caller) :
    (Stmt.block [.declareAs "__emitted" (.array [])]).exec call [Scope.globals]
      (holding d e i m K) =
      .ok (.normal (.object K.size),
        holding d (.object K.size) i m (K.push { kind := .array #[] })) := by
  have harray : (Expr.array []).named [Scope.globals] (some "__emitted")
      ((Expr.array []).eval call [Scope.globals]) (holding d e i m K) =
      .ok (.object (holding d e i m K).size, (holding d e i m K).push { kind := .array #[] }) :=
    eval_array evalAll_nil
  rw [push_holding h, size_holding] at harray
  exact exec_declareAs harray (write_emitted (by rw [Array.size_push]; omega) _)

theorem exec_index (call : Caller) :
    (Stmt.block [.declareAs "__index" (.number (.int 0))]).exec call [Scope.globals]
      (holding d e i m K) =
      .ok (.normal (.number (.int 0)), holding d e (.number (.int 0)) m K) := by
  have hzero : (Expr.number (.int 0)).eval call [Scope.globals] (holding d e i m K) =
      .ok (.number (.int 0), holding d e i m K) := eval_number _
  exact exec_declareAs (f := .number (.int 0)) hzero (write_index h _)

theorem exec_map (call : Caller) (f : Mapper) :
    (Stmt.block [.declareAs "__map" f.expr]).exec call [Scope.globals] (holding d e i m K) =
      .ok (.normal (.object K.size),
        holding d e i (.object K.size) (K.push (.ofClosure "__map" f.closure))) := by
  have hf : f.expr.named [Scope.globals] (some "__map") (f.expr.eval call [Scope.globals])
      (holding d e i m K) = .ok (.object (holding d e i m K).size,
        (holding d e i m K).push (.ofClosure "__map" f.closure)) := rfl
  rw [push_holding h, size_holding] at hf
  exact exec_declareAs hf (write_map (by rw [Array.size_push]; omega) _)

end

/-- The loop and what comes after it. -/
def ending : List Stmt :=
  [.block ([.expression (.assign (.name "__index") (.number (.int 0)))] ++
      [.loop loopTest loopStep loopBody]),
    .expression (.call (.member (.name "JSON") (.text "stringify")) [.name "__emitted"])]

theorem size_initialHeap : initialHeap.size = Realm.size + 1 := by
  rw [initialHeap, Array.size_push, size_heapWith]

theorem get?_initialHeap : initialHeap[Scope.globals]? =
    some (globalsHolding .undefined .undefined .undefined .undefined) :=
  (Heap.Extends.push _ _).get (get?_heapWith _)

theorem pristine_initialHeap : Pristine initialHeap where
  size := by rw [size_initialHeap]; omega
  untouched := by
    intro a ha hlt
    have hext := Heap.Extends.push (Realm.heapWith (globalsHolding .undefined .undefined .undefined
      .undefined)) (.ofClosure "emit" emitClosure)
    exact (hext.same a (by rwa [size_heapWith])).trans (untouched_heapWith _ a ha hlt)
  constant x hx := by
    have hne : ∀ y : String, Scope.constant? y = none → x ≠ y := by
      rintro y hy rfl
      rw [hy] at hx
      cases hx
    rw [find?_miss _ get?_initialHeap]
    · rfl
    · simp [globalsHolding, Entries.get?, hne "__docs" (by simp [Scope.constant?]),
        hne "__emitted" (by simp [Scope.constant?]), hne "__index" (by simp [Scope.constant?]),
        hne "__map" (by simp [Scope.constant?]), hne "emit" (by simp [Scope.constant?])]

/-- The heap before the loop, from the one where the documents have been loaded. -/
def loopHeap (m : Mapper) (vs : Array Value) (K : Heap) : Heap :=
  holding (.object K.size) (.object (K.size + 1)) (.number (.int 0)) (.object (K.size + 2))
    (((K.push { kind := .array vs }).push { kind := .array #[] }).push
      (.ofClosure "__map" m.closure))

/-- the statements before the loop, once the documents have been loaded -/
theorem beginning_run (m : Mapper) {docs : List Json} {vs : List Value} {K : Heap}
    (hdocs : Json.EachNumberIn Json.Number.Finite docs)
    (hitems : Value.ofItems (Json.writtenItems
      (fun n => .numeral (n.literal Json.floatLayout)) docs) initialHeap = .ok (vs, K))
    (hext : Heap.Extends initialHeap K) :
    Stmt.execAll (apply maxDepth) [Scope.globals] (program (docsText docs) m.expr) initialHeap =
      Stmt.execAll (apply maxDepth) [Scope.globals] ending (loopHeap m vs.toArray K) := by
  have h0 : Scope.globals = 0 := rfl
  have hsize := hext.size
  rw [size_initialHeap] at hsize
  have hself := holding_self (hext.get get?_initialHeap)
  have hpos : ∀ {K' : Heap}, K.size ≤ K'.size → Scope.globals < K'.size := by
    intro K' h
    omega
  have hparse : (Expr.call (.member (.name "JSON") (.text "parse")) [.text (docsText docs)]).named
      [Scope.globals] (some "__docs") (Expr.eval (apply maxDepth) [Scope.globals]
        (.call (.member (.name "JSON") (.text "parse")) [.text (docsText docs)])) initialHeap =
      .ok (.object K.size, holding .undefined .undefined .undefined .undefined
        (K.push { kind := .array vs.toArray })) := by
    rw [named_of_not_function (by simp), eval_parse pristine_initialHeap.untouched
      get?_initialHeap, parse_run hdocs, Run.bind_ok hitems, ← push_holding (hpos (Nat.le_refl _)),
      hself]
    rfl
  have hs1 := exec_declareAs hparse (write_docs (hpos (by simp)) _)
  rw [program, execAll_next hs1 (by simp), execAll_next (exec_emitted (hpos (by simp)) _) (by simp),
    execAll_next (exec_index (hpos (by simp; omega)) _) (by simp),
    execAll_next (v := .undefined) (by simp only [Stmt.exec]; rfl) (by simp),
    execAll_next (exec_map (hpos (by simp; omega)) _ m) (by simp)]
  simp only [Array.size_push]
  rfl

/-- Where the script holds what it needs, once the documents have been loaded. -/
def placesAfter {K : Heap} (hext : Heap.Extends initialHeap K) : Places where
  docs := K.size
  emitted := K.size + 1
  map := K.size + 2
  order := by
    have hsize := hext.size
    rw [size_initialHeap] at hsize
    omega

/-- before the loop, the documents are loaded and nothing is emitted -/
theorem loopHeap_state (m : Mapper) {docs : List Json} {vs : List Value} {K : Heap}
    (hext : Heap.Extends initialHeap K) (hloaded : LoadedAll K K.size initialHeap.size vs docs) :
    State m (placesAfter hext) vs.toArray K.size (loopHeap m vs.toArray K) 0 []
      initialHeap.size docs := by
  have h0 : Scope.globals = 0 := rfl
  have hpos := Realm.size_pos
  have hsize := hext.size
  rw [size_initialHeap] at hsize
  have hlow : ∀ {a}, a ≠ 0 → a < K.size → (loopHeap m vs.toArray K)[a]? = K[a]? := by
    intro a ha hlt
    rw [loopHeap, holding_other ha, Array.getElem?_push, if_neg (by simp; omega),
      Array.getElem?_push, if_neg (by simp; omega), Array.getElem?_push, if_neg (by omega)]
  refine ⟨⟨?_, ?_, ?_, ?_, ?_⟩, ?_, ?_, ⟨?_, Nat.le_refl _⟩, by simp, by simp, .nil⟩
  · rw [loopHeap]
    refine holding_globals ?_
    rw [Array.size_push, Array.size_push, Array.size_push]
    omega
  · rw [hlow (by omega) (by omega)]
    refine hext.get ?_
    rw [initialHeap, Array.getElem?_push, if_pos (by rw [size_heapWith])]
  · rw [loopHeap, holding_other (by show K.size ≠ 0; omega)]
    show _[K.size]? = _
    rw [Array.getElem?_push, if_neg (by simp; omega), Array.getElem?_push, if_neg (by simp),
      Array.getElem?_push, if_pos rfl]
  · rw [loopHeap, holding_other (by show K.size + 1 ≠ 0; omega)]
    show _[K.size + 1]? = _
    rw [Array.getElem?_push, if_neg (by simp), Array.getElem?_push, if_pos (by simp)]
    rfl
  · rw [loopHeap, holding_other (by show K.size + 2 ≠ 0; omega)]
    show _[K.size + 2]? = _
    rw [Array.getElem?_push, if_pos (by simp)]
  · intro a ha hlt
    rw [hlow (by omega) (by omega)]
    exact (pristine_initialHeap.grow hext).untouched a ha hlt
  · refine hloaded.of_same ?_
    rw [size_initialHeap]
    rintro a (⟨hlo, hhi⟩ | ⟨hlo, hhi⟩)
    · have hfour : Realm.objectPrototype = 4 := rfl
      exact hlow (by omega) (by omega)
    · exact hlow (by omega) hhi
  · rw [size_initialHeap]
    omega

/-! ## What comes out -/

theorem exec_loop {K : Heap} {d e m : Value} (h : Scope.globals < K.size) :
    (Stmt.block ([.expression (.assign (.name "__index") (.number (.int 0)))] ++
      [.loop loopTest loopStep loopBody])).exec (apply maxDepth) [Scope.globals]
      (holding d e (.number (.int 0)) m K) =
      loop maxRounds (holding d e (.number (.int 0)) m K) := by
  have hwrite := write_index (d := d) (e := e) (i := .number (.int 0)) (m := m) h
    (.number (.int 0))
  have hassign : (Stmt.expression (.assign (.name "__index") (.number (.int 0)))).exec
      (apply maxDepth) [Scope.globals] (holding d e (.number (.int 0)) m K) =
      .ok (.normal (.number (.int 0)), holding d e (.number (.int 0)) m K) := by
    have hname : ∀ value : Run Value, (Expr.number (.int 0)).named [Scope.globals]
        (Target.name "__index").name? value = value := fun _ => rfl
    simp only [Stmt.exec, Expr.eval, Target.place, pure_bind, Place.write, bind_assoc, hname]
    rw [Run.bind_ok hwrite]
    rfl
  rw [List.singleton_append, Stmt.exec, execAll_next hassign (by simp)]
  simp only [Stmt.execAll, Stmt.exec]
  rfl

/-- the records are written once the loop has ended -/
theorem ending_run {m : Mapper} {docs : List Json} {vs : List Value} {K : Heap}
    (hm : Stmt.allClosed (Stmt.localNames m.parameters m.body) m.body = true)
    (hext : Heap.Extends initialHeap K) (hloaded : LoadedAll K K.size initialHeap.size vs docs)
    (hlen : docs.length < Number.greatestExact) {outs : List (Option (List Emitted))}
    (hyields : List.Forall₂ m.Yields docs outs) :
    (Stmt.execAll (apply maxDepth) [Scope.globals] ending (loopHeap m vs.toArray K)).toOption.map
        Prod.fst =
      (outs.mapM id).map fun ess => .normal (scriptValue ess) := by
  have hsize := hext.size
  rw [size_initialHeap] at hsize
  have hvs : vs.toArray.size = docs.length := by simpa using hloaded.length_eq
  have hexec : (Stmt.block ([.expression (.assign (.name "__index") (.number (.int 0)))] ++
      [.loop loopTest loopStep loopBody])).exec (apply maxDepth) [Scope.globals]
      (loopHeap m vs.toArray K) = loop maxRounds (loopHeap m vs.toArray K) :=
    exec_loop (by have h0 : Scope.globals = 0 := rfl; simp; omega)
  have hrounds : docs.length < maxRounds := by
    have h1 : maxRounds = Number.greatestExact + 1 := rfl
    omega
  obtain ⟨hnone, e, he⟩ | ⟨K', ws, lo, hloop, hstate, hwaits⟩ :=
    loop_run hm (by omega) (loopHeap_state m hext hloaded) hyields maxRounds hrounds
  · rw [hnone, ending, execAll_cons (by simp), Run.bind_error (hexec.trans he)]
    rfl
  · rw [ending, execAll_next (hexec.trans hloop) (by simp)]
    have heval := eval_stringify hstate.untouched hstate.ready.globals
    have hwaiting : Waiting (placesAfter hext) (0 + docs.length) K' (itemsOf ws).toArray ws :=
      ⟨hstate.ready.channel, hstate.untouched, hstate.here, hstate.separate⟩
    have hstring := stringify_waits hwaiting hwaits (by rw [← hyields.length_eq]; omega)
    simp only [Stmt.execAll, Stmt.exec]
    rw [toOption_run_map, heval, Option.map_map]
    show Option.map (Completion.normal ∘ Prod.fst) _ = _
    rw [← Option.map_map]
    exact (congrArg (Option.map Completion.normal) hstring).trans (Option.map_map ..)

/-! ## The script -/

theorem runAll_error {body : List Stmt} {K K1 : Heap} {f : Fault}
    (hprepare : prepare Scope.globals [Scope.globals] body K = .ok ((), K1))
    (hrun : Stmt.execAll (apply maxDepth) [Scope.globals] body K1 = .error f) :
    runAll body K = .error f := by
  rw [runAll, Run.bind_ok hprepare, Run.bind_error hrun]

theorem runAll_normal {body : List Stmt} {K K1 K2 : Heap} {v : Value}
    (hprepare : prepare Scope.globals [Scope.globals] body K = .ok ((), K1))
    (hrun : Stmt.execAll (apply maxDepth) [Scope.globals] body K1 = .ok (.normal v, K2)) :
    runAll body K = .ok (v, K2) := by
  rewrite [runAll, Run.bind_ok hprepare, Run.bind_ok hrun]
  rfl

/-- the script gives the text of what its documents emit, each on its own; it fails exactly if one
of them does -/
theorem program_run {m : Mapper} {docs : List Json}
    (hm : Stmt.allClosed (Stmt.localNames m.parameters m.body) m.body = true)
    (hdocs : Json.EachNumberIn Json.Number.Finite docs)
    (hlen : docs.length < Number.greatestExact) {outs : List (Option (List Emitted))}
    (hyields : List.Forall₂ m.Yields docs outs) :
    ((runAll (program (docsText docs) m.expr)).run' Realm.heap).toOption =
      (outs.mapM id).map scriptValue := by
  obtain ⟨vs, K, hitems, hext, hloaded⟩ := items_loaded pristine_initialHeap docs
  have hend := ending_run hm hext hloaded hlen hyields
  rw [← beginning_run m hdocs hitems hext] at hend
  cases hx : Stmt.execAll (apply maxDepth) [Scope.globals] (program (docsText docs) m.expr)
      initialHeap with
  | error e =>
    have hrun := runAll_error (prepare_run _ _) hx
    show ((runAll (program (docsText docs) m.expr) Realm.heap).map Prod.fst).toOption = _
    rw [hrun]
    rw [hx] at hend
    cases hall : outs.mapM id with
    | none => rfl
    | some ess =>
      rw [hall] at hend
      cases hend
  | ok q =>
    obtain ⟨c, K'⟩ := q
    rw [hx] at hend
    cases hall : outs.mapM id with
    | none =>
      rw [hall] at hend
      cases hend
    | some ess =>
      rw [hall] at hend
      simp only [Except.toOption, Option.map_some, Option.some.injEq] at hend
      subst hend
      have hrun := runAll_normal (prepare_run _ _) hx
      show ((runAll (program (docsText docs) m.expr) Realm.heap).map Prod.fst).toOption = _
      rw [hrun]
      rfl

end ViewDesign.Evaluation
