import ViewDesign.Proofs.Evaluation.Documents

/-!
# One document of many

While the script runs, the call on one of its documents does what the call on this document alone
would do, and leaves everything alone that belongs to the others.  What the documents before it have
emitted is not written before all calls are over; until then it waits.

* `Places`              the addresses of what the script holds besides its documents;
* `Wait`                what a call has left behind, along a link to the heap of the call alone;
* `State`               the heap between two calls;
* `call_yields`         a call in such a heap against the call on the document alone;
* `State.afterCall`     the heap after it is again one between two calls.
-/

namespace ViewDesign.Evaluation

open Script

/-! ## What the script holds -/

/-- The addresses of the array of documents, the array of records and the map function.  They come
after the function `emit`, the first object that the script makes. -/
structure Places where
  docs : Nat
  emitted : Nat
  map : Nat
  order : Realm.size < docs ∧ docs < emitted ∧ emitted < map

namespace Places

variable (p : Places)

/-- The global variables at the document with a number. -/
def globals (i : Nat) : Object :=
  { members := [("__docs", .object p.docs), ("__emitted", .object p.emitted),
      ("__index", .number (.int i)), ("__map", .object p.map), ("emit", .object Realm.size)] }

theorem get?_emit (i : Nat) :
    Entries.get? "emit" (p.globals i).members = some (.object Realm.size) := by
  simp [globals, Entries.get?]

theorem get?_emitted (i : Nat) :
    Entries.get? "__emitted" (p.globals i).members = some (.object p.emitted) := by
  simp [globals, Entries.get?]

theorem get?_index (i : Nat) :
    Entries.get? "__index" (p.globals i).members = some (.number (.int i)) := by
  simp [globals, Entries.get?]

/-- no variable of the script is a constant -/
theorem get?_constant (i : Nat) (x : String) (hx : (Scope.constant? x).isSome = true) :
    Entries.get? x (p.globals i).members = none := by
  have hne : ∀ y : String, Scope.constant? y = none → x ≠ y := by
    rintro y hy rfl
    rw [hy] at hx
    cases hx
  simp [globals, Entries.get?, hne "__docs" (by simp [Scope.constant?]),
    hne "__emitted" (by simp [Scope.constant?]), hne "__index" (by simp [Scope.constant?]),
    hne "__map" (by simp [Scope.constant?]), hne "emit" (by simp [Scope.constant?])]

theorem later : p.emitted ≠ Realm.size ∧ Realm.size ≤ Realm.size ∧ Realm.size ≤ p.emitted := by
  have horder := p.order
  omega

/-- The place where calls on the document with a number emit. -/
def site (i : Nat) : Site where
  globals := p.globals i
  emitter := Realm.size
  emitted := p.emitted
  index := .number (.int i)
  emit := p.get?_emit i
  array := p.get?_emitted i
  number := p.get?_index i
  constant := p.get?_constant i
  apart := p.later.1
  later := p.later.2

/-- The addresses that no document and no record has: those of the objects that no function refers
to, of `emit` and of the array of records. -/
def Fixed (a : Nat) : Prop := a < Realm.objectPrototype ∨ a = Realm.size ∨ a = p.emitted

end Places

/-- What the script holds besides its documents. -/
structure Ready (m : Mapper) (p : Places) (vs : Array Value) (K : Heap) (i : Nat)
    (items : Array Value) : Prop where
  globals : K[Scope.globals]? = some (p.globals i)
  emitter : K[Realm.size]? = some (.ofClosure "emit" emitClosure)
  docs : K[p.docs]? = some { kind := .array vs }
  emitted : K[p.emitted]? = some { kind := .array items }
  map : K[p.map]? = some (.ofClosure "__map" m.closure)

theorem Ready.channel {m : Mapper} {p : Places} {vs items : Array Value} {K : Heap} {i : Nat}
    (h : Ready m p vs K i items) : Channel (p.site i) K items :=
  ⟨h.globals, h.emitter, h.emitted⟩

/-! ## What calls have left behind -/

/-- What a call has left behind: the number of its document, the heap of the call on the document
alone with what it emitted there, the link to this heap, and the records on both sides. -/
structure Wait where
  index : Nat
  link : Link
  heap : Heap
  items : Array Value
  records : List (Nat × Nat)

namespace Wait

/-- The addresses that belong to a call: of its document, of what it has made, and its records. -/
def Own (w : Wait) (a : Nat) : Prop :=
  Realm.size ≤ a ∧ ((∃ b r, w.link a b r) ∨ ∃ q ∈ w.records, a = q.1)

/-- What a call has left behind is there. -/
structure Here (p : Places) (K : Heap) (w : Wait) : Prop where
  mirrored : Mirrored false finished w.link K w.heap
  untouched : Untouched w.heap
  right : Channel sole w.heap w.items
  records : ∀ q ∈ w.records,
    Recorded (.number (.int w.index)) (.number (.int (0 : Nat))) w.link K w.heap q
  fixed : ∀ q ∈ w.records, Realm.size ≤ q.1 ∧ ¬ p.Fixed q.1
  apart : ∀ {a b r}, w.link a b r → ¬ p.Fixed a ∧
    (b ≠ Scope.globals ∧ b ≠ sole.emitter ∧ b ≠ sole.emitted) ∧
      ∀ q ∈ w.records, a ≠ q.1 ∧ b ≠ q.2

section
variable {p : Places} {K K' : Heap} {w : Wait}

/-- what is linked is an object from the start or belongs to the call -/
theorem Here.own_or_shared (h : w.Here p K) {a b : Nat} {r : Role} (hl : w.link a b r) :
    Realm.Shared a ∨ w.Own a := by
  have hfixed := (h.apart hl).1
  by_cases hlt : a < Realm.size
  · exact Or.inl ⟨Nat.le_of_not_lt fun hlow => hfixed (Or.inl hlow), hlt⟩
  · exact Or.inr ⟨Nat.le_of_not_lt hlt, Or.inl ⟨b, r, hl⟩⟩

theorem Here.own (h : w.Here p K) {a : Nat} (ha : w.Own a) : a < K.size ∧ ¬ p.Fixed a := by
  obtain ⟨-, ⟨b, r, hl⟩ | ⟨q, hq, rfl⟩⟩ := ha
  · exact ⟨(h.mirrored.lt_size hl).1, (h.apart hl).1⟩
  · exact ⟨(h.records q hq).lt_size.1, (h.fixed q hq).2⟩

/-- it stays there as long as nothing changes that belongs to it, nor the objects from the start -/
theorem Here.of_same (h : w.Here p K) (hK : Untouched K) (hK' : Untouched K')
    (hsame : ∀ a, w.Own a → K'[a]? = K[a]?) : w.Here p K' := by
  have hlinked : ∀ {a b r}, w.link a b r → K'[a]? = K[a]? := by
    intro a b r hl
    obtain ⟨hlo, hhi⟩ | hown := h.own_or_shared hl
    · have hpos : 0 < a := Nat.lt_of_lt_of_le (by decide) hlo
      exact (hK' a hpos hhi).trans (hK a hpos hhi).symm
    · exact hsame a hown
  refine ⟨h.mirrored.of_same (fun hp => hp) hlinked fun _ => rfl, h.untouched, h.right, ?_, h.fixed,
    h.apart⟩
  intro q hq
  exact (h.records q hq).of_same (.refl _) (hsame _ ⟨(h.fixed q hq).1, Or.inr ⟨q, hq, rfl⟩⟩) rfl

end

end Wait

/-- The records of several calls. -/
def itemsOf (ws : List Wait) : List Value :=
  ws.flatMap fun w => w.records.map fun q => .object q.1

/-- Calls that have nothing in common. -/
def Separate (ws : List Wait) : Prop := ws.Pairwise fun w w' => ∀ a, w.Own a → ¬ w'.Own a

/-- The heap before the call on the document with a number.  The calls before it have left behind
what waits, and from `lo` to `hi` are the documents still to come. -/
structure State (m : Mapper) (p : Places) (vs : Array Value) (hi : Nat) (K : Heap) (i : Nat)
    (ws : List Wait) (lo : Nat) (ds : List Json) : Prop where
  ready : Ready m p vs K i (itemsOf ws).toArray
  untouched : Untouched K
  loaded : LoadedAll K hi lo (vs.toList.drop i) ds
  bounds : Realm.size < lo ∧ hi ≤ p.docs
  here : ∀ w ∈ ws, w.Here p K
  away : ∀ w ∈ ws, ∀ a, w.Own a → ¬ (lo ≤ a ∧ a < hi)
  separate : Separate ws

section
variable {m : Mapper} {p : Places} {vs : Array Value} {hi lo i : Nat} {K : Heap}
  {ws : List Wait} {ds : List Json}

/-! ## The two sides of a call -/

/-- What is kept during a call: what waits, the documents still to come, the two objects that the
loop uses, and the objects that no function refers to. -/
def keptAt (p : Places) (ws : List Wait) (mid hi a : Nat) : Prop :=
  (∃ w ∈ ws, w.Own a) ∨ (mid ≤ a ∧ a < hi) ∨ a = p.docs ∨ a = p.map ∨
    (0 < a ∧ a < Realm.objectPrototype)

/-- The call on a document of the script, and the call on the document alone. -/
def sides (fault : Fault) (h : State m p vs hi K i ws lo ds) (mid : Nat) (H : Heap) : Sides where
  fault := fault
  left := p.site i
  right := sole
  before := (itemsOf ws).toArray
  before' := #[]
  start := K
  start' := H
  kept := keptAt p ws mid hi
  kept' _ := False
  kept_lt := by
    have horder := p.order
    have hbounds := h.bounds
    have hmap := (Array.getElem?_eq_some_iff.1 h.ready.map).1
    have hsite : (p.site i).emitted = p.emitted := rfl
    have hfour : Realm.objectPrototype = 4 := rfl
    have hten := Realm.ten_le_size
    rintro a (⟨w, hw, ha⟩ | ⟨hlo, hhi⟩ | rfl | rfl | ⟨hpos, hlow⟩)
    · obtain ⟨hlt, hfixed⟩ := (h.here w hw).own ha
      exact ⟨hlt, fun e => hfixed (Or.inr (Or.inr e))⟩
    · omega
    · omega
    · omega
    · omega
  kept_lt' _ hb := hb.elim

/-- before the call the document is all that is linked besides the objects from the start -/
theorem traffic_start (fault : Fault) (h : State m p vs hi K i ws lo ds) {mid : Nat}
    (hmid : lo ≤ mid) (hle : mid ≤ hi) {H : Heap} (hright : Channel sole H #[]) {L : Link}
    (hin : ∀ a b r, L a b r → nativeLink a b r ∨ (lo ≤ a ∧ a < mid) ∧ soleHeap.size ≤ b) :
    Traffic (sides fault h mid H) [] L K H := by
  have horder := p.order
  have hbounds := h.bounds
  have hsize := size_soleHeap
  have h0 : Scope.globals = 0 := rfl
  have hfour : Realm.objectPrototype = 4 := rfl
  have hten := Realm.ten_le_size
  refine ⟨?_, ?_, by simp, by simp, ⟨Nat.le_refl _, Nat.le_refl _⟩, fun _ _ => rfl,
    fun _ _ => rfl, ?_⟩
  · simpa [sides] using h.ready.channel
  · simpa [sides] using hright
  · intro a b r hl
    have hrange : (4 ≤ a ∧ a < Realm.size ∧ b = a) ∨
        (lo ≤ a ∧ a < mid ∧ Realm.size + 2 ≤ b) := by
      obtain ⟨rfl, -, hlo, hhi⟩ | ⟨⟨hlo, hhi⟩, hb⟩ := hin a b r hl
      · exact Or.inl ⟨hlo, hhi, rfl⟩
      · exact Or.inr ⟨hlo, hhi, hsize ▸ hb⟩
    refine ⟨⟨?_, ?_⟩, ⟨fun hb => hb, ?_⟩, by simp⟩
    · rintro (⟨w, hw, ha⟩ | ⟨hlo', -⟩ | rfl | rfl | ⟨hpos, hlow⟩)
      · have hown : Realm.size ≤ a := ha.1
        exact h.away w hw a ha (by omega)
      · omega
      · omega
      · omega
      · omega
    · show a ≠ Scope.globals ∧ a ≠ Realm.size ∧ a ≠ p.emitted
      omega
    · show b ≠ Scope.globals ∧ b ≠ Realm.size ∧ b ≠ Realm.size + 1
      omega

/-- What a call on a document has left behind: the records in it are those that the call on the
document alone has emitted, and writing them keeps the objects from the start. -/
structure Wait.Of (fault : Fault) (es : Option (List Emitted)) (w : Wait) : Prop where
  yields : es = (((w.records.map Prod.snd).mapM (writeRecord recordLevels (watcher fault)))
    w.heap).toOption.map Prod.fst
  keeps : WritesKeep fault (w.records.map Prod.snd) w.heap

/-- the call on the document alone starts in the heap where the document has been loaded -/
theorem call_eq {call : Caller} {d : Json} {w : Value} {H : Heap}
    (hrun : Value.ofNode (Json.nodeIn Json.floatLayout d) soleHeap = .ok (w, H)) :
    m.call call d soleHeap = m.closure.enter call [w] H := by
  rw [Mapper.call, Run.bind_ok hrun]

theorem run_eq {call : Caller} {d : Json} {r : Value} {H : Heap} {as : List Nat}
    (hcall : m.call call d soleHeap = .ok (r, H))
    (has : H[sole.emitted]? = some { kind := .array (as.map Value.object).toArray }) :
    m.run recordLevels call d soleHeap = as.mapM (writeRecord recordLevels call) H := by
  rw [Mapper.run, Run.bind_ok hcall, Run.bind_ok (load_run has), addressesIn_objects]

/-- the array of the call on the document alone -/
theorem emitted_right {fault : Fault} {h : State m p vs hi K i ws lo ds} {mid : Nat}
    {H K' H' : Heap} {M : Link} {ps : List (Nat × Nat)}
    (ht : Traffic (sides fault h mid H) ps M K' H') :
    H'[sole.emitted]? =
      some { kind := .array ((ps.map Prod.snd).map Value.object).toArray } := by
  simpa [sides, Function.comp_def] using ht.right.emitted

/-- a call on a document of the script against the call on the document alone -/
theorem call_yields (hm : Stmt.allClosed (Stmt.localNames m.parameters m.body) m.body = true)
    (h : State m p vs hi K i ws lo ds) {mid : Nat} {v : Value} {d : Json}
    (hv : Loaded K lo mid v d) (hmid : lo ≤ mid) (hle : mid ≤ hi) {es : Option (List Emitted)}
    (hyields : m.Yields d es) :
    (es = none ∧ ∃ e, m.closure.enter (apply (maxDepth - 1)) [v] K = .error e) ∨
    ∃ fault r K' H H' M ps, m.closure.enter (apply (maxDepth - 1)) [v] K = .ok (r, K') ∧
      Corresponds (between (sides fault h mid H)) finished M K' H' ∧
      Traffic (sides fault h mid H) ps M K' H' ∧ Untouched H' ∧
      Wait.Of fault es ⟨i, M, H', (ps.map fun q => Value.object q.2).toArray, ps⟩ := by
  obtain ⟨fault, hintact, rfl⟩ := hyields
  obtain ⟨L, H, w, hrun, hvw, hc, hin⟩ := hv
  obtain ⟨w', H₁, hrun', hext, -⟩ := ofNode_run d soleHeap
  rw [hrun] at hrun'
  cases hrun'
  have hright := channel_soleHeap.extends hext
  have htraffic := traffic_start fault h hmid hle hright hin
  have hstart : Corresponds (between (sides fault h mid H)) finished L K H :=
    ⟨hc.of_same (fun hp => nomatch hp) (fun _ => rfl) fun _ => rfl,
      ⟨Nat.zero_le _, Nat.zero_le _, Nat.lt_of_le_of_lt (Nat.zero_le _) h.ready.channel.lt_size.1,
        Nat.lt_of_le_of_lt (Nat.zero_le _) hright.lt_size.1⟩, [], htraffic⟩
  have hcall : m.call (watcher fault) d soleHeap = m.closure.enter (watcher fault) [w] H :=
    call_eq hrun
  obtain ⟨f, hr, hl⟩ | ⟨r, K', r', H', M, hl, hr, -, hc', -⟩ :=
    (enter_agrees (sides fault h mid H) hm (maxDepth - 1) hvw K H hstart).cases
  · -- the call alone was not spoiled, so it failed as the call in the script does
    refine Or.inl ⟨?_, f, hl.resolve_right (hintact.error f (hcall.trans hr))⟩
    rw [Mapper.run, Run.bind_error (hcall.trans hr)]
    rfl
  · obtain ⟨ps, ht⟩ := hc'.rest
    have hemitted := emitted_right ht
    have hkept := hintact.ok r' H' (hcall.trans hr)
    rw [hemitted, Option.getD_some, addressesIn_objects] at hkept
    refine Or.inr ⟨fault, r, K', H, H', M, ps, hl, hc', ht, hkept.1, ?_, hkept.2⟩
    rw [run_eq (hcall.trans hr) hemitted]

/-! ## After a call -/

section
variable {fault : Fault} {h : State m p vs hi K i ws lo ds} {mid : Nat} {M : Link} {K' H H' : Heap}
  {ps : List (Nat × Nat)} (hc : Corresponds (between (sides fault h mid H)) finished M K' H')
  (ht : Traffic (sides fault h mid H) ps M K' H')
include hc ht

/-- the objects from the start are as they were in the call on the document alone -/
theorem untouched_afterCall (hH' : Untouched H') : Untouched K' := by
  have hfour : Realm.objectPrototype = 4 := rfl
  intro a hpos hlt
  by_cases hlow : a < Realm.objectPrototype
  · exact (ht.kept a (Or.inr (Or.inr (Or.inr (Or.inr ⟨hpos, hlow⟩))))).trans
      (h.untouched a hpos hlt)
  · exact hc.mirrored.untouched
      (fun b hb => hH' b (Nat.lt_of_lt_of_le (by decide) hb.1) hb.2) ⟨Nat.le_of_not_lt hlow, hlt⟩

omit hc in
/-- what the call has made has none of the addresses that are fixed -/
theorem fixed_afterCall :
    (∀ q ∈ ps, K.size ≤ q.1 ∧ ¬ p.Fixed q.1) ∧ ∀ {a b r}, M a b r → ¬ p.Fixed a := by
  have horder := p.order
  have hmap := (Array.getElem?_eq_some_iff.1 h.ready.map).1
  have hfour : Realm.objectPrototype = 4 := rfl
  have hten := Realm.ten_le_size
  constructor
  · intro q hq
    have hnew : K.size ≤ q.1 := ht.new q hq
    refine ⟨hnew, ?_⟩
    rintro (hlow | he | he) <;> omega
  · intro a b r hl
    obtain ⟨⟨hkept, ha0, ha1, hae⟩, -⟩ := ht.apart hl
    rintro (hlow | he | he)
    · exact hkept (Or.inr (Or.inr (Or.inr (Or.inr ⟨Nat.pos_of_ne_zero ha0, hlow⟩))))
    · exact ha1 he
    · exact hae he

/-- what the call has left behind is there -/
theorem here_afterCall (hH' : Untouched H') :
    Wait.Here p K' ⟨i, M, H', (ps.map fun q => Value.object q.2).toArray, ps⟩ := by
  obtain ⟨hrecords, hlinked⟩ := fixed_afterCall ht
  have hsize := h.ready.channel.lt_size.2.1
  have hemitter : (p.site i).emitter = Realm.size := rfl
  refine ⟨hc.mirrored, hH', ?_, ht.records, fun q hq => ⟨?_, (hrecords q hq).2⟩, fun hl => ?_⟩
  · simpa [sides] using ht.right
  · have hnew := (hrecords q hq).1
    show Realm.size ≤ q.1
    omega
  · obtain ⟨-, ⟨-, hb⟩, hps⟩ := ht.apart hl
    exact ⟨hlinked hl, hb, hps⟩

omit hc in
/-- what belongs to a call belongs to no call before it and to no document still to come -/
theorem own_afterCall {a : Nat}
    (ha : Wait.Own ⟨i, M, H', (ps.map fun q => Value.object q.2).toArray, ps⟩ a) :
    (∀ w ∈ ws, ¬ w.Own a) ∧ ¬ (mid ≤ a ∧ a < hi) := by
  have horder := p.order
  have hbounds := h.bounds
  have hdocs := (Array.getElem?_eq_some_iff.1 h.ready.docs).1
  obtain ⟨-, ⟨b, r, hl⟩ | ⟨q, hq, rfl⟩⟩ := ha
  · have hkept := (ht.apart hl).1.1
    exact ⟨fun w hw hown => hkept (Or.inl ⟨w, hw, hown⟩), fun hin => hkept (Or.inr (Or.inl hin))⟩
  · have hnew : K.size ≤ q.1 := ht.new q hq
    refine ⟨fun w hw hown => ?_, by omega⟩
    have hlt := ((h.here w hw).own hown).1
    omega

omit hc in
theorem ready_afterCall : Ready m p vs K' i
    (itemsOf (ws ++ [⟨i, M, H', (ps.map fun q => Value.object q.2).toArray, ps⟩])).toArray := by
  have hitems :
      (itemsOf (ws ++ [⟨i, M, H', (ps.map fun q => Value.object q.2).toArray, ps⟩])).toArray =
        (itemsOf ws).toArray ++ (ps.map fun q => Value.object q.1).toArray := by
    simp [itemsOf]
  refine ⟨ht.left.globals, ht.left.emitter, ?_, ?_, ?_⟩
  · rw [ht.kept p.docs (Or.inr (Or.inr (Or.inl rfl)))]
    exact h.ready.docs
  · rw [hitems]
    exact ht.left.emitted
  · rw [ht.kept p.map (Or.inr (Or.inr (Or.inr (Or.inl rfl))))]
    exact h.ready.map

/-- the heap after a call, with the next number, is again one between two calls -/
theorem State.afterCall (hmid : lo ≤ mid) (hH' : Untouched H') {rest : List Json}
    (hrest : LoadedAll K hi mid (vs.toList.drop (i + 1)) rest) :
    State m p vs hi (K'.setIfInBounds Scope.globals (p.globals (i + 1))) (i + 1)
      (ws ++ [⟨i, M, H', (ps.map fun q => Value.object q.2).toArray, ps⟩]) mid rest := by
  have horder := p.order
  have hbounds := h.bounds
  have h0 : Scope.globals = 0 := rfl
  have hfour : Realm.objectPrototype = 4 := rfl
  have hsize := Realm.size_pos
  have hready := ready_afterCall ht
  have huntouched := untouched_afterCall hc ht hH'
  have hother : ∀ {a}, a ≠ 0 →
      (K'.setIfInBounds Scope.globals (p.globals (i + 1)))[a]? = K'[a]? := by
    intro a ha
    rw [Array.getElem?_setIfInBounds, if_neg (by omega)]
  have huntouched' : Untouched (K'.setIfInBounds Scope.globals (p.globals (i + 1))) :=
    fun a hpos hlt => (hother (by omega)).trans (huntouched a hpos hlt)
  have hlt := hready.channel.lt_size.1
  refine ⟨⟨?_, ?_, ?_, ?_, ?_⟩, huntouched', ?_, ⟨by omega, hbounds.2⟩, ?_, ?_, ?_⟩
  · rw [Array.getElem?_setIfInBounds, if_pos rfl, if_pos (by omega)]
  · exact (hother (by omega)).trans hready.emitter
  · exact (hother (by omega)).trans hready.docs
  · exact (hother (by omega)).trans hready.emitted
  · exact (hother (by omega)).trans hready.map
  · -- the documents still to come were all kept
    refine hrest.of_same ?_
    rintro a (⟨hlo, hhi⟩ | ha)
    · have hpos : 0 < a := by omega
      exact (huntouched' a hpos hhi).trans (h.untouched a hpos hhi).symm
    · exact (hother (by omega)).trans (ht.kept a (Or.inr (Or.inl ha)))
  · intro w hw
    rcases List.mem_append.mp hw with hw | hw
    · refine (h.here w hw).of_same h.untouched huntouched' fun a ha => ?_
      have hown : Realm.size ≤ a := ha.1
      exact (hother (by omega)).trans (ht.kept a (Or.inl ⟨w, hw, ha⟩))
    · rw [List.mem_singleton.mp hw]
      refine (here_afterCall hc ht hH').of_same huntouched huntouched' fun a ha => ?_
      have hown : Realm.size ≤ a := ha.1
      exact hother (by omega)
  · intro w hw a ha
    rcases List.mem_append.mp hw with hw | hw
    · have haway := h.away w hw a ha
      omega
    · rw [List.mem_singleton.mp hw] at ha
      exact (own_afterCall ht ha).2
  · refine List.pairwise_append.mpr ⟨h.separate, List.pairwise_singleton _ _, ?_⟩
    intro w hw w' hw' a ha ha'
    rw [List.mem_singleton.mp hw'] at ha'
    exact (own_afterCall ht ha').1 w hw ha

end

end

end ViewDesign.Evaluation
