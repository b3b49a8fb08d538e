import ViewDesign.Proofs.Evaluation.Round

/-!
# Writing what was emitted

After the last call the records are written one after the other.  A record is written in the heap of
the script as it is in the heap of the call on its document alone, and what other calls have left
behind stays where it is; so do the objects from the start, unless the call alone changes them.

* `serialize_record`      a record is written member by member;
* `record_agrees`         in both heaps alike;
* `Waiting`               the heap before a record is written;
* `write_wait`            all records of a call are written;
* `write_waits`           those of all calls.
-/

namespace ViewDesign.Evaluation

open Script

theorem toOption_run_map {α β : Type} (x : Run α) (g : α → β) (K : Heap) :
    ((x >>= fun a => pure (g a)) K).toOption = (x K).toOption.map fun p => (g p.1, p.2) := by
  cases h : x K with
  | error e =>
    rw [Run.bind_error h]
    rfl
  | ok p =>
    obtain ⟨a, K'⟩ := p
    rw [Run.bind_ok h]
    rfl

/-! ## One record -/

section
variable {K : Heap} {a i : Nat} {k v : Value}

theorem own?_record (key : String) :
    (record (.number (.int i)) k v).own? key =
      (Entries.get? key (record (.number (.int i)) k v).members).map .value :=
  own?_of_plain rfl rfl key

/-- a record is written member by member, and each member is read when its turn comes -/
theorem serialize_record (hK : Untouched K) (ha : K[a]? = some (record (.number (.int i)) k v))
    (hexact : i ≤ Number.greatestExact) (call : Caller) (levels : Nat) {around : List Nat}
    (haround : a ∉ around) (name : String) :
    (Value.object a).serialize call (levels + 2) around name K = (do
      let key ← k.serialize call (levels + 1) (a :: around) "key"
      let value ← (Value.object a).getMember "value"
      let value ← value.serialize call (levels + 1) (a :: around) "value"
      return some ((⟨key, value⟩ : Emitted).record i) : Run (Option Json)) K := by
  have hmissing : (record (.number (.int i)) k v).own? "toJSON" = none := by
    rw [own?_record]
    rfl
  have hindex : (Value.object a).getMember "index" K = .ok (.number (.int i), K) :=
    getMember_own ha (by rw [own?_record]; rfl)
  have hkey : (Value.object a).getMember "key" K = .ok (k, K) :=
    getMember_own ha (by rw [own?_record]; rfl)
  have hnumber : Value.serialize call (levels + 1) (a :: around) "index" (.number (.int i)) K =
      .ok (some (.num (.int i)), K) := by
    have hjson : (Number.int i).json? = some (.int i) := if_pos (by simpa using hexact)
    show Except.ok (some (((Number.int i).json?.map Json.num).getD .null), K) = _
    rw [hjson]
    rfl
  rw [Value.serialize, Run.bind_ok (replaced_itself call name
    (getMember_missing hK unknown_toJson ha hmissing (Or.inr rfl)) rfl)]
  dsimp only
  rw [Run.bind_ok (load_run ha)]
  dsimp only [record]
  have hvisited : visited ["index", "key", "value"] = ["index", "key", "value"] := by decide
  rw [unlessAround_run haround, Value.membersJson]
  simp only [List.map_cons, List.map_nil, hvisited, List.mapM_cons, List.mapM_nil, bind_assoc,
    pure_bind]
  rw [Run.bind_ok hindex, Run.bind_ok hnumber, Run.bind_ok hkey]
  simp only [Option.map_some]
  have hparts : ∀ key value : Option Json,
      Json.obj (List.filterMap id [some ("index", Json.num (.int i)),
        key.map fun j => ("key", j), value.map fun j => ("value", j)]) =
        (⟨key, value⟩ : Emitted).record i := by
    rintro (_ | key) (_ | value) <;> rfl
  simp only [hparts]

theorem writeRecord_eq {j : Value} (ha : K[a]? = some (record j k v)) (levels : Nat)
    (call : Caller) :
    writeRecord levels call a K = (do
      let key ← k.serialize call levels [] "key"
      let value ← v.serialize call levels [] "value"
      return ⟨key, value⟩ : Run Emitted) K := by
  rw [writeRecord, Run.bind_ok (load_run ha)]
  rfl

end

section
variable {P : Sides} {L : Link} {K H : Heap} {q : Nat × Nat} {i : Nat} {j : Value}

theorem maxNesting_writing : maxNesting - 1 = 9007199254740990 + 2 ∧
    recordLevels = 9007199254740990 + 1 := ⟨rfl, rfl⟩

/-- a record that is kept is written in both heaps alike -/
theorem record_agrees (hc : Corresponds (between P) finished L K H)
    (hrecord : Recorded (.number (.int i)) j L K H q) (hK : Untouched K) (hkept : P.kept q.1)
    (hstart : P.start[q.1]? = K[q.1]?) (hexact : i ≤ Number.greatestExact) (name : String)
    (depth : Nat) :
    Ends (between P) L (fun _ r e => r = some (e.record i))
      ((Value.object q.1).serialize (apply depth) (maxNesting - 1) [P.left.emitted] name K)
      (writeRecord recordLevels (watched P.right.emitter P.fault depth) q.2 H) := by
  obtain ⟨k, v, k', v', hk, hh, hkk, hvv⟩ := hrecord
  have hne : q.1 ∉ [P.left.emitted] := by
    simpa using (P.kept_lt q.1 hkept).2
  have hcall := calls_agree P depth
  -- neither the record nor the array is among what the member refers to
  have hstacked : Stacked (between P) L [q.1, P.left.emitted] [] := by
    refine stacked_of_apart fun M _ K' H' hc' a b hl => ?_
    obtain ⟨ps, ht⟩ := hc'.rest
    obtain ⟨⟨hnot, -, -, hemitted⟩, -⟩ := ht.apart hl
    rw [List.mem_cons, List.mem_singleton, not_or]
    exact ⟨fun e => hnot (e ▸ hkept), hemitted⟩
  rw [maxNesting_writing.1, serialize_record hK hk hexact _ _ hne, writeRecord_eq hh,
    maxNesting_writing.2]
  refine Agree.bind (agree_serialize hcall _ hstacked "key" hkk) (fun M hle key key' e => ?_) K H hc
  subst e
  have hvalue := agree_serialize hcall (9007199254740990 + 1) (hstacked.mono hle) "value"
    (hvv.mono hle)
  -- the record is still where it was when its value is read
  intro K' H' hc'
  obtain ⟨ps, ht⟩ := hc'.rest
  have hk' : K'[q.1]? = some (record (.number (.int i)) k v) :=
    ((ht.kept q.1 hkept).trans hstart).trans hk
  rw [Run.bind_ok (getMember_own hk' (by rw [own?_record]; rfl))]
  refine Agree.bind hvalue (fun N _ value value' e => Agree.pure ?_) K' H' hc'
  rw [e]

end

/-! ## The heap before a record is written -/

/-- The heap before a record is written.  What waits is there, and the array of records begins with
those of all calls. -/
structure Waiting (p : Places) (n : Nat) (K : Heap) (items : Array Value) (ws : List Wait) :
    Prop where
  channel : Channel (p.site n) K items
  untouched : Untouched K
  here : ∀ w ∈ ws, w.Here p K
  separate : Separate ws

section
variable {p : Places} {n : Nat} {K : Heap} {items : Array Value} {w : Wait} {ws : List Wait}

/-- What is kept while a record is written: what the other calls have left behind, the records of
its own call, and the objects that no function refers to. -/
def keptWriting (w : Wait) (ws : List Wait) (a : Nat) : Prop :=
  (∃ w' ∈ ws, w'.Own a) ∨ (∃ q ∈ w.records, a = q.1) ∨ (0 < a ∧ a < Realm.objectPrototype)

/-- The heap of the script, and that of the call on the document alone. -/
def writingSides (fault : Fault) (h : Waiting p n K items (w :: ws)) : Sides where
  fault := fault
  left := p.site n
  right := sole
  before := items
  before' := w.items
  start := K
  start' := w.heap
  kept := keptWriting w ws
  kept' b := ∃ q ∈ w.records, b = q.2
  kept_lt := by
    have hw := h.here w (List.mem_cons_self ..)
    have hemitted : (p.site n).emitted = p.emitted := rfl
    have hlater := (p.site n).later.2
    have hfour : Realm.objectPrototype = 4 := rfl
    have hten := Realm.ten_le_size
    have hsize := h.channel.lt_size.2.2
    have hnot : ∀ {a}, ¬ p.Fixed a → a ≠ p.emitted :=
      fun hfixed e => hfixed (Or.inr (Or.inr e))
    rintro a (⟨w', hw', ha⟩ | ⟨q, hq, rfl⟩ | ⟨hpos, hlow⟩)
    · obtain ⟨hlt, hfixed⟩ := (h.here w' (List.mem_cons_of_mem _ hw')).own ha
      exact ⟨hlt, hnot hfixed⟩
    · exact ⟨(hw.records q hq).lt_size.1, hnot (hw.fixed q hq).2⟩
    · omega
  kept_lt' := by
    have hw := h.here w (List.mem_cons_self ..)
    rintro b ⟨q, hq, rfl⟩
    exact ⟨(hw.records q hq).lt_size.2,
      ((hw.records q hq).ne h.channel.emitted hw.right.emitted).2⟩

/-- before a record is written nothing has been emitted anew -/
theorem corresponds_writing (fault : Fault) (h : Waiting p n K items (w :: ws)) :
    Corresponds (between (writingSides fault h)) finished w.link K w.heap := by
  have hw := h.here w (List.mem_cons_self ..)
  have hpos : ∀ {a s : Nat}, a < s → 0 < s := fun hlt => Nat.lt_of_le_of_lt (Nat.zero_le _) hlt
  refine ⟨hw.mirrored, ⟨Nat.zero_le _, Nat.zero_le _, hpos h.channel.lt_size.1,
    hpos hw.right.lt_size.1⟩, [], ?_, ?_, by simp, by simp, ⟨Nat.le_refl _, Nat.le_refl _⟩,
    fun _ _ => rfl, fun _ _ => rfl, ?_⟩
  · simpa [writingSides] using h.channel
  · simpa [writingSides] using hw.right
  · intro a b r hl
    obtain ⟨hfixed, hb, hrecords⟩ := hw.apart hl
    have hglobals : Scope.globals = 0 := rfl
    have hfour : Realm.objectPrototype = 4 := rfl
    refine ⟨⟨?_, ?_, ?_, ?_⟩, ⟨?_, hb⟩, by simp⟩
    · rintro (⟨w', hw', ha⟩ | ⟨q, hq, rfl⟩ | ⟨hpos, hlow⟩)
      · -- what belongs to another call is not linked, nor is it among the objects from the start
        obtain ⟨-, hhi⟩ | hown := hw.own_or_shared hl
        · exact absurd ha.1 (Nat.not_le_of_lt hhi)
        · exact (List.pairwise_cons.mp h.separate).1 w' hw' a hown ha
      · exact (hrecords q hq).1 rfl
      · exact hfixed (Or.inl hlow)
    · exact fun e => hfixed (Or.inl (by omega))
    · exact fun e => hfixed (Or.inr (Or.inl e))
    · exact fun e => hfixed (Or.inr (Or.inr e))
    · rintro ⟨q, hq, rfl⟩
      exact (hrecords q hq).2 rfl

section
variable {fault : Fault} {h : Waiting p n K items (w :: ws)} {M : Link} {K' H' : Heap}
  {ps : List (Nat × Nat)}
  (hle : w.link.Le M) (hc : Corresponds (between (writingSides fault h)) finished M K' H')
  (ht : Traffic (writingSides fault h) ps M K' H')
include hle hc ht

/-- the heap after a record has been written, from which on the rest of its call has to wait -/
theorem Waiting.afterRecord (hH' : Untouched H') {q : Nat × Nat} {qs : List (Nat × Nat)}
    (hrecords : w.records = q :: qs) :
    Waiting p n K' (items ++ (ps.map fun q => Value.object q.1).toArray)
      (⟨w.index, M, H', w.items ++ (ps.map fun q => Value.object q.2).toArray, qs⟩ :: ws) := by
  have hw := h.here w (List.mem_cons_self ..)
  have hfour : Realm.objectPrototype = 4 := rfl
  have hmem : ∀ q' ∈ qs, q' ∈ w.records := fun q' hq' => hrecords ▸ List.mem_cons_of_mem _ hq'
  have huntouched : Untouched K' := by
    intro a hpos hlt
    by_cases hlow : a < Realm.objectPrototype
    · exact (ht.kept a (Or.inr (Or.inr ⟨hpos, hlow⟩))).trans (h.untouched a hpos hlt)
    · exact hc.mirrored.untouched
        (fun b hb => hH' b (Nat.lt_of_lt_of_le (by decide) hb.1) hb.2) ⟨Nat.le_of_not_lt hlow, hlt⟩
  have hnot : ∀ {a b r}, M a b r → ¬ p.Fixed a := by
    intro a b r hl
    obtain ⟨⟨hkept, ha0, ha1, hae⟩, -⟩ := ht.apart hl
    rintro (hlow | he | he)
    · exact hkept (Or.inr (Or.inr ⟨Nat.pos_of_ne_zero ha0, hlow⟩))
    · exact ha1 he
    · exact hae he
  refine ⟨ht.left, huntouched, ?_, ?_⟩
  · intro w' hw'
    rcases List.mem_cons.mp hw' with rfl | hw'
    · refine ⟨hc.mirrored, hH', ht.right, fun q' hq' => ?_, fun q' hq' => hw.fixed q' (hmem q' hq'),
        fun {a b r} hl => ?_⟩
      · exact (hw.records q' (hmem q' hq')).of_same hle
          (ht.kept _ (Or.inr (Or.inl ⟨q', hmem q' hq', rfl⟩))) (ht.kept' _ ⟨q', hmem q' hq', rfl⟩)
      · obtain ⟨⟨hkept, ha⟩, ⟨hkept', hb⟩, -⟩ := ht.apart hl
        refine ⟨hnot hl, hb, fun q' hq' => ⟨?_, ?_⟩⟩
        · exact fun e => hkept (Or.inr (Or.inl ⟨q', hmem q' hq', e⟩))
        · exact fun e => hkept' ⟨q', hmem q' hq', e⟩
    · exact (h.here w' (List.mem_cons_of_mem _ hw')).of_same h.untouched huntouched fun a ha =>
        ht.kept a (Or.inl ⟨w', hw', ha⟩)
  · obtain ⟨hfirst, hrest⟩ := List.pairwise_cons.mp h.separate
    refine List.pairwise_cons.mpr ⟨fun w' hw' a ha hown => ?_, hrest⟩
    obtain ⟨hsize, ⟨b, r, hl⟩ | ⟨q', hq', rfl⟩⟩ := ha
    · exact (ht.apart hl).1.1 (Or.inl ⟨w', hw', hown⟩)
    · exact hfirst w' hw' _ ⟨hsize, Or.inr ⟨q', hmem q' hq', rfl⟩⟩ hown

end

/-! ## One record after the other -/

/-- Writes the element of the array of records that a name denotes. -/
def writeElement (p : Places) (key : String) : Run (Option Json) := do
  Value.serialize (apply (maxDepth - 1)) (maxNesting - 1) [p.emitted] key
    (← (Value.object p.emitted).getMember key)

/-- The first record that waits is written, and then the others wait; or it is not written in either
heap. -/
theorem write_next {fault : Fault} (h : Waiting p n K items (w :: ws)) {q : Nat × Nat}
    {qs : List (Nat × Nat)} (hrecords : w.records = q :: qs)
    (hexact : w.index ≤ Number.greatestExact)
    (hkeeps : WritesKeep fault (w.records.map Prod.snd) w.heap) {key : String}
    (hkey : (Value.object p.emitted).getMember key K = .ok (.object q.1, K)) :
    ((∃ e, writeElement p key K = .error e) ∧
      ∃ e, writeRecord recordLevels (watcher fault) q.2 w.heap = .error e) ∨
    ∃ e K' M H' more more', writeElement p key K = .ok (some (e.record w.index), K') ∧
      writeRecord recordLevels (watcher fault) q.2 w.heap = .ok (e, H') ∧
      Waiting p n K' (items ++ more) (⟨w.index, M, H', more', qs⟩ :: ws) ∧
      WritesKeep fault (qs.map Prod.snd) H' := by
  have hw := h.here w (List.mem_cons_self ..)
  have hq : q ∈ w.records := hrecords ▸ List.mem_cons_self ..
  rw [hrecords, List.map_cons] at hkeeps
  rw [writeElement, Run.bind_ok hkey]
  obtain ⟨f, hright, hleft⟩ | ⟨r, K', e, H', M, hleft, hright, hle, hc, rfl⟩ :=
    (record_agrees (corresponds_writing fault h) (hw.records q hq) h.untouched
      (Or.inr (Or.inl ⟨q, hq, rfl⟩)) rfl hexact key (maxDepth - 1)).cases
  · exact Or.inl ⟨⟨f, hleft.resolve_right (hkeeps.error f hright)⟩, f, hright⟩
  · obtain ⟨ps, ht⟩ := hc.rest
    obtain ⟨hH', hrest⟩ := hkeeps.ok e H' hright
    exact Or.inr ⟨e, K', M, H', _, _, hleft, hright, Waiting.afterRecord hle hc ht hH' hrecords,
      hrest⟩

/-- The names of elements, whatever is appended to the array. -/
def Names (p : Places) (n : Nat) (front : Array Value) (key : String) (v : Value) : Prop :=
  ∀ K more, Channel (p.site n) K (front ++ more) →
    (Value.object p.emitted).getMember key K = .ok (v, K)

theorem names_elements (p : Places) (n : Nat) (front : Array Value) :
    List.Forall₂ (Names p n front) (Value.indexNames front.size) front.toList := by
  rw [Value.indexNames, List.forall₂_map_left_iff, List.forall₂_iff_get]
  refine ⟨by simp, fun i hi hi' K more hc => ?_⟩
  rw [List.length_range] at hi
  have hlt : i < (front ++ more).size := by
    rw [Array.size_append]
    omega
  have helement := getMember_element hc.emitted rfl hlt
  rw [Array.getElem_append_left hi] at helement
  have hsite : (p.site n).emitted = p.emitted := rfl
  rw [hsite] at helement
  simpa using helement

theorem Waiting.tail (h : Waiting p n K items (w :: ws)) : Waiting p n K items ws :=
  ⟨h.channel, h.untouched, fun w' hw' => h.here w' (List.mem_cons_of_mem _ hw'),
    (List.pairwise_cons.mp h.separate).2⟩

/-- All records of a call are written in both heaps, or fail in both. -/
theorem write_wait {fault : Fault} {front more : Array Value} {qs : List (Nat × Nat)}
    {keys : List String} (h : Waiting p n K (front ++ more) (w :: ws)) (hrecords : w.records = qs)
    (hexact : w.index ≤ Number.greatestExact)
    (hkeeps : WritesKeep fault (w.records.map Prod.snd) w.heap)
    (hkeys : List.Forall₂ (Names p n front) keys (qs.map fun q => .object q.1)) :
    ((∃ e, keys.mapM (writeElement p) K = .error e) ∧
      ((qs.map Prod.snd).mapM (writeRecord recordLevels (watcher fault)) w.heap).toOption = none) ∨
    ∃ es K' more', keys.mapM (writeElement p) K =
        .ok (es.map fun e => some (e.record w.index), K') ∧
      ((qs.map Prod.snd).mapM (writeRecord recordLevels (watcher fault)) w.heap).toOption.map
        Prod.fst = some es ∧
      Waiting p n K' (front ++ more') ws := by
  -- on the records, each of which leaves the others waiting
  induction qs generalizing w K more keys with
  | nil =>
    cases hkeys
    exact Or.inr ⟨[], K, more, rfl, rfl, h.tail⟩
  | cons q qs ih =>
    rw [List.map_cons] at hkeys
    obtain ⟨key, rest, hkey, hrestkeys, rfl⟩ := List.forall₂_cons_right_iff.mp hkeys
    rw [List.map_cons, List.mapM_cons, List.mapM_cons]
    obtain ⟨⟨e, hleft⟩, f, hright⟩ |
        ⟨e, K', M, H', more', items', hleft, hright, hwaiting, hrest⟩ :=
      write_next h hrecords hexact hkeeps (hkey K more h.channel)
    · rw [Run.bind_error hleft, Run.bind_error hright]
      exact Or.inl ⟨⟨e, rfl⟩, rfl⟩
    · rw [Array.append_assoc] at hwaiting
      rw [Run.bind_ok hleft, Run.bind_ok hright]
      obtain ⟨⟨f, hfail⟩, hnone⟩ | ⟨es, K'', more'', hwritten, hes, hafter⟩ :=
        ih hwaiting rfl hexact hrest hrestkeys
      · refine Or.inl ⟨⟨f, Run.bind_error hfail⟩, ?_⟩
        rw [toOption_run_map, hnone]
        rfl
      · refine Or.inr ⟨e :: es, K'', more'', ?_, ?_, hafter⟩
        · rw [Run.bind_ok hwritten]
          rfl
        · rw [toOption_run_map, Option.map_map]
          obtain ⟨pair, hpair, rfl⟩ := Option.map_eq_some_iff.mp hes
          rw [hpair]
          rfl

/-! ## All records -/

/-- What calls that are numbered from a number on have left behind. -/
def Waits : Nat → List (Option (List Emitted)) → List Wait → Prop
  | _, [], [] => True
  | i, es :: rest, w :: ws => (w.index = i ∧ ∃ fault, w.Of fault es) ∧ Waits (i + 1) rest ws
  | _, _, _ => False

/-- What documents emit, each record with the number of its document. -/
def records : Nat → List (List Emitted) → List Json
  | _, [] => []
  | i, es :: rest => es.map (·.record i) ++ records (i + 1) rest

/-- All records are written as they are in the calls on single documents, by induction on the
documents. -/
theorem write_waits {front more : Array Value} {i : Nat} {outs : List (Option (List Emitted))}
    {keys : List String} (h : Waiting p n K (front ++ more) ws) (hwaits : Waits i outs ws)
    (hexact : i + outs.length ≤ Number.greatestExact)
    (hkeys : List.Forall₂ (Names p n front) keys (itemsOf ws)) :
    ((∃ e, keys.mapM (writeElement p) K = .error e) ∧ outs.mapM id = none) ∨
    ∃ ess K' items, keys.mapM (writeElement p) K = .ok ((records i ess).map some, K') ∧
      outs.mapM id = some ess ∧ Waiting p n K' items [] := by
  induction ws generalizing i outs K more keys with
  | nil =>
    cases outs with
    | nil =>
      cases hkeys
      exact Or.inr ⟨[], K, _, rfl, rfl, h⟩
    | cons => exact hwaits.elim
  | cons w ws ih =>
    cases outs with
    | nil => exact hwaits.elim
    | cons out outs =>
      obtain ⟨⟨rfl, fault, hof⟩, hwaits⟩ := hwaits
      rw [List.length_cons] at hexact
      have hsplit : itemsOf (w :: ws) = (w.records.map fun q => .object q.1) ++ itemsOf ws := rfl
      rw [hsplit] at hkeys
      have hfirst := List.forall₂_take_append _ _ _ hkeys
      have hothers := List.forall₂_drop_append _ _ _ hkeys
      rw [← List.take_append_drop (w.records.map fun q => Value.object q.1).length keys,
        List.mapM_append, List.mapM_cons, hof.yields, id]
      obtain ⟨⟨e, hfail⟩, hnone⟩ | ⟨es, K', more', hwritten, hes, hafter⟩ :=
        write_wait h rfl (by omega) hof.keeps hfirst
      · rw [Run.bind_error hfail, hnone]
        exact Or.inl ⟨⟨e, rfl⟩, rfl⟩
      · rw [Run.bind_ok hwritten, hes]
        obtain ⟨⟨e, hfail⟩, hnone⟩ | ⟨ess, K'', items, hrest, hess, hend⟩ :=
          ih hafter hwaits (by omega) hothers
        · rw [Run.bind_error hfail, hnone]
          exact Or.inl ⟨⟨e, rfl⟩, rfl⟩
        · rw [Run.bind_ok hrest, hess]
          refine Or.inr ⟨es :: ess, K'', items, ?_, rfl, hend⟩
          simp only [records, List.map_append, List.map_map]
          rfl

/-- The value of the script for what the documents emit. -/
def scriptValue (ess : List (List Emitted)) : Value :=
  .text (String.ofList ((Json.arr (records 0 ess)).compactChars Value.numberText))

/-- The text of all records. -/
theorem stringify_waits {outs : List (Option (List Emitted))}
    (h : Waiting p n K (itemsOf ws).toArray ws) (hwaits : Waits 0 outs ws)
    (hexact : outs.length ≤ Number.greatestExact) :
    ((Value.object p.emitted).stringify (apply (maxDepth - 1)) K).toOption.map Prod.fst =
      (outs.mapM id).map scriptValue := by
  have hemitted : K[p.emitted]? = some { kind := .array (itemsOf ws).toArray } := h.channel.emitted
  have hmissing := getMember_missing h.untouched unknown_toJson hemitted
    (own?_array_toJson rfl rfl rfl) (Or.inl rfl)
  have hserialize : (Value.object p.emitted).serialize (apply (maxDepth - 1)) maxNesting [] "" K =
      Value.elementsJson (writeElement p) (itemsOf ws).toArray.size K := by
    have hlevels : maxNesting = maxNesting - 1 + 1 := rfl
    rw [hlevels, Value.serialize, Run.bind_ok (replaced_itself _ "" hmissing rfl)]
    dsimp only
    rw [Run.bind_ok (load_run hemitted)]
    dsimp only
    rw [unlessAround_run (by simp)]
    rfl
  have hnames := names_elements p n (itemsOf ws).toArray
  have hwaiting : Waiting p n K ((itemsOf ws).toArray ++ #[]) ws := by
    rw [Array.append_empty]
    exact h
  rw [Value.stringify]
  obtain ⟨⟨e, hfail⟩, hnone⟩ | ⟨ess, K', items, hwritten, hess, -⟩ :=
    write_waits hwaiting hwaits (by omega) hnames
  · have hrun := hserialize.trans (Run.bind_error hfail)
    rw [Run.bind_error hrun, hnone]
    rfl
  · have hrun := hserialize.trans (Run.bind_ok hwritten)
    rw [Run.bind_ok hrun, hess]
    have hjson : ((records 0 ess).map some).map (fun j => j.getD .null) = records 0 ess := by
      simp
    rw [hjson]
    rfl

end

end ViewDesign.Evaluation
