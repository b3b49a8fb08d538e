import ViewDesign.Proofs.Json.Finite
import ViewDesign.Proofs.Script.Simulation

/-!
# Writing values agrees

What is written for a value may call functions of the script, once for each object: its `toJSON`,
and what turns a wrapped value into a text or a number.  So writing is a computation like any other,
and agrees on corresponding heaps.

* `Run.Reads`            a computation that changes nothing;
* `Stacked`              objects that are being written on both sides;
* `agree_serialize`      the JSON values of values that correspond;
* `finite_serialize`     values are written with finite numbers only.
-/

namespace ViewDesign.Script

variable {S : Setting} {L : Link}

/-! ## Computations that change nothing -/

/-- A computation leaves the heap as it is. -/
def Run.Reads {α : Type} (x : Run α) : Prop :=
  ∀ K, (∃ e, x K = .error e) ∨ ∃ a, x K = .ok (a, K)

theorem reads_find (key : String) (a : Nat) : (Run.find key a).Reads := by
  intro K
  rw [find_run]
  cases K.find key maxNesting a with
  | error e => exact Or.inl ⟨e, rfl⟩
  | ok s => exact Or.inr ⟨s, rfl⟩

theorem Run.Reads.bind {α β : Type} {x : Run α} {f : α → Run β} (hx : x.Reads)
    (hf : ∀ a, (f a).Reads) : (x >>= f).Reads := by
  intro K
  obtain ⟨e, he⟩ | ⟨a, ha⟩ := hx K
  · exact Or.inl ⟨e, Run.bind_error he⟩
  · rw [Run.bind_ok ha]
    exact hf a K

theorem reads_pure {α : Type} (a : α) : (pure a : Run α).Reads := fun _ => Or.inr ⟨a, rfl⟩

theorem reads_thrown {α : Type} : (Run.thrown : Run α).Reads := fun _ => Or.inl ⟨_, rfl⟩

theorem reads_load (a : Nat) : (Run.load a).Reads := fun _ => Or.inr ⟨_, rfl⟩

theorem reads_ofSlot {x : Run Value} (hx : x.Reads) (s : Option Slot) :
    (Value.ofSlot x s).Reads := by
  unfold Value.ofSlot
  split
  · exact reads_pure _
  · exact reads_pure _
  · exact hx
  · exact reads_pure _

theorem reads_getMember (v : Value) (key : String) : (v.getMember key).Reads := by
  have hinherited : ∀ type, (Value.inherited type key).Reads := fun type =>
    (reads_find _ _).bind fun s => reads_ofSlot (reads_pure _) s
  cases v with
  | undefined => exact reads_thrown
  | null => exact reads_thrown
  | bool b => exact hinherited _
  | number n => exact hinherited _
  | text s =>
    unfold Value.getMember
    dsimp only
    split
    · exact reads_pure _
    · exact hinherited _
  | object a =>
    refine (reads_find _ _).bind fun s => reads_ofSlot ?_ s
    exact (reads_load a).bind fun o => reads_pure _

theorem reads_isFunction (v : Value) : v.isFunction.Reads := by
  cases v with
  | object a =>
    refine (reads_load a).bind fun o => ?_
    split <;> exact reads_pure _
  | _ => exact reads_pure _

/-- what is known of the first heap is still known when it has only been read -/
theorem Ends.bind_reads {α β γ δ : Type} {R : Link → α → β → Prop} {Q : Link → γ → δ → Prop}
    {x : Run α} {y : Run β} {f : α → Run γ} {g : β → Run δ} {K H : Heap} (hx : x.Reads)
    (h : Ends S L R (x K) (y H))
    (hfg : ∀ M H', L.Le M → ∀ a b, R M a b → Corresponds S finished M K H' →
      Ends S M Q (f a K) (g b H')) : Ends S L Q ((x >>= f) K) ((y >>= g) H) := by
  obtain ⟨e, hy, hx' | hspoiled⟩ | ⟨a, K', b, H', M, hx', hy, hle, hc, hR⟩ := h.cases
  · rw [Run.bind_error hx', Run.bind_error hy]
    exact Ends.error e
  · rw [Run.bind_error hy]
    exact Ends.spoiled hspoiled
  · obtain rfl : K' = K := by
      obtain ⟨e, he⟩ | ⟨a', ha'⟩ := hx K
      · rw [he] at hx'
        cases hx'
      · rw [ha'] at hx'
        cases hx'
        rfl
    rw [Run.bind_ok hx', Run.bind_ok hy]
    exact (hfg M H' hle a b hR hc).mono hle

/-! ## In place of a value -/

/-- an array that plain code has made has no function `toJSON` -/
theorem replaced_array {K : Heap} (hK : Untouched K) {a : Nat} {o : Object} {items : Array Value}
    (ho : K[a]? = some o) (hbare : o.Bare) (hkind : o.kind = .array items) (call : Caller)
    (name : String) : (Value.object a).replaced call name K = .ok (.object a, K) := by
  obtain ⟨hkept, hparent⟩ := hbare items hkind
  have helement : Object.element? items "toJSON" = none := by
    have hnatural : Decimal.natural? 10 "toJSON".toList = none := by decide
    rw [Object.element?, hnatural]
    rfl
  have hown : o.own? "toJSON" = none := by
    simp only [Object.own?, hkind]
    rw [if_neg (by decide), helement, hkept]
    rfl
  have hfind : Run.find "toJSON" a K = .ok (none, K) := by
    rw [find_run, show maxNesting = 9007199254740990 + 3 from rfl,
      hK.find_missing unknown_toJson ho hown hparent]
    rfl
  simp only [Value.replaced, Value.getMember, bind_assoc]
  rw [Run.bind_ok hfind]
  rfl

section
variable {call call' : Caller} (hcall : Caller.Agrees S call call')
include hcall

theorem agree_replaced (name : String) {v w : Value} (hvw : Value.Linked L v w) :
    Agree S L Value.Linked (v.replaced call name) (w.replaced call' name) := by
  cases hvw with
  | primitive hp =>
    cases v with
    | object => cases hp
    | _ => exact Agree.pure (.primitive rfl)
  | object hl =>
    rename_i a b
    intro K H hc
    obtain ⟨o, p, ho, hp, hop⟩ := hc.object hl
    -- plain code may have given functions to objects, but no members to arrays
    by_cases harray : S.plain = true ∧ ∃ items, o.kind = .array items
    · obtain ⟨hplain, items, hitems⟩ := harray
      obtain ⟨hK, hH⟩ := S.rest_native hplain hc.rest
      obtain ⟨ho', hp'⟩ := hop.bare hplain
      obtain ⟨items', hitems'⟩ : ∃ items', p.kind = .array items' := by
        have hkind := hop.kind
        rw [hitems] at hkind
        generalize p.kind = l at hkind
        cases hkind
        exact ⟨_, rfl⟩
      rw [replaced_array hK ho ho' hitems, replaced_array hH hp hp' hitems']
      exact ⟨L, Link.Le.refl L, hc, .object hl⟩
    · have hnone : S.plain = true → [Value.text name] = [] ∨ (Value.object a).NoArray K := by
        refine fun hplain => Or.inr fun a' o' items ha ho' hkind => harray ⟨hplain, items, ?_⟩
        cases ha
        rw [ho] at ho'
        cases ho'
        exact hkind
      refine Ends.bind_reads (reads_getMember _ _) (agree_getMember (.object hl) "toJSON" K H hc)
        fun M H1 hle f f' hf hc1 => ?_
      refine Ends.bind_reads (reads_isFunction _) (agree_isFunction hf K H1 hc1)
        fun M2 H2 hle2 x y hxy hc2 => ?_
      cases hxy
      have hl2 := hle2 _ _ _ (hle _ _ _ hl)
      split
      · exact hcall M2 _ _ _ _ _ _ (.object hl2) (hf.mono hle2) (.cons (.primitive rfl) .nil) K H2
          hc2 hnone
      · exact ⟨M2, Link.Le.refl M2, hc2, .object hl2⟩

theorem agree_wrappedJson {v v' : Value} (hv : Value.Linked L v v') (w : Value) :
    Agree S L Same (v.wrappedJson call w) (v'.wrappedJson call' w) := by
  cases w with
  | number n => exact (agree_numeric hcall hv).map fun _ _ _ _ e => by rw [e]
  | text s => exact (agree_textual hcall hv).map fun _ _ _ _ e => by rw [e]
  | _ => exact Agree.pure rfl

end

/-! ## What is being written -/

/-- Objects that are being written on both sides: the same ones, as long as the heaps correspond. -/
def Stacked (S : Setting) (L : Link) (st st' : List Nat) : Prop :=
  ∀ M, L.Le M → ∀ K H, Corresponds S finished M K H → ∀ a b, M a b .data → (a ∈ st ↔ b ∈ st')

theorem stacked_nil : Stacked S L [] [] := fun _ _ _ _ _ _ _ _ => by simp

/-- what belongs to the rest of the first heap is never met -/
theorem stacked_of_apart {st : List Nat} (h : ∀ M, L.Le M → ∀ K H, Corresponds S finished M K H →
    ∀ a b, M a b .data → a ∉ st) : Stacked S L st [] :=
  fun M hle K H hc a b hl => ⟨fun ha => absurd ha (h M hle K H hc a b hl), fun hb => nomatch hb⟩

namespace Stacked

variable {st st' : List Nat}

theorem mono {M : Link} (h : Stacked S L st st') (hle : L.Le M) : Stacked S M st st' :=
  fun N hN => h N (hle.trans hN)

theorem cons (h : Stacked S L st st') {a b : Nat} (hl : L a b .data) :
    Stacked S L (a :: st) (b :: st') := by
  intro M hle K H hc c d hcd
  have hsame : c = a ↔ d = b := hc.unique hcd (hle _ _ _ hl)
  rw [List.mem_cons, List.mem_cons, hsame, h M hle K H hc c d hcd]

end Stacked

/-! ## Writing -/

theorem agree_elementsJson {write write' : String → Run (Option Json)}
    (h : ∀ M, L.Le M → ∀ key, Agree S M Same (write key) (write' key)) (n : Nat) :
    Agree S L Same (Value.elementsJson write n) (Value.elementsJson write' n) :=
  (agree_mapM fun M hM key _ => h M hM key).map fun _ _ _ _ e => by rw [e]

theorem agree_membersJson {write write' : String → Run (Option Json)}
    (h : ∀ M, L.Le M → ∀ key, Agree S M Same (write key) (write' key)) (names : List String) :
    Agree S L Same (Value.membersJson write names) (Value.membersJson write' names) := by
  refine (agree_mapM fun M hM key _ => ?_).map fun _ _ _ _ e => by rw [e]
  exact (h M hM key).map fun _ _ _ _ e => by rw [e]

/-- a value that is being written would contain itself -/
theorem agree_unlessAround {α : Type} {st st' : List Nat} (hst : Stacked S L st st') {a b : Nat}
    (hl : L a b .data) {x y : Run α} (hxy : Agree S L Same x y) :
    Agree S L Same (Value.unlessAround st a x) (Value.unlessAround st' b y) := by
  intro K H hc
  have hmem := hst L (Link.Le.refl L) K H hc a b hl
  unfold Value.unlessAround
  by_cases ha : a ∈ st
  · rw [if_pos ha, if_pos (hmem.mp ha)]
    exact Ends.error _
  · rw [if_neg ha, if_neg (mt hmem.mpr ha)]
    exact hxy K H hc

/-- the JSON values of values that correspond, by induction on the levels -/
theorem agree_serialize {call call' : Caller} (hcall : Caller.Agrees S call call') (levels : Nat)
    {st st' : List Nat} (hst : Stacked S L st st') (name : String) {v w : Value}
    (hvw : Value.Linked L v w) :
    Agree S L Same (v.serialize call levels st name) (w.serialize call' levels st' name) := by
  induction levels generalizing L st st' name v w with
  | zero => exact Agree.throw .exhausted
  | succ levels ih =>
    unfold Value.serialize
    refine (agree_replaced hcall name hvw).bind fun M hle v' w' hvw' => ?_
    cases hvw' with
    | primitive hp =>
      cases v' with
      | object => cases hp
      | _ => exact Agree.pure rfl
    | object hl =>
      rename_i a b
      refine (agree_load hl).bind fun M2 hle2 o p hop => ?_
      have hl2 := hle2 _ _ _ hl
      have hst2 := hst.mono (hle.trans hle2)
      -- elements and members are written with this object among those that are being written
      have inside : ∀ N, M2.Le N → ∀ key, Agree S N Same
          (do Value.serialize call levels (a :: st) key (← (Value.object a).getMember key))
          (do Value.serialize call' levels (b :: st') key (← (Value.object b).getMember key)) := by
        intro N hN key
        refine (agree_getMember (.object (hN _ _ _ hl2)) key).bind fun N' hN' x y hxy => ?_
        exact ih ((hst2.cons hl2).mono (hN.trans hN')) key hxy
      have hmembers := agree_membersJson inside (o.members.map Prod.fst)
      have helements := fun n => agree_elementsJson inside n
      have hnames := names_related hop.members
      have hkind := hop.kind
      generalize o.kind = k at hkind ⊢
      generalize p.kind = l at hkind ⊢
      cases hkind with
      | function => exact Agree.pure rfl
      | native => exact Agree.pure rfl
      | wrapped => exact agree_wrappedJson hcall (.object hl2) _
      | plain =>
        rw [← hnames]
        exact agree_unlessAround hst2 hl2 hmembers
      | array hxy =>
        dsimp only
        rw [size_linked hxy]
        exact agree_unlessAround hst2 hl2 (helements _)

/-! ## The numbers that come out -/

/-- The JSON value of a number of a script; an infinity and not-a-number become null. -/
def Number.toJson (n : Number) : Json := (n.json?.map .num).getD .null

theorem floatJson?_finite {x : Float} {n : Json.Number} (h : Number.floatJson? x = some n) :
    n = .float x ∧ Binary64.isFinite x = true := by
  unfold Number.floatJson? at h
  split at h
  · cases h
    exact ⟨rfl, ‹_›⟩
  · cases h

/-- what is said of all JSON numbers of numbers is said of all numbers that come out -/
theorem eachNumber_toJson {p : Json.Number → Prop} {n : Number}
    (h : ∀ m, n.json? = some m → p m) : n.toJson.EachNumber p := by
  unfold Number.toJson
  cases hn : n.json? with
  | none => simp [Json.EachNumber]
  | some m =>
    simp only [Option.map_some, Option.getD_some, Json.EachNumber]
    exact h m hn

section
variable {α β : Type}

theorem Run.bind_eq_ok {x : Run α} {f : α → Run β} {K K' : Heap} {b : β}
    (h : (x >>= f) K = .ok (b, K')) : ∃ a K1, x K = .ok (a, K1) ∧ f a K1 = .ok (b, K') := by
  cases hx : x K with
  | error e =>
    rw [Run.bind_error hx] at h
    cases h
  | ok r =>
    obtain ⟨a, K1⟩ := r
    rw [Run.bind_ok hx] at h
    exact ⟨a, K1, rfl, h⟩

/-- each result of a list of computations is that of one of them -/
theorem mem_mapM_run {f : α → Run β} {xs : List α} {ys : List β} {K K' : Heap}
    (h : xs.mapM f K = .ok (ys, K')) {y : β} (hy : y ∈ ys) :
    ∃ x ∈ xs, ∃ K1 K2, f x K1 = .ok (y, K2) := by
  induction xs generalizing ys K with
  | nil =>
    cases h
    cases hy
  | cons x xs ih =>
    rw [List.mapM_cons] at h
    obtain ⟨z, K1, hz, h⟩ := Run.bind_eq_ok h
    obtain ⟨zs, K2, hzs, h⟩ := Run.bind_eq_ok h
    cases h
    rcases List.mem_cons.mp hy with rfl | hy
    · exact ⟨x, List.mem_cons_self .., K, K1, hz⟩
    · obtain ⟨x', hx', hrun⟩ := ih hzs hy
      exact ⟨x', List.mem_cons_of_mem _ hx', hrun⟩

end

section
variable {p : Json.Number → Prop} (hp : ∀ n : Number, n.toJson.EachNumber p)
include hp

theorem eachNumber_leafJson {v : Value} {j : Json} (h : v.leafJson = some j) : j.EachNumber p := by
  cases v with
  | number n =>
    cases h
    exact hp n
  | undefined => cases h
  | object a => cases h
  | null => cases h; simp [Json.EachNumber]
  | bool b => cases h; simp [Json.EachNumber]
  | text t => cases h; simp [Json.EachNumber]

theorem eachNumber_wrappedJson {call : Caller} {v w : Value} {j : Json} {K K' : Heap}
    (h : v.wrappedJson call w K = .ok (some j, K')) : j.EachNumber p := by
  cases w with
  | number n =>
    obtain ⟨x, K1, -, h⟩ := Run.bind_eq_ok h
    cases h
    exact hp x
  | text s =>
    obtain ⟨x, K1, -, h⟩ := Run.bind_eq_ok h
    cases h
    simp [Json.EachNumber]
  | undefined => cases h
  | object a => cases h
  | null => cases h; simp [Json.EachNumber]
  | bool b => cases h; simp [Json.EachNumber]

omit hp in
theorem eachNumber_elementsJson {write : String → Run (Option Json)}
    (hwrite : ∀ key j K K', write key K = .ok (some j, K') → j.EachNumber p) {n : Nat} {j : Json}
    {K K' : Heap} (h : Value.elementsJson write n K = .ok (some j, K')) : j.EachNumber p := by
  obtain ⟨vs, K1, hvs, h⟩ := Run.bind_eq_ok h
  cases h
  simp only [Json.EachNumber, Json.eachNumberIn_iff, List.mem_map]
  rintro _ ⟨w, hw, rfl⟩
  obtain ⟨key, -, K2, K3, hrun⟩ := mem_mapM_run hvs hw
  cases w with
  | none => simp [Json.EachNumber]
  | some j => exact hwrite key j K2 K3 hrun

omit hp in
theorem eachNumber_membersJson {write : String → Run (Option Json)}
    (hwrite : ∀ key j K K', write key K = .ok (some j, K') → j.EachNumber p) {names : List String}
    {j : Json} {K K' : Heap} (h : Value.membersJson write names K = .ok (some j, K')) :
    j.EachNumber p := by
  obtain ⟨ms, K1, hms, h⟩ := Run.bind_eq_ok h
  cases h
  simp only [Json.EachNumber, Json.eachNumberOf_iff]
  intro m hm
  obtain ⟨e, he, rfl⟩ := List.mem_filterMap.mp hm
  obtain ⟨key, -, K2, K3, hrun⟩ := mem_mapM_run hms he
  obtain ⟨r, K4, hr, hrun⟩ := Run.bind_eq_ok hrun
  cases r with
  | none => cases hrun
  | some j =>
    cases hrun
    exact hwrite key j K2 _ hr

/-- all numbers of a value that was written come from numbers of the script -/
theorem eachNumber_serialize {call : Caller} {levels : Nat} {st : List Nat} {name : String}
    {v : Value} {j : Json} {K K' : Heap}
    (h : v.serialize call levels st name K = .ok (some j, K')) : j.EachNumber p := by
  induction levels generalizing st name v j K K' with
  | zero => cases h
  | succ levels ih =>
    unfold Value.serialize at h
    obtain ⟨v', K1, -, h⟩ := Run.bind_eq_ok h
    cases v' with
    | object a =>
      obtain ⟨o, K2, -, h⟩ := Run.bind_eq_ok h
      have inside : ∀ key j K K',
          (do Value.serialize call levels (a :: st) key (← (Value.object a).getMember key) :
            Run (Option Json)) K = .ok (some j, K') → j.EachNumber p := by
        intro key j K K' hrun
        obtain ⟨x, K3, -, hrun⟩ := Run.bind_eq_ok hrun
        exact ih hrun
      have outside : ∀ {x : Run (Option Json)},
          Value.unlessAround st a x K2 = .ok (some j, K') → x K2 = .ok (some j, K') := by
        intro x hx
        unfold Value.unlessAround at hx
        by_cases ha : a ∈ st
        · rw [if_pos ha] at hx
          cases hx
        · rwa [if_neg ha] at hx
      cases hkind : o.kind with
      | function c => rw [hkind] at h; cases h
      | native b => rw [hkind] at h; cases h
      | wrapped w =>
        rw [hkind] at h
        exact eachNumber_wrappedJson hp h
      | array items =>
        rw [hkind] at h
        exact eachNumber_elementsJson inside (outside h)
      | plain =>
        rw [hkind] at h
        exact eachNumber_membersJson inside (outside h)
      | json =>
        rw [hkind] at h
        exact eachNumber_membersJson inside (outside h)
    | _ => exact eachNumber_leafJson hp (Prod.mk.inj (Except.ok.inj h)).1

end

/-- a value of a script has no JSON value with an infinity or not-a-number in it -/
theorem finite_serialize {call : Caller} {levels : Nat} {st : List Nat} {name : String} {v : Value}
    {j : Json} {K K' : Heap} (h : v.serialize call levels st name K = .ok (some j, K')) :
    j.Finite := by
  refine eachNumber_serialize (fun n => eachNumber_toJson fun m hm => ?_) h
  cases n with
  | int i =>
    simp only [Number.json?] at hm
    split at hm
    · cases hm
      trivial
    · obtain ⟨rfl, hx⟩ := floatJson?_finite hm
      exact hx
  | double x =>
    obtain ⟨rfl, hx⟩ := floatJson?_finite hm
    exact hx

end ViewDesign.Script
