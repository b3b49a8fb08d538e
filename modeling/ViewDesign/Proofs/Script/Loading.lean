import ViewDesign.Proofs.Json.Spelling
import ViewDesign.Proofs.Script.Steps

/-!
# Documents in the heap

A document becomes a value by reading its text: each array and each object of it becomes an object
of the heap, made after all that it refers to.

* `agree_ofNode`                the same tree becomes the same value in corresponding heaps;
* `Value.Represents`            a value of a heap stands for a document;
* `ofNode_run`                  the tree of a document becomes a value that stands for it;
* `serialize_of_represents`     such a value is written as the document, its numbers rounded and its
                                members in order.
-/

namespace ViewDesign.Script

/-! ## Loading alike -/

section
variable {S : Setting}

mutual

theorem agree_ofNode {L : Link} (n : Node) :
    Agree S L Value.Linked (Value.ofNode n) (Value.ofNode n) := by
  cases n with
  | null => simp only [Value.ofNode]; exact Agree.pure (.primitive rfl)
  | bool b => simp only [Value.ofNode]; exact Agree.pure (.primitive rfl)
  | numeral n => simp only [Value.ofNode]; exact Agree.pure (.primitive rfl)
  | string s =>
    cases s with
    | none => simp only [Value.ofNode]; exact Agree.thrown
    | some s => simp only [Value.ofNode]; exact Agree.pure (.primitive rfl)
  | sequence items =>
    simp only [Value.ofNode]
    refine (agree_ofItems items).bind fun M hle vs ws hvw => ?_
    exact (agree_allocate (items_linked (by simpa using hvw))).map fun _ _ _ _ hab => .object hab
  | mapping members =>
    simp only [Value.ofNode]
    refine (agree_ofMembers members).bind fun M hle es fs hef => ?_
    exact (agree_allocate (members_linked (made_related hef))).map fun _ _ _ _ hab =>
      .object hab
  | broken => simp only [Value.ofNode]; exact Agree.thrown
  | number n => simp only [Value.ofNode]; exact Agree.thrown
  | scalar s => simp only [Value.ofNode]; exact Agree.thrown

theorem agree_ofItems {L : Link} (ns : List Node) :
    Agree S L Values.Linked (Value.ofItems ns) (Value.ofItems ns) := by
  cases ns with
  | nil => simp only [Value.ofItems]; exact Agree.pure .nil
  | cons n ns =>
    simp only [Value.ofItems]
    refine (agree_ofNode n).bind fun M hle v w hvw => ?_
    exact (agree_ofItems ns).map fun _ hle' vs ws hvs => .cons (hvw.mono hle') hvs

theorem agree_ofMembers {L : Link} (ms : List (Node × Node)) :
    Agree S L Members.Linked (Value.ofMembers ms) (Value.ofMembers ms) := by
  cases ms with
  | nil => simp only [Value.ofMembers]; exact Agree.pure .nil
  | cons m ms =>
    obtain ⟨k, n⟩ := m
    cases k with
    | string s =>
      cases s with
      | none => simp only [Value.ofMembers]; exact Agree.thrown
      | some s =>
        simp only [Value.ofMembers]
        refine (agree_ofNode n).bind fun M hle v w hvw => ?_
        exact (agree_ofMembers ms).map fun _ hle' vs ws hvs => .cons ⟨rfl, hvw.mono hle'⟩ hvs
    | _ => simp only [Value.ofMembers]; exact Agree.thrown

end

end

/-! ## Growing heaps -/

/-- The second heap has all the objects of the first, at the same addresses. -/
structure Heap.Extends (K K' : Heap) : Prop where
  size : K.size ≤ K'.size
  same : ∀ a < K.size, K'[a]? = K[a]?

namespace Heap.Extends

variable {K K' K'' : Heap}

theorem refl (K : Heap) : Heap.Extends K K := ⟨Nat.le_refl _, fun _ _ => rfl⟩

theorem trans (h : Heap.Extends K K') (h' : Heap.Extends K' K'') : Heap.Extends K K'' :=
  ⟨Nat.le_trans h.size h'.size, fun a ha => (h'.same a (Nat.lt_of_lt_of_le ha h.size)).trans
    (h.same a ha)⟩

theorem push (K : Heap) (o : Object) : Heap.Extends K (K.push o) :=
  ⟨by simp, fun a ha => by rw [Array.getElem?_push, if_neg (by omega)]⟩

theorem get (h : Heap.Extends K K') {a : Nat} {o : Object} (ho : K[a]? = some o) :
    K'[a]? = some o :=
  (h.same a (Array.getElem?_eq_some_iff.1 ho).1).trans ho

end Heap.Extends

/-! ## What a value stands for -/

/-- The number that a number of a document becomes: that of its text. -/
def Number.ofJson (n : Json.Number) : Number := .ofNumeral (n.literal Json.floatLayout)

mutual

/-- A value stands for a document, and its objects are between two addresses.  An object comes after
those it refers to. -/
def Value.Represents (K : Heap) (lo hi : Nat) (v : Value) : Json → Prop
  | .null => v = .null
  | .bool b => v = .bool b
  | .num n => v = .number (.ofJson n)
  | .str s => v = .text s
  | .arr items => ∃ a xs, v = .object a ∧ (lo ≤ a ∧ a < hi) ∧
      K[a]? = some { kind := .array xs } ∧ Values.Represent K lo a xs.toList items
  | .obj members => ∃ a es, v = .object a ∧ (lo ≤ a ∧ a < hi) ∧
      K[a]? = some { members := Entries.made es } ∧ Members.Represent K lo a es members

/-- Values stand for elements. -/
def Values.Represent (K : Heap) (lo hi : Nat) : List Value → List Json → Prop
  | [], [] => True
  | v :: vs, j :: js => v.Represents K lo hi j ∧ Values.Represent K lo hi vs js
  | _, _ => False

/-- Entries stand for members. -/
def Members.Represent (K : Heap) (lo hi : Nat) :
    List (String × Value) → List (String × Json) → Prop
  | [], [] => True
  | e :: es, m :: ms =>
    (e.1 = m.1 ∧ e.2.Represents K lo hi m.2) ∧ Members.Represent K lo hi es ms
  | _, _ => False

end

section
variable {K K' : Heap}

theorem Values.represent_iff {lo hi : Nat} {vs : List Value} {js : List Json} :
    Values.Represent K lo hi vs js ↔ List.Forall₂ (fun v j => v.Represents K lo hi j) vs js := by
  induction vs generalizing js with
  | nil => cases js <;> simp [Values.Represent]
  | cons v vs ih => cases js <;> simp [Values.Represent, ih]

theorem Members.represent_iff {lo hi : Nat} {es : List (String × Value)}
    {ms : List (String × Json)} : Members.Represent K lo hi es ms ↔
      Entries.Related (fun v j => v.Represents K lo hi j) es ms := by
  induction es generalizing ms with
  | nil => cases ms <;> simp [Members.Represent]
  | cons e es ih => cases ms <;> simp [Members.Represent, ih]

mutual

theorem Value.Represents.mono {lo hi lo' hi' : Nat} (hlo : lo' ≤ lo) (hhi : hi ≤ hi')
    (hsame : ∀ a o, lo ≤ a → K[a]? = some o → K'[a]? = some o) {v : Value} (j : Json)
    (h : v.Represents K lo hi j) : v.Represents K' lo' hi' j := by
  cases j with
  | null => simpa only [Value.Represents] using h
  | bool b => simpa only [Value.Represents] using h
  | num n => simpa only [Value.Represents] using h
  | str s => simpa only [Value.Represents] using h
  | arr items =>
    simp only [Value.Represents] at h ⊢
    obtain ⟨a, xs, hv, ⟨hla, hah⟩, ha, hxs⟩ := h
    exact ⟨a, xs, hv, ⟨by omega, by omega⟩, hsame a _ hla ha,
      Values.Represent.mono hlo (Nat.le_refl a) hsame items hxs⟩
  | obj members =>
    simp only [Value.Represents] at h ⊢
    obtain ⟨a, es, hv, ⟨hla, hah⟩, ha, hes⟩ := h
    exact ⟨a, es, hv, ⟨by omega, by omega⟩, hsame a _ hla ha,
      Members.Represent.mono hlo (Nat.le_refl a) hsame members hes⟩

theorem Values.Represent.mono {lo hi lo' hi' : Nat} (hlo : lo' ≤ lo) (hhi : hi ≤ hi')
    (hsame : ∀ a o, lo ≤ a → K[a]? = some o → K'[a]? = some o) {vs : List Value} (js : List Json)
    (h : Values.Represent K lo hi vs js) : Values.Represent K' lo' hi' vs js := by
  match vs, js with
  | [], [] => simp only [Values.Represent]
  | v :: vs, j :: js =>
    simp only [Values.Represent] at h ⊢
    exact ⟨Value.Represents.mono hlo hhi hsame j h.1, Values.Represent.mono hlo hhi hsame js h.2⟩
  | [], _ :: _ => simp only [Values.Represent] at h
  | _ :: _, [] => simp only [Values.Represent] at h

theorem Members.Represent.mono {lo hi lo' hi' : Nat} (hlo : lo' ≤ lo) (hhi : hi ≤ hi')
    (hsame : ∀ a o, lo ≤ a → K[a]? = some o → K'[a]? = some o) {es : List (String × Value)}
    (ms : List (String × Json)) (h : Members.Represent K lo hi es ms) :
    Members.Represent K' lo' hi' es ms := by
  match es, ms with
  | [], [] => simp only [Members.Represent]
  | e :: es, (k, j) :: ms =>
    simp only [Members.Represent] at h ⊢
    exact ⟨⟨h.1.1, Value.Represents.mono hlo hhi hsame j h.1.2⟩,
      Members.Represent.mono hlo hhi hsame ms h.2⟩
  | [], _ :: _ => simp only [Members.Represent] at h
  | _ :: _, [] => simp only [Members.Represent] at h

end

theorem Value.Represents.extend {lo hi : Nat} {v : Value} {j : Json} (h : v.Represents K lo hi j)
    (hext : Heap.Extends K K') : v.Represents K' lo hi j :=
  h.mono (Nat.le_refl _) (Nat.le_refl _) (fun _ _ _ ha => hext.get ha) j

end

/-! ## Loading a document -/

mutual

/-- the tree of a document becomes a value that stands for it, with new objects -/
theorem ofNode_run (j : Json) (K : Heap) :
    ∃ v K', Value.ofNode (Json.nodeIn Json.floatLayout j) K = .ok (v, K') ∧ Heap.Extends K K' ∧
      v.Represents K' K.size K'.size j := by
  cases j with
  | null => exact ⟨_, K, by simp only [Json.written, Value.ofNode]; rfl, .refl K, rfl⟩
  | bool b => exact ⟨_, K, by simp only [Json.written, Value.ofNode]; rfl, .refl K, rfl⟩
  | num n => exact ⟨_, K, by simp only [Json.written, Value.ofNode]; rfl, .refl K, rfl⟩
  | str s => exact ⟨_, K, by simp only [Json.written, Value.ofNode]; rfl, .refl K, rfl⟩
  | arr items =>
    obtain ⟨vs, K', hrun, hext, hrep⟩ := ofItems_run items K
    have hpush := Heap.Extends.push K' { kind := .array vs.toArray }
    refine ⟨.object K'.size, K'.push { kind := .array vs.toArray }, ?_, hext.trans hpush, ?_⟩
    · simp only [Json.written, Value.ofNode]
      rw [Run.bind_ok hrun]
      rfl
    · simp only [Value.Represents]
      refine ⟨K'.size, vs.toArray, rfl, ⟨hext.size, by simp⟩, by simp, ?_⟩
      exact Values.Represent.mono (Nat.le_refl _) (Nat.le_refl _) (fun _ _ _ ha => hpush.get ha)
        items
        (by simpa using hrep)
  | obj members =>
    obtain ⟨es, K', hrun, hext, hrep⟩ := ofMembers_run members K
    have hpush := Heap.Extends.push K' { members := Entries.made es }
    refine ⟨.object K'.size, K'.push { members := Entries.made es }, ?_, hext.trans hpush, ?_⟩
    · simp only [Json.written, Value.ofNode]
      rw [Run.bind_ok hrun]
      rfl
    · simp only [Value.Represents]
      refine ⟨K'.size, es, rfl, ⟨hext.size, by simp⟩, by simp, ?_⟩
      exact Members.Represent.mono (Nat.le_refl _) (Nat.le_refl _) (fun _ _ _ ha => hpush.get ha)
        members hrep

theorem ofItems_run (js : List Json) (K : Heap) :
    ∃ vs K', Value.ofItems (Json.writtenItems (fun n => .numeral (n.literal Json.floatLayout)) js) K
        = .ok (vs, K') ∧ Heap.Extends K K' ∧ Values.Represent K' K.size K'.size vs js := by
  cases js with
  | nil => exact ⟨[], K, by simp only [Json.writtenItems, Value.ofItems]; rfl, .refl K, trivial⟩
  | cons j js =>
    obtain ⟨v, K1, hrun1, hext1, hrep1⟩ := ofNode_run j K
    obtain ⟨vs, K2, hrun2, hext2, hrep2⟩ := ofItems_run js K1
    refine ⟨v :: vs, K2, ?_, hext1.trans hext2, ?_⟩
    · simp only [Json.writtenItems, Value.ofItems]
      rw [Run.bind_ok hrun1, Run.bind_ok hrun2]
      rfl
    · simp only [Values.Represent]
      exact ⟨hrep1.mono (Nat.le_refl _) hext2.size (fun _ _ _ ha => hext2.get ha) j,
        Values.Represent.mono hext1.size (Nat.le_refl _) (fun _ _ _ ha => ha) js hrep2⟩

theorem ofMembers_run (ms : List (String × Json)) (K : Heap) :
    ∃ es K', Value.ofMembers
        (Json.writtenMembers (fun n => .numeral (n.literal Json.floatLayout)) ms) K
        = .ok (es, K') ∧ Heap.Extends K K' ∧ Members.Represent K' K.size K'.size es ms := by
  cases ms with
  | nil => exact ⟨[], K, by simp only [Json.writtenMembers, Value.ofMembers]; rfl, .refl K, trivial⟩
  | cons m ms =>
    obtain ⟨k, j⟩ := m
    obtain ⟨v, K1, hrun1, hext1, hrep1⟩ := ofNode_run j K
    obtain ⟨es, K2, hrun2, hext2, hrep2⟩ := ofMembers_run ms K1
    refine ⟨(k, v) :: es, K2, ?_, hext1.trans hext2, ?_⟩
    · simp only [Json.writtenMembers, Value.ofMembers]
      rw [Run.bind_ok hrun1, Run.bind_ok hrun2]
      rfl
    · simp only [Members.Represent]
      exact ⟨⟨trivial, hrep1.mono (Nat.le_refl _) hext2.size (fun _ _ _ ha => hext2.get ha) j⟩,
        Members.Represent.mono hext1.size (Nat.le_refl _) (fun _ _ _ ha => ha) ms hrep2⟩

end

/-! ## And back -/

mutual

/-- A document as it comes out of a script: its numbers are those of the script, and its members
come in the order in which they are visited. -/
def throughScript : Json → Json
  | .null => .null
  | .bool b => .bool b
  | .num n => (Number.ofJson n).toJson
  | .str s => .str s
  | .arr items => .arr (itemsThroughScript items)
  | .obj members => .obj (visitedEntries (membersThroughScript members))

/-- Elements as they come out of a script. -/
def itemsThroughScript : List Json → List Json
  | [] => []
  | j :: js => throughScript j :: itemsThroughScript js

/-- Members as they come out of a script. -/
def membersThroughScript : List (String × Json) → List (String × Json)
  | [] => []
  | (k, j) :: ms => (k, throughScript j) :: membersThroughScript ms

end

theorem itemsThroughScript_eq (js : List Json) : itemsThroughScript js = js.map throughScript := by
  induction js with
  | nil => rfl
  | cons j js ih => rw [itemsThroughScript, ih, List.map_cons]

theorem membersThroughScript_eq (ms : List (String × Json)) :
    membersThroughScript ms = ms.map fun m => (m.1, throughScript m.2) := by
  induction ms with
  | nil => rfl
  | cons m ms ih => rw [membersThroughScript, ih, List.map_cons]

section
variable {K : Heap} {lo hi : Nat}

/-- what stands for a document is no function -/
theorem isFunction_of_represents {v : Value} {j : Json} (h : v.Represents K lo hi j) :
    v.isFunction K = .ok (false, K) := by
  cases j with
  | arr items =>
    simp only [Value.Represents] at h
    obtain ⟨a, xs, rfl, -, ha, -⟩ := h
    simp only [Value.isFunction]
    rw [Run.bind_ok (load_run ha)]
    rfl
  | obj members =>
    simp only [Value.Represents] at h
    obtain ⟨a, es, rfl, -, ha, -⟩ := h
    simp only [Value.isFunction]
    rw [Run.bind_ok (load_run ha)]
    rfl
  | _ =>
    simp only [Value.Represents] at h
    rw [h]
    rfl

/-- a value without a function `toJSON` is written itself -/
theorem replaced_itself {a : Nat} {f : Value} (call : Caller) (name : String)
    (hf : (Value.object a).getMember "toJSON" K = .ok (f, K))
    (hno : f.isFunction K = .ok (false, K)) :
    (Value.object a).replaced call name K = .ok (.object a, K) := by
  simp only [Value.replaced]
  rw [Run.bind_ok hf, Run.bind_ok hno]
  rfl

theorem own?_array_toJson {xs : Array Value} {o : Object} (hkind : o.kind = .array xs)
    (hhidden : o.hidden = []) (hmembers : o.members = []) : o.own? "toJSON" = none := by
  have hnatural : Decimal.natural? 10 "toJSON".toList = none := by decide
  have helement : Object.element? xs "toJSON" = none := by
    rw [Object.element?, hnatural]
    rfl
  simp only [Object.own?, hkind, Object.kept?, hhidden, hmembers, Entries.get?]
  rw [if_neg (by decide), helement]
  rfl

/-- an element of an array, by the name of its position -/
theorem getMember_element {a : Nat} {xs : Array Value} {o : Object} (ha : K[a]? = some o)
    (hkind : o.kind = .array xs) {i : Nat} (hi : i < xs.size) :
    (Value.object a).getMember (String.ofList (Decimal.digitsOf i)) K = .ok (xs[i], K) := by
  refine getMember_own ha ?_
  have hlength : String.ofList (Decimal.digitsOf i) ≠ "length" := by
    intro h
    have hdigits := Decimal.digitsOf_isDigit i
    rw [← String.toList_ofList (l := Decimal.digitsOf i), h] at hdigits
    exact absurd (hdigits 'l' (by simp)) (by decide)
  have helement : Object.element? xs (String.ofList (Decimal.digitsOf i)) = some xs[i] := by
    unfold Object.element?
    rw [String.toList_ofList, Decimal.natural?_digitsOf]
    simp [hi]
  simp only [Object.own?, hkind]
  rw [if_neg hlength, helement]
  rfl

/-- computations that leave the heap as it is, one after the other -/
theorem mapM_run {α β : Type} {f : α → Run β} {xs : List α} {ys : List β}
    (h : List.Forall₂ (fun x y => f x K = .ok (y, K)) xs ys) : xs.mapM f K = .ok (ys, K) := by
  induction h with
  | nil => rfl
  | cons hxy _ ih =>
    rw [List.mapM_cons, Run.bind_ok hxy, Run.bind_ok ih]
    rfl

/-- an array whose elements are written -/
theorem elementsJson_run {write : String → Run (Option Json)} {n : Nat} {js : List Json}
    (hlen : js.length = n) (h : ∀ i (hi : i < n),
      ∃ r, write (String.ofList (Decimal.digitsOf i)) K = .ok (r, K) ∧ r.getD .null = js[i]) :
    Value.elementsJson write n K = .ok (some (.arr js), K) := by
  obtain ⟨rs, hrs, hjs⟩ : ∃ rs, List.Forall₂ (fun key r => write key K = .ok (r, K))
      (Value.indexNames n) rs ∧ rs.map (fun r => r.getD .null) = js := by
    refine ⟨(List.range n).map fun i => if hi : i < n then (h i hi).choose else none, ?_, ?_⟩
    · rw [Value.indexNames, List.forall₂_map_left_iff, List.forall₂_map_right_iff,
        List.forall₂_same]
      intro i hi
      rw [dif_pos (List.mem_range.mp hi)]
      exact (h i (List.mem_range.mp hi)).choose_spec.1
    · apply List.ext_getElem (by simp [hlen])
      intro i hi hi'
      have hin : i < n := by simpa using hi
      simp only [List.getElem_map, List.getElem_range, dif_pos hin]
      exact (h i hin).choose_spec.2
  rw [Value.elementsJson, Run.bind_ok (mapM_run hrs), hjs]
  rfl

/-- an object whose members are written -/
theorem membersJson_run {write : String → Run (Option Json)} {names : List String}
    {f : String → Json} (h : ∀ name ∈ names, write name K = .ok (some (f name), K)) :
    Value.membersJson write names K =
      .ok (some (.obj ((visited names).map fun name => (name, f name))), K) := by
  have hall : (visited names).mapM (fun key => do
      let j ← write key
      return j.map fun j => (key, j) : String → Run (Option (String × Json))) K =
        .ok (((visited names).map fun name => (name, f name)).map some, K) := by
    refine mapM_run ?_
    rw [List.map_map, List.forall₂_map_right_iff, List.forall₂_same]
    intro name hname
    rw [Run.bind_ok (h name ((perm_visited names).mem_iff.mp hname))]
    rfl
  rw [Value.membersJson, Run.bind_ok hall]
  generalize (visited names).map (fun name => (name, f name)) = ms
  have hkeep : (ms.map some).filterMap id = ms := by simp
  show Except.ok (some (Json.obj ((ms.map some).filterMap id)), K) = _
  rw [hkeep]

theorem unlessAround_run {α : Type} {around : List Nat} {a : Nat} (h : a ∉ around) (x : Run α) :
    Value.unlessAround around a x = x := if_neg h

section
variable {call : Caller} {levels a : Nat} {around : List Nat}

/-- an array as it was made is written element by element -/
theorem serialize_array (hK : Untouched K) {xs : Array Value}
    (ha : K[a]? = some { kind := .array xs }) (haround : a ∉ around) {js : List Json}
    (hlen : js.length = xs.size) (h : ∀ i (hi : i < xs.size), ∃ r,
      xs[i].serialize call levels (a :: around) (String.ofList (Decimal.digitsOf i)) K =
        .ok (r, K) ∧ r.getD .null = js[i]) (name : String) :
    (Value.object a).serialize call (levels + 1) around name K = .ok (some (.arr js), K) := by
  have hmissing := getMember_missing hK unknown_toJson ha (own?_array_toJson rfl rfl rfl)
    (Or.inl rfl)
  unfold Value.serialize
  rw [Run.bind_ok (replaced_itself call name hmissing rfl)]
  dsimp only
  rw [Run.bind_ok (load_run ha)]
  dsimp only
  rw [unlessAround_run haround]
  refine elementsJson_run hlen fun i hi => ?_
  obtain ⟨r, hrun, hr⟩ := h i hi
  refine ⟨r, ?_, hr⟩
  rw [Run.bind_ok (getMember_element ha rfl hi)]
  exact hrun

/-- an object as it was made is written member by member, unless one of its members is a function -/
theorem serialize_object (hK : Untouched K) {es : List (String × Value)}
    (ha : K[a]? = some { members := Entries.made es }) (haround : a ∉ around)
    {ms : List (String × Json)} (h : Entries.Related (fun v j => v.isFunction K = .ok (false, K) ∧
      ∀ key, v.serialize call levels (a :: around) key K = .ok (some j, K)) es ms)
    (name : String) :
    (Value.object a).serialize call (levels + 1) around name K =
      .ok (some (.obj (visitedEntries ms)), K) := by
  have hmade := made_related h
  have hown := fun key => own?_of_plain (o := { members := Entries.made es }) rfl rfl key
  have hreplaced : (Value.object a).replaced call name K = .ok (.object a, K) := by
    have hget := get?_related hmade "toJSON"
    have hownjson := hown "toJSON"
    generalize Entries.get? "toJSON" (Entries.made es) = r at hget hownjson
    generalize Entries.get? "toJSON" (Entries.made ms) = s at hget
    cases hget with
    | none =>
      exact replaced_itself call name (getMember_missing hK unknown_toJson ha hownjson (Or.inr rfl))
        rfl
    | some hw => exact replaced_itself call name (getMember_own ha hownjson) hw.1
  -- a member is written as the entry of its name
  let f (key : String) : Json := (Entries.get? key (Entries.made ms)).getD .null
  have hwrite : ∀ key ∈ (Entries.made es).map Prod.fst,
      (do Value.serialize call levels (a :: around) key (← (Value.object a).getMember key) :
        Run (Option Json)) K = .ok (some (f key), K) := by
    intro key hkey
    obtain ⟨v, hv⟩ := Option.isSome_iff_exists.mp (Entries.isSome_get?.mpr hkey)
    have hownkey := hown key
    have hget := get?_related hmade key
    rw [hv] at hownkey hget
    simp only [f]
    generalize Entries.get? key (Entries.made ms) = s at hget ⊢
    cases hget with
    | some hvj =>
      rw [Run.bind_ok (getMember_own ha hownkey), hvj.2 key]
      rfl
  unfold Value.serialize
  rw [Run.bind_ok hreplaced]
  dsimp only
  rw [Run.bind_ok (load_run ha)]
  dsimp only
  rw [unlessAround_run haround, membersJson_run hwrite, names_related hmade,
    visitedEntries_eq ms (f := f) fun key j hj => by simp only [f, hj, Option.getD_some]]

end

/-- a value that stands for a document is written as the document, by induction on the levels -/
theorem serialize_of_represents (hK : Untouched K) (call : Caller) (levels : Nat)
    {around : List Nat} (name : String) {v : Value} {j : Json} (h : v.Represents K lo hi j)
    (haround : ∀ b ∈ around, hi ≤ b) (hlevels : j.nesting < levels) :
    v.serialize call levels around name K = .ok (some (throughScript j), K) := by
  induction levels generalizing hi around name v j with
  | zero => omega
  | succ levels ih =>
    -- what an object refers to was made before it
    have inside : ∀ a < hi, ∀ b ∈ a :: around, a ≤ b := by
      intro a ha b hb
      rcases List.mem_cons.mp hb with rfl | hb
      · exact Nat.le_refl _
      · have := haround b hb
        omega
    cases j with
    | null | bool _ | num _ | str _ =>
      simp only [Value.Represents] at h
      rw [h]
      simp only [throughScript]
      rfl
    | arr items =>
      simp only [Value.Represents] at h
      obtain ⟨a, xs, rfl, ⟨hlo, hhi⟩, ha, hxs⟩ := h
      rw [Values.represent_iff, List.forall₂_iff_get] at hxs
      obtain ⟨hlen, hxs⟩ := hxs
      rw [Json.nesting] at hlevels
      simp only [throughScript, itemsThroughScript_eq]
      refine serialize_array hK ha (fun hmem => ?_) (by simpa using hlen.symm)
        (fun i hi' => ?_) name
      · have := haround a hmem
        omega
      · have hi'' : i < items.length := by rw [← hlen]; simpa using hi'
        refine ⟨some (throughScript items[i]), ?_, by simp⟩
        refine ih _ (hxs i (by simpa using hi') hi'') (inside a hhi) ?_
        have := Json.nesting_item (List.getElem_mem hi'')
        show items[i].nesting < levels
        omega
    | obj members =>
      simp only [Value.Represents] at h
      obtain ⟨a, es, rfl, ⟨hlo, hhi⟩, ha, hes⟩ := h
      rw [Members.represent_iff] at hes
      rw [Json.nesting] at hlevels
      simp only [throughScript, membersThroughScript_eq]
      refine serialize_object hK ha (fun hmem => ?_) ?_ name
      · have := haround a hmem
        omega
      · have hnesting : ∀ m ∈ members, m.2.nesting ≤ Json.nestingMembers members :=
          fun m hm => Json.nesting_member hm
        rw [Entries.Related, List.forall₂_map_right_iff]
        refine ((List.forall₂_and_left members es).mpr ⟨hnesting, hes.flip⟩).flip.imp ?_
        rintro e m ⟨hm, hname, hrep⟩
        exact ⟨hname, isFunction_of_represents hrep, fun key =>
          ih key hrep (inside a hhi) (by omega)⟩

end

end ViewDesign.Script
