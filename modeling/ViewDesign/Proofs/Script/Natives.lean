import ViewDesign.Proofs.Script.Link

/-!
# The objects that are there from the start

They refer only to each other, so two heaps in which they are as they were at the start agree on
them, and an object that corresponds to one of them is that object.

* `Link.Natives`              they correspond to themselves;
* `linked_native`             each of them is linked to itself;
* `Object.Linked.eq_native`   and to nothing else;
* `Untouched.find_missing`    a name that none of the usual ancestors knows is not found.
-/

namespace ViewDesign.Script

/-- The objects that are there from the start correspond to themselves. -/
def Link.Natives (L : Link) : Prop := ∀ a, Realm.Shared a → L a a .data

/-- The link that pairs them, and nothing else. -/
def nativeLink : Link := fun a b r => a = b ∧ r = .data ∧ Realm.Shared a

theorem natives_nativeLink : nativeLink.Natives := fun _ h => ⟨rfl, rfl, h⟩

theorem Link.Natives.mono {L M : Link} (h : L.Natives) (hle : L.Le M) : M.Natives :=
  fun a ha => hle _ _ _ (h a ha)

/-! ## What they refer to -/

/-- Whether an address is that of one of them. -/
def Realm.isShared (a : Nat) : Bool := decide (objectPrototype ≤ a) && decide (a < size)

theorem Realm.shared_of_isShared {a : Nat} (h : Realm.isShared a = true) : Realm.Shared a := by
  simpa [Realm.isShared, Realm.Shared] using h

/-- Whether a value refers to no other object. -/
def Value.isShared : Value → Bool
  | .object a => Realm.isShared a
  | _ => true

/-- Whether a hidden member refers to no other object. -/
def Slot.isShared : Slot → Bool
  | .value v => v.isShared
  | .locked v => v.isShared
  | .ancestor => true

/-- Whether a kind is that of one of them. -/
def Kind.isShared : Kind → Bool
  | .plain => true
  | .array items => items.toList.isEmpty
  | .native b => b.shared
  | .wrapped v => v.isPrimitive
  | _ => false

/-- Whether what an object inherits from is one of them. -/
def Object.inheritsShared (o : Object) : Bool :=
  match o.inherits with
  | some (some a) => Realm.isShared a
  | _ => true

/-- Whether an array is bare. -/
def Object.isBare (o : Object) : Bool :=
  match o.kind with
  | .array _ => (o.kept? "toJSON").isNone &&
      (o.parent == some Realm.arrayPrototype || o.parent == some Realm.objectPrototype)
  | _ => true

/-- Whether an object refers to no others than those that are there from the start. -/
def Object.isShared (o : Object) : Bool :=
  o.kind.isShared && o.inheritsShared && o.hidden.all (fun e => e.2.isShared) &&
    o.members.isEmpty && o.isBare

theorem Realm.shared_of_lt {a : Nat} (hlo : objectPrototype ≤ a) (hhi : a < firstConstructor) :
    Shared a := by
  have hsize : firstConstructor < size := by decide +kernel
  exact ⟨hlo, by omega⟩

theorem Realm.shared_objectPrototype : Shared objectPrototype :=
  shared_of_lt (by decide) (by decide)

theorem Realm.shared_prototypeOf (type : Primitive) : Shared (prototypeOf type) := by
  cases type <;> exact shared_of_lt (by decide) (by decide)

theorem Kind.shared_parent (k : Kind) : Realm.Shared k.parent := by
  have hfunction : Realm.Shared Realm.functionPrototype :=
    Realm.shared_of_lt (by decide) (by decide)
  cases k with
  | array items => exact Realm.shared_of_lt (show 4 ≤ 6 by decide) (show 6 < 10 by decide)
  | function c => exact hfunction
  | native b => exact hfunction
  | _ => exact Realm.shared_objectPrototype

theorem shared_natives : ((Realm.natives.drop 3).all Object.isShared) = true := by
  decide +kernel

theorem Object.bare_of_isBare {o : Object} (h : o.isBare = true) : o.Bare := by
  intro items hi
  simp only [Object.isBare, hi, Bool.and_eq_true, Bool.or_eq_true, beq_iff_eq,
    Option.isNone_iff_eq_none] at h
  exact h

theorem Realm.get?_heap (globals : Object) {a : Nat} (ha : 0 < a) :
    (Realm.heapWith globals)[a]? = Realm.heap[a]? := by
  obtain ⟨n, rfl⟩ : ∃ n, a = n + 1 := ⟨a - 1, by omega⟩
  simp [Realm.heap, Realm.heapWith]

theorem untouched_heapWith (globals : Object) : Untouched (Realm.heapWith globals) :=
  fun _ ha _ => Realm.get?_heap globals ha

theorem Realm.isShared_get {a : Nat} (ha : Realm.Shared a) :
    ∃ o, Realm.heap[a]? = some o ∧ o.isShared = true := by
  obtain ⟨hlo, hhi⟩ := ha
  have h4 : Realm.objectPrototype = 4 := rfl
  obtain ⟨n, rfl⟩ : ∃ n, a = n + 4 := ⟨a - 4, by omega⟩
  have hlt : n + 3 < Realm.natives.length := by
    unfold Realm.size at hhi
    omega
  refine ⟨Realm.natives[n + 3], by simp [Realm.heap, Realm.heapWith, hlt], ?_⟩
  refine List.all_eq_true.mp shared_natives _ ?_
  rw [List.mem_iff_getElem]
  exact ⟨n, by rw [List.length_drop]; omega, by rw [List.getElem_drop]; congr 1; omega⟩

/-! ## They correspond to themselves -/

section
variable {L : Link}

theorem Value.linked_self (hL : L.Natives) {v : Value} (h : v.isShared = true) :
    Value.Linked L v v := by
  cases v with
  | object a => exact .object (hL a (Realm.shared_of_isShared h))
  | _ => exact .primitive rfl

theorem Slot.linked_self (hL : L.Natives) {s : Slot} (h : s.isShared = true) :
    Slot.Linked L s s := by
  cases s with
  | value v => exact .value (Value.linked_self hL h)
  | locked v => exact .locked (Value.linked_self hL h)
  | ancestor => exact .ancestor

theorem Kind.linked_self {plain : Bool} {k : Kind} (h : k.isShared = true) :
    Kind.Linked plain L k k := by
  cases k with
  | plain => exact .plain
  | json => cases h
  | array items =>
    have hnil : items.toList = [] := List.isEmpty_iff.mp h
    refine .array ?_
    rw [hnil]
    exact .nil
  | function c => cases h
  | native b => exact .native h
  | wrapped v => exact .wrapped h

theorem related_self {α : Type} {R : α → α → Prop} {es : List (String × α)}
    (h : ∀ e ∈ es, R e.2 e.2) : Entries.Related R es es := by
  induction es with
  | nil => exact .nil
  | cons e es ih =>
    rw [List.forall_mem_cons] at h
    exact .cons ⟨rfl, h.1⟩ (ih h.2)

theorem Object.linked_self (hL : L.Natives) (plain : Bool) {o : Object} (h : o.isShared = true) :
    Object.Linked plain L o o := by
  simp only [Object.isShared, Bool.and_eq_true] at h
  obtain ⟨⟨⟨⟨hkind, hinherits⟩, hhidden⟩, hmembers⟩, hbare⟩ := h
  refine ⟨Kind.linked_self hkind, ?_, ?_, ?_, fun _ => ⟨bare_of_isBare hbare, bare_of_isBare hbare⟩⟩
  · unfold Object.inheritsShared at hinherits
    cases hi : o.inherits with
    | none => exact .none
    | some p =>
      rw [hi] at hinherits
      cases p with
      | none => exact .some .none
      | some a => exact .some (.some (hL a (Realm.shared_of_isShared hinherits)))
  · exact related_self fun e he => Slot.linked_self hL (List.all_eq_true.mp hhidden e he)
  · rw [List.isEmpty_iff.mp hmembers]
    exact .nil

/-- where they are as they were, they correspond -/
theorem linked_native (hL : L.Natives) (plain : Bool) {K H : Heap} (hK : Untouched K)
    (hH : Untouched H) {a : Nat} (ha : Realm.Shared a) :
    ∃ o p, K[a]? = some o ∧ H[a]? = some p ∧ Object.Linked plain L o p := by
  obtain ⟨o, ho, hshared⟩ := Realm.isShared_get ha
  have hpos : 0 < a := Nat.lt_of_lt_of_le (by decide) ha.1
  exact ⟨o, o, (hK a hpos ha.2).trans ho, (hH a hpos ha.2).trans ho,
    Object.linked_self hL plain hshared⟩

/-! ## And to nothing else -/

/-- A link that pairs addresses one to one, and those of the objects from the start with
themselves. -/
structure Link.Proper (L : Link) : Prop where
  natives : L.Natives
  unique : ∀ {a b r a' b' r'}, L a b r → L a' b' r' → (a = a' ↔ b = b')

section
variable (hL : L.Proper)
include hL

theorem Link.Proper.eq_of_shared {a b : Nat} {r : Role} (h : L a b r) (hb : Realm.Shared b) :
    a = b :=
  (hL.unique h (hL.natives b hb)).mpr rfl

theorem Value.Linked.eq_shared {v w : Value} (h : Value.Linked L v w) (hw : w.isShared = true) :
    v = w := by
  cases h with
  | primitive => rfl
  | object h => rw [hL.eq_of_shared h (Realm.shared_of_isShared hw)]

theorem Slot.Linked.eq_shared {s t : Slot} (h : Slot.Linked L s t) (ht : t.isShared = true) :
    s = t := by
  cases h with
  | value h => rw [h.eq_shared hL ht]
  | locked h => rw [h.eq_shared hL ht]
  | ancestor => rfl

omit hL in
theorem related_eq {α : Type} {R : α → α → Prop} {es fs : List (String × α)}
    (h : Entries.Related R es fs) (heq : ∀ x, ∀ f ∈ fs, R x f.2 → x = f.2) : es = fs := by
  induction h with
  | nil => rfl
  | cons hef _ ih =>
    rename_i e f _ _ _
    have hfirst : e.2 = f.2 := heq e.2 f (List.mem_cons_self ..) hef.2
    rw [ih fun x g hg => heq x g (List.mem_cons_of_mem _ hg), Prod.ext hef.1 hfirst]

/-- what corresponds to an object from the start as it was is that object -/
theorem Object.Linked.eq_shared {plain : Bool} {o p : Object} (h : Object.Linked plain L o p)
    (hp : p.isShared = true) : o = p := by
  obtain ⟨kind, inherits, hidden, members⟩ := o
  obtain ⟨kind', inherits', hidden', members'⟩ := p
  simp only [Object.isShared, Bool.and_eq_true] at hp
  obtain ⟨⟨⟨⟨hkind, hinherits⟩, hhidden⟩, hmembers⟩, -⟩ := hp
  obtain ⟨hk, hi, hh, hm, -⟩ := h
  dsimp only at hk hi hh hm hkind hinherits hhidden hmembers
  congr 1
  · cases hk with
    | plain => rfl
    | array hxy =>
      rename_i xs ys
      have hnil : ys.toList = [] := List.isEmpty_iff.mp hkind
      rw [hnil] at hxy
      congr 1
      apply Array.toList_inj.mp
      rw [hnil, List.forall₂_nil_right_iff.mp hxy]
    | function => cases hkind
    | native => rfl
    | wrapped => rfl
  · cases hi with
    | none => rfl
    | some hi =>
      cases hi with
      | none => rfl
      | some hi => rw [hL.eq_of_shared hi (Realm.shared_of_isShared hinherits)]
  · exact related_eq hh fun x f hf hx => hx.eq_shared hL (List.all_eq_true.mp hhidden f hf)
  · rw [List.isEmpty_iff.mp hmembers] at hm ⊢
    exact List.forall₂_nil_right_iff.mp hm

end

end

/-! ## What is not found -/

theorem Untouched.get {K : Heap} (hK : Untouched K) {a : Nat} {o : Object}
    (ho : Realm.heap[a]? = some o) (ha : 0 < a) : K[a]? = some o := by
  refine (hK a ha ?_).trans ho
  have hlt := (Array.getElem?_eq_some_iff.1 ho).1
  simpa [Realm.heap, Realm.heapWith, Realm.size] using hlt

/-- The object from the start at an address. -/
def Realm.objectAt (a : Nat) : Object := Realm.heap[a]?.getD {}

theorem Realm.objectAt_succ (n : Nat) : objectAt (n + 1) = natives[n]?.getD {} := by
  rw [objectAt, heap, heapWith, List.getElem?_toArray, List.getElem?_cons_succ]

theorem Untouched.getD {K : Heap} (hK : Untouched K) {a : Nat} (ha : 0 < a) (hlt : a < Realm.size) :
    K[a]?.getD {} = Realm.objectAt a := by
  rw [hK a ha hlt]
  rfl

theorem Untouched.get_objectAt {K : Heap} (hK : Untouched K) {a : Nat} (ha : 0 < a)
    (hlt : a < Realm.size) : K[a]? = some (Realm.objectAt a) := by
  obtain ⟨n, rfl⟩ : ∃ n, a = n + 1 := ⟨a - 1, by omega⟩
  have hn : n < Realm.natives.length := by
    rw [Realm.size] at hlt
    omega
  rw [hK _ ha hlt, Realm.objectAt_succ, List.getElem?_eq_getElem hn, Option.getD_some, Realm.heap,
    Realm.heapWith, List.getElem?_toArray, List.getElem?_cons_succ, List.getElem?_eq_getElem hn]

/-- A name that is not known to objects and arrays by what they inherit. -/
def Unknown (key : String) : Prop :=
  (Realm.objectAt Realm.objectPrototype).own? key = none ∧
    (Realm.objectAt Realm.arrayPrototype).own? key = none

theorem unknown_toJson : Unknown "toJSON" := by
  constructor <;> rw [← Option.isNone_iff_eq_none] <;> decide +kernel

theorem find_own {K : Heap} {a : Nat} {o : Object} {key : String} {s : Slot} (n : Nat)
    (ho : K[a]? = some o) (hs : o.own? key = some s) : K.find key (n + 1) a = .ok (some s) := by
  simp only [Heap.find, ho, Option.getD_some, hs]
  rfl

theorem find_parent {K : Heap} {a p : Nat} {o : Object} {key : String} (n : Nat)
    (ho : K[a]? = some o) (hs : o.own? key = none) (hp : o.parent = some p) :
    K.find key (n + 1) a = K.find key n p := by
  simp only [Heap.find, ho, Option.getD_some, hs, hp]

namespace Untouched

variable {K : Heap} (hK : Untouched K) {key : String}
include hK

theorem find_object (hkey : Unknown key) (n : Nat) :
    K.find key (n + 1) Realm.objectPrototype = .ok none := by
  have hparent : (Realm.objectAt Realm.objectPrototype).parent = none := by
    decide +kernel
  simp only [Heap.find, hK.getD (show 0 < Realm.objectPrototype by decide) (by decide +kernel),
    hkey.1, hparent]
  rfl

theorem find_array (hkey : Unknown key) (n : Nat) :
    K.find key (n + 2) Realm.arrayPrototype = .ok none := by
  have hparent : (Realm.objectAt Realm.arrayPrototype).parent =
      some Realm.objectPrototype := by
    decide +kernel
  rw [Heap.find]
  simp only [hK.getD (show 0 < Realm.arrayPrototype by decide) (by decide +kernel), hkey.2, hparent]
  exact hK.find_object hkey n

/-- a name that is not an object's own and not known to what it inherits from is not found -/
theorem find_missing (hkey : Unknown key) {a : Nat} {o : Object} (ho : K[a]? = some o)
    (hown : o.own? key = none)
    (hparent : o.parent = some Realm.arrayPrototype ∨ o.parent = some Realm.objectPrototype)
    (n : Nat) : K.find key (n + 3) a = .ok none := by
  obtain hp | hp := hparent
  · rw [find_parent _ ho hown hp, hK.find_array hkey]
  · rw [find_parent _ ho hown hp, hK.find_object hkey]

end Untouched

end ViewDesign.Script
