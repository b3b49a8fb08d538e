import ViewDesign.Proofs.Document.Matching
import ViewDesign.Proofs.Json.Finite

/-!
# The values of texts

The tree of a text is read as one value, in which members ascend and of repeated names the last one
stays.  Where no name is repeated nothing is lost, and the tree of the value matches the tree of the
text.

* `Node.value`            the value of a tree;
* `Node.Distinct`         no object has a name twice;
* `Node.Alike`            trees of the same value, such as those with members in another order;
* `Node.free_iff_value`    any value is decoded to it;
* `Node.matches_value`    a tree matches that of its value;
* `Node.matches_self`     and itself.
-/

namespace ViewDesign.Node

/-- The text of a name. -/
def name? : Node → Option String
  | .string s => s
  | _ => none

mutual

/-- The value that a tree is read as. -/
def value : Node → Json
  | .bool b => .bool b
  | .number n => .num n
  | .numeral n => (n.value?.map Json.num).getD .null
  | .string s => .str (s.getD "")
  | .sequence items => .arr (valuesIn items)
  | .mapping members => .object (valuesOf members)
  | _ => .null

/-- The values of elements. -/
def valuesIn : List Node → List Json
  | [] => []
  | v :: rest => value v :: valuesIn rest

/-- The names and values of members. -/
def valuesOf : List (Node × Node) → List (String × Json)
  | [] => []
  | (key, v) :: rest => (key.name?.map fun k => (k, value v)).toList ++ valuesOf rest

end

/-- The names of members. -/
def namesOf (members : List (Node × Node)) : List String := members.filterMap fun m => m.1.name?

mutual

/-- No object has a name twice. -/
def Distinct : Node → Prop
  | .sequence items => DistinctItems items
  | .mapping members => (namesOf members).Nodup ∧ DistinctMembers members
  | _ => True

/-- None in some elements has. -/
def DistinctItems : List Node → Prop
  | [] => True
  | v :: rest => Distinct v ∧ DistinctItems rest

/-- None in the values of some members has. -/
def DistinctMembers : List (Node × Node) → Prop
  | [] => True
  | (_, v) :: rest => Distinct v ∧ DistinctMembers rest

end

theorem valuesIn_eq_map (items : List Node) : valuesIn items = items.map value := by
  induction items with
  | nil => rfl
  | cons v rest ih => rw [valuesIn, ih, List.map_cons]

theorem valuesOf_eq_filterMap (members : List (Node × Node)) :
    valuesOf members = members.filterMap fun m => m.1.name?.map fun k => (k, m.2.value) := by
  induction members with
  | nil => rfl
  | cons m rest ih =>
    obtain ⟨key, v⟩ := m
    rw [valuesOf, ih, List.filterMap_cons]
    cases key.name? <;> rfl

theorem names_valuesOf (members : List (Node × Node)) :
    (valuesOf members).map Prod.fst = namesOf members := by
  rw [valuesOf_eq_filterMap, namesOf, List.map_filterMap]
  congr 1
  funext m
  cases m.1.name? <;> rfl

theorem distinctItems_iff {items : List Node} :
    DistinctItems items ↔ ∀ v ∈ items, v.Distinct := by
  induction items with
  | nil => simp [DistinctItems]
  | cons v rest ih => simp [DistinctItems, ih]

theorem distinctMembers_iff {members : List (Node × Node)} :
    DistinctMembers members ↔ ∀ m ∈ members, m.2.Distinct := by
  induction members with
  | nil => simp [DistinctMembers]
  | cons m rest ih => simp [DistinctMembers, ih]

theorem readableMembers_iff {depth : Nat} {members : List (Node × Node)} :
    ReadableMembers depth members ↔
      ∀ m ∈ members, (∃ s, m.1 = .string (some s)) ∧ m.2.Readable depth := by
  induction members with
  | nil => simp [ReadableMembers]
  | cons m rest ih =>
    rw [ReadableMembers, ih, List.forall_mem_cons, and_assoc]

/-! ## Trees of the same value -/

/-- Trees of the same value, either of which can be read if the other can. -/
structure Alike (node other : Node) : Prop where
  distinct : node.Distinct ↔ other.Distinct
  readable : ∀ depth, node.Readable depth ↔ other.Readable depth
  value : node.Distinct → node.value = other.value

namespace Alike

variable {node other third : Node}

theorem refl (node : Node) : node.Alike node := ⟨Iff.rfl, fun _ => Iff.rfl, fun _ => rfl⟩

theorem trans (h : node.Alike other) (h' : other.Alike third) : node.Alike third where
  distinct := h.distinct.trans h'.distinct
  readable depth := (h.readable depth).trans (h'.readable depth)
  value hnode := (h.value hnode).trans (h'.value (h.distinct.mp hnode))

theorem item (h : node.Alike other) (before after : List Node) :
    (Node.sequence (before ++ node :: after)).Alike (.sequence (before ++ other :: after)) where
  distinct := by
    simp only [Distinct, distinctItems_iff, List.forall_mem_append, List.forall_mem_cons,
      h.distinct]
  readable depth := by
    simp only [Readable, readableItems_iff, List.forall_mem_append, List.forall_mem_cons,
      h.readable]
  value hall := by
    simp only [Distinct, distinctItems_iff, List.forall_mem_append, List.forall_mem_cons] at hall
    simp only [Node.value, valuesIn_eq_map, List.map_append, List.map_cons, h.value hall.2.1]

theorem member (h : node.Alike other) (key : Node) (before after : List (Node × Node)) :
    (Node.mapping (before ++ (key, node) :: after)).Alike
      (.mapping (before ++ (key, other) :: after)) where
  distinct := by
    simp only [Distinct, distinctMembers_iff, namesOf, List.filterMap_append, List.filterMap_cons,
      List.forall_mem_append, List.forall_mem_cons, h.distinct]
  readable depth := by
    simp only [Readable, readableMembers_iff, List.forall_mem_append, List.forall_mem_cons,
      h.readable]
  value hall := by
    simp only [Distinct, distinctMembers_iff, List.forall_mem_append, List.forall_mem_cons] at hall
    simp only [Node.value, valuesOf_eq_filterMap, List.filterMap_append, List.filterMap_cons,
      h.value hall.2.2.1]

theorem perm {members others : List (Node × Node)} (h : members.Perm others) :
    (Node.mapping members).Alike (.mapping others) where
  distinct := by
    simp only [Distinct, distinctMembers_iff, namesOf, (h.filterMap _).nodup_iff, h.mem_iff]
  readable depth := by simp only [Readable, readableMembers_iff, h.mem_iff]
  value hall := by
    have hperm : (valuesOf members).Perm (valuesOf others) := by
      rw [valuesOf_eq_filterMap, valuesOf_eq_filterMap]
      exact h.filterMap _
    have hnodup : ((valuesOf members).map Prod.fst).Nodup := by
      rw [names_valuesOf]
      exact hall.1
    simp only [Node.value, Json.object]
    rw [Reordered.ofList_eq (Or.inr ⟨hnodup, hperm⟩)]

end Alike

/-! ## Decoding -/

open Decoder

theorem freeScalar_numeral {n : Numeral} (h : n.value?.isSome = true) {ctx : Context} :
    freeScalar ctx (.numeral n) = .ok (Node.numeral n).value := by
  obtain ⟨v, hv⟩ := Option.isSome_iff_exists.mp h
  simp only [freeScalar, found, value, hv]
  cases v with
  | int i => rfl
  | float x =>
    show Except.ok (Json.ofFloat x) = _
    rw [Json.ofFloat, if_pos (Numeral.value?_finite hv)]
    rfl

mutual

theorem freeNode_value (node : Node) (h : node.Literal) (depth : Nat) (path : Path)
    (hread : node.Readable depth) : freeNode ⟨.text, some depth, path⟩ node = .ok node.value := by
  cases node with
  | number n => cases h
  | scalar s => cases h
  | broken => cases hread
  | null => rfl
  | bool b => rfl
  | string s =>
    cases s with
    | none => cases hread
    | some s => rfl
  | numeral n => exact freeScalar_numeral hread
  | sequence items =>
    cases depth with
    | zero => exact absurd hread.1 (Nat.lt_irrefl 0)
    | succ n =>
      have hitems := freeItems_value items h n path 0 hread.2
      simp only [freeNode, Context.enter, hitems, bind, Except.bind, pure, Except.pure, value]
  | mapping members =>
    cases depth with
    | zero => exact absurd hread.1 (Nat.lt_irrefl 0)
    | succ n =>
      have hmembers := freeMembers_value members h n path hread.2
      simp only [freeNode, Context.enter, hmembers, bind, Except.bind, pure, Except.pure, value]

theorem freeItems_value (items : List Node) (h : LiteralItems items) (depth : Nat) (path : Path)
    (i : Nat) (hread : ReadableItems depth items) :
    freeItems ⟨.text, some depth, path⟩ i items = .ok (valuesIn items) := by
  cases items with
  | nil => rfl
  | cons v rest =>
    have hfirst := freeNode_value v h.1 depth (.item i :: path) hread.1
    have hrest := freeItems_value rest h.2 depth path (i + 1) hread.2
    simp only [freeItems, Context.item, hfirst, hrest, bind, Except.bind, pure, Except.pure,
      valuesIn]

theorem freeMembers_value (members : List (Node × Node)) (h : LiteralMembers members) (depth : Nat)
    (path : Path) (hread : ReadableMembers depth members) :
    freeMembers ⟨.text, some depth, path⟩ members = .ok (valuesOf members) := by
  cases members with
  | nil => rfl
  | cons m rest =>
    obtain ⟨key, v⟩ := m
    obtain ⟨⟨k, rfl⟩, hv, hmore⟩ := hread
    have hfirst := freeNode_value v h.2.1 depth (.member k :: path) hv
    have hrest := freeMembers_value rest h.2.2 depth path hmore
    simp only [freeMembers, name, Context.member, hfirst, hrest, bind, Except.bind, pure,
      Except.pure, valuesOf, name?, Option.map_some, Option.toList_some, List.singleton_append]

end

/-- **Any value.** What can be read at all is read as its value. -/
theorem free_iff_value {node : Node} (h : node.Literal) {depth : Nat} {path : Path} {v : Json} :
    free ⟨.text, some depth, path⟩ node = .ok v ↔ node.Readable depth ∧ v = node.value := by
  constructor
  · intro hv
    have hread := (free_ok_iff h).mp ⟨v, hv⟩
    have hvalue := freeNode_value node h depth path hread
    refine ⟨hread, ?_⟩
    rw [free, hvalue] at hv
    exact (Except.ok.inj hv).symm
  · rintro ⟨hread, rfl⟩
    exact freeNode_value node h depth path hread

/-! ## Matching -/

/-- what can be read as a single value tells something -/
theorem exists_tells {node : Node} (h : node.Literal) {depth : Nat} (hread : node.Readable depth)
    (hsequence : ∀ items, node ≠ .sequence items) (hmapping : ∀ members, node ≠ .mapping members) :
    ∃ f, node.Tells f ∧ (Node.ofJson node.value).Tells f := by
  cases node with
  | number n => cases h
  | scalar s => cases h
  | broken => cases hread
  | null => exact ⟨_, rfl, rfl⟩
  | bool b => exact ⟨_, rfl, rfl⟩
  | string s =>
    cases s with
    | none => cases hread
    | some s => exact ⟨_, ⟨s, rfl, rfl⟩, ⟨s, rfl, rfl⟩⟩
  | numeral n =>
    obtain ⟨v, hv⟩ := Option.isSome_iff_exists.mp hread
    refine ⟨.ofNumber v, ⟨v, hv, rfl⟩, ?_⟩
    simp only [value, hv, Option.map_some, Option.getD_some, ofJson, Tells]
  | sequence items => exact absurd rfl (hsequence items)
  | mapping members => exact absurd rfl (hmapping members)

theorem ofMembers_named (es : List (String × Json)) :
    ofMembers es = (es.map fun e => (e.1, ofJson e.2)).map named := by
  rw [ofMembers_eq_map, List.map_map]
  rfl

mutual

theorem matches_value (node : Node) (h : node.Literal) (depth : Nat) (hread : node.Readable depth)
    (hdistinct : node.Distinct) : node.Matches (.ofJson node.value) := by
  cases node with
  | sequence items =>
    simp only [value, ofJson]
    exact ⟨_, rfl, matchesItems_value items h (depth - 1) hread.2 hdistinct⟩
  | mapping members =>
    have hnodup : ((valuesOf members).map Prod.fst).Nodup := by
      rw [names_valuesOf]
      exact hdistinct.1
    have hperm : ((valuesOf members).map fun e => (e.1, ofJson e.2)).Perm
        ((Entries.ofList (valuesOf members)).map fun e => (e.1, ofJson e.2)) :=
      (Entries.perm_ofList hnodup).symm.map _
    simp only [value, Json.object, ofJson, ofMembers_named]
    refine ⟨_, _, rfl, Or.inr ⟨?_, hperm⟩,
      matchesMembers_value members h (depth - 1) hread.2 hdistinct.2⟩
    rw [List.map_map]
    exact hnodup
  | _ => exact exists_tells h hread (by rintro _ ⟨⟩) (by rintro _ ⟨⟩)

theorem matchesItems_value (items : List Node) (h : LiteralItems items) (depth : Nat)
    (hread : ReadableItems depth items) (hdistinct : DistinctItems items) :
    MatchesItems items (ofItems (valuesIn items)) := by
  cases items with
  | nil => rfl
  | cons v rest =>
    exact ⟨_, _, rfl, matches_value v h.1 depth hread.1 hdistinct.1,
      matchesItems_value rest h.2 depth hread.2 hdistinct.2⟩

theorem matchesMembers_value (members : List (Node × Node)) (h : LiteralMembers members)
    (depth : Nat) (hread : ReadableMembers depth members) (hdistinct : DistinctMembers members) :
    MatchesMembers members ((valuesOf members).map fun e => (e.1, ofJson e.2)) := by
  cases members with
  | nil => rfl
  | cons m rest =>
    obtain ⟨key, v⟩ := m
    obtain ⟨⟨k, rfl⟩, hv, hmore⟩ := hread
    exact ⟨k, _, _, rfl, rfl, matches_value v h.2.1 depth hv hdistinct.1,
      matchesMembers_value rest h.2.2 depth hmore hdistinct.2⟩

end

mutual

theorem matches_self (node : Node) (h : node.Literal) (depth : Nat) (hread : node.Readable depth) :
    node.Matches node := by
  cases node with
  | sequence items => exact ⟨items, rfl, matchesItems_self items h (depth - 1) hread.2⟩
  | mapping members =>
    obtain ⟨ms, rfl, hms⟩ := matchesMembers_self members h (depth - 1) hread.2
    exact ⟨ms, ms, rfl, Or.inl rfl, hms⟩
  | _ =>
    obtain ⟨f, hf, -⟩ := exists_tells h hread (by rintro _ ⟨⟩) (by rintro _ ⟨⟩)
    exact ⟨f, hf, hf⟩

theorem matchesItems_self (items : List Node) (h : LiteralItems items) (depth : Nat)
    (hread : ReadableItems depth items) : MatchesItems items items := by
  cases items with
  | nil => rfl
  | cons v rest =>
    exact ⟨_, _, rfl, matches_self v h.1 depth hread.1,
      matchesItems_self rest h.2 depth hread.2⟩

theorem matchesMembers_self (members : List (Node × Node)) (h : LiteralMembers members)
    (depth : Nat) (hread : ReadableMembers depth members) :
    ∃ ms : List (String × Node), members = ms.map named ∧ MatchesMembers members ms := by
  cases members with
  | nil => exact ⟨[], rfl, rfl⟩
  | cons m rest =>
    obtain ⟨key, v⟩ := m
    obtain ⟨⟨k, rfl⟩, hv, hmore⟩ := hread
    obtain ⟨ms, rfl, hms⟩ := matchesMembers_self rest h.2.2 depth hmore
    exact ⟨(k, v) :: ms, rfl, k, v, ms, rfl, rfl, matches_self v h.2.1 depth hv, hms⟩

end

end ViewDesign.Node
