import ViewDesign.Document.Format
import ViewDesign.Proofs.Traversal

/-!
# The trees of JSON texts

The tree of a JSON text has literals for its numbers, whether the text is well formed or not.  Of
such trees those that can be read as a value are told by their parts alone, apart from the number
of levels that may be entered.

* `Node.object`                  the tree of an object;
* `Node.Literal`                 the trees that texts have, `Json.literal_ofText`;
* `Node.Readable`                the trees of values, up to a number of levels;
* `Decoder.free_ok_iff`          a free value is decoded exactly from such a tree;
* `Decoder.walkNode_ok_iff`      and one of unknown shape is passed over exactly there.
-/

namespace ViewDesign

/-! ## Trees -/

namespace Node

/-- The tree of a member. -/
def named (m : String × Node) : Node × Node := (.string (some m.1), m.2)

/-- The tree of an object with these members. -/
def object (members : List (String × Node)) : Node := .mapping (members.map named)

theorem cons_eq_map_named {key node : Node} {rest : List (Node × Node)}
    {members : List (String × Node)} :
    (key, node) :: rest = members.map named ↔
      ∃ k others, key = .string (some k) ∧ rest = others.map named ∧
        members = (k, node) :: others := by
  constructor
  · intro h
    obtain ⟨⟨k, v⟩, others, rfl, hfirst, rfl⟩ := List.map_eq_cons_iff.mp h.symm
    cases hfirst
    exact ⟨k, others, rfl, rfl, rfl⟩
  · rintro ⟨k, others, rfl, rfl, rfl⟩
    rfl

mutual

/-- A tree as JSON texts have it: every number is a literal. -/
def Literal : Node → Prop
  | .number _ => False
  | .scalar _ => False
  | .sequence items => LiteralItems items
  | .mapping members => LiteralMembers members
  | _ => True

/-- All of some elements are. -/
def LiteralItems : List Node → Prop
  | [] => True
  | v :: rest => Literal v ∧ LiteralItems rest

/-- All of some names and values are. -/
def LiteralMembers : List (Node × Node) → Prop
  | [] => True
  | (k, v) :: rest => Literal k ∧ Literal v ∧ LiteralMembers rest

end

mutual

/-- A tree that can be read as a value: it has no fault, its strings and names denote texts, its
numbers are in range, and no more than so many levels have to be entered. -/
def Readable (depth : Nat) : Node → Prop
  | .broken => False
  | .numeral n => n.value?.isSome = true
  | .string s => s.isSome = true
  | .sequence items => 0 < depth ∧ ReadableItems (depth - 1) items
  | .mapping members => 0 < depth ∧ ReadableMembers (depth - 1) members
  | _ => True

/-- All of some elements can. -/
def ReadableItems (depth : Nat) : List Node → Prop
  | [] => True
  | v :: rest => Readable depth v ∧ ReadableItems depth rest

/-- All of some members can. -/
def ReadableMembers (depth : Nat) : List (Node × Node) → Prop
  | [] => True
  | (k, v) :: rest => (∃ s, k = .string (some s)) ∧ Readable depth v ∧ ReadableMembers depth rest

end

theorem literalItems_iff {items : List Node} :
    LiteralItems items ↔ ∀ v ∈ items, v.Literal := by
  induction items with
  | nil => simp [LiteralItems]
  | cons v rest ih => simp [LiteralItems, ih]

theorem readableItems_iff {depth : Nat} {items : List Node} :
    ReadableItems depth items ↔ ∀ v ∈ items, v.Readable depth := by
  induction items with
  | nil => simp [ReadableItems]
  | cons v rest ih => simp [ReadableItems, ih]

/-- the members of an object can be read if their values can -/
theorem readable_object {depth : Nat} {members : List (String × Node)} :
    (object members).Readable (depth + 1) ↔ ∀ m ∈ members, m.2.Readable depth := by
  have hmembers : ReadableMembers depth (members.map named) ↔
      ∀ m ∈ members, m.2.Readable depth := by
    induction members with
    | nil => simp [ReadableMembers]
    | cons m rest ih => simp [ReadableMembers, named, ih]
  simp [object, Readable, hmembers]

theorem readable_sequence {depth : Nat} {items : List Node} :
    (Node.sequence items).Readable (depth + 1) ↔ ∀ v ∈ items, v.Readable depth := by
  simp [Readable, readableItems_iff]

theorem literal_object {members : List (String × Node)} :
    (object members).Literal ↔ ∀ m ∈ members, m.2.Literal := by
  show LiteralMembers (members.map named) ↔ _
  induction members with
  | nil => simp [LiteralMembers]
  | cons m rest ih => simp [LiteralMembers, Literal, named, ih]

mutual

/-- more levels do no harm -/
theorem readable_mono {depth depth' : Nat} (hle : depth ≤ depth') (node : Node)
    (h : node.Readable depth) : node.Readable depth' := by
  cases node with
  | sequence items =>
    exact ⟨Nat.lt_of_lt_of_le h.1 hle, readableItems_mono (Nat.sub_le_sub_right hle 1) items h.2⟩
  | mapping members =>
    exact ⟨Nat.lt_of_lt_of_le h.1 hle,
      readableMembers_mono (Nat.sub_le_sub_right hle 1) members h.2⟩
  | _ => exact h

theorem readableItems_mono {depth depth' : Nat} (hle : depth ≤ depth') (items : List Node)
    (h : ReadableItems depth items) : ReadableItems depth' items := by
  cases items with
  | nil => trivial
  | cons v rest => exact ⟨readable_mono hle v h.1, readableItems_mono hle rest h.2⟩

theorem readableMembers_mono {depth depth' : Nat} (hle : depth ≤ depth')
    (members : List (Node × Node)) (h : ReadableMembers depth members) :
    ReadableMembers depth' members := by
  cases members with
  | nil => trivial
  | cons m rest =>
    exact ⟨h.1, readable_mono hle m.2 h.2.1, readableMembers_mono hle rest h.2.2⟩

end

end Node

/-! ## Reading a text -/

namespace Json

open Node

theorem literal_readWord {node : Node} (h : node.Literal) (word cs : List Char) :
    (readWord word node cs).1.Literal := by
  unfold readWord
  split
  · exact h
  · simp only [Literal]

theorem literal_readNumeral (cs : List Char) : (readNumeral cs).1.Literal := by
  unfold readNumeral
  split <;> simp only [Literal]

/-- whatever is met, the tree has only literals -/
theorem literal_read (fuel : Nat) :
    (∀ cs, (readValue fuel cs).1.Literal) ∧ (∀ cs, LiteralItems (readItems fuel cs).1) ∧
      ∀ cs, LiteralMembers (readMembers fuel cs).1 := by
  -- the three readers call each other with one step less
  induction fuel with
  | zero => simp [readValue, readItems, readMembers, Literal, LiteralItems, LiteralMembers]
  | succ fuel ih =>
    obtain ⟨hvalue, hitems, hmembers⟩ := ih
    refine ⟨fun cs => ?_, fun cs => ?_, fun cs => ?_⟩
    · unfold readValue
      split
      · simp only [Literal]
      · split <;> simp only [Literal]
      · split
        · simp only [Literal, LiteralItems]
        · simp only [Literal]
          exact hitems _
      · split
        · simp only [Literal, LiteralMembers]
        · simp only [Literal]
          exact hmembers _
      · exact literal_readWord (by simp only [Literal]) _ _
      · exact literal_readWord (by simp only [Literal]) _ _
      · exact literal_readWord (by simp only [Literal]) _ _
      · exact literal_readNumeral _
    · have hv := hvalue cs
      unfold readItems
      split
      · rename_i v heq
        rw [heq] at hv
        exact ⟨hv, trivial⟩
      · rename_i v rest heq
        rw [heq] at hv
        split
        · exact ⟨hv, trivial⟩
        · exact ⟨hv, hitems _⟩
        · exact ⟨hv, by simp only [Literal], trivial⟩
    · have hk := hvalue cs
      unfold readMembers
      split
      · rename_i k rest heq
        have hname : (Node.string k).Literal := by simp only [Literal]
        have hbroken : Node.broken.Literal := by simp only [Literal]
        split
        · rename_i rest' hrest'
          have hv := hvalue rest'
          split
          · rename_i v hv'
            rw [hv'] at hv
            exact ⟨hname, hv, trivial⟩
          · rename_i v rest'' hv'
            rw [hv'] at hv
            split
            · exact ⟨hname, hv, trivial⟩
            · exact ⟨hname, hv, hmembers _⟩
            · exact ⟨hname, hv, hbroken, hbroken, trivial⟩
        · exact ⟨hname, hbroken, trivial⟩
      · rename_i k rest hne heq
        rw [heq] at hk
        exact ⟨hk, by simp only [Literal], trivial⟩

theorem literal_ofText (text : String) : (Source.ofText text).root.Literal := by
  have hvalue := (literal_read (2 * text.toList.length + 1)).1 text.toList
  unfold Source.ofText Source.ofChars
  split
  · rename_i root heq
    rw [heq] at hvalue
    exact hvalue
  · rename_i root rest heq
    rw [heq] at hvalue
    exact hvalue

end Json

/-! ## Values of any shape -/

namespace Decoder

open Node

theorem name_ok_iff {expected : String} {depth : Nat} {path : Path} {node : Node}
    (h : node.Literal) {s : String} :
    name expected ⟨.text, some depth, path⟩ node = .ok s ↔ node = .string (some s) := by
  cases node with
  | scalar s => simp only [Literal] at h
  | string t => cases t <;> simp [name]
  | _ => simp [name]

/-- What is told about a place, if it is of a certain kind. -/
def Shows (node : Node) : Found → Prop
  | .unit => node = .null
  | .bool b => node = .bool b
  | .int i => ∃ n, node = .numeral n ∧ n.value? = some (.int i)
  | .wide _ => False
  | .float x => ∃ n, node = .numeral n ∧ n.value? = some (.float x)
  | .text s => node = .string (some s)
  | .sequence => ∃ items, node = .sequence items
  | .mapping => ∃ members, node = .mapping members

theorem found_ok_iff {ctx : Context} {node : Node} (h : node.Literal) {f : Found} :
    found ctx node = .ok f ↔ Shows node f := by
  cases node with
  | number n => simp only [Literal] at h
  | scalar s => simp only [Literal] at h
  | string s => cases s <;> cases f <;> simp [found, Shows]
  | numeral n =>
    simp only [found]
    cases hn : n.value? with
    | none => cases f <;> simp [Shows, hn]
    | some v => cases v <;> cases f <;> simp [Shows, hn]
  | _ => cases f <;> simp [found, Shows]

/-- a number is decoded and passed over exactly if it is in range -/
theorem numeral_ok_iff {ctx : Context} {n : Numeral} :
    ((∃ v, freeScalar ctx (.numeral n) = .ok v) ↔ n.value?.isSome = true) ∧
      ((∃ v, walkNode.walkScalar ctx (.numeral n) = .ok v) ↔ n.value?.isSome = true) := by
  simp only [freeScalar, walkNode.walkScalar, found]
  cases n.value? with
  | none => simp [bind, Except.bind]
  | some v => cases v <;> simp [bind, Except.bind]

mutual

theorem freeNode_ok_iff (node : Node) (h : node.Literal) (depth : Nat) (path : Path) :
    (∃ v, freeNode ⟨.text, some depth, path⟩ node = .ok v) ↔ node.Readable depth := by
  cases node with
  | number n => simp only [Literal] at h
  | scalar s => simp only [Literal] at h
  | broken => simp [freeNode, freeScalar, found, Readable, bind, Except.bind]
  | null => simp [freeNode, freeScalar, found, Readable, bind, Except.bind]
  | bool b => simp [freeNode, freeScalar, found, Readable, bind, Except.bind]
  | string s => cases s <;> simp [freeNode, freeScalar, found, Readable, bind, Except.bind]
  | numeral n =>
    simp only [freeNode, Readable]
    exact numeral_ok_iff.1
  | sequence items =>
    simp only [Literal] at h
    cases depth with
    | zero => simp [freeNode, Context.enter, Readable, bind, Except.bind]
    | succ n =>
      have hitems := freeItems_ok_iff items h n path 0
      simp only [freeNode, exists_ok_bind, Readable, Nat.add_sub_cancel, ← hitems]
      simp [Context.enter, pure, Except.pure]
  | mapping members =>
    simp only [Literal] at h
    cases depth with
    | zero => simp [freeNode, Context.enter, Readable, bind, Except.bind]
    | succ n =>
      have hmembers := freeMembers_ok_iff members h n path
      simp only [freeNode, exists_ok_bind, Readable, Nat.add_sub_cancel, ← hmembers]
      simp [Context.enter, pure, Except.pure]

theorem freeItems_ok_iff (items : List Node) (h : LiteralItems items) (depth : Nat) (path : Path)
    (i : Nat) : (∃ vs, freeItems ⟨.text, some depth, path⟩ i items = .ok vs) ↔
      ReadableItems depth items := by
  cases items with
  | nil => simp [freeItems, ReadableItems]
  | cons node rest =>
    simp only [LiteralItems] at h
    have hfirst := freeNode_ok_iff node h.1 depth (.item i :: path)
    have hrest := freeItems_ok_iff rest h.2 depth path (i + 1)
    simp only [freeItems, exists_ok_bind, ReadableItems, ← hfirst, ← hrest]
    simp [Context.item, pure, Except.pure]

theorem freeMembers_ok_iff (members : List (Node × Node)) (h : LiteralMembers members)
    (depth : Nat) (path : Path) : (∃ vs, freeMembers ⟨.text, some depth, path⟩ members = .ok vs) ↔
      ReadableMembers depth members := by
  cases members with
  | nil => simp [freeMembers, ReadableMembers]
  | cons m rest =>
    obtain ⟨key, node⟩ := m
    simp only [LiteralMembers] at h
    have hvalue := fun k => freeNode_ok_iff node h.2.1 depth (.member k :: path)
    have hrest := freeMembers_ok_iff rest h.2.2 depth path
    simp only [freeMembers, exists_ok_bind, name_ok_iff h.1, ReadableMembers, ← hrest]
    simp [Context.member, pure, Except.pure, hvalue]

end

/-- **Free values.** A free value is decoded exactly from the tree of a value. -/
theorem free_ok_iff {node : Node} (h : node.Literal) {depth : Nat} {path : Path} :
    (∃ v, free ⟨.text, some depth, path⟩ node = .ok v) ↔ node.Readable depth :=
  freeNode_ok_iff node h depth path

mutual

/-- a value is passed over exactly if it could be decoded -/
theorem walkNode_ok_iff (node : Node) (h : node.Literal) (depth : Nat) (path : Path) :
    (∃ v, walkNode ⟨.text, some depth, path⟩ node = .ok v) ↔ node.Readable depth := by
  cases node with
  | number n => simp only [Literal] at h
  | scalar s => simp only [Literal] at h
  | broken => simp [walkNode, walkNode.walkScalar, found, Readable, bind, Except.bind]
  | null => simp [walkNode, Readable]
  | bool b => simp [walkNode, Readable]
  | string s => cases s <;> simp [walkNode, walkNode.walkScalar, found, Readable, bind, Except.bind]
  | numeral n =>
    simp only [walkNode, Readable]
    exact numeral_ok_iff.2
  | sequence items =>
    simp only [Literal] at h
    cases depth with
    | zero => simp [walkNode, Context.enter, Readable, bind, Except.bind]
    | succ n =>
      have hitems := walkItems_ok_iff items h n path 0
      simp only [walkNode, exists_ok_bind, Readable, Nat.add_sub_cancel, ← hitems]
      simp [Context.enter]
  | mapping members =>
    simp only [Literal] at h
    cases depth with
    | zero => simp [walkNode, Context.enter, Readable, bind, Except.bind]
    | succ n =>
      have hmembers := walkMembers_ok_iff members h n path
      simp only [walkNode, exists_ok_bind, Readable, Nat.add_sub_cancel, ← hmembers]
      simp [Context.enter]

theorem walkItems_ok_iff (items : List Node) (h : LiteralItems items) (depth : Nat) (path : Path)
    (i : Nat) : (∃ v, walkItems ⟨.text, some depth, path⟩ i items = .ok v) ↔
      ReadableItems depth items := by
  cases items with
  | nil => simp [walkItems, ReadableItems]
  | cons node rest =>
    simp only [LiteralItems] at h
    have hfirst := walkNode_ok_iff node h.1 depth (.item i :: path)
    have hrest := walkItems_ok_iff rest h.2 depth path (i + 1)
    simp only [walkItems, exists_ok_bind, ReadableItems, ← hfirst, ← hrest]
    simp [Context.item]

theorem walkMembers_ok_iff (members : List (Node × Node)) (h : LiteralMembers members)
    (depth : Nat) (path : Path) : (∃ v, walkMembers ⟨.text, some depth, path⟩ members = .ok v) ↔
      ReadableMembers depth members := by
  cases members with
  | nil => simp [walkMembers, ReadableMembers]
  | cons m rest =>
    obtain ⟨key, node⟩ := m
    simp only [LiteralMembers] at h
    have hvalue := walkNode_ok_iff node h.2.1 depth path
    have hrest := walkMembers_ok_iff rest h.2.2 depth path
    have hname : (∃ u : Unit, discard (name "a string" ⟨.text, some depth, path⟩ key) = .ok u) ↔
        ∃ s, key = .string (some s) :=
      exists_ok_map.trans (exists_congr fun _ => name_ok_iff h.1)
    simp only [walkMembers, reduceCtorEq, if_false, exists_ok_bind, ReadableMembers, ← hvalue,
      ← hrest, ← hname]
    simp

end

end Decoder
end ViewDesign
