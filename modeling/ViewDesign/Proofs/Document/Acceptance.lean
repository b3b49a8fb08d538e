import Mathlib.Data.List.Nodup
import ViewDesign.Proofs.Document.Records
import ViewDesign.Proofs.Document.TextTrees

/-!
# What decoders accept

A decoder of a JSON text succeeds on a tree for two reasons: the tree is that of a value at all, and
it has a certain shape.  The shape says nothing of the result; it is a property of the tree alone,
and that of a compound decoder is composed of those of its parts.

* `Shape`                      a property of trees, and the shapes there are;
* `Shape.record`               an object of known members, or the values of leading fields in order;
* `Accepts`                    a decoder succeeds exactly on the values of a shape;
* `Record.Describes`           the shapes of the fields of a record;
* `Record.Describes.accepts`   what a record accepts.
-/

namespace ViewDesign

/-! ## Shapes -/

/-- A property of trees. -/
abbrev Shape := Node → Prop

namespace Shape

/-- Any value. -/
def any : Shape := fun _ => True

/-- A string. -/
def text : Shape := fun node => ∃ s, node = .string (some s)

/-- A truth value. -/
def flag : Shape := fun node => ∃ b, node = .bool b

/-- An integer without sign, fraction and exponent, of at most sixty-four bits. -/
def count : Shape := fun node =>
  ∃ digits, node = .numeral ⟨false, digits, none, none⟩ ∧ Decimal.valueOf digits ≤ Numeral.maxWord

/-- Null or a value of a shape. -/
def orNull (p : Shape) : Shape := fun node => node = .null ∨ p node

/-- A value of one of two shapes. -/
def either (p q : Shape) : Shape := fun node => p node ∨ q node

/-- An array of values of a shape. -/
def listOf (p : Shape) : Shape := fun node => ∃ items, node = .sequence items ∧ ∀ v ∈ items, p v

/-- An object whose members have a shape; names may be repeated. -/
def mapOf (p : Shape) : Shape := fun node => ∃ ms, node = .object ms ∧ ∀ m ∈ ms, p m.2

/-- One of some names, as a string or as the name of the only member of an object, which is null. -/
def among (names : List String) : Shape := fun node =>
  ∃ s ∈ names, node = .string (some s) ∨ node = .object [(s, .null)]

/-- An object with members for some of the fields, each at most once, and for all that are
required. -/
def members (fields : List (String × Shape)) (required : List String) : Shape := fun node =>
  ∃ ms, node = .object ms ∧ (ms.map Prod.fst).Nodup ∧
    (∀ m ∈ ms, ∃ p, (m.1, p) ∈ fields ∧ p m.2) ∧ ∀ k ∈ required, k ∈ ms.map Prod.fst

/-- An array of values for the first of the fields; none of the other fields is required. -/
def values (fields : List (String × Shape)) (required : List String) : Shape := fun node =>
  ∃ items, node = .sequence items ∧ items.length ≤ fields.length ∧
    (∀ e ∈ fields.zip items, e.1.2 e.2) ∧ ∀ s ∈ fields.drop items.length, s.1 ∉ required

/-- A record: its members by name, or also its values in order. -/
def record (ordered : Bool) (fields : List (String × Shape)) (required : List String) : Shape :=
  fun node => members fields required node ∨ ordered = true ∧ values fields required node

end Shape

/-! ## Natural numbers -/

namespace Numeral

theorem collect_all {start k : Nat} {ds : List Char} (hstart : start ≤ maxWord)
    (h : collect start ds = (k, [])) : Decimal.valueFrom start ds ≤ maxWord := by
  induction ds generalizing start with
  | nil => exact hstart
  | cons c ds ih =>
    simp only [collect] at h
    split at h
    · rename_i hfits
      exact ih hfits h
    · cases h

/-- the literals of natural numbers of sixty-four bits -/
theorem value?_natural_iff {n : Numeral} :
    (∃ i : Int, n.value? = some (.int i) ∧ 0 ≤ i) ↔
      ∃ digits, n = ⟨false, digits, none, none⟩ ∧ Decimal.valueOf digits ≤ maxWord := by
  constructor
  · rintro ⟨i, hvalue, hi⟩
    obtain ⟨negative, whole, fraction, exponent⟩ := n
    unfold value? at hvalue
    simp only at hvalue
    split at hvalue
    · rename_i hleft
      split at hvalue
      · rename_i hpos
        rw [Bool.not_eq_true'] at hpos
        exact ⟨whole, by rw [hpos], collect_all (Nat.zero_le _) (Prod.ext rfl hleft)⟩
      · split at hvalue
        · cases hvalue
          omega
        · cases hvalue
    · rw [Option.map_eq_some_iff] at hvalue
      obtain ⟨x, -, ⟨⟩⟩ := hvalue
  · rintro ⟨digits, rfl, hle⟩
    refine ⟨Decimal.valueOf digits, ?_, Int.natCast_nonneg _⟩
    have hcollect : collect 0 digits = (Decimal.valueOf digits, []) := collect_of_le 0 digits hle
    simp [value?, hcollect]

end Numeral

/-! ## Decoders of single values -/

/-- A decoder succeeds exactly on the values of a shape. -/
def Accepts {α : Type} (d : Decoder α) (p : Shape) : Prop :=
  ∀ depth path node, node.Literal →
    ((∃ a, d ⟨.text, some depth, path⟩ node = .ok a) ↔ node.Readable depth ∧ p node)

namespace Decoder

theorem mismatch_not_ok {α : Type} {expected : String} {ctx : Context} {node : Node} :
    ¬ ∃ a, (mismatch expected ctx node : Except Refusal α) = .ok a := by
  rw [mismatch, exists_ok_bind]
  rintro ⟨f, -, a, ⟨⟩⟩

theorem chosen_ok_iff {α : Type} {choices : List (String × α)} {ctx : Context} {s : String} :
    (∃ a, chosen choices ctx s = .ok a) ↔ s ∈ choices.map Prod.fst := by
  have hsome : (choices.lookup s).isSome = true ↔ s ∈ choices.map Prod.fst := by
    rw [List.lookup_isSome_iff]
    simp
  rw [← hsome, chosen]
  cases choices.lookup s <;> simp [Context.refuse]

theorem unit_ok_iff {ctx : Context} {node : Node} (h : node.Literal) :
    (∃ u, unit ctx node = .ok u) ↔ node = .null := by
  simp only [unit, exists_ok_bind, found_ok_iff h]
  constructor
  · rintro ⟨f, hf, u, hu⟩
    cases f with
    | unit => exact hf
    | _ => cases hu
  · rintro rfl
    exact ⟨.unit, rfl, (), rfl⟩

theorem textOnly?_iff {ctx : Context} {node : Node} (h : node.Literal) {s : String} :
    textOnly? ctx node = some s ↔ node = .string (some s) := by
  have hfound : textOnly? ctx node = some s ↔ found ctx node = .ok (.text s) := by
    unfold textOnly?
    split
    · rename_i t ht
      simp [ht]
    · rename_i hnone
      exact iff_of_false (fun h => nomatch h) (hnone s)
  exact hfound.trans (found_ok_iff h)

/-- the name of the only member is chosen -/
theorem chosenMember_ok_iff {α : Type} {choices : List (String × α)} {depth : Nat} {path : Path}
    {key node : Node} {rest : List (Node × Node)} (hnode : node.Literal) :
    (∃ a, chosenMember choices ⟨.text, some depth, path⟩ ((key, node) :: rest) = .ok a) ↔
      0 < depth ∧ ∃ s ∈ choices.map Prod.fst,
        key = .string (some s) ∧ node = .null ∧ rest = [] := by
  cases depth with
  | zero => simp [chosenMember, Context.enter, bind, Except.bind]
  | succ n =>
    have hmismatch : ∀ ctx s, ¬ (mismatch "variant identifier" ctx key : Except Refusal String) =
        .ok s := fun ctx s h => mismatch_not_ok ⟨s, h⟩
    have hunit := @unit_ok_iff ⟨.text, some n, path⟩ node hnode
    simp only [chosenMember]
    cases key with
    | string s =>
      cases s with
      | none => simp [exists_ok_bind, hmismatch]
      | some s =>
        simp only [exists_ok_bind, Context.enter, Except.ok.injEq, exists_eq_left']
        cases rest with
        | nil =>
          constructor
          · rintro ⟨a, ha, u, hu, -⟩
            exact ⟨Nat.succ_pos n, s, chosen_ok_iff.mp ⟨a, ha⟩, rfl, hunit.mp ⟨u, hu⟩, rfl⟩
          · rintro ⟨-, _, hs, ⟨⟩, hnull, -⟩
            obtain ⟨a, ha⟩ := chosen_ok_iff.mpr hs
            obtain ⟨u, hu⟩ := hunit.mpr hnull
            exact ⟨a, ha, u, hu, a, rfl⟩
        | cons m rest => simp
    | _ => simp [exists_ok_bind, hmismatch]

end Decoder

namespace Accepts

open Node Shape

variable {α β : Type} {d : Decoder α} {p : Shape}

theorem map (h : Accepts d p) (f : α → β) : Accepts (d.map f) p :=
  fun depth path node hnode => exists_ok_map.trans (h depth path node hnode)

theorem free : Accepts Decoder.free Shape.any := by
  intro depth path node hnode
  rw [Decoder.free_ok_iff hnode]
  simp [Shape.any]

theorem text : Accepts Decoder.text Shape.text := by
  intro depth path node hnode
  cases node with
  | scalar s => simp only [Literal] at hnode
  | string s => cases s <;> simp [Decoder.text, Decoder.mismatch_not_ok, Shape.text, Readable]
  | _ => simp [Decoder.text, Decoder.mismatch_not_ok, Shape.text]

theorem flag : Accepts Decoder.flag Shape.flag := by
  intro depth path node hnode
  simp only [Decoder.flag, exists_ok_bind, Decoder.found_ok_iff hnode]
  constructor
  · rintro ⟨f, hf, b, hb⟩
    cases f with
    | bool c =>
      obtain rfl : node = .bool c := hf
      exact ⟨by simp only [Readable], c, rfl⟩
    | _ => cases hb
  · rintro ⟨-, b, rfl⟩
    exact ⟨.bool b, rfl, b, rfl⟩

theorem count : Accepts Decoder.count Shape.count := by
  intro depth path node hnode
  simp only [Decoder.count, exists_ok_bind, Decoder.found_ok_iff hnode]
  constructor
  · rintro ⟨f, hf, k, hk⟩
    cases f with
    | int i =>
      obtain ⟨n, rfl, hn⟩ := hf
      by_cases hi : 0 ≤ i
      · obtain ⟨digits, rfl, hdigits⟩ := Numeral.value?_natural_iff.mp ⟨i, hn, hi⟩
        exact ⟨by simp [Readable, hn], digits, rfl, hdigits⟩
      · simp [hi, Context.refuse] at hk
    | _ => cases hk
  · rintro ⟨-, digits, rfl, hdigits⟩
    obtain ⟨i, hn, hi⟩ := Numeral.value?_natural_iff.mpr ⟨digits, rfl, hdigits⟩
    exact ⟨.int i, ⟨_, rfl, hn⟩, by simp [hi]⟩

theorem optional (h : Accepts d p) : Accepts d.optional (orNull p) := by
  intro depth path node hnode
  cases node with
  | scalar s => simp only [Literal] at hnode
  | null => simp [Decoder.optional, orNull, Readable]
  | _ =>
    simp only [Decoder.optional, exists_ok_map, orNull, reduceCtorEq, false_or]
    exact h depth path _ hnode

theorem items (h : Accepts d p) {nodes : List Node} (hnodes : ∀ v ∈ nodes, v.Literal)
    {depth : Nat} {path : Path} {i : Nat} :
    (∃ as, Decoder.items d ⟨.text, some depth, path⟩ i nodes = .ok as) ↔
      (∀ v ∈ nodes, v.Readable depth) ∧ ∀ v ∈ nodes, p v := by
  induction nodes generalizing i with
  | nil => simp [Decoder.items]
  | cons node rest ih =>
    simp only [List.forall_mem_cons] at hnodes ⊢
    have hfirst := h depth (.item i :: path) node hnodes.1
    have hrest := @ih hnodes.2 (i + 1)
    rw [and_and_and_comm, ← hfirst, ← hrest]
    simp only [Decoder.items, exists_ok_bind]
    simp [Context.item, pure, Except.pure]

theorem list (h : Accepts d p) : Accepts (Decoder.list d) (listOf p) := by
  intro depth path node hnode
  cases node with
  | sequence items =>
    simp only [Literal, literalItems_iff] at hnode
    simp only [Decoder.list, exists_ok_bind, listOf]
    cases depth with
    | zero => simp [Context.enter, Readable]
    | succ n => simp [Context.enter, h.items hnode, readable_sequence]
  | _ => simp [Decoder.list, Decoder.mismatch_not_ok, listOf]

theorem entries (h : Accepts d p) {members : List (Node × Node)} (hmembers : LiteralMembers members)
    {depth : Nat} {path : Path} {done : NameMap α} :
    (∃ m, Decoder.entries d ⟨.text, some depth, path⟩ done members = .ok m) ↔
      ∃ ms : List (String × Node), members = ms.map named ∧
        (∀ m ∈ ms, m.2.Readable depth) ∧ ∀ m ∈ ms, p m.2 := by
  induction members generalizing done with
  | nil => simp [Decoder.entries]
  | cons m rest ih =>
    obtain ⟨key, node⟩ := m
    simp only [LiteralMembers] at hmembers
    simp only [Decoder.entries, exists_ok_bind, Decoder.name_ok_iff hmembers.1, ih hmembers.2.2]
    constructor
    · rintro ⟨k, rfl, a, ha, ms, rfl, hms⟩
      have hvalue := (h depth (.member k :: path) node hmembers.2.1).mp ⟨a, ha⟩
      refine ⟨(k, node) :: ms, rfl, ?_⟩
      simp only [List.forall_mem_cons]
      exact ⟨⟨hvalue.1, hms.1⟩, hvalue.2, hms.2⟩
    · rintro ⟨ms, hms, hall⟩
      obtain ⟨k, ms, rfl, rfl, rfl⟩ := cons_eq_map_named.mp hms
      simp only [List.forall_mem_cons] at hall
      obtain ⟨a, ha⟩ := (h depth (.member k :: path) node hmembers.2.1).mpr ⟨hall.1.1, hall.2.1⟩
      exact ⟨k, rfl, a, ha, ms, rfl, hall.1.2, hall.2.2⟩

theorem names (h : Accepts d p) : Accepts (Decoder.names d) (mapOf p) := by
  intro depth path node hnode
  cases node with
  | mapping members =>
    simp only [Literal] at hnode
    simp only [Decoder.names, exists_ok_bind, mapOf]
    cases depth with
    | zero => simp [Context.enter, Readable]
    | succ n =>
      simp only [Context.enter, Except.ok.injEq, exists_eq_left', h.entries hnode]
      constructor
      · rintro ⟨ms, rfl, hread, hp⟩
        exact ⟨readable_object.mpr hread, ms, rfl, hp⟩
      · rintro ⟨hread, ms, hms, hp⟩
        rw [hms, readable_object] at hread
        exact ⟨ms, Node.mapping.inj hms, hread, hp⟩
  | _ => simp [Decoder.names, Decoder.mismatch_not_ok, mapOf, Node.object]

theorem choice (choices : List (String × α)) :
    Accepts (Decoder.choice choices) (among (choices.map Prod.fst)) := by
  intro depth path node hnode
  cases node with
  | scalar s => simp only [Literal] at hnode
  | string s =>
    cases s with
    | none => simp [Decoder.choice, among, Node.object]
    | some s => simp [Decoder.choice, Decoder.chosen_ok_iff, among, Node.object, Readable]
  | mapping members =>
    simp only [Decoder.choice]
    cases members with
    | nil => simp [Decoder.chosenMember, among, Node.object]
    | cons m rest =>
      obtain ⟨key, node⟩ := m
      simp only [Literal, LiteralMembers] at hnode
      rw [Decoder.chosenMember_ok_iff hnode.2.1]
      simp only [among, Node.object, reduceCtorEq, false_or, Node.mapping.injEq, Readable]
      constructor
      · rintro ⟨hdepth, s, hs, rfl, rfl, rfl⟩
        exact ⟨⟨hdepth, ⟨s, rfl⟩, by simp only [Readable], trivial⟩, s, hs, rfl⟩
      · rintro ⟨⟨hdepth, -⟩, s, hs, hmembers⟩
        simp only [named, List.map_cons, List.map_nil, List.cons.injEq, Prod.mk.injEq,
          and_assoc] at hmembers
        exact ⟨hdepth, s, hs, hmembers⟩
  | _ => simp [Decoder.choice, among, Node.object]

end Accepts

/-! ## Records -/

namespace Record

open Node

variable {σ : Type} {r : Record σ} {fields : List (String × Shape)}

/-- The fields of a record are known by their names, and each accepts its shape. -/
structure Describes (r : Record σ) (fields : List (String × Shape)) : Prop where
  strict : r.strict = true
  nodup : r.names.Nodup
  each : List.Forall₂ (fun f s => f.name = s.1 ∧ Accepts f.read s.2) r.fields fields

namespace Describes

theorem shape_of_field (h : r.Describes fields) {f : Field σ} (hf : f ∈ r.fields) :
    ∃ p, (f.name, p) ∈ fields ∧ Accepts f.read p := by
  obtain ⟨⟨k, p⟩, hmem, hname, hread⟩ := exists_of_forall₂ h.each hf
  obtain rfl : f.name = k := hname
  exact ⟨p, hmem, hread⟩

theorem field_of_shape (h : r.Describes fields) {k : String} {p : Shape} (hp : (k, p) ∈ fields) :
    ∃ f ∈ r.fields, f.name = k ∧ Accepts f.read p :=
  exists_of_forall₂ h.each.flip hp

/-- one member is read: it has a field, and it has not been met -/
theorem readMembers_cons_iff (h : r.Describes fields) {depth : Nat} {path : Path} {key node : Node}
    (hkey : key.Literal) {rest : List (Node × Node)} {seen met : List String} {s t : σ} :
    r.readMembers ⟨.text, some depth, path⟩ seen s ((key, node) :: rest) = .ok (met, t) ↔
      ∃ k, key = .string (some k) ∧ k ∉ seen ∧ ∃ f, r.fields.find? (·.name = k) = some f ∧
        ∃ change, f.read ⟨.text, some depth, .member k :: path⟩ node = .ok change ∧
          r.readMembers ⟨.text, some depth, path⟩ (k :: seen) (change s) rest = .ok (met, t) := by
  simp only [readMembers, bind_ok_iff, Decoder.name_ok_iff hkey, h.strict, if_true]
  refine exists_congr fun k => and_congr_right fun _ => ?_
  cases r.fields.find? (·.name = k) with
  | none => simp [Context.refuse]
  | some f =>
    by_cases hseen : k ∈ seen
    · simp [hseen, Context.refuse]
    · simp [hseen, bind_ok_iff, Context.member]

/-- members are read one after the other, none of them twice -/
theorem readMembers_ok_iff (h : r.Describes fields) {members : List (Node × Node)}
    (hmembers : LiteralMembers members) {depth : Nat} {path : Path} {seen met : List String}
    (hseen : seen.Nodup) {s : σ} :
    (∃ t, r.readMembers ⟨.text, some depth, path⟩ seen s members = .ok (met, t)) ↔
      ∃ ms : List (String × Node), members = ms.map named ∧
        (∀ m ∈ ms, m.2.Readable depth ∧ ∃ p, (m.1, p) ∈ fields ∧ p m.2) ∧
        met = (ms.map Prod.fst).reverse ++ seen ∧ met.Nodup := by
  -- names are met at the front, so that they differ from each other exactly if none came twice
  induction members generalizing seen s with
  | nil =>
    simp only [readMembers, Except.ok.injEq, Prod.mk.injEq, exists_and_left, exists_eq', and_true]
    constructor
    · rintro rfl
      exact ⟨[], rfl, by simp, rfl, hseen⟩
    · rintro ⟨ms, hms, -, rfl, -⟩
      rw [List.map_eq_nil_iff.mp hms.symm]
      rfl
  | cons m rest ih =>
    obtain ⟨key, node⟩ := m
    simp only [LiteralMembers] at hmembers
    simp only [h.readMembers_cons_iff hmembers.1]
    constructor
    · rintro ⟨t, k, rfl, hk, f, hf, change, hread, hrest⟩
      have hname : f.name = k := by simpa using List.find?_some hf
      obtain ⟨p, hp, haccepts⟩ := h.shape_of_field (List.mem_of_find?_eq_some hf)
      obtain ⟨hreadable, hshape⟩ := (haccepts _ _ _ hmembers.2.1).mp ⟨change, hread⟩
      obtain ⟨ms, rfl, hall, rfl, hnodup⟩ :=
        (ih hmembers.2.2 (List.nodup_cons.mpr ⟨hk, hseen⟩)).mp ⟨t, hrest⟩
      refine ⟨(k, node) :: ms, rfl, ?_, by simp, hnodup⟩
      rw [List.forall_mem_cons]
      exact ⟨⟨hreadable, p, hname ▸ hp, hshape⟩, hall⟩
    · rintro ⟨ms, hms, hall, hmet, hnodup⟩
      obtain ⟨k, ms, rfl, rfl, rfl⟩ := cons_eq_map_named.mp hms
      rw [List.forall_mem_cons] at hall
      obtain ⟨⟨hreadable, p, hp, hshape⟩, hall⟩ := hall
      obtain ⟨f, hf, rfl, haccepts⟩ := h.field_of_shape hp
      have hmet' : met = (ms.map Prod.fst).reverse ++ f.name :: seen := by
        rw [hmet]
        simp
      have hnew : (f.name :: seen).Nodup := by
        rw [hmet'] at hnodup
        exact hnodup.of_append_right
      obtain ⟨change, hread⟩ := (haccepts depth (.member f.name :: path) _ hmembers.2.1).mpr
        ⟨hreadable, hshape⟩
      obtain ⟨t, hrest⟩ := (@ih hmembers.2.2 _ hnew (change s)).mpr ⟨ms, rfl, hall, hmet', hnodup⟩
      exact ⟨t, f.name, rfl, (List.nodup_cons.mp hnew).1, f, find?_of_nodup h.nodup hf, change,
        hread, hrest⟩

/-- a map is read if its members are and no field is missing -/
theorem readMap_ok_iff (h : r.Describes fields) {members : List (Node × Node)}
    (hmembers : LiteralMembers members) {depth : Nat} {path : Path} :
    (∃ s, r.readMap ⟨.text, some depth, path⟩ members = .ok s) ↔
      (Node.mapping members).Readable depth ∧
        Shape.members fields r.required (.mapping members) := by
  cases depth with
  | zero => simp [readMap, Context.enter, Readable, bind, Except.bind]
  | succ n =>
    -- after the members only the required names are left to ask for
    have hread : (∃ s, r.readMap ⟨.text, some (n + 1), path⟩ members = .ok s) ↔
        ∃ met, (∃ t, r.readMembers ⟨.text, some n, path⟩ [] r.blank members = .ok (met, t)) ∧
          ∀ k ∈ r.required, k ∈ met := by
      simp only [readMap, exists_ok_bind, Context.enter, Except.ok.injEq, exists_eq_left',
        Prod.exists, ← exists_and_right]
      refine exists_congr fun met => exists_congr fun t => and_congr_right fun _ => ?_
      cases hfind : r.required.find? (· ∉ met) with
      | none => simpa [pure, Except.pure] using hfind
      | some k =>
        have hk := List.find?_some hfind
        have hmem := List.mem_of_find?_eq_some hfind
        simp only [Context.refuse, reduceCtorEq, exists_false, false_iff]
        intro hall
        simp [hall k hmem] at hk
    rw [hread]
    simp only [h.readMembers_ok_iff hmembers List.nodup_nil, List.append_nil]
    constructor
    · rintro ⟨met, ⟨ms, rfl, hall, rfl, hnodup⟩, hrequired⟩
      refine ⟨readable_object.mpr fun m hm => (hall m hm).1, ms, rfl, List.nodup_reverse.mp hnodup,
        fun m hm => (hall m hm).2, fun k hk => List.mem_reverse.mp (hrequired k hk)⟩
    · rintro ⟨hreadable, ms, hms, hnodup, hall, hrequired⟩
      rw [hms, readable_object] at hreadable
      exact ⟨_, ⟨ms, Node.mapping.inj hms, fun m hm => ⟨hreadable m hm, hall m hm⟩, rfl,
        List.nodup_reverse.mpr hnodup⟩, fun k hk => List.mem_reverse.mpr (hrequired k hk)⟩

/-- values are read for the fields in order -/
theorem readValues_ok_iff {fs : List (Field σ)}
    (h : List.Forall₂ (fun f s => f.name = s.1 ∧ Accepts f.read s.2) fs fields)
    {nodes : List Node} (hnodes : ∀ v ∈ nodes, v.Literal) {depth total i : Nat} {path : Path}
    {s : σ} :
    (∃ t, r.readValues ⟨.text, some depth, path⟩ total i s fs nodes = .ok t) ↔
      (∀ v ∈ nodes, v.Readable depth) ∧ nodes.length ≤ fields.length ∧
        (∀ e ∈ fields.zip nodes, e.1.2 e.2) ∧
          ∀ s ∈ fields.drop nodes.length, s.1 ∉ r.required := by
  -- fields and values are taken off together until either of them ends
  induction h generalizing nodes i s with
  | nil =>
    cases nodes with
    | nil => simp [readValues]
    | cons v nodes => simp [readValues, tooMany]
  | @cons f p fs fields hf _ ih =>
    cases nodes with
    | nil =>
      have hrest := @ih [] (by simp) (i + 1) s
      by_cases hrequired : p.1 ∈ r.required
      · simp [readValues, hf.1, hrequired, Context.refuse]
      · simp [readValues, hf.1, hrequired, hrest]
    | cons v nodes =>
      rw [List.forall_mem_cons] at hnodes
      have hfirst := hf.2 depth (.item i :: path) v hnodes.1
      simp only [readValues, exists_ok_bind, ih hnodes.2]
      simp only [List.forall_mem_cons, List.length_cons, Nat.add_le_add_iff_right,
        List.zip_cons_cons, List.drop_succ_cons, Context.item]
      constructor
      · rintro ⟨change, hread, hreadable, hrest⟩
        obtain ⟨hv, hp⟩ := hfirst.mp ⟨change, hread⟩
        exact ⟨⟨hv, hreadable⟩, hrest.1, ⟨hp, hrest.2.1⟩, hrest.2.2⟩
      · rintro ⟨⟨hv, hreadable⟩, hlength, ⟨hp, hvalues⟩, hrequired⟩
        obtain ⟨change, hread⟩ := hfirst.mpr ⟨hv, hp⟩
        exact ⟨change, hread, hreadable, hlength, hvalues, hrequired⟩

/-- **Records.** A record accepts its members by name and its values in order. -/
theorem accepts (h : r.Describes fields) :
    Accepts r.decoder (Shape.record true fields r.required) := by
  intro depth path node hnode
  cases node with
  | mapping members =>
    simp only [Literal] at hnode
    simp only [decoder, h.readMap_ok_iff hnode, Shape.record, Shape.values, reduceCtorEq, false_and,
      exists_false, and_false, or_false]
  | sequence items =>
    simp only [Literal, literalItems_iff] at hnode
    simp only [decoder, exists_ok_bind, Shape.record, Shape.members, Node.object, reduceCtorEq,
      false_and, exists_false, false_or, true_and, Shape.values, Node.sequence.injEq,
      exists_eq_left']
    cases depth with
    | zero => simp [Context.enter, Readable]
    | succ n =>
      simp only [Context.enter, Except.ok.injEq, exists_eq_left', readValues_ok_iff h.each hnode,
        readable_sequence]
  | _ =>
    simp [decoder, Decoder.mismatch_not_ok, Shape.record, Shape.members, Shape.values, Node.object]

end Describes

end Record

end ViewDesign
