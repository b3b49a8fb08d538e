import ViewDesign.Proofs.Document.Regular
import ViewDesign.Proofs.Document.Values

/-!
# What a tree gives to the fields of a record

A record is an object or an array, its members may come in any order, and it may pass over members
that are no fields.  Each part of a record is told by one member alone: it is what is decoded from
that member, or it is as in a blank record.

* `Node.members`            the members of an object, repeated ones kept;
* `Record.given`            what a tree gives to the fields of a record, in either form;
* `Decoder.Reads`           a tree is decoded to a value, somewhere in a JSON text;
* `Record.changes_of_reads` a record is made by the members that are fields;
* `Record.Part`             a field, its decoder and the part of the record that it alone sets;
* `Record.Part.of_reads`    what becomes of one field.
-/

namespace ViewDesign

/-! ## Members and fields -/

namespace Node

/-- The members of an object, in the order of the text; other trees have none. -/
def members : Node → List (String × Node)
  | .mapping ms => ms.filterMap fun m => m.1.name?.map fun k => (k, m.2)
  | _ => []

theorem members_object (ms : List (String × Node)) : (object ms).members = ms := by
  rw [object, members, List.filterMap_map]
  exact List.filterMap_some

theorem literal_members {node : Node} (h : node.Literal) : ∀ m ∈ node.members, m.2.Literal := by
  cases node with
  | mapping ms =>
    have hall : ∀ m ∈ ms, m.2.Literal := by
      rw [Literal] at h
      induction ms with
      | nil => exact List.forall_mem_nil _
      | cons m ms ih => exact List.forall_mem_cons.mpr ⟨h.2.1, ih h.2.2⟩
    intro m hm
    obtain ⟨m', hm', hname⟩ := List.mem_filterMap.mp hm
    obtain ⟨k, -, rfl⟩ := Option.map_eq_some_iff.mp hname
    exact hall m' hm'
  | _ => exact List.forall_mem_nil _

end Node

namespace Record

variable {σ β : Type} {r : Record σ}

/-- What a tree gives to the fields of a record: the members of an object, or the elements of an
array in the order of the fields. -/
def given (r : Record σ) : Node → List (String × Node)
  | .sequence items => r.names.zip items
  | node => node.members

theorem given_object (ms : List (String × Node)) : r.given (.object ms) = ms :=
  Node.members_object ms

theorem literal_given {node : Node} (h : node.Literal) : ∀ m ∈ r.given node, m.2.Literal := by
  cases node with
  | sequence items => exact fun m hm => Node.literalItems_iff.mp h m.2 (List.of_mem_zip hm).2
  | _ => exact Node.literal_members h

/-- The members that are fields of a record. -/
def known (r : Record σ) (ms : List (String × Node)) : List (String × Node) :=
  ms.filter fun m => m.1 ∈ r.names

theorem get?_known {k : String} (hk : k ∈ r.names) (ms : List (String × Node)) :
    Entries.get? k (r.known ms) = Entries.get? k ms := by
  induction ms with
  | nil => rfl
  | cons m ms ih =>
    obtain ⟨j, node⟩ := m
    rw [known] at ih ⊢
    by_cases hj : j ∈ r.names
    · rw [List.filter_cons_of_pos (by simpa using hj), Entries.get?, Entries.get?, ih]
    · have hne : k ≠ j := fun h => hj (h ▸ hk)
      rw [List.filter_cons_of_neg (by simpa using hj), Entries.get?, if_neg hne, ih]

end Record

/-! ## Decoding somewhere in a text -/

/-- Somewhere in a JSON text a tree is decoded to a value. -/
def Decoder.Reads {α : Type} (d : Decoder α) (node : Node) (a : α) : Prop :=
  ∃ depth path, d ⟨.text, some depth, path⟩ node = .ok a

namespace Decoder.Reads

variable {α β : Type} {d : Decoder α} {node : Node}

theorem of_map {f : α → β} {b : β} (h : (d.map f).Reads node b) :
    ∃ a, d.Reads node a ∧ f a = b := by
  obtain ⟨depth, path, h⟩ := h
  obtain ⟨a, ha, hb⟩ := Decoder.map_ok_iff.mp h
  exact ⟨a, ⟨depth, path, ha⟩, hb⟩

theorem of_optional (hnode : node.Literal) {o : Option α} (h : d.optional.Reads node o) :
    node = .null ∧ o = none ∨ node ≠ .null ∧ ∃ a, d.Reads node a ∧ some a = o := by
  obtain ⟨depth, path, h⟩ := h
  rw [Decoder.optional_ok_iff] at h
  · rcases h with hnull | ⟨hne, a, ha, ho⟩
    · exact .inl hnull
    · exact .inr ⟨hne, a, ⟨depth, path, ha⟩, ho⟩
  · rintro s rfl
    exact hnode

theorem of_text (hnode : node.Literal) {s : String} (h : Decoder.text.Reads node s) :
    node = .string (some s) := by
  obtain ⟨depth, path, h⟩ := h
  rwa [Decoder.text_ok_iff] at h
  rintro s rfl
  exact hnode

theorem of_free (hnode : node.Literal) {v : Json} (h : Decoder.free.Reads node v) :
    (∃ depth, node.Readable depth) ∧ v = node.value := by
  obtain ⟨depth, path, h⟩ := h
  obtain ⟨hread, hv⟩ := (Node.free_iff_value hnode).mp h
  exact ⟨⟨depth, hread⟩, hv⟩

theorem of_items {depth : Nat} {path : Path} {i : Nat} {nodes : List Node} {as : List α}
    (h : Decoder.items d ⟨.text, some depth, path⟩ i nodes = .ok as) :
    List.Forall₂ d.Reads nodes as := by
  induction nodes generalizing i as with
  | nil =>
    cases h
    exact .nil
  | cons node nodes ih =>
    obtain ⟨a, ha, h⟩ := bind_ok_iff.mp h
    obtain ⟨as', has, h⟩ := bind_ok_iff.mp h
    cases h
    exact .cons ⟨depth, _, ha⟩ (ih has)

theorem of_list {as : List α} (h : (Decoder.list d).Reads node as) :
    ∃ nodes, node = .sequence nodes ∧ List.Forall₂ d.Reads nodes as := by
  obtain ⟨depth, path, h⟩ := h
  cases node with
  | sequence nodes =>
    obtain ⟨inner, henter, h⟩ := bind_ok_iff.mp h
    cases depth with
    | zero => cases henter
    | succ depth =>
      cases henter
      exact ⟨nodes, rfl, of_items h⟩
  | _ => exact absurd ⟨as, h⟩ Decoder.mismatch_not_ok

end Decoder.Reads

/-! ## The members that make a record -/

namespace Record

open Node

variable {σ β : Type} {r : Record σ}

/-- A member makes a change to a record. -/
def Makes (r : Record σ) (m : String × Node) (c : String × (σ → σ)) : Prop :=
  c.1 = m.1 ∧ (r.change m.1).Reads m.2 c.2

theorem mem_names_iff {k : String} : k ∈ r.names ↔ ∃ f, r.fields.find? (·.name = k) = some f := by
  rw [← Option.isSome_iff_exists, List.find?_isSome, names, List.mem_map]
  simp

/-- one member is read: it is passed over, or it is a field that has not been met -/
theorem readMembers_cons_cases {ctx : Context} {k : String} {node : Node}
    {rest : List (Node × Node)} {seen : List String} {s : σ} {result : List String × σ}
    (h : r.readMembers ctx seen s ((.string (some k), node) :: rest) = .ok result) :
    (k ∉ r.names ∧ r.readMembers ctx seen s rest = .ok result) ∨
      (k ∈ r.names ∧ k ∉ seen ∧ ∃ c, r.change k (ctx.member k) node = .ok c ∧
        r.readMembers ctx (k :: seen) (c s) rest = .ok result) := by
  rw [mem_names_iff]
  simp only [readMembers, Decoder.name, bind_ok_iff, Except.ok.injEq, exists_eq_left'] at h
  unfold change
  cases hfind : r.fields.find? (·.name = k) with
  | none =>
    simp only [hfind] at h
    refine .inl ⟨by simp, ?_⟩
    by_cases hstrict : r.strict = true
    · rw [if_pos hstrict] at h
      cases h
    · rw [if_neg hstrict] at h
      by_cases hsound : node.sound = true
      · rwa [if_pos hsound] at h
      · rw [if_neg hsound] at h
        cases h
  | some f =>
    simp only [hfind] at h
    by_cases hk : k ∈ seen
    · rw [if_pos hk] at h
      cases h
    · rw [if_neg hk] at h
      exact .inr ⟨⟨f, rfl⟩, hk, bind_ok_iff.mp h⟩

/-- members are read one after the other, and no field twice -/
theorem readMembers_known {depth : Nat} {path : Path} {members : List (Node × Node)}
    (hmembers : LiteralMembers members) {seen met : List String} {s t : σ}
    (h : r.readMembers ⟨.text, some depth, path⟩ seen s members = .ok (met, t)) :
    ∃ ms cs, members = ms.map named ∧ List.Forall₂ r.Makes (r.known ms) cs ∧
      ((r.known ms).map Prod.fst).Nodup ∧ (∀ m ∈ r.known ms, m.1 ∉ seen) ∧ t = changed s cs := by
  induction members generalizing seen s with
  | nil =>
    cases h
    exact ⟨[], [], rfl, .nil, .nil, List.forall_mem_nil _, rfl⟩
  | cons m rest ih =>
    obtain ⟨key, node⟩ := m
    obtain ⟨k, hk, -⟩ := bind_ok_iff.mp h
    obtain rfl := (Decoder.name_ok_iff hmembers.1).mp hk
    rcases readMembers_cons_cases h with ⟨hunknown, hrest⟩ | ⟨hfield, hnew, c, hc, hrest⟩
    · obtain ⟨ms, cs, rfl, hcs, hnodup, hseen, rfl⟩ := ih hmembers.2.2 hrest
      have hknown : r.known ((k, node) :: ms) = r.known ms :=
        List.filter_cons_of_neg (by simpa using hunknown)
      exact ⟨(k, node) :: ms, cs, rfl, hknown ▸ hcs, hknown ▸ hnodup, hknown ▸ hseen, rfl⟩
    · obtain ⟨ms, cs, rfl, hcs, hnodup, hseen, rfl⟩ := ih hmembers.2.2 hrest
      have hknown : r.known ((k, node) :: ms) = (k, node) :: r.known ms :=
        List.filter_cons_of_pos (by simpa using hfield)
      simp only [List.mem_cons, not_or] at hseen
      have hfresh : k ∉ (r.known ms).map Prod.fst := by
        rw [List.mem_map]
        rintro ⟨m, hm, hmk⟩
        exact (hseen m hm).1 hmk
      refine ⟨(k, node) :: ms, (k, c) :: cs, rfl, ?_⟩
      rw [hknown, List.map_cons, List.nodup_cons, List.forall_mem_cons]
      exact ⟨.cons ⟨rfl, depth, .member k :: path, hc⟩ hcs, ⟨hfresh, hnodup⟩,
        ⟨hnew, fun m hm => (hseen m hm).2⟩, rfl⟩

/-- values are read for the fields in order -/
theorem readValues_known (hnodup : r.names.Nodup) {fs : List (Field σ)}
    (hfs : ∀ f ∈ fs, f ∈ r.fields) {depth : Nat} {path : Path} {total i : Nat} {nodes : List Node}
    {s t : σ} (h : r.readValues ⟨.text, some depth, path⟩ total i s fs nodes = .ok t) :
    ∃ cs, List.Forall₂ r.Makes ((fs.map Field.name).zip nodes) cs ∧ t = changed s cs := by
  induction fs generalizing i s nodes with
  | nil =>
    cases nodes with
    | nil =>
      cases h
      exact ⟨[], .nil, rfl⟩
    | cons node nodes => cases h
  | cons f fs ih =>
    rw [List.forall_mem_cons] at hfs
    cases nodes with
    | nil =>
      simp only [readValues] at h
      split at h
      · cases h
      · simpa using ih hfs.2 h
    | cons node nodes =>
      obtain ⟨c, hc, hrest⟩ := bind_ok_iff.mp h
      obtain ⟨cs, hcs, rfl⟩ := ih hfs.2 hrest
      refine ⟨(f.name, c) :: cs, .cons ⟨rfl, depth, .item i :: path, ?_⟩ hcs, rfl⟩
      simp only [change, find?_of_nodup hnodup hfs.1]
      exact hc

/-- **Records.** A record is made by the members of its tree that are fields, none of which comes
twice. -/
theorem changes_of_reads (hnames : r.names.Nodup) {node : Node} (hnode : node.Literal) {t : σ}
    (h : r.decoder.Reads node t) :
    ∃ cs, List.Forall₂ r.Makes (r.known (r.given node)) cs ∧
      ((r.known (r.given node)).map Prod.fst).Nodup ∧ t = changed r.blank cs := by
  obtain ⟨depth, path, h⟩ := h
  -- members by name, or values in the order of the fields
  cases node with
  | mapping members =>
    obtain ⟨inner, henter, h⟩ := bind_ok_iff.mp h
    obtain ⟨⟨met, s⟩, hread, h⟩ := bind_ok_iff.mp h
    cases depth with
    | zero => cases henter
    | succ depth =>
      cases henter
      obtain ⟨ms, cs, rfl, hcs, hnodup, -, rfl⟩ := readMembers_known hnode hread
      have hgiven : r.given (.mapping (ms.map named)) = ms := given_object ms
      rw [hgiven]
      refine ⟨cs, hcs, hnodup, ?_⟩
      dsimp only at h
      split at h
      · cases h
      · exact (Except.ok.inj h).symm
  | sequence items =>
    obtain ⟨inner, henter, h⟩ := bind_ok_iff.mp h
    cases depth with
    | zero => cases henter
    | succ depth =>
      cases henter
      obtain ⟨cs, hcs, rfl⟩ := readValues_known hnames (fun _ hf => hf) h
      have hknown : r.known (r.given (.sequence items)) = r.names.zip items :=
        List.filter_eq_self.mpr fun m hm => by simpa using (List.of_mem_zip hm).1
      rw [hknown, map_fst_zip_take]
      exact ⟨cs, hcs, hnames.sublist (List.take_sublist _ _), rfl⟩
  | _ => exact absurd ⟨t, h⟩ Decoder.mismatch_not_ok

/-! ## One field -/

/-- one field: what its member says, or what it was before -/
theorem part_of_changes {M : String × Node → String × (σ → σ) → Prop} (get : σ → β) (k : String)
    {Q : Node → β → Prop} (hset : ∀ m c, M m c → m.1 = k → ∀ s, Q m.2 (get (c.2 s)))
    (hkeep : ∀ m c, M m c → m.1 ≠ k → ∀ s, get (c.2 s) = get s)
    {ms : List (String × Node)} {cs : List (String × (σ → σ))} (h : List.Forall₂ M ms cs)
    (hnodup : (ms.map Prod.fst).Nodup) (s : σ) :
    (Entries.get? k ms = none ∧ get (changed s cs) = get s) ∨
      ∃ node, Entries.get? k ms = some node ∧ Q node (get (changed s cs)) := by
  -- the record before the members is general: each of them changes it
  induction h generalizing s with
  | nil => exact .inl ⟨rfl, rfl⟩
  | @cons m c ms cs hm _ ih =>
    obtain ⟨j, node⟩ := m
    rw [List.map_cons, List.nodup_cons] at hnodup
    rw [Entries.get?]
    have hrest := ih hnodup.2 (c.2 s)
    by_cases heq : k = j
    · subst heq
      rw [if_pos rfl]
      refine .inr ⟨node, rfl, ?_⟩
      -- the name does not come again
      rw [Entries.get?_eq_none_iff.mpr hnodup.1] at hrest
      rcases hrest with ⟨-, hlast⟩ | ⟨_, ⟨⟩, -⟩
      show Q node (get (changed (c.2 s) cs))
      rw [hlast]
      exact hset _ _ hm rfl s
    · rw [if_neg heq]
      rw [hkeep _ _ hm (Ne.symm heq) s] at hrest
      exact hrest

end Record

namespace Field

variable {σ α β : Type} {name : String} {decode : Decoder α} {get : σ → β}

/-- A field leaves a part of a record as it is. -/
def Keeps (f : Field σ) (get : σ → β) : Prop :=
  ∀ node c, f.read.Reads node c → ∀ s, get (c s) = get s

theorem keeps_always {encode : α → Json} {own : σ → α} {set : α → σ → σ}
    (h : ∀ a s, get (set a s) = get s) : (always name decode encode own set).Keeps get := by
  intro node c hc s
  obtain ⟨a, -, rfl⟩ := hc.of_map
  exact h a s

theorem keeps_optional {encode : α → Json} {own : σ → Option α} {set : Option α → σ → σ}
    (h : ∀ o s, get (set o s) = get s) : (optional name decode encode own set).Keeps get := by
  intro node c hc s
  obtain ⟨o, -, rfl⟩ := hc.of_map
  exact h o s

end Field

namespace Record

variable {σ β : Type} {r : Record σ}

/-- A field of a record, with its decoder and the part of the record that it alone sets. -/
structure Part (r : Record σ) (k : String) (d : Decoder β) (get : σ → β) : Prop where
  field : ∃ f ∈ r.fields, f.name = k ∧ ∃ set, f.read = d.map set ∧ ∀ b s, get (set b s) = b
  others : ∀ f ∈ r.fields, f.name ≠ k → f.Keeps get

/-- **Fields.** A part of a record is decoded from what the tree gives to its field; if it gives
nothing, the part is that of a blank record. -/
theorem Part.of_reads {k : String} {d : Decoder β} {get : σ → β} (hpart : r.Part k d get)
    (hnames : r.names.Nodup) {node : Node} (hnode : node.Literal) {t : σ}
    (h : r.decoder.Reads node t) :
    (Entries.get? k (r.given node) = none ∧ get t = get r.blank) ∨
      ∃ v, Entries.get? k (r.given node) = some v ∧ v.Literal ∧ d.Reads v (get t) := by
  obtain ⟨f, hf, rfl, set, hset, hget⟩ := hpart.field
  obtain ⟨cs, hcs, hnodup, rfl⟩ := changes_of_reads hnames hnode h
  have hmade := part_of_changes get f.name (Q := fun v b => d.Reads v b) ?_ ?_ hcs hnodup r.blank
  · rw [get?_known (List.mem_map_of_mem hf)] at hmade
    rcases hmade with hnone | ⟨v, hv, hreads⟩
    · exact .inl hnone
    · exact .inr ⟨v, hv, literal_given hnode _ (Entries.mem_of_get? hv), hreads⟩
  · rintro ⟨_, v⟩ ⟨_, c⟩ ⟨-, hc⟩ rfl s
    have hchange : r.change f.name = d.map set := by
      unfold change
      rw [find?_of_nodup hnames hf]
      exact hset
    rw [hchange] at hc
    obtain ⟨b, hb, rfl⟩ := hc.of_map
    rw [hget]
    exact hb
  · rintro ⟨j, v⟩ ⟨_, c⟩ ⟨-, depth, path, hc⟩ hne s
    obtain ⟨g, hg, rfl, hread⟩ := field_of_change hc
    exact hpart.others g hg hne v c ⟨depth, path, hread⟩ s

end Record

end ViewDesign
