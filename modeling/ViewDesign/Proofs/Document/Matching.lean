import Mathlib.Data.List.Perm.Basic
import ViewDesign.Proofs.Document.Members

/-!
# Trees that tell the same

Two trees match if they tell the same, element by element and member by member, apart from the order
of members whose names differ.  Numbers may be literals in one of them and values in the other.

* `Reordered`                           entries in another order, no name twice;
* `Decoder.exists_entries_reordered`    what is made of members does not depend on their order;
* `Node.Tells`                          what a single value tells;
* `Node.Matches`                        trees that tell the same;
* `Context.Admits`                      a tree can be read here.
-/

namespace ViewDesign

/-! ## Entries in another order -/

/-- The same entries in another order, if no name comes twice. -/
def Reordered {α : Type} (es es' : List (String × α)) : Prop :=
  es = es' ∨ (es.map Prod.fst).Nodup ∧ es.Perm es'

namespace Reordered

variable {α : Type} {es es' : List (String × α)}

theorem perm (h : Reordered es es') : es.Perm es' := by
  rcases h with rfl | ⟨-, h⟩
  · exact .refl _
  · exact h

theorem symm (h : Reordered es es') : Reordered es' es := by
  rcases h with rfl | ⟨hnodup, h⟩
  · exact Or.inl rfl
  · exact Or.inr ⟨(h.map Prod.fst).nodup_iff.mp hnodup, h.symm⟩

theorem ofList_eq (h : Reordered es es') : Entries.ofList es = Entries.ofList es' := by
  rcases h with rfl | ⟨hnodup, h⟩
  · rfl
  · have hnodup' := (h.map Prod.fst).nodup_iff.mp hnodup
    exact Entries.ofList_of_perm (h.trans (Entries.perm_ofList hnodup').symm)
      (Entries.ascending_ofList es')

end Reordered

namespace Decoder

variable {α : Type} {d : String → Decoder α} {ctx : Context} {ms ms' : List (String × Node)}

/-- members in another order have their entries in another order -/
theorem entries_reordered (h : Reordered ms ms') {es : List (String × α)}
    (hes : List.Forall₂ (Entry d ctx) ms es) :
    ∃ es', List.Forall₂ (Entry d ctx) ms' es' ∧ Reordered es es' := by
  rcases h with rfl | ⟨hnodup, h⟩
  · exact ⟨es, hes, Or.inl rfl⟩
  · obtain ⟨es', hes', hperm⟩ := List.perm_comp_forall₂ h.symm hes
    rw [← names_of_entries hes] at hnodup
    exact ⟨es', hes', Or.inr ⟨hnodup, hperm.symm⟩⟩

/-- what is made of entries does not depend on the order of members -/
theorem exists_entries_reordered (h : Reordered ms ms') {p : List (String × α) → Prop}
    (hp : ∀ ms es es', List.Forall₂ (Entry d ctx) ms es → Reordered es es' → p es → p es') :
    (∃ es, List.Forall₂ (Entry d ctx) ms es ∧ p es) ↔
      ∃ es, List.Forall₂ (Entry d ctx) ms' es ∧ p es := by
  constructor
  · rintro ⟨es, hes, hpes⟩
    obtain ⟨es', hes', hsame⟩ := entries_reordered h hes
    exact ⟨es', hes', hp ms es es' hes hsame hpes⟩
  · rintro ⟨es, hes, hpes⟩
    obtain ⟨es', hes', hsame⟩ := entries_reordered h.symm hes
    exact ⟨es', hes', hp ms' es es' hes hsame hpes⟩

end Decoder

/-! ## Matching trees -/

/-- What is found at the place of a number. -/
def Found.ofNumber : Json.Number → Found
  | .int i => .int i
  | .float x => .float x

namespace Node

/-- What a single value tells. -/
def Tells : Node → Found → Prop
  | .null, f => f = .unit
  | .bool b, f => f = .bool b
  | .number n, f => f = .ofNumber n
  | .numeral n, f => ∃ v, n.value? = some v ∧ f = .ofNumber v
  | .string s, f => ∃ t, s = some t ∧ f = .text t
  | _, _ => False

mutual

/-- Trees that tell the same, up to the order of members. -/
def Matches : Node → Node → Prop
  | .sequence items, other => ∃ others, other = .sequence others ∧ MatchesItems items others
  | .mapping members, other =>
    ∃ ms others, other = .object others ∧ Reordered ms others ∧ MatchesMembers members ms
  | node, other => ∃ f, node.Tells f ∧ other.Tells f

/-- Elements that do, one by one. -/
def MatchesItems : List Node → List Node → Prop
  | [], others => others = []
  | v :: rest, others => ∃ w ws, others = w :: ws ∧ Matches v w ∧ MatchesItems rest ws

/-- Members that do, one by one. -/
def MatchesMembers : List (Node × Node) → List (String × Node) → Prop
  | [], others => others = []
  | (key, v) :: rest, others =>
    ∃ k w ws, key = .string (some k) ∧ others = (k, w) :: ws ∧ Matches v w ∧ MatchesMembers rest ws

end

theorem matchesItems_iff {items others : List Node} :
    MatchesItems items others ↔ List.Forall₂ Matches items others := by
  induction items generalizing others with
  | nil => simp [MatchesItems]
  | cons v rest ih =>
    rw [MatchesItems, List.forall₂_cons_left_iff]
    simp only [ih]
    constructor
    · rintro ⟨w, ws, rfl, hv, hrest⟩
      exact ⟨w, ws, hv, hrest, rfl⟩
    · rintro ⟨w, ws, hv, hrest, rfl⟩
      exact ⟨w, ws, rfl, hv, hrest⟩

/-- Members of the same name whose values match. -/
def MatchesMember (m m' : String × Node) : Prop := m.1 = m'.1 ∧ m.2.Matches m'.2

theorem matchesMembers_iff {members : List (Node × Node)} {others : List (String × Node)} :
    MatchesMembers members others ↔
      ∃ ms, members = ms.map named ∧ List.Forall₂ MatchesMember ms others := by
  induction members generalizing others with
  | nil =>
    constructor
    · rintro rfl
      exact ⟨[], rfl, .nil⟩
    · rintro ⟨ms, hms, hall⟩
      rw [List.map_eq_nil_iff.mp hms.symm] at hall
      cases hall
      rfl
  | cons m rest ih =>
    obtain ⟨key, v⟩ := m
    simp only [MatchesMembers, ih]
    constructor
    · rintro ⟨k, w, ws, rfl, rfl, hv, ms, rfl, hrest⟩
      exact ⟨(k, v) :: ms, rfl, .cons ⟨rfl, hv⟩ hrest⟩
    · rintro ⟨ms, hms, hall⟩
      obtain ⟨k, ms, rfl, rfl, rfl⟩ := cons_eq_map_named.mp hms
      obtain ⟨⟨_, w⟩, ws, ⟨rfl, hv⟩, hrest, rfl⟩ := List.forall₂_cons_left_iff.mp hall
      exact ⟨k, w, ws, rfl, rfl, hv, ms, rfl, hrest⟩

/-- the ways in which trees match -/
theorem Matches.cases {node other : Node} (h : node.Matches other) :
    (∃ f, node.Tells f ∧ other.Tells f) ∨
      (∃ items others, node = .sequence items ∧ other = .sequence others ∧
        List.Forall₂ Matches items others) ∨
      ∃ ms mid others, node = .object ms ∧ other = .object others ∧
        List.Forall₂ MatchesMember ms mid ∧ Reordered mid others := by
  cases node with
  | sequence items =>
    obtain ⟨others, rfl, hitems⟩ := h
    exact Or.inr (Or.inl ⟨items, others, rfl, rfl, matchesItems_iff.mp hitems⟩)
  | mapping members =>
    obtain ⟨mid, others, rfl, hothers, hmembers⟩ := h
    obtain ⟨ms, rfl, hms⟩ := matchesMembers_iff.mp hmembers
    exact Or.inr (Or.inr ⟨ms, mid, others, rfl, rfl, hms, hothers⟩)
  | _ => exact Or.inl h

theorem found_of_tells {node : Node} {f : Found} (h : node.Tells f) (ctx : Context) :
    Decoder.found ctx node = .ok f := by
  cases node with
  | null => exact congrArg _ (Eq.symm h)
  | bool b => exact congrArg _ (Eq.symm h)
  | number n =>
    obtain rfl : f = .ofNumber n := h
    cases n <;> rfl
  | numeral n =>
    obtain ⟨v, hv, rfl⟩ := h
    rw [Decoder.found, hv]
    cases v <;> rfl
  | string s =>
    obtain ⟨t, rfl, rfl⟩ := h
    rfl
  | _ => cases h

theorem tells_text_iff {node : Node} {s : String} :
    node.Tells (.text s) ↔ node = .string (some s) := by
  cases node with
  | number n => cases n <;> simp [Tells, Found.ofNumber]
  | numeral n =>
    simp only [Tells, reduceCtorEq, iff_false]
    rintro ⟨v, -, hv⟩
    cases v <;> cases hv
  | string t => simp [Tells]
  | _ => simp [Tells]

theorem tells_unit_iff {node : Node} : node.Tells .unit ↔ node = .null := by
  cases node with
  | number n => cases n <;> simp [Tells, Found.ofNumber]
  | numeral n =>
    simp only [Tells, reduceCtorEq, iff_false]
    rintro ⟨v, -, hv⟩
    cases v <;> cases hv
  | _ => simp [Tells]

/-- A tree of JSON has no scalars of the other format. -/
def Pure (node : Node) : Prop := ∀ s, node ≠ .scalar s

/-- what is found at a single value is what it tells -/
theorem found_iff_tells {ctx : Context} {node : Node} (h : node.Pure) {f : Found}
    (hsequence : f ≠ .sequence) (hmapping : f ≠ .mapping) :
    Decoder.found ctx node = .ok f ↔ node.Tells f := by
  refine ⟨fun hf => ?_, fun hf => found_of_tells hf ctx⟩
  cases node with
  | broken => cases hf
  | scalar s => exact absurd rfl (h s)
  | sequence items => exact absurd (Except.ok.inj hf).symm hsequence
  | mapping members => exact absurd (Except.ok.inj hf).symm hmapping
  | null => exact (Except.ok.inj hf).symm
  | bool b => exact (Except.ok.inj hf).symm
  | number n => cases n <;> exact (Except.ok.inj hf).symm
  | numeral n =>
    simp only [Decoder.found] at hf
    split at hf
    · rename_i i hi
      exact ⟨_, hi, (Except.ok.inj hf).symm⟩
    · rename_i x hx
      exact ⟨_, hx, (Except.ok.inj hf).symm⟩
    · cases hf
  | string s =>
    cases s with
    | none => cases hf
    | some s => exact ⟨s, rfl, (Except.ok.inj hf).symm⟩

theorem Tells.pure {node : Node} {f : Found} (h : node.Tells f) : node.Pure := by
  rintro s rfl
  exact h

namespace Matches

variable {node other : Node}

theorem pure (h : node.Matches other) : node.Pure ∧ other.Pure := by
  obtain ⟨f, hnode, hother⟩ | ⟨items, others, rfl, rfl, -⟩ | ⟨ms, mid, others, rfl, rfl, -⟩ :=
    h.cases
  · exact ⟨hnode.pure, hother.pure⟩
  · exact ⟨by rintro _ ⟨⟩, by rintro _ ⟨⟩⟩
  · exact ⟨by rintro _ ⟨⟩, by rintro _ ⟨⟩⟩

/-- matching trees tell the same kind of value -/
theorem found (h : node.Matches other) :
    ∃ f, ∀ ctx, Decoder.found ctx node = .ok f ∧ Decoder.found ctx other = .ok f := by
  obtain ⟨f, hnode, hother⟩ | ⟨items, others, rfl, rfl, -⟩ | ⟨ms, mid, others, rfl, rfl, -⟩ :=
    h.cases
  · exact ⟨f, fun ctx => ⟨found_of_tells hnode ctx, found_of_tells hother ctx⟩⟩
  · exact ⟨.sequence, fun ctx => ⟨rfl, rfl⟩⟩
  · exact ⟨.mapping, fun ctx => ⟨rfl, rfl⟩⟩

theorem tells_iff (h : node.Matches other) {f : Found} (hsequence : f ≠ .sequence)
    (hmapping : f ≠ .mapping) : node.Tells f ↔ other.Tells f := by
  obtain ⟨g, hg⟩ := h.found
  rw [← @found_iff_tells default node h.pure.1 f hsequence hmapping,
    ← @found_iff_tells default other h.pure.2 f hsequence hmapping, (hg default).1, (hg default).2]

theorem null_iff (h : node.Matches other) : node = .null ↔ other = .null := by
  rw [← tells_unit_iff, ← tells_unit_iff]
  exact h.tells_iff (by rintro ⟨⟩) (by rintro ⟨⟩)

theorem text_iff (h : node.Matches other) {s : String} :
    node = .string (some s) ↔ other = .string (some s) := by
  rw [← tells_text_iff, ← tells_text_iff]
  exact h.tells_iff (by rintro ⟨⟩) (by rintro ⟨⟩)

end Matches

end Node

/-! ## Contexts -/

namespace Context

open Node

/-- A tree can be read here: as JSON, and with enough levels left. -/
def Admits (ctx : Context) (node : Node) : Prop :=
  ctx.dialect ≠ .yaml ∧ ∀ depth, ctx.depth = some depth → node.Readable depth

variable {ctx : Context}

/-- a tree that needs a level can be entered, and its parts can be read below -/
theorem Admits.enter {node : Node} (h : ctx.Admits node) (hlevel : ∀ n, node.Readable n → 0 < n) :
    ∃ inner, ctx.enter = .ok inner ∧ inner.dialect = ctx.dialect ∧
      ∀ part : Node, (∀ n, node.Readable (n + 1) → part.Readable n) → inner.Admits part := by
  obtain ⟨dialect, depth, path⟩ := ctx
  obtain ⟨hdialect, hdepth⟩ := h
  cases depth with
  | none => exact ⟨_, rfl, rfl, fun part _ => ⟨hdialect, fun _ h => nomatch h⟩⟩
  | some depth =>
    have hread := hdepth depth rfl
    cases depth with
    | zero => exact absurd (hlevel 0 hread) (Nat.lt_irrefl 0)
    | succ n =>
      refine ⟨_, rfl, rfl, fun part hpart => ⟨hdialect, ?_⟩⟩
      rintro _ ⟨⟩
      exact hpart n hread

theorem Admits.sequence {items : List Node} (h : ctx.Admits (.sequence items)) :
    ∃ inner, ctx.enter = .ok inner ∧ inner.dialect = ctx.dialect ∧ ∀ v ∈ items, inner.Admits v := by
  obtain ⟨inner, henter, hdialect, hparts⟩ := h.enter fun n hread => hread.1
  exact ⟨inner, henter, hdialect, fun v hv =>
    hparts v fun n hread => readable_sequence.mp hread v hv⟩

theorem Admits.mapping {members : List (Node × Node)} (h : ctx.Admits (.mapping members)) :
    ∃ inner, ctx.enter = .ok inner ∧ inner.dialect = ctx.dialect ∧
      ∀ m ∈ members, inner.Admits m.2 := by
  obtain ⟨inner, henter, hdialect, hparts⟩ := h.enter fun n hread => hread.1
  refine ⟨inner, henter, hdialect, fun m hm => hparts m.2 fun n hread => ?_⟩
  replace hread : ReadableMembers n members := hread.2
  clear h hparts
  induction members with
  | nil => cases hm
  | cons first rest ih =>
    obtain ⟨-, hfirst, hrest⟩ := hread
    rcases List.mem_cons.mp hm with rfl | hm
    · exact hfirst
    · exact ih hm hrest

theorem Admits.object {ms : List (String × Node)} (h : ctx.Admits (.object ms)) :
    ∃ inner, ctx.enter = .ok inner ∧ inner.dialect = ctx.dialect ∧
      ∀ m ∈ ms, inner.Admits m.2 := by
  obtain ⟨inner, henter, hdialect, hinner⟩ := Admits.mapping h
  exact ⟨inner, henter, hdialect, fun m hm => hinner (named m) (List.mem_map_of_mem hm)⟩

end Context

end ViewDesign
