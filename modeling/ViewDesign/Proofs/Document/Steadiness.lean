import ViewDesign.Design
import ViewDesign.Proofs.Document.Matching

/-!
# What decoding does not depend on

A decoder is steady if it gives the same on matching trees, wherever they stand and whichever of the
two dialects of JSON they are read in.  Every decoder that records are made of is.

* `Steady`                    a decoder gives the same on matching trees;
* `Steady.exists_entries`     what is made of the entries of matching members;
* `Steady.optional`, `Steady.list`, `Steady.names`, `Steady.free`, `Steady.choice`, `Key.steady`
                              one decoder after the other.
-/

namespace ViewDesign

/-! ## Steady decoders -/

/-- A decoder gives the same on trees that match, wherever they stand. -/
def Steady {α : Type} (d : Decoder α) : Prop :=
  ∀ node other, node.Matches other → ∀ ctx ctx', ctx.Admits node → ctx'.Admits other →
    ∀ a, d ctx node = .ok a ↔ d ctx' other = .ok a

namespace Decoder

open Node

variable {α : Type}

theorem map_ok_iff {β : Type} {d : Decoder α} {f : α → β} {ctx : Context} {node : Node} {b : β} :
    d.map f ctx node = .ok b ↔ ∃ a, d ctx node = .ok a ∧ f a = b := by
  rw [map]
  cases d ctx node <;> simp [Except.map]

theorem text_ok_iff {ctx : Context} {node : Node} (h : node.Pure) {s : String} :
    text ctx node = .ok s ↔ node = .string (some s) := by
  have hmismatch : ¬ (mismatch "a string" ctx node : Except Refusal String) = .ok s :=
    fun h => mismatch_not_ok ⟨s, h⟩
  cases node with
  | scalar t => exact absurd rfl (h t)
  | string t => cases t <;> simp [text, hmismatch]
  | _ => simp [text, hmismatch]

theorem optional_ok_iff {d : Decoder α} {ctx : Context} {node : Node} (h : node.Pure)
    {o : Option α} : d.optional ctx node = .ok o ↔
      node = .null ∧ o = none ∨ node ≠ .null ∧ ∃ a, d ctx node = .ok a ∧ some a = o := by
  cases node with
  | scalar t => exact absurd rfl (h t)
  | null => simp [optional, eq_comm]
  | _ =>
    simp only [optional, reduceCtorEq, false_and, ne_eq, not_false_eq_true, true_and, false_or]
    exact map_ok_iff

end Decoder

namespace Steady

open Node

variable {α β : Type} {d : Decoder α}

theorem map (h : Steady d) (f : α → β) : Steady (d.map f) := by
  intro node other hmatch ctx ctx' hctx hctx' b
  simp only [Decoder.map_ok_iff, h node other hmatch ctx ctx' hctx hctx']

/-- a decoder that only looks at what is found -/
theorem of_found {p : Found → α → Prop} (h : ∀ ctx node f, node.Pure →
    Decoder.found ctx node = .ok f → ∀ a, d ctx node = .ok a ↔ p f a) : Steady d := by
  intro node other hmatch ctx ctx' _ _ a
  obtain ⟨f, hf⟩ := hmatch.found
  obtain ⟨hnode, hother⟩ := hmatch.pure
  rw [h ctx node f hnode (hf ctx).1, h ctx' other f hother (hf ctx').2]

theorem text : Steady Decoder.text := by
  intro node other hmatch ctx ctx' _ _ s
  rw [Decoder.text_ok_iff hmatch.pure.1, Decoder.text_ok_iff hmatch.pure.2, hmatch.text_iff]

theorem flag : Steady Decoder.flag := by
  refine @of_found _ _ (fun f b => f = .bool b) fun ctx node f _ hf b => ?_
  simp only [Decoder.flag, hf, bind, Except.bind]
  cases f <;> simp [Context.refuse]

theorem count : Steady Decoder.count := by
  refine @of_found _ _ (fun f n => ∃ i, f = .int i ∧ 0 ≤ i ∧ n = UInt64.ofNat i.toNat)
    fun ctx node f _ hf n => ?_
  simp only [Decoder.count, hf, bind, Except.bind]
  cases f with
  | int i => by_cases hi : 0 ≤ i <;> simp [hi, Context.refuse, eq_comm]
  | _ => simp [Context.refuse]

theorem optional (h : Steady d) : Steady d.optional := by
  intro node other hmatch ctx ctx' hctx hctx' o
  obtain ⟨hnode, hother⟩ := hmatch.pure
  simp only [Decoder.optional_ok_iff hnode, Decoder.optional_ok_iff hother, ne_eq, hmatch.null_iff,
    h node other hmatch ctx ctx' hctx hctx']

theorem items (h : Steady d) {nodes others : List Node} (hmatch : List.Forall₂ Matches nodes others)
    {ctx ctx' : Context} (hctx : ∀ v ∈ nodes, ctx.Admits v) (hctx' : ∀ v ∈ others, ctx'.Admits v)
    {i i' : Nat} {as : List α} :
    Decoder.items d ctx i nodes = .ok as ↔ Decoder.items d ctx' i' others = .ok as := by
  induction hmatch generalizing i i' as with
  | nil => simp only [Decoder.items]
  | @cons v w nodes others hv _ ih =>
    rw [List.forall_mem_cons] at hctx hctx'
    have hfirst := h v w hv (ctx.item i) (ctx'.item i') hctx.1 hctx'.1
    have hrest := @ih hctx.2 hctx'.2 (i + 1) (i' + 1)
    simp only [Decoder.items, bind_ok_iff, hfirst, hrest]

/-- a decoder that takes no single value is steady if it is on sequences and objects -/
theorem of_parts
    (hleaf : ∀ ctx (node : Node), (∀ items, node ≠ .sequence items) →
      (∀ members, node ≠ .mapping members) → ∀ a, ¬ d ctx node = .ok a)
    (hsequence : ∀ items others, List.Forall₂ Matches items others → ∀ ctx ctx' : Context,
      ctx.Admits (.sequence items) → ctx'.Admits (.sequence others) →
        ∀ a, d ctx (.sequence items) = .ok a ↔ d ctx' (.sequence others) = .ok a)
    (hobject : ∀ ms mid others, List.Forall₂ MatchesMember ms mid → Reordered mid others →
      ∀ ctx ctx' : Context, ctx.Admits (.object ms) → ctx'.Admits (.object others) →
        ∀ a, d ctx (.object ms) = .ok a ↔ d ctx' (.object others) = .ok a) : Steady d := by
  intro node other hmatch ctx ctx' hctx hctx' a
  obtain ⟨f, hnode, hother⟩ | ⟨items, others, rfl, rfl, hitems⟩ |
    ⟨ms, mid, others, rfl, rfl, hms, hmid⟩ := hmatch.cases
  · have hsingle : ∀ {node : Node} {ctx}, node.Tells f → ¬ d ctx node = .ok a := by
      intro node ctx hnode
      refine hleaf ctx node ?_ ?_ a
      · rintro items rfl
        exact hnode
      · rintro members rfl
        exact hnode
    exact iff_of_false (hsingle hnode) (hsingle hother)
  · exact hsequence items others hitems ctx ctx' hctx hctx' a
  · exact hobject ms mid others hms hmid ctx ctx' hctx hctx' a

theorem list (h : Steady d) : Steady (Decoder.list d) := by
  refine of_parts ?_ ?_ ?_
  · intro ctx node hnode _ as
    cases node with
    | sequence items => exact absurd rfl (hnode items)
    | _ => exact fun h => Decoder.mismatch_not_ok ⟨as, h⟩
  · intro items others hitems ctx ctx' hctx hctx' as
    obtain ⟨inner, henter, -, hinner⟩ := hctx.sequence
    obtain ⟨inner', henter', -, hinner'⟩ := hctx'.sequence
    simp only [Decoder.list, henter, henter', bind, Except.bind]
    exact h.items hitems hinner hinner'
  · intro ms mid others _ _ ctx ctx' _ _ as
    exact iff_of_false (fun h => Decoder.mismatch_not_ok ⟨as, h⟩)
      (fun h => Decoder.mismatch_not_ok ⟨as, h⟩)

/-! ## Objects -/

theorem entries {d : String → Decoder α} (h : ∀ k, Steady (d k)) {ms others : List (String × Node)}
    (hmatch : List.Forall₂ MatchesMember ms others) {ctx ctx' : Context}
    (hctx : ∀ m ∈ ms, ctx.Admits m.2) (hctx' : ∀ m ∈ others, ctx'.Admits m.2)
    {es : List (String × α)} :
    List.Forall₂ (Decoder.Entry d ctx) ms es ↔ List.Forall₂ (Decoder.Entry d ctx') others es := by
  induction hmatch generalizing es with
  | nil => simp only [List.forall₂_nil_left_iff]
  | @cons m m' ms others hm _ ih =>
    rw [List.forall_mem_cons] at hctx hctx'
    obtain ⟨k, v⟩ := m
    obtain ⟨k', w⟩ := m'
    obtain ⟨rfl, hv⟩ : k = k' ∧ v.Matches w := hm
    have hfirst : ∀ e, Decoder.Entry d ctx (k, v) e ↔ Decoder.Entry d ctx' (k, w) e := fun e =>
      and_congr_right fun _ => h k v w hv (ctx.member k) (ctx'.member k) hctx.1 hctx'.1 e.2
    simp only [List.forall₂_cons_left_iff, hfirst, ih hctx.2 hctx'.2]

/-- what is made of the entries of matching members is the same -/
theorem exists_entries {d : String → Decoder α} (h : ∀ k, Steady (d k))
    {ms mid others : List (String × Node)} (hmatch : List.Forall₂ MatchesMember ms mid)
    (hmid : Reordered mid others) {ctx ctx' : Context}
    (hctx : ∀ m ∈ ms, ctx.Admits m.2) (hctx' : ∀ m ∈ others, ctx'.Admits m.2)
    {p : List (String × α) → Prop} (hp : ∀ ms es es',
      List.Forall₂ (Decoder.Entry d ctx') ms es → Reordered es es' → p es → p es') :
    (∃ es, List.Forall₂ (Decoder.Entry d ctx) ms es ∧ p es) ↔
      ∃ es, List.Forall₂ (Decoder.Entry d ctx') others es ∧ p es := by
  have hctx'' : ∀ m ∈ mid, ctx'.Admits m.2 := fun m hm => hctx' m (hmid.perm.mem_iff.mp hm)
  simp only [entries h hmatch hctx hctx'']
  exact Decoder.exists_entries_reordered hmid hp

theorem names (h : Steady d) : Steady (Decoder.names d) := by
  refine of_parts ?_ ?_ ?_
  · intro ctx node _ hnode m
    cases node with
    | mapping members => exact absurd rfl (hnode members)
    | _ => exact fun h => Decoder.mismatch_not_ok ⟨m, h⟩
  · intro items others _ ctx ctx' _ _ m
    exact iff_of_false (fun h => Decoder.mismatch_not_ok ⟨m, h⟩)
      (fun h => Decoder.mismatch_not_ok ⟨m, h⟩)
  · intro ms mid others hms hmid ctx ctx' hctx hctx' m
    obtain ⟨inner, henter, -, hinner⟩ := hctx.object
    obtain ⟨inner', henter', -, hinner'⟩ := hctx'.object
    simp only [Decoder.names_object_iff, henter, henter', Except.ok.injEq, exists_eq_left']
    refine exists_entries (fun _ => h) hms hmid hinner hinner' ?_
    intro ms es es' _ hes hm
    rw [hm, hes.ofList_eq]

end Steady

/-! ## Any value -/

namespace Decoder

open Node

/-- a single value is decoded by what it tells -/
theorem freeNode_of_tells {node : Node} {f : Found} (h : node.Tells f) (ctx : Context) :
    freeNode ctx node = freeScalar ctx node := by
  cases node with
  | sequence items => cases h
  | mapping members => cases h
  | _ => simp only [freeNode]

mutual

theorem freeNode_steady (node other : Node) (hmatch : node.Matches other) (ctx ctx' : Context)
    (hctx : ctx.Admits node) (hctx' : ctx'.Admits other) (v : Json) :
    freeNode ctx node = .ok v ↔ freeNode ctx' other = .ok v := by
  have hleaf : (∃ f, node.Tells f ∧ other.Tells f) →
      (freeNode ctx node = .ok v ↔ freeNode ctx' other = .ok v) := by
    rintro ⟨f, hnode, hother⟩
    rw [freeNode_of_tells hnode, freeNode_of_tells hother, freeScalar, freeScalar,
      found_of_tells hnode, found_of_tells hother]
    cases f <;> simp [bind, Except.bind, Context.refuse]
  cases node with
  | sequence items =>
    obtain ⟨others, rfl, hitems⟩ := hmatch
    obtain ⟨inner, henter, -, hinner⟩ := hctx.sequence
    obtain ⟨inner', henter', -, hinner'⟩ := hctx'.sequence
    have hsame := freeItems_steady items others hitems inner inner' hinner hinner' 0 0
    simp only [freeNode, henter, henter', bind_ok_iff, Except.ok.injEq, exists_eq_left', hsame]
  | mapping members =>
    -- the members match one by one in the order of the first tree, and are then reordered
    obtain ⟨mid, others, rfl, hmid, hmembers⟩ := hmatch
    obtain ⟨inner, henter, -, hinner⟩ := hctx.mapping
    obtain ⟨inner', henter', -, hinner'⟩ := hctx'.object
    have hmid' : ∀ m ∈ mid, inner'.Admits m.2 := fun m hm => hinner' m (hmid.perm.mem_iff.mp hm)
    have hsame := freeMembers_steady members mid hmembers inner inner' hinner hmid'
    have hordered : (∃ es, freeMembers inner members = .ok es ∧ v = .object es) ↔
        ∃ es, List.Forall₂ (Entry (fun _ => free) inner') others es ∧ v = .object es := by
      simp only [hsame, freeMembers_iff]
      refine exists_entries_reordered hmid ?_
      intro ms es es' _ hes hv
      rw [hv, Json.object, Json.object, hes.ofList_eq]
    have hother := @free_object_iff ctx' others v
    simp only [henter', Except.ok.injEq, exists_eq_left'] at hother
    refine Iff.trans ?_ (hordered.trans hother.symm)
    simp only [freeNode, henter, bind_ok_iff, pure, Except.pure, Except.ok.injEq, exists_eq_left']
    exact exists_congr fun es => and_congr_right fun _ => eq_comm
  | _ => exact hleaf hmatch

theorem freeItems_steady (items others : List Node) (hmatch : MatchesItems items others)
    (ctx ctx' : Context) (hctx : ∀ v ∈ items, ctx.Admits v) (hctx' : ∀ v ∈ others, ctx'.Admits v)
    (i i' : Nat) (vs : List Json) :
    freeItems ctx i items = .ok vs ↔ freeItems ctx' i' others = .ok vs := by
  cases items with
  | nil =>
    obtain rfl : others = [] := hmatch
    simp only [freeItems]
  | cons v rest =>
    obtain ⟨w, ws, rfl, hv, hrest⟩ := hmatch
    rw [List.forall_mem_cons] at hctx hctx'
    have hfirst := freeNode_steady v w hv (ctx.item i) (ctx'.item i') hctx.1 hctx'.1
    have hmore := freeItems_steady rest ws hrest ctx ctx' hctx.2 hctx'.2 (i + 1) (i' + 1)
    simp only [freeItems, bind_ok_iff, hfirst, hmore]

theorem freeMembers_steady (members : List (Node × Node)) (others : List (String × Node))
    (hmatch : MatchesMembers members others) (ctx ctx' : Context)
    (hctx : ∀ m ∈ members, ctx.Admits m.2) (hctx' : ∀ m ∈ others, ctx'.Admits m.2)
    (vs : List (String × Json)) :
    freeMembers ctx members = .ok vs ↔ freeMembers ctx' (others.map named) = .ok vs := by
  cases members with
  | nil =>
    obtain rfl : others = [] := hmatch
    simp only [freeMembers, List.map_nil]
  | cons m rest =>
    obtain ⟨key, v⟩ := m
    obtain ⟨k, w, ws, rfl, rfl, hv, hrest⟩ := hmatch
    rw [List.forall_mem_cons] at hctx hctx'
    have hfirst := freeNode_steady v w hv (ctx.member k) (ctx'.member k) hctx.1 hctx'.1
    have hmore := freeMembers_steady rest ws hrest ctx ctx' hctx.2 hctx'.2
    simp only [List.map_cons, named, freeMembers, name, bind_ok_iff, hfirst, hmore, Except.ok.injEq,
      exists_eq_left']

end

end Decoder

namespace Steady

open Node

variable {α : Type}

theorem free : Steady Decoder.free := Decoder.freeNode_steady

/-! ## One of several names -/

theorem chosen_iff {choices : List (String × α)} {ctx : Context} {s : String} {a : α} :
    Decoder.chosen choices ctx s = .ok a ↔ choices.lookup s = some a := by
  rw [Decoder.chosen]
  cases choices.lookup s <;> simp [Context.refuse]

theorem unit_iff {ctx : Context} {node : Node} (h : node.Pure) :
    (∃ u, Decoder.unit ctx node = .ok u) ↔ node = .null := by
  rw [← tells_unit_iff, ← @found_iff_tells ctx node h .unit (by rintro ⟨⟩) (by rintro ⟨⟩),
    Decoder.unit]
  cases Decoder.found ctx node with
  | error e => simp [bind, Except.bind]
  | ok f => cases f <;> simp [bind, Except.bind, Context.refuse]

/-- the name of the only member is chosen -/
theorem chosenMember_iff {choices : List (String × α)} {ctx : Context} {ms : List (String × Node)}
    (hctx : ctx.Admits (.object ms)) (hms : ∀ m ∈ ms, m.2.Pure) {a : α} :
    Decoder.chosenMember choices ctx (ms.map named) = .ok a ↔
      ∃ s, ms = [(s, .null)] ∧ choices.lookup s = some a := by
  obtain ⟨inner, henter, -, -⟩ := hctx.object
  cases ms with
  | nil => cases hdialect : ctx.dialect <;> simp [Decoder.chosenMember, hdialect, Context.refuse]
  | cons m rest =>
    obtain ⟨k, v⟩ := m
    rw [List.forall_mem_cons] at hms
    have hsingle : ∀ inner, (∃ b, choices.lookup k = some b ∧
        ∃ u, Decoder.unit inner v = .ok u ∧ b = a) ↔
          ∃ s, [(k, v)] = [(s, Node.null)] ∧ choices.lookup s = some a := by
      intro inner
      constructor
      · rintro ⟨_, hlookup, u, hu, rfl⟩
        obtain rfl := (unit_iff hms.1).mp ⟨u, hu⟩
        exact ⟨k, rfl, hlookup⟩
      · rintro ⟨_, ⟨⟩, hlookup⟩
        exact ⟨a, hlookup, (), rfl, rfl⟩
    cases hdialect : ctx.dialect with
    | yaml => exact absurd hdialect hctx.1
    | text =>
      simp only [List.map_cons, named, Decoder.chosenMember, hdialect, henter]
      cases rest with
      | nil =>
        simp only [bind_ok_iff, Except.ok.injEq, exists_eq_left', chosen_iff, List.map_nil,
          List.isEmpty_nil, if_true, pure, Except.pure, hsingle inner]
      | cons m' rest => simp [bind_ok_iff]
    | value =>
      simp only [List.map_cons, named, Decoder.chosenMember, hdialect]
      cases rest with
      | nil =>
        simp only [bind_ok_iff, Except.ok.injEq, exists_eq_left', chosen_iff, List.map_nil,
          List.isEmpty_nil, if_true, pure, Except.pure, Decoder.name, hsingle ctx]
      | cons m' rest => simp [Context.refuse]

/-- nothing else than a text or an object is chosen -/
theorem choice_not_ok {choices : List (String × α)} {ctx : Context} {node : Node}
    (hstring : ∀ s, node ≠ .string (some s)) (hscalar : node.Pure)
    (hmapping : ∀ members, node ≠ .mapping members) {a : α} :
    ¬ Decoder.choice choices ctx node = .ok a := by
  have hmismatch : ∀ expected, ¬ (Decoder.mismatch expected ctx node : Except Refusal α) = .ok a :=
    fun _ h => Decoder.mismatch_not_ok ⟨a, h⟩
  unfold Decoder.choice
  split
  · exact absurd rfl (hstring _)
  · exact absurd rfl (hscalar _)
  · exact absurd rfl (hmapping _)
  · split
    · exact fun h => nomatch h
    · exact hmismatch _
    · exact hmismatch _

theorem choice_iff_of_tells {choices : List (String × α)} {ctx : Context} {node : Node} {f : Found}
    (h : node.Tells f) {a : α} :
    Decoder.choice choices ctx node = .ok a ↔ ∃ s, f = .text s ∧ choices.lookup s = some a := by
  by_cases htext : ∃ s, node = .string (some s)
  · obtain ⟨s, rfl⟩ := htext
    obtain ⟨_, ⟨⟩, rfl⟩ := h
    simp [Decoder.choice, chosen_iff]
  · refine iff_of_false (choice_not_ok (fun s hs => htext ⟨s, hs⟩) h.pure ?_) ?_
    · rintro members rfl
      exact h
    · rintro ⟨s, rfl, -⟩
      exact htext ⟨s, tells_text_iff.mp h⟩

theorem members_pure {ms mid others : List (String × Node)}
    (hms : List.Forall₂ MatchesMember ms mid) (hmid : Reordered mid others) :
    (∀ m ∈ ms, m.2.Pure) ∧ ∀ m ∈ others, m.2.Pure := by
  constructor
  · intro m hm
    obtain ⟨m', -, hmatch⟩ := exists_of_forall₂ hms hm
    exact hmatch.2.pure.1
  · intro m hm
    obtain ⟨m', -, hmatch⟩ := exists_of_forall₂ hms.flip (hmid.perm.mem_iff.mpr hm)
    exact hmatch.2.pure.2

/-- a single member that is null is matched by itself only -/
theorem single_null_iff {ms mid others : List (String × Node)}
    (hms : List.Forall₂ MatchesMember ms mid) (hmid : Reordered mid others) {s : String} :
    ms = [(s, .null)] ↔ others = [(s, .null)] := by
  constructor
  · rintro rfl
    obtain ⟨⟨_, w⟩, ws, ⟨rfl, hw⟩, hnil, rfl⟩ := List.forall₂_cons_left_iff.mp hms
    rw [List.forall₂_nil_left_iff.mp hnil] at hmid
    obtain rfl : w = .null := hw.null_iff.mp rfl
    exact List.perm_singleton.mp hmid.perm.symm
  · rintro rfl
    rw [List.perm_singleton.mp hmid.perm] at hms
    obtain ⟨⟨_, v⟩, vs, ⟨rfl, hv⟩, hnil, rfl⟩ := List.forall₂_cons_right_iff.mp hms
    obtain rfl : v = .null := hv.null_iff.mpr rfl
    rw [List.forall₂_nil_right_iff.mp hnil]

theorem choice (choices : List (String × α)) : Steady (Decoder.choice choices) := by
  intro node other hmatch ctx ctx' hctx hctx' a
  obtain ⟨f, hnode, hother⟩ | ⟨items, others, rfl, rfl, -⟩ |
    ⟨ms, mid, others, rfl, rfl, hms, hmid⟩ := hmatch.cases
  · rw [choice_iff_of_tells hnode, choice_iff_of_tells hother]
  · have hnot : ∀ ctx items, ¬ Decoder.choice choices ctx (.sequence items) = .ok a :=
      fun ctx items => choice_not_ok (by rintro _ ⟨⟩) (by rintro _ ⟨⟩) (by rintro _ ⟨⟩)
    exact iff_of_false (hnot ctx items) (hnot ctx' others)
  · obtain ⟨hms', hothers⟩ := members_pure hms hmid
    show Decoder.chosenMember choices ctx (ms.map named) = .ok a ↔
      Decoder.chosenMember choices ctx' (others.map named) = .ok a
    rw [chosenMember_iff hctx hms', chosenMember_iff hctx' hothers]
    exact exists_congr fun s => and_congr_left fun _ => single_null_iff hms hmid

end Steady

/-! ## Keys -/

namespace Key

open Node Decoder

theorem textOnly?_pure {ctx : Context} {node : Node} (h : node.Pure) {s : String} :
    textOnly? ctx node = some s ↔ node = .string (some s) := by
  rw [← tells_text_iff, ← @found_iff_tells ctx node h (.text s) (by rintro ⟨⟩) (by rintro ⟨⟩)]
  unfold textOnly?
  split
  · rename_i t ht
    simp [ht]
  · rename_i hnone
    exact iff_of_false (fun h => nomatch h) (hnone s)

theorem mapM_textOnly?_pure {ctx : Context} {items : List Node} (h : ∀ v ∈ items, v.Pure)
    {ps : List String} :
    items.mapM (textOnly? ctx) = some ps ↔ items = ps.map fun p => .string (some p) := by
  induction items generalizing ps with
  | nil => simp
  | cons v rest ih =>
    rw [List.forall_mem_cons] at h
    simp only [List.mapM_cons, Option.bind_eq_bind, Option.bind_eq_some_iff, textOnly?_pure h.1,
      ih h.2, Option.pure_def, Option.some.injEq]
    constructor
    · rintro ⟨p, rfl, ps, rfl, rfl⟩
      rfl
    · intro hps
      obtain ⟨p, ps, rfl, hp, hrest⟩ := List.map_eq_cons_iff.mp hps.symm
      exact ⟨p, hp.symm, ps, hrest.symm, rfl⟩

theorem walkItems_texts (ctx : Context) (i : Nat) (ps : List String) :
    walkItems ctx i (ps.map fun p => .string (some p)) = .ok () := by
  induction ps generalizing i with
  | nil => rfl
  | cons p ps ih => exact ih (i + 1)

/-- a key is a text or a sequence of texts -/
theorem decoder_iff {ctx : Context} {node : Node} (hnode : node.Pure)
    (hitems : ∀ items, node = .sequence items → ∀ v ∈ items, v.Pure) (hctx : ctx.Admits node)
    {k : Key} :
    Key.decoder ctx node = .ok k ↔
      (∃ p, node = .string (some p) ∧ k = .single p) ∨
        ∃ ps, node = .sequence (ps.map fun p => .string (some p)) ∧ k = .composite ps := by
  constructor
  · intro h
    rw [Key.decoder, bind_ok_iff] at h
    obtain ⟨-, -, h⟩ := h
    split at h
    · rename_i items
      split at h
      · rename_i ps hps
        rw [mapM_textOnly?_pure (hitems items rfl)] at hps
        exact Or.inr ⟨ps, by rw [hps], (Except.ok.inj h).symm⟩
      · cases h
    · split at h
      · rename_i p hp
        exact Or.inl ⟨p, (textOnly?_pure hnode).mp hp, (Except.ok.inj h).symm⟩
      · cases h
  · rintro (⟨p, rfl, rfl⟩ | ⟨ps, rfl, rfl⟩)
    · rfl
    · obtain ⟨inner, henter, -, -⟩ := hctx.sequence
      have hwalk : walkNode ctx (.sequence (ps.map fun p => .string (some p))) = .ok () := by
        simp only [walkNode, henter, bind, Except.bind]
        exact walkItems_texts inner 0 ps
      have htexts := (@mapM_textOnly?_pure ctx _ (hitems _ rfl) ps).mpr rfl
      simp only [Key.decoder, hwalk, bind, Except.bind, htexts]

theorem texts_iff {items others : List Node} (h : List.Forall₂ Matches items others)
    {ps : List String} : items = (ps.map fun p => .string (some p)) ↔
      others = ps.map fun p => .string (some p) := by
  induction h generalizing ps with
  | nil => exact Iff.rfl
  | cons hv _ ih =>
    cases ps with
    | nil => simp
    | cons p ps => simp only [List.map_cons, List.cons.injEq, hv.text_iff, ih]

theorem steady : Steady Key.decoder := by
  intro node other hmatch ctx ctx' hctx hctx' k
  have hparts : (∀ items, node = .sequence items → ∀ v ∈ items, v.Pure) ∧
      (∀ items, other = .sequence items → ∀ v ∈ items, v.Pure) ∧
      ∀ ps : List String, node = .sequence (ps.map fun p => .string (some p)) ↔
        other = .sequence (ps.map fun p => .string (some p)) := by
    obtain ⟨f, hnode, hother⟩ | ⟨items, others, rfl, rfl, hitems⟩ |
      ⟨ms, mid, others, rfl, rfl, -⟩ := hmatch.cases
    · have hsingle : ∀ {node : Node}, node.Tells f → ∀ items, node ≠ .sequence items := by
        rintro _ htells items rfl
        exact htells
      exact ⟨fun items h => absurd h (hsingle hnode items),
        fun items h => absurd h (hsingle hother items),
        fun ps => iff_of_false (hsingle hnode _) (hsingle hother _)⟩
    · refine ⟨?_, ?_, fun ps => ?_⟩
      · rintro _ ⟨⟩ v hv
        obtain ⟨w, -, hw⟩ := exists_of_forall₂ hitems hv
        exact hw.pure.1
      · rintro _ ⟨⟩ w hw
        obtain ⟨v, -, hv⟩ := exists_of_forall₂ hitems.flip hw
        exact hv.pure.2
      · rw [Node.sequence.injEq, Node.sequence.injEq, texts_iff hitems]
    · exact ⟨by rintro _ ⟨⟩, by rintro _ ⟨⟩, fun ps => iff_of_false (by rintro ⟨⟩) (by rintro ⟨⟩)⟩
  simp only [decoder_iff hmatch.pure.1 hparts.1 hctx, decoder_iff hmatch.pure.2 hparts.2.1 hctx',
    hmatch.text_iff, hparts.2.2]

end Key

end ViewDesign
