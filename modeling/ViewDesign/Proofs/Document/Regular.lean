import Mathlib.Data.List.Pairwise
import ViewDesign.Proofs.Document.Steadiness

/-!
# Records do not depend on the order of their members

A record is steady, too, once the changes that its fields make do not interfere.  And since it is,
the values of its leading fields in order decode like members by name.

* `Record.Apart`                     two fields change a record independently;
* `Record.Regular`                   what a record needs to be read in any order;
* `Record.Regular.decoder_steady`    it is steady;
* `Record.Regular.sequence_iff`      values in order decode like members.
-/

namespace ViewDesign

/-! ## Records -/

namespace Record

open Node

variable {σ : Type} {r : Record σ}

/-- Two fields change a record independently. -/
def Apart (f g : Field σ) : Prop :=
  ∀ ctx node ctx' node' c c', f.read ctx node = .ok c → g.read ctx' node' = .ok c' →
    ∀ s, c (c' s) = c' (c s)

instance : Std.Symm (@Apart σ) where
  symm _ _ h ctx node ctx' node' c c' hc hc' s := (h ctx' node' ctx node c' c hc' hc s).symm

/-- two fields that set different parts of a record -/
theorem apart_of_maps {α β : Type} {f g : Field σ} {d : Decoder α} {e : Decoder β}
    {set : α → σ → σ} {put : β → σ → σ} (hf : f.read = d.map set) (hg : g.read = e.map put)
    (h : ∀ a b s, set a (put b s) = put b (set a s)) : Apart f g := by
  intro ctx node ctx' node' c c' hc hc' s
  rw [hf, Decoder.map_ok_iff] at hc
  rw [hg, Decoder.map_ok_iff] at hc'
  obtain ⟨a, -, rfl⟩ := hc
  obtain ⟨b, -, rfl⟩ := hc'
  exact h a b s

/-- What a record needs to be read in any order. -/
structure Regular (r : Record σ) : Prop where
  strict : r.strict = true
  nodup : r.names.Nodup
  steady : ∀ f ∈ r.fields, Steady f.read
  apart : r.fields.Pairwise Apart
  required : ∀ k ∈ r.required, k ∈ r.names

theorem field_of_change {k : String} {ctx : Context} {node : Node} {c : σ → σ}
    (hc : r.change k ctx node = .ok c) : ∃ f ∈ r.fields, f.name = k ∧ f.read ctx node = .ok c := by
  unfold change at hc
  split at hc
  · rename_i f hf
    exact ⟨f, List.mem_of_find?_eq_some hf, by simpa using List.find?_some hf, hc⟩
  · cases hc

namespace Regular

theorem steady_change (h : r.Regular) (k : String) : Steady (r.change k) := by
  unfold change
  intro node other hmatch ctx ctx' hctx hctx' c
  cases hfind : r.fields.find? (·.name = k) with
  | none => simp [Context.refuse]
  | some f =>
    exact h.steady f (List.mem_of_find?_eq_some hfind) node other hmatch ctx ctx' hctx hctx' c

/-- changes of different members do not depend on their order -/
theorem changed_eq (h : r.Regular) {ctx : Context} {ms : List (String × Node)}
    {cs cs' : List (String × (σ → σ))} (hcs : List.Forall₂ (Decoder.Entry r.change ctx) ms cs)
    (hsame : Reordered cs cs') (s : σ) : changed s cs = changed s cs' := by
  rcases hsame with rfl | ⟨hnodup, hperm⟩
  · rfl
  · refine hperm.foldl_eq' (fun c hmem c' hmem' s => ?_) s
    by_cases heq : c = c'
    · rw [heq]
    · obtain ⟨m, -, hname, hc⟩ := exists_of_forall₂ hcs.flip hmem
      obtain ⟨m', -, hname', hc'⟩ := exists_of_forall₂ hcs.flip hmem'
      obtain ⟨f, hf, hk, hread⟩ := field_of_change hc
      obtain ⟨g, hg, hk', hread'⟩ := field_of_change hc'
      have hne : f ≠ g := by
        rintro rfl
        exact heq (List.inj_on_of_nodup_map hnodup hmem hmem' (by rw [hname, hname', ← hk, ← hk']))
      exact (h.apart.forall hf hg hne _ _ _ _ _ _ hread hread' s).symm

theorem object_steady (h : r.Regular) {ms mid others : List (String × Node)}
    (hms : List.Forall₂ MatchesMember ms mid) (hmid : Reordered mid others) {ctx ctx' : Context}
    (hctx : ctx.Admits (.object ms)) (hctx' : ctx'.Admits (.object others)) (t : σ) :
    r.decoder ctx (.object ms) = .ok t ↔ r.decoder ctx' (.object others) = .ok t := by
  obtain ⟨inner, henter, -, hinner⟩ := hctx.object
  obtain ⟨inner', henter', -, hinner'⟩ := hctx'.object
  have hnames : (ms.map Prod.fst).Perm (others.map Prod.fst) := by
    rw [map_eq_of_forall₂ hms fun _ _ hm => hm.1]
    exact hmid.perm.map Prod.fst
  simp only [object_iff h.strict, henter, henter', Except.ok.injEq, exists_eq_left',
    hnames.nodup_iff, hnames.mem_iff]
  refine Steady.exists_entries h.steady_change hms hmid hinner hinner' ?_
  intro ms cs cs' hcs hsame hp
  rw [← h.changed_eq hcs hsame]
  exact hp

/-- values that match are read to the same -/
theorem readValues_steady {fs : List (Field σ)} (h : ∀ f ∈ fs, Steady f.read)
    {nodes others : List Node} (hmatch : List.Forall₂ Matches nodes others) {ctx ctx' : Context}
    (hctx : ∀ v ∈ nodes, ctx.Admits v) (hctx' : ∀ v ∈ others, ctx'.Admits v)
    {total total' i i' : Nat} {s t : σ} :
    r.readValues ctx total i s fs nodes = .ok t ↔
      r.readValues ctx' total' i' s fs others = .ok t := by
  have htooMany : ∀ ctx total, ¬ r.tooMany ctx total = Except.ok t := by
    intro ctx total
    unfold tooMany
    split <;> exact fun h => nomatch h
  induction fs generalizing nodes others i i' s with
  | nil =>
    cases hmatch with
    | nil => simp only [readValues]
    | cons hv hrest => simp only [readValues, htooMany]
  | cons f fs ih =>
    rw [List.forall_mem_cons] at h
    cases hmatch with
    | nil =>
      have hrest := @ih h.2 [] [] .nil hctx hctx' (i + 1) (i' + 1) s
      by_cases hrequired : f.name ∈ r.required
      · simp [readValues, hrequired, Context.refuse]
      · simp only [readValues, hrequired, if_false, hrest]
    | @cons v w nodes others hv hmatch =>
      rw [List.forall_mem_cons] at hctx hctx'
      have hfirst := h.1 v w hv (ctx.item i) (ctx'.item i') hctx.1 hctx'.1
      have hrest := fun s => @ih h.2 nodes others hmatch hctx.2 hctx'.2 (i + 1) (i' + 1) s
      simp only [readValues, bind_ok_iff, hfirst, hrest]

end Regular

/-- **Records are steady** if their fields are and do not interfere. -/
theorem Regular.decoder_steady (h : r.Regular) : Steady r.decoder := by
  refine Steady.of_parts ?_ ?_ ?_
  · intro ctx node hsequence hmapping s
    cases node with
    | sequence items => exact absurd rfl (hsequence items)
    | mapping members => exact absurd rfl (hmapping members)
    | _ => exact fun h => Decoder.mismatch_not_ok ⟨s, h⟩
  · intro items others hitems ctx ctx' hctx hctx' s
    obtain ⟨inner, henter, -, hinner⟩ := hctx.sequence
    obtain ⟨inner', henter', -, hinner'⟩ := hctx'.sequence
    simp only [decoder, henter, henter', bind, Except.bind]
    exact readValues_steady h.steady hitems hinner hinner'
  · intro ms mid others hms hmid ctx ctx' hctx hctx' s
    exact h.object_steady hms hmid hctx hctx' s

/-! ## Values in order -/

theorem map_fst_zip_take {α β : Type} (as : List α) (bs : List β) :
    (as.zip bs).map Prod.fst = as.take bs.length := by
  induction as generalizing bs with
  | nil => simp
  | cons a as ih =>
    cases bs with
    | nil => simp
    | cons b bs => simp [ih]

namespace Regular

theorem change_eq (h : r.Regular) {f : Field σ} (hf : f ∈ r.fields) : r.change f.name = f.read := by
  unfold change
  rw [find?_of_nodup h.nodup hf]

/-- values in order are read like members, as long as no required field is left -/
theorem readValues_iff (h : r.Regular) {fs : List (Field σ)} (hfs : ∀ f ∈ fs, f ∈ r.fields)
    {nodes : List Node} (hself : ∀ v ∈ nodes, v.Matches v) {ctx : Context}
    (hctx : ∀ v ∈ nodes, ctx.Admits v) (hlength : nodes.length ≤ fs.length) {total i : Nat}
    {s t : σ} :
    r.readValues ctx total i s fs nodes = .ok t ↔
      (∀ f ∈ fs.drop nodes.length, f.name ∉ r.required) ∧
        ∃ cs, List.Forall₂ (Decoder.Entry r.change ctx) ((fs.map Field.name).zip nodes) cs ∧
          t = changed s cs := by
  -- on the fields: values run out at some field, and from there on none may be required
  induction fs generalizing nodes i s with
  | nil =>
    obtain rfl : nodes = [] := List.eq_nil_of_length_eq_zero (Nat.le_zero.mp hlength)
    simp [readValues, changed, eq_comm]
  | cons f fs ih =>
    rw [List.forall_mem_cons] at hfs
    cases nodes with
    | nil =>
      have hrest := @ih hfs.2 [] hself hctx (Nat.zero_le _) (i + 1) s
      by_cases hrequired : f.name ∈ r.required
      · simp [readValues, hrequired, Context.refuse]
      · simp only [readValues, hrequired, if_false, hrest]
        simp [hrequired]
    | cons v nodes =>
      rw [List.forall_mem_cons] at hself hctx
      have hfirst : ∀ c, f.read (ctx.item i) v = .ok c ↔
          r.change f.name (ctx.member f.name) v = .ok c := by
        rw [h.change_eq hfs.1]
        exact h.steady f hfs.1 v v hself.1 (ctx.item i) (ctx.member f.name) hctx.1 hctx.1
      have hrest := fun s =>
        @ih hfs.2 nodes hself.2 hctx.2 (Nat.le_of_succ_le_succ hlength) (i + 1) s
      rw [List.map_cons, List.zip_cons_cons, Decoder.entries_cons_iff]
      simp only [readValues, bind_ok_iff, hfirst, hrest, List.length_cons, List.drop_succ_cons]
      constructor
      · rintro ⟨c, hc, hleft, cs, hcs, rfl⟩
        exact ⟨hleft, c, hc, cs, hcs, rfl⟩
      · rintro ⟨hleft, c, hc, cs, hcs, rfl⟩
        exact ⟨c, hc, hleft, cs, hcs, rfl⟩

/-- **Values in order.** The values of leading fields decode like an object that gives these fields
the same values. -/
theorem sequence_iff (h : r.Regular) {nodes : List Node} (hself : ∀ v ∈ nodes, v.Matches v)
    (hlength : nodes.length ≤ r.fields.length) {ctx : Context}
    (hctx : ctx.Admits (.sequence nodes)) {t : σ} :
    r.decoder ctx (.sequence nodes) = .ok t ↔
      r.decoder ctx (.object (r.names.zip nodes)) = .ok t := by
  obtain ⟨inner, henter, -, hinner⟩ := hctx.sequence
  have hnames := map_fst_zip_take r.names nodes
  have hrequired : (∀ f ∈ r.fields.drop nodes.length, f.name ∉ r.required) ↔
      ∀ k ∈ r.required, k ∈ r.names.take nodes.length := by
    have hdrop : ∀ f ∈ r.fields.drop nodes.length, f.name ∈ r.names.drop nodes.length := by
      intro f hf
      rw [names, ← List.map_drop]
      exact List.mem_map_of_mem hf
    constructor
    · intro hleft k hk
      have hmem := h.required k hk
      rw [← List.take_append_drop nodes.length r.names, List.mem_append] at hmem
      refine hmem.resolve_right fun hlate => ?_
      rw [names, ← List.map_drop] at hlate
      obtain ⟨f, hf, rfl⟩ := List.mem_map.mp hlate
      exact hleft f hf hk
    · intro hall f hf hk
      exact List.disjoint_take_drop h.nodup (Nat.le_refl _) (hall f.name hk) (hdrop f hf)
  have hvalues := @readValues_iff _ _ h r.fields (fun _ hf => hf) nodes hself inner hinner hlength
    nodes.length 0 r.blank t
  rw [object_iff h.strict]
  simp only [decoder, henter, bind, Except.bind, Except.ok.injEq, exists_eq_left', hvalues, hnames,
    hrequired]
  have hnodup := h.nodup.sublist (List.take_sublist nodes.length r.names)
  constructor
  · rintro ⟨hall, cs, hcs, rfl⟩
    exact ⟨cs, hcs, hnodup, hall, rfl⟩
  · rintro ⟨cs, hcs, -, hall, rfl⟩
    exact ⟨hall, cs, hcs, rfl⟩

end Regular

end Record

end ViewDesign
