import ViewDesign.Proofs.Document.Acceptance

/-!
# Objects, member by member

Three decoders take the members of an object one after the other: that of any value, that of a map
from names and that of a record.  Each collects an entry from every member; what they make of the
entries in the end is all in which they differ.

* `Decoder.Entry`                   a member and the entry that is decoded from it;
* `Decoder.free_object_iff`         any value;
* `Decoder.names_object_iff`        a map from names;
* `Record.change`                   what a member does to a record;
* `Record.object_iff`               a record: no name twice, none missing, all changes made.
-/

namespace ViewDesign

open Node

namespace Decoder

variable {α : Type}

/-- An entry is decoded from a member, by a decoder that may depend on the name. -/
def Entry (d : String → Decoder α) (ctx : Context) (m : String × Node) (e : String × α) : Prop :=
  e.1 = m.1 ∧ d m.1 (ctx.member m.1) m.2 = .ok e.2

theorem names_of_entries {d : String → Decoder α} {ctx : Context} {ms : List (String × Node)}
    {es : List (String × α)} (h : List.Forall₂ (Entry d ctx) ms es) :
    es.map Prod.fst = ms.map Prod.fst :=
  (map_eq_of_forall₂ h fun _ _ hentry => hentry.1.symm).symm

/-- entries of several members, the first of them taken off -/
theorem entries_cons_iff {d : String → Decoder α} {ctx : Context} {k : String} {node : Node}
    {ms : List (String × Node)} {p : List (String × α) → Prop} :
    (∃ es, List.Forall₂ (Entry d ctx) ((k, node) :: ms) es ∧ p es) ↔
      ∃ a, d k (ctx.member k) node = .ok a ∧
        ∃ es, List.Forall₂ (Entry d ctx) ms es ∧ p ((k, a) :: es) := by
  simp only [List.forall₂_cons_left_iff]
  constructor
  · rintro ⟨_, ⟨⟨_, a⟩, es, ⟨rfl, ha⟩, hes, rfl⟩, hp⟩
    exact ⟨a, ha, es, hes, hp⟩
  · rintro ⟨a, ha, es, hes, hp⟩
    exact ⟨_, ⟨(k, a), es, ⟨rfl, ha⟩, hes, rfl⟩, hp⟩

/-! ## Values and maps -/

theorem freeMembers_iff {ctx : Context} {ms : List (String × Node)} {vs : List (String × Json)} :
    freeMembers ctx (ms.map named) = .ok vs ↔ List.Forall₂ (Entry (fun _ => free) ctx) ms vs := by
  induction ms generalizing vs with
  | nil => simp [freeMembers, eq_comm]
  | cons m ms ih =>
    obtain ⟨k, node⟩ := m
    have hsplit := @entries_cons_iff _ (fun _ => free) ctx k node ms (· = vs)
    simp only [exists_eq_right] at hsplit
    rw [hsplit]
    simp only [List.map_cons, named, freeMembers, name, bind_ok_iff, ih, pure, Except.pure,
      Except.ok.injEq, exists_eq_left', free]

theorem entries_iff {d : Decoder α} {ctx : Context} {ms : List (String × Node)}
    {done m : NameMap α} :
    entries d ctx done (ms.map named) = .ok m ↔
      ∃ es, List.Forall₂ (Entry (fun _ => d) ctx) ms es ∧
        m = es.foldl (fun done e => done.insert e.1 e.2) done := by
  induction ms generalizing done with
  | nil => simp [entries, eq_comm]
  | cons first ms ih =>
    obtain ⟨k, node⟩ := first
    rw [entries_cons_iff]
    simp only [List.map_cons, named, entries, name, bind_ok_iff, ih, Except.ok.injEq,
      exists_eq_left', List.foldl_cons]

/-- **Any value.** An object is decoded to its entries. -/
theorem free_object_iff {ctx : Context} {ms : List (String × Node)} {v : Json} :
    free ctx (.object ms) = .ok v ↔ ∃ inner, ctx.enter = .ok inner ∧
      ∃ es, List.Forall₂ (Entry (fun _ => free) inner) ms es ∧ v = .object es := by
  have heq : ∀ es, Json.object es = v ↔ v = Json.object es := fun _ => eq_comm
  simp only [free, Node.object, freeNode, bind_ok_iff, freeMembers_iff, pure, Except.pure,
    Except.ok.injEq, heq]

/-- **Maps.** So is a map, whose entries are inserted one after the other. -/
theorem names_object_iff {d : Decoder α} {ctx : Context} {ms : List (String × Node)}
    {m : NameMap α} :
    names d ctx (.object ms) = .ok m ↔ ∃ inner, ctx.enter = .ok inner ∧
      ∃ es, List.Forall₂ (Entry (fun _ => d) inner) ms es ∧ m.entries = Entries.ofList es := by
  simp only [names, Node.object, bind_ok_iff, entries_iff, NameMap.eq_iff,
    NameMap.entries_foldl_insert]
  rfl

end Decoder

/-! ## Records -/

namespace Record

variable {σ : Type} {r : Record σ}

/-- What the value of a member does to a record. -/
def change (r : Record σ) (k : String) : Decoder (σ → σ) := fun ctx node =>
  match r.fields.find? (·.name = k) with
  | some field => field.read ctx node
  | none => ctx.refuse (.unknownField k r.names)

/-- Changes made one after the other. -/
def changed (s : σ) (cs : List (String × (σ → σ))) : σ := cs.foldl (fun s c => c.2 s) s

/-- one member is read: it has a field, and it has not been met -/
theorem readMembers_named_iff (hstrict : r.strict = true) {ctx : Context} {k : String} {node : Node}
    {rest : List (Node × Node)} {seen : List String} {s : σ} {result : List String × σ} :
    r.readMembers ctx seen s (named (k, node) :: rest) = .ok result ↔
      k ∉ seen ∧ ∃ c, r.change k (ctx.member k) node = .ok c ∧
        r.readMembers ctx (k :: seen) (c s) rest = .ok result := by
  simp only [named, readMembers, Decoder.name, bind_ok_iff, hstrict, if_true, Except.ok.injEq,
    exists_eq_left', change]
  cases r.fields.find? (·.name = k) with
  | none => simp [Context.refuse]
  | some f =>
    by_cases hseen : k ∈ seen
    · simp [hseen, Context.refuse]
    · simp [hseen, bind_ok_iff]

/-- members are read one after the other, none of them twice -/
theorem readMembers_iff (hstrict : r.strict = true) {ctx : Context} {ms : List (String × Node)}
    {seen met : List String} {s t : σ} :
    r.readMembers ctx seen s (ms.map named) = .ok (met, t) ↔
      ∃ cs, List.Forall₂ (Decoder.Entry r.change ctx) ms cs ∧
        (ms.map Prod.fst).Nodup ∧ (∀ m ∈ ms, m.1 ∉ seen) ∧
          met = (ms.map Prod.fst).reverse ++ seen ∧ t = changed s cs := by
  induction ms generalizing seen s with
  | nil => simp [readMembers, changed, eq_comm]
  | cons m ms ih =>
    obtain ⟨k, node⟩ := m
    rw [Decoder.entries_cons_iff, List.map_cons, readMembers_named_iff hstrict]
    simp only [ih]
    constructor
    · rintro ⟨hk, c, hc, cs, hcs, hnodup, hseen, rfl, rfl⟩
      simp only [List.mem_cons, not_or] at hseen
      refine ⟨c, hc, cs, hcs, ?_, ?_, by simp, rfl⟩
      · rw [List.map_cons, List.nodup_cons]
        refine ⟨?_, hnodup⟩
        rw [List.mem_map]
        rintro ⟨m, hm, rfl⟩
        exact (hseen m hm).1 rfl
      · rw [List.forall_mem_cons]
        exact ⟨hk, fun m hm => (hseen m hm).2⟩
    · rintro ⟨c, hc, cs, hcs, hnodup, hseen, rfl, rfl⟩
      rw [List.map_cons, List.nodup_cons] at hnodup
      rw [List.forall_mem_cons] at hseen
      refine ⟨hseen.1, c, hc, cs, hcs, hnodup.2, ?_, by simp, rfl⟩
      intro m hm hmem
      rcases List.mem_cons.mp hmem with heq | hmem
      · exact hnodup.1 (List.mem_map.mpr ⟨m, hm, heq⟩)
      · exact hseen.2 m hm hmem

/-- **Records.** A record is decoded from an object in which no name comes twice and none is
missing, by making the changes of all members. -/
theorem object_iff (hstrict : r.strict = true) {ctx : Context} {ms : List (String × Node)} {t : σ} :
    r.decoder ctx (.object ms) = .ok t ↔ ∃ inner, ctx.enter = .ok inner ∧
      ∃ cs, List.Forall₂ (Decoder.Entry r.change inner) ms cs ∧ (ms.map Prod.fst).Nodup ∧
        (∀ k ∈ r.required, k ∈ ms.map Prod.fst) ∧ t = changed r.blank cs := by
  simp only [decoder, Node.object, readMap, bind_ok_iff, Prod.exists, readMembers_iff hstrict,
    List.append_nil]
  refine exists_congr fun inner => and_congr_right fun _ => ?_
  constructor
  · rintro ⟨met, s, ⟨cs, hcs, hnodup, -, rfl, rfl⟩, hresult⟩
    split at hresult
    · cases hresult
    · rename_i hnone
      refine ⟨cs, hcs, hnodup, fun k hk => ?_, (Except.ok.inj hresult).symm⟩
      simpa using List.find?_eq_none.mp hnone k hk
  · rintro ⟨cs, hcs, hnodup, hrequired, rfl⟩
    have hnone : r.required.find? (· ∉ (ms.map Prod.fst).reverse) = none := by
      rw [List.find?_eq_none]
      intro k hk
      simpa using hrequired k hk
    exact ⟨_, _, ⟨cs, hcs, hnodup, by simp, rfl, rfl⟩, by rw [hnone]; rfl⟩

end Record

end ViewDesign
