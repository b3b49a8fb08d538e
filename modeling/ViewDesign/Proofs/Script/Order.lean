import Mathlib.Data.List.Nodup
import ViewDesign.Proofs.Entries
import ViewDesign.Script.Member

/-!
# The order of members

Members stay in the order in which they were made.  They are visited in another order, in which the
positions come first, but none is left out and none comes twice.

* `Entries.put_last`, `Entries.get?_put`    writing one entry;
* `Entries.made_of_nodup`                   entries of different names stay as they are;
* `Entries.get?_made`                       of several entries of a name the last one stays;
* `perm_visited`                            all names are visited;
* `perm_visitedEntries`                     and all entries.
-/

namespace ViewDesign

/-! ## Entries in the order in which they were made -/

namespace Entries

variable {α : Type}

/-- another name is passed by -/
theorem put_later {name k : String} (h : name ≠ k) (a b : α) (rest : List (String × α)) :
    put name a ((k, b) :: rest) = (k, b) :: put name a rest := by
  rw [put, if_neg h]

theorem put_same (name : String) (a b : α) (rest : List (String × α)) :
    put name a ((name, b) :: rest) = (name, a) :: rest := by
  rw [put, if_pos rfl]

/-- a new name goes to the end -/
theorem put_last {name : String} {a : α} {done : List (String × α)}
    (h : name ∉ done.map Prod.fst) : put name a done = done ++ [(name, a)] := by
  induction done with
  | nil => rfl
  | cons e done ih =>
    rw [List.map_cons, List.mem_cons, not_or] at h
    rw [put_later h.1, ih h.2]
    rfl

theorem get?_put (name k : String) (a : α) (es : List (String × α)) :
    get? k (put name a es) = if k = name then some a else get? k es := by
  induction es with
  | nil => rfl
  | cons e es ih =>
    obtain ⟨j, b⟩ := e
    by_cases hj : name = j
    · subst hj
      rw [put_same, get?, get?]
      split <;> rfl
    · rw [put_later hj, get?, get?, ih]
      split
      · rename_i hk
        subst hk
        rw [if_neg (Ne.symm hj)]
      · rfl

theorem mem_names_put {name k : String} {a : α} {es : List (String × α)} :
    k ∈ (put name a es).map Prod.fst ↔ k = name ∨ k ∈ es.map Prod.fst := by
  rw [← not_iff_not, ← get?_eq_none_iff, get?_put, not_or, ← get?_eq_none_iff]
  split <;> simp [*]

theorem nodup_put {name : String} {a : α} {es : List (String × α)} (h : (es.map Prod.fst).Nodup) :
    ((put name a es).map Prod.fst).Nodup := by
  induction es with
  | nil => simp [put]
  | cons e es ih =>
    obtain ⟨k, b⟩ := e
    rw [List.map_cons, List.nodup_cons] at h
    by_cases hk : name = k
    · subst hk
      rw [put_same, List.map_cons, List.nodup_cons]
      exact h
    · rw [put_later hk, List.map_cons, List.nodup_cons, mem_names_put, not_or]
      exact ⟨⟨Ne.symm hk, h.1⟩, ih h.2⟩

theorem nodup_made (es : List (String × α)) : ((made es).map Prod.fst).Nodup := by
  suffices hall : ∀ done : List (String × α), (done.map Prod.fst).Nodup →
      ((es.foldl (fun done e => put e.1 e.2 done) done).map Prod.fst).Nodup from
    hall [] List.nodup_nil
  induction es with
  | nil => exact fun _ h => h
  | cons e es ih => exact fun done h => ih _ (nodup_put h)

/-- entries of different names stay as they are -/
theorem made_of_nodup {es : List (String × α)} (h : (es.map Prod.fst).Nodup) : made es = es := by
  suffices hall : ∀ done : List (String × α), ((done ++ es).map Prod.fst).Nodup →
      es.foldl (fun done e => put e.1 e.2 done) done = done ++ es from hall [] h
  clear h
  induction es with
  | nil => exact fun done _ => (List.append_nil done).symm
  | cons e es ih =>
    intro done h
    have hnew : e.1 ∉ done.map Prod.fst := by
      rw [(List.perm_middle.map Prod.fst).nodup_iff, List.map_cons, List.nodup_cons,
        List.map_append] at h
      exact fun hmem => h.1 (List.mem_append_left _ hmem)
    rw [List.foldl_cons, put_last hnew, ih (done ++ [e]) (by simpa using h), List.append_assoc]
    rfl

/-- of several entries of a name the last one stays -/
theorem get?_made (name : String) (es : List (String × α)) :
    get? name (made es) = get? name es.reverse := by
  suffices hall : ∀ done : List (String × α),
      get? name (es.foldl (fun done e => put e.1 e.2 done) done) =
        (get? name es.reverse).or (get? name done) by
    rw [made, hall, get?, Option.or_none]
  induction es with
  | nil => exact fun _ => rfl
  | cons e es ih =>
    intro done
    rw [List.foldl_cons, ih, get?_put, List.reverse_cons, get?_append, Option.or_assoc]
    congr 1
    simp only [get?]
    split <;> rfl

theorem mem_names_made {name : String} {es : List (String × α)} :
    name ∈ (made es).map Prod.fst ↔ name ∈ es.map Prod.fst := by
  rw [← isSome_get?, get?_made, isSome_get?, List.map_reverse, List.mem_reverse]

end Entries

namespace Script

/-! ## Visiting -/

theorem perm_place (name : String) (names : List String) :
    (place name names).Perm (name :: names) := by
  induction names with
  | nil => exact .refl _
  | cons k names ih =>
    rw [place]
    split
    · exact (ih.cons k).trans (.swap name k names)
    · exact .refl _

/-- all names are visited, and none comes twice -/
theorem perm_visited (names : List String) : (visited names).Perm names := by
  induction names with
  | nil => exact .refl _
  | cons name names ih => exact (perm_place name (visited names)).trans (ih.cons name)

section
variable {α : Type}

/-- Entries in the order in which they are visited, the last one of each name. -/
def visitedEntries (es : List (String × α)) : List (String × α) :=
  (visited ((Entries.made es).map Prod.fst)).filterMap fun name =>
    (Entries.get? name (Entries.made es)).map fun a => (name, a)

/-- all entries are visited -/
theorem perm_visitedEntries (es : List (String × α)) :
    (visitedEntries es).Perm (Entries.made es) := by
  have hfound : ∀ e ∈ Entries.made es,
      ((Entries.get? e.1 (Entries.made es)).map fun a => (e.1, a)) = some e := by
    intro e he
    rw [(Entries.get?_eq_some_iff_of_nodup (Entries.nodup_made es)).mpr he]
    rfl
  have hmade : ((Entries.made es).map Prod.fst).filterMap (fun name =>
      (Entries.get? name (Entries.made es)).map fun a => (name, a)) = Entries.made es := by
    rw [List.filterMap_map]
    exact (List.filterMap_congr hfound).trans List.filterMap_some
  exact hmade ▸ (perm_visited _).filterMap _

/-- the entries by a function that has found them all -/
theorem visitedEntries_eq (es : List (String × α)) {f : String → α}
    (hf : ∀ name a, Entries.get? name (Entries.made es) = some a → f name = a) :
    visitedEntries es =
      (visited ((Entries.made es).map Prod.fst)).map fun name => (name, f name) := by
  refine .trans (List.filterMap_congr fun name hname => ?_) (congrFun List.filterMap_eq_map _)
  have hmem := (perm_visited _).mem_iff.mp hname
  obtain ⟨a, ha⟩ := Option.isSome_iff_exists.mp (Entries.isSome_get?.mpr hmem)
  rw [ha, Function.comp_apply, hf name a ha]
  rfl

end

end Script

end ViewDesign
