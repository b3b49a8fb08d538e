/-!
# Maps from names, in ascending order of the names

Names are compared code point by code point, which is the order of their UTF-8 bytes.  Writing a
name that is present replaces its entry, so of repeated writes the last one stays.

* `Entries.insert`        writes one entry into an ascending list;
* `NameMap`               a list of entries together with the proof that it is ascending;
* `NameMap.get?_insert`   reading after writing.
-/

namespace ViewDesign

/-! ## Ascending lists of entries -/

namespace Entries

variable {α : Type}

/-- Writes an entry, before the first greater name and in place of an equal one. -/
def insert (name : String) (a : α) : List (String × α) → List (String × α)
  | [] => [(name, a)]
  | (k, b) :: rest =>
    if name < k then (name, a) :: (k, b) :: rest
    else if name = k then (name, a) :: rest
    else (k, b) :: insert name a rest

/-- The entry written under a name. -/
def get? (name : String) : List (String × α) → Option α
  | [] => none
  | (k, b) :: rest => if name = k then some b else get? name rest

/-- All entries written one after the other. -/
def ofList (entries : List (String × α)) : List (String × α) :=
  entries.foldl (fun done e => insert e.1 e.2 done) []

/-- Every name is below all later ones. -/
def Ascending (entries : List (String × α)) : Prop :=
  entries.Pairwise fun x y => x.1 < y.1

theorem mem_names_insert {name k : String} {a : α} {entries : List (String × α)} :
    k ∈ (insert name a entries).map Prod.fst ↔ k = name ∨ k ∈ entries.map Prod.fst := by
  induction entries with
  | nil => simp [insert]
  | cons e rest ih =>
    obtain ⟨j, b⟩ := e
    simp only [insert]
    split
    · simp
    · split
      · rename_i h; subst h; simp
      · simp only [List.map_cons, List.mem_cons, ih]
        constructor
        · rintro (h | h | h) <;> simp [h]
        · rintro (h | h | h) <;> simp [h]

theorem ascending_insert (name : String) (a : α) {entries : List (String × α)}
    (h : Ascending entries) : Ascending (insert name a entries) := by
  induction entries with
  | nil => simp [insert, Ascending]
  | cons e rest ih =>
    obtain ⟨k, b⟩ := e
    obtain ⟨hk, hrest⟩ := List.pairwise_cons.1 h
    simp only [insert]
    split
    · rename_i hlt
      refine List.pairwise_cons.2 ⟨?_, h⟩
      intro y hy
      rcases List.mem_cons.1 hy with rfl | hy
      · exact hlt
      · exact String.lt_trans hlt (hk y hy)
    · rename_i hnlt
      split
      · rename_i heq
        subst heq
        exact List.pairwise_cons.2 ⟨hk, hrest⟩
      · rename_i hne
        refine List.pairwise_cons.2 ⟨?_, ih hrest⟩
        intro y hy
        have hm : y.1 ∈ (insert name a rest).map Prod.fst := List.mem_map_of_mem hy
        rcases mem_names_insert.1 hm with h1 | h1
        · rw [h1]
          exact Std.lt_of_le_of_ne (Std.not_lt.1 hnlt) (fun h => hne h.symm)
        · obtain ⟨z, hz, hzy⟩ := List.mem_map.1 h1
          rw [← hzy]
          exact hk z hz

theorem get?_insert (name k : String) (a : α) (entries : List (String × α))
    (h : Ascending entries) :
    get? k (insert name a entries) = if k = name then some a else get? k entries := by
  induction entries with
  | nil => simp [insert, get?]
  | cons e rest ih =>
    obtain ⟨j, b⟩ := e
    obtain ⟨hj, hrest⟩ := List.pairwise_cons.1 h
    simp only [insert]
    split
    · simp [get?]
    · split
      · rename_i heq
        subst heq
        simp only [get?]
        split <;> simp_all
      · rename_i hne
        simp only [get?, ih hrest]
        by_cases hkj : k = j
        · subst hkj
          simp [Ne.symm hne]
        · simp [hkj]

end Entries

/-! ## The map -/

/-- A map from names, listed in ascending order. -/
structure NameMap (α : Type) where
  entries : List (String × α)
  ascending : Entries.Ascending entries

namespace NameMap

variable {α : Type}

/-- The map without entries. -/
def empty : NameMap α := ⟨[], List.Pairwise.nil⟩

instance : Inhabited (NameMap α) := ⟨empty⟩

/-- Writes one entry. -/
def insert (m : NameMap α) (name : String) (a : α) : NameMap α :=
  ⟨Entries.insert name a m.entries, Entries.ascending_insert name a m.ascending⟩

/-- The entry of a name. -/
def get? (m : NameMap α) (name : String) : Option α := Entries.get? name m.entries

/-- The names, ascending. -/
def names (m : NameMap α) : List String := m.entries.map Prod.fst

/-- The number of entries. -/
def size (m : NameMap α) : Nat := m.entries.length

end NameMap

end ViewDesign
