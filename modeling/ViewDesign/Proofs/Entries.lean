import ViewDesign.NameMap
import ViewDesign.Proofs.Traversal

/-!
# Entries that are written one after the other

Entries that are written in ascending order of their names stay as they are.  Those that come in
another order are sorted, and none is lost unless a name comes again.

* `Entries.insert_last`            a greater name goes to the end;
* `Entries.ofList_of_ascending`    entries in order;
* `Entries.get?_ofList`            of several entries of a name the last one stays;
* `Entries.perm_ofList`            entries in any order, no name twice;
* `NameMap.foldl_insert`           a map is rebuilt from its entries.
-/

namespace ViewDesign

namespace Entries

variable {α : Type}

/-- entries along others of the same names: a name has its entry in both or in neither -/
theorem get?_of_forall₂ {β : Type} {R : String × α → String × β → Prop} {as : List (String × α)}
    {bs : List (String × β)} (h : List.Forall₂ R as bs) (hnames : ∀ a b, R a b → a.1 = b.1)
    (name : String) :
    (get? name as = none ∧ get? name bs = none) ∨
      ∃ a b, get? name as = some a ∧ get? name bs = some b ∧ R (name, a) (name, b) := by
  induction h with
  | nil => exact .inl ⟨rfl, rfl⟩
  | @cons a b as bs hfirst _ ih =>
    obtain ⟨k, a⟩ := a
    obtain ⟨j, b⟩ := b
    obtain rfl : k = j := hnames _ _ hfirst
    rw [get?, get?]
    split
    · rename_i heq
      subst heq
      exact .inr ⟨a, b, rfl, rfl, hfirst⟩
    · exact ih

/-- entries are in order if their names are -/
theorem ascending_of_names {es : List (String × α)} (names : List String)
    (h : es.map Prod.fst = names) (hnames : names.Pairwise (· < ·)) : Ascending es := by
  rw [← h] at hnames
  exact List.pairwise_map.mp hnames

/-- entries of the same names are the same if their values are -/
theorem eq_of_names {es es' : List (String × α)} (hnames : es.map Prod.fst = es'.map Prod.fst)
    (h : ∀ name a a', (name, a) ∈ es → (name, a') ∈ es' → a = a') : es = es' := by
  induction es generalizing es' with
  | nil => exact (List.map_eq_nil_iff.mp hnames.symm).symm
  | cons e es ih =>
    obtain ⟨k, a⟩ := e
    cases es' with
    | nil => cases hnames
    | cons e' es' =>
      obtain ⟨k', a'⟩ := e'
      obtain ⟨rfl, hrest⟩ := List.cons.inj hnames
      rw [h k a a' (List.mem_cons_self ..) (List.mem_cons_self ..)]
      exact congrArg _ (ih hrest fun name b b' hb hb' =>
        h name b b' (List.mem_cons_of_mem _ hb) (List.mem_cons_of_mem _ hb'))

/-- a lesser name is passed by -/
theorem insert_later {name k : String} (h : k < name) (a b : α) (rest : List (String × α)) :
    insert name a ((k, b) :: rest) = (k, b) :: insert name a rest := by
  have hnot : ¬ name < k := fun h' => String.lt_irrefl k (String.lt_trans h h')
  have hne : name ≠ k := fun h' => String.lt_irrefl k (h' ▸ h)
  rw [insert, if_neg hnot, if_neg hne]

theorem insert_last {name : String} {a : α} {done : List (String × α)}
    (h : ∀ e ∈ done, e.1 < name) : insert name a done = done ++ [(name, a)] := by
  induction done with
  | nil => rfl
  | cons e done ih =>
    rw [List.forall_mem_cons] at h
    rw [insert_later h.1, ih h.2]
    rfl

theorem foldl_insert_ascending {es done : List (String × α)} (h : Ascending (done ++ es)) :
    es.foldl (fun done e => insert e.1 e.2 done) done = done ++ es := by
  induction es generalizing done with
  | nil => simp
  | cons e es ih =>
    have hlast : ∀ x ∈ done, x.1 < e.1 := by
      intro x hx
      exact (List.pairwise_append.mp h).2.2 x hx e (List.mem_cons_self ..)
    rw [List.foldl_cons, insert_last hlast, ih (by simpa [Ascending] using h)]
    simp

/-- entries in order stay as they are -/
theorem ofList_of_ascending {es : List (String × α)} (h : Ascending es) : ofList es = es := by
  have hall : es.foldl (fun done e => insert e.1 e.2 done) [] = [] ++ es :=
    foldl_insert_ascending (by simpa using h)
  simpa [ofList] using hall

/-- the entry of a name is found if there is one -/
theorem get?_eq_some_iff_of_nodup {es : List (String × α)} (h : (es.map Prod.fst).Nodup)
    {name : String} {a : α} : get? name es = some a ↔ (name, a) ∈ es := by
  induction es with
  | nil => simp [get?]
  | cons e es ih =>
    obtain ⟨k, b⟩ := e
    rw [List.map_cons, List.nodup_cons] at h
    rw [get?, List.mem_cons, Prod.mk.injEq]
    split
    · rename_i heq
      subst heq
      have hnot : (name, a) ∉ es := fun hmem =>
        h.1 (List.mem_map.mpr ⟨_, hmem, rfl⟩)
      simp [hnot, eq_comm]
    · rename_i hne
      simp [hne, ih h.2]

theorem Ascending.nodup_names {es : List (String × α)} (h : Ascending es) :
    (es.map Prod.fst).Nodup := by
  refine (List.pairwise_map.mpr h).imp ?_
  rintro a _ hlt rfl
  exact String.lt_irrefl a hlt

theorem get?_eq_some_iff {es : List (String × α)} (h : Ascending es) {name : String} {a : α} :
    get? name es = some a ↔ (name, a) ∈ es :=
  get?_eq_some_iff_of_nodup h.nodup_names

theorem get?_append (name : String) (es es' : List (String × α)) :
    get? name (es ++ es') = (get? name es).or (get? name es') := by
  induction es with
  | nil => rfl
  | cons e es ih =>
    rw [List.cons_append, get?, get?, ih]
    split <;> rfl

theorem mem_of_get? {name : String} {a : α} {es : List (String × α)} (h : get? name es = some a) :
    (name, a) ∈ es := by
  induction es with
  | nil => cases h
  | cons e es ih =>
    rw [get?] at h
    split at h
    · rename_i heq
      cases heq
      cases h
      exact List.mem_cons_self ..
    · exact List.mem_cons_of_mem _ (ih h)

/-- a name has an entry if it is among the names -/
theorem get?_eq_none_iff {name : String} {es : List (String × α)} :
    get? name es = none ↔ name ∉ es.map Prod.fst := by
  induction es with
  | nil => simp [get?]
  | cons e es ih =>
    rw [get?, List.map_cons, List.mem_cons, not_or, ← ih]
    split <;> simp [*]

theorem isSome_get? {name : String} {es : List (String × α)} :
    (get? name es).isSome = true ↔ name ∈ es.map Prod.fst := by
  rw [Option.isSome_iff_ne_none, ne_eq, get?_eq_none_iff, not_not]

/-! ## Entries in any order -/

/-- a new name comes in, and no entry is lost -/
theorem perm_insert {name : String} {a : α} {es : List (String × α)}
    (h : name ∉ es.map Prod.fst) : (insert name a es).Perm ((name, a) :: es) := by
  induction es with
  | nil => exact .refl _
  | cons e es ih =>
    obtain ⟨k, b⟩ := e
    rw [List.map_cons, List.mem_cons, not_or] at h
    rw [insert]
    split
    · exact .refl _
    · rw [if_neg h.1]
      exact ((ih h.2).cons (k, b)).trans (.swap (name, a) (k, b) es)

theorem ascending_foldl_insert (es : List (String × α)) {done : List (String × α)}
    (h : Ascending done) : Ascending (es.foldl (fun done e => insert e.1 e.2 done) done) := by
  induction es generalizing done with
  | nil => exact h
  | cons e es ih => exact ih (ascending_insert e.1 e.2 h)

theorem ascending_ofList (es : List (String × α)) : Ascending (ofList es) :=
  ascending_foldl_insert es List.Pairwise.nil

theorem perm_foldl_insert {es done : List (String × α)} (h : ((es ++ done).map Prod.fst).Nodup) :
    (es.foldl (fun done e => insert e.1 e.2 done) done).Perm (es ++ done) := by
  induction es generalizing done with
  | nil => exact .refl _
  | cons e es ih =>
    rw [List.cons_append, List.map_cons, List.nodup_cons, List.map_append, List.mem_append,
      not_or] at h
    have hinsert : (insert e.1 e.2 done).Perm (e :: done) := perm_insert h.1.2
    have hmiddle : (es ++ insert e.1 e.2 done).Perm (e :: (es ++ done)) :=
      (hinsert.append_left es).trans List.perm_middle
    have hnames : ((es ++ insert e.1 e.2 done).map Prod.fst).Nodup := by
      rw [(hmiddle.map Prod.fst).nodup_iff, List.map_cons, List.nodup_cons, List.map_append,
        List.mem_append, not_or]
      exact h
    exact (ih hnames).trans hmiddle

theorem get?_foldl_insert (name : String) (es : List (String × α)) {done : List (String × α)}
    (h : Ascending done) :
    get? name (es.foldl (fun done e => insert e.1 e.2 done) done) =
      (get? name es.reverse).or (get? name done) := by
  induction es generalizing done with
  | nil => rfl
  | cons e es ih =>
    rw [List.foldl_cons, ih (ascending_insert e.1 e.2 h), get?_insert _ _ _ _ h, List.reverse_cons,
      get?_append, Option.or_assoc]
    congr 1
    simp only [get?]
    split <;> rfl

/-- of several entries of a name the last one stays -/
theorem get?_ofList (name : String) (es : List (String × α)) :
    get? name (ofList es) = get? name es.reverse := by
  have hnil : Ascending ([] : List (String × α)) := List.Pairwise.nil
  rw [ofList, get?_foldl_insert name es hnil]
  exact Option.or_none

/-- entries are sorted, and none is lost -/
theorem perm_ofList {es : List (String × α)} (h : (es.map Prod.fst).Nodup) :
    (ofList es).Perm es := by
  have hall : (es.foldl (fun done e => insert e.1 e.2 done) []).Perm (es ++ []) :=
    perm_foldl_insert (by rwa [List.append_nil])
  rwa [List.append_nil] at hall

/-- entries in another order end up in theirs -/
theorem ofList_of_perm {es sorted : List (String × α)} (h : es.Perm sorted)
    (hsorted : Ascending sorted) : ofList es = sorted := by
  have hnames : (es.map Prod.fst).Nodup := by
    rw [(h.map Prod.fst).nodup_iff]
    exact hsorted.nodup_names
  refine List.Perm.eq_of_pairwise (fun x y _ _ hxy hyx => ?_) (ascending_ofList es) hsorted
    ((perm_ofList hnames).trans h)
  exact absurd (String.lt_trans hxy hyx) (String.lt_irrefl x.1)

end Entries

namespace NameMap

variable {α : Type}

theorem eq_iff {m m' : NameMap α} : m = m' ↔ m.entries = m'.entries := by
  cases m
  cases m'
  simp

theorem entries_foldl_insert (es : List (String × α)) (done : NameMap α) :
    (es.foldl (fun done e => done.insert e.1 e.2) done).entries =
      es.foldl (fun done e => Entries.insert e.1 e.2 done) done.entries := by
  induction es generalizing done with
  | nil => rfl
  | cons e es ih => exact ih (done.insert e.1 e.2)

/-- writing the entries of a map one after the other gives the map -/
theorem foldl_insert (m : NameMap α) :
    (m.entries.foldl (fun done e => done.insert e.1 e.2) NameMap.empty).entries = m.entries := by
  rw [entries_foldl_insert]
  exact Entries.ofList_of_ascending m.ascending

end NameMap

end ViewDesign
