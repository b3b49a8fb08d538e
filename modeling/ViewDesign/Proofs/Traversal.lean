import Mathlib.Data.List.Forall2

/-!
# Going through a list with something that may fail

A computation that may fail is run on the elements of a list one after the other, up to the first
failure.  Where it succeeds, its results stand along the elements, so the rest follows from what
holds of lists along each other.

* `exists_forall₂_iff`    a list has another one along it if each of its elements has a counterpart;
* `mapM_some_iff`         the results stand along the elements;
* `toOption_mapM`         failures may be told apart or not;
* `mapM_ok_iff`           the results again, where they are told apart;
* `mapM_error_iff`        the failure is that of the first element that fails.
-/

namespace ViewDesign

/-! ## Results -/

section
variable {ε ε' α β : Type} {x : Except ε α}

theorem bind_ok_iff {f : α → Except ε β} {b : β} :
    (x >>= f) = .ok b ↔ ∃ a, x = .ok a ∧ f a = .ok b := by
  cases x with
  | error e =>
    constructor
    · rintro ⟨⟩
    · rintro ⟨_, ⟨⟩, _⟩
  | ok a =>
    constructor
    · exact fun h => ⟨a, rfl, h⟩
    · rintro ⟨_, ⟨⟩, h⟩
      exact h

theorem exists_ok_bind {f : α → Except ε β} :
    (∃ b, (x >>= f) = .ok b) ↔ ∃ a, x = .ok a ∧ ∃ b, f a = .ok b := by
  simp only [bind_ok_iff]
  rw [exists_comm]
  simp only [exists_and_left]

theorem map_ok_iff {f : α → β} {b : β} : x.map f = .ok b ↔ ∃ a, x = .ok a ∧ f a = b := by
  cases x <;> simp [Except.map]

theorem exists_ok_map {f : α → β} : (∃ b, x.map f = .ok b) ↔ ∃ a, x = .ok a := by
  simp only [map_ok_iff]
  rw [exists_comm]
  simp

theorem ok_iff_toOption {a : α} : x = .ok a ↔ x.toOption = some a := by
  cases x <;> simp [Except.toOption]

theorem toOption_bind (x : Except ε α) (f : α → Except ε β) :
    (x >>= f).toOption = x.toOption.bind fun a => (f a).toOption := by
  cases x <;> rfl

theorem toOption_map (x : Except ε α) (f : α → β) : (x.map f).toOption = x.toOption.map f := by
  cases x <;> rfl

theorem toOption_mapError (f : ε → ε') (x : Except ε α) :
    (x.mapError f).toOption = x.toOption := by
  cases x <;> rfl

end

/-! ## Lists along each other -/

section
variable {α β γ : Type} {R : α → β → Prop} {as : List α} {bs : List β}

/-- every element of a list has its counterpart in the other -/
theorem exists_of_forall₂ (h : List.Forall₂ R as bs) {a : α} (ha : a ∈ as) :
    ∃ b ∈ bs, R a b := by
  induction h with
  | nil => cases ha
  | cons hfirst _ ih =>
    rcases List.mem_cons.mp ha with rfl | ha
    · exact ⟨_, List.mem_cons_self .., hfirst⟩
    · obtain ⟨b, hb, hab⟩ := ih ha
      exact ⟨b, List.mem_cons_of_mem _ hb, hab⟩

theorem exists_forall₂_iff : (∃ bs, List.Forall₂ R as bs) ↔ ∀ a ∈ as, ∃ b, R a b := by
  induction as with
  | nil => simp
  | cons a as ih =>
    rw [List.forall_mem_cons, ← ih]
    simp only [List.forall₂_cons_left_iff]
    constructor
    · rintro ⟨_, b, bs, hb, hbs, rfl⟩
      exact ⟨⟨b, hb⟩, bs, hbs⟩
    · rintro ⟨⟨b, hb⟩, bs, hbs⟩
      exact ⟨b :: bs, b, bs, hb, hbs, rfl⟩

theorem map_eq_of_forall₂ {f : α → γ} {g : β → γ} (h : List.Forall₂ R as bs)
    (hsame : ∀ a b, R a b → f a = g b) : as.map f = bs.map g := by
  rw [← List.forall₂_eq_eq_eq, List.forall₂_map_left_iff, List.forall₂_map_right_iff]
  exact h.imp hsame

end

/-! ## Computations that have a result or none -/

section
variable {α β γ : Type} {f g : α → Option β} {as : List α} {bs : List β}

theorem mapM_some_iff : as.mapM f = some bs ↔ List.Forall₂ (fun a b => f a = some b) as bs := by
  induction as generalizing bs with
  | nil => simp [eq_comm]
  | cons a as ih =>
    rw [List.mapM_cons, List.forall₂_cons_left_iff]
    simp only [Option.bind_eq_bind, Option.bind_eq_some_iff, Option.pure_def, Option.some.injEq,
      ← ih, exists_and_left, eq_comm (b := bs)]

theorem isSome_mapM : (as.mapM f).isSome = true ↔ ∀ a ∈ as, (f a).isSome = true := by
  simp only [Option.isSome_iff_exists, mapM_some_iff, exists_forall₂_iff]

theorem mapM_eq_none {a : α} (ha : a ∈ as) (hf : f a = none) : as.mapM f = none := by
  rw [← Option.not_isSome_iff_eq_none, isSome_mapM]
  intro hall
  simpa [hf] using hall a ha

theorem mapM_eq_map {g : α → β} (h : ∀ a ∈ as, f a = some (g a)) :
    as.mapM f = some (as.map g) :=
  mapM_some_iff.mpr (List.forall₂_map_right_iff.mpr (List.forall₂_same.mpr h))

theorem mapM_map_some (f : α → Option β) (g : β → γ) (as : List α) :
    as.mapM (fun a => (f a).map g) = (as.mapM f).map (List.map g) := by
  induction as with
  | nil => rfl
  | cons a as ih =>
    rw [List.mapM_cons, List.mapM_cons, ih]
    cases f a with
    | none => rfl
    | some b => cases as.mapM f <;> rfl

end

/-! ## Computations that fail in several ways -/

section
variable {ε α β : Type} {f g : α → Except ε β} {as : List α} {bs : List β}

theorem toOption_mapM (f : α → Except ε β) (as : List α) :
    (as.mapM f).toOption = as.mapM fun a => (f a).toOption := by
  induction as with
  | nil => rfl
  | cons a as ih =>
    rw [List.mapM_cons, List.mapM_cons, ← ih]
    cases f a with
    | error e => rfl
    | ok b => cases as.mapM f <;> rfl

theorem mapM_ok_iff : as.mapM f = .ok bs ↔ List.Forall₂ (fun a b => f a = .ok b) as bs := by
  simp only [ok_iff_toOption, toOption_mapM, mapM_some_iff]

theorem exists_mapM_ok_iff : (∃ bs, as.mapM f = .ok bs) ↔ ∀ a ∈ as, ∃ b, f a = .ok b := by
  simp only [mapM_ok_iff, exists_forall₂_iff]

theorem mapM_error_iff {e : ε} :
    as.mapM f = .error e ↔ ∃ before a after, as = before ++ a :: after ∧
      (∃ bs, before.mapM f = .ok bs) ∧ f a = .error e := by
  constructor
  · intro h
    induction as with
    | nil => cases h
    | cons a as ih =>
      rw [List.mapM_cons] at h
      cases ha : f a with
      | error e' =>
        rw [ha] at h
        obtain rfl : e' = e := Except.error.inj h
        exact ⟨[], a, as, rfl, ⟨[], rfl⟩, ha⟩
      | ok b =>
        cases has : as.mapM f with
        | ok bs => rw [ha, has] at h; cases h
        | error e' =>
          rw [ha, has] at h
          obtain rfl : e' = e := Except.error.inj h
          obtain ⟨before, a', after, rfl, ⟨bs, hbefore⟩, ha'⟩ := ih has
          refine ⟨a :: before, a', after, rfl, ⟨b :: bs, ?_⟩, ha'⟩
          rw [List.mapM_cons, ha, hbefore]
          rfl
  · rintro ⟨before, a, after, rfl, ⟨bs, hbefore⟩, ha⟩
    rw [List.mapM_append, hbefore, List.mapM_cons, ha]
    rfl

end

end ViewDesign
