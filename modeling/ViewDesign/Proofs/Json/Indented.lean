import ViewDesign.Proofs.Json.Spelling

/-!
# Indented texts are read like compact ones

Between the parts of an indented text stand line breaks and blanks, which every reader passes over
before it looks at a character.

* `readValue_blanks`     blanks before a value;
* `readValue_pretty`     an indented value reads as its tree;
* `ofChars_pretty`       so does a whole text.
-/

namespace ViewDesign.Json

/-! ## Blanks -/

/-- Nothing but blanks. -/
def AllBlank (bs : List Char) : Prop := ∀ b ∈ bs, isBlank b = true

theorem allBlank_newLine (level : Nat) : AllBlank (newLine level) := by
  intro b hb
  rcases List.mem_cons.mp hb with rfl | hb
  · decide
  · rw [(List.mem_replicate.mp hb).2]
    decide

theorem skipBlank_append {bs : List Char} (h : AllBlank bs) (cs : List Char) :
    skipBlank (bs ++ cs) = skipBlank cs := by
  induction bs with
  | nil => rfl
  | cons b bs ih =>
    have hb : isBlank b = true := h b (List.mem_cons_self ..)
    rw [List.cons_append, skipBlank, List.dropWhile_cons, hb, if_pos rfl]
    exact ih fun c hc => h c (List.mem_cons_of_mem _ hc)

theorem readValue_blanks {bs : List Char} (h : AllBlank bs) (fuel : Nat) (cs : List Char) :
    readValue fuel (bs ++ cs) = readValue fuel cs := by
  cases fuel with
  | zero => simp only [readValue]
  | succ fuel => simp only [readValue, skipBlank_append h]

theorem readItems_blanks {bs : List Char} (h : AllBlank bs) (fuel : Nat) (cs : List Char) :
    readItems fuel (bs ++ cs) = readItems fuel cs := by
  cases fuel with
  | zero => simp only [readItems]
  | succ fuel => simp only [readItems, readValue_blanks h]

theorem readMembers_blanks {bs : List Char} (h : AllBlank bs) (fuel : Nat) (cs : List Char) :
    readMembers fuel (bs ++ cs) = readMembers fuel cs := by
  cases fuel with
  | zero => simp only [readMembers]
  | succ fuel => simp only [readMembers, readValue_blanks h]

/-! ## Values -/

theorem ends_newLine (level : Nat) (r : List Char) : Ends (newLine level ++ r) :=
  ends_cons (by decide)

theorem ends_moreItems (level : Nat) (vs : List Json) (r : List Char) :
    Ends (prettyMoreItems level vs ++ r) := by
  cases vs with
  | nil => exact ends_newLine level r
  | cons v vs => exact ends_cons (by decide)

theorem ends_moreMembers (level : Nat) (ms : List (String × Json)) (r : List Char) :
    Ends (prettyMoreMembers level ms ++ r) := by
  cases ms with
  | nil => exact ends_newLine level r
  | cons m ms => exact ends_cons (by decide)

section
variable {node : Number → Node}

/-- the head of the text of a value, which is no blank and no closing bracket -/
theorem prettyChars_head (level : Nat) (v : Json) (h : v.EachNumber (Spelled Number.text node)) :
    ∃ c r, prettyChars level v = c :: r ∧ isBlank c = false ∧ c ≠ ']' := by
  cases v with
  | null => exact ⟨_, _, rfl, by decide, by decide⟩
  | bool b => cases b <;> exact ⟨_, _, rfl, by decide, by decide⟩
  | num n =>
    simp only [EachNumber] at h
    simpa only [prettyChars] using h.head
  | str s => exact ⟨_, _, by rw [prettyChars, quoted], by decide, by decide⟩
  | arr items => exact ⟨_, _, by rw [prettyChars], by decide, by decide⟩
  | obj members => exact ⟨_, _, by rw [prettyChars], by decide, by decide⟩

/-- an array whose text does not close at once -/
theorem readValue_bracket {fuel : Nat} {bs cs : List Char} {c : Char} (hbs : AllBlank bs)
    (hb : isBlank c = false) (hc : c ≠ ']') :
    readValue (fuel + 1) ('[' :: (bs ++ c :: cs)) =
      (.sequence (readItems fuel (c :: cs)).1, (readItems fuel (c :: cs)).2) := by
  rw [readValue, skipBlank_cons _ (by decide)]
  simp only [skipBlank_append hbs, skipBlank_cons _ hb]
  split
  · rename_i heq
    cases heq
    exact absurd rfl hc
  · rfl

theorem readValue_brace {fuel : Nat} {bs : List Char} (hbs : AllBlank bs) (k : String)
    (cs : List Char) :
    readValue (fuel + 1) ('\x7b' :: (bs ++ (quoted k ++ cs))) =
      (.mapping (readMembers fuel (quoted k ++ cs)).1, (readMembers fuel (quoted k ++ cs)).2) := by
  have hq : quoted k ++ cs = '"' :: (k.toList.flatMap escapeChar ++ '"' :: cs) := by
    simp [quoted]
  rw [readValue, skipBlank_cons _ (by decide)]
  simp only [skipBlank_append hbs, hq, skipBlank_cons _ (show isBlank '"' = false by decide)]
  rfl

mutual

/-- an indented value reads as its tree, and the text after it is left -/
theorem readValue_pretty (level : Nat) (v : Json) (h : v.EachNumber (Spelled Number.text node))
    (fuel : Nat) (rest : List Char) (hfuel : 2 * (prettyChars level v).length ≤ fuel)
    (hrest : Ends rest) :
    readValue fuel (prettyChars level v ++ rest) = (written node v, some rest) := by
  obtain ⟨c, r, hcr, -⟩ := prettyChars_head level v h
  obtain ⟨f, rfl⟩ : ∃ f, fuel = f + 1 := ⟨fuel - 1, by rw [hcr] at hfuel; simp at hfuel; omega⟩
  cases v with
  | null => rfl
  | bool b => cases b <;> rfl
  | num n =>
    simp only [EachNumber] at h
    simp only [prettyChars, written]
    exact h.reads f rest hrest
  | str s =>
    simp only [prettyChars, written]
    exact readValue_quoted f s rest
  | arr items =>
    cases items with
    | nil => rfl
    | cons v vs =>
      simp only [EachNumber] at h
      simp only [prettyChars, prettyItems, List.length_cons, List.length_append,
        List.length_nil] at hfuel
      have hi := readItems_pretty level v vs h f rest (by omega)
      obtain ⟨c, r, hcr, hb, hne⟩ := prettyChars_head (level + 1) v h.1
      have ht : prettyChars level (.arr (v :: vs)) ++ rest = '[' :: (newLine (level + 1) ++
          (prettyChars (level + 1) v ++ (prettyMoreItems level vs ++ ']' :: rest))) := by
        simp [prettyChars, prettyItems]
      rw [hcr] at hi ht
      rw [ht]
      simp only [List.cons_append] at hi ⊢
      rw [readValue_bracket (allBlank_newLine _) hb hne, hi]
      rfl
  | obj members =>
    cases members with
    | nil => rfl
    | cons m ms =>
      obtain ⟨k, v⟩ := m
      simp only [EachNumber] at h
      simp only [prettyChars, prettyMembers, List.length_cons, List.length_append,
        List.length_nil] at hfuel
      have hm := readMembers_pretty level k v ms h f rest (by omega)
      have ht : prettyChars level (.obj ((k, v) :: ms)) ++ rest = '\x7b' :: (newLine (level + 1) ++
          (quoted k ++ ':' :: ' ' :: (prettyChars (level + 1) v ++
            (prettyMoreMembers level ms ++ '\x7d' :: rest)))) := by
        simp [prettyChars, prettyMembers]
      rw [ht, readValue_brace (allBlank_newLine _), hm]
      rfl
termination_by fuel

/-- indented elements up to the closing bracket -/
theorem readItems_pretty (level : Nat) (v : Json) (vs : List Json)
    (h : EachNumberIn (Spelled Number.text node) (v :: vs)) (fuel : Nat) (rest : List Char)
    (hfuel :
      2 * ((prettyChars (level + 1) v).length + (prettyMoreItems level vs).length) + 1 ≤ fuel) :
    readItems fuel (prettyChars (level + 1) v ++ (prettyMoreItems level vs ++ ']' :: rest)) =
      (writtenItems node (v :: vs), some rest) := by
  obtain ⟨f, rfl⟩ : ∃ f, fuel = f + 1 := ⟨fuel - 1, by omega⟩
  obtain ⟨hv, hvs⟩ := h
  rw [readItems, readValue_pretty (level + 1) v hv f _ (by omega) (ends_moreItems level vs _)]
  cases vs with
  | nil =>
    simp only [prettyMoreItems, skipBlank_append (allBlank_newLine level),
      skipBlank_cons _ (show isBlank ']' = false by decide)]
    rfl
  | cons w ws =>
    simp only [prettyMoreItems, List.length_cons, List.length_append] at hfuel
    have ih := readItems_pretty level w ws hvs f rest (by omega)
    rw [← readItems_blanks (allBlank_newLine (level + 1))] at ih
    simp only [prettyMoreItems, List.cons_append, List.append_assoc,
      skipBlank_cons _ (show isBlank ',' = false by decide), ih]
    rfl
termination_by fuel

/-- indented members up to the closing brace -/
theorem readMembers_pretty (level : Nat) (k : String) (v : Json) (ms : List (String × Json))
    (h : EachNumberOf (Spelled Number.text node) ((k, v) :: ms)) (fuel : Nat) (rest : List Char)
    (hfuel : 2 * ((quoted k).length + (prettyChars (level + 1) v).length +
      (prettyMoreMembers level ms).length) + 1 ≤ fuel) :
    readMembers fuel (quoted k ++ ':' :: ' ' :: (prettyChars (level + 1) v ++
      (prettyMoreMembers level ms ++ '\x7d' :: rest))) =
        (writtenMembers node ((k, v) :: ms), some rest) := by
  obtain ⟨hv, hms⟩ := h
  have hlength : 2 ≤ (quoted k).length := by simp [quoted]
  obtain ⟨f, rfl⟩ : ∃ f, fuel = f + 2 := ⟨fuel - 2, by omega⟩
  have hblank : AllBlank [' '] := by
    intro b hb
    rw [List.mem_singleton.mp hb]
    decide
  have hvalue := readValue_pretty (level + 1) v hv (f + 1) _ (by omega)
    (ends_moreMembers level ms ('\x7d' :: rest))
  rw [← readValue_blanks hblank] at hvalue
  rw [readMembers_cons]
  simp only [List.singleton_append] at hvalue
  rw [hvalue]
  cases ms with
  | nil =>
    simp only [prettyMoreMembers, skipBlank_append (allBlank_newLine level),
      skipBlank_cons _ (show isBlank '\x7d' = false by decide)]
    rfl
  | cons m ms =>
    obtain ⟨k', v'⟩ := m
    simp only [prettyMoreMembers, List.length_cons, List.length_append] at hfuel
    have ih := readMembers_pretty level k' v' ms hms (f + 1) rest (by omega)
    rw [← readMembers_blanks (allBlank_newLine (level + 1))] at ih
    simp only [prettyMoreMembers, List.cons_append, List.append_assoc,
      skipBlank_cons _ (show isBlank ',' = false by decide), ih]
    rfl
termination_by fuel

end

/-- the indented text of a value reads as its tree, and nothing is left -/
theorem ofChars_pretty (v : Json) (h : v.EachNumber (Spelled Number.text node)) :
    Source.ofChars (prettyChars 0 v) = ⟨written node v, true⟩ := by
  have hr := readValue_pretty 0 v h (2 * (prettyChars 0 v).length + 1) [] (by omega) ends_nil
  rw [List.append_nil] at hr
  rw [Source.ofChars, hr]
  rfl

end

end ViewDesign.Json
