import ViewDesign.Proofs.Json.Indented

/-!
# Texts are read part by part

A reader that has come to the end of a value has not looked any further, so that it reads the value
in the same way whatever follows, as long as this does not continue a number.

* `Numeral.read?_append`    a number literal, followed by more text;
* `Extends`                 a reader reads the same with more text and more steps;
* `extends_all`             values, elements and members are read so.
-/

/-! ## Number literals -/

namespace ViewDesign.Numeral

open Json

theorem span_digits_append {cs t : List Char} (h : Ends t) :
    (cs ++ t).takeWhile Char.isDigit = cs.takeWhile Char.isDigit ∧
      (cs ++ t).dropWhile Char.isDigit = cs.dropWhile Char.isDigit ++ t := by
  induction cs with
  | nil =>
    cases t with
    | nil => exact ⟨rfl, rfl⟩
    | cons c t => simp [(h c t rfl).1]
  | cons c cs ih => cases hc : c.isDigit <;> simp [hc, ih]

theorem readSign_append {c : Char} {cs t : List Char} :
    readSign (c :: cs ++ t) = ((readSign (c :: cs)).1, (readSign (c :: cs)).2 ++ t) := by
  by_cases hc : c = '-'
  · subst hc
    rfl
  · have hne : ∀ r, readSign (c :: r) = (false, c :: r) :=
      fun r => readSign.eq_2 _ (by rintro _ ⟨⟩; exact hc rfl)
    rw [List.cons_append, hne, hne]
    rfl

theorem readWhole?_append {cs t ds r : List Char} (ht : Ends t) (h : readWhole? cs = some (ds, r)) :
    readWhole? (cs ++ t) = some (ds, r ++ t) := by
  cases cs with
  | nil => cases h
  | cons c cs =>
    obtain ⟨htake, hdrop⟩ := @span_digits_append cs t ht
    by_cases hc : c = '0'
    · subst hc
      simp only [readWhole?, List.cons_append] at h ⊢
      split at h
      · cases h
      · rename_i hhead
        cases h
        rw [if_neg]
        cases r with
        | nil =>
          cases t with
          | nil => exact hhead
          | cons c t => simp [(ht c t rfl).1]
        | cons c r => exact hhead
    · rw [readWhole?.eq_2 _ _ (by rintro rfl; exact hc rfl)] at h
      rw [List.cons_append, readWhole?.eq_2 _ _ (by rintro rfl; exact hc rfl), htake, hdrop]
      split at h
      · rename_i hdigit
        cases h
        rw [if_pos hdigit]
      · cases h

theorem readFraction?_append {cs t r : List Char} {f : Option (List Char)} (ht : Ends t)
    (h : readFraction? cs = some (f, r)) : readFraction? (cs ++ t) = some (f, r ++ t) := by
  cases cs with
  | nil =>
    cases h
    cases t with
    | nil => rfl
    | cons c t =>
      exact readFraction?.eq_2 _ (by rintro _ ⟨⟩; exact (ht _ _ rfl).2.1 rfl)
  | cons c cs =>
    obtain ⟨htake, hdrop⟩ := @span_digits_append cs t ht
    by_cases hc : c = '.'
    · subst hc
      simp only [readFraction?, List.cons_append, htake, hdrop] at h ⊢
      split at h
      · cases h
      · rename_i hdigits
        cases h
        rw [if_neg hdigits]
    · rw [readFraction?.eq_2 _ (by rintro _ ⟨⟩; exact hc rfl)] at h
      cases h
      exact readFraction?.eq_2 _ (by rintro _ ⟨⟩; exact hc rfl)

theorem readExponentSign_append {c : Char} {cs t : List Char} :
    readExponentSign (c :: cs ++ t) =
      ((readExponentSign (c :: cs)).1, (readExponentSign (c :: cs)).2 ++ t) := by
  by_cases hplus : c = '+'
  · subst hplus
    rfl
  · by_cases hminus : c = '-'
    · subst hminus
      rfl
    · have hne : ∀ r, readExponentSign (c :: r) = (false, c :: r) :=
        fun r => readExponentSign.eq_3 _ (by rintro _ ⟨⟩; exact hplus rfl)
          (by rintro _ ⟨⟩; exact hminus rfl)
      rw [List.cons_append, hne, hne]
      rfl

theorem readExponent?_append {cs t r : List Char} {e : Option (Bool × List Char)} (ht : Ends t)
    (h : readExponent? cs = some (e, r)) : readExponent? (cs ++ t) = some (e, r ++ t) := by
  cases cs with
  | nil =>
    cases h
    cases t with
    | nil => rfl
    | cons c t =>
      have hc := (ht c t rfl).2.2
      simp [readExponent?, hc]
  | cons c cs =>
    by_cases hc : c = 'e' ∨ c = 'E'
    · cases cs with
      | nil => simp [readExponent?, hc, readExponentSign] at h
      | cons d cs =>
        have hsign := @readExponentSign_append d cs t
        obtain ⟨htake, hdrop⟩ := @span_digits_append (readExponentSign (d :: cs)).2 t ht
        simp only [readExponent?, hc, if_true] at h
        rw [List.cons_append, readExponent?, if_pos hc, hsign]
        simp only [htake, hdrop]
        split at h
        · cases h
        · rename_i hdigits
          cases h
          rw [if_neg hdigits]
    · simp only [readExponent?, hc, if_false] at h
      cases h
      simp [readExponent?, hc]

theorem read?_append {cs t r : List Char} {n : Numeral} (ht : Ends t)
    (h : read? cs = some (n, r)) : read? (cs ++ t) = some (n, r ++ t) := by
  simp only [read?, Option.bind_eq_bind, Option.bind_eq_some_iff, Prod.exists, Option.pure_def,
    Option.some.injEq] at h
  obtain ⟨ds, r1, hwhole, f, r2, hfraction, e, r3, hexponent, heq⟩ := h
  cases heq
  cases cs with
  | nil => cases hwhole
  | cons c cs =>
    rw [read?, readSign_append]
    simp only [readWhole?_append ht hwhole, readFraction?_append ht hfraction,
      readExponent?_append ht hexponent, Option.bind_eq_bind, Option.bind_some, Option.pure_def]

end ViewDesign.Numeral

namespace ViewDesign.Json

/-! ## Strings and words -/

theorem readPieces?_append {cs r : List Char} {ps : List Piece} (h : readPieces? cs = some (ps, r))
    (t : List Char) : readPieces? (cs ++ t) = some (ps, r ++ t) := by
  fun_induction readPieces? cs generalizing ps r with
  | case1 => cases h
  | case2 rest =>
    cases h
    rfl
  | case3 a b c d rest ih =>
    simp only [Option.bind_eq_bind, Option.bind_eq_some_iff, Option.pure_def,
      Option.some.injEq] at h
    obtain ⟨n, hn, ⟨pieces, rest'⟩, hrest, heq⟩ := h
    cases heq
    simp only [List.cons_append, readPieces?, hn, ih hrest]
    rfl
  | case4 e rest hne ih =>
    simp only [Option.bind_eq_bind, Option.bind_eq_some_iff, Option.pure_def,
      Option.some.injEq] at h
    obtain ⟨n, hn, ⟨pieces, rest'⟩, hrest, heq⟩ := h
    cases heq
    have hu : e ≠ 'u' := by
      rintro rfl
      cases hn
    rw [List.cons_append, List.cons_append,
      readPieces?.eq_4 _ _ fun _ _ _ _ _ heq _ => hu heq]
    simp only [hn, ih hrest]
    rfl
  | case5 c rest h1 h2 h3 hc => cases h
  | case6 c rest h1 h2 h3 hc ih =>
    simp only [Option.bind_eq_bind, Option.bind_eq_some_iff, Option.pure_def,
      Option.some.injEq] at h
    obtain ⟨⟨pieces, rest'⟩, hrest, heq⟩ := h
    cases heq
    rw [not_or] at hc
    rw [List.cons_append, readPieces?.eq_5 _ _ h1 (by rintro _ _ _ _ _ rfl; exact absurd rfl hc.2)
      (by rintro _ _ rfl; exact absurd rfl hc.2), if_neg (by simpa using hc)]
    simp only [ih hrest]
    rfl

theorem readString?_append {cs r : List Char} {s : Option String}
    (h : readString? cs = some (s, r)) (t : List Char) :
    readString? (cs ++ t) = some (s, r ++ t) := by
  obtain ⟨⟨ps, r'⟩, hps, heq⟩ := Option.map_eq_some_iff.mp h
  cases heq
  rw [readString?, readPieces?_append hps]
  rfl

theorem afterWord?_append {word cs r : List Char} (h : afterWord? word cs = some r)
    (t : List Char) : afterWord? word (cs ++ t) = some (r ++ t) := by
  induction word generalizing cs with
  | nil =>
    cases h
    rfl
  | cons w word ih =>
    cases cs with
    | nil => cases h
    | cons c cs =>
      simp only [afterWord?, List.cons_append] at h ⊢
      split at h
      · rename_i hw
        rw [if_pos hw, ih h]
      · cases h

theorem readWord_append {word cs r : List Char} {node v : Node}
    (h : readWord word node cs = (v, some r)) (t : List Char) :
    readWord word node (cs ++ t) = (v, some (r ++ t)) := by
  unfold readWord at h ⊢
  split at h
  · rename_i rest hrest
    cases h
    rw [afterWord?_append hrest]
  · cases h

theorem readNumeral_append {cs r t : List Char} {v : Node} (ht : Ends t)
    (h : readNumeral cs = (v, some r)) : readNumeral (cs ++ t) = (v, some (r ++ t)) := by
  unfold readNumeral at h ⊢
  split at h
  · rename_i n rest hn
    cases h
    rw [Numeral.read?_append ht hn]
  · cases h

theorem skipBlank_append_cons {cs r : List Char} {c : Char} (h : skipBlank cs = c :: r)
    (t : List Char) : skipBlank (cs ++ t) = c :: (r ++ t) := by
  induction cs with
  | nil => cases h
  | cons b cs ih =>
    simp only [skipBlank, List.dropWhile_cons, List.cons_append] at h ih ⊢
    split at h
    · rename_i hb
      rw [if_pos hb, ih h]
    · rename_i hb
      cases h
      rw [if_neg hb]

/-! ## Values -/

theorem readValue_nil (fuel : Nat) : readValue fuel [] = (.broken, none) := by
  cases fuel <;> simp [readValue, skipBlank]

/-- What stands between two brackets: nothing, or what a reader finds there. -/
def bracketed {α : Type} (close : Char) (make : List α → Node)
    (read : List Char → List α × Option (List Char)) (cs : List Char) :
    Node × Option (List Char) :=
  if (skipBlank cs).head? = some close then (make [], some (skipBlank cs).tail)
  else (make (read (skipBlank cs)).1, (read (skipBlank cs)).2)

section
variable {α : Type} {close c : Char} {make : List α → Node}
  {read : List Char → List α × Option (List Char)} {cs r : List Char}

theorem bracketed_of_close (h : skipBlank cs = close :: r) :
    bracketed close make read cs = (make [], some r) := by
  simp [bracketed, h]

theorem bracketed_of_ne (h : skipBlank cs = c :: r) (hc : c ≠ close) :
    bracketed close make read cs = (make (read (c :: r)).1, (read (c :: r)).2) := by
  simp [bracketed, h, hc]

theorem bracketed_of_open (h : ∀ r, skipBlank cs = close :: r → False) :
    bracketed close make read cs = (make (read (skipBlank cs)).1, (read (skipBlank cs)).2) := by
  rw [bracketed, if_neg]
  intro hhead
  obtain ⟨r, hr⟩ := List.head?_eq_some_iff.mp hhead
  exact h r hr

end

theorem readValue_array {fuel : Nat} {cs rest : List Char} (h : skipBlank cs = '[' :: rest) :
    readValue (fuel + 1) cs = bracketed ']' .sequence (readItems fuel) rest := by
  rw [readValue, h]
  simp only
  split
  · rename_i hclose
    rw [bracketed_of_close hclose]
  · rename_i hopen
    rw [bracketed_of_open hopen]

theorem readValue_object {fuel : Nat} {cs rest : List Char} (h : skipBlank cs = '\x7b' :: rest) :
    readValue (fuel + 1) cs = bracketed '\x7d' .mapping (readMembers fuel) rest := by
  rw [readValue, h]
  simp only
  split
  · rename_i hclose
    rw [bracketed_of_close hclose]
  · rename_i hopen
    rw [bracketed_of_open hopen]

/-- what is neither a string nor composed nor a word is a number -/
theorem readValue_number {fuel : Nat} {cs r : List Char} {c : Char} (hcs : skipBlank cs = c :: r)
    (hc : c ∉ ['"', '[', '\x7b', 'n', 't', 'f']) :
    readValue (fuel + 1) cs = readNumeral (c :: r) := by
  simp only [List.mem_cons, List.not_mem_nil, or_false, not_or] at hc
  rw [readValue, hcs]
  split
  · rename_i heq
    cases heq
  · rename_i heq
    exact absurd (List.cons.inj heq).1 hc.1
  · rename_i heq
    exact absurd (List.cons.inj heq).1 hc.2.1
  · rename_i heq
    exact absurd (List.cons.inj heq).1 hc.2.2.1
  · rename_i heq
    exact absurd (List.cons.inj heq).1 hc.2.2.2.1
  · rename_i heq
    exact absurd (List.cons.inj heq).1 hc.2.2.2.2.1
  · rename_i heq
    exact absurd (List.cons.inj heq).1 hc.2.2.2.2.2
  · rfl

theorem readItems_nil (fuel : Nat) : (readItems fuel []).2 = none := by
  cases fuel with
  | zero => rfl
  | succ fuel => rw [readItems, readValue_nil]

theorem readMembers_nil (fuel : Nat) : (readMembers fuel []).2 = none := by
  cases fuel with
  | zero => rfl
  | succ fuel => rw [readMembers, readValue_nil]

/-- A reader that succeeds does so in the same way whatever follows, and with more steps. -/
def Extends (t : List Char) {α : Type} (read : Nat → List Char → α × Option (List Char))
    (fuel : Nat) : Prop :=
  ∀ cs a r, read fuel cs = (a, some r) → ∀ more, fuel ≤ more →
    read more (cs ++ t) = (a, some (r ++ t))

section
variable {t : List Char} {fuel : Nat}

/-- what stands between brackets is read in the same way if its reader does so -/
theorem bracketed_append {α : Type} {close : Char} {make : List α → Node}
    {read : Nat → List Char → List α × Option (List Char)} (hread : Extends t read fuel)
    (hnil : (read fuel []).2 = none) {cs r : List Char} {v : Node}
    (h : bracketed close make (read fuel) cs = (v, some r)) {more : Nat} (hmore : fuel ≤ more) :
    bracketed close make (read more) (cs ++ t) = (v, some (r ++ t)) := by
  cases hskip : skipBlank cs with
  | nil =>
    rw [bracketed, hskip, if_neg (by simp), hnil] at h
    cases h
  | cons c rest =>
    have hskip' := skipBlank_append_cons hskip t
    by_cases hc : c = close
    · subst hc
      rw [bracketed_of_close hskip] at h
      rw [bracketed_of_close hskip']
      cases h
      rfl
    · rw [bracketed_of_ne hskip hc] at h
      rw [bracketed_of_ne hskip' hc]
      obtain ⟨rfl, hr⟩ := Prod.mk.inj h
      have hextended := hread (c :: rest) _ r (Prod.ext rfl hr) more hmore
      rw [List.cons_append] at hextended
      rw [hextended]

theorem extends_value (ht : Ends t) (hitems : Extends t readItems fuel)
    (hmembers : Extends t readMembers fuel) : Extends t readValue (fuel + 1) := by
  intro cs v r h more hmore
  obtain ⟨more, rfl⟩ : ∃ n, more = n + 1 := ⟨more - 1, by omega⟩
  have hmore' : fuel ≤ more := by omega
  cases hskip : skipBlank cs with
  | nil =>
    rw [readValue, hskip] at h
    cases h
  | cons c rest =>
    have hskip' := skipBlank_append_cons hskip t
    -- the first character decides which reader goes on
    by_cases hc : c ∈ ['"', '[', '\x7b', 'n', 't', 'f']
    · simp only [List.mem_cons, List.not_mem_nil, or_false] at hc
      rcases hc with rfl | rfl | rfl | rfl | rfl | rfl
      · rw [readValue, hskip] at h
        rw [readValue, hskip']
        simp only at h ⊢
        split at h
        · rename_i s r' hs
          cases h
          rw [readString?_append hs]
        · cases h
      · rw [readValue_array hskip] at h
        rw [readValue_array hskip']
        exact bracketed_append hitems (readItems_nil fuel) h hmore'
      · rw [readValue_object hskip] at h
        rw [readValue_object hskip']
        exact bracketed_append hmembers (readMembers_nil fuel) h hmore'
      · rw [readValue, hskip] at h
        rw [readValue, hskip']
        exact readWord_append h t
      · rw [readValue, hskip] at h
        rw [readValue, hskip']
        exact readWord_append h t
      · rw [readValue, hskip] at h
        rw [readValue, hskip']
        exact readWord_append h t
    · rw [readValue_number hskip hc] at h
      rw [readValue_number hskip' hc]
      exact readNumeral_append ht h

theorem extends_items (hvalue : Extends t readValue fuel) (hitems : Extends t readItems fuel) :
    Extends t readItems (fuel + 1) := by
  intro cs vs r h more hmore
  obtain ⟨more, rfl⟩ : ∃ n, more = n + 1 := ⟨more - 1, by omega⟩
  rw [readItems] at h
  split at h
  · cases h
  · rename_i v rest hv
    rw [readItems, hvalue cs v rest hv more (by omega)]
    simp only
    split at h
    · rename_i r' hr'
      cases h
      simp only [skipBlank_append_cons hr']
    · rename_i r' hr'
      simp only [skipBlank_append_cons hr']
      obtain ⟨rfl, hr⟩ := Prod.mk.inj h
      rw [hitems r' _ r (Prod.ext rfl hr) more (by omega)]
    · cases h

theorem extends_members (hvalue : Extends t readValue fuel)
    (hmembers : Extends t readMembers fuel) : Extends t readMembers (fuel + 1) := by
  intro cs ms r h more hmore
  obtain ⟨more, rfl⟩ : ∃ n, more = n + 1 := ⟨more - 1, by omega⟩
  rw [readMembers] at h
  split at h
  · rename_i k rest hk
    rw [readMembers, hvalue cs _ rest hk more (by omega)]
    simp only
    split at h
    · rename_i rest' hrest'
      simp only [skipBlank_append_cons hrest']
      split at h
      · cases h
      · rename_i v rest'' hv
        rw [hvalue rest' v rest'' hv more (by omega)]
        simp only
        split at h
        · rename_i r' hr'
          cases h
          simp only [skipBlank_append_cons hr']
        · rename_i r' hr'
          simp only [skipBlank_append_cons hr']
          obtain ⟨rfl, hr⟩ := Prod.mk.inj h
          rw [hmembers r' _ r (Prod.ext rfl hr) more (by omega)]
        · cases h
    · cases h
  · cases h

/-- **Parts.** A value is read in the same way whatever follows, and with more steps than it
takes. -/
theorem extends_all (ht : Ends t) (fuel : Nat) :
    Extends t readValue fuel ∧ Extends t readItems fuel ∧ Extends t readMembers fuel := by
  -- the three readers call each other with one step less
  induction fuel with
  | zero => refine ⟨?_, ?_, ?_⟩ <;> intro cs _ r h <;> cases h
  | succ fuel ih =>
    obtain ⟨hvalue, hitems, hmembers⟩ := ih
    exact ⟨extends_value ht hitems hmembers, extends_items hvalue hitems,
      extends_members hvalue hmembers⟩

end

end ViewDesign.Json
