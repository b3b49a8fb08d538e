import ViewDesign.Proofs.Decimal.Digits
import ViewDesign.Proofs.Json.Reading

/-!
# Number literals and their texts

A literal is read off its own text, and what a layout writes is the text of a literal.

* `Numeral.chars`, `Numeral.WellFormed`    the text of a literal, and which literals have one;
* `Numeral.read?_chars`                    the text reads as the literal;
* `Decimal.Layout.literal`                 the literal that a layout writes for a decimal;
* `Decimal.Layout.chars_literal`           it is what is written.
-/

namespace ViewDesign

namespace Numeral

/-! ## The text of a literal -/

/-- The point and the digits after it. -/
def fractionChars : Option (List Char) → List Char
  | none => []
  | some ds => '.' :: ds

/-- The mark, the sign and the digits of an exponent. -/
def exponentChars : Option (Bool × List Char) → List Char
  | none => []
  | some (negative, ds) => 'e' :: (if negative then '-' else '+') :: ds

/-- The text of a literal without its sign. -/
def unsignedChars (n : Numeral) : List Char :=
  n.whole ++ fractionChars n.fraction ++ exponentChars n.exponent

/-- The text of a literal. -/
def chars (n : Numeral) : List Char :=
  if n.negative then '-' :: n.unsignedChars else n.unsignedChars

/-- At least one digit, and nothing but digits. -/
def Digits (ds : List Char) : Prop := ds ≠ [] ∧ ∀ c ∈ ds, c.isDigit = true

/-- Each part of the literal has digits, and a zero at the front stands alone. -/
structure WellFormed (n : Numeral) : Prop where
  whole : Digits n.whole
  lead : ∀ r, n.whole = '0' :: r → r = []
  fraction : ∀ ds, n.fraction = some ds → Digits ds
  exponent : ∀ negative ds, n.exponent = some (negative, ds) → Digits ds

/-! ## Reading it back -/

theorem takeWhile_digits {ds rest : List Char} (h : ∀ c ∈ ds, c.isDigit = true)
    (hrest : ∀ c r, rest = c :: r → c.isDigit = false) :
    (ds ++ rest).takeWhile Char.isDigit = ds ∧ (ds ++ rest).dropWhile Char.isDigit = rest := by
  induction ds with
  | nil =>
    cases rest with
    | nil => exact ⟨rfl, rfl⟩
    | cons c r =>
      have hc := hrest c r rfl
      simp [hc]
  | cons d ds ih =>
    have hd := h d (List.mem_cons_self ..)
    obtain ⟨h1, h2⟩ := ih (fun c hc => h c (List.mem_cons_of_mem _ hc))
    simp [hd, h1, h2]

theorem readWhole?_digits {ds rest : List Char} (h : Digits ds) (hlead : ∀ r, ds = '0' :: r → r = [])
    (hrest : ∀ c r, rest = c :: r → c.isDigit = false) :
    readWhole? (ds ++ rest) = some (ds, rest) := by
  obtain ⟨hne, hd⟩ := h
  cases ds with
  | nil => exact absurd rfl hne
  | cons c ds =>
    by_cases hc : c = '0'
    · subst hc
      have h0 := hlead ds rfl
      subst h0
      cases rest with
      | nil => rfl
      | cons d r =>
        have hdr := hrest d r rfl
        simp [readWhole?, hdr]
    · have hcd := hd c (List.mem_cons_self ..)
      obtain ⟨h1, h2⟩ := takeWhile_digits (fun x hx => hd x (List.mem_cons_of_mem _ hx)) hrest
      rw [List.cons_append, readWhole?.eq_def]
      simp [hcd, h1, h2]

theorem readFraction?_chars {fraction : Option (List Char)} {rest : List Char}
    (h : ∀ ds, fraction = some ds → Digits ds) (hrest : ∀ c r, rest = c :: r → c.isDigit = false)
    (hpoint : ∀ r, rest ≠ '.' :: r) :
    readFraction? (fractionChars fraction ++ rest) = some (fraction, rest) := by
  cases fraction with
  | none =>
    rw [fractionChars, List.nil_append]
    cases rest with
    | nil => rfl
    | cons c r =>
      have hc : c ≠ '.' := fun hc => hpoint r (by rw [hc])
      rw [readFraction?.eq_def]
      simp
  | some ds =>
    obtain ⟨hne, hd⟩ := h ds rfl
    obtain ⟨h1, h2⟩ := takeWhile_digits hd hrest
    rw [fractionChars, List.cons_append, readFraction?]
    simp [h1, h2, hne]

theorem readExponent?_chars {exponent : Option (Bool × List Char)} {rest : List Char}
    (h : ∀ negative ds, exponent = some (negative, ds) → Digits ds) (hrest : Json.Ends rest) :
    readExponent? (exponentChars exponent ++ rest) = some (exponent, rest) := by
  cases exponent with
  | none =>
    rw [exponentChars, List.nil_append]
    cases rest with
    | nil => rfl
    | cons c r =>
      obtain ⟨-, -, he, hE⟩ := hrest c r rfl
      rw [readExponent?, if_neg (by simp [he, hE])]
  | some e =>
    obtain ⟨negative, ds⟩ := e
    obtain ⟨hne, hd⟩ := h negative ds rfl
    obtain ⟨h1, h2⟩ := takeWhile_digits hd (fun c r hr => (hrest c r hr).1)
    cases negative <;>
      simp [exponentChars, readExponent?, readExponentSign, h1, h2, hne]

theorem exponentChars_head (e : Option (Bool × List Char)) {rest : List Char}
    (hrest : Json.Ends rest) :
    ∀ c r, exponentChars e ++ rest = c :: r → c.isDigit = false ∧ c ≠ '.' := by
  intro c r h
  cases e with
  | none =>
    have h' := hrest c r h
    exact ⟨h'.1, h'.2.1⟩
  | some e =>
    rw [exponentChars, List.cons_append] at h
    cases h
    exact ⟨by decide, by decide⟩

theorem readSign_digits {c : Char} {r : List Char} (h : c.isDigit = true) :
    readSign (c :: r) = (false, c :: r) := by
  have hc : c ≠ '-' := by
    intro hc
    rw [hc] at h
    exact absurd h (by decide)
  rw [readSign.eq_def]
  simp [hc]

/-- the text of a literal reads as the literal, and the text after it is left -/
theorem read?_chars {n : Numeral} (h : n.WellFormed) {rest : List Char} (hrest : Json.Ends rest) :
    read? (n.chars ++ rest) = some (n, rest) := by
  have hexp := exponentChars_head n.exponent hrest
  have hfrac : ∀ c r, fractionChars n.fraction ++ (exponentChars n.exponent ++ rest) = c :: r →
      c.isDigit = false := by
    intro c r hcr
    cases hf : n.fraction with
    | none =>
      rw [hf] at hcr
      exact (hexp c r hcr).1
    | some ds =>
      rw [hf, fractionChars, List.cons_append] at hcr
      cases hcr
      decide
  have h1 := readWhole?_digits h.whole h.lead hfrac
  have h2 := readFraction?_chars h.fraction (fun c r hcr => (hexp c r hcr).1)
    (fun r hr => (hexp _ r hr).2 rfl)
  have h3 := readExponent?_chars h.exponent hrest
  have hu : n.unsignedChars ++ rest =
      n.whole ++ (fractionChars n.fraction ++ (exponentChars n.exponent ++ rest)) := by
    simp [unsignedChars]
  obtain ⟨negative, whole, fraction, exponent⟩ := n
  cases negative with
  | true => simp [read?, chars, readSign, hu, h1, h2, h3]
  | false =>
    cases whole with
    | nil => exact absurd rfl h.whole.1
    | cons c r =>
      have hs := readSign_digits (r := r ++ (fractionChars fraction ++
        (exponentChars exponent ++ rest))) (h.whole.2 c (List.mem_cons_self ..))
      rw [List.cons_append] at hu h1
      simp [read?, chars, hu, hs, h1, h2, h3]

end Numeral

namespace Decimal.Layout

/-! ## The literals that layouts write -/

/-- The literal of digits with the point after the `n`-th of them. -/
def pointLiteral (keepPoint negative : Bool) (digits : List Char) (n : Int) : Numeral :=
  if n ≤ 0 then ⟨negative, ['0'], some (List.replicate (-n).toNat '0' ++ digits), none⟩
  else
    let n := n.toNat
    if digits.length ≤ n then
      ⟨negative, digits ++ List.replicate (n - digits.length) '0',
        if keepPoint then some ['0'] else none, none⟩
    else ⟨negative, digits.take n, some (digits.drop n), none⟩

/-- The literal of digits with one of them before the point and an exponent. -/
def powerLiteral (negative : Bool) (digits : List Char) (exponent : Int) : Numeral :=
  ⟨negative, digits.take 1, if digits.tail.isEmpty then none else some digits.tail,
    some (decide (exponent < 0), digitsOf exponent.natAbs)⟩

/-- The literal that a layout writes for a decimal. -/
def literal (l : Layout) (negative : Bool) (d : Decimal) : Numeral :=
  let digits := digitsOf d.digits
  let point : Int := digits.length + d.exponent
  match l.positional with
  | none => pointLiteral l.keepPoint negative digits point
  | some (least, greatest) =>
    if least ≤ point ∧ point ≤ greatest then pointLiteral l.keepPoint negative digits point
    else powerLiteral negative digits (point - 1)

theorem unsignedChars_pointLiteral (keepPoint negative : Bool) (digits : List Char) (n : Int) :
    (pointLiteral keepPoint negative digits n).unsignedChars = placePoint keepPoint digits n := by
  unfold pointLiteral placePoint
  split
  · simp [Numeral.unsignedChars, Numeral.fractionChars, Numeral.exponentChars]
  · simp only
    split
    · cases keepPoint <;>
        simp [Numeral.unsignedChars, Numeral.fractionChars, Numeral.exponentChars]
    · simp [Numeral.unsignedChars, Numeral.fractionChars, Numeral.exponentChars]

theorem unsignedChars_powerLiteral (negative : Bool) (digits : List Char) (exponent : Int) :
    (powerLiteral negative digits exponent).unsignedChars = scientific digits exponent := by
  unfold powerLiteral scientific
  cases digits with
  | nil =>
    by_cases h : 0 ≤ exponent
    · simp [Numeral.unsignedChars, Numeral.fractionChars, Numeral.exponentChars, h]
    · simp [Numeral.unsignedChars, Numeral.fractionChars, Numeral.exponentChars, h]
  | cons d ds =>
    by_cases h : 0 ≤ exponent <;> cases ds <;>
      simp [Numeral.unsignedChars, Numeral.fractionChars, Numeral.exponentChars, h]

/-- the text of the literal is what the layout writes -/
theorem unsignedChars_literal (l : Layout) (negative : Bool) (d : Decimal) :
    (l.literal negative d).unsignedChars = l.write d := by
  unfold literal write
  cases l.positional with
  | none => exact unsignedChars_pointLiteral ..
  | some bounds =>
    obtain ⟨least, greatest⟩ := bounds
    simp only
    split
    · exact unsignedChars_pointLiteral ..
    · exact unsignedChars_powerLiteral ..

theorem negative_literal (l : Layout) (negative : Bool) (d : Decimal) :
    (l.literal negative d).negative = negative := by
  unfold literal pointLiteral powerLiteral
  cases l.positional <;> simp only <;> split <;> (try split) <;> (try split) <;> rfl

/-! ## They are well-formed -/

theorem digits_digitsOf (n : Nat) : Numeral.Digits (digitsOf n) :=
  ⟨digitsOf_ne_nil n, digitsOf_isDigit n⟩

theorem replicate_isDigit (n : Nat) : ∀ c ∈ List.replicate n '0', c.isDigit = true := by
  intro c hc
  rw [(List.mem_replicate.1 hc).2]
  decide

/-- a leading zero stands alone -/
theorem digitsOf_lead (n : Nat) : ∀ r, digitsOf n = '0' :: r → n = 0 ∧ r = [] := by
  intro r hr
  by_cases h : n = 0
  · subst h
    rw [digitsOf_zero] at hr
    cases hr
    exact ⟨rfl, rfl⟩
  · obtain ⟨c, r', hc, hne⟩ := digitsOf_head h
    rw [hc] at hr
    cases hr
    exact absurd rfl hne

theorem digits_zeros_append {ds : List Char} (h : Numeral.Digits ds) (n : Nat) :
    Numeral.Digits (List.replicate n '0' ++ ds) := by
  refine ⟨by simp [h.1], fun c hc => ?_⟩
  rcases List.mem_append.1 hc with hc | hc
  · exact replicate_isDigit _ c hc
  · exact h.2 c hc

theorem digits_append_zeros {ds : List Char} (h : Numeral.Digits ds) (n : Nat) :
    Numeral.Digits (ds ++ List.replicate n '0') := by
  refine ⟨by simp [h.1], fun c hc => ?_⟩
  rcases List.mem_append.1 hc with hc | hc
  · exact h.2 c hc
  · exact replicate_isDigit _ c hc

/-- a zero at the front stands alone, with no zeros behind the digits of zero -/
theorem lead_append_zeros {m n : Nat} (h : m = 0 → n = 0) {r : List Char}
    (hr : digitsOf m ++ List.replicate n '0' = '0' :: r) : r = [] := by
  cases hm : digitsOf m with
  | nil => exact absurd hm (digitsOf_ne_nil m)
  | cons c r' =>
    simp only [hm, List.cons_append, List.cons.injEq] at hr
    obtain ⟨rfl, rfl⟩ := hr
    obtain ⟨h0, rfl⟩ := digitsOf_lead m r' hm
    simp [h h0]

/-- and so it does if only some of the digits are taken -/
theorem lead_take {m n : Nat} (hn : 0 < n) {r : List Char}
    (hr : (digitsOf m).take n = '0' :: r) : r = [] := by
  obtain ⟨k, rfl⟩ : ∃ k, n = k + 1 := ⟨n - 1, by omega⟩
  cases hm : digitsOf m with
  | nil => exact absurd hm (digitsOf_ne_nil m)
  | cons c r' =>
    simp only [hm, List.take_succ_cons, List.cons.injEq] at hr
    obtain ⟨rfl, rfl⟩ := hr
    obtain ⟨-, rfl⟩ := digitsOf_lead m r' hm
    exact List.take_nil

theorem wellFormed_pointLiteral (keepPoint negative : Bool) (m : Nat) (n : Int)
    (h : m = 0 → n = 1) :
    (pointLiteral keepPoint negative (digitsOf m) n).WellFormed := by
  have hd := digits_digitsOf m
  have hlen : 0 < (digitsOf m).length := List.length_pos_iff.2 hd.1
  unfold pointLiteral
  split
  -- the point stands before the digits, behind them, or among them
  · refine ⟨⟨by simp, by simp⟩, by simp, ?_, by simp⟩
    rintro _ ⟨⟩
    exact digits_zeros_append hd _
  · rename_i hn
    simp only
    split
    · refine ⟨digits_append_zeros hd _, fun r hr => lead_append_zeros (fun h0 => ?_) hr, ?_, by simp⟩
      · have h1 := h h0
        omega
      · intro ds hds
        cases keepPoint <;> simp at hds
        subst hds
        exact ⟨by simp, by simp⟩
    · rename_i hlt
      refine ⟨⟨?_, fun c hc => hd.2 c (List.mem_of_mem_take hc)⟩,
        fun r hr => lead_take (by omega) hr, ?_, by simp⟩
      · intro h0
        rcases List.take_eq_nil_iff.1 h0 with h0 | h0
        · omega
        · exact hd.1 h0
      · rintro _ ⟨⟩
        refine ⟨fun h0 => ?_, fun c hc => hd.2 c (List.mem_of_mem_drop hc)⟩
        have := List.drop_eq_nil_iff.1 h0
        omega

theorem wellFormed_powerLiteral (negative : Bool) (m : Nat) (exponent : Int) :
    (powerLiteral negative (digitsOf m) exponent).WellFormed := by
  obtain ⟨hne, hd⟩ := digits_digitsOf m
  unfold powerLiteral
  cases hm : digitsOf m with
  | nil => exact absurd hm hne
  | cons c r =>
    rw [hm] at hd
    refine ⟨⟨by simp, ?_⟩, ?_, ?_, ?_⟩
    · intro x hx
      exact hd x (List.mem_of_mem_take hx)
    · intro r' hr'
      simp at hr'
      exact hr'.2
    · intro ds hds
      cases r with
      | nil => simp at hds
      | cons y ys =>
        simp at hds
        subst hds
        exact ⟨by simp, fun x hx => hd x (List.mem_cons_of_mem _ hx)⟩
    · intro negative' ds hds
      cases hds
      exact digits_digitsOf _

/-- what a layout writes is the text of a literal, zero being written with exponent zero -/
theorem wellFormed_literal (l : Layout) (negative : Bool) (d : Decimal)
    (h : d.digits = 0 → d.exponent = 0) : (l.literal negative d).WellFormed := by
  have hpoint : d.digits = 0 → ((digitsOf d.digits).length : Int) + d.exponent = 1 := by
    intro h0
    rw [h0, h h0, digitsOf_zero]
    rfl
  unfold literal
  cases l.positional with
  | none => exact wellFormed_pointLiteral _ _ _ _ hpoint
  | some bounds =>
    obtain ⟨least, greatest⟩ := bounds
    simp only
    split
    · exact wellFormed_pointLiteral _ _ _ _ hpoint
    · exact wellFormed_powerLiteral _ _ _

end Decimal.Layout

end ViewDesign
