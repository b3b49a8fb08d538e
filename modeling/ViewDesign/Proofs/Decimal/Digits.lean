import ViewDesign.Decimal.Reading
import ViewDesign.Json.Numeral

/-!
# Decimal digits

`Decimal.digitsOf` and the readers of digits are inverse to each other.

* `digitsOf_isDigit`, `digitsOf_head`    only digits, and no leading zero;
* `valueOf_digitsOf`, `natural?_digitsOf`    both readers give the number back;
* `collect_of_le`    digits whose value fits sixty-four bits are collected whole.
-/

namespace ViewDesign.Decimal

/-! ## Single digits -/

theorem digitChar_isDigit : ∀ d < 10, (digitChar d).isDigit = true := by decide

theorem digitChar_toNat : ∀ d < 10, (digitChar d).toNat - 48 = d := by decide

theorem digitValue?_digitChar : ∀ d < 10, digitValue? 10 (digitChar d) = some d := by decide

theorem digitChar_ne_zero : ∀ d < 10, d ≠ 0 → digitChar d ≠ '0' := by decide

/-! ## Digits of a natural -/

theorem digitsOf_of_lt {n : Nat} (h : n < 10) : digitsOf n = [digitChar n] := by
  rw [digitsOf, if_pos h]

theorem digitsOf_of_ge {n : Nat} (h : 10 ≤ n) :
    digitsOf n = digitsOf (n / 10) ++ [digitChar (n % 10)] := by
  rw [digitsOf, if_neg (by omega)]

theorem digitsOf_ne_nil (n : Nat) : digitsOf n ≠ [] := by
  rw [digitsOf]
  split <;> simp

theorem mem_digitsOf {n : Nat} {c : Char} (hc : c ∈ digitsOf n) : ∃ d < 10, c = digitChar d := by
  by_cases h : n < 10
  · rw [digitsOf_of_lt h, List.mem_singleton] at hc
    exact ⟨n, h, hc⟩
  · rw [digitsOf_of_ge (by omega), List.mem_append, List.mem_singleton] at hc
    rcases hc with hc | hc
    · exact mem_digitsOf hc
    · exact ⟨n % 10, by omega, hc⟩
termination_by n
decreasing_by omega

theorem digitsOf_isDigit (n : Nat) : ∀ c ∈ digitsOf n, c.isDigit = true := by
  intro c hc
  obtain ⟨d, hd, rfl⟩ := mem_digitsOf hc
  exact digitChar_isDigit d hd

/-- the first digit of a number above zero is not zero -/
theorem digitsOf_head {n : Nat} (h : n ≠ 0) : ∃ c r, digitsOf n = c :: r ∧ c ≠ '0' := by
  by_cases h10 : n < 10
  · exact ⟨digitChar n, [], digitsOf_of_lt h10, digitChar_ne_zero n h10 h⟩
  · obtain ⟨c, r, hc, hne⟩ := digitsOf_head (n := n / 10) (by omega)
    refine ⟨c, r ++ [digitChar (n % 10)], ?_, hne⟩
    rw [digitsOf_of_ge (by omega), hc, List.cons_append]
termination_by n
decreasing_by omega

theorem digitsOf_zero : digitsOf 0 = ['0'] := digitsOf_of_lt (by omega)

/-! ## Reading them back -/

theorem valueFrom_append (start : Nat) (as bs : List Char) :
    valueFrom start (as ++ bs) = valueFrom (valueFrom start as) bs := by
  simp [valueFrom, List.foldl_append]

theorem valueOf_digitsOf (n : Nat) : valueOf (digitsOf n) = n := by
  by_cases h : n < 10
  · rw [digitsOf_of_lt h]
    show 10 * 0 + ((digitChar n).toNat - 48) = n
    rw [digitChar_toNat n h]
    omega
  · have ih := valueOf_digitsOf (n / 10)
    rw [digitsOf_of_ge (by omega), valueOf, valueFrom_append]
    rw [valueOf] at ih
    rw [ih]
    show 10 * (n / 10) + ((digitChar (n % 10)).toNat - 48) = n
    rw [digitChar_toNat _ (by omega)]
    omega
termination_by n
decreasing_by omega

theorem foldlM_digitsOf (n : Nat) :
    (digitsOf n).foldlM (fun m c => (digitValue? 10 c).map (10 * m + ·)) 0 = some n := by
  by_cases h : n < 10
  · rw [digitsOf_of_lt h]
    simp [digitValue?_digitChar n h]
  · rw [digitsOf_of_ge (by omega), List.foldlM_append, foldlM_digitsOf (n / 10)]
    simp [digitValue?_digitChar (n % 10) (by omega)]
    omega
termination_by n
decreasing_by omega

theorem natural?_digitsOf (n : Nat) : natural? 10 (digitsOf n) = some n := by
  have hne : (digitsOf n).isEmpty = false := by
    cases h : digitsOf n with
    | nil => exact absurd h (digitsOf_ne_nil n)
    | cons c r => rfl
  rw [natural?, hne]
  exact foldlM_digitsOf n

end ViewDesign.Decimal

namespace ViewDesign.Numeral

/-! ## Collecting digits into a word -/

theorem le_valueFrom (start : Nat) (ds : List Char) : start ≤ Decimal.valueFrom start ds := by
  induction ds generalizing start with
  | nil => exact Nat.le_refl _
  | cons c ds ih =>
    have h := ih (10 * start + (c.toNat - 48))
    show start ≤ Decimal.valueFrom (10 * start + (c.toNat - 48)) ds
    omega

/-- digits whose value fits are collected whole -/
theorem collect_of_le (start : Nat) (ds : List Char) (h : Decimal.valueFrom start ds ≤ maxWord) :
    collect start ds = (Decimal.valueFrom start ds, []) := by
  induction ds generalizing start with
  | nil => rfl
  | cons c ds ih =>
    have hle := le_valueFrom (10 * start + (c.toNat - 48)) ds
    have hv : Decimal.valueFrom (10 * start + (c.toNat - 48)) ds ≤ maxWord := h
    rw [collect, if_pos (by omega)]
    exact ih _ h

end ViewDesign.Numeral
