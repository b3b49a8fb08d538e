import Mathlib.Tactic.Ring
import ViewDesign.Proofs.Decimal.Digits

/-!
# The decimal of a float is not zero unless the float is

The points of a grid that are picked lie in the interval of the float, and the interval of a float
above zero is above zero.  If no grid has a point in it, the value itself is cut off after seventeen
digits, and the first of these is not zero.

* `pow_length_digitsOf`       a number lies between the powers of ten that its digits say;
* `magnitude_spec`            the value is at least the power of ten of its magnitude;
* `shortest_digits_ne_zero`   the decimal of a float that is not zero has a digit that is not.
-/

namespace ViewDesign.Decimal

/-! ## The number of digits -/

theorem length_digitsOf_pos (n : Nat) : 0 < (digitsOf n).length :=
  List.length_pos_iff.2 (digitsOf_ne_nil n)

theorem lt_pow_length_digitsOf (n : Nat) : n < 10 ^ (digitsOf n).length := by
  by_cases h : n < 10
  · rw [digitsOf_of_lt h]
    simpa using h
  · have ih := lt_pow_length_digitsOf (n / 10)
    rw [digitsOf_of_ge (by omega), List.length_append, List.length_singleton, Nat.pow_succ]
    omega
termination_by n

/-- the first digit is not zero -/
theorem pow_length_digitsOf_le {n : Nat} (h : n ≠ 0) : 10 ^ ((digitsOf n).length - 1) ≤ n := by
  by_cases h10 : n < 10
  · rw [digitsOf_of_lt h10]
    simp
    omega
  · have ih := pow_length_digitsOf_le (n := n / 10) (by omega)
    have hpos := length_digitsOf_pos (n / 10)
    rw [digitsOf_of_ge (by omega), List.length_append, List.length_singleton]
    obtain ⟨k, hk⟩ : ∃ k, (digitsOf (n / 10)).length = k + 1 := ⟨_, (Nat.sub_add_cancel hpos).symm⟩
    rw [hk] at ih ⊢
    simp only [Nat.add_sub_cancel] at ih ⊢
    rw [Nat.pow_succ]
    omega
termination_by n

/-! ## Points of the grids -/

namespace Interval

variable {i : Interval}

/-- a point of a grid lies in the interval, hence above its lower end -/
theorem holds_of_pick? {t : Int} {d : Nat} (h : i.pick? t = some d) : i.holds d t = true := by
  unfold pick? at h
  simp only at h
  split at h
  · rename_i h1 _
    cases h
    exact h1
  · rename_i _ h2
    cases h
    exact h2
  · rename_i h1 h2
    split at h
    · cases h
      exact h2
    · cases h
      exact h1
    · cases h
      split
      · exact h1
      · exact h2
  · cases h

theorem holds_zero (h : 0 < i.low) (t : Int) : i.holds 0 t = false := by
  have hpos : 0 < i.low * Nat.pow 10 (-t).toNat := Nat.mul_pos h (Nat.pow_pos (by omega))
  have hcmp : i.cmp 0 t i.low = .lt := by
    rw [cmp, Nat.zero_mul, Nat.zero_mul]
    exact Nat.compare_eq_lt.2 hpos
  simp [holds, hcmp]

theorem ne_zero_of_pick? (hlow : 0 < i.low) {t : Int} {d : Nat} (h : i.pick? t = some d) :
    d ≠ 0 := by
  rintro rfl
  have hh := holds_of_pick? h
  rw [holds_zero hlow t] at hh
  cases hh

/-! ## The magnitude -/

theorem magnitude_spec (hv : 0 < i.value) (hd : 0 < i.denominator) :
    i.denominator * 10 ^ (i.magnitude - 1).toNat ≤ i.value * 10 ^ (1 - i.magnitude).toNat := by
  unfold magnitude
  -- digits before the point, or zeros after it
  by_cases h : i.denominator ≤ i.value
  · rw [if_pos h]
    have hq : i.value / i.denominator ≠ 0 := by
      have := Nat.div_pos h hd
      omega
    have hpow := pow_length_digitsOf_le hq
    have hpos := length_digitsOf_pos (i.value / i.denominator)
    have e1 : (((digitsOf (i.value / i.denominator)).length : Int) - 1).toNat =
        (digitsOf (i.value / i.denominator)).length - 1 := by omega
    have e2 : (1 - ((digitsOf (i.value / i.denominator)).length : Int)).toNat = 0 := by omega
    rw [e1, e2, Nat.pow_zero, Nat.mul_one]
    calc i.denominator * 10 ^ ((digitsOf (i.value / i.denominator)).length - 1)
        ≤ i.denominator * (i.value / i.denominator) := Nat.mul_le_mul_left _ hpow
      _ ≤ i.value := Nat.mul_div_le _ _
  · rw [if_neg h]
    have hpos := length_digitsOf_pos (i.denominator / i.value)
    have hlt := lt_pow_length_digitsOf (i.denominator / i.value)
    simp only
    split
    · rename_i he
      have e1 : (2 - ((digitsOf (i.denominator / i.value)).length : Int) - 1).toNat = 0 := by omega
      have e2 : (1 - (2 - ((digitsOf (i.denominator / i.value)).length : Int))).toNat =
          (digitsOf (i.denominator / i.value)).length - 1 := by omega
      rw [e1, e2, Nat.pow_zero, Nat.mul_one]
      rw [Nat.mul_comm]
      exact Nat.le_of_eq he.symm
    · have e1 : (1 - ((digitsOf (i.denominator / i.value)).length : Int) - 1).toNat = 0 := by omega
      have e2 : (1 - (1 - ((digitsOf (i.denominator / i.value)).length : Int))).toNat =
          (digitsOf (i.denominator / i.value)).length := by omega
      rw [e1, e2, Nat.pow_zero, Nat.mul_one]
      rw [Nat.div_lt_iff_lt_mul hv] at hlt
      rw [Nat.mul_comm]
      exact Nat.le_of_lt hlt

/-- the value cut off after seventeen digits -/
theorem floorAt_ne_zero (hv : 0 < i.value) (hd : 0 < i.denominator) :
    i.floorAt (i.magnitude - 17) ≠ 0 := by
  have hspec := magnitude_spec hv hd
  generalize i.magnitude = k at hspec
  unfold floorAt
  have hle : i.denominator * 10 ^ (k - 17).toNat ≤ i.value * 10 ^ (-(k - 17)).toNat := by
    have hsum : (k - 1).toNat + (-(k - 17)).toNat = (1 - k).toNat + ((k - 17).toNat + 16) := by omega
    have hmul := Nat.mul_le_mul_right (10 ^ (-(k - 17)).toNat) hspec
    rw [Nat.mul_assoc, ← Nat.pow_add, hsum, Nat.pow_add, Nat.mul_right_comm i.value] at hmul
    have hcancel : i.denominator * 10 ^ ((k - 17).toNat + 16) * 10 ^ (1 - k).toNat ≤
        i.value * 10 ^ (-(k - 17)).toNat * 10 ^ (1 - k).toNat := by
      calc _ = i.denominator * (10 ^ (1 - k).toNat * 10 ^ ((k - 17).toNat + 16)) := by ring
        _ ≤ _ := hmul
    have hbig := Nat.le_of_mul_le_mul_right hcancel (Nat.pow_pos (by omega))
    calc i.denominator * 10 ^ (k - 17).toNat
        ≤ i.denominator * 10 ^ ((k - 17).toNat + 16) :=
          Nat.mul_le_mul_left _ (Nat.pow_le_pow_right (by omega) (by omega))
      _ ≤ _ := hbig
  have hpos : 0 < i.denominator * 10 ^ (k - 17).toNat := Nat.mul_pos hd (Nat.pow_pos (by omega))
  exact Nat.pos_iff_ne_zero.1 (Nat.div_pos hle hpos)

theorem ofFinite_pos {s : Nat} (e : Int) (h : s ≠ 0) :
    0 < (ofFinite s e).low ∧ 0 < (ofFinite s e).value ∧ 0 < (ofFinite s e).denominator := by
  have hunit : 0 < Nat.pow 2 (e - 2).toNat := Nat.pow_pos (by omega)
  refine ⟨Nat.mul_pos ?_ hunit, Nat.mul_pos (by omega) hunit, Nat.pow_pos (by omega)⟩
  split <;> omega

end Interval

/-! ## The decimal chosen -/

theorem trimmed_go_ne_zero (n : Nat) (d : Decimal) (h : d.digits ≠ 0) :
    (trimmed.go n d).digits ≠ 0 := by
  induction n generalizing d with
  | zero => exact h
  | succ n ih =>
    unfold trimmed.go
    split
    · rename_i hd
      apply ih
      show d.digits / 10 ≠ 0
      omega
    · exact h

/-- the decimal of a float that is not zero has a digit that is not -/
theorem shortest_digits_ne_zero {s : Nat} (e : Int) (h : s ≠ 0) : (shortest s e).digits ≠ 0 := by
  obtain ⟨hlow, hv, hd⟩ := Interval.ofFinite_pos e h
  unfold shortest
  rw [if_neg h]
  apply trimmed_go_ne_zero
  simp only
  cases hf : (List.range 17).findSome? _ with
  | none => exact Interval.floorAt_ne_zero hv hd
  | some d =>
    obtain ⟨n, -, hn⟩ := List.exists_of_findSome?_eq_some hf
    obtain ⟨d', hd', rfl⟩ := Option.map_eq_some_iff.1 hn
    exact Interval.ne_zero_of_pick? hlow hd'

theorem shortest_zero (e : Int) : shortest 0 e = ⟨0, 0⟩ := by
  rw [shortest, if_pos rfl]

/-- only zero has no digit but zero, and it is written without an exponent -/
theorem shortest_exponent (s : Nat) (e : Int) (h : (shortest s e).digits = 0) :
    (shortest s e).exponent = 0 := by
  by_cases hs : s = 0
  · rw [hs, shortest_zero]
  · exact absurd h (shortest_digits_ne_zero e hs)

end ViewDesign.Decimal
