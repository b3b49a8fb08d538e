import ViewDesign.Proofs.Decimal.Rounding
import ViewDesign.Proofs.Json.Rereading

/-!
# Literals in range

A document refuses a literal whose value exceeds all floats.  Its digits are rounded once, the power
of ten is rounded, and so is their product; still, a literal that is not above the midpoint below
the greatest float is never refused.

* `limit`                   that midpoint;
* `scaled?_isSome`          a word times a power of ten that does not exceed it;
* `value?_isSome`           a literal that does not exceed it;
* `value?_isSome_of_short`  a literal with few digits and no exponent.
-/

namespace ViewDesign

namespace Numeral

open Rounding

/-- The midpoint below the greatest float. -/
def limit : Nat := (2 ^ 54 - 3) * 2 ^ 970

/-- the midpoint in powers of ten -/
theorem limit_bounds : maxWord * 10 ^ 288 ≤ limit ∧ limit < 10 ^ 309 := by decide +kernel

theorem maxWord_le_limit : maxWord ≤ limit :=
  Nat.le_trans (Nat.le_mul_of_pos_right _ (Nat.pow_pos (by omega))) limit_bounds.1

/-- The greatest word whose product with a power of ten does not exceed the midpoint. -/
def greatestWord (e : Nat) : Nat := min maxWord (limit / 10 ^ e)

theorem greatestWord_fits : ∀ e < 309,
    roundedUp (greatestWord e) * roundedUp (10 ^ e) < (2 ^ 54 - 1) * 2 ^ 1074 := by
  decide +kernel

/-- a word times a power of ten that does not exceed the midpoint is a float -/
theorem product_finite {s e : Nat} (hpos : s ≠ 0) (hs : s ≤ maxWord) (he : e ≤ 308)
    (h : s * 10 ^ e ≤ limit) : (Float.ofNat s * powerOfTen e).isInf = false := by
  have hword : s ≤ greatestWord e :=
    Nat.le_min.mpr ⟨hs, (Nat.le_div_iff_mul_le (Nat.pow_pos (by omega))).mpr h⟩
  obtain ⟨m, a, hm, hmvalue⟩ := normal_ofNat hpos (Nat.lt_succ_of_le hs)
  obtain ⟨n, b, hn, hnvalue⟩ := normal_power he
  have hsmall : m * 2 ^ a * (n * 2 ^ b) < (2 ^ 54 - 1) * 2 ^ 1074 := by
    rw [hmvalue, hnvalue]
    calc rounded s * rounded (10 ^ e)
        ≤ roundedUp (greatestWord e) * roundedUp (10 ^ e) :=
          Nat.mul_le_mul (Nat.le_trans (rounded_mono hpos hword) (rounded_le_roundedUp _))
            (rounded_le_roundedUp _)
      _ < _ := greatestWord_fits e (by omega)
  obtain ⟨r, c, hr, -⟩ := hm.mul hn hsmall
  obtain ⟨sign, hrpos, hunpack⟩ := hr.unpack
  show (Float.ofNat s * powerOfTen e).toModel.unpack.isInf = false
  exact hunpack ▸ rfl

theorem scaled?_isSome {s : Nat} {e : Int} (hs : s ≤ maxWord) (h : s * 10 ^ e.toNat ≤ limit) :
    (scaled? s e).isSome = true := by
  unfold scaled?
  by_cases hneg : e < 0
  · rw [if_pos hneg]
    rfl
  · rw [if_neg hneg]
    by_cases hzero : s = 0
    · rw [if_pos hzero]
      rfl
    · have hpower : 10 ^ e.toNat ≤ limit :=
        Nat.le_trans (Nat.le_mul_of_pos_left _ (Nat.pos_of_ne_zero hzero)) h
      have he : e.toNat ≤ 308 := by
        by_contra hgt
        have hlarge : 10 ^ 309 ≤ 10 ^ e.toNat := Nat.pow_le_pow_right (by omega) (by omega)
        exact absurd (Nat.le_trans hlarge hpower) (Nat.not_le.mpr limit_bounds.2)
      have hfinite := product_finite hzero hs he h
      rw [if_neg hzero, if_neg (by omega)]
      simp [hfinite]

/-! ## Collected digits -/

theorem valueFrom_eq (start : Nat) (ds : List Char) :
    Decimal.valueFrom start ds = start * 10 ^ ds.length + Decimal.valueOf ds := by
  induction ds generalizing start with
  | nil => simp [Decimal.valueFrom, Decimal.valueOf]
  | cons c ds ih =>
    have h := ih (10 * start + (c.toNat - 48))
    have h0 := ih (10 * 0 + (c.toNat - 48))
    show Decimal.valueFrom (10 * start + (c.toNat - 48)) ds =
      _ + Decimal.valueFrom (10 * 0 + (c.toNat - 48)) ds
    rw [h, h0, List.length_cons, Nat.pow_succ]
    ring

/-- what is collected is a word, and the digits that are left only make the number greater -/
theorem collect_spec {start : Nat} (hstart : start ≤ maxWord) (ds : List Char) :
    (collect start ds).1 ≤ maxWord ∧ (collect start ds).2.length ≤ ds.length ∧
      (collect start ds).1 * 10 ^ (collect start ds).2.length ≤ Decimal.valueFrom start ds := by
  induction ds generalizing start with
  | nil => exact ⟨hstart, Nat.le_refl _, by simp [collect, Decimal.valueFrom]⟩
  | cons c ds ih =>
    unfold collect
    simp only
    split
    · rename_i hfits
      obtain ⟨h1, h2, h3⟩ := ih hfits
      exact ⟨h1, Nat.le_succ_of_le h2, h3⟩
    · refine ⟨hstart, Nat.le_refl _, ?_⟩
      rw [valueFrom_eq]
      exact Nat.le_add_right _ _


/-! ## Literals -/

/-- a literal is in range if its collected digits are -/
theorem value?_isSome_of_scaled {n : Numeral}
    (h : (scaled? (collect (collect 0 n.whole).1 (n.fraction.getD [])).1
      (n.exponentValue + (collect 0 n.whole).2.length - ((n.fraction.getD []).length -
        (collect (collect 0 n.whole).1 (n.fraction.getD [])).2.length : Int))).isSome = true) :
    n.value?.isSome = true := by
  unfold value?
  simp only
  split
  · split
    · rfl
    · split <;> rfl
  · rw [Option.isSome_map]
    exact h

/-- a literal with few digits before the point and no exponent is in range -/
theorem value?_isSome_of_short {n : Numeral} (hexponent : n.exponent = none)
    (hwhole : n.whole.length ≤ 288) : n.value?.isSome = true := by
  apply value?_isSome_of_scaled
  obtain ⟨hword, hleft, -⟩ := collect_spec (show 0 ≤ maxWord by decide) n.whole
  obtain ⟨hdigits, hdropped, -⟩ := collect_spec hword (n.fraction.getD [])
  apply scaled?_isSome hdigits
  have hvalue : n.exponentValue = 0 := by rw [exponentValue, hexponent]
  rw [hvalue]
  calc (collect (collect 0 n.whole).1 (n.fraction.getD [])).1 * 10 ^ (_ : Int).toNat
      ≤ maxWord * 10 ^ 288 :=
        Nat.mul_le_mul hdigits (Nat.pow_le_pow_right (by omega) (by omega))
    _ ≤ limit := limit_bounds.1

end Numeral

namespace Decimal

/-- A decimal is at most a natural. -/
def AtMost (d : Decimal) (n : Nat) : Prop :=
  d.digits * 10 ^ d.exponent.toNat ≤ n * 10 ^ (-d.exponent).toNat

end Decimal

namespace Numeral

open Rounding

/-- a literal that does not exceed the midpoint is in range -/
theorem value?_isSome {n : Numeral} (hwhole : Decimal.valueOf n.whole ≤ maxWord)
    (h : n.decimal.AtMost limit) : n.value?.isSome = true := by
  apply value?_isSome_of_scaled
  have hcollect : collect 0 n.whole = (Decimal.valueOf n.whole, []) := collect_of_le 0 _ hwhole
  obtain ⟨hword, -, hvalue⟩ := collect_spec hwhole (n.fraction.getD [])
  have happend : Decimal.valueFrom (Decimal.valueOf n.whole) (n.fraction.getD []) =
      Decimal.valueOf (n.whole ++ n.fraction.getD []) := (Decimal.valueFrom_append ..).symm
  rw [happend] at hvalue
  rw [hcollect]
  simp only [List.length_nil, Int.natCast_zero, Int.add_zero]
  unfold Decimal.AtMost decimal at h
  simp only at h
  generalize collect (Decimal.valueOf n.whole) (n.fraction.getD []) = r at *
  generalize Decimal.valueOf (n.whole ++ n.fraction.getD []) = k at *
  have hexponent : n.exponentValue - ((n.fraction.getD []).length - r.2.length) =
      n.exponentValue - (n.fraction.getD []).length + r.2.length := by omega
  rw [hexponent]
  generalize n.exponentValue - (n.fraction.getD []).length = x at *
  apply scaled?_isSome hword
  by_cases hx : x + r.2.length ≤ 0
  · have hzero : (x + r.2.length).toNat = 0 := by omega
    rw [hzero, Nat.pow_zero, Nat.mul_one]
    exact Nat.le_trans hword maxWord_le_limit
  -- both sides times the power that the exponent takes away, to stay with whole numbers
  · refine Nat.le_of_mul_le_mul_right ?_ (Nat.pow_pos (n := (-x).toNat) (show 0 < 10 by omega))
    have hsum : (x + r.2.length).toNat + (-x).toNat = r.2.length + x.toNat := by omega
    calc r.1 * 10 ^ (x + r.2.length).toNat * 10 ^ (-x).toNat
        = r.1 * 10 ^ r.2.length * 10 ^ x.toNat := by
          rw [Nat.mul_assoc, ← Nat.pow_add, hsum, Nat.pow_add, Nat.mul_assoc]
      _ ≤ k * 10 ^ x.toNat := Nat.mul_le_mul_right _ hvalue
      _ ≤ limit * 10 ^ (-x).toNat := h

end Numeral

/-! ## The decimals of floats -/

namespace Decimal

theorem AtMost.trimmed_go {l : Nat} (n : Nat) {d : Decimal} (h : d.AtMost l) :
    (trimmed.go n d).AtMost l := by
  induction n generalizing d with
  | zero => exact h
  | succ n ih =>
    unfold trimmed.go
    split
    · rename_i hd
      apply ih
      have hten : d.digits = d.digits / 10 * 10 := by omega
      unfold AtMost at h ⊢
      rw [hten] at h
      simp only
      by_cases he : 0 ≤ d.exponent
      · have h1 : (d.exponent + 1).toNat = d.exponent.toNat + 1 := by omega
        have h2 : (-(d.exponent + 1)).toNat = (-d.exponent).toNat := by omega
        rw [h1, h2, Nat.pow_succ', ← Nat.mul_assoc]
        exact h
      · have h1 : (d.exponent + 1).toNat = d.exponent.toNat := by omega
        have h2 : (-d.exponent).toNat = (-(d.exponent + 1)).toNat + 1 := by omega
        rw [h2, Nat.pow_succ, ← Nat.mul_assoc, Nat.mul_right_comm] at h
        rw [h1]
        exact Nat.le_of_mul_le_mul_right h (by omega)
    · exact h

namespace Interval

variable {i : Interval} {l : Nat}

theorem atMost_of_le {d : Nat} {t : Int} (hd : 0 < i.denominator) (hl : i.high ≤ l * i.denominator)
    (h : d * 10 ^ t.toNat * i.denominator ≤ i.high * 10 ^ (-t).toNat) :
    (⟨d, t⟩ : Decimal).AtMost l := by
  apply Nat.le_of_mul_le_mul_right _ hd
  calc d * 10 ^ t.toNat * i.denominator ≤ i.high * 10 ^ (-t).toNat := h
    _ ≤ l * i.denominator * 10 ^ (-t).toNat := Nat.mul_le_mul_right _ hl
    _ = l * 10 ^ (-t).toNat * i.denominator := Nat.mul_right_comm ..

/-- a point of a grid that lies in the interval is not above its upper end -/
theorem le_high_of_holds {d : Nat} {t : Int} (h : i.holds d t = true) :
    d * 10 ^ t.toNat * i.denominator ≤ i.high * 10 ^ (-t).toNat := by
  have hcmp : i.cmp d t i.high ≠ .gt := by
    intro hgt
    simp [holds, hgt] at h
  exact Nat.compare_ne_gt.mp hcmp

theorem floorAt_le_high (hv : i.value ≤ i.high) (t : Int) :
    i.floorAt t * 10 ^ t.toNat * i.denominator ≤ i.high * 10 ^ (-t).toNat := by
  calc i.floorAt t * 10 ^ t.toNat * i.denominator
      = i.floorAt t * (i.denominator * 10 ^ t.toNat) := by
        rw [Nat.mul_assoc, Nat.mul_comm i.denominator]
    _ ≤ i.value * 10 ^ (-t).toNat := Nat.div_mul_le_self _ _
    _ ≤ _ := Nat.mul_le_mul_right _ hv

end Interval

/-- the decimal of a float is at most the midpoint after the float -/
theorem shortest_atMost {s l : Nat} {e : Int}
    (h : (4 * s + 2) * 2 ^ (e - 2).toNat ≤ l * 2 ^ (-(e - 2)).toNat) : (shortest s e).AtMost l := by
  unfold shortest
  by_cases hs : s = 0
  · rw [if_pos hs]
    exact Nat.zero_le _
  · rw [if_neg hs]
    have hd := (Interval.ofFinite_pos e hs).2.2
    have hv : (Interval.ofFinite s e).value ≤ (Interval.ofFinite s e).high :=
      Nat.mul_le_mul_right _ (by omega)
    apply AtMost.trimmed_go
    simp only
    cases hf : (List.range 17).findSome? _ with
    | none => exact Interval.atMost_of_le hd h (Interval.floorAt_le_high hv _)
    | some d =>
      obtain ⟨n, -, hn⟩ := List.exists_of_findSome?_eq_some hf
      obtain ⟨d', hd', rfl⟩ := Option.map_eq_some_iff.mp hn
      exact Interval.atMost_of_le hd h
        (Interval.le_high_of_holds (Interval.holds_of_pick? hd'))

end Decimal

/-! ## Floats -/

theorem Binary64.ofFloat_bounds {x : Float} {negative : Bool} {s : Nat} {e : Int}
    (h : Binary64.ofFloat x = .finite negative s e) : s < 2 ^ 53 ∧ -1074 ≤ e ∧ e ≤ 971 := by
  unfold ofFloat ofFields leastExponent leastNormal at h
  simp only at h
  split at h
  · split at h <;> cases h
  · split at h
    · cases h
      omega
    · cases h
      omega

/-! ## The literals of floats -/

namespace Decimal.Layout

theorem value?_pointLiteral {n : Int} (h : n ≤ 288) (keepPoint negative : Bool)
    (digits : List Char) : (pointLiteral keepPoint negative digits n).value?.isSome = true := by
  unfold pointLiteral
  simp only
  split
  · exact Numeral.value?_isSome_of_short rfl (by simp)
  · split
    · refine Numeral.value?_isSome_of_short rfl ?_
      simp only [List.length_append, List.length_replicate]
      omega
    · refine Numeral.value?_isSome_of_short rfl ?_
      simp only [List.length_take]
      omega

theorem decimal_powerLiteral (negative : Bool) (k : Nat) (e : Int) :
    (powerLiteral negative (digitsOf k) ((digitsOf k).length + e - 1)).decimal = ⟨k, e⟩ := by
  have hpos := length_digitsOf_pos k
  have hfraction : (if (digitsOf k).tail.isEmpty then none else some (digitsOf k).tail).getD [] =
      (digitsOf k).tail := by
    split
    · rename_i hempty
      rw [List.isEmpty_iff.mp hempty]
      rfl
    · rfl
  have hexponent : ∀ x : Int, Numeral.exponentValue ⟨negative, (digitsOf k).take 1,
      if (digitsOf k).tail.isEmpty then none else some (digitsOf k).tail,
        some (decide (x < 0), digitsOf x.natAbs)⟩ = x := by
    intro x
    by_cases hx : x < 0
    · simp only [Numeral.exponentValue, hx, decide_true, valueOf_digitsOf]
      omega
    · simp only [Numeral.exponentValue, hx, decide_false, valueOf_digitsOf]
      omega
  unfold powerLiteral Numeral.decimal
  simp only [hexponent, hfraction]
  rw [← List.drop_one, List.take_append_drop, valueOf_digitsOf, List.length_drop]
  congr 1
  omega

theorem valueOf_take_digitsOf (k : Nat) : valueOf ((digitsOf k).take 1) ≤ Numeral.maxWord := by
  cases hk : digitsOf k with
  | nil => exact Nat.zero_le _
  | cons c r =>
    obtain ⟨d, hd, rfl⟩ := mem_digitsOf (n := k) (c := c) (by rw [hk]; exact List.mem_cons_self ..)
    show 10 * 0 + ((digitChar d).toNat - 48) ≤ 18446744073709551615
    rw [digitChar_toNat d hd]
    omega

/-- a decimal that does not exceed the midpoint is read again -/
theorem value?_literal {l : Layout} {least greatest : Int}
    (hl : l.positional = some (least, greatest)) (hgreatest : greatest ≤ 288) (negative : Bool)
    {d : Decimal} (h : d.AtMost Numeral.limit) : (l.literal negative d).value?.isSome = true := by
  unfold literal
  simp only [hl]
  split
  · exact value?_pointLiteral (by omega) ..
  · apply Numeral.value?_isSome
    · exact valueOf_take_digitsOf d.digits
    · rw [decimal_powerLiteral]
      exact h

end Decimal.Layout

namespace Json

/-- the text of the greatest float is above the midpoint and still no greater than all floats -/
theorem value?_greatest (negative : Bool) : (Script.Number.layout.literal negative
    (Decimal.shortest (2 ^ 53 - 1) 971)).value?.isSome = true := by
  cases negative <;> decide +kernel

/-- the midpoint after any float but the greatest -/
theorem midpoint_le_limit {s : Nat} {e : Int} (hs : s < 2 ^ 53) (he : e ≤ 971)
    (h : ¬ (s = 2 ^ 53 - 1 ∧ e = 971)) :
    (4 * s + 2) * 2 ^ (e - 2).toNat ≤ Numeral.limit * 2 ^ (-(e - 2)).toNat := by
  have hbound : (4 * s + 2) * 2 ^ (e - 2).toNat ≤ Numeral.limit := by
    by_cases htop : e = 971
    · subst htop
      calc (4 * s + 2) * 2 ^ 969 ≤ (2 ^ 54 - 3) * 2 * 2 ^ 969 := Nat.mul_le_mul_right _ (by omega)
        _ = Numeral.limit := by rw [Nat.mul_assoc, ← Nat.pow_succ', Numeral.limit]
    · calc (4 * s + 2) * 2 ^ (e - 2).toNat
          ≤ (2 ^ 54 - 3) * 2 ^ 2 * 2 ^ 968 :=
            Nat.mul_le_mul (by omega) (Nat.pow_le_pow_right (by omega) (by omega))
        _ = Numeral.limit := by rw [Nat.mul_assoc, ← Nat.pow_add, Numeral.limit]
  exact Nat.le_trans hbound (Nat.le_mul_of_pos_right _ (Nat.two_pow_pos _))

/-- what a script writes for a finite float is in range -/
theorem value?_literal_float {x : Float} (h : Binary64.isFinite x = true) :
    (Number.literal Script.Number.layout (.float x)).value?.isSome = true := by
  obtain ⟨negative, s, e, hx⟩ := isFinite_iff.mp h
  obtain ⟨hs, hleast, hgreatest⟩ := Binary64.ofFloat_bounds hx
  simp only [Number.literal, hx]
  by_cases htop : s = 2 ^ 53 - 1 ∧ e = 971
  · obtain ⟨rfl, rfl⟩ := htop
    exact value?_greatest _
  · exact Decimal.Layout.value?_literal rfl (by decide) _
      (Decimal.shortest_atMost (midpoint_le_limit hs hgreatest htop))

/-- Whether a script can write a number: a finite one, and of the integers those that are exact. -/
def Number.Exact : Number → Prop
  | .int i => i.natAbs ≤ Script.Number.greatestExact
  | .float x => Binary64.isFinite x = true

theorem Number.Exact.reread {n : Number} (h : n.Exact) :
    (n.reread Script.Number.layout).isSome = true := by
  rw [Number.reread, Option.isSome_map]
  cases n with
  | int i =>
    apply Numeral.value?_isSome_of_short rfl
    show (Decimal.digitsOf i.natAbs).length ≤ 288
    by_cases hzero : i.natAbs = 0
    · rw [hzero, Decimal.digitsOf_zero]
      decide
    · by_contra hlong
      have hle : 10 ^ 16 ≤ i.natAbs := by
        calc 10 ^ 16 ≤ 10 ^ ((Decimal.digitsOf i.natAbs).length - 1) :=
              Nat.pow_le_pow_right (by omega) (by omega)
          _ ≤ i.natAbs := Decimal.pow_length_digitsOf_le hzero
      exact absurd (Nat.le_trans hle h) (by decide)
  | float x => exact value?_literal_float h

end Json

end ViewDesign
