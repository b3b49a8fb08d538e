import ViewDesign.Proofs.Json.Range

/-!
# The numbers of literals are finite

A literal below one is divided by powers of ten.  Such a step rounds, and it may give a float whose
exponent is greater than the one before, but only by the bits of a mantissa; the few steps that are
made never reach the greatest exponent.

* `Within`                  zero, or a float with at most a certain exponent;
* `Within.div`              what a division adds to the exponent;
* `within_iff_finite`       a float is finite if it is within the greatest exponent;
* `Numeral.value?_finite`   the value of a literal is an integer or a finite float.
-/

namespace ViewDesign.Rounding

open Float.Model Float.Model.UnpackedFloat

/-! ## Rounding -/

theorem shiftRight_mantissa (em : ExtendedMantissa) (n : Nat) :
    (em >>> n).mantissa = em.mantissa / 2 ^ n := by
  induction n with
  | zero =>
    rw [Nat.pow_zero, Nat.div_one]
    rfl
  | succ n ih =>
    show (ExtendedMantissa.shiftRightOne (em >>> n)).mantissa = _
    rw [ExtendedMantissa.shiftRightOne, ih, Nat.div_div_eq_div_mul, Nat.pow_succ]

theorem roundedMantissa_le_succ (em : ExtendedMantissa) : em.roundedMantissa ≤ em.mantissa + 1 := by
  unfold ExtendedMantissa.roundedMantissa
  cases em.accuracy with
  | exact => simp [Accuracy.roundToNearestEven]
  | inexact order =>
    cases order <;> simp [Accuracy.roundToNearestEven]
    omega

theorem ofMantissaAndAccuracy_mantissa (m : Nat) (accuracy : Accuracy) :
    (ExtendedMantissa.ofMantissaAndAccuracy m accuracy).mantissa = m := by
  cases accuracy with
  | exact => rfl
  | inexact order => cases order <;> rfl

/-- The exponent to which a mantissa is shifted. -/
def raised (m : Nat) (x : Int) : Int := max x (max ((m.log2 : Int) - 52 + x) (-1074))

/-- a shifted mantissa has fifty-three bits at most -/
theorem shiftToTargetExponent_spec (m : Nat) (x : Int) (accuracy : Accuracy) :
    (shiftToTargetExponent Format.binary64 m x accuracy).1.mantissa < 2 ^ 53 ∧
      (shiftToTargetExponent Format.binary64 m x accuracy).2 = raised m x := by
  rw [shiftToTargetExponent, targetExponent_eq, shiftToExponent]
  refine ⟨?_, ?_⟩
  · rw [shiftRight_mantissa, ofMantissaAndAccuracy_mantissa,
      Nat.div_lt_iff_lt_mul (Nat.two_pow_pos _), ← Nat.pow_add]
    exact Nat.lt_of_lt_of_le Nat.lt_log2_self (Nat.pow_le_pow_right (by omega) (by omega))
  · unfold raised
    omega

/-- Zero, or a number with at most a certain exponent. -/
def AtMost (k : Int) : UnpackedFloat → Prop
  | .zero _ => True
  | .finite _ _ e _ => e ≤ k
  | _ => False

/-- rounding may make a mantissa one bit longer, and its exponent greater by one -/
theorem atMost_round (s : Sign) (m : Nat) (x : Int) (accuracy : Accuracy) :
    AtMost (raised m x + 1) (roundWithAccuracy Format.binary64 s m x accuracy) := by
  obtain ⟨hfirst, hexponent⟩ := shiftToTargetExponent_spec m x accuracy
  unfold roundWithAccuracy
  generalize shiftToTargetExponent Format.binary64 m x accuracy = first at hfirst hexponent
  obtain ⟨em, e⟩ := first
  obtain rfl : e = raised m x := hexponent
  have hrounded : em.roundedMantissa ≤ 2 ^ 53 :=
    Nat.le_trans (roundedMantissa_le_succ em) hfirst
  have hlog : em.roundedMantissa.log2 ≤ 53 := by
    by_cases hzero : em.roundedMantissa = 0
    · rw [hzero]
      decide
    · exact Nat.lt_succ_iff.mp ((Nat.log2_lt hzero).mpr (by omega))
  have hleast : -1074 ≤ raised m x := by
    unfold raised
    omega
  obtain ⟨-, hsecond⟩ := shiftToTargetExponent_spec em.roundedMantissa (raised m x) .exact
  dsimp only
  generalize shiftToTargetExponent Format.binary64 em.roundedMantissa (raised m x) .exact = second
    at hsecond
  by_cases hzero : second.1.mantissa = 0
  · rw [dif_pos hzero]
    trivial
  · rw [dif_neg hzero]
    show second.2 ≤ _
    rw [hsecond]
    generalize raised m x = y at *
    unfold raised
    omega

/-! ## Floats -/

/-- Zero, or a float with at most a certain exponent. -/
def Within (x : Float) (k : Int) : Prop := AtMost k x.toModel.unpack

theorem AtMost.mono {j k : Int} {u : UnpackedFloat} (h : AtMost j u) (hk : j ≤ k) : AtMost k u := by
  cases u with
  | finite s m e hm => exact Int.le_trans h hk
  | _ => exact h

/-- a word whose exponent is not the greatest is that of a number -/
theorem unpack_atMost {v : BitVec 64} {field : Nat}
    (hfield : (@unpackExponent Format.binary64 v).toNat = field) (h : field < 2047) :
    AtMost (max ((field : Int) - 1075) (-1074)) (UnpackedFloat.unpack Format.binary64 v) := by
  have hones : @unpackExponent Format.binary64 v ≠ -1#11 := by
    intro heq
    rw [heq] at hfield
    have hall : (-1#11).toNat = 2047 := rfl
    omega
  unfold UnpackedFloat.unpack
  dsimp only
  rw [if_neg hones]
  by_cases hzero : @unpackExponent Format.binary64 v = 0#11
  · have hnil : field = 0 := by
      rw [← hfield, hzero]
      rfl
    rw [if_pos hzero]
    by_cases hmantissa : @unpackMantissa Format.binary64 v = 0#52
    · rw [dif_pos hmantissa]
      trivial
    · rw [dif_neg hmantissa]
      show ((@unpackExponent Format.binary64 v).toNat : Int) - (1023 + 52) + 1 ≤ _
      omega
  · rw [if_neg hzero]
    show ((@unpackExponent Format.binary64 v).toNat : Int) - (1023 + 52) ≤ _
    omega

theorem unpack_components (s : Sign) {field : Nat} (h : field < 2047) (fraction : BitVec 52) :
    AtMost (max ((field : Int) - 1075) (-1074)) (UnpackedFloat.unpack Format.binary64
      (packComponents Format.binary64 s (BitVec.ofNat 11 field) fraction)) := by
  refine unpack_atMost ?_ h
  rw [unpackExponent_packComponents, BitVec.toNat_ofNat]
  exact Nat.mod_eq_of_lt (Nat.lt_succ_of_lt h)

/-- packing a number whose exponent is small enough keeps it a number -/
theorem within_pack {u : UnpackedFloat} {k : Int} (h : AtMost k u) (hleast : -1074 ≤ k)
    (hgreatest : k ≤ 971) : Within (.ofModel (.pack u)) k := by
  show AtMost k (UnpackedFloat.unpack Format.binary64 (UnpackedFloat.pack Format.binary64 u))
  cases u with
  | infinity s => cases h
  | notANumber => cases h
  | zero s => exact (unpack_components s (show 0 < 2047 by omega) 0#52).mono (by omega)
  | finite s m e hm =>
    have he : e ≤ k := h
    rw [pack_finite, if_neg (by omega)]
    split
    · exact (unpack_components s (show (e + 1023 + 52).toNat < 2047 by omega) _).mono (by omega)
    · exact (unpack_components s (show 0 < 2047 by omega) _).mono (by omega)

/-- a number that is not packed as an infinity is packed as a number -/
theorem within_pack_of_not_inf {u : UnpackedFloat} {k : Int} (h : AtMost k u)
    (hinf : (Float.ofModel (.pack u)).isInf = false) : Within (.ofModel (.pack u)) 971 := by
  cases u with
  | infinity s => cases h
  | notANumber => cases h
  | zero s => exact within_pack (u := .zero s) trivial (by omega) (by omega)
  | finite s m e hm =>
    by_cases he : e ≤ 971
    · exact within_pack (u := .finite s m e hm) he (by omega) (by omega)
    · have hpacked : UnpackedFloat.pack Format.binary64 (.finite s m e hm) =
          packedInfinity Format.binary64 s := by rw [pack_finite, if_pos (by omega)]
      have hunpacked : (UnpackedFloat.unpack Format.binary64
          (packedInfinity Format.binary64 s)).isInf = true := by
        cases s <;> decide
      change (UnpackedFloat.unpack Format.binary64
        (UnpackedFloat.pack Format.binary64 (.finite s m e hm))).isInf = false at hinf
      rw [hpacked, hunpacked] at hinf
      cases hinf

theorem unpackExponent_bits (x : Float) :
    (@unpackExponent Format.binary64 x.toModel.toBits.toBitVec).toNat =
      x.toBits.toNat / 2 ^ 52 % 2 ^ 11 := by
  unfold unpackExponent
  rw [BitVec.toNat_cast]
  show (x.toModel.toBits.toBitVec.extractLsb 62 52).toNat = _
  rw [BitVec.extractLsb_toNat, Nat.shiftRight_eq_div_pow]
  rfl

theorem isFinite_iff_exponent (x : Float) :
    Binary64.isFinite x = true ↔ x.toBits.toNat / 2 ^ 52 % 2 ^ 11 ≠ 2047 := by
  unfold Binary64.isFinite Binary64.ofFloat Binary64.ofFields Binary64.leastNormal
  dsimp only
  by_cases hfield : x.toBits.toNat / 4503599627370496 % 2048 = 2047
  · rw [if_pos hfield]
    by_cases hfraction : x.toBits.toNat % 4503599627370496 = 0
    · simp [hfield, hfraction]
    · simp [hfield, hfraction]
  · rw [if_neg hfield]
    by_cases hzero : x.toBits.toNat / 4503599627370496 % 2048 = 0
    · simp [hzero]
    · simp [hfield, hzero]

/-- **Finite floats.** A float is finite exactly if it is within the greatest exponent. -/
theorem within_iff_finite {x : Float} : Within x 971 ↔ Binary64.isFinite x = true := by
  have hfield := unpackExponent_bits x
  rw [isFinite_iff_exponent]
  constructor
  · intro h heq
    rw [heq] at hfield
    have hones : @unpackExponent Format.binary64 x.toModel.toBits.toBitVec = -1#11 :=
      BitVec.eq_of_toNat_eq hfield
    change AtMost _ (UnpackedFloat.unpack Format.binary64 x.toModel.toBits.toBitVec) at h
    unfold UnpackedFloat.unpack at h
    dsimp only at h
    rw [if_pos hones] at h
    split at h <;> exact h
  · intro hne
    exact (unpack_atMost hfield (by omega)).mono (by omega)

theorem Within.mono {x : Float} {j k : Int} (h : Within x j) (hk : j ≤ k) : Within x k :=
  AtMost.mono h hk

theorem Normal.within {x : Float} {m a : Nat} (h : Normal x m a) : Within x ((a : Int) - 52) := by
  obtain ⟨s, hm, hunpack⟩ := h.unpack
  unfold Within
  rw [hunpack]
  exact Int.le_refl _

theorem Within.cases {x : Float} {k : Int} (h : Within x k) :
    (∃ s, x.toModel.unpack = .zero s) ∨
      ∃ s m e hm, x.toModel.unpack = .finite s m e hm ∧ e ≤ k := by
  unfold Within at h
  generalize x.toModel.unpack = u at h
  cases u with
  | zero s => exact Or.inl ⟨s, rfl⟩
  | finite s m e hm => exact Or.inr ⟨s, m, e, hm, rfl, h⟩
  | infinity s => cases h
  | notANumber => cases h

/-! ## Operations -/

theorem Within.neg {x : Float} (h : Within x 971) : Within (-x) 971 := by
  have hneg : AtMost 971 x.toModel.unpack.neg := by
    obtain ⟨s, hx⟩ | ⟨s, m, e, hm, hx, he⟩ := h.cases
    · rw [hx]
      trivial
    · rw [hx]
      exact he
  exact within_pack hneg (by omega) (by omega)

/-- a product of numbers that is not infinite is a number -/
theorem Within.mul {x y : Float} {j k : Int} (hx : Within x j) (hy : Within y k)
    (h : (x * y).isInf = false) : Within (x * y) 971 := by
  have hmul : ∃ i, AtMost i
      (UnpackedFloat.mul Format.binary64 x.toModel.unpack y.toModel.unpack) := by
    obtain ⟨s, hx⟩ | ⟨s, m, e, hm, hx, -⟩ := hx.cases <;>
      obtain ⟨t, hy⟩ | ⟨t, n, f, hn, hy, -⟩ := hy.cases <;> rw [hx, hy]
    · exact ⟨0, trivial⟩
    · exact ⟨0, trivial⟩
    · exact ⟨0, trivial⟩
    · exact ⟨_, atMost_round (s * t) (m * n) (e + f) .exact⟩
  obtain ⟨i, hi⟩ := hmul
  exact within_pack_of_not_inf hi h

theorem unpack_lt {v : BitVec 64} {s : Sign} {m : Nat} {e : Int} {hm : 0 < m}
    (h : UnpackedFloat.unpack Format.binary64 v = .finite s m e hm) : m < 2 ^ 53 := by
  unfold UnpackedFloat.unpack at h
  dsimp only at h
  by_cases hones : @unpackExponent Format.binary64 v = -1#11
  · rw [if_pos hones] at h
    by_cases hmantissa : @unpackMantissa Format.binary64 v = 0#52
    · rw [if_pos hmantissa] at h
      cases h
    · rw [if_neg hmantissa] at h
      cases h
  · rw [if_neg hones] at h
    by_cases hzero : @unpackExponent Format.binary64 v = 0#11
    · rw [if_pos hzero] at h
      by_cases hmantissa : @unpackMantissa Format.binary64 v = 0#52
      · rw [dif_pos hmantissa] at h
        cases h
      · rw [dif_neg hmantissa] at h
        cases h
        exact Nat.lt_trans (BitVec.isLt _) (by decide)
    · rw [if_neg hzero] at h
      cases h
      exact BitVec.isLt _

/-- the exponent of a quotient, before it is rounded -/
theorem raised_quotient {m n : Nat} {e f k : Int} (hm : m < 2 ^ 53) (hn : 2 ^ 52 ≤ n)
    (he : e ≤ k) (hf : -52 ≤ f) (hk : -1074 ≤ k) :
    raised (divCore Format.binary64 m e n f).1 (divCore Format.binary64 m e n f).2.1 ≤ k + 52 := by
  unfold divCore
  dsimp only
  generalize Format.binary64.targetExponent (totalExponent m e - totalExponent n f) = t
  have hlog : ((m <<< (e - f - min (e - f) t).toNat / n).log2 : Int) ≤
      e - f - min (e - f) t := by
    generalize hshift : (e - f - min (e - f) t).toNat = shift
    have hlt : m <<< shift / n < 2 ^ (shift + 1) := by
      rw [Nat.div_lt_iff_lt_mul (by omega), Nat.shiftLeft_eq]
      calc m * 2 ^ shift < 2 ^ 53 * 2 ^ shift := Nat.mul_lt_mul_of_pos_right hm (Nat.two_pow_pos _)
        _ = 2 ^ (shift + 1) * 2 ^ 52 := by ring
        _ ≤ 2 ^ (shift + 1) * n := Nat.mul_le_mul_left _ hn
    have hle : (m <<< shift / n).log2 ≤ shift := by
      by_cases hzero : m <<< shift / n = 0
      · rw [hzero]
        exact Nat.zero_le _
      · exact Nat.lt_succ_iff.mp ((Nat.log2_lt hzero).mpr hlt)
    omega
  unfold raised
  omega

/-- a quotient by a float of at least one -/
theorem Within.div {x y : Float} {n b : Nat} {k : Int} (hx : Within x k) (hy : Normal y n b)
    (hleast : -1074 ≤ k) (hgreatest : k ≤ 918) : Within (x / y) (k + 53) := by
  obtain ⟨t, hn, huy⟩ := hy.unpack
  have hdiv : AtMost (k + 53)
      (UnpackedFloat.div Format.binary64 x.toModel.unpack y.toModel.unpack) := by
    obtain ⟨s, hx⟩ | ⟨s, m, e, hm, hx, he⟩ := hx.cases
    · rw [hx, huy]
      trivial
    · rw [hx, huy]
      have hround := atMost_round (s / t) (divCore Format.binary64 m e n (b - 52)).1
        (divCore Format.binary64 m e n (b - 52)).2.1 (divCore Format.binary64 m e n (b - 52)).2.2
      refine AtMost.mono hround ?_
      have hraised := raised_quotient (e := e) (f := b - 52) (unpack_lt hx) hy.lower he (by omega)
        hleast
      omega
  exact within_pack hdiv (by omega) (by omega)

theorem within_zero (k : Int) : Within 0 k := by
  show AtMost k (Float.toModel 0).unpack
  have hzero : (Float.toModel 0).unpack = .zero .positive := by rfl
  rw [hzero]
  trivial

theorem within_ofNat {s : Nat} (h : s < 2 ^ 64) : Within (Float.ofNat s) 12 := by
  by_cases hpos : s = 0
  · subst hpos
    exact within_zero 12
  · obtain ⟨m, a, hm, hvalue⟩ := normal_ofNat hpos h
    have hlog : s.log2 ≤ 63 := Nat.lt_succ_iff.mp ((Nat.log2_lt hpos).mpr h)
    have hrounded := (nearest_spare (m := s * 2 ^ 53) (by omega)).2
    rw [spare_mul_pow hpos] at hrounded
    have hpower : 2 ^ (52 + a) ≤ 2 ^ 116 := by
      calc 2 ^ (52 + a) = 2 ^ 52 * 2 ^ a := Nat.pow_add ..
        _ ≤ m * 2 ^ a := Nat.mul_le_mul_right _ hm.lower
        _ = rounded s := hvalue
        _ ≤ 2 ^ 53 * 2 ^ 63 :=
          Nat.mul_le_mul hrounded (Nat.pow_le_pow_right (by omega) hlog)
        _ = 2 ^ 116 := by rw [← Nat.pow_add]
    have ha : 52 + a ≤ 116 := (Nat.pow_le_pow_iff_right (by omega)).mp hpower
    exact hm.within.mono (by omega)

end ViewDesign.Rounding

/-! ## Literals -/

namespace ViewDesign.Numeral

open Rounding

/-- each step of a division adds the bits of a mantissa at most -/
theorem within_divideByPower (steps : Nat) {x : Float} {k : Int} (hx : Within x k)
    (hleast : -1074 ≤ k) (hgreatest : k + 53 * steps ≤ 971) (e : Nat) :
    Within (divideByPower steps x e) 971 := by
  induction steps generalizing x k e with
  | zero => exact within_zero 971
  | succ steps ih =>
    unfold divideByPower
    split
    · rename_i he
      obtain ⟨m, a, hm, -⟩ := normal_power he
      exact (hx.div hm hleast (by omega)).mono (by omega)
    · obtain ⟨m, a, hm, -⟩ := normal_power (Nat.le_refl 308)
      exact ih (hx.div hm hleast (by omega)) (by omega) (by omega) _

theorem within_scaled? {s : Nat} {e : Int} {x : Float} (hs : s ≤ maxWord)
    (h : scaled? s e = some x) : Within x 971 := by
  have hword : Within (Float.ofNat s) 12 := within_ofNat (Nat.lt_succ_of_le hs)
  unfold scaled? at h
  dsimp only at h
  split at h
  · obtain rfl := Option.some.inj h
    exact within_divideByPower 4 hword (by omega) (by omega) _
  · split at h
    · obtain rfl := Option.some.inj h
      exact within_zero 971
    · split at h
      · cases h
      · split at h
        · cases h
        · rename_i he hinf
          obtain rfl := Option.some.inj h
          obtain ⟨m, a, hm, -⟩ := normal_power (e := e.toNat) (by omega)
          exact hword.mul hm.within (by simpa using hinf)

/-- **Literals.** The value of a literal is an integer or a finite float. -/
theorem value?_finite {n : Numeral} {x : Float} (h : n.value? = some (.float x)) :
    Binary64.isFinite x = true := by
  obtain ⟨hword, -⟩ := collect_spec (show 0 ≤ maxWord by decide) n.whole
  rw [← within_iff_finite]
  unfold value? at h
  dsimp only at h
  split at h
  · split at h
    · cases h
    · split at h
      · cases h
      · cases h
        exact ((within_ofNat (Nat.lt_succ_of_le hword)).mono (by omega)).neg
  · obtain ⟨hdigits, -⟩ := collect_spec hword (n.fraction.getD [])
    obtain ⟨y, hy, heq⟩ := Option.map_eq_some_iff.mp h
    have hwithin := within_scaled? hdigits hy
    cases heq
    split
    · exact hwithin.neg
    · exact hwithin

end ViewDesign.Numeral
