import Mathlib.Tactic.Ring
import ViewDesign.Decimal.Binary64

/-!
# How floats are rounded

A product is computed exactly and rounded once to fifty-three bits, to the nearest and of two to
the even one.  Whether it is still a number depends on how large the exact product is.

* `nearest`          a mantissa without its last bits, rounded;
* `nearest_le`       it is at most what the exact one is closer to;
* `Normal`           a float with a mantissa of fifty-three bits;
* `Normal.mul`       below the midpoint after the greatest float a product is such a float;
* `normal_ofNat`     so is the float nearest to a natural of sixty-four bits.
-/

namespace ViewDesign.Rounding

open Float.Model Float.Model.UnpackedFloat

/-! ## Dropping bits -/

/-- A mantissa without its last `n` bits, rounded to the nearest. -/
def nearest (m n : Nat) : Nat :=
  (ExtendedMantissa.ofMantissaAndAccuracy m .exact >>> n).roundedMantissa

theorem shiftRight_exact (m n : Nat) :
    ExtendedMantissa.ofMantissaAndAccuracy m .exact >>> (n + 1) =
      ⟨m / 2 ^ (n + 1), m / 2 ^ n % 2 != 0, m % 2 ^ n != 0⟩ := by
  induction n with
  | zero =>
    show ExtendedMantissa.shiftRightOne ⟨m, false, false⟩ = _
    simp [ExtendedMantissa.shiftRightOne, Nat.mod_one]
  | succ n ih =>
    show ExtendedMantissa.shiftRightOne
      (ExtendedMantissa.ofMantissaAndAccuracy m .exact >>> (n + 1)) = _
    have hmod : m % 2 ^ (n + 1) = m % 2 ^ n + 2 ^ n * (m / 2 ^ n % 2) := by
      rw [Nat.pow_succ, Nat.mod_mul]
    have hpos : 0 < 2 ^ n := Nat.two_pow_pos n
    rw [ih]
    simp only [ExtendedMantissa.shiftRightOne, Nat.div_div_eq_div_mul, ← Nat.pow_succ]
    congr 1
    rw [hmod]
    rcases Nat.mod_two_eq_zero_or_one (m / 2 ^ n) with h | h <;> rw [h] <;> simp

theorem nearest_zero (m : Nat) : nearest m 0 = m := rfl

theorem div_le_nearest (m n : Nat) : m / 2 ^ n ≤ nearest m n := by
  cases n with
  | zero => simp [nearest_zero]
  | succ n =>
    rw [nearest, shiftRight_exact]
    unfold ExtendedMantissa.roundedMantissa ExtendedMantissa.accuracy Accuracy.roundToNearestEven
    cases m / 2 ^ n % 2 != 0 <;> cases m % 2 ^ n != 0 <;> simp

theorem nearest_le_succ (m n : Nat) : nearest m n ≤ m / 2 ^ n + 1 := by
  cases n with
  | zero => simp [nearest_zero]
  | succ n =>
    rw [nearest, shiftRight_exact]
    unfold ExtendedMantissa.roundedMantissa ExtendedMantissa.accuracy Accuracy.roundToNearestEven
    cases m / 2 ^ n % 2 != 0 <;> cases m % 2 ^ n != 0 <;> simp
    omega

/-- what is below the midpoint after `c` is rounded to `c` at most -/
theorem nearest_le {m n c : Nat} (h : 2 * m < (2 * c + 1) * 2 ^ n) : nearest m n ≤ c := by
  cases n with
  | zero =>
    rw [nearest_zero]
    omega
  | succ n =>
    have hhalf : m / 2 ^ n < 2 * c + 1 := by
      rw [Nat.div_lt_iff_lt_mul (Nat.two_pow_pos n)]
      rw [Nat.pow_succ] at h
      have : (2 * c + 1) * (2 ^ n * 2) = 2 * ((2 * c + 1) * 2 ^ n) := by ring
      omega
    have hdiv : m / 2 ^ (n + 1) = m / 2 ^ n / 2 := by
      rw [Nat.pow_succ, Nat.div_div_eq_div_mul]
    by_cases hlt : m / 2 ^ (n + 1) < c
    · exact Nat.le_trans (nearest_le_succ m (n + 1)) hlt
    · have heven : m / 2 ^ n % 2 = 0 := by omega
      have hc : m / 2 ^ (n + 1) = c := by omega
      rw [nearest, shiftRight_exact, heven, hc]
      unfold ExtendedMantissa.roundedMantissa ExtendedMantissa.accuracy
        Accuracy.roundToNearestEven
      cases m % 2 ^ n != 0 <;> simp

theorem nearest_exact (c n : Nat) : nearest (c * 2 ^ n) n = c := by
  have hpos : 0 < 2 ^ n := Nat.two_pow_pos n
  apply Nat.le_antisymm
  · apply nearest_le
    rw [Nat.add_mul]
    have : 2 * (c * 2 ^ n) = 2 * c * 2 ^ n := by ring
    omega
  · have h := div_le_nearest (c * 2 ^ n) n
    rwa [Nat.mul_div_cancel _ hpos] at h

/-- what is rounded to `c` is at most the midpoint after `c` -/
theorem le_nearest (m n : Nat) : 2 * m ≤ (2 * nearest m n + 1) * 2 ^ n := by
  cases n with
  | zero =>
    rw [nearest_zero]
    omega
  | succ n =>
    have hpos : 0 < 2 ^ n := Nat.two_pow_pos n
    have hhalf : m / 2 ^ n = 2 * (m / 2 ^ (n + 1)) + m / 2 ^ n % 2 := by
      rw [Nat.pow_succ, ← Nat.div_div_eq_div_mul]
      omega
    have hm : m = 2 ^ n * (m / 2 ^ n) + m % 2 ^ n := (Nat.div_add_mod m (2 ^ n)).symm
    have hlt := Nat.mod_lt m hpos
    have hlow := div_le_nearest m (n + 1)
    -- only a tie is rounded down from beyond the midpoint's own half
    have hround : m / 2 ^ n * 2 ^ n + m % 2 ^ n ≤ (2 * nearest m (n + 1) + 1) * 2 ^ n := by
      by_cases hr : m % 2 ^ n = 0
      · rw [hr, Nat.add_zero]
        exact Nat.mul_le_mul_right _ (by omega)
      · have hnext : m / 2 ^ n + 1 ≤ 2 * nearest m (n + 1) + 1 := by
          by_cases hodd : m / 2 ^ n % 2 = 0
          · omega
          · have hup : nearest m (n + 1) = m / 2 ^ (n + 1) + 1 := by
              have h1 : (m / 2 ^ n % 2 != 0) = true := bne_iff_ne.mpr hodd
              have h2 : (m % 2 ^ n != 0) = true := bne_iff_ne.mpr hr
              rw [nearest, shiftRight_exact, h1, h2]
              rfl
            omega
        calc m / 2 ^ n * 2 ^ n + m % 2 ^ n
            ≤ (m / 2 ^ n + 1) * 2 ^ n := by rw [Nat.add_mul]; omega
          _ ≤ _ := Nat.mul_le_mul_right _ hnext
    rw [Nat.pow_succ]
    have h1 : 2 ^ n * (m / 2 ^ n) = m / 2 ^ n * 2 ^ n := Nat.mul_comm ..
    have h2 : (2 * nearest m (n + 1) + 1) * (2 ^ n * 2) =
        2 * ((2 * nearest m (n + 1) + 1) * 2 ^ n) := by ring
    omega

theorem nearest_mono {m m' : Nat} (h : m ≤ m') (n : Nat) : nearest m n ≤ nearest m' n := by
  rcases Nat.eq_or_lt_of_le h with rfl | hlt
  · exact Nat.le_refl _
  · apply nearest_le
    have := le_nearest m' n
    omega

/-- The bits of a mantissa beyond fifty-three. -/
def spare (m : Nat) : Nat := m.log2 - 52

theorem pow_spare_le {m : Nat} (h : 2 ^ 52 ≤ m) : 2 ^ 52 * 2 ^ spare m ≤ m := by
  have hne : m ≠ 0 := by omega
  have hlog : 52 ≤ m.log2 := (Nat.le_log2 hne).mpr h
  have hle := Nat.log2_self_le hne
  rw [spare, ← Nat.pow_add, show 52 + (m.log2 - 52) = m.log2 by omega]
  exact hle

theorem lt_pow_spare (m : Nat) : m < 2 ^ 53 * 2 ^ spare m := by
  have hlt : m < 2 ^ (m.log2 + 1) := Nat.lt_log2_self
  refine Nat.lt_of_lt_of_le hlt ?_
  rw [spare, ← Nat.pow_add]
  exact Nat.pow_le_pow_right (by omega) (by omega)

/-- a rounded mantissa has fifty-three bits, or is the least that has fifty-four -/
theorem nearest_spare {m : Nat} (h : 2 ^ 52 ≤ m) :
    2 ^ 52 ≤ nearest m (spare m) ∧ nearest m (spare m) ≤ 2 ^ 53 := by
  have hpos : 0 < 2 ^ spare m := Nat.two_pow_pos _
  have hlow : 2 ^ 52 ≤ m / 2 ^ spare m := (Nat.le_div_iff_mul_le hpos).mpr (pow_spare_le h)
  have hhigh : m / 2 ^ spare m < 2 ^ 53 := (Nat.div_lt_iff_lt_mul hpos).mpr (lt_pow_spare m)
  have h1 := div_le_nearest m (spare m)
  have h2 := nearest_le_succ m (spare m)
  omega

theorem targetExponent_eq (m : Nat) (x : Int) :
    Format.binary64.targetExponent (totalExponent m x) = max ((m.log2 : Int) - 52 + x) (-1074) := by
  have hbits : (Format.binary64.mantissaBits : Int) = 53 := rfl
  have hmin : Format.binary64.minExponent = -1074 := rfl
  rw [Format.targetExponent, totalExponent, hbits, hmin]
  congr 1
  omega

/-- what a mantissa of at least fifty-three bits is rounded to: its first fifty-three bits, or a
power of two -/
theorem roundWithAccuracy_eq {m : Nat} {x : Int} (s : Sign) (hm : 2 ^ 52 ≤ m)
    (hx : -1074 ≤ x + spare m) :
    ∃ r j, ∃ hr : 0 < r, roundWithAccuracy Format.binary64 s m x .exact =
        .finite s r (x + spare m + (j : Nat)) hr ∧
      2 ^ 52 ≤ r ∧ r < 2 ^ 53 ∧ r * 2 ^ j = nearest m (spare m) ∧
        (j = 0 ∨ j = 1 ∧ nearest m (spare m) = 2 ^ 53) := by
  have hne : m ≠ 0 := by omega
  have hlog : 52 ≤ m.log2 := (Nat.le_log2 hne).mpr hm
  have hspare : (spare m : Int) = m.log2 - 52 := by
    rw [spare]
    omega
  have hfirst : shiftToTargetExponent Format.binary64 m x .exact =
      (ExtendedMantissa.ofMantissaAndAccuracy m .exact >>> spare m, x + spare m) := by
    have hshift : (max ((m.log2 : Int) - 52 + x) (-1074) - x).toNat = spare m := by omega
    rw [shiftToTargetExponent, targetExponent_eq, shiftToExponent, hshift]
  obtain ⟨hlow, hhigh⟩ := nearest_spare hm
  have hround : roundWithAccuracy Format.binary64 s m x .exact =
      (let final := shiftToTargetExponent Format.binary64 (nearest m (spare m)) (x + spare m) .exact
      if h : final.1.mantissa = 0 then .zero s
      else .finite s final.1.mantissa final.2 (Nat.pos_of_ne_zero h)) := by
    rw [roundWithAccuracy, hfirst]
    rfl
  -- rounding up may give one bit too many, and then the exponent is raised once more
  by_cases hlt : nearest m (spare m) < 2 ^ 53
  · have hlog' : (nearest m (spare m)).log2 = 52 := by
      rw [Nat.log2_eq_iff (by omega)]
      exact ⟨hlow, hlt⟩
    have hsecond : shiftToTargetExponent Format.binary64 (nearest m (spare m)) (x + spare m)
        .exact =
        (ExtendedMantissa.ofMantissaAndAccuracy (nearest m (spare m)) .exact, x + spare m + 0) := by
      have hshift : (max (((nearest m (spare m)).log2 : Int) - 52 + (x + spare m)) (-1074) -
          (x + spare m)).toNat = 0 := by
        rw [hlog']
        omega
      rw [shiftToTargetExponent, targetExponent_eq, shiftToExponent, hshift]
      rfl
    rw [hsecond] at hround
    refine ⟨nearest m (spare m), 0, by omega, ?_, hlow, hlt, Nat.mul_one _, Or.inl rfl⟩
    rw [hround]
    exact dif_neg (Nat.pos_iff_ne_zero.mp (by show 0 < nearest m (spare m); omega))
  · have htop : nearest m (spare m) = 2 ^ 53 := by omega
    have hsecond : shiftToTargetExponent Format.binary64 (2 ^ 53) (x + spare m) .exact =
        (ExtendedMantissa.ofMantissaAndAccuracy (2 ^ 53) .exact >>> 1, x + spare m + 1) := by
      have hlog' : (2 ^ 53).log2 = 53 := Nat.log2_two_pow
      have hshift : (max (((2 ^ 53).log2 : Int) - 52 + (x + spare m)) (-1074) -
          (x + spare m)).toNat = 1 := by
        rw [hlog']
        omega
      rw [shiftToTargetExponent, targetExponent_eq, shiftToExponent, hshift]
      rfl
    rw [htop, hsecond] at hround
    refine ⟨2 ^ 52, 1, by omega, ?_, by omega, by omega, ?_, Or.inr ⟨rfl, htop⟩⟩
    · rw [hround]
      rfl
    · rw [htop, ← Nat.pow_add]

/-! ## Floats -/

/-- A float `± m * 2 ^ (a - 52)` whose mantissa has fifty-three bits. -/
structure Normal (x : Float) (m a : Nat) : Prop where
  unpack : ∃ s h, x.toModel.unpack = .finite s m ((a : Int) - 52) h
  lower : 2 ^ 52 ≤ m
  upper : m < 2 ^ 53

theorem pack_finite (s : Sign) {m : Nat} (e : Int) (h : 0 < m) :
    UnpackedFloat.pack Format.binary64 (.finite s m e h) =
      if 2 ^ 11 ≤ (e + 1023 + 52).toNat + 1 then packedInfinity Format.binary64 s
      else if m.log2 + 1 = 53 then
        packComponents Format.binary64 s (BitVec.ofNat 11 (e + 1023 + 52).toNat) (BitVec.ofNat 52 m)
      else packComponents Format.binary64 s 0#11 (BitVec.ofNat 52 m) := rfl

/-- a word whose exponent is neither the greatest nor zero has a leading bit that it leaves out -/
theorem unpack_normal {v : BitVec 64} {m : Nat} {e : Int}
    (hones : @unpackExponent Format.binary64 v ≠ -1#11)
    (hzero : @unpackExponent Format.binary64 v ≠ 0#11)
    (hm : (1#1 ++ @unpackMantissa Format.binary64 v).toNat = m)
    (he : (@unpackExponent Format.binary64 v).toNat - (1023 + 52) = e) :
    ∃ s h, UnpackedFloat.unpack Format.binary64 v = .finite s m e h := by
  subst hm he
  exact ⟨_, _, (if_neg hones).trans (if_neg hzero)⟩

/-- a number of fifty-three bits is kept as it is -/
theorem normal_pack (s : Sign) {m a : Nat} (h : 0 < m) (hlow : 2 ^ 52 ≤ m) (hhigh : m < 2 ^ 53)
    (ha : a ≤ 1023) : Normal (.ofModel (.pack (.finite s m ((a : Int) - 52) h))) m a := by
  refine ⟨?_, hlow, hhigh⟩
  have hlog : m.log2 = 52 := (Nat.log2_eq_iff (by omega)).mpr ⟨hlow, hhigh⟩
  have hbias : ((a : Int) - 52 + 1023 + 52).toNat = a + 1023 := by omega
  have hpack : UnpackedFloat.pack Format.binary64 (.finite s m ((a : Int) - 52) h) =
      packComponents Format.binary64 s (BitVec.ofNat 11 (a + 1023)) (BitVec.ofNat 52 m) := by
    rw [pack_finite, hbias, if_neg (by omega), if_pos (by rw [hlog])]
  have hexponent : (BitVec.ofNat 11 (a + 1023)).toNat = a + 1023 := by
    rw [BitVec.toNat_ofNat]
    exact Nat.mod_eq_of_lt (by omega)
  have hmantissa : ((1#1 ++ BitVec.ofNat 52 m : BitVec (1 + 52))).toNat = m := by
    rw [BitVec.toNat_append, BitVec.toNat_ofNat, BitVec.toNat_ofNat,
      ← Nat.shiftLeft_add_eq_or_of_lt (Nat.mod_lt _ (by omega)), Nat.shiftLeft_eq]
    omega
  -- neither of the two exponents that stand for something else
  have hones : BitVec.ofNat 11 (a + 1023) ≠ -1#11 := by
    intro heq
    have := congrArg BitVec.toNat heq
    rw [hexponent] at this
    have hall : (-1#11).toNat = 2047 := rfl
    omega
  have hzero : BitVec.ofNat 11 (a + 1023) ≠ 0#11 := by
    intro heq
    have := congrArg BitVec.toNat heq
    rw [hexponent] at this
    have hall : (0#11).toNat = 0 := rfl
    omega
  obtain ⟨s', h', hunpack⟩ : ∃ s' h', UnpackedFloat.unpack Format.binary64 (packComponents
      Format.binary64 s (BitVec.ofNat 11 (a + 1023)) (BitVec.ofNat 52 m)) =
        .finite s' m ((a : Int) - 52) h' := by
    refine unpack_normal ?_ ?_ ?_ ?_
    · rw [unpackExponent_packComponents]
      exact hones
    · rw [unpackExponent_packComponents]
      exact hzero
    · rw [unpackMantissa_packComponents]
      exact hmantissa
    · rw [unpackExponent_packComponents, hexponent]
      omega
  refine ⟨s', h', ?_⟩
  show UnpackedFloat.unpack Format.binary64 (UnpackedFloat.pack Format.binary64 _) = _
  rw [hpack, hunpack]


/-- a number below the midpoint after the greatest float is rounded to a float -/
theorem normal_round (s : Sign) {m : Nat} {x : Int} (hm : 2 ^ 52 ≤ m) (hleast : -52 ≤ x + spare m)
    (hgreatest : x + spare m ≤ 970 ∨
      x + spare m = 971 ∧ 2 * m < (2 ^ 54 - 1) * 2 ^ spare m) :
    ∃ r a, Normal (.ofModel (.pack (roundWithAccuracy Format.binary64 s m x .exact))) r a ∧
      r * 2 ^ a = nearest m (spare m) * 2 ^ (x + spare m + 52).toNat := by
  obtain ⟨r, j, hr, hround, hlow, hhigh, hvalue, hj⟩ :=
    roundWithAccuracy_eq (x := x) s hm (by omega)
  have hexponent : x + spare m + (j : Nat) = (((x + spare m + 52).toNat + j : Nat) : Int) - 52 := by
    omega
  have hbound : (x + spare m + 52).toNat + j ≤ 1023 := by
    rcases hgreatest with h | ⟨h, hbelow⟩
    · omega
    · have := nearest_le (c := 2 ^ 53 - 1) hbelow
      omega
  refine ⟨r, (x + spare m + 52).toNat + j, ?_, ?_⟩
  · rw [hround]
    have := normal_pack s hr hlow hhigh hbound
    rwa [← hexponent] at this
  · rw [Nat.pow_add, ← hvalue]
    ring

/-- the bits of a product of two mantissas beyond fifty-three -/
theorem spare_mul {m n : Nat} (hm : 2 ^ 52 ≤ m) (hn : 2 ^ 52 ≤ n) : 52 ≤ spare (m * n) := by
  have hle : 2 ^ 52 * 2 ^ 52 ≤ m * n := Nat.mul_le_mul hm hn
  have : 104 ≤ (m * n).log2 := (Nat.le_log2 (by omega)).mpr hle
  rw [spare]
  omega

/-- a product below the midpoint after the greatest float is a float -/
theorem Normal.mul {x y : Float} {m a n b : Nat} (hx : Normal x m a) (hy : Normal y n b)
    (hsmall : m * 2 ^ a * (n * 2 ^ b) < (2 ^ 54 - 1) * 2 ^ 1074) :
    ∃ r c, Normal (x * y) r c ∧
      r * 2 ^ c = nearest (m * n) (spare (m * n)) * 2 ^ (a + b + spare (m * n) - 52) := by
  obtain ⟨s, hpos, hux⟩ := hx.unpack
  obtain ⟨s', hpos', huy⟩ := hy.unpack
  have hspare := spare_mul hx.lower hy.lower
  have hproduct : 2 ^ 52 ≤ m * n :=
    Nat.le_trans (by omega) (Nat.mul_le_mul hx.lower hy.lower)
  have hsmall' : m * n * 2 ^ (a + b) < (2 ^ 54 - 1) * 2 ^ 1074 := by
    rw [Nat.pow_add]
    calc m * n * (2 ^ a * 2 ^ b) = m * 2 ^ a * (n * 2 ^ b) := by ring
      _ < _ := hsmall
  have hmul : x * y = .ofModel (.pack (roundWithAccuracy Format.binary64 (s * s') (m * n)
      ((a : Int) - 52 + (b - 52)) .exact)) := by
    show Float.ofModel (.pack (UnpackedFloat.mul Format.binary64 x.toModel.unpack
      y.toModel.unpack)) = _
    rw [hux, huy]
    rfl
  -- the leading bit of the product bounds its exponent, and at the greatest exponent the rest does
  have hgreatest : ((a : Int) - 52 + (b - 52)) + spare (m * n) ≤ 970 ∨
      ((a : Int) - 52 + (b - 52)) + spare (m * n) = 971 ∧
        2 * (m * n) < (2 ^ 54 - 1) * 2 ^ spare (m * n) := by
    have hlead := pow_spare_le hproduct
    have hlt : a + b + spare (m * n) < 1076 := by
      by_contra hge
      have hlarge : 2 ^ 54 * 2 ^ 1074 ≤ m * n * 2 ^ (a + b) := by
        rw [← Nat.pow_add]
        calc 2 ^ (54 + 1074) ≤ 2 ^ (52 + spare (m * n) + (a + b)) :=
              Nat.pow_le_pow_right (by omega) (by omega)
          _ = 2 ^ 52 * 2 ^ spare (m * n) * 2 ^ (a + b) := by rw [Nat.pow_add, Nat.pow_add]
          _ ≤ m * n * 2 ^ (a + b) := Nat.mul_le_mul_right _ hlead
      have hless : (2 ^ 54 - 1) * 2 ^ 1074 ≤ 2 ^ 54 * 2 ^ 1074 := Nat.mul_le_mul_right _ (by omega)
      exact absurd (Nat.lt_of_lt_of_le hsmall' hless) (Nat.not_lt.mpr hlarge)
    by_cases htop : a + b + spare (m * n) = 1075
    · refine Or.inr ⟨by omega, ?_⟩
      apply Nat.lt_of_mul_lt_mul_right (a := 2 ^ (a + b))
      calc 2 * (m * n) * 2 ^ (a + b) = 2 * (m * n * 2 ^ (a + b)) := by ring
        _ < 2 * ((2 ^ 54 - 1) * 2 ^ 1074) := by omega
        _ = (2 ^ 54 - 1) * 2 ^ (a + b + spare (m * n)) := by
          rw [htop, Nat.pow_succ 2 1074, Nat.mul_comm 2, Nat.mul_assoc]
        _ = (2 ^ 54 - 1) * 2 ^ spare (m * n) * 2 ^ (a + b) := by
          rw [Nat.pow_add]
          ring
    · exact Or.inl (by omega)
  obtain ⟨r, c, hnormal, hvalue⟩ := normal_round (s * s') hproduct (by omega) hgreatest
  refine ⟨r, c, hmul ▸ hnormal, ?_⟩
  rw [hvalue]
  congr 2
  omega


/-! ## Naturals -/

/-- The float nearest to a natural, in units of `2 ^ -52`. -/
def rounded (s : Nat) : Nat := nearest (s * 2 ^ 53) (s.log2 + 1) * 2 ^ s.log2

theorem log2_mul_pow {s : Nat} (h : s ≠ 0) (n : Nat) : (s * 2 ^ n).log2 = s.log2 + n := by
  have hpos : 0 < 2 ^ n := Nat.two_pow_pos n
  rw [Nat.log2_eq_iff (Nat.mul_ne_zero h (by omega)), Nat.pow_add, Nat.add_right_comm, Nat.pow_add]
  exact ⟨Nat.mul_le_mul_right _ (Nat.log2_self_le h),
    Nat.mul_lt_mul_of_pos_right Nat.lt_log2_self hpos⟩

theorem spare_mul_pow {s : Nat} (h : s ≠ 0) : spare (s * 2 ^ 53) = s.log2 + 1 := by
  rw [spare, log2_mul_pow h]
  omega

/-- a natural of fifty-three bits is a float -/
theorem rounded_exact {s : Nat} (hpos : s ≠ 0) (h : s < 2 ^ 53) : rounded s = s * 2 ^ 52 := by
  have hlog : s.log2 ≤ 52 := Nat.lt_succ_iff.mp ((Nat.log2_lt hpos).mpr h)
  have hsplit : s * 2 ^ 53 = s * 2 ^ (52 - s.log2) * 2 ^ (s.log2 + 1) := by
    rw [Nat.mul_assoc, ← Nat.pow_add]
    congr 2
    omega
  rw [rounded, hsplit, nearest_exact, Nat.mul_assoc, ← Nat.pow_add]
  congr 2
  omega

theorem rounded_mono {s t : Nat} (hpos : s ≠ 0) (h : s ≤ t) : rounded s ≤ rounded t := by
  have hlog : s.log2 ≤ t.log2 :=
    (Nat.le_log2 (by omega)).mpr (Nat.le_trans (Nat.log2_self_le hpos) h)
  rcases Nat.eq_or_lt_of_le hlog with heq | hlt
  · rw [rounded, rounded, heq]
    exact Nat.mul_le_mul_right _ (nearest_mono (Nat.mul_le_mul_right _ h) _)
  · have hs := (nearest_spare (m := s * 2 ^ 53) (by omega)).2
    have ht := (nearest_spare (m := t * 2 ^ 53) (by omega)).1
    rw [spare_mul_pow hpos] at hs
    rw [spare_mul_pow (by omega)] at ht
    calc rounded s ≤ 2 ^ 53 * 2 ^ s.log2 := Nat.mul_le_mul_right _ hs
      _ = 2 ^ 52 * 2 ^ (s.log2 + 1) := by ring
      _ ≤ 2 ^ 52 * 2 ^ t.log2 := Nat.mul_le_mul_left _ (Nat.pow_le_pow_right (by omega) hlt)
      _ ≤ rounded t := Nat.mul_le_mul_right _ ht

/-- The natural in the same units, rounded up if it is halfway. -/
def roundedUp (s : Nat) : Nat :=
  (2 * (s * 2 ^ 53) + 2 ^ (s.log2 + 1)) / 2 ^ (s.log2 + 2) * 2 ^ s.log2

theorem rounded_le_roundedUp (s : Nat) : rounded s ≤ roundedUp s := by
  apply Nat.mul_le_mul_right
  apply nearest_le
  have hpos : 0 < 2 ^ (s.log2 + 2) := Nat.two_pow_pos _
  have hlt := Nat.lt_mul_div_succ (2 * (s * 2 ^ 53) + 2 ^ (s.log2 + 1)) hpos
  have hdouble : 2 ^ (s.log2 + 2) = 2 * 2 ^ (s.log2 + 1) := by ring
  generalize (2 * (s * 2 ^ 53) + 2 ^ (s.log2 + 1)) / 2 ^ (s.log2 + 2) = c at *
  have hexpand : 2 ^ (s.log2 + 2) * (c + 1) =
      (2 * c + 1) * 2 ^ (s.log2 + 1) + 2 ^ (s.log2 + 1) := by
    rw [hdouble]
    ring
  omega

theorem normal_toFloat {n : UInt64} (hpos : n.toNat ≠ 0) (h : n.toNat < 2 ^ 53) :
    ∃ m a, Normal n.toFloat m a ∧ m * 2 ^ a = n.toNat * 2 ^ 52 := by
  have hlog : n.toNat.log2 ≤ 52 := Nat.lt_succ_iff.mp ((Nat.log2_lt hpos).mpr h)
  have hshift : (0 - Format.binary64.targetExponent (totalExponent n.toNat 0)).toNat =
      52 - n.toNat.log2 := by
    rw [targetExponent_eq]
    omega
  have hround : n.toFloat = .ofModel (.pack (roundWithAccuracy Format.binary64 .positive
      (n.toNat * 2 ^ (52 - n.toNat.log2)) (0 - (52 - n.toNat.log2 : Nat)) .exact)) := by
    have hofNat : UnpackedFloat.ofUInt64 Format.binary64 n =
        UnpackedFloat.round Format.binary64 .positive n.toNat 0 := by
      rw [UnpackedFloat.ofUInt64, UnpackedFloat.ofNat, UnpackedFloat.ofInt, UnpackedFloat.normalize,
        show compare (n.toNat : Int) 0 = .gt from Int.compare_eq_gt.mpr (by omega)]
      rfl
    show Float.ofModel (.pack (UnpackedFloat.ofUInt64 Format.binary64 n)) = _
    rw [hofNat, UnpackedFloat.round, decreaseExponent, hshift, Nat.shiftLeft_eq]
  have hspare : spare (n.toNat * 2 ^ (52 - n.toNat.log2)) = 0 := by
    rw [spare, log2_mul_pow hpos]
    omega
  have hlow : 2 ^ 52 ≤ n.toNat * 2 ^ (52 - n.toNat.log2) := by
    calc 2 ^ 52 = 2 ^ n.toNat.log2 * 2 ^ (52 - n.toNat.log2) := by
          rw [← Nat.pow_add]
          congr 1
          omega
      _ ≤ _ := Nat.mul_le_mul_right _ (Nat.log2_self_le hpos)
  obtain ⟨m, a, hnormal, hvalue⟩ := normal_round (x := 0 - (52 - n.toNat.log2 : Nat)) .positive hlow
    (by omega) (Or.inl (by omega))
  refine ⟨m, a, hround ▸ hnormal, ?_⟩
  rw [hvalue, hspare, nearest_zero, Nat.mul_assoc, ← Nat.pow_add]
  congr 2
  omega

/-- The mantissa and the exponent of a number. -/
def parts? : UnpackedFloat → Option (Nat × Int)
  | .finite _ m e _ => some (m, e)
  | _ => none

theorem normal_of_parts {x : Float} {m : Nat} {e : Int} (h : parts? x.toModel.unpack = some (m, e))
    (hlow : 2 ^ 52 ≤ m) (hhigh : m < 2 ^ 53) (he : -52 ≤ e) : Normal x m (e + 52).toNat := by
  refine ⟨?_, hlow, hhigh⟩
  cases hx : x.toModel.unpack with
  | finite s n k hpos =>
    rw [hx] at h
    cases h
    have he' : e = ((e + 52).toNat : Int) - 52 := by omega
    exact ⟨s, hpos, by rw [← he']⟩
  | _ =>
    rw [hx] at h
    cases h

theorem normal_one : Normal (Float.ofBits 4607182418800017408) (2 ^ 52) 0 :=
  normal_of_parts (e := -52) (by decide) (by decide) (by decide) (by decide)

/-- a decimal whose digits or exponent are no exact floats is rounded once -/
theorem ofScientific_eq {s : Nat} (hpos : s ≠ 0) (e : Nat) (h : ¬ (s < 2 ^ 53 ∧ e ≤ 22))
    (he : e ≤ 2048) : Float.ofScientific s false e = .ofModel (.pack (roundWithAccuracy
      Format.binary64 .positive (s * 10 ^ e * 2 ^ 53) (-53) .exact)) := by
  have hbits : (2 : Int) ^ Format.binary64.exponentBits = 2048 := rfl
  have hmul : UnpackedFloat.ofScientific Format.binary64 s (Int.ofNat e) =
      roundWithAccuracy Format.binary64 .positive (s <<< 53 * 10 ^ e) (-53) .exact := by
    rw [UnpackedFloat.ofScientific, dif_neg hpos, if_neg (by rw [hbits]; simp; omega),
      if_neg (by rw [hbits]; simp; omega), if_pos (by simp)]
    rfl
  rw [Float.ofScientific, dif_neg h]
  show Float.ofModel (.pack (UnpackedFloat.ofScientific Format.binary64 s (Int.ofNat e))) = _
  rw [hmul, Nat.shiftLeft_eq, Nat.mul_right_comm]

/-- a natural below the midpoint after the greatest float -/
theorem normal_scaled {s : Nat} (hpos : s ≠ 0) (h : s < (2 ^ 54 - 1) * 2 ^ 970) :
    ∃ m a, Normal (.ofModel (.pack (roundWithAccuracy Format.binary64 .positive (s * 2 ^ 53) (-53)
      .exact))) m a ∧ m * 2 ^ a = rounded s := by
  have hspare := spare_mul_pow hpos
  have hlog : s.log2 < 1024 := by
    apply (Nat.log2_lt hpos).mpr
    calc s < (2 ^ 54 - 1) * 2 ^ 970 := h
      _ ≤ 2 ^ 54 * 2 ^ 970 := Nat.mul_le_mul_right _ (by omega)
      _ = 2 ^ 1024 := by rw [← Nat.pow_add]
  have hgreatest : -53 + (spare (s * 2 ^ 53) : Int) ≤ 970 ∨ -53 + (spare (s * 2 ^ 53) : Int) = 971 ∧
      2 * (s * 2 ^ 53) < (2 ^ 54 - 1) * 2 ^ spare (s * 2 ^ 53) := by
    by_cases htop : s.log2 = 1023
    · refine Or.inr ⟨by omega, ?_⟩
      rw [hspare, htop]
      calc 2 * (s * 2 ^ 53) = s * 2 ^ 54 := by ring
        _ < (2 ^ 54 - 1) * 2 ^ 970 * 2 ^ 54 := Nat.mul_lt_mul_of_pos_right h (by decide)
        _ = _ := by rw [Nat.mul_assoc, ← Nat.pow_add]
    · exact Or.inl (by omega)
  obtain ⟨r, c, hr, hvalue⟩ := normal_round .positive (by omega) (by omega) hgreatest
  refine ⟨r, c, hr, ?_⟩
  rw [hvalue, hspare, rounded]
  congr 2
  omega

theorem normal_ofNat {s : Nat} (hpos : s ≠ 0) (h : s < 2 ^ 64) :
    ∃ m a, Normal (Float.ofNat s) m a ∧ m * 2 ^ a = rounded s := by
  by_cases hsmall : s < 2 ^ 53
  · have hword : s.toUInt64.toNat = s := UInt64.toNat_ofNat_of_lt h
    obtain ⟨m, a, hm, hvalue⟩ := normal_toFloat (n := s.toUInt64) (by omega) (by omega)
    have hlow := hm.lower
    have hlt : m * 2 ^ a < 2 ^ 105 := by
      rw [hvalue, hword]
      omega
    have hproduct : m * 2 ^ a * (2 ^ 52 * 2 ^ 0) < (2 ^ 54 - 1) * 2 ^ 1074 := by
      calc m * 2 ^ a * (2 ^ 52 * 2 ^ 0) < 2 ^ 105 * (2 ^ 52 * 2 ^ 0) :=
            Nat.mul_lt_mul_of_pos_right hlt (by decide)
        _ = 2 ^ 157 := by rw [← Nat.pow_add, ← Nat.pow_add]
        _ ≤ 2 ^ 1074 := Nat.pow_le_pow_right (by omega) (by omega)
        _ ≤ _ := Nat.le_mul_of_pos_left _ (by decide)
    obtain ⟨r, c, hr, hsame⟩ := hm.mul normal_one hproduct
    have hof : Float.ofNat s = s.toUInt64.toFloat * Float.ofBits 4607182418800017408 := by
      show Float.ofScientific s false 0 = _
      rw [Float.ofScientific, dif_pos ⟨hsmall, Nat.zero_le _⟩]
      rfl
    have hlog : m.log2 = 52 := (Nat.log2_eq_iff (by omega)).mpr ⟨hm.lower, hm.upper⟩
    have hspare : spare (m * 2 ^ 52) = 52 := by
      rw [spare, log2_mul_pow (by omega), hlog]
    refine ⟨r, c, hof ▸ hr, ?_⟩
    rw [hsame, hspare, nearest_exact, rounded_exact hpos hsmall, ← hword, ← hvalue]
    rfl
  · have hof := ofScientific_eq hpos 0 (fun h => hsmall h.1) (by omega)
    rw [Nat.pow_zero, Nat.mul_one] at hof
    change Float.ofNat s = _ at hof
    have hlimit : s < (2 ^ 54 - 1) * 2 ^ 970 := by
      calc s < 2 ^ 64 := h
        _ ≤ 2 ^ 970 := Nat.pow_le_pow_right (by omega) (by omega)
        _ ≤ _ := Nat.le_mul_of_pos_left _ (by decide)
    obtain ⟨r, c, hr, hvalue⟩ := normal_scaled hpos hlimit
    exact ⟨r, c, hof ▸ hr, hvalue⟩

theorem normal_power {e : Nat} (h : e ≤ 308) :
    ∃ m a, Normal (Float.ofScientific 1 false e) m a ∧ m * 2 ^ a = rounded (10 ^ e) := by
  by_cases hsmall : e ≤ 22
  · have htable : ∀ e < 23, ((parts? (Float.ofScientific 1 false e).toModel.unpack).any fun p =>
        decide (2 ^ 52 ≤ p.1 ∧ p.1 < 2 ^ 53 ∧ -52 ≤ p.2 ∧
          p.1 * 2 ^ (p.2 + 52).toNat = rounded (10 ^ e))) = true := by
      decide +kernel
    obtain ⟨p, hp, hrow⟩ := (Option.any_eq_true _ _).mp (htable e (by omega))
    obtain ⟨hlow, hhigh, hx, hvalue⟩ := of_decide_eq_true hrow
    exact ⟨_, _, normal_of_parts hp hlow hhigh hx, hvalue⟩
  · have hof := ofScientific_eq (s := 1) (by omega) e (by omega) (by omega)
    rw [Nat.one_mul] at hof
    have hlimit : 10 ^ e < (2 ^ 54 - 1) * 2 ^ 970 :=
      Nat.lt_of_le_of_lt (Nat.pow_le_pow_right (by omega) h) (by decide +kernel)
    obtain ⟨r, c, hr, hvalue⟩ :=
      normal_scaled (Nat.pos_iff_ne_zero.mp (Nat.pow_pos (by omega))) hlimit
    exact ⟨r, c, hof ▸ hr, hvalue⟩

end ViewDesign.Rounding
