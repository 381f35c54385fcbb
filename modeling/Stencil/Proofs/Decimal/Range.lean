import Stencil.Proofs.Decimal.Rounding

/-!
Which decimal numbers are floating-point numbers. A fraction is rounded to a finite one exactly if it is below the
middle between the largest finite one and the power of two above it.
-/
namespace Stencil.Decimal

open Float.Model Float.Model.UnpackedFloat

/-- The least number that is rounded to infinity. -/
def infinityBound : ℚ := 2 ^ 1024 - 2 ^ 970

/-! #### Finite bits -/

theorem isFinite_ofBits {u : UInt64} (inside : u.toNat / 2 ^ 52 % 2 ^ 11 ≠ 2047) : (Float.ofBits u).isFinite = true := by
  show (UnpackedFloat.unpack Format.binary64
    (UnpackedFloat.pack Format.binary64 (UnpackedFloat.unpack Format.binary64 u.toBitVec))).isFinite = true
  rw [pack_unpack_of_finite inside]
  unfold UnpackedFloat.unpack
  simp only [unpackExponent_ne_ones (b := u.toBitVec) inside, if_false]
  split
  · split <;> rfl
  · rfl

theorem isFinite_floatOfBits (negative : Bool) {bits : Nat} (bounded : bits ≤ infinityBits) :
    (floatOfBits negative bits).isFinite = true ↔ bits < infinityBits := by
  have bound : infinityBits = 2047 * 2 ^ 52 := rfl
  constructor
  · intro finite
    rcases Nat.lt_or_eq_of_le bounded with below | rfl
    · exact below
    · cases negative <;> revert finite <;> decide
  · intro below
    have value : (signed negative bits).toNat = _ := toNat_signed (by omega)
    refine isFinite_ofBits (u := signed negative bits) ?_
    rw [value]
    cases negative <;> simp <;> omega

/-! #### Rounding -/

/-- Rounding stays below an even number exactly below the middle in front of it. -/
theorem roundHalfEven_lt_iff {num den n : Nat} (positive : 0 < den) (even : n % 2 = 0) :
    roundHalfEven num den < n ↔ 2 * num + den < 2 * (n * den) := by
  have whole : den * (num / den) + num % den = num := Nat.div_add_mod num den
  have part : num % den < den := Nat.mod_lt _ positive
  unfold roundHalfEven
  generalize num / den = quotient at *
  generalize num % den = rest at *
  subst whole
  rcases Nat.lt_trichotomy (quotient + 1) n with below | last | above
  · have : den * (quotient + 2) ≤ n * den := by
      rw [Nat.mul_comm n]
      exact Nat.mul_le_mul_left den below
    have : den * (quotient + 2) = den * quotient + 2 * den := by ring
    simp only
    constructor
    · intro
      omega
    · intro
      split
      · omega
      · split <;> omega
  · subst last
    have : (quotient + 1) * den = den * quotient + den := by ring
    simp only
    constructor
    · intro less
      split at less
      · omega
      · split at less <;> omega
    · intro less
      rw [if_pos (by omega)]
      omega
  · have : n * den ≤ den * quotient := by
      rw [Nat.mul_comm n]
      exact Nat.mul_le_mul_left den (Nat.le_of_lt_succ above)
    simp only
    constructor
    · intro less
      split at less
      · omega
      · split at less <;> omega
    · intro
      omega

/-- A power of two in whole numbers. -/
theorem zpow_two (z : ℤ) : (2 : ℚ) ^ z * 2 ^ (-z).toNat = 2 ^ z.toNat := by
  rcases le_total 0 z with up | down
  · obtain ⟨n, rfl⟩ := Int.eq_ofNat_of_zero_le up
    simp
  · obtain ⟨n, same⟩ := Int.eq_ofNat_of_zero_le (neg_nonneg.mpr down)
    have : z = -(n : ℤ) := by omega
    subst this
    simp

variable {num den : Nat} {x : ℚ}

/-- Fractions are compared with powers of two in whole numbers. -/
theorem scaled_le_iff (num : Nat) (positive : 0 < den) (z : ℤ) :
    den * 2 ^ z.toNat ≤ num * 2 ^ (-z).toNat ↔ (2 : ℚ) ^ z ≤ num / den := by
  have whole := zpow_two z
  have scale : (0 : ℚ) < 2 ^ (-z).toNat := by positivity
  have below : (0 : ℚ) < den := Nat.cast_pos.mpr positive
  rw [← Nat.cast_le (α := ℚ), le_div_iff₀ below, Nat.cast_mul, Nat.cast_mul, Nat.cast_pow, Nat.cast_pow, Nat.cast_ofNat,
    ← whole, ← mul_assoc, mul_le_mul_iff_left₀ scale, mul_comm]

/-- The scale on which a fraction has 53 binary digits before the point. -/
def leadingScale (num den : Nat) : ℤ :=
  let guess : ℤ := (num.log2 : ℤ) - (den.log2 : ℤ) - 52
  if den * 2 ^ (52 + guess).toNat ≤ num * 2 ^ (-(52 + guess)).toNat then guess else guess - 1

theorem leadingScale_bounds (above : 0 < num) (positive : 0 < den) :
    (2 : ℚ) ^ (52 + leadingScale num den) ≤ num / den ∧ (num / den : ℚ) < 2 ^ (53 + leadingScale num den) := by
  have below : (0 : ℚ) < den := Nat.cast_pos.mpr positive
  have low : (2 : ℚ) ^ (num.log2 : ℤ) ≤ num := by exact_mod_cast Nat.log2_self_le (by omega)
  have high : (num : ℚ) < 2 ^ ((num.log2 : ℤ) + 1) := by exact_mod_cast Nat.lt_log2_self
  have denLow : (2 : ℚ) ^ (den.log2 : ℤ) ≤ den := by exact_mod_cast Nat.log2_self_le (by omega)
  have denHigh : (den : ℚ) < 2 ^ ((den.log2 : ℤ) + 1) := by exact_mod_cast Nat.lt_log2_self
  unfold leadingScale
  set guess : ℤ := (num.log2 : ℤ) - (den.log2 : ℤ) - 52 with guessed
  have upper : (num / den : ℚ) < 2 ^ (53 + guess) := by
    rw [div_lt_iff₀ below]
    calc (num : ℚ) < 2 ^ ((num.log2 : ℤ) + 1) := high
      _ = 2 ^ (53 + guess) * 2 ^ (den.log2 : ℤ) := by rw [← zpow_add₀ (by norm_num)]; congr 1; omega
      _ ≤ 2 ^ (53 + guess) * den := by gcongr
  have lower : (2 : ℚ) ^ (51 + guess) ≤ num / den := by
    rw [le_div_iff₀ below]
    calc (2 : ℚ) ^ (51 + guess) * den ≤ 2 ^ (51 + guess) * 2 ^ ((den.log2 : ℤ) + 1) := by gcongr
      _ = 2 ^ (num.log2 : ℤ) := by rw [← zpow_add₀ (by norm_num)]; congr 1; omega
      _ ≤ num := low
  have compared := scaled_le_iff num positive (52 + guess)
  dsimp only
  split
  · rename_i reached
    exact ⟨compared.mp reached, upper⟩
  · rename_i short
    rw [show 52 + (guess - 1) = 51 + guess by ring, show 53 + (guess - 1) = 52 + guess by ring]
    exact ⟨lower, not_le.mp fun reached => short (compared.mpr reached)⟩

/-- The scale on which a fraction is rounded. Numbers that are too small have fewer digits. -/
def roundingScale (num den : Nat) : ℤ := max (leadingScale num den) (-1074)

theorem nearestBits_eq (above : 0 < num) :
    nearestBits num den = min (roundHalfEven (num * 2 ^ (-roundingScale num den).toNat)
      (den * 2 ^ (roundingScale num den).toNat) + (roundingScale num den + 1074).toNat * 2 ^ 52) infinityBits := by
  unfold nearestBits
  rw [if_neg (by omega)]
  simp only [Nat.pow_eq, decide_eq_true_eq]
  rfl

/-- A fraction on a scale, as a fraction of whole numbers. -/
theorem scaled_lt_iff (positive : 0 < den) (q : ℤ) (n : Nat) :
    num * 2 ^ (-q).toNat < n * (den * 2 ^ q.toNat) ↔ (num / den : ℚ) < n * 2 ^ q := by
  have whole := zpow_two q
  have scale : (0 : ℚ) < 2 ^ (-q).toNat := by positivity
  have below : (0 : ℚ) < den := Nat.cast_pos.mpr positive
  rw [← Nat.cast_lt (α := ℚ), div_lt_iff₀ below]
  push_cast
  rw [← whole, show (n : ℚ) * (den * (2 ^ q * 2 ^ (-q).toNat)) = n * 2 ^ q * den * 2 ^ (-q).toNat by ring,
    mul_lt_mul_iff_left₀ scale]

/-- The mantissa has 53 binary digits, or is the first number that has more. -/
theorem mantissa_le (above : 0 < num) (positive : 0 < den) {q : ℤ} (enough : leadingScale num den ≤ q) :
    roundHalfEven (num * 2 ^ (-q).toNat) (den * 2 ^ q.toNat) ≤ 2 ^ 53 := by
  have less : (num / den : ℚ) < (2 ^ 53 : Nat) * 2 ^ q := by
    calc (num / den : ℚ) < 2 ^ (53 + leadingScale num den) := (leadingScale_bounds above positive).2
      _ ≤ 2 ^ (53 + q) := zpow_le_zpow_right₀ (by norm_num) (by omega)
      _ = (2 ^ 53 : Nat) * 2 ^ q := by rw [zpow_add₀ (by norm_num)]; norm_num
  have quotient := (Nat.div_lt_iff_lt_mul (Nat.mul_pos positive (Nat.two_pow_pos _))).mpr
    ((scaled_lt_iff positive q _).mpr less)
  have := (roundHalfEven_bounds (num * 2 ^ (-q).toNat) (den * 2 ^ q.toNat)).2
  omega

theorem le_mantissa (above : 0 < num) (positive : 0 < den) {q : ℤ} (exact : leadingScale num den = q) :
    2 ^ 52 ≤ roundHalfEven (num * 2 ^ (-q).toNat) (den * 2 ^ q.toNat) := by
  have reached : ¬ (num / den : ℚ) < (2 ^ 52 : Nat) * 2 ^ q := by
    rw [not_lt, ← exact]
    calc ((2 ^ 52 : Nat) : ℚ) * 2 ^ leadingScale num den = 2 ^ (52 + leadingScale num den) := by
          rw [zpow_add₀ (by norm_num)]; norm_num
      _ ≤ num / den := (leadingScale_bounds above positive).1
  have quotient := (Nat.le_div_iff_mul_le (Nat.mul_pos positive (Nat.two_pow_pos _))).mpr
    (not_lt.mp fun less => reached ((scaled_lt_iff positive q _).mp less))
  exact quotient.trans (roundHalfEven_bounds _ _).1

/-- On the last scale of finite numbers the largest mantissa is the last one. -/
theorem last_mantissa_lt_iff (positive : 0 < den) :
    roundHalfEven (num * 2 ^ (-971 : ℤ).toNat) (den * 2 ^ (971 : ℤ).toNat) < 2 ^ 53 ↔
      (num / den : ℚ) < infinityBound := by
  have below : (0 : ℚ) < den := Nat.cast_pos.mpr positive
  have top : (2 : ℚ) ^ 1024 = 2 ^ 54 * 2 ^ 970 := by rw [← pow_add]
  have unit : 0 < 2 ^ (971 : ℤ).toNat := Nat.two_pow_pos _
  have scale : ((2 ^ (971 : ℤ).toNat : Nat) : ℚ) = 2 * 2 ^ 970 := by
    rw [Nat.cast_pow, ← pow_succ']
    rfl
  rw [show 2 ^ (-971 : ℤ).toNat = 1 from rfl, Nat.mul_one]
  generalize 2 ^ (971 : ℤ).toNat = last at unit scale ⊢
  rw [roundHalfEven_lt_iff (Nat.mul_pos positive unit) (by decide), ← Nat.cast_lt (α := ℚ), div_lt_iff₀ below,
    infinityBound, top]
  generalize (2 : ℚ) ^ 970 = half at scale ⊢
  push_cast
  rw [scale]
  constructor
  · intro less
    linarith
  · intro less
    linarith

/-- The least number that is rounded to infinity has as many binary digits as the largest finite one. -/
theorem pow_lt_infinityBound : (2 : ℚ) ^ 1023 < infinityBound := by
  have top : (2 : ℚ) ^ 1024 = 2 ^ 54 * 2 ^ 970 := by rw [← pow_add]
  have next : (2 : ℚ) ^ 1023 = 2 ^ 53 * 2 ^ 970 := by rw [← pow_add]
  have unit : (0 : ℚ) < 2 ^ 970 := by positivity
  rw [infinityBound, top, next]
  generalize (2 : ℚ) ^ 970 = u at unit
  linarith

/-- A fraction is rounded to a finite number exactly below the bound. -/
theorem nearestBits_lt_iff (positive : 0 < den) :
    nearestBits num den < infinityBits ↔ (num / den : ℚ) < infinityBound := by
  have bound : infinityBits = 2047 * 2 ^ 52 := rfl
  rcases Nat.eq_zero_or_pos num with rfl | above
  · rw [show nearestBits 0 den = 0 from rfl, Nat.cast_zero, zero_div]
    exact iff_of_true (by omega) (lt_trans (by positivity) pow_lt_infinityBound)
  obtain ⟨low, high⟩ := leadingScale_bounds above positive
  have scale : roundingScale num den = max (leadingScale num den) (-1074) := rfl
  rw [nearestBits_eq above, min_lt_iff, or_iff_left (lt_irrefl _)]
  rcases lt_trichotomy (leadingScale num den) 971 with small | last | large
  · have mantissa := mantissa_le above positive (by omega : leadingScale num den ≤ roundingScale num den)
    refine iff_of_true (by omega) (high.trans_le (le_trans ?_ pow_lt_infinityBound.le))
    rw [← zpow_natCast]
    exact zpow_le_zpow_right₀ (by norm_num) (by omega)
  · rw [← last_mantissa_lt_iff positive, show roundingScale num den = 971 by omega]
    omega
  · have same : leadingScale num den = roundingScale num den := by omega
    have mantissa := le_mantissa above positive same
    refine iff_of_false (by omega) (not_lt.mpr (le_trans ?_ low))
    calc infinityBound ≤ (2 : ℚ) ^ (1024 : ℤ) := sub_le_self _ (by positivity)
      _ ≤ 2 ^ (52 + leadingScale num den) := zpow_le_zpow_right₀ (by norm_num) (by omega)

theorem nearestBits_le (num den : Nat) : nearestBits num den ≤ infinityBits := by
  unfold nearestBits
  split
  · exact Nat.zero_le _
  · exact Nat.min_le_right _ _

/-! #### Decimal numbers -/

theorem pow_le_pow_of_ratio {a b c p k n : Nat} (base : 0 < a) (positive : p ≠ 0) (step : a ^ c ≤ b ^ p)
    (ratio : k * p ≤ c * n) : a ^ k ≤ b ^ n := by
  refine (Nat.pow_le_pow_iff_left positive).mp ?_
  calc (a ^ k) ^ p = a ^ (k * p) := (Nat.pow_mul ..).symm
    _ ≤ a ^ (c * n) := Nat.pow_le_pow_right base ratio
    _ = (a ^ c) ^ n := Nat.pow_mul ..
    _ ≤ (b ^ p) ^ n := Nat.pow_le_pow_left step n
    _ = (b ^ n) ^ p := by rw [← Nat.pow_mul, ← Nat.pow_mul, Nat.mul_comm]

theorem pow_placesBelow {n : Nat} (above : 0 < n) : 10 ^ placesBelow n ≤ n := by
  have places : placesBelow n * 100000 ≤ 30102 * n.log2 := by
    unfold placesBelow
    omega
  exact (pow_le_pow_of_ratio (by decide) (by decide) (by decide +kernel) places).trans (Nat.log2_self_le (by omega))

theorem lt_pow_placesAbove (n : Nat) : n < 10 ^ placesAbove n := by
  have places : (n.log2 + 1) * 30103 ≤ 100000 * placesAbove n := by
    unfold placesAbove
    omega
  exact Nat.lt_log2_self.trans_le (pow_le_pow_of_ratio (by decide) (by decide) (by decide +kernel) places)

/-- A decimal number as a fraction of whole numbers. -/
theorem decimal_fraction (digits : Nat) (exponent : ℤ) :
    ((digits * 10 ^ exponent.toNat : Nat) / (10 ^ (-exponent).toNat : Nat) : ℚ) = digits * 10 ^ exponent := by
  rcases le_total 0 exponent with up | down
  · obtain ⟨n, rfl⟩ := Int.eq_ofNat_of_zero_le up
    simp
  · obtain ⟨n, same⟩ := Int.eq_ofNat_of_zero_le (neg_nonneg.mpr down)
    have : exponent = -(n : ℤ) := by omega
    subst this
    simp [div_eq_mul_inv]

/-- A decimal number is rounded to a finite number exactly below the bound. -/
theorem isFinite_nearestDecimal (negative : Bool) (digits : Nat) (exponent : ℤ) :
    (nearestDecimal negative digits exponent).isFinite = true ↔ (digits * 10 ^ exponent : ℚ) < infinityBound := by
  have room : (1 : ℚ) < infinityBound := lt_of_le_of_lt (one_le_pow₀ (by norm_num)) pow_lt_infinityBound
  have bounded : infinityBound ≤ (10 : ℚ) ^ 310 := by
    calc infinityBound ≤ (2 : ℚ) ^ 1024 := sub_le_self _ (by positivity)
      _ ≤ 10 ^ 310 := by exact_mod_cast (by decide +kernel : 2 ^ 1024 ≤ 10 ^ 310)
  have zero : (floatOfBits negative 0).isFinite = true := (isFinite_floatOfBits negative (Nat.zero_le _)).mpr (by decide)
  unfold nearestDecimal
  split
  · rename_i none
    subst none
    refine iff_of_true zero ?_
    rw [Nat.cast_zero, zero_mul]
    linarith
  rename_i some
  split
  · rename_i large
    refine iff_of_false (fun finite => lt_irrefl _ ((isFinite_floatOfBits negative le_rfl).mp finite)) (not_lt.mpr ?_)
    have reached : (10 : ℚ) ^ (placesBelow digits : ℤ) ≤ digits := by
      exact_mod_cast pow_placesBelow (Nat.pos_of_ne_zero some)
    calc infinityBound ≤ (10 : ℚ) ^ (310 : ℤ) := bounded
      _ ≤ 10 ^ (placesBelow digits + exponent) := zpow_le_zpow_right₀ (by norm_num) large
      _ = 10 ^ (placesBelow digits : ℤ) * 10 ^ exponent := zpow_add₀ (by norm_num) _ _
      _ ≤ digits * 10 ^ exponent := by gcongr
  · split
    · rename_i small
      refine iff_of_true zero (lt_trans ?_ room)
      have missed : (digits : ℚ) < 10 ^ (placesAbove digits : ℤ) := by exact_mod_cast lt_pow_placesAbove digits
      calc (digits * 10 ^ exponent : ℚ) < 10 ^ (placesAbove digits : ℤ) * 10 ^ exponent := by gcongr
        _ = 10 ^ (placesAbove digits + exponent) := (zpow_add₀ (by norm_num) _ _).symm
        _ ≤ 10 ^ (0 : ℤ) := zpow_le_zpow_right₀ (by norm_num) (by omega)
        _ = 1 := zpow_zero _
    · rw [nearest, isFinite_floatOfBits negative (nearestBits_le _ _), Nat.pow_eq, Nat.pow_eq,
        nearestBits_lt_iff (Nat.pow_pos (by decide)), decimal_fraction]

end Stencil.Decimal
