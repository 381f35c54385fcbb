import Mathlib
import Stencil.Main

/-!
Whole numbers as floating-point numbers. A whole number of 64 bits is rounded to its first 53 binary digits, so two
of them are equal as floating-point numbers exactly if they round to the same number. Rounding leaves numbers of at
most 53 digits as they are and never makes a longer one that short.
-/
namespace Stencil.Decimal

open Float.Model Float.Model.UnpackedFloat

theorem toNat_unpackMantissa (b : BitVec 64) :
    (@unpackMantissa Format.binary64 b).toNat = b.toNat % 2 ^ 52 := by
  simp only [unpackMantissa, BitVec.toNat_cast, BitVec.extractLsb_toNat, Nat.shiftRight_zero]

theorem toNat_unpackExponent (b : BitVec 64) :
    (@unpackExponent Format.binary64 b).toNat = b.toNat / 2 ^ 52 % 2 ^ 11 := by
  simp only [unpackExponent, BitVec.toNat_cast, BitVec.extractLsb_toNat, Nat.shiftRight_eq_div_pow]

theorem toNat_unpackSign (b : BitVec 64) :
    (@unpackSign Format.binary64 b).toNat = b.toNat / 2 ^ 63 % 2 := by
  simp only [unpackSign, BitVec.toNat_cast, BitVec.extractLsb_toNat, Nat.shiftRight_eq_div_pow]

theorem unpackExponent_ne_ones {b : BitVec 64} (inside : b.toNat / 2 ^ 52 % 2 ^ 11 ≠ 2047) :
    @unpackExponent Format.binary64 b ≠ -1#_ := by
  intro same
  have exponent := toNat_unpackExponent b
  rw [same, show (-BitVec.ofNat Format.binary64.exponentBits 1).toNat = 2047 from rfl] at exponent
  exact inside exponent.symm

/-- The bits of a finite number are kept as they are. -/
theorem pack_unpack_of_finite {b : BitVec 64} (inside : b.toNat / 2 ^ 52 % 2 ^ 11 ≠ 2047) :
    UnpackedFloat.pack Format.binary64 (UnpackedFloat.unpack Format.binary64 b) = b := by
  have number : @isNaNBits Format.binary64 b = false :=
    decide_eq_false fun nan => unpackExponent_ne_ones inside nan.1
  rw [@UnpackedFloat.pack_unpack Format.binary64 b (by decide), number]
  rfl

/-- Bits of a number that has all its 53 digits. -/
structure Normal (b : BitVec 64) : Prop where
  atLeast : 2 ^ 52 ≤ b.toNat % 2 ^ 63
  below : b.toNat % 2 ^ 63 < 2047 * 2 ^ 52

theorem Normal.exponent {b : BitVec 64} (normal : Normal b) :
    1 ≤ b.toNat / 2 ^ 52 % 2 ^ 11 ∧ b.toNat / 2 ^ 52 % 2 ^ 11 < 2047 := by
  have := normal.atLeast
  have := normal.below
  omega

/-- The number that normal bits stand for. -/
theorem unpack_normal {b : BitVec 64} (normal : Normal b) :
    UnpackedFloat.unpack Format.binary64 b =
      .finite (Sign.ofBitVec (@unpackSign Format.binary64 b)) (2 ^ 52 + b.toNat % 2 ^ 52)
        ((b.toNat / 2 ^ 52 % 2 ^ 11 : Nat) - 1075) (by omega) := by
  obtain ⟨positive, bounded⟩ := normal.exponent
  have exponent := toNat_unpackExponent b
  have notOnes := unpackExponent_ne_ones bounded.ne
  have notZero : @unpackExponent Format.binary64 b ≠ 0#_ := by
    intro same
    rw [same, show (BitVec.ofNat Format.binary64.exponentBits 0).toNat = 0 from rfl] at exponent
    omega
  have mantissa : (1#1 ++ @unpackMantissa Format.binary64 b).toNat = 2 ^ 52 + b.toNat % 2 ^ 52 := by
    rw [BitVec.toNat_append, ← Nat.shiftLeft_add_eq_or_of_lt (BitVec.isLt _), toNat_unpackMantissa]
    rfl
  unfold UnpackedFloat.unpack
  simp only [notOnes, notZero, if_false]
  congr 1
  rw [exponent]
  rfl

theorem toNat_ofBitVec (s : BitVec 1) : (Sign.ofBitVec s).toBitVec.toNat = s.toNat := by
  revert s
  decide

theorem unpack_ofBits {u : UInt64} (normal : Normal u.toBitVec) :
    (Float.ofBits u).toModel.unpack = UnpackedFloat.unpack Format.binary64 u.toBitVec :=
  congrArg (UnpackedFloat.unpack Format.binary64) (pack_unpack_of_finite normal.exponent.2.ne)

/-- Finite numbers are equal if their parts are. -/
theorem compare_finite (s t : Sign) (m n : Nat) (d e : Int) (left : 0 < m) (right : 0 < n) :
    (UnpackedFloat.finite s m d left).beq (.finite t n e right) = true ↔ s = t ∧ d = e ∧ m = n := by
  cases s <;> cases t <;> simp [UnpackedFloat.beq, UnpackedFloat.compare, Ordering.then_eq_eq]

/-- Two numbers given by normal bits are equal if their bits are. -/
theorem ofBits_beq {u v : UInt64} (left : Normal u.toBitVec) (right : Normal v.toBitVec) :
    (Float.ofBits u == Float.ofBits v) = true ↔ u = v := by
  show (Float.ofBits u).toModel.unpack.beq (Float.ofBits v).toModel.unpack = true ↔ _
  rw [unpack_ofBits left, unpack_ofBits right, unpack_normal left, unpack_normal right, compare_finite]
  constructor
  · rintro ⟨sign, exponent, mantissa⟩
    have sameSign := congrArg (fun s => (Sign.toBitVec s).toNat) sign
    simp only [toNat_ofBitVec, toNat_unpackSign] at sameSign
    have := u.toBitVec.isLt
    have := v.toBitVec.isLt
    apply UInt64.toNat_inj.mp
    have : u.toBitVec.toNat = v.toBitVec.toNat := by omega
    exact this
  · rintro rfl
    exact ⟨rfl, rfl, rfl⟩

/-- A natural number with only its first 53 binary digits, the last rounded, a half to the even one. -/
def rounded (n : Nat) : Nat :=
  roundHalfEven n (2 ^ (n.log2 - 52)) * 2 ^ (n.log2 - 52)

/-- The 53 digits that a number is rounded to, as a number. -/
def significand (n : Nat) : Nat :=
  roundHalfEven (n * 2 ^ (52 - n.log2)) (2 ^ (n.log2 - 52))

theorem roundHalfEven_one (n : Nat) : roundHalfEven n 1 = n := by
  simp [roundHalfEven, Nat.mod_one]

theorem roundHalfEven_bounds (n d : Nat) : n / d ≤ roundHalfEven n d ∧ roundHalfEven n d ≤ n / d + 1 := by
  simp only [roundHalfEven]
  split
  · omega
  · split <;> omega

theorem significand_bounds {n : Nat} (positive : 0 < n) : 2 ^ 52 ≤ significand n ∧ significand n ≤ 2 ^ 53 := by
  have low : 2 ^ n.log2 ≤ n := Nat.log2_self_le (by omega)
  have high : n < 2 ^ (n.log2 + 1) := Nat.lt_log2_self
  have quotient : 2 ^ 52 ≤ n * 2 ^ (52 - n.log2) / 2 ^ (n.log2 - 52) ∧
      n * 2 ^ (52 - n.log2) / 2 ^ (n.log2 - 52) < 2 ^ 53 := by
    rw [Nat.le_div_iff_mul_le (Nat.two_pow_pos _), Nat.div_lt_iff_lt_mul (Nat.two_pow_pos _), ← Nat.pow_add,
      ← Nat.pow_add, show 52 + (n.log2 - 52) = n.log2 + (52 - n.log2) by omega,
      show 53 + (n.log2 - 52) = n.log2 + 1 + (52 - n.log2) by omega, Nat.pow_add, Nat.pow_add 2 (n.log2 + 1)]
    exact ⟨Nat.mul_le_mul_right _ low, Nat.mul_lt_mul_of_pos_right high (Nat.two_pow_pos _)⟩
  have := roundHalfEven_bounds (n * 2 ^ (52 - n.log2)) (2 ^ (n.log2 - 52))
  unfold significand
  omega

/-- The rounded number is its digits at their place. -/
theorem rounded_scaled (n : Nat) : rounded n * 2 ^ 52 = significand n * 2 ^ n.log2 := by
  unfold rounded significand
  by_cases long : 52 ≤ n.log2
  · rw [Nat.sub_eq_zero_of_le long, Nat.pow_zero, Nat.mul_one, Nat.mul_assoc, ← Nat.pow_add,
      Nat.sub_add_cancel long]
  · rw [Nat.sub_eq_zero_of_le (by omega : n.log2 ≤ 52), Nat.pow_zero, roundHalfEven_one, roundHalfEven_one,
      Nat.mul_one, Nat.mul_assoc, ← Nat.pow_add, Nat.sub_add_cancel (by omega)]

/-- Numbers of 53 digits at a place are the same exactly if the digits, carried on into the place, are. -/
theorem scaled_eq_iff {m n d e : Nat} (left : 2 ^ 52 ≤ m ∧ m ≤ 2 ^ 53) (right : 2 ^ 52 ≤ n ∧ n ≤ 2 ^ 53) :
    m * 2 ^ d = n * 2 ^ e ↔ m + d * 2 ^ 52 = n + e * 2 ^ 52 := by
  wlog order : d ≤ e generalizing m n d e
  · rw [eq_comm, this right left (by omega), eq_comm]
  obtain ⟨k, rfl⟩ := Nat.exists_eq_add_of_le order
  rw [Nat.add_comm d k, Nat.pow_add, ← Nat.mul_assoc, Nat.mul_left_inj (Nat.pos_iff_ne_zero.mp (Nat.two_pow_pos d))]
  match k with
  | 0 => omega
  | 1 => omega
  | k + 2 =>
    have : 4 ≤ 2 ^ (k + 2) := by
      calc 4 = 2 ^ 2 := rfl
        _ ≤ 2 ^ (k + 2) := Nat.pow_le_pow_right (by decide) (by omega)
    have : n * 4 ≤ n * 2 ^ (k + 2) := Nat.mul_le_mul_left _ this
    omega

theorem rounded_eq_iff {m n : Nat} (left : 0 < m) (right : 0 < n) :
    rounded m = rounded n ↔ significand m + m.log2 * 2 ^ 52 = significand n + n.log2 * 2 ^ 52 := by
  rw [← scaled_eq_iff (significand_bounds left) (significand_bounds right), ← rounded_scaled, ← rounded_scaled]
  omega

/-- The bits of a whole number: its digits, and its length counted from an offset. -/
theorem nearestBits_whole {n : Nat} (positive : 0 < n) (small : n < 2 ^ 64) :
    nearestBits n 1 = significand n + (n.log2 + 1022) * 2 ^ 52 := by
  have short : n.log2 < 64 := (Nat.log2_lt (by omega)).mpr small
  have bounds := significand_bounds positive
  have low : 2 ^ n.log2 ≤ n := Nat.log2_self_le (by omega)
  have unit : Nat.log2 1 = 0 := by decide
  have guess : 1 * Nat.pow 2 (52 + ((n.log2 : Int) - ((0 : Nat) : Int) - 52)).toNat ≤
      n * Nat.pow 2 (-(52 + ((n.log2 : Int) - ((0 : Nat) : Int) - 52))).toNat := by
    rw [show (52 + ((n.log2 : Int) - ((0 : Nat) : Int) - 52)).toNat = n.log2 by omega,
      show (-(52 + ((n.log2 : Int) - ((0 : Nat) : Int) - 52))).toNat = 0 by omega]
    simpa using low
  have place : max ((n.log2 : Int) - ((0 : Nat) : Int) - 52) (-1074) = (n.log2 : Int) - 52 := by omega
  simp only [nearestBits, unit, guess, decide_true, if_true, place]
  rw [if_neg (by omega), show (-((n.log2 : Int) - 52)).toNat = 52 - n.log2 by omega,
    show ((n.log2 : Int) - 52).toNat = n.log2 - 52 by omega,
    show ((n.log2 : Int) - 52 + 1074).toNat = n.log2 + 1022 by omega, Nat.one_mul]
  show min (significand n + (n.log2 + 1022) * 0x10000000000000) infinityBits = _
  rw [infinityBits]
  omega

theorem natAbs_lt (i : Int64) : i.toInt.natAbs < 2 ^ 64 := by
  have := i.le_toInt
  have := i.toInt_lt
  omega

theorem nearestBits_bounds {n : Nat} (positive : 0 < n) (small : n < 2 ^ 64) :
    2 ^ 52 ≤ nearestBits n 1 ∧ nearestBits n 1 < 2047 * 2 ^ 52 := by
  have short : n.log2 < 64 := (Nat.log2_lt (by omega)).mpr small
  have := significand_bounds positive
  rw [nearestBits_whole positive small]
  omega

/-- The bits of a number with its sign in front. -/
def signed (negative : Bool) (bits : Nat) : UInt64 :=
  UInt64.ofNat (if negative then bits + 0x8000000000000000 else bits)

theorem toNat_signed {negative : Bool} {bits : Nat} (small : bits < 2 ^ 63) :
    (signed negative bits).toNat = (if negative then 2 ^ 63 else 0) + bits := by
  cases negative
  · simp only [signed, UInt64.toNat_ofNat', Bool.false_eq_true, if_false]
    omega
  · simp only [signed, UInt64.toNat_ofNat', if_true]
    omega

theorem normal_signed (negative : Bool) {bits : Nat} (low : 2 ^ 52 ≤ bits) (high : bits < 2047 * 2 ^ 52) :
    Normal (signed negative bits).toBitVec := by
  have value : (signed negative bits).toBitVec.toNat = _ := toNat_signed (by omega)
  constructor
  · rw [value]
    cases negative <;> simp <;> omega
  · rw [value]
    cases negative <;> simp <;> omega

theorem signed_inj {negative other : Bool} {bits more : Nat} (small : bits < 2 ^ 63) (less : more < 2 ^ 63) :
    signed negative bits = signed other more ↔ negative = other ∧ bits = more := by
  rw [← UInt64.toNat_inj, toNat_signed small, toNat_signed less]
  cases negative <;> cases other <;> simp <;> omega

/-- Numbers other than zero are equal if their signs are and they round to the same number. -/
theorem nearest_beq {negative other : Bool} {m n : Nat} (left : 0 < m ∧ m < 2 ^ 64) (right : 0 < n ∧ n < 2 ^ 64) :
    (nearest negative m 1 == nearest other n 1) = true ↔ negative = other ∧ rounded m = rounded n := by
  have first := nearestBits_bounds left.1 left.2
  have second := nearestBits_bounds right.1 right.2
  show (Float.ofBits (signed negative _) == Float.ofBits (signed other _)) = true ↔ _
  rw [ofBits_beq (normal_signed _ first.1 first.2) (normal_signed _ second.1 second.2),
    signed_inj (by omega) (by omega), rounded_eq_iff left.1 right.1, nearestBits_whole left.1 left.2,
    nearestBits_whole right.1 right.2]
  have : ∀ d e : Nat, d + (m.log2 + 1022) * 2 ^ 52 = e + (n.log2 + 1022) * 2 ^ 52 ↔
      d + m.log2 * 2 ^ 52 = e + n.log2 * 2 ^ 52 := by
    intro d e
    omega
  rw [this]

/-- Zero is equal to no number of 53 digits. -/
theorem zero_beq {negative : Bool} {n : Nat} (size : 0 < n ∧ n < 2 ^ 64) :
    (nearest false 0 1 == nearest negative n 1) = false ∧ (nearest negative n 1 == nearest false 0 1) = false := by
  have bounds := nearestBits_bounds size.1 size.2
  have normal := normal_signed negative bounds.1 bounds.2
  have zero : (nearest false 0 1).toModel.unpack = .zero .positive := by rfl
  have other := (unpack_ofBits normal).trans (unpack_normal normal)
  constructor
  · show (nearest false 0 1).toModel.unpack.beq (Float.ofBits (signed negative _)).toModel.unpack = false
    rw [zero, other]
    cases Sign.ofBitVec _ <;> rfl
  · show (Float.ofBits (signed negative _)).toModel.unpack.beq (nearest false 0 1).toModel.unpack = false
    rw [zero, other]
    cases Sign.ofBitVec _ <;> rfl

theorem rounded_pos {n : Nat} (positive : 0 < n) : 0 < rounded n := by
  have scaled := rounded_scaled n
  have := (significand_bounds positive).1
  have : 0 < significand n * 2 ^ n.log2 := Nat.mul_pos (by omega) (Nat.two_pow_pos _)
  omega

/-- Short numbers are left as they are. -/
theorem rounded_short {n : Nat} (short : n ≤ 2 ^ 53) : rounded n = n := by
  by_cases last : n = 2 ^ 53
  · subst last
    decide
  · have : n.log2 ≤ 52 := by
      by_cases zero : n = 0
      · simp [zero]
      · have := (Nat.log2_lt zero).mpr (by omega : n < 2 ^ 53)
        omega
    rw [rounded, Nat.sub_eq_zero_of_le this, Nat.pow_zero, roundHalfEven_one, Nat.mul_one]

/-- Long numbers stay long. -/
theorem le_rounded {n : Nat} (long : 2 ^ 53 ≤ n) : 2 ^ 53 ≤ rounded n := by
  have scaled := rounded_scaled n
  have := (significand_bounds (by omega : 0 < n)).1
  have size : 53 ≤ n.log2 := (Nat.le_log2 (by omega)).mpr long
  have : 2 ^ 52 * 2 ^ 53 ≤ significand n * 2 ^ n.log2 :=
    Nat.mul_le_mul this (Nat.pow_le_pow_right (by decide) size)
  omega

/-- A whole number rounded to 53 binary digits. -/
def roundedWhole (i : Int64) : Int :=
  if i < 0 then -(rounded i.toInt.natAbs : Int) else rounded i.toInt.natAbs

theorem roundedWhole_short {i : Int64} (short : i.toInt.natAbs ≤ 2 ^ 53) : roundedWhole i = i.toInt := by
  simp only [roundedWhole, rounded_short short, Int64.lt_iff_toInt_lt, Int64.toInt_zero]
  split <;> omega

theorem natAbs_roundedWhole (i : Int64) : (roundedWhole i).natAbs = rounded i.toInt.natAbs := by
  unfold roundedWhole
  split <;> omega

/-- Two whole numbers are equal as floating-point numbers if they round to the same number. -/
theorem nearestWhole_beq (a b : Int64) :
    (nearestWhole a == nearestWhole b) = decide (roundedWhole a = roundedWhole b) := by
  have size (i : Int64) (other : i ≠ 0) : 0 < i.toInt.natAbs ∧ i.toInt.natAbs < 2 ^ 64 := by
    refine ⟨?_, natAbs_lt i⟩
    have : i.toInt ≠ 0 := fun zero => other (Int64.toInt_inj.mp zero)
    omega
  by_cases first : a = 0
  · by_cases second : b = 0
    · subst first second
      rfl
    · subst first
      have apart : roundedWhole 0 ≠ roundedWhole b := by
        have := rounded_pos (size b second).1
        have := natAbs_roundedWhole b
        have : roundedWhole 0 = 0 := rfl
        omega
      rw [decide_eq_false apart]
      exact (zero_beq (size b second)).1
  · by_cases second : b = 0
    · subst second
      have apart : roundedWhole a ≠ roundedWhole 0 := by
        have := rounded_pos (size a first).1
        have := natAbs_roundedWhole a
        have : roundedWhole 0 = 0 := rfl
        omega
      rw [decide_eq_false apart]
      exact (zero_beq (size a first)).2
    · rw [Bool.eq_iff_iff, decide_eq_true_iff]
      refine (nearest_beq (size a first) (size b second)).trans ?_
      have := rounded_pos (size a first).1
      have := rounded_pos (size b second).1
      unfold roundedWhole
      by_cases left : a < 0 <;> by_cases right : b < 0 <;> simp [left, right] <;> omega

end Stencil.Decimal
