import Stencil.Proofs.Decimal.Rounding
import Stencil.Proofs.Run.Calculating

/-!
Divisors that count as zero: the whole number, both floating-point zeros, false, and text that reads as a zero. A
quotient by any of them is an error. A remainder by one is an error for two whole numbers only; every other pair of
numbers is taken as floating-point numbers, which have a remainder by zero that is not a number.
-/
namespace Stencil

open Artifact (BinaryOp Expr)

/-! ### Zeros -/

namespace Decimal

open Float.Model Float.Model.UnpackedFloat

/-- Only a zero is equal to zero. -/
theorem unpack_of_beq_zero {z : Float} (zero : (z == 0) = true) : ∃ sign, z.toModel.unpack = .zero sign := by
  have compared : z.toModel.unpack.beq (.zero .positive) = true := zero
  cases parts : z.toModel.unpack with
  | zero sign => exact ⟨sign, rfl⟩
  | notANumber =>
    rw [parts] at compared
    cases compared
  | infinity sign =>
    rw [parts] at compared
    cases sign <;> cases compared
  | finite sign m e positive =>
    rw [parts] at compared
    cases sign <;> cases compared

theorem Binary.ofFloat_of_beq_zero {z : Float} (zero : (z == 0) = true) :
    ∃ negative, Binary.ofFloat z = .finite negative 0 (-1074) := by
  obtain ⟨sign, parts⟩ := unpack_of_beq_zero zero
  have bits : z.toBits.toBitVec = packedZero Format.binary64 sign := (unpack_eq_zero_iff_of_valid z.toModel.valid).mp parts
  have value : z.toBits.toNat = 0 ∨ z.toBits.toNat = 0x8000000000000000 := by
    have same : z.toBits.toNat = (packedZero Format.binary64 sign).toNat := congrArg BitVec.toNat bits
    cases sign with
    | positive => exact .inl same
    | negative => exact .inr same
  refine ⟨decide (0x8000000000000000 ≤ z.toBits.toNat), ?_⟩
  simp only [Binary.ofFloat]
  rw [if_neg (by omega), if_pos (by omega)]
  congr 1
  omega

/-- No floating-point number has a remainder by zero. -/
theorem remainder_zero (x : Float) {z : Float} (zero : (z == 0) = true) : remainder x z = notANumber := by
  obtain ⟨negative, parts⟩ := Binary.ofFloat_of_beq_zero zero
  unfold remainder
  rw [parts]
  cases Binary.ofFloat x with
  | notANumber => rfl
  | infinite negative => rfl
  | finite negative m e => exact if_pos rfl

theorem nearestWhole_beq_zero {i : Int64} : (nearestWhole i == 0) = true ↔ i = 0 := by
  have rounds : (nearestWhole i == 0) = decide (roundedWhole i = roundedWhole 0) := nearestWhole_beq i 0
  rw [rounds, decide_eq_true_iff]
  constructor
  · intro same
    by_contra nonzero
    have : i.toInt ≠ 0 := fun zero => nonzero (Int64.toInt_inj.mp zero)
    have := rounded_pos (by omega : 0 < i.toInt.natAbs)
    have := natAbs_roundedWhole i
    have : roundedWhole 0 = 0 := rfl
    omega
  · rintro rfl
    rfl

end Decimal

namespace Value

/-- The numeric value is zero. -/
inductive IsZero : Value → Prop where
  | int : IsZero (.int 0)
  | float {x : Float} (zero : (x == 0) = true) : IsZero (.float x)
  | bool : IsZero (.bool false)
  | str {s : String} {x : Float} (reads : Decimal.readFloat? (Text.trim s.toList) = some x) (zero : (x == 0) = true) :
      IsZero (.str s)

/-- These are all values that count as a floating-point zero. -/
theorem isZero_iff {w : Value} : w.IsZero ↔ ∃ z, w.toFloat? = some z ∧ (z == 0) = true := by
  constructor
  · intro zero
    cases zero with
    | int => exact ⟨_, rfl, rfl⟩
    | float zero => exact ⟨_, rfl, zero⟩
    | bool => exact ⟨_, rfl, rfl⟩
    | str reads zero => exact ⟨_, reads, zero⟩
  · rintro ⟨z, reads, zero⟩
    cases w with
    | null | list | map => cases reads
    | int i =>
      cases reads
      rw [Decimal.nearestWhole_beq_zero.mp zero]
      exact .int
    | float x =>
      cases reads
      exact .float zero
    | bool b =>
      cases b with
      | false => exact .bool
      | true =>
        cases reads
        cases zero
    | str s => exact .str reads zero

/-- Both values are whole numbers. -/
def Whole (v w : Value) : Prop := (∃ a, v = .int a) ∧ ∃ b, w = .int b

/-! ### Quotients and remainders -/

/-- Unless both operands are whole numbers, arithmetic takes them as floating-point numbers. -/
theorem arithmetic_of_not_whole (op : BinaryOp) {v w : Value} (mixed : ¬ Whole v w) {z : Float}
    (right : w.toFloat? = some z) :
    arithmetic op v w =
      match v.toFloat? with
      | some x => floatArithmetic op x z
      | none => .error (.badOperands v.typeName w.typeName) := by
  unfold arithmetic
  split
  · exact absurd ⟨⟨_, rfl⟩, _, rfl⟩ mixed
  · rw [right]
    cases v.toFloat? <;> rfl

theorem divide_zero {v w : Value} (zero : w.IsZero) :
    arithmetic .div v w =
      .error (if v.toFloat?.isSome then .divisionByZero else .badOperands v.typeName w.typeName) := by
  by_cases whole : Whole v w
  · obtain ⟨⟨a, rfl⟩, b, rfl⟩ := whole
    cases zero
    rfl
  · obtain ⟨z, right, zero⟩ := isZero_iff.mp zero
    rw [arithmetic_of_not_whole .div whole right]
    cases v.toFloat? with
    | none => rfl
    | some x => exact if_pos zero

theorem modulo_zero {v w : Value} (zero : w.IsZero) :
    (v.toFloat? = none → arithmetic .mod v w = .error (.badOperands v.typeName w.typeName)) ∧
    (Whole v w → arithmetic .mod v w = .error .moduloByZero) ∧
    (v.toFloat?.isSome → ¬ Whole v w → arithmetic .mod v w = .ok (.float Decimal.notANumber)) := by
  obtain ⟨z, right, same⟩ := isZero_iff.mp zero
  refine ⟨?_, ?_, ?_⟩
  · intro left
    have mixed : ¬ Whole v w := by
      rintro ⟨⟨a, rfl⟩, -⟩
      cases left
    rw [arithmetic_of_not_whole .mod mixed right, left]
  · rintro ⟨⟨a, rfl⟩, b, rfl⟩
    cases zero
    rfl
  · intro left mixed
    obtain ⟨x, left⟩ := Option.isSome_iff_exists.mp left
    rw [arithmetic_of_not_whole .mod mixed right, left]
    show Except.ok (Value.float (Decimal.remainder x z)) = _
    rw [Decimal.remainder_zero x same]

end Value

/-- A quotient by zero is an error, whatever is divided. A remainder by zero is one of two whole numbers, and of what
is no number; of all other numbers it is a floating-point value, which is not a number. -/
theorem divisions_by_zero (fs : Functions) {l r : Expr} {s s₁ s₂ : RunState} {v w : Value}
    (left : eval fs l s = .ok (v, s₁)) (right : eval fs r s₁ = .ok (w, s₂)) (zero : w.IsZero) :
    eval fs (.binary .div l r) s =
      .error (if v.toFloat?.isSome then .divisionByZero else .badOperands v.typeName w.typeName) ∧
    (v.toFloat? = none → eval fs (.binary .mod l r) s = .error (.badOperands v.typeName w.typeName)) ∧
    (Value.Whole v w → eval fs (.binary .mod l r) s = .error .moduloByZero) ∧
    (v.toFloat?.isSome → ¬ Value.Whole v w →
      eval fs (.binary .mod l r) s = .ok (.float Decimal.notANumber, s₂)) := by
  obtain ⟨noNumber, whole, mixed⟩ := Value.modulo_zero (v := v) zero
  have quotient : Value.binary .div v w = _ := Value.divide_zero zero
  have remainder : Value.binary .mod v w = Value.arithmetic .mod v w := rfl
  rw [eval_binary_of_ok .div left right, eval_binary_of_ok .mod left right, quotient, remainder]
  refine ⟨rfl, ?_, ?_, ?_⟩
  · intro none
    rw [noNumber none]
    rfl
  · intro both
    rw [whole both]
    rfl
  · intro some apart
    rw [mixed some apart]
    rfl

/-- A number and a text that reads as zero: the quotient stops the program, and the remainder is printed. -/
theorem remainder_by_text_printed :
    eval default (.binary .div (.lit (.int 7)) (.lit (.str "-0.0"))) (.initial .null) = .error .divisionByZero ∧
    eval default (.binary .mod (.lit (.int 7)) (.lit (.int 0))) (.initial .null) = .error .moduloByZero ∧
    eval default (.binary .mod (.lit (.int 7)) (.lit (.str "-0.0"))) (.initial .null) =
      .ok (.float Decimal.notANumber, .initial .null) ∧
    (Value.float Decimal.notANumber).text = "NaN" := by
  have text : (Value.str "-0.0").IsZero := .str (x := Decimal.floatOfBits true 0) (by rfl) (by rfl)
  have mixed := divisions_by_zero default (l := .lit (.int 7)) (r := .lit (.str "-0.0")) (s := .initial .null)
    rfl rfl text
  have whole := divisions_by_zero default (l := .lit (.int 7)) (r := .lit (.int 0)) (s := .initial .null) rfl rfl .int
  refine ⟨mixed.1, whole.2.2.1 ⟨⟨7, rfl⟩, 0, rfl⟩, mixed.2.2.2 rfl ?_, by rfl⟩
  rintro ⟨-, b, none⟩
  cases none

end Stencil
