import Stencil.Main

/-!
The decimal digits of a natural number: they are digits, the first is no zero unless it is the only one, and read
together they give the number again.
-/
namespace Stencil.Decimal

theorem isDigit_eq (c : Char) : isDigit c = c.isDigit := rfl

theorem isDigit_of_mem_toDigits {n : Nat} {c : Char} (mem : c ∈ Nat.toDigits 10 n) : isDigit c = true :=
  Nat.isDigit_of_mem_toDigits (by decide) (by decide) mem

/-- A digit is one of ten characters. -/
theorem exists_digitChar_of_isDigit {c : Char} (digit : isDigit c = true) : ∃ d, d < 10 ∧ c = Nat.digitChar d := by
  unfold isDigit at digit
  rw [Bool.and_eq_true, decide_eq_true_eq, decide_eq_true_eq] at digit
  have low : 48 ≤ c.toNat := digit.1
  have high : c.toNat ≤ 57 := digit.2
  refine ⟨c.toNat - 48, by omega, ?_⟩
  have same : (Nat.digitChar (c.toNat - 48)).toNat = c.toNat := by
    rw [Nat.toNat_digitChar_of_lt_ten (by omega)]
    omega
  calc c = Char.ofNat c.toNat := (Char.ofNat_toNat c).symm
    _ = Char.ofNat (Nat.digitChar (c.toNat - 48)).toNat := by rw [same]
    _ = Nat.digitChar (c.toNat - 48) := Char.ofNat_toNat _

theorem digitValue_digitChar : ∀ d, d < 10 → digitValue (Nat.digitChar d) = d := by decide

theorem valueFrom_append (n : Nat) (s t : List Char) : valueFrom n (s ++ t) = valueFrom (valueFrom n s) t := by
  induction s generalizing n with
  | nil => rfl
  | cons c s ih => exact ih _

theorem digits_of_natural? {s : List Char} {n : Nat} (read : natural? s = some n) :
    s ≠ [] ∧ (∀ c ∈ s, isDigit c = true) ∧ value s = n := by
  unfold natural? at read
  split at read
  · cases read
  · rename_i digits
    rw [Bool.or_eq_true, not_or, List.isEmpty_iff, Bool.not_eq_true', Bool.not_eq_false, List.all_eq_true] at digits
    exact ⟨digits.1, digits.2, Option.some.inj read⟩

theorem integer?_minus (digits : List Char) :
    integer? ('-' :: digits) = (natural? digits).map fun n : Nat => -(n : Int) := by
  cases parts : natural? digits <;> simp [integer?, parts]

theorem value_toDigits (n : Nat) : value (Nat.toDigits 10 n) = n := by
  rw [value_eq_valueFrom]
  induction n using Nat.strongRecOn with
  | ind n ih =>
    by_cases small : n < 10
    · rw [Nat.toDigits_of_lt_base small]
      simp [valueFrom, digitValue_digitChar n small]
    · rw [Nat.toDigits_of_base_le (by decide) (by omega), valueFrom_append, ih (n / 10) (by omega)]
      simp only [valueFrom, digitValue_digitChar _ (Nat.mod_lt n (by decide : 0 < 10))]
      omega

theorem toDigits_head_ne_zero {n : Nat} (positive : 0 < n) :
    ∃ c s, Nat.toDigits 10 n = c :: s ∧ c ≠ '0' ∧ isDigit c = true := by
  induction n using Nat.strongRecOn with
  | ind n ih =>
    by_cases small : n < 10
    · refine ⟨n.digitChar, [], Nat.toDigits_of_lt_base small, ?_, ?_⟩
      · rw [Ne, Nat.digitChar_eq_zero]
        omega
      · rw [isDigit_eq, Nat.isDigit_digitChar]
        exact decide_eq_true small
    · obtain ⟨c, s, same, other, digit⟩ := ih (n / 10) (by omega) (by omega)
      refine ⟨c, s ++ [(n % 10).digitChar], ?_, other, digit⟩
      rw [Nat.toDigits_of_base_le (by decide) (by omega), same]
      rfl

end Stencil.Decimal
