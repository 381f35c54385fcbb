import Mathlib.Order.Compare
import Stencil.Proofs.Decimal.Rounding

/-!
The six comparisons of whole numbers. The four that ask for the order compare the numbers as they are; equality
compares them as floating-point numbers, which cannot tell two long numbers apart that round to the same one.
-/
namespace Stencil

open Artifact (BinaryOp)

/-- A comparison of two whole numbers gives this answer in every state, and leaves the state as it is. -/
def Answers (op : BinaryOp) (a b : Int64) (answer : Bool) : Prop :=
  ∀ fs s, eval fs (.binary op (.lit (.int a)) (.lit (.int b))) s = .ok (.bool answer, s)

/-- All six comparisons of two whole numbers answer what the order of the numbers says. -/
structure InOrder (a b : Int64) : Prop where
  less : Answers .lt a b (decide (a.toInt < b.toInt))
  atMost : Answers .le a b (decide (a.toInt ≤ b.toInt))
  greater : Answers .gt a b (decide (b.toInt < a.toInt))
  atLeast : Answers .ge a b (decide (b.toInt ≤ a.toInt))
  equal : Answers .eq a b (decide (a.toInt = b.toInt))
  unequal : Answers .ne a b (!decide (a.toInt = b.toInt))

theorem answers_of_binary {op : BinaryOp} {a b : Int64} {answer : Bool}
    (value : Value.binary op (.int a) (.int b) = .ok (.bool answer)) : Answers op a b answer := by
  intro fs s
  show (Value.binary op (.int a) (.int b)).map (·, s) = _
  rw [value]
  rfl

theorem Answers.unique {op : BinaryOp} {a b : Int64} {answer other : Bool} (first : Answers op a b answer)
    (second : Answers op a b other) : answer = other := by
  have same := (first default (RunState.initial .null)).symm.trans (second default (RunState.initial .null))
  injection same with same
  injection same with same
  injection same

/-- What the comparisons ask of an order. -/
theorem holds_compare (a b : Int) :
    Value.holds .lt (compare a b) = decide (a < b) ∧ Value.holds .le (compare a b) = decide (a ≤ b) ∧
      Value.holds .gt (compare a b) = decide (b < a) ∧ Value.holds .ge (compare a b) = decide (b ≤ a) := by
  rcases Int.lt_trichotomy a b with less | same | more
  · rw [compare_lt_iff_lt.mpr less]
    simp [Value.holds, less, less.le]
  · rw [compare_eq_iff_eq.mpr same]
    simp [Value.holds, same]
  · rw [compare_gt_iff_gt.mpr more]
    simp [Value.holds, more, more.le]

/-- The comparisons that ask for the order are exact. -/
theorem order_answers (a b : Int64) :
    Answers .lt a b (decide (a.toInt < b.toInt)) ∧ Answers .le a b (decide (a.toInt ≤ b.toInt)) ∧
      Answers .gt a b (decide (b.toInt < a.toInt)) ∧ Answers .ge a b (decide (b.toInt ≤ a.toInt)) := by
  obtain ⟨less, atMost, greater, atLeast⟩ := holds_compare a.toInt b.toInt
  rw [← less, ← atMost, ← greater, ← atLeast]
  exact ⟨answers_of_binary rfl, answers_of_binary rfl, answers_of_binary rfl, answers_of_binary rfl⟩

/-- Equality answers whether the numbers round to the same one. -/
theorem equality_answers (a b : Int64) :
    Answers .eq a b (decide (Decimal.roundedWhole a = Decimal.roundedWhole b)) ∧
      Answers .ne a b (!decide (Decimal.roundedWhole a = Decimal.roundedWhole b)) := by
  rw [← Decimal.nearestWhole_beq]
  exact ⟨answers_of_binary rfl, answers_of_binary rfl⟩

/-- Two numbers that round to the same one are the same if one of them is short, or if both are no longer than the
longest that is left as it is. -/
theorem eq_of_roundedWhole {a b : Int64} (same : Decimal.roundedWhole a = Decimal.roundedWhole b)
    (short : a.toInt.natAbs < 2 ^ 53 ∨ b.toInt.natAbs < 2 ^ 53 ∨ a.toInt.natAbs ≤ 2 ^ 53 ∧ b.toInt.natAbs ≤ 2 ^ 53) :
    a = b := by
  have sizes : Decimal.rounded a.toInt.natAbs = Decimal.rounded b.toInt.natAbs := by
    rw [← Decimal.natAbs_roundedWhole, same, Decimal.natAbs_roundedWhole]
  have both : a.toInt.natAbs ≤ 2 ^ 53 ∧ b.toInt.natAbs ≤ 2 ^ 53 := by
    rcases short with first | second | both
    · have := Decimal.rounded_short (Nat.le_of_lt first)
      by_contra long
      have := Decimal.le_rounded (by omega : 2 ^ 53 ≤ b.toInt.natAbs)
      omega
    · have := Decimal.rounded_short (Nat.le_of_lt second)
      by_contra long
      have := Decimal.le_rounded (by omega : 2 ^ 53 ≤ a.toInt.natAbs)
      omega
    · exact both
  rw [Decimal.roundedWhole_short both.1, Decimal.roundedWhole_short both.2] at same
  exact Int64.toInt_inj.mp same

/-- The comparisons of two whole numbers are those of their order, except that equality and inequality compare the
numbers rounded to 53 binary digits. So all six agree with the order exactly if the numbers are the same or round
to different ones, and they do so whenever one of the numbers is below `2 ^ 53` or both are at most that. -/
theorem whole_numbers_compare (a b : Int64) :
    (Answers .lt a b (decide (a.toInt < b.toInt)) ∧ Answers .le a b (decide (a.toInt ≤ b.toInt)) ∧
      Answers .gt a b (decide (b.toInt < a.toInt)) ∧ Answers .ge a b (decide (b.toInt ≤ a.toInt))) ∧
    (Answers .eq a b (decide (Decimal.roundedWhole a = Decimal.roundedWhole b)) ∧
      Answers .ne a b (!decide (Decimal.roundedWhole a = Decimal.roundedWhole b))) ∧
    (InOrder a b ↔ (Decimal.roundedWhole a = Decimal.roundedWhole b → a = b)) ∧
    (a.toInt.natAbs < 2 ^ 53 ∨ b.toInt.natAbs < 2 ^ 53 ∨ a.toInt.natAbs ≤ 2 ^ 53 ∧ b.toInt.natAbs ≤ 2 ^ 53 →
      InOrder a b) := by
  obtain ⟨less, atMost, greater, atLeast⟩ := order_answers a b
  obtain ⟨equal, unequal⟩ := equality_answers a b
  have ordered : InOrder a b ↔ (Decimal.roundedWhole a = Decimal.roundedWhole b → a = b) := by
    constructor
    · intro ordered same
      have answer := equal.unique ordered.equal
      rw [decide_eq_decide] at answer
      exact Int64.toInt_inj.mp (answer.mp same)
    · intro apart
      have answer : decide (Decimal.roundedWhole a = Decimal.roundedWhole b) = decide (a.toInt = b.toInt) := by
        rw [decide_eq_decide]
        constructor
        · intro same
          rw [apart same]
        · intro same
          rw [Int64.toInt_inj.mp same]
      exact ⟨less, atMost, greater, atLeast, answer ▸ equal, answer ▸ unequal⟩
  exact ⟨⟨less, atMost, greater, atLeast⟩, ⟨equal, unequal⟩, ordered,
    fun short => ordered.mpr fun same => eq_of_roundedWhole same short⟩

/-- Two neighbours that cannot be told apart. -/
example : Value.binary .lt (.int 9007199254740992) (.int 9007199254740993) = .ok (.bool true) ∧
    Value.binary .eq (.int 9007199254740992) (.int 9007199254740993) = .ok (.bool true) := ⟨rfl, rfl⟩

end Stencil
