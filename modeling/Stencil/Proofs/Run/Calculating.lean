import Mathlib
import Stencil.Proofs.Artifact.Grammar

/-!
Calculations with whole numbers. A calculation that gives a whole number gives its exact value, and one without
quotients and remainders gives it whenever all numbers on the way have 64 bits, and an overflow otherwise. What else a
calculation may give is a floating-point number or one of three errors.
-/
namespace Stencil

open Artifact (BinaryOp Expr)

/-- The binary operators of arithmetic. -/
inductive Operator where
  | add | sub | mul | div | mod
  deriving DecidableEq

/-- An expression of whole numbers, variables and arithmetic. -/
inductive Calculation where
  | number (i : Int64)
  | named (name : String)
  | negated (c : Calculation)
  | operated (op : Operator) (left right : Calculation)

/-- A fraction without its part behind the point. -/
def truncated (x : ℚ) : ℤ := if 0 ≤ x then ⌊x⌋ else ⌈x⌉

namespace Operator

def binaryOp : Operator → BinaryOp
  | add => .add
  | sub => .sub
  | mul => .mul
  | div => .div
  | mod => .mod

/-- The exact result; a remainder belongs to the truncated quotient. -/
def exact : Operator → ℚ → ℚ → ℚ
  | add, x, y => x + y
  | sub, x, y => x - y
  | mul, x, y => x * y
  | div, x, y => x / y
  | mod, x, y => x - y * truncated (x / y)

def divides : Operator → Bool
  | div | mod => true
  | _ => false

/-- The error of a divisor that is zero. -/
def zeroDivisor : Operator → EvalError
  | mod => .moduloByZero
  | _ => .divisionByZero

end Operator

namespace Calculation

def expr : Calculation → Expr
  | number i => .lit (.int i)
  | named name => .var name
  | negated c => .neg c.expr
  | operated op l r => .binary op.binaryOp l.expr r.expr

def names : Calculation → List String
  | number _ => []
  | named name => [name]
  | negated c => c.names
  | operated _ l r => l.names ++ r.names

/-- The names are variables with these numbers. -/
def BoundIn (scope : Scope) (binding : String → Int64) (c : Calculation) : Prop :=
  ∀ name ∈ c.names, scope.lookup name = .int (binding name)

/-- The exact value. -/
def exact (binding : String → Int64) : Calculation → ℚ
  | number i => i.toInt
  | named name => (binding name).toInt
  | negated c => -c.exact binding
  | operated op l r => op.exact (l.exact binding) (r.exact binding)

def Fits (x : ℚ) : Prop := -9223372036854775808 ≤ x ∧ x < 9223372036854775808

/-- All exact values on the way have 64 bits. -/
def AllFit (binding : String → Int64) : Calculation → Prop
  | number _ | named _ => True
  | negated c => c.AllFit binding ∧ Fits (-c.exact binding)
  | operated op l r =>
    l.AllFit binding ∧ r.AllFit binding ∧ Fits (op.exact (l.exact binding) (r.exact binding))

/-- Whether only sums, differences, products and negations occur. -/
def undivided : Calculation → Bool
  | number _ | named _ => true
  | negated c => c.undivided
  | operated op l r => !op.divides && l.undivided && r.undivided

/-- What a calculation gives, apart from the state in which it is evaluated. -/
def result (binding : String → Int64) : Calculation → Except EvalError Value
  | number i => .ok (.int i)
  | named name => .ok (.int (binding name))
  | negated c => (c.result binding).bind Value.negate
  | operated op l r =>
    (l.result binding).bind fun v => (r.result binding).bind fun w => Value.arithmetic op.binaryOp v w

end Calculation

/-- A number, or one of the errors that numbers lead to. -/
inductive Numeric : Except EvalError Value → Prop where
  | int (i : Int64) : Numeric (.ok (.int i))
  | float (x : Float) : Numeric (.ok (.float x))
  | overflow : Numeric (.error .overflow)
  | divisionByZero : Numeric (.error .divisionByZero)
  | moduloByZero : Numeric (.error .moduloByZero)

/-- What goes on from a number to such an outcome does so from such an outcome. -/
theorem Numeric.bind {x : Except EvalError Value} {f : Value → Except EvalError Value} (number : Numeric x)
    (next : ∀ v, Numeric (.ok v) → Numeric (f v)) : Numeric (x.bind f) := by
  cases number with
  | int i => exact next _ (.int i)
  | float x => exact next _ (.float x)
  | overflow => exact .overflow
  | divisionByZero => exact .divisionByZero
  | moduloByZero => exact .moduloByZero

/-! ### Quotients and remainders -/

theorem truncated_neg (x : ℚ) : truncated (-x) = -truncated x := by
  unfold truncated
  rcases lt_trichotomy x 0 with below | rfl | above
  · rw [if_pos (by linarith), if_neg (by linarith), Int.floor_neg]
  · simp
  · rw [if_neg (by linarith), if_pos above.le, Int.ceil_neg]

theorem truncated_div (a b : ℤ) : truncated (a / b) = a.tdiv b := by
  have whole : ∀ m n : ℕ, truncated ((m : ℚ) / n) = ((m / n : ℕ) : ℤ) := by
    intro m n
    unfold truncated
    rw [if_pos (by positivity), Rat.floor_natCast_div_natCast]
    rfl
  obtain ⟨m, rfl | rfl⟩ := a.eq_nat_or_neg <;> obtain ⟨n, rfl | rfl⟩ := b.eq_nat_or_neg <;>
    simp [neg_div, div_neg, truncated_neg, whole, Int.neg_tdiv, Int.tdiv_neg]

theorem exact_mod (a b : ℤ) : Operator.mod.exact a b = a.tmod b := by
  simp only [Operator.exact]
  rw [truncated_div, Int.tmod_def]
  push_cast
  rfl

theorem exact_div {a b : ℤ} (nonzero : b ≠ 0) (whole : a.tmod b = 0) : Operator.div.exact a b = a.tdiv b := by
  have parts : a = a.tdiv b * b := by
    rw [Int.tmod_def, mul_comm] at whole
    omega
  have nonzero' : (b : ℚ) ≠ 0 := by exact_mod_cast nonzero
  simp only [Operator.exact]
  rw [div_eq_iff nonzero']
  exact_mod_cast parts

/-! ### Single operations -/

namespace Value

/-- A whole number is given as it is if it has 64 bits. -/
theorem ofExact_cases (i : ℤ) :
    (Calculation.Fits i ∧ ∃ n : Int64, ofExact i = .ok (.int n) ∧ n.toInt = i) ∨
      (¬ Calculation.Fits i ∧ ofExact i = .error .overflow) := by
  have bounds : Calculation.Fits i ↔ -0x8000000000000000 ≤ i ∧ i < 0x8000000000000000 := by
    unfold Calculation.Fits
    norm_cast
  by_cases fits : -0x8000000000000000 ≤ i ∧ i < 0x8000000000000000
  · refine .inl ⟨bounds.mpr fits, Int64.ofInt i, ?_, Int64.toInt_ofInt_of_le (by omega) (by omega)⟩
    simp only [ofExact, Decimal.int64?, if_pos fits]
  · refine .inr ⟨fun fits' => fits (bounds.mp fits'), ?_⟩
    simp only [ofExact, Decimal.int64?, if_neg fits]

theorem toInt_of_ofExact {i : ℤ} {n : Int64} (made : ofExact i = .ok (.int n)) : n.toInt = i := by
  rcases ofExact_cases i with ⟨-, m, same, exact⟩ | ⟨-, long⟩
  · cases made.symm.trans same
    exact exact
  · cases made.symm.trans long

theorem numeric_ofExact (i : ℤ) : Numeric (ofExact i) := by
  rcases ofExact_cases i with ⟨-, n, same, -⟩ | ⟨-, long⟩
  · rw [same]
    exact .int n
  · rw [long]
    exact .overflow

/-- A quotient that is whole is exact. -/
theorem toInt_of_divide {a b n : Int64} (made : divide a b = .ok (.int n)) :
    (n.toInt : ℚ) = Operator.div.exact a.toInt b.toInt := by
  unfold divide at made
  split at made
  · cases made
  rename_i nonzero
  split at made
  · cases made
  split at made
  · rename_i whole
    have nonzero' : b.toInt ≠ 0 := fun zero => nonzero (Int64.toInt_inj.mp zero)
    rw [toInt_of_ofExact made, exact_div nonzero' whole]
  · cases made

theorem toInt_of_modulo {a b n : Int64} (made : modulo a b = .ok (.int n)) :
    (n.toInt : ℚ) = Operator.mod.exact a.toInt b.toInt := by
  unfold modulo at made
  split at made
  · cases made
  split at made
  · cases made
  · rw [toInt_of_ofExact made, exact_mod]

/-- Sums, differences and products are exact or too long. -/
theorem arithmetic_undivided {op : Operator} (undivided : op.divides = false) (a b : Int64) :
    ∃ i : ℤ, arithmetic op.binaryOp (.int a) (.int b) = ofExact i ∧ op.exact a.toInt b.toInt = i := by
  cases op with
  | add => exact ⟨a.toInt + b.toInt, rfl, by simp [Operator.exact]⟩
  | sub => exact ⟨a.toInt - b.toInt, rfl, by simp [Operator.exact]⟩
  | mul => exact ⟨a.toInt * b.toInt, rfl, by simp [Operator.exact]⟩
  | div | mod => cases undivided

/-- Floating-point numbers are never turned into whole ones. -/
theorem floatArithmetic_ne_int (op : BinaryOp) (x y : Float) (n : Int64) : floatArithmetic op x y ≠ .ok (.int n) := by
  unfold floatArithmetic
  intro made
  split at made
  · cases made
  · cases made
  · cases made
  · split at made <;> cases made
  · cases made

theorem numeric_floatArithmetic (op : BinaryOp) (x y : Float) : Numeric (floatArithmetic op x y) := by
  unfold floatArithmetic
  split
  · exact .float _
  · exact .float _
  · exact .float _
  · split
    · exact .divisionByZero
    · exact .float _
  · exact .float _

/-- A whole number comes of whole numbers, and is exact. -/
theorem int_of_arithmetic {op : Operator} {v w : Value} {n : Int64} (made : arithmetic op.binaryOp v w = .ok (.int n)) :
    ∃ a b, v = .int a ∧ w = .int b ∧ (n.toInt : ℚ) = op.exact a.toInt b.toInt := by
  unfold arithmetic at made
  split at made
  · rename_i a b
    refine ⟨a, b, rfl, rfl, ?_⟩
    cases divides : op.divides with
    | true =>
      cases op with
      | div => exact toInt_of_divide made
      | mod => exact toInt_of_modulo made
      | add | sub | mul => cases divides
    | false =>
      obtain ⟨i, same, exact⟩ := arithmetic_undivided divides a b
      rw [exact, toInt_of_ofExact (same.symm.trans made)]
  · split at made
    · exact absurd made (floatArithmetic_ne_int _ _ _ n)
    · cases made

theorem numeric_intArithmetic (op : Operator) (a b : Int64) : Numeric (intArithmetic op.binaryOp a b) := by
  cases op with
  | add | sub | mul => exact numeric_ofExact _
  | div =>
    show Numeric (divide a b)
    unfold divide
    split
    · exact .divisionByZero
    split
    · exact .overflow
    split
    · exact numeric_ofExact _
    · exact .float _
  | mod =>
    show Numeric (modulo a b)
    unfold modulo
    split
    · exact .moduloByZero
    split
    · exact .overflow
    · exact numeric_ofExact _

theorem numeric_arithmetic (op : Operator) {v w : Value} (left : Numeric (.ok v)) (right : Numeric (.ok w)) :
    Numeric (arithmetic op.binaryOp v w) := by
  cases left with
  | int a =>
    cases right with
    | int b => exact numeric_intArithmetic op a b
    | float y => exact numeric_floatArithmetic ..
  | float x =>
    cases right with
    | int b => exact numeric_floatArithmetic ..
    | float y => exact numeric_floatArithmetic ..

theorem numeric_negate {v : Value} (number : Numeric (.ok v)) : Numeric v.negate := by
  cases number with
  | int i => exact numeric_ofExact _
  | float x => exact .float _

theorem int_of_negate {v : Value} {n : Int64} (made : v.negate = .ok (.int n)) :
    ∃ a, v = .int a ∧ n.toInt = -a.toInt := by
  unfold negate at made
  split at made
  · exact ⟨_, rfl, toInt_of_ofExact made⟩
  · split at made <;> cases made

/-- A divisor of zero, and the quotient that is too long, are errors. -/
theorem arithmetic_undefined {op : Operator} (divides : op.divides = true) (a b : Int64) :
    (b = 0 → arithmetic op.binaryOp (.int a) (.int b) = .error op.zeroDivisor) ∧
      (a = Int64.minValue → b = -1 → arithmetic op.binaryOp (.int a) (.int b) = .error .overflow) := by
  cases op with
  | add | sub | mul => cases divides
  | div | mod =>
    constructor
    · rintro rfl
      rfl
    · rintro rfl rfl
      rfl

end Value

/-! ### Calculations -/

theorem eval_binary (fs : Functions) (op : BinaryOp) (l r : Expr) (s : RunState) :
    eval fs (.binary op l r) s =
      (eval fs l s).bind fun v => (eval fs r v.2).bind fun w => (Value.binary op v.1 w.1).map (·, w.2) :=
  rfl

/-- The value of an operator applied to the values of its operands. -/
theorem eval_binary_of_ok {fs : Functions} (op : BinaryOp) {l r : Expr} {s s₁ s₂ : RunState} {v w : Value}
    (left : eval fs l s = .ok (v, s₁)) (right : eval fs r s₁ = .ok (w, s₂)) :
    eval fs (.binary op l r) s = (Value.binary op v w).map (·, s₂) := by
  rw [eval_binary, left]
  show (eval fs r s₁).bind _ = _
  rw [right]
  rfl

theorem Operator.binary_eq (op : Operator) (v w : Value) :
    Value.binary op.binaryOp v w = Value.arithmetic op.binaryOp v w := by
  cases op <;> rfl

namespace Calculation

variable {binding : String → Int64}

theorem eval_expr (fs : Functions) {c : Calculation} {s : RunState} (bound : c.BoundIn s.scope binding) :
    eval fs c.expr s = (c.result binding).map (·, s) := by
  induction c with
  | number i => rfl
  | named name => exact congrArg (fun v => Except.ok (v, s)) (bound name List.mem_cons_self)
  | negated c ih =>
    show (eval fs c.expr s).bind _ = ((c.result binding).bind _).map _
    rw [ih bound]
    cases c.result binding <;> rfl
  | operated op l r ihl ihr =>
    have left := ihl fun name mem => bound name (List.mem_append_left _ mem)
    have right := ihr fun name mem => bound name (List.mem_append_right _ mem)
    rw [expr, eval_binary, left, result]
    cases l.result binding with
    | error e => rfl
    | ok v =>
      show (eval fs r.expr s).bind _ = ((r.result binding).bind _).map _
      rw [right]
      cases r.result binding with
      | error e => rfl
      | ok w => exact congrArg (Except.map (·, s)) (op.binary_eq v w)

/-- A whole result is the exact value. -/
theorem exact_of_result {c : Calculation} {n : Int64} (made : c.result binding = .ok (.int n)) :
    (n.toInt : ℚ) = c.exact binding := by
  induction c generalizing n with
  | number i | named name =>
    cases made
    rfl
  | negated c ih =>
    obtain ⟨v, inner, negative⟩ := Artifact.bind_eq_ok.mp made
    obtain ⟨a, rfl, same⟩ := Value.int_of_negate negative
    rw [exact, ← ih inner, same]
    push_cast
    rfl
  | operated op l r ihl ihr =>
    obtain ⟨v, left, next⟩ := Artifact.bind_eq_ok.mp made
    obtain ⟨w, right, applied⟩ := Artifact.bind_eq_ok.mp next
    obtain ⟨a, b, rfl, rfl, same⟩ := Value.int_of_arithmetic applied
    rw [exact, ← ihl left, ← ihr right]
    exact same

theorem numeric_result (c : Calculation) (binding : String → Int64) : Numeric (c.result binding) := by
  induction c with
  | number i | named name => exact .int _
  | negated c ih => exact ih.bind fun v number => Value.numeric_negate number
  | operated op l r ihl ihr =>
    exact ihl.bind fun v left => ihr.bind fun w right => Value.numeric_arithmetic op left right

/-- Without quotients and remainders the exact value is given, or a number on the way is too long. -/
theorem result_undivided {c : Calculation} (undivided : c.undivided = true) :
    (c.AllFit binding ∧ ∃ n : Int64, c.result binding = .ok (.int n) ∧ (n.toInt : ℚ) = c.exact binding) ∨
      (¬ c.AllFit binding ∧ c.result binding = .error .overflow) := by
  induction c with
  | number i | named name => exact .inl ⟨trivial, _, rfl, rfl⟩
  | negated c ih =>
    rcases ih undivided with ⟨fit, n, made, same⟩ | ⟨long, failed⟩
    · have value : ((-n.toInt : ℤ) : ℚ) = -c.exact binding := by
        rw [← same]
        push_cast
        rfl
      unfold AllFit result
      rw [made, ← value]
      rcases Value.ofExact_cases (-n.toInt) with ⟨fits, m, negative, exact⟩ | ⟨long, failed⟩
      · refine .inl ⟨⟨fit, fits⟩, m, negative, ?_⟩
        rw [exact, value]
        rfl
      · exact .inr ⟨fun fit => long fit.2, failed⟩
    · unfold AllFit result
      rw [failed]
      exact .inr ⟨fun fit => long fit.1, rfl⟩
  | operated op l r ihl ihr =>
    simp only [Calculation.undivided, Bool.and_eq_true, Bool.not_eq_true'] at undivided
    obtain ⟨⟨plain, left⟩, right⟩ := undivided
    unfold AllFit result
    rcases ihl left with ⟨fitLeft, a, madeLeft, sameLeft⟩ | ⟨long, failed⟩
    · rcases ihr right with ⟨fitRight, b, madeRight, sameRight⟩ | ⟨long, failed⟩
      · obtain ⟨i, made, value⟩ := Value.arithmetic_undivided plain a b
        rw [madeLeft, madeRight, ← sameLeft, ← sameRight, value]
        rcases Value.ofExact_cases i with ⟨fits, n, number, exact⟩ | ⟨long, failed⟩
        · refine .inl ⟨⟨fitLeft, fitRight, fits⟩, n, made.trans number, ?_⟩
          rw [exact, Calculation.exact, ← sameLeft, ← sameRight, value]
        · exact .inr ⟨fun fit => long fit.2.2, made.trans failed⟩
      · rw [madeLeft, failed]
        exact .inr ⟨fun fit => long fit.2.1, rfl⟩
    · rw [failed]
      exact .inr ⟨fun fit => long fit.1, rfl⟩

/-- A calculation whose result is a whole number gives the exact value. Without quotients and remainders it gives the
exact value if all values on the way have 64 bits, and an overflow otherwise. A divisor of zero is an error, and so is
the one quotient, with its remainder, that is too long. Whatever it gives is a number or one of three errors, and the
state is left as it is. -/
theorem calculations_are_exact (fs : Functions) (binding : String → Int64) (c : Calculation) (s : RunState)
    (bound : c.BoundIn s.scope binding) :
    (∀ n t, eval fs c.expr s = .ok (.int n, t) → (n.toInt : ℚ) = c.exact binding) ∧
    (c.undivided = true →
      (c.AllFit binding → ∃ n : Int64, eval fs c.expr s = .ok (.int n, s) ∧ (n.toInt : ℚ) = c.exact binding) ∧
      (¬ c.AllFit binding → eval fs c.expr s = .error .overflow)) ∧
    (∀ op l r a b, c = .operated op l r → op.divides = true → eval fs l.expr s = .ok (.int a, s) →
      eval fs r.expr s = .ok (.int b, s) → (b = 0 → eval fs c.expr s = .error op.zeroDivisor) ∧
        (a = Int64.minValue → b = -1 → eval fs c.expr s = .error .overflow)) ∧
    ∃ outcome, Numeric outcome ∧ eval fs c.expr s = outcome.map (·, s) := by
  have evaluated := eval_expr fs bound
  refine ⟨?_, ?_, ?_, c.result binding, numeric_result c binding, evaluated⟩
  · intro n t made
    rw [evaluated] at made
    cases outcome : c.result binding with
    | error e =>
      rw [outcome] at made
      cases made
    | ok v =>
      rw [outcome] at made
      cases made
      exact exact_of_result outcome
  · intro undivided
    rw [evaluated]
    rcases @result_undivided binding c undivided with ⟨fit, n, made, same⟩ | ⟨long, failed⟩
    · rw [made]
      exact ⟨fun _ => ⟨n, rfl, same⟩, fun long => absurd fit long⟩
    · rw [failed]
      exact ⟨fun fit => absurd fit long, fun _ => rfl⟩
  · intro op l r a b same divides left right
    subst same
    have applied := eval_binary_of_ok op.binaryOp left right
    rw [op.binary_eq] at applied
    obtain ⟨zero, least⟩ := Value.arithmetic_undefined divides a b
    rw [expr, applied]
    constructor
    · intro none
      rw [zero none]
      rfl
    · intro first last
      rw [least first last]
      rfl

/-- The number after the least one is reached, and the numbers before it and across from it are not. -/
theorem least_number_overflows :
    let least := fun _ : String => Int64.minValue
    let s := RunState.initial (.map [("x", .int Int64.minValue)])
    let x := named "x"
    BoundIn s.scope least x ∧
    eval default (operated .mod x (number (-1))).expr s = .error .overflow ∧
    eval default (operated .sub x (number 1)).expr s = .error .overflow ∧
    ∃ n : Int64, eval default (operated .add x (number 1)).expr s = .ok (.int n, s) ∧
      (n.toInt : ℚ) = -9223372036854775807 := by
  intro least s x
  have bound (op : Operator) (i : Int64) : BoundIn s.scope least (operated op x (number i)) := by
    intro name mem
    obtain rfl := List.mem_singleton.mp mem
    rfl
  have value : x.exact least = -9223372036854775808 := by
    have : Int64.minValue.toInt = -9223372036854775808 := rfl
    simp [x, least, Calculation.exact, this]
  have one : (number 1).exact least = 1 := by
    have : (1 : Int64).toInt = 1 := rfl
    simp [Calculation.exact, this]
  refine ⟨bound .add 1, ?_, ?_, ?_⟩
  · have parts := (calculations_are_exact default least _ s (bound .mod (-1))).2.2.1
    exact (parts .mod x (number (-1)) _ _ rfl rfl rfl rfl).2 rfl rfl
  · have sums := (calculations_are_exact default least _ s (bound .sub 1)).2.1 rfl
    apply sums.2
    rintro ⟨-, -, below, -⟩
    simp only [Operator.exact, value, one] at below
    norm_num at below
  · have sums := (calculations_are_exact default least _ s (bound .add 1)).2.1 rfl
    have fits : Fits (Operator.add.exact (x.exact least) ((number 1).exact least)) := by
      simp only [Fits, Operator.exact, value, one]
      norm_num
    obtain ⟨n, made, same⟩ := sums.1 ⟨trivial, trivial, fits⟩
    refine ⟨n, made, same.trans ?_⟩
    show Operator.add.exact (x.exact least) ((number 1).exact least) = _
    simp only [Operator.exact, value, one]
    norm_num

end Calculation

end Stencil
