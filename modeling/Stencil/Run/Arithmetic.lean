import Stencil.Artifact.Expr
import Stencil.Run.Functions

/-!
What the operators compute. Two whole numbers give a whole number, exact or an error, except that a division
with a rest gives a floating-point number; in all other mixtures both operands count as floating-point numbers.
-/
namespace Stencil

open Artifact (BinaryOp)

namespace Value

/-- The result of exact arithmetic, if it fits. -/
def ofExact (i : Int) : Except EvalError Value :=
  match Decimal.int64? i with
  | some v => .ok (.int v)
  | none => .error .overflow

/-- Division of whole numbers. The one quotient that does not fit is that of the least number and minus one. -/
def divide (a b : Int64) : Except EvalError Value :=
  if b = 0 then .error .divisionByZero
  else if a = Int64.minValue ∧ b = -1 then .error .overflow
  else if a.toInt.tmod b.toInt = 0 then ofExact (a.toInt.tdiv b.toInt)
  else .ok (.float (Decimal.nearestWhole a / Decimal.nearestWhole b))

def modulo (a b : Int64) : Except EvalError Value :=
  if b = 0 then .error .moduloByZero
  else if a = Int64.minValue ∧ b = -1 then .error .overflow
  else ofExact (a.toInt.tmod b.toInt)

/-- Arithmetic on floating-point numbers. -/
def floatArithmetic (op : BinaryOp) (a b : Float) : Except EvalError Value :=
  match op with
  | .add => .ok (.float (a + b))
  | .sub => .ok (.float (a - b))
  | .mul => .ok (.float (a * b))
  | .div => if b == 0 then .error .divisionByZero else .ok (.float (a / b))
  | _ => .ok (.float (Decimal.remainder a b))

def intArithmetic (op : BinaryOp) (a b : Int64) : Except EvalError Value :=
  match op with
  | .add => ofExact (a.toInt + b.toInt)
  | .sub => ofExact (a.toInt - b.toInt)
  | .mul => ofExact (a.toInt * b.toInt)
  | .div => divide a b
  | _ => modulo a b

def arithmetic (op : BinaryOp) : Value → Value → Except EvalError Value
  | .int a, .int b => intArithmetic op a b
  | l, r =>
    match l.toFloat?, r.toFloat? with
    | some a, some b => floatArithmetic op a b
    | _, _ => .error (.badOperands l.typeName r.typeName)

/-- The order of two floating-point numbers, which a value that is no number does not have. -/
def floatOrder? (a b : Float) : Option Ordering :=
  if a < b then some .lt else if a == b then some .eq else if b < a then some .gt else none

/-- The order of two values. Two texts compare by their characters, two whole numbers exactly, all else as
floating-point numbers. -/
def order : Value → Value → Except EvalError Ordering
  | .str a, .str b => .ok (compare a b)
  | .int a, .int b => .ok (compare a.toInt b.toInt)
  | l, r =>
    match l.toFloat?, r.toFloat? with
    | some a, some b =>
      match floatOrder? a b with
      | some o => .ok o
      | none => .error .comparedNaN
    | _, _ => .error (.notComparable l.typeName r.typeName)

/-- Equality as templates see it: numbers are equal if they are equal as floating-point numbers. -/
def looselyEquals : Value → Value → Bool
  | .int a, .int b => Decimal.nearestWhole a == Decimal.nearestWhole b
  | .int a, .float y => Decimal.nearestWhole a == y
  | .float x, .int b => x == Decimal.nearestWhole b
  | l, r => l.equals r

def holds (op : BinaryOp) (o : Ordering) : Bool :=
  match op with
  | .lt => o == .lt
  | .le => o != .gt
  | .gt => o == .gt
  | _ => o != .lt

/-- The value of a binary operator. -/
def binary (op : BinaryOp) (l r : Value) : Except EvalError Value :=
  match op with
  | .concat =>
    match l.print with
    | .error e => .error e
    | .ok a => r.print.map fun b => .str (a ++ b)
  | .eq => .ok (.bool (looselyEquals l r))
  | .ne => .ok (.bool (!looselyEquals l r))
  | .lt | .le | .gt | .ge => (order l r).map fun o => .bool (holds op o)
  | .add | .sub | .mul | .div | .mod => arithmetic op l r

def negate : Value → Except EvalError Value
  | .int i => ofExact (-i.toInt)
  | v =>
    match v.toFloat? with
    | some x => .ok (.float (-x))
    | none => .error (.notNegatable v.typeName)

end Value

end Stencil
