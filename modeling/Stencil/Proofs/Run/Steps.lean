import Stencil.Proofs.Run.Scoping

/-!
Properties of runs that come from their steps. What holds of every single step, and of steps that follow each other
when it holds of both, holds of the evaluation of every expression and of the execution of every statement.
-/
namespace Stencil

open Artifact (Expr Stmt Alternative BinaryOp)

namespace Artifact

mutual

/-- Whether an expression calls for no buffer. -/
def Expr.bufferless : Expr → Bool
  | .lit _ | .var _ => true
  | .member base _ => base.bufferless
  | .index base key => base.bufferless && key.bufferless
  | .not e | .neg e => e.bufferless
  | .binary _ left right | .and left right | .or left right => left.bufferless && right.bufferless
  | .call function args => function != bufferCall && listBufferless args

def listBufferless : List Expr → Bool
  | [] => true
  | e :: es => e.bufferless && listBufferless es

end

end Artifact

/-! ### Errors that are not about buffers -/

/-- An error that is not about buffers. -/
def EvalError.Unbuffered (e : EvalError) : Prop := e ≠ .noBuffer ∧ e ≠ .openBuffers

/-- A result that is no error about buffers. -/
def Calm {α : Type} (x : Except EvalError α) : Prop := ∀ e, x = .error e → e.Unbuffered

theorem Calm.ok {α : Type} (a : α) : Calm (.ok a) := by
  intro e failed
  cases failed

theorem Calm.error {α : Type} {e : EvalError} (unbuffered : e.Unbuffered) : Calm (.error e : Except EvalError α) := by
  intro e' failed
  cases failed
  exact unbuffered

theorem Calm.map {α β : Type} {x : Except EvalError α} (calm : Calm x) (f : α → β) : Calm (x.map f) := by
  cases x with
  | error e => exact .error (calm e rfl)
  | ok a => exact .ok (f a)

namespace Value

theorem print_calm (v : Value) : Calm v.print := by
  unfold print
  split
  · exact .ok _
  · exact .error (by constructor <;> nofun)

theorem ofExact_calm (i : Int) : Calm (ofExact i) := by
  unfold ofExact
  split
  · exact .ok _
  · exact .error (by constructor <;> nofun)

theorem intArithmetic_calm (op : BinaryOp) (a b : Int64) : Calm (intArithmetic op a b) := by
  unfold intArithmetic divide modulo
  repeat' split
  all_goals first
    | exact ofExact_calm _
    | exact .ok _
    | exact .error (by constructor <;> nofun)

theorem floatArithmetic_calm (op : BinaryOp) (a b : Float) : Calm (floatArithmetic op a b) := by
  unfold floatArithmetic
  repeat' split
  all_goals first
    | exact .ok _
    | exact .error (by constructor <;> nofun)

theorem arithmetic_calm (op : BinaryOp) (l r : Value) : Calm (arithmetic op l r) := by
  unfold arithmetic
  split
  · exact intArithmetic_calm op _ _
  · split
    · exact floatArithmetic_calm op _ _
    · exact .error (by constructor <;> nofun)

theorem order_calm (l r : Value) : Calm (order l r) := by
  unfold order
  repeat' split
  all_goals first
    | exact .ok _
    | exact .error (by constructor <;> nofun)

theorem binary_calm (op : BinaryOp) (l r : Value) : Calm (binary op l r) := by
  cases op with
  | concat =>
    unfold binary
    dsimp only
    split
    · rename_i failed
      exact .error (print_calm l _ failed)
    · exact (print_calm r).map _
  | eq | ne => exact .ok _
  | lt | le | gt | ge => exact (order_calm l r).map _
  | add | sub | mul | div | mod => exact arithmetic_calm _ l r

theorem negate_calm (v : Value) : Calm v.negate := by
  unfold negate
  split
  · exact ofExact_calm _
  · split
    · exact .ok _
    · exact .error (by constructor <;> nofun)

end Value

theorem entries_calm (v : Value) : Calm (entries v) := by
  unfold entries
  split
  · exact .ok _
  · exact .ok _
  · exact .ok _
  · exact .error (by constructor <;> nofun)

/-! ### Steps -/

/-- A property of all steps of runs, those with buffers apart, that is kept when runs follow each other. -/
structure Run.Steps (fs : Functions) (P : (α : Type) → Run α → Prop) : Prop where
  pure : ∀ {α : Type} (a : α), P α (pure a)
  bind : ∀ {α β : Type} {m : Run α} {f : α → Run β}, P α m → (∀ a, P β (f a)) → P β (m >>= f)
  lift : ∀ {α : Type} {x : Except EvalError α}, Calm x → P α (Run.lift x)
  lookup : ∀ name, P Value (do let s ← get; Pure.pure (s.scope.lookup name))
  write : ∀ text, P Unit (Run.write text)
  setVar : ∀ name v, P Unit (Run.setVar name v)
  call : ∀ name args, P Value (Run.call fs name args)
  inScope : ∀ {loop : Run Unit}, P Unit loop → P Unit (inLoopScope loop)

namespace Run.Steps

variable {fs : Functions} {P : (α : Type) → Run α → Prop} (steps : Run.Steps fs P)

include steps

/-! #### Expressions -/

mutual

/-- An expression that ends a buffer takes the step that does so. -/
theorem eval (e : Expr) (buffers : e.bufferless = true ∨ P String Run.closeBuffer) : P Value (Stencil.eval fs e) := by
  cases e with
  | lit v => exact steps.pure v
  | var name => exact steps.lookup name
  | member base key => exact steps.bind (eval base buffers) fun _ => steps.pure _
  | index base key =>
    rw [Expr.bufferless, Bool.and_eq_true] at buffers
    refine steps.bind (eval base (buffers.imp_left And.left)) fun _ => ?_
    exact steps.bind (eval key (buffers.imp_left And.right)) fun _ => steps.pure _
  | not e => exact steps.bind (eval e buffers) fun _ => steps.pure _
  | neg e => exact steps.bind (eval e buffers) fun v => steps.lift (Value.negate_calm v)
  | binary op l r =>
    rw [Expr.bufferless, Bool.and_eq_true] at buffers
    refine steps.bind (eval l (buffers.imp_left And.left)) fun v => ?_
    exact steps.bind (eval r (buffers.imp_left And.right)) fun w => steps.lift (Value.binary_calm op v w)
  | and l r =>
    rw [Expr.bufferless, Bool.and_eq_true] at buffers
    refine steps.bind (eval l (buffers.imp_left And.left)) fun v => ?_
    split
    · exact steps.bind (eval r (buffers.imp_left And.right)) fun _ => steps.pure _
    · exact steps.pure _
  | or l r =>
    rw [Expr.bufferless, Bool.and_eq_true] at buffers
    refine steps.bind (eval l (buffers.imp_left And.left)) fun v => ?_
    split
    · exact steps.pure _
    · exact steps.bind (eval r (buffers.imp_left And.right)) fun _ => steps.pure _
  | call name args =>
    rw [Expr.bufferless, Bool.and_eq_true, bne_iff_ne] at buffers
    unfold Stencil.eval
    split
    · rename_i ends
      exact steps.bind (buffers.resolve_left fun h => h.1 ends) fun _ => steps.pure _
    · exact steps.bind (evalAll args (buffers.imp_left And.right)) fun values => steps.call name values

theorem evalAll (es : List Expr) (buffers : Artifact.listBufferless es = true ∨ P String Run.closeBuffer) :
    P (List Value) (Stencil.evalAll fs es) := by
  cases es with
  | nil => exact steps.pure _
  | cons e es =>
    rw [Artifact.listBufferless, Bool.and_eq_true] at buffers
    refine steps.bind (eval e (buffers.imp_left And.left)) fun _ => ?_
    exact steps.bind (evalAll es (buffers.imp_left And.right)) fun _ => steps.pure _

end

theorem evalInt (what : String) (e : Expr) (buffers : e.bufferless = true ∨ P String Run.closeBuffer) :
    P Int64 (Stencil.evalInt fs what e) := by
  refine steps.bind (steps.eval e buffers) fun v => ?_
  split
  · exact steps.pure _
  · exact steps.lift (.error (by constructor <;> nofun))

/-- A value is printed. -/
theorem print (v : Value) : P Unit (do let text ← Run.lift v.print; Run.write text) :=
  steps.bind (steps.lift (Value.print_calm v)) fun text => steps.write text

/-! #### Loops -/

section Loops

variable {body : Run Unit} (inner : P Unit body)

include inner

theorem countLoop (var : String) (step : Int64) (n : Nat) (i : Int64) :
    P Unit (Stencil.countLoop var step body n i) := by
  induction n generalizing i with
  | zero => exact steps.pure ()
  | succ n ih => exact steps.bind (steps.setVar var _) fun _ => steps.bind inner fun _ => ih (i + step)

theorem eachLoop (key : Option String) (value : String) (items : List (Value × Value)) :
    P Unit (Stencil.eachLoop key value body items) := by
  induction items with
  | nil => exact steps.pure ()
  | cons item items ih =>
    have setsKey : P Unit (setKey key item.1) := by
      cases key with
      | none => exact steps.pure ()
      | some name => exact steps.setVar name _
    exact steps.bind setsKey fun _ => steps.bind (steps.setVar value _) fun _ => steps.bind inner fun _ => ih

end Loops

end Run.Steps

/-! #### Statements -/

/-- The same of all steps. -/
structure Run.AllSteps (fs : Functions) (P : (α : Type) → Run α → Prop) : Prop extends Run.Steps fs P where
  openBuffer : P Unit Run.openBuffer
  closeBuffer : P String Run.closeBuffer

namespace Run.AllSteps

variable {fs : Functions} {P : (α : Type) → Run α → Prop} (steps : Run.AllSteps fs P)

include steps

mutual

theorem exec (stmt : Stmt) : P Unit (Stencil.exec fs stmt) := by
  cases stmt with
  | text s => exact steps.write s
  | echo e => exact steps.bind (steps.eval e (.inr steps.closeBuffer)) fun v => steps.print v
  | startBuffer => exact steps.openBuffer
  | branch test body otherwise =>
    refine steps.bind (steps.eval test (.inr steps.closeBuffer)) fun v => ?_
    split
    · exact execAll body
    · exact execAlternative otherwise
  | count var first last step descending body =>
    refine steps.bind (steps.evalInt _ first (.inr steps.closeBuffer)) fun first => ?_
    refine steps.bind (steps.evalInt _ last (.inr steps.closeBuffer)) fun last => ?_
    refine steps.bind (steps.evalInt _ step (.inr steps.closeBuffer)) fun step => ?_
    split
    · exact steps.lift (.error (by constructor <;> nofun))
    · exact steps.inScope (steps.countLoop (execAll body) _ _ _ _)
  | each list key value body =>
    refine steps.bind (steps.eval list (.inr steps.closeBuffer)) fun v => ?_
    refine steps.bind (steps.lift (entries_calm v)) fun items => ?_
    exact steps.inScope (steps.eachLoop (execAll body) _ _ items)

theorem execAll (stmts : List Stmt) : P Unit (Stencil.execAll fs stmts) := by
  cases stmts with
  | nil => exact steps.pure ()
  | cons stmt stmts => exact steps.bind (exec stmt) fun _ => execAll stmts

theorem execAlternative (other : Alternative) : P Unit (Stencil.execAlternative fs other) := by
  cases other with
  | nothing => exact steps.pure ()
  | otherwise body => exact execAll body
  | branch test body rest =>
    refine steps.bind (steps.eval test (.inr steps.closeBuffer)) fun v => ?_
    split
    · exact execAll body
    · exact execAlternative rest

end

end Run.AllSteps

end Stencil
