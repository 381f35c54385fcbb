import Stencil.Artifact.Stmt
import Stencil.Run.Arithmetic
import Stencil.Run.Scope

/-!
Running statements. The state of a run is its variables, the output so far, the outputs that were held back
when a buffer was opened, and a record of the calls that were made.
-/
namespace Stencil

open Artifact (Expr Stmt Alternative)

structure RunState where
  scope : Scope
  output : String
  /-- The outputs around the open buffers, innermost first. -/
  held : List String
  /-- Functions called and their arguments, the last call first. -/
  calls : List (String × List Value)

def RunState.initial (params : Value) : RunState := ⟨Scope.ofRoot params, "", [], []⟩

abbrev Run := StateT RunState (Except EvalError)

namespace Run

def fail {α : Type} (e : EvalError) : Run α := fun _ => .error e

def lift {α : Type} (x : Except EvalError α) : Run α := fun s => x.map (·, s)

def write (text : String) : Run Unit := modify fun s => { s with output := s.output ++ text }

def setVar (name : String) (v : Value) : Run Unit := modify fun s => { s with scope := s.scope.set name v }

def openBuffer : Run Unit := modify fun s => { s with output := "", held := s.output :: s.held }

/-- Ends the innermost buffer and gives what was written to it. -/
def closeBuffer : Run String := fun s =>
  match s.held with
  | [] => .error .noBuffer
  | outer :: held => .ok (s.output, { s with output := outer, held := held })

def call (fs : Functions) (name : String) (args : List Value) : Run Value := do
  modify fun s => { s with calls := (name, args) :: s.calls }
  lift (fs.call name args)

end Run

/-- The call that ends a buffer; its arguments are not looked at. -/
def bufferCall : String := "ob_get_clean"

mutual

def eval (fs : Functions) : Expr → Run Value
  | .lit v => pure v
  | .var name => do
    let s ← get
    pure (s.scope.lookup name)
  | .member base key => do
    let v ← eval fs base
    pure (v.member key)
  | .index base key => do
    let v ← eval fs base
    let k ← eval fs key
    pure (v.index k)
  | .not e => do
    let v ← eval fs e
    pure (.bool !v.isTruthy)
  | .neg e => do
    let v ← eval fs e
    Run.lift v.negate
  | .and l r => do
    let v ← eval fs l
    if v.isTruthy then do
      let w ← eval fs r
      pure (.bool w.isTruthy)
    else pure (.bool false)
  | .or l r => do
    let v ← eval fs l
    if v.isTruthy then pure (.bool true)
    else do
      let w ← eval fs r
      pure (.bool w.isTruthy)
  | .binary op l r => do
    let v ← eval fs l
    let w ← eval fs r
    Run.lift (Value.binary op v w)
  | .call name args =>
    if name = bufferCall then do
      let text ← Run.closeBuffer
      pure (.str text)
    else do
      let values ← evalAll fs args
      Run.call fs name values

def evalAll (fs : Functions) : List Expr → Run (List Value)
  | [] => pure []
  | e :: es => do
    let v ← eval fs e
    let vs ← evalAll fs es
    pure (v :: vs)

end

/-- A whole number that a loop needs. -/
def evalInt (fs : Functions) (what : String) (e : Expr) : Run Int64 := do
  let v ← eval fs e
  match v.toInt? with
  | some i => pure i
  | none => Run.fail (.loopNotInteger what v.typeName)

/-- How many numbers `first`, `first + step`, … there are that do not pass `last`. -/
def progressionLength (first last step : Int) : Nat :=
  if 0 < step then if last < first then 0 else ((last - first) / step).toNat + 1
  else if first < last then 0 else ((first - last) / -step).toNat + 1

/-- Runs a body `n` times, with the variable at `i` and then `step` further each time. -/
def countLoop (var : String) (step : Int64) (body : Run Unit) : (n : Nat) → Int64 → Run Unit
  | 0, _ => pure ()
  | n + 1, i => do
    Run.setVar var (.int i)
    body
    countLoop var step body n (i + step)

/-- The keys and values that a loop goes through. -/
def entries : Value → Except EvalError (List (Value × Value))
  | .list items => .ok (items.mapIdx fun i v => (.int (Int64.ofNat i), v))
  | .map table => .ok (table.map fun (key, v) => (.str key, v))
  | .null => .ok []
  | v => .error (.notIterable v.typeName)

def setKey (key : Option String) (k : Value) : Run Unit :=
  match key with
  | some name => Run.setVar name k
  | none => pure ()

def eachLoop (key : Option String) (value : String) (body : Run Unit) : List (Value × Value) → Run Unit
  | [] => pure ()
  | (k, v) :: rest => do
    setKey key k
    Run.setVar value v
    body
    eachLoop key value body rest

/-- Runs a loop and forgets the variables that it brought. -/
def inLoopScope (loop : Run Unit) : Run Unit := do
  let s ← get
  let depth := s.scope.depth
  loop
  modify fun s => { s with scope := s.scope.truncate depth }

mutual

def exec (fs : Functions) : Stmt → Run Unit
  | .text s => Run.write s
  | .echo e => do
    let v ← eval fs e
    let text ← Run.lift v.print
    Run.write text
  | .startBuffer => Run.openBuffer
  | .branch test body otherwise => do
    let v ← eval fs test
    if v.isTruthy then execAll fs body else execAlternative fs otherwise
  | .count var first last step descending body => do
    let first ← evalInt fs "from" first
    let last ← evalInt fs "to" last
    let step ← evalInt fs "step" step
    if step = 0 ∨ decide (step < 0) ≠ descending then Run.fail (.badStep step.toInt)
    else
      let n := progressionLength first.toInt last.toInt step.toInt
      inLoopScope (countLoop var step (execAll fs body) n first)
  | .each list key value body => do
    let v ← eval fs list
    let items ← Run.lift (entries v)
    inLoopScope (eachLoop key value (execAll fs body) items)

def execAll (fs : Functions) : List Stmt → Run Unit
  | [] => pure ()
  | s :: rest => do
    exec fs s
    execAll fs rest

def execAlternative (fs : Functions) : Alternative → Run Unit
  | .nothing => pure ()
  | .otherwise body => execAll fs body
  | .branch test body rest => do
    let v ← eval fs test
    if v.isTruthy then execAll fs body else execAlternative fs rest

end

end Stencil
