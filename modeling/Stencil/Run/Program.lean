import Stencil.Artifact.StmtParser
import Stencil.Error
import Stencil.Run.Exec

/-!
Programs: artifacts that have been read and can be run as often as one likes.
-/
namespace Stencil

structure Program where
  name : String
  body : List Artifact.Stmt

namespace Program

def parse (name artifact : String) : Except TemplateError Program :=
  match Artifact.parseStatements artifact with
  | .ok body => .ok ⟨name, body⟩
  | .error e => .error (.artifactSyntax name e.message)

/-- Runs all statements; every buffer must be closed at the end. -/
def run (p : Program) (params : Value) (fs : Functions) : Except EvalError RunState :=
  match execAll fs p.body (RunState.initial params) with
  | .error e => .error e
  | .ok ((), s) => if s.held.isEmpty then .ok s else .error .openBuffers

/-- The output of a run and the calls that it made, the last one first. -/
def trace (p : Program) (params : Value) (fs : Functions) :
    Except TemplateError (String × List (String × List Value)) :=
  match p.run params fs with
  | .ok s => .ok (s.output, s.calls)
  | .error e => .error (.execution p.name e.message)

/-- The page that a program makes of its parameters. -/
def execute (p : Program) (params : Value) (fs : Functions) : Except TemplateError String :=
  (p.trace params fs).map (·.1)

end Program

end Stencil
