import Stencil.Artifact.Expr

/-!
Statements of the artifact language.
-/
namespace Stencil.Artifact

mutual

inductive Stmt where
  | text (s : String)
  | echo (e : Expr)
  | branch (test : Expr) (body : List Stmt) (otherwise : Alternative)
  /-- A loop over whole numbers from `first` in steps of `step`, no further than `last`. -/
  | count (var : String) (first last step : Expr) (descending : Bool) (body : List Stmt)
  /-- A loop over the items of a list or the entries of a map. -/
  | each (list : Expr) (key : Option String) (value : String) (body : List Stmt)
  /-- From here on output is held back until it is asked for. -/
  | startBuffer

/-- What is done where the test of a branch fails. -/
inductive Alternative where
  | nothing
  | otherwise (body : List Stmt)
  | branch (test : Expr) (body : List Stmt) (rest : Alternative)

end

end Stencil.Artifact
