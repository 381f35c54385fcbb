import Stencil.Value.Basic

/-!
Expressions of the artifact language.
-/
namespace Stencil.Artifact

inductive BinaryOp where
  | add | sub | mul | div | mod | concat | eq | ne | lt | le | gt | ge
  deriving DecidableEq

inductive Expr where
  | lit (v : Value)
  | var (name : String)
  | member (base : Expr) (key : String)
  | index (base key : Expr)
  | not (e : Expr)
  | neg (e : Expr)
  | binary (op : BinaryOp) (left right : Expr)
  | and (left right : Expr)
  | or (left right : Expr)
  | call (function : String) (args : List Expr)

instance : Inhabited Expr := ⟨.lit .null⟩

end Stencil.Artifact
