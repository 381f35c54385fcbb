import Stencil.Value.Basic

/-!
The variables a running template sees: those of the loops around it, innermost first, and behind them the
entries of the parameters.
-/
namespace Stencil

structure Scope where
  root : Value
  locals : List (String × Value)

namespace Scope

def ofRoot (root : Value) : Scope := ⟨root, []⟩

def depth (s : Scope) : Nat := s.locals.length

def push (key : String) (v : Value) (s : Scope) : Scope := { s with locals := (key, v) :: s.locals }

/-- Changes the innermost variable of this name, or pushes one. -/
def set (key : String) (v : Value) (s : Scope) : Scope :=
  if Keyed.has key s.locals then { s with locals := Keyed.put key v s.locals } else push key v s

def pop (s : Scope) : Scope := { s with locals := s.locals.tail }

/-- Drops the innermost variables until no more than `depth` are left. -/
def truncate (depth : Nat) (s : Scope) : Scope :=
  { s with locals := s.locals.drop (s.locals.length - depth) }

def lookup (key : String) (s : Scope) : Value :=
  match Keyed.get? key s.locals with
  | some v => v
  | none =>
    match s.root with
    | .map entries => (Keyed.get? key entries).getD .null
    | _ => .null

end Scope

end Stencil
