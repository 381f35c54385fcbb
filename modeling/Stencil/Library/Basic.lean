import Stencil.Error

/-!
Where template sources come from. A library finds the identity of a name, tells when the source of an identity
was last changed, and reads sources. It works on a state of its own, so that sources may change while they are
being read.
-/
namespace Stencil

/-- A mark of the moment at which a source was changed. -/
structure Stamp where
  value : Nat
  deriving DecidableEq

structure Library (W : Type) where
  /-- The identity of the source that has this name. -/
  locate : String → StateM W (Except TemplateError String)
  /-- When the source of an identity was last changed; none if it does not exist. -/
  modified : String → StateM W (Option Stamp)
  read : String → StateM W (Except TemplateError String)
  /-- The names of all sources, in order. -/
  names : StateM W (Except TemplateError (List String))
  /-- No fewer than the identities that can be found from here on. -/
  reach : W → Nat

/-- A source that an artifact was made from, and its stamp at the time. -/
structure Dependency where
  identity : String
  stamp : Option Stamp
  deriving DecidableEq

namespace Library

variable {W : Type}

/-- Whether a source still has the stamp that was recorded. Without a recorded stamp it never has. -/
def isFresh (lib : Library W) (d : Dependency) : StateM W Bool :=
  match d.stamp with
  | none => pure false
  | some stamp => do
    let now ← lib.modified d.identity
    pure (now = some stamp)

/-- Whether all sources are as they were. -/
def allFresh (lib : Library W) : List Dependency → StateM W Bool
  | [] => pure true
  | d :: ds => do
    if ← lib.isFresh d then lib.allFresh ds else pure false

end Library

end Stencil
