import Stencil.Cache.Basic

/-!
Caches that last as long as the process: one that keeps artifacts until their sources change, and one that
keeps the last artifact of every name but never takes it for good.
-/
namespace Stencil

/-- The entries that a cache holds in memory. -/
abbrev Shelf := Keyed CacheEntry

namespace Shelf

def store (name artifact : String) (dependencies : List Dependency) (s : Shelf) :
    Except TemplateError Unit × Shelf :=
  match CacheEntry.make name artifact dependencies with
  | .ok entry => (.ok (), Keyed.put name entry s)
  | .error e => (.error e, s)

def load (name : String) (s : Shelf) : Except TemplateError Program :=
  match Keyed.get? name s with
  | some entry => .ok entry.program
  | none => .error (.artifactMissing name)

def artifact (name : String) (s : Shelf) : Option String := (Keyed.get? name s).map (·.artifact)

end Shelf

namespace Cache

variable {W : Type}

/-- Keeps artifacts and forgets nothing, but never calls one fresh. -/
def transient (shelf : Part W Shelf) : Cache W where
  isFresh _ _ := pure false
  store name artifact dependencies := shelf.within (Shelf.store name artifact dependencies)
  load name := shelf.within fun s => (s.load name, s)
  artifact name := shelf.within fun s => (s.artifact name, s)
  remove name := shelf.within fun s => ((), Keyed.erase name s)

/-- Calls an artifact fresh while all its sources are as they were. -/
def memory (shelf : Part W Shelf) : Cache W where
  isFresh lib name := do
    let s ← get
    match Keyed.get? name (shelf.get s) with
    | some entry => lib.allFresh entry.dependencies
    | none => pure false
  store name artifact dependencies := shelf.within (Shelf.store name artifact dependencies)
  load name := shelf.within fun s => (s.load name, s)
  artifact name := shelf.within fun s => (s.artifact name, s)
  remove name := shelf.within fun s => ((), Keyed.erase name s)

end Cache

end Stencil
