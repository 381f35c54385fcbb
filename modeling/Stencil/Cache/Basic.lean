import Stencil.Library.Basic
import Stencil.Run.Program

/-!
Where artifacts are kept. A cache tells whether an artifact is still good, keeps new ones, and hands out
programs ready to run. Artifacts that are no programs are not kept.
-/
namespace Stencil

/-- An artifact with the program it is, and the sources it was made from. -/
structure CacheEntry where
  artifact : String
  program : Program
  dependencies : List Dependency

def CacheEntry.make (name artifact : String) (dependencies : List Dependency) :
    Except TemplateError CacheEntry :=
  (Program.parse name artifact).map fun program => ⟨artifact, program, dependencies⟩

structure Cache (W : Type) where
  /-- Whether there is an artifact whose sources are all as they were. -/
  isFresh : Library W → (name : String) → StateM W Bool
  /-- Keeps an artifact. If it cannot be written down for good, the error says so, but it is kept for now. -/
  store : (name artifact : String) → List Dependency → StateM W (Except TemplateError Unit)
  load : (name : String) → StateM W (Except TemplateError Program)
  artifact : (name : String) → StateM W (Option String)
  remove : (name : String) → StateM W Unit

/-- Runs the program of a name. -/
def Cache.execute {W : Type} (c : Cache W) (name : String) (params : Value) (fs : Functions) :
    StateM W (Except TemplateError String) := do
  match ← c.load name with
  | .error e => pure (.error e)
  | .ok p => pure (p.execute params fs)

/-- A part of a larger state. -/
structure Part (W S : Type) where
  get : W → S
  set : S → W → W

/-- Lets something work on a part of the state. -/
def Part.within {W S α : Type} (part : Part W S) (act : StateM S α) : StateM W α := fun w =>
  let (a, s) := act (part.get w)
  (a, part.set s w)

/-- A library on a part of the state. -/
def Library.onPart {W S : Type} (lib : Library S) (part : Part W S) : Library W where
  locate name := part.within (lib.locate name)
  modified identity := part.within (lib.modified identity)
  read name := part.within (lib.read name)
  names := part.within lib.names
  reach w := lib.reach (part.get w)

end Stencil
