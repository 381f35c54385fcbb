import Stencil.Cache.Folder
import Stencil.Compile.Emit
import Stencil.Library.Folder
import Stencil.Library.Memory
import Stencil.Settings
import Stencil.Tag.Standard
import Stencil.Value.Datum

/-!
Renderers: they compile templates when that is needed, keep the artifacts in a cache, and run them.
-/
namespace Stencil

structure Renderer (W : Type) where
  library : Library W
  cache : Cache W
  tagSets : List Tag.TagSet
  functions : Functions
  strip : Bool
  singleFlight : Bool

/-- The world that a renderer works on, and how often it has compiled a template. -/
structure Workbench (W : Type) where
  world : W
  compilations : Nat

/-- A compiled template. -/
structure Compiled where
  template : Template
  artifact : String

/-- Something that pages are written to. It is never given an empty text. -/
structure Output (S : Type) where
  put : String → S → Except DiskFault S

/-- Holds all that was written to it. -/
def Output.buffer : Output String := ⟨fun s held => .ok (held ++ s)⟩

def Output.write {S : Type} (out : Output S) (s : String) (held : S) : Except TemplateError S :=
  if s.isEmpty then .ok held else (out.put s held).mapError .io

/-- A piece of a renderer's work. What it has done stays done if it fails. -/
abbrev Rendering (W : Type) := ExceptT TemplateError (StateM (Workbench W))

namespace Renderer

variable {W : Type}

/-- A renderer with the standard tags and functions. -/
def make (library : Library W) (cache : Cache W) : Renderer W where
  library := library
  cache := cache
  tagSets := [Tag.standard]
  functions := Functions.standard
  strip := true
  singleFlight := true

def table (r : Renderer W) : Tag.Table := Tag.Table.ofSets r.tagSets

def compiler (r : Renderer W) : Compiler W := ⟨r.library, r.table⟩

/-- Adds tags; they take the place of earlier ones of the same name and phase. -/
def addTags (r : Renderer W) (set : Tag.TagSet) : Renderer W := { r with tagSets := r.tagSets ++ [set] }

def liftExcept {α : Type} (r : Except TemplateError α) : Rendering W α := fun s => (r, s)

/-- Lets something work on the world alone. -/
def onWorld {α : Type} (act : StateM W α) : Rendering W α := fun s =>
  let (a, world) := act s.world
  (.ok a, { s with world := world })

def onWorldExcept {α : Type} (act : StateM W (Except TemplateError α)) : Rendering W α := fun s =>
  let (r, world) := act s.world
  (r, { s with world := world })

/-- A compilation from the beginning, in a world that it leaves as it then is. -/
def compileWith {α : Type} (act : Compile W α) : StateM W (Except TemplateError α) := fun w =>
  let (r, s) := act (CompileState.initial w)
  (r, s.world)

def compileSteps (r : Renderer W) (name : String) : Compile W Compiled := do
  let template ← Compile.template r.compiler name
  let artifact ← Compile.artifact r.compiler template.root r.strip
  pure ⟨template, artifact⟩

/-- Compiles a template without running or keeping it. Only success counts. -/
def compile (r : Renderer W) (name : String) : Rendering W Compiled := do
  let compiled ← onWorldExcept (compileWith (r.compileSteps name))
  modify fun s => { s with compilations := s.compilations + 1 }
  pure compiled

/-- The artifact of a text. -/
def compileInline (r : Renderer W) (name text : String) : Rendering W String :=
  onWorldExcept (compileWith do
    let template ← Compile.inlineTemplate r.compiler name text
    Compile.artifact r.compiler template.root r.strip)

/-- Whether the cache has a good artifact. -/
def isFresh (r : Renderer W) (name : String) : Rendering W Bool := onWorld (r.cache.isFresh r.library name)

/-- What counts as kept: an artifact that cannot be written to disk is still good for this process. -/
def tolerated : Except TemplateError Unit → Except TemplateError Unit
  | .error (.io _) => .ok ()
  | r => r

/-- Keeps a compiled template. -/
def keep (r : Renderer W) (name : String) (c : Compiled) : Rendering W Unit :=
  onWorldExcept (tolerated <$> r.cache.store name c.artifact c.template.dependencies)

def compileAndKeep (r : Renderer W) (name : String) : Rendering W Unit := do
  let compiled ← r.compile name
  r.keep name compiled

/-- Sees to it that the cache has a good artifact. With single flight the cache is asked once more after the
name's turn has come, since another caller may have compiled it meanwhile. -/
def ensure (r : Renderer W) (name : String) : Rendering W Unit := do
  let good ← r.isFresh name
  if good then pure ()
  else if r.singleFlight then do
    let good ← r.isFresh name
    if good then pure () else r.compileAndKeep name
  else r.compileAndKeep name

def renderValue (r : Renderer W) (name : String) (params : Value) : Rendering W String := do
  r.ensure name
  onWorldExcept (r.cache.execute name params r.functions)

/-- The page of a template. Parameters that are no value fail before anything is compiled. -/
def render (r : Renderer W) (name : String) (params : Datum) : Rendering W String :=
  match params.toValue with
  | .error e => throw e
  | .ok v => r.renderValue name v

/-- Writes the page of a template to an output. -/
def renderTo {S : Type} (r : Renderer W) (name : String) (params : Datum) (out : Output S) (held : S) :
    Rendering W S := do
  let page ← r.render name params
  liftExcept (out.write page held)

/-- Compiles all templates of the library up to the first that fails, and counts them. -/
def precompile (r : Renderer W) : Rendering W Nat := do
  let names ← onWorldExcept r.library.names
  names.forM r.ensure
  pure names.length

/-- Forgets the artifact of a template. -/
def remove (r : Renderer W) (name : String) : Rendering W Unit := onWorld (r.cache.remove name)

end Renderer

end Stencil
