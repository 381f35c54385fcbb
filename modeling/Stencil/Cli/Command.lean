import Stencil.Cli.Params
import Stencil.World

/-!
The command line: a folder of templates, the name of one, its parameters as JSON, and a folder for artifacts,
all of which may be left out from the end. The page goes to the output; a failure goes to the error output with
its causes, and the exit code tells of it.
-/
namespace Stencil.Cli

structure Outcome where
  code : Nat
  output : String
  errors : String

/-- A failure: what was being done, and the causes, each behind the other. -/
structure Failure where
  doing : String
  causes : List String

/-- The lines of a cause: the first behind `first`, the others behind `others`. -/
def indented (first others cause : String) : String :=
  first ++ ("\n" ++ others).intercalate (cause.splitOn "\n")

/-- Several causes are numbered. -/
def numbered : Nat → List String → List String
  | _, [] => []
  | n, cause :: causes => indented ("    " ++ toString n ++ ": ") "       " cause :: numbered (n + 1) causes

def Failure.report (f : Failure) : String :=
  let causes := match f.causes with
    | [] => ""
    | [cause] => "\n\nCaused by:\n" ++ indented "    " "    " cause
    | causes => "\n\nCaused by:\n" ++ "\n".intercalate (numbered 0 causes)
  "Error: " ++ f.doing ++ causes ++ "\n"

/-- A template error and what is behind it. -/
def causesOf : TemplateError → List String
  | .io fault => [(TemplateError.io fault).message, fault.message]
  | e => [e.message]

def readParams : Option String → Except Failure Datum
  | none => .ok defaultParams
  | some s =>
    match parseParams s with
    | .ok d => .ok d
    | .error reason => .error ⟨"parameters must be a JSON object", [reason]⟩

def openRenderer (settings : Settings) (w : World) : Except Failure (Renderer World × World) :=
  match Renderer.ofSettings settings w with
  | .ok (_, r, w) => .ok (r, w)
  | .error e => .error ⟨"failed to open template root '" ++ settings.root ++ "'", causesOf e⟩

/-- Renders a template and gives the disk as it is afterwards. -/
def renderOnce (r : Renderer World) (name : String) (params : Datum) (w : World) :
    Except Failure String × Disk :=
  match r.render name params ⟨w, 0⟩ with
  | (.ok page, s) => (.ok page, s.world.disk)
  | (.error e, s) => (.error ⟨"failed to render '" ++ name ++ "'", causesOf e⟩, s.world.disk)

def settingsOf (args : List String) : Settings :=
  { root := args.getD 0 "templates", cacheDir := args[3]? }

/-- What a call with these arguments does. -/
def call (args : List String) (disk : Disk) : Except Failure String × Disk :=
  match readParams args[2]? with
  | .error f => (.error f, disk)
  | .ok params =>
    match openRenderer (settingsOf args) (World.ofDisk disk) with
    | .error f => (.error f, disk)
    | .ok (r, w) => renderOnce r (args.getD 1 "index") params w

def Outcome.of : Except Failure String → Outcome
  | .ok page => ⟨0, page, ""⟩
  | .error f => ⟨1, "", f.report⟩

def run (args : List String) (disk : Disk) : Outcome × Disk :=
  let (r, disk) := call args disk
  (Outcome.of r, disk)

end Stencil.Cli
