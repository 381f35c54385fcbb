import Stencil.Decimal.Reading
import Stencil.Error
import Stencil.Keyed

/-!
What a tag demands of its parameters: which there are, of which kind, and what stands for a missing one.
-/
namespace Stencil.Tag

inductive ParamKind where
  /-- A variable, with the dollar sign. -/
  | var
  | int
  /-- A finite number. -/
  | number
  /-- An expression, which is passed on unread. -/
  | expr
  | text
  /-- The name of a block. -/
  | id
  deriving DecidableEq

structure ParamSpec where
  name : String
  kind : ParamKind
  /-- What a missing parameter is taken to be; without it the parameter is required. -/
  default? : Option String
  /-- What is said where a required parameter is missing. -/
  complaint? : Option String

def ParamSpec.required (name : String) (kind : ParamKind) : ParamSpec := ⟨name, kind, none, none⟩

def ParamSpec.optional (name : String) (kind : ParamKind) (value : String) : ParamSpec :=
  ⟨name, kind, some value, none⟩

def ParamSpec.orComplain (spec : ParamSpec) (complaint : String) : ParamSpec :=
  { spec with complaint? := some complaint }

/-- A dollar sign and a name of letters, digits and underscores that does not start with a digit. -/
def isVariable : List Char → Bool
  | '$' :: c :: s => (c.isAlpha || c == '_') && s.all fun d => d.isAlphanum || d == '_'
  | _ => false

def ParamKind.admits (kind : ParamKind) (value : String) : Bool :=
  match kind with
  | var => isVariable value.toList
  | int => (Decimal.readInt64? value.toList).isSome
  | number => (Decimal.readFloat? value.toList).any (·.isFinite)
  | id => !value.isEmpty
  | expr | text => true

def ParamKind.description : ParamKind → String
  | var => "a variable name"
  | int => "an integer"
  | number => "a number"
  | _ => "a non-empty identifier"

def ParamSpec.complaint (spec : ParamSpec) : String :=
  spec.complaint?.getD ("Expected parameter '" ++ spec.name ++ "'")

def ParamSpec.mismatch (spec : ParamSpec) (value : String) : String :=
  "Parameter '" ++ spec.name ++ "' must be " ++ spec.kind.description ++ ", got '" ++ value ++ "'"

/-- The parameters after one demand: unchanged if it is met, with the default if it was missing. -/
def ParamSpec.apply (spec : ParamSpec) (site : Site) (params : Keyed String) :
    Except TemplateError (Keyed String) :=
  match Keyed.get? spec.name params with
  | none =>
    match spec.default? with
    | some value => .ok (Keyed.put spec.name value params)
    | none => .error (.missingParameter site spec.complaint)
  | some value =>
    if spec.kind.admits value then .ok params
    else .error (.parameterType site (spec.mismatch value))

def applyAll (site : Site) : List ParamSpec → Keyed String → Except TemplateError (Keyed String)
  | [], params => .ok params
  | spec :: specs, params =>
    match spec.apply site params with
    | .error e => .error e
    | .ok params => applyAll site specs params

/-- The parameters that nothing demands. -/
def undeclared (specs : List ParamSpec) (params : Keyed String) : List String :=
  (Keyed.keys params).filter fun key => !specs.any (·.name = key)

/-- The parameters with their defaults, if all demands are met and, unless others are allowed, there are no
others. -/
def checkParams (site : Site) (allowOthers : Bool) (specs : List ParamSpec) (params : Keyed String) :
    Except TemplateError (Keyed String) :=
  match applyAll site specs params with
  | .error e => .error e
  | .ok params =>
    let others := if allowOthers then [] else undeclared specs params
    if others.isEmpty then .ok params
    else .error (.parameterType site
      ("One or more unknown parameters: '" ++ ",".intercalate others ++ "'"))

end Stencil.Tag
