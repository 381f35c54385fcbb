import Stencil.Run.EvalError
import Stencil.Text.Casing
import Stencil.Text.Quoted
import Stencil.Value.Basic

/-!
The functions that templates may call by name: the standard ones, and those that the host adds or replaces.
-/
namespace Stencil

def Value.print (v : Value) : Except EvalError String :=
  match v.printed? with
  | some s => .ok s
  | none => .error (.unprintable v.typeName)

abbrev Function := List Value → Except EvalError Value

abbrev Functions := Keyed Function

namespace Functions

/-- The text of the only argument. -/
def onlyText (name : String) : List Value → Except EvalError String
  | [v] => v.print
  | _ => .error (.notOneArgument name)

/-- A function from text to text. -/
def ofText (name : String) (f : List Char → List Char) : Function := fun args =>
  (onlyText name args).map fun s => .str (String.ofList (f s.toList))

def count : Function
  | [.list items] => .ok (.int (Int64.ofNat items.length))
  | [.map entries] => .ok (.int (Int64.ofNat entries.length))
  | [.str s] => .ok (.int (Int64.ofNat s.length))
  | [.null] => .ok (.int 0)
  | _ => .error .notCountable

/-- What every template may call; `_` puts a text into the reader's language, and leaves it as it is until it is
localized. -/
def standard : Functions :=
  [("_", ofText "_" id), ("escape", ofText "escape" Text.escape), ("upper", ofText "upper" Text.upper),
    ("lower", ofText "lower" Text.lower), ("count", count)]

def register (name : String) (f : Function) (fs : Functions) : Functions := Keyed.put name f fs

/-- Sets how texts are put into the reader's language. -/
def localize (f : String → String) (fs : Functions) : Functions :=
  register "_" (fun args => (onlyText "_" args).map fun s => .str (f s)) fs

def call (fs : Functions) (name : String) (args : List Value) : Except EvalError Value :=
  match Keyed.get? name fs with
  | some f => f args
  | none => .error (.undefinedFunction name)

end Functions

end Stencil
