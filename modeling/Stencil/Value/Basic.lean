import Stencil.Keyed
import Stencil.Decimal.Layout
import Stencil.Decimal.Reading
import Stencil.Text.Blank

/-!
Values that a template works with while it runs: their truth, their text, their number, and the members of
lists and maps. A map keeps the order of its keys.
-/
namespace Stencil

inductive Value where
  | null
  | bool (b : Bool)
  | int (i : Int64)
  | float (x : Float)
  | str (s : String)
  | list (items : List Value)
  | map (entries : List (String × Value))

namespace Value

instance : Inhabited Value := ⟨.null⟩

def typeName : Value → String
  | null => "null"
  | bool _ => "bool"
  | int _ => "int"
  | float _ => "float"
  | str _ => "string"
  | list _ => "list"
  | map _ => "map"

def isTruthy : Value → Bool
  | null => false
  | bool b => b
  | int i => i != 0
  | float x => x != 0
  | str s => s != "" && s != "0"
  | list items => !items.isEmpty
  | map entries => !entries.isEmpty

/-- The text of any value; of a list or map only its kind and size. -/
def text : Value → String
  | null => ""
  | bool b => if b then "true" else "false"
  | int i => String.ofList (Decimal.ofInt64 i)
  | float x => String.ofList (Decimal.plain.write x)
  | str s => s
  | list items => "[list; " ++ toString items.length ++ "]"
  | map entries => "[map; " ++ toString entries.length ++ "]"

/-- The text of a value that may be printed; lists and maps may not. -/
def printed? : Value → Option String
  | list _ => none
  | map _ => none
  | v => some v.text

def toFloat? : Value → Option Float
  | int i => some (Decimal.nearestWhole i)
  | float x => some x
  | bool b => some (if b then 1 else 0)
  | str s => Decimal.readFloat? (Text.trim s.toList)
  | _ => none

/-- Whether a floating-point number is finite and whole. -/
def isWhole (x : Float) : Bool := x.isFinite && x.floor == x

/-- The whole number of a value. A whole floating-point number beyond 64 bits counts as the nearest end. -/
def toInt? : Value → Option Int64
  | int i => some i
  | float x => if isWhole x then some x.toInt64 else none
  | bool b => some (if b then 1 else 0)
  | str s => Decimal.readInt64? (Text.trim s.toList)
  | _ => none

/-- The member of a map under a key, or of a list under a position; null if there is none. -/
def member (key : String) : Value → Value
  | map entries => (Keyed.get? key entries).getD null
  | list items => ((Decimal.readIndex? key.toList).bind (items[·]?)).getD null
  | _ => null

/-- The position in a list of the given length that a number names; a negative one counts from the end. -/
def position? (length : Nat) (i : Int64) : Option Nat :=
  let place := if i < 0 then i.toInt + length else i.toInt
  if place < 0 then none else some place.toNat

/-- The member of a list at the place that a number names, or of a map under the text of any value. -/
def index : (v key : Value) → Value
  | list items, key => ((key.toInt?.bind (position? items.length)).bind (items[·]?)).getD null
  | map entries, key => member key.text (map entries)
  | _, _ => null

mutual

/-- Equality of values of the same kind. Maps are equal whatever the order of their keys. -/
def equals : Value → Value → Bool
  | null, null => true
  | bool a, bool b => a == b
  | int a, int b => a == b
  | float a, float b => a == b
  | str a, str b => a == b
  | list a, list b => listEquals a b
  | map a, map b => a.length == b.length && entriesEqual a b
  | _, _ => false

def listEquals : List Value → List Value → Bool
  | [], [] => true
  | a :: as, b :: bs => equals a b && listEquals as bs
  | _, _ => false

/-- Whether every entry has an equal one under its key in the other table. -/
def entriesEqual : List (String × Value) → List (String × Value) → Bool
  | [], _ => true
  | (key, a) :: as, bs =>
    (match Keyed.get? key bs with
      | some b => equals a b
      | none => false) && entriesEqual as bs

end

end Value

end Stencil
