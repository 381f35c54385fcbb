import Stencil.Decimal.Integer
import Stencil.Keyed

/-!
JSON values. Objects keep the order of their members, and numbers are kept as they were written.

An escape can write one half of a character beyond the basic plane. A text in which a half stands alone is no
text, but a reader that only passes over it need not mind.
-/
namespace Stencil

namespace Json

/-- A number as written: a sign, digits, and the parts that a whole number does not have. -/
structure Number where
  negative : Bool
  whole : List Char
  fraction : Option (List Char)
  exponent : Option Int

def Number.ofInt (i : Int) : Number := ⟨i < 0, Nat.toDigits 10 i.natAbs, none, none⟩

/-- The value of a number written without fraction and exponent. -/
def Number.toInt? (n : Number) : Option Int :=
  match n.fraction, n.exponent with
  | none, none =>
    let magnitude : Int := Decimal.value n.whole
    some (if n.negative then -magnitude else magnitude)
  | _, _ => none

/-- All digits as one whole number, and the power of ten that it is to be multiplied by. -/
def Number.scaled (n : Number) : Nat × Int :=
  let fraction := n.fraction.getD []
  (Decimal.value (n.whole ++ fraction), n.exponent.getD 0 - fraction.length)

end Json

inductive Json where
  | null
  | bool (b : Bool)
  | number (n : Json.Number)
  | str (s : String)
  | arr (items : List Json)
  | obj (members : List (String × Json))
  /-- A text, or an object with a key, in which half of a character stands alone. -/
  | illFormed

instance : Inhabited Json := ⟨.null⟩

end Stencil
