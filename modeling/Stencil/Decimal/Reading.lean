import Stencil.Decimal.Binary64
import Stencil.Decimal.Integer

/-!
Reading floating-point numbers from decimal text: an optional sign, digits with at most one point, an optional
exponent; or the words for infinity and for what is no number, in any case.
-/
namespace Stencil.Decimal

/-- A power of ten that a number other than zero reaches: the logarithm of two is a little more than 0.30102. -/
def placesBelow (n : Nat) : Nat := Nat.log2 n * 30102 / 100000

/-- A power of ten that a number does not reach: the logarithm of two is a little less than 0.30103. -/
def placesAbove (n : Nat) : Nat := (Nat.log2 n + 1) * 30103 / 100000 + 1

/-- The floating-point number nearest to `digits * 10 ^ exponent`. From `10 ^ 310` on all is infinite, and below
`10 ^ -330` all is zero. -/
def nearestDecimal (negative : Bool) (digits : Nat) (exponent : Int) : Float :=
  if digits = 0 then floatOfBits negative 0
  else if 310 ≤ placesBelow digits + exponent then floatOfBits negative infinityBits
  else if placesAbove digits + exponent ≤ -330 then floatOfBits negative 0
  else nearest negative (digits * Nat.pow 10 exponent.toNat) (Nat.pow 10 (-exponent).toNat)

/-- The digits in front of the text and what follows them. -/
def spanDigits (s : List Char) : List Char × List Char := s.span isDigit

/-- The exponent at the end of a number: nothing, or `e` with an optional sign and digits. -/
def exponentEnd? : List Char → Option Int
  | [] => some 0
  | c :: '-' :: s => if c = 'e' ∨ c = 'E' then (natural? s).map fun n => -(n : Int) else none
  | c :: '+' :: s => if c = 'e' ∨ c = 'E' then (natural? s).map Int.ofNat else none
  | c :: s => if c = 'e' ∨ c = 'E' then (natural? s).map Int.ofNat else none

/-- A number without sign. -/
def decimal? (negative : Bool) (s : List Char) : Option Float :=
  let (whole, rest) := spanDigits s
  let (fraction, rest) := match rest with
    | '.' :: rest => spanDigits rest
    | _ => ([], rest)
  if whole.isEmpty && fraction.isEmpty then none
  else (exponentEnd? rest).map fun exponent =>
    nearestDecimal negative (value (whole ++ fraction)) (exponent - fraction.length)

/-- The words that stand for no finite number. -/
def word? (negative : Bool) (s : List Char) : Option Float :=
  let small := s.map Char.toLower
  if small = ['n', 'a', 'n'] then some notANumber
  else if small = ['i', 'n', 'f'] ∨ small = ['i', 'n', 'f', 'i', 'n', 'i', 't', 'y'] then
    some (floatOfBits negative infinityBits)
  else none

def readFloat? (s : List Char) : Option Float :=
  let (negative, rest) := match s with
    | '-' :: rest => (true, rest)
    | '+' :: rest => (false, rest)
    | _ => (false, s)
  match decimal? negative rest with
  | some x => some x
  | none => word? negative rest

end Stencil.Decimal
