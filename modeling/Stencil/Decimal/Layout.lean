import Stencil.Decimal.Shortest

/-!
Floating-point numbers as text, from their shortest digits. Two formats are in use: `plain`, which never has an
exponent and drops an empty fraction, and `marked`, which keeps `.0` so that it cannot be taken for a whole
number, and goes over to an exponent for very large and very small numbers.
-/
namespace Stencil.Decimal

structure Layout where
  /-- What is added to a whole number. -/
  wholeSuffix : List Char
  /-- The least decimal order of magnitude that is written without an exponent, if there is one. -/
  leastOrder : Option Int
  /-- The first order of magnitude from which an exponent is written, if there is one. -/
  firstExponentOrder : Option Int

def plain : Layout := ⟨[], none, none⟩

def marked : Layout := ⟨['.', '0'], some (-4), some 16⟩

def zeros (n : Nat) : List Char := List.replicate n '0'

/-- Digits with the point where it belongs; `point` counts the digits in front of it. -/
def Layout.positional (layout : Layout) (digits : List Char) (point : Int) : List Char :=
  if point ≤ 0 then '0' :: '.' :: zeros (-point).toNat ++ digits
  else if point < digits.length then digits.take point.toNat ++ '.' :: digits.drop point.toNat
  else digits ++ zeros (point.toNat - digits.length) ++ layout.wholeSuffix

/-- One digit, the others behind a point, and the exponent. -/
def scientific (digits : List Char) (order : Int) : List Char :=
  let front := match digits with
    | [] => []
    | [d] => [d]
    | d :: more => d :: '.' :: more
  front ++ 'e' :: (toString order).toList

def Layout.magnitude (layout : Layout) (mantissa : Nat) (exponent : Int) : List Char :=
  if mantissa = 0 then '0' :: layout.wholeSuffix
  else
    let (n, place) := shortest mantissa exponent
    let digits := Nat.toDigits 10 n
    let order := digits.length + place - 1
    let large := layout.firstExponentOrder.any (· ≤ order)
    let small := layout.leastOrder.any (order < ·)
    if large || small then scientific digits order else layout.positional digits (order + 1)

def Layout.write (layout : Layout) (x : Float) : List Char :=
  match Binary.ofFloat x with
  | .notANumber => ['N', 'a', 'N']
  | .infinite negative => if negative then ['-', 'i', 'n', 'f'] else ['i', 'n', 'f']
  | .finite negative mantissa exponent =>
    let text := layout.magnitude mantissa exponent
    if negative then '-' :: text else text

end Stencil.Decimal
