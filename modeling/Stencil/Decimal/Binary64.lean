/-!
Binary floating-point numbers of 64 bits as exact numbers: a sign and a whole number times a power of two. The
nearest such number to a fraction, ties to the even neighbour, and the exact remainder of a division.
-/
namespace Stencil.Decimal

/-- What a 64-bit floating-point number stands for; a finite one is `mantissa * 2 ^ exponent` with a sign. -/
inductive Binary where
  | notANumber
  | infinite (negative : Bool)
  | finite (negative : Bool) (mantissa : Nat) (exponent : Int)
  deriving DecidableEq

def Binary.ofFloat (x : Float) : Binary :=
  let bits : Nat := x.toBits.toNat
  let negative : Bool := 0x8000000000000000 ≤ bits
  let biased : Nat := bits / 0x10000000000000 % 2048
  let fraction : Nat := bits % 0x10000000000000
  if biased = 2047 then
    if fraction = 0 then .infinite negative else .notANumber
  else if biased = 0 then .finite negative fraction (-1074)
  else .finite negative (fraction + 0x10000000000000) ((biased : Int) - 1075)

def infinityBits : Nat := 2047 * 0x10000000000000

/-- The quotient rounded to the nearest whole number, a half to the even one. -/
def roundHalfEven (num den : Nat) : Nat :=
  let quotient := num / den
  let twice := 2 * (num % den)
  if twice < den then quotient
  else if den < twice then quotient + 1
  else quotient + quotient % 2

/-- The bits of the non-negative floating-point number nearest to `num / den`. -/
def nearestBits (num den : Nat) : Nat :=
  if num = 0 then 0
  else
    let guess : Int := (Nat.log2 num : Int) - (Nat.log2 den : Int) - 52
    let atLeast (q : Int) : Bool :=
      den * Nat.pow 2 (52 + q).toNat ≤ num * Nat.pow 2 (-(52 + q)).toNat
    let q := max (if atLeast guess then guess else guess - 1) (-1074)
    let mantissa := roundHalfEven (num * Nat.pow 2 (-q).toNat) (den * Nat.pow 2 q.toNat)
    min (mantissa + (q + 1074).toNat * 0x10000000000000) infinityBits

def floatOfBits (negative : Bool) (bits : Nat) : Float :=
  Float.ofBits (UInt64.ofNat (if negative then bits + 0x8000000000000000 else bits))

/-- The floating-point number nearest to `num / den`, with a sign. -/
def nearest (negative : Bool) (num den : Nat) : Float :=
  floatOfBits negative (nearestBits num den)

/-- The floating-point number nearest to a whole number. -/
def nearestWhole (i : Int64) : Float :=
  nearest (i < 0) i.toInt.natAbs 1

def notANumber : Float := Float.ofBits 0x7FF8000000000000

/-- What is left of `x` after taking off `y` as often as it fits, with the sign of `x`. -/
def remainder (x y : Float) : Float :=
  match Binary.ofFloat x, Binary.ofFloat y with
  | .finite negative m q, .finite _ n r =>
    if n = 0 then notANumber
    else
      let low := min q r
      let left := m * Nat.pow 2 (q - low).toNat % (n * Nat.pow 2 (r - low).toNat)
      nearest negative (left * Nat.pow 2 low.toNat) (Nat.pow 2 (-low).toNat)
  | .finite .., .infinite _ => x
  | _, _ => notANumber

end Stencil.Decimal
