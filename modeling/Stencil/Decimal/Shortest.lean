import Stencil.Decimal.Binary64

/-!
The fewest decimal digits that read back as a given floating-point number, and of those the nearest to it; an
exact tie goes up.
-/
namespace Stencil.Decimal

/-- The numbers that round to a finite positive floating-point number, and the number itself, all over one
denominator: `low`, `exact` and `high` stand for `low / den` and so on. The ends belong to it if `closed`. -/
structure Interval where
  low : Nat
  exact : Nat
  high : Nat
  den : Nat
  closed : Bool

/-- The numbers nearer to `mantissa * 2 ^ exponent` than to its neighbours. Below a power of two the neighbour
is half as far away. -/
def Interval.around (mantissa : Nat) (exponent : Int) : Interval :=
  let scale := Nat.pow 2 exponent.toNat
  let narrow := mantissa = 0x10000000000000 ∧ -1074 < exponent
  { low := (4 * mantissa - if narrow then 1 else 2) * scale
    exact := 4 * mantissa * scale
    high := (4 * mantissa + 2) * scale
    den := 4 * Nat.pow 2 (-exponent).toNat
    closed := mantissa % 2 = 0 }

/-- Whether `n * 10 ^ place` rounds to the number. -/
def Interval.contains (i : Interval) (n : Nat) (place : Int) : Bool :=
  let here := n * Nat.pow 10 place.toNat * i.den
  let unit := Nat.pow 10 (-place).toNat
  if i.closed then i.low * unit ≤ here && here ≤ i.high * unit
  else i.low * unit < here && here < i.high * unit

/-- The multiples of `10 ^ place` next to the number, from below and from above, and which of them is nearer. -/
def Interval.onGrid? (i : Interval) (place : Int) : Option Nat :=
  let num := i.exact * Nat.pow 10 (-place).toNat
  let unit := i.den * Nat.pow 10 place.toNat
  let below := num / unit
  let above := below + 1
  let upNearer := unit ≤ 2 * (num % unit)
  let lower := i.contains below place
  let upper := i.contains above place
  if upper && (upNearer || !lower) then some above
  else if lower then some below
  else none

/-- The decimal order of magnitude: `10 ^ (k - 1) ≤ number < 10 ^ k`, found by going up from a bound below. -/
def magnitudeFrom (num den : Nat) : Nat → Int → Int
  | 0, k => k
  | n + 1, k =>
    if den * Nat.pow 10 k.toNat ≤ num * Nat.pow 10 (-k).toNat then magnitudeFrom num den n (k + 1) else k

/-- Tries one digit, then two, and so on; `count` tries are left. -/
def shortestFrom (i : Interval) : Nat → Int → Nat × Int
  | 0, place => (i.exact / i.den, place)
  | count + 1, place =>
    match i.onGrid? place with
    | some n => (n, place)
    | none => shortestFrom i count (place - 1)

/-- Digits and the power of ten of the last one, without trailing zeros. -/
def dropZeros : Nat → Nat → Int → Nat × Int
  | 0, digits, place => (digits, place)
  | count + 1, digits, place =>
    if digits % 10 = 0 then dropZeros count (digits / 10) (place + 1) else (digits, place)

/-- The shortest decimal `(digits, place)`, which is `digits * 10 ^ place`, of a positive number. -/
def shortest (mantissa : Nat) (exponent : Int) : Nat × Int :=
  let i := Interval.around mantissa exponent
  let guess : Int := ((Nat.log2 mantissa : Int) + exponent) * 30103 / 100000 - 1
  let magnitude := magnitudeFrom i.exact i.den 4 guess
  let (digits, place) := shortestFrom i 17 (magnitude - 1)
  dropZeros 20 digits place

end Stencil.Decimal
