/-!
Whole numbers in decimal: reading a signed number of 64 bits, reading an index, and checked results of 64-bit
arithmetic.
-/
namespace Stencil.Decimal

def isDigit (c : Char) : Bool := '0' ≤ c && c ≤ '9'

/-- What a digit stands for; other characters count as zero. -/
def digitValue : Char → Nat
  | '1' => 1
  | '2' => 2
  | '3' => 3
  | '4' => 4
  | '5' => 5
  | '6' => 6
  | '7' => 7
  | '8' => 8
  | '9' => 9
  | _ => 0

/-- The number that decimal digits write, going on from `n`. -/
def valueFrom (n : Nat) : List Char → Nat
  | [] => n
  | c :: s => valueFrom (10 * n + digitValue c) s

/-- The same, going on from `n * scale + part`. The part takes `room` more digits before it is added, so that long
numbers take few long additions. -/
def valueInParts (n part scale : Nat) : (room : Nat) → List Char → Nat
  | _, [] => n * scale + part
  | room + 1, c :: s => valueInParts n (10 * part + digitValue c) (10 * scale) room s
  | 0, c :: s => valueInParts (n * scale + part) (digitValue c) 10 17 s

theorem valueInParts_eq_valueFrom (n part scale room : Nat) (digits : List Char) :
    valueInParts n part scale room digits = valueFrom (n * scale + part) digits := by
  induction digits generalizing n part scale room with
  | nil => simp only [valueInParts, valueFrom]
  | cons c s ih =>
    cases room with
    | zero => rw [valueInParts, valueFrom, ih, Nat.mul_comm]
    | succ room =>
      have h : n * (10 * scale) + (10 * part + digitValue c) = 10 * (n * scale + part) + digitValue c := by
        rw [Nat.mul_left_comm n 10 scale]
        omega
      rw [valueInParts, valueFrom, ih, h]

/-- The number that decimal digits write. -/
def value (digits : List Char) : Nat := valueInParts 0 0 1 18 digits

theorem value_eq_valueFrom (digits : List Char) : value digits = valueFrom 0 digits := by
  simp [value, valueInParts_eq_valueFrom]

/-- A number written by one or more decimal digits and nothing else. -/
def natural? (s : List Char) : Option Nat :=
  if s.isEmpty || !s.all isDigit then none else some (value s)

/-- A number with an optional sign. -/
def integer? : List Char → Option Int
  | '-' :: s => (natural? s).map fun n => -(n : Int)
  | '+' :: s => (natural? s).map Int.ofNat
  | s => (natural? s).map Int.ofNat

/-- The 64-bit number with this value, if there is one. -/
def int64? (i : Int) : Option Int64 :=
  if -0x8000000000000000 ≤ i ∧ i < 0x8000000000000000 then some (Int64.ofInt i) else none

/-- A signed number of 64 bits. -/
def readInt64? (s : List Char) : Option Int64 := (integer? s).bind int64?

/-- A position in a list: an optional plus sign, digits, and a value of at most 64 bits. -/
def readIndex? (s : List Char) : Option Nat :=
  let digits := match s with
    | '+' :: rest => rest
    | _ => s
  (natural? digits).filter (· < 0x10000000000000000)

theorem toInt_of_int64? {i : Int} {v : Int64} (h : int64? i = some v) : v.toInt = i := by
  simp only [int64?] at h
  split at h
  · rename_i hi
    cases h
    exact Int64.toInt_ofInt_of_le (by omega) (by omega)
  · simp at h

theorem int64?_toInt (v : Int64) : int64? v.toInt = some v := by
  have h₁ := Int64.le_toInt v
  have h₂ := Int64.toInt_lt v
  simp only [int64?]
  rw [if_pos (by omega)]
  simp

/-- The decimal digits of a 64-bit number, a minus in front of a negative one. -/
def ofInt64 (v : Int64) : List Char :=
  if v.toInt < 0 then '-' :: Nat.toDigits 10 v.toInt.natAbs else Nat.toDigits 10 v.toInt.natAbs

end Stencil.Decimal
