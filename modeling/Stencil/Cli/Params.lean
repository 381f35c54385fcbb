import Stencil.Json.Reader
import Stencil.Value.Datum

/-!
Parameters given as JSON on the command line. Members of objects come in the order of their keys, and of equal
keys the last counts. Whole numbers are kept as far as 64 bits go.

A number that is not whole is scaled in floating-point arithmetic: as many of its digits as fit into 64 bits,
then multiplied or divided by powers of ten of at most 308 at a time. A number that becomes infinite is refused.
-/
namespace Stencil.Cli

/-- The digits that fit into 64 bits, going on from `n`, and how many were left over. -/
def takeDigits (n : Nat) : List Char → Nat × Nat
  | [] => (n, 0)
  | c :: s =>
    let m := 10 * n + Decimal.digitValue c
    if m < 0x10000000000000000 then takeDigits m s else (n, s.length + 1)

/-- The digits that are scaled and the power of ten. Whole digits that do not fit count as places, fraction
digits that do not fit are left out. -/
def significand (n : Json.Number) : Nat × Int :=
  let fraction := n.fraction.getD []
  let (whole, dropped) := takeDigits 0 n.whole
  let (digits, leftOut) := takeDigits whole fraction
  (digits, n.exponent.getD 0 + dropped - (fraction.length - leftOut))

def powerOfTen (n : Nat) : Float := Decimal.nearest false (Nat.pow 10 n) 1

/-- Divides by powers of ten, 308 at a time, at most `count` times. -/
def scaleDown : (count : Nat) → Float → Nat → Float
  | 0, x, _ => x
  | count + 1, x, places =>
    if places ≤ 308 then x / powerOfTen places
    else if x == 0 then x
    else scaleDown count (x / powerOfTen 308) (places - 308)

/-- A floating-point number, if it is finite. -/
def scale? (digits : Nat) (exponent : Int) : Option Float :=
  let x := (UInt64.ofNat digits).toFloat
  if 0 ≤ exponent then
    if exponent ≤ 308 then
      let y := x * powerOfTen exponent.toNat
      if y.isInf then none else some y
    else if x == 0 then some x else none
  else some (scaleDown 5 x (-exponent).toNat)

def float? (n : Json.Number) : Option Float :=
  let (digits, exponent) := significand n
  (scale? digits exponent).map fun x => if n.negative then -x else x

/-- Whether a number can be held. -/
def accepts (n : Json.Number) : Bool := (float? n).isSome

def numberDatum (n : Json.Number) : Datum :=
  let asFloat := Datum.float64 ((float? n).getD 0)
  match n.toInt? with
  | none => asFloat
  | some i =>
    if n.negative then
      match Decimal.int64? i with
      | some v => if i = 0 then asFloat else .int64 v
      | none => asFloat
    else if i.toNat < 0x10000000000000000 then .uint64 (UInt64.ofNat i.toNat)
    else asFloat

/-- Puts a member where its key belongs, in place of one with the same key. -/
def insertMember (key : String) (d : Datum) : List (String × Datum) → List (String × Datum)
  | [] => [(key, d)]
  | (k, e) :: rest =>
    if key < k then (key, d) :: (k, e) :: rest
    else if key = k then (key, d) :: rest
    else (k, e) :: insertMember key d rest

mutual

def datum : Json → Datum
  | .null | .illFormed => .unit
  | .bool b => .bool b
  | .number n => numberDatum n
  | .str s => .str s
  | .arr items => .seq (data items)
  | .obj members => .map ((sorted [] members).map fun (key, d) => (.str key, d))

def data : List Json → List Datum
  | [] => []
  | item :: items => datum item :: data items

/-- Members in order of their keys, put among those that are there. -/
def sorted (there : List (String × Datum)) : List (String × Json) → List (String × Datum)
  | [] => there
  | (key, v) :: members => sorted (insertMember key (datum v) there) members

end

/-- Exponents have 32 bits, and texts are whole. -/
def rules : Json.Rules := ⟨accepts, some 0x7FFFFFFF, false⟩

/-- How deep lists and objects may be nested, plus one. -/
def depthLimit : Nat := 128

/-- The parameters of a text, or what is wrong with it. -/
def parseParams (s : String) : Except String Datum :=
  match Json.readAll rules depthLimit s.toList with
  | .ok v => .ok (datum v)
  | .error fault => .error (fault.message s)

/-- The parameters of a call that gives none. -/
def defaultParams : Datum :=
  .map [(.str "items", .seq [.str "one", .str "two"]), (.str "title", .str "tagforge")]

end Stencil.Cli
