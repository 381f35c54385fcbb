import Stencil.Json.Basic

/-!
JSON text over several lines, two blanks further in at every level.
-/
namespace Stencil.Json

def hexDigit (n : Nat) : Char := if n < 10 then Char.ofNat (48 + n) else Char.ofNat (87 + n)

/-- A character inside a text. Controls are escaped, all else stands as it is. -/
def escapedChar (c : Char) : List Char :=
  match c with
  | '"' => ['\\', '"']
  | '\\' => ['\\', '\\']
  | '\n' => ['\\', 'n']
  | '\r' => ['\\', 'r']
  | '\t' => ['\\', 't']
  | '\x08' => ['\\', 'b']
  | '\x0c' => ['\\', 'f']
  | c =>
    if c.toNat < 0x20 then ['\\', 'u', '0', '0', hexDigit (c.toNat / 16), hexDigit (c.toNat % 16)]
    else [c]

def writeText (s : String) : List Char := '"' :: s.toList.flatMap escapedChar ++ ['"']

def writeNumber (n : Number) : List Char :=
  let sign := if n.negative then ['-'] else []
  let fraction := match n.fraction with
    | some digits => '.' :: digits
    | none => []
  let exponent := match n.exponent with
    | some e => 'e' :: (toString e).toList
    | none => []
  sign ++ n.whole ++ fraction ++ exponent

/-- Half of a character, alone. -/
def loneHalf : List Char := "\"\\ud800\"".toList

def newLine (depth : Nat) : List Char := '\n' :: List.replicate (2 * depth) ' '

mutual

def pretty (depth : Nat) : Json → List Char
  | .null => "null".toList
  | .bool b => (if b then "true" else "false").toList
  | .number n => writeNumber n
  | .str s => writeText s
  | .illFormed => loneHalf
  | .arr [] => ['[', ']']
  | .arr (item :: items) =>
    '[' :: newLine (depth + 1) ++ pretty (depth + 1) item ++ prettyItems depth items
  | .obj [] => ['\x7b', '\x7d']
  | .obj ((key, v) :: members) =>
    '\x7b' :: newLine (depth + 1) ++ writeText key ++ [':', ' '] ++ pretty (depth + 1) v ++
      prettyMembers depth members

/-- The items after the first, and the end of the list. -/
def prettyItems (depth : Nat) : List Json → List Char
  | [] => newLine depth ++ [']']
  | item :: items => ',' :: newLine (depth + 1) ++ pretty (depth + 1) item ++ prettyItems depth items

/-- The members after the first, and the end of the object. -/
def prettyMembers (depth : Nat) : List (String × Json) → List Char
  | [] => newLine depth ++ ['\x7d']
  | (key, v) :: members =>
    ',' :: newLine (depth + 1) ++ writeText key ++ [':', ' '] ++ pretty (depth + 1) v ++
      prettyMembers depth members

end

def write (v : Json) : String := String.ofList (pretty 0 v)

end Stencil.Json
