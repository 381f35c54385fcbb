import Stencil.Json.Basic

/-!
Reading JSON text. A failure tells its cause and the line and column, counted in bytes, where it was noticed,
which may be inside a character. Lists and objects may be nested up to a limit, and the reader may refuse what
its user cannot hold: numbers that are too large, and halves of characters. A `bound` is a text that stands for
its length.
-/
namespace Stencil.Json

inductive Cause where
  | eofInValue | eofInList | eofInObject | eofInString
  | expectedColon | expectedListEnd | expectedObjectEnd | expectedIdent | expectedValue
  | invalidEscape | invalidNumber | numberOutOfRange | controlCharacter | keyNotString
  | loneSurrogate | unexpectedEscapeEnd | trailingComma | trailingCharacters | nestedTooDeep
  deriving DecidableEq

def Cause.message : Cause → String
  | eofInValue => "EOF while parsing a value"
  | eofInList => "EOF while parsing a list"
  | eofInObject => "EOF while parsing an object"
  | eofInString => "EOF while parsing a string"
  | expectedColon => "expected `:`"
  | expectedListEnd => "expected `,` or `]`"
  | expectedObjectEnd => "expected `,` or `\x7d`"
  | expectedIdent => "expected ident"
  | expectedValue => "expected value"
  | invalidEscape => "invalid escape"
  | invalidNumber => "invalid number"
  | numberOutOfRange => "number out of range"
  | controlCharacter => "control character (\\u0000-\\u001F) found while parsing a string"
  | keyNotString => "key must be a string"
  | loneSurrogate => "lone leading surrogate in hex escape"
  | unexpectedEscapeEnd => "unexpected end of hex escape"
  | trailingComma => "trailing comma"
  | trailingCharacters => "trailing characters"
  | nestedTooDeep => "recursion limit exceeded"

/-- How many bytes a text takes. -/
def byteCount (s : List Char) : Nat := s.foldl (fun n c => n + c.utf8Size) 0

/-- A failure, and how many bytes of the text had not been looked at when it was noticed. -/
structure Fault where
  cause : Cause
  unread : Nat

abbrev Reader (α : Type) := List Char → Except Fault (α × List Char)

/-- A failure after `bytes` more bytes of what is left, or at its end if it is shorter. -/
def failAfter {α : Type} (bytes : Nat) (cause : Cause) (rest : List Char) : Except Fault α :=
  .error ⟨cause, byteCount rest - bytes⟩

/-- A failure right after what has been read. -/
def failAt {α : Type} (cause : Cause) (rest : List Char) : Except Fault α := failAfter 0 cause rest

/-- A failure about the next byte, which counts as looked at. -/
def failOn {α : Type} (cause : Cause) (rest : List Char) : Except Fault α := failAfter 1 cause rest

/-- What a reader lets pass. -/
structure Rules where
  /-- Whether a number can be held. -/
  accepts : Number → Bool
  /-- An exponent above this is refused as soon as it has become too large, unless all digits before it are
  zeros. -/
  largestExponent : Option Nat
  /-- Whether half of a character may stand alone. -/
  loneHalves : Bool

/-- Lets everything pass. -/
def Rules.free : Rules := ⟨fun _ => true, none, true⟩

def isSpace (c : Char) : Bool := c == ' ' || c == '\n' || c == '\t' || c == '\r'

def skipSpace (s : List Char) : List Char := s.dropWhile isSpace

/-- The rest of a word of which the first letter has been read. -/
def readWord (v : Json) : (word : List Char) → Reader Json
  | [], s => .ok (v, s)
  | _ :: _, [] => failAt .eofInValue []
  | w :: word, c :: s => if w = c then readWord v word s else failOn .expectedIdent (c :: s)

def hexValue? (c : Char) : Option Nat :=
  if '0' ≤ c ∧ c ≤ '9' then some (c.toNat - '0'.toNat)
  else if 'a' ≤ c ∧ c ≤ 'f' then some (c.toNat - 'a'.toNat + 10)
  else if 'A' ≤ c ∧ c ≤ 'F' then some (c.toNat - 'A'.toNat + 10)
  else none

/-- Four hexadecimal digits. What stands in their place is looked at as four bytes. -/
def readHex : Reader Nat := fun s =>
  if byteCount (s.take 4) < 4 then failAt .eofInString []
  else match s with
    | a :: b :: c :: d :: rest =>
      match hexValue? a, hexValue? b, hexValue? c, hexValue? d with
      | some a, some b, some c, some d => .ok (((a * 16 + b) * 16 + c) * 16 + d, rest)
      | _, _, _, _ => failAfter 4 .invalidEscape s
    | _ => failAfter 4 .invalidEscape s

/-- The second half of a character beyond the basic plane, of which the first half is `high`. -/
def readSecondHalf (high : Nat) : Reader Char
  | [] => failAt .eofInString []
  | ['\\'] => failAt .eofInString []
  | '\\' :: 'u' :: s => do
    let (low, s) ← readHex s
    if low < 0xDC00 ∨ 0xDFFF < low then failAt .loneSurrogate s
    else .ok (Char.ofNat ((high - 0xD800) * 0x400 + (low - 0xDC00) + 0x10000), s)
  | '\\' :: s => failOn .unexpectedEscapeEnd s
  | s => failOn .unexpectedEscapeEnd s

/-- The character that an escape by number writes; none for a half that stands alone. -/
def readUnicode (rules : Rules) : Reader (Option Char) := fun s => do
  let (n, s) ← readHex s
  if 0xDC00 ≤ n ∧ n ≤ 0xDFFF then
    if rules.loneHalves then .ok (none, s) else failAt .loneSurrogate s
  else if 0xD800 ≤ n ∧ n ≤ 0xDBFF then
    match readSecondHalf n s with
    | .ok (c, s) => .ok (some c, s)
    | .error e => if rules.loneHalves then .ok (none, s) else .error e
  else .ok (some (Char.ofNat n), s)

/-- What stands behind a backslash. -/
def readEscape (rules : Rules) : Reader (Option Char)
  | [] => failAt .eofInString []
  | 'u' :: s => readUnicode rules s
  | c :: s =>
    match c with
    | '"' | '\\' | '/' => .ok (some c, s)
    | 'b' => .ok (some '\x08', s)
    | 'f' => .ok (some '\x0c', s)
    | 'n' => .ok (some '\n', s)
    | 'r' => .ok (some '\r', s)
    | 't' => .ok (some '\t', s)
    | _ => failOn .invalidEscape (c :: s)

/-- The characters up to the closing quote, none for a half that stands alone. Each step reads at least one
character. -/
def readChars (rules : Rules) : (bound : List Char) → Reader (List (Option Char))
  | [], s => failAt .eofInString s
  | _ :: _, [] => failAt .eofInString []
  | _ :: _, '"' :: s => .ok ([], s)
  | _ :: bound, '\\' :: s => do
    let (c, s) ← readEscape rules s
    let (more, s) ← readChars rules bound s
    .ok (c :: more, s)
  | _ :: bound, c :: s =>
    if c.toNat < 0x20 then failAt .controlCharacter s
    else do
      let (more, s) ← readChars rules bound s
      .ok (some c :: more, s)

/-- The text of these characters, if no half stands alone. -/
def wholeText? (chars : List (Option Char)) : Option String :=
  if chars.all (·.isSome) then some (String.ofList (chars.filterMap id)) else none

/-- A text of which the opening quote has been read. -/
def readText (rules : Rules) : Reader (Option String) := fun s => do
  let (chars, s) ← readChars rules s s
  .ok (wholeText? chars, s)

def readFraction : Reader (Option (List Char)) := fun s =>
  match s with
  | '.' :: s =>
    match s.span Decimal.isDigit with
    | ([], []) => failOn .eofInValue []
    | ([], s) => failOn .invalidNumber s
    | (digits, s) => .ok (some digits, s)
  | _ => .ok (none, s)

/-- The digits left when those before them, going on from `n`, have passed a limit. -/
def pastLimit? (limit : Nat) (n : Nat) : List Char → Option (List Char)
  | [] => none
  | c :: s =>
    let m := 10 * n + Decimal.digitValue c
    if limit < m then some s else pastLimit? limit m s

/-- The digits of an exponent, which may have a limit. -/
def readExponentDigits (limit : Option Nat) : Reader Nat := fun s =>
  match s.span Decimal.isDigit with
  | ([], []) => failAt .eofInValue []
  | ([], s) => failOn .invalidNumber s
  | (digits, s) =>
    match limit.bind fun limit => pastLimit? limit 0 digits with
    | some left => failAt .numberOutOfRange (left ++ s)
    | none => .ok (Decimal.value digits, s)

def readExponent (limit : Option Nat) : Reader (Option Int) := fun s =>
  match s with
  | e :: s' =>
    if e = 'e' ∨ e = 'E' then
      match s' with
      | '-' :: s' => (readExponentDigits none s').map fun (n, s) => (some (-(n : Int)), s)
      | '+' :: s' => (readExponentDigits limit s').map fun (n, s) => (some (n : Int), s)
      | _ => (readExponentDigits limit s').map fun (n, s) => (some (n : Int), s)
    else .ok (none, s)
  | [] => .ok (none, s)

/-- The digits in front of the point: one zero, or digits that do not start with it. -/
def readWhole : Reader (List Char) := fun s =>
  match s with
  | [] => failAt .eofInValue []
  | '0' :: d :: s =>
    if Decimal.isDigit d then failOn .invalidNumber (d :: s) else .ok (['0'], d :: s)
  | ['0'] => .ok (['0'], [])
  | d :: _ => if Decimal.isDigit d then .ok (s.span Decimal.isDigit) else failOn .invalidNumber s

def readNumber (rules : Rules) (negative : Bool) : Reader Json := fun s => do
  let (whole, s) ← readWhole s
  let (fraction, s) ← readFraction s
  let isZero := (whole ++ fraction.getD []).all (· == '0')
  let (exponent, s) ← readExponent (if isZero then none else rules.largestExponent) s
  let n : Number := ⟨negative, whole, fraction, exponent⟩
  if rules.accepts n then .ok (.number n, s) else failAt .numberOutOfRange s

/-- The items of a list; `first` tells that none has been read. -/
def readItems (inner : Reader Json) : (bound : List Char) → (first : Bool) → Reader (List Json)
  | [], _, s => failOn .eofInList s
  | _ :: bound, first, s =>
    match skipSpace s with
    | [] => failOn .eofInList []
    | ']' :: s => .ok ([], s)
    | c :: s =>
      if first then do
        let (item, s) ← inner (c :: s)
        let (more, s) ← readItems inner bound false s
        .ok (item :: more, s)
      else if c = ',' then
        match skipSpace s with
        | [] => failOn .eofInValue []
        | ']' :: s => failOn .trailingComma (']' :: s)
        | s => do
          let (item, s) ← inner s
          let (more, s) ← readItems inner bound false s
          .ok (item :: more, s)
      else failOn .expectedListEnd (c :: s)

/-- A member, of which the opening quote of the key has been read. -/
def readMember (rules : Rules) (inner : Reader Json) : Reader (Option String × Json) := fun s => do
  let (key, s) ← readText rules s
  match skipSpace s with
  | [] => failOn .eofInObject []
  | ':' :: s => do
    let (v, s) ← inner s
    .ok ((key, v), s)
  | s => failOn .expectedColon s

def readMembers (rules : Rules) (inner : Reader Json) :
    (bound : List Char) → (first : Bool) → Reader (List (Option String × Json))
  | [], _, s => failOn .eofInObject s
  | _ :: bound, first, s =>
    match skipSpace s with
    | [] => failOn .eofInObject []
    | '\x7d' :: s => .ok ([], s)
    | c :: s =>
      if first then
        if c = '"' then do
          let (member, s) ← readMember rules inner s
          let (more, s) ← readMembers rules inner bound false s
          .ok (member :: more, s)
        else failOn .keyNotString (c :: s)
      else if c = ',' then
        match skipSpace s with
        | [] => failOn .eofInValue []
        | '"' :: s => do
          let (member, s) ← readMember rules inner s
          let (more, s) ← readMembers rules inner bound false s
          .ok (member :: more, s)
        | '\x7d' :: s => failOn .trailingComma ('\x7d' :: s)
        | s => failOn .keyNotString s
      else failOn .expectedObjectEnd (c :: s)

/-- The object of these members, if every key is a text. -/
def ofMembers (members : List (Option String × Json)) : Json :=
  if members.all (·.1.isSome) then .obj (members.filterMap fun (key, v) => key.map (·, v)) else .illFormed

/-- The text, if it is one. -/
def ofText : Option String → Json
  | some s => .str s
  | none => .illFormed

/-- A value with lists and objects nested less than `depth` deep. -/
def readValue (rules : Rules) : (depth : Nat) → Reader Json
  | depth, s =>
    match skipSpace s with
    | [] => failOn .eofInValue []
    | c :: s =>
      match c with
      | 'n' => readWord .null ['u', 'l', 'l'] s
      | 't' => readWord (.bool true) ['r', 'u', 'e'] s
      | 'f' => readWord (.bool false) ['a', 'l', 's', 'e'] s
      | '"' => (readText rules s).map fun (text, s) => (ofText text, s)
      | '-' => readNumber rules true s
      | '[' =>
        match depth with
        | depth + 2 =>
          (readItems (readValue rules (depth + 1)) s true s).map fun (items, s) =>
            (.arr items, s)
        | _ => failOn .nestedTooDeep ('[' :: s)
      | '\x7b' =>
        match depth with
        | depth + 2 =>
          (readMembers rules (readValue rules (depth + 1)) s true s).map fun (members, s) =>
            (ofMembers members, s)
        | _ => failOn .nestedTooDeep ('\x7b' :: s)
      | c => if Decimal.isDigit c then readNumber rules false (c :: s) else failOn .expectedValue (c :: s)

/-- A text that is one value, with nothing but space around it. -/
def readAll (rules : Rules) (depth : Nat) (s : List Char) : Except Fault Json := do
  let (v, s) ← readValue rules depth s
  match skipSpace s with
  | [] => .ok v
  | s => failOn .trailingCharacters s

/-- What a fault says about the text in which it was found. Lines are counted from one, and columns in bytes from
the start of the line. -/
def Fault.message (text : String) (fault : Fault) : String :=
  let before := text.toUTF8.toList.take (text.utf8ByteSize - fault.unread)
  let line := before.count 10 + 1
  let column := (before.reverse.takeWhile (· ≠ 10)).length
  fault.cause.message ++ " at line " ++ toString line ++ " column " ++ toString column

/-- Reads without any limit. -/
def parse? (s : String) : Option Json :=
  match readAll Rules.free (s.length + 2) s.toList with
  | .ok v => some v
  | .error _ => none

end Stencil.Json
