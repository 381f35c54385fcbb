import Stencil.Artifact.SyntaxError
import Stencil.Decimal.Reading
import Stencil.Text.Blank
import Stencil.Text.Search

/-!
From artifact text to tokens. Text runs up to a fragment opener; inside a fragment blanks separate tokens, and
the first closer that is not part of a quoted text ends it.
-/
namespace Stencil.Artifact

def isLetter (c : Char) : Bool := c.isAlpha || c == '_'

def isWordChar (c : Char) : Bool := c.isAlphanum || c == '_'

/-- The identifier at the front, which may be empty, and the rest. -/
def spanIdentifier : List Char → List Char × List Char
  | [] => ([], [])
  | c :: s => if isLetter c then (c :: s).span isWordChar else ([], c :: s)

/-- The number at the front of a text that starts with a digit. A point counts only before a digit. -/
def scanNumber (s : List Char) : Except SyntaxError (Token × List Char) :=
  let (whole, rest) := Decimal.spanDigits s
  let integer : Except SyntaxError (Token × List Char) :=
    match Decimal.int64? (Decimal.value whole) with
    | some i => .ok (.int i, rest)
    | none => .error (.numberTooLarge (String.ofList whole))
  match rest with
  | '.' :: d :: more =>
    if Decimal.isDigit d then
      let (fraction, rest) := Decimal.spanDigits (d :: more)
      let digits := Decimal.value (whole ++ fraction)
      .ok (.float (Decimal.nearestDecimal false digits (-(fraction.length : Int))), rest)
    else integer
  | _ => integer

/-- What a character means behind a backslash. -/
def unescaped (c : Char) : Char :=
  match c with
  | 'n' => '\n'
  | 't' => '\t'
  | c => c

/-- The text up to the closing quote, and what follows it. -/
def scanString (quote : Char) : List Char → Option (List Char × List Char)
  | [] => none
  | '\\' :: [] => none
  | '\\' :: c :: s => (scanString quote s).map fun (text, rest) => (unescaped c :: text, rest)
  | c :: s =>
    if c = quote then some ([], s)
    else (scanString quote s).map fun (text, rest) => (c :: text, rest)

/-- The longest punctuation at the front. -/
def scanPunct : List Char → Option (Punct × List Char)
  | '<' :: '=' :: s => some (.lessEqual, s)
  | '>' :: '=' :: s => some (.greaterEqual, s)
  | '=' :: '=' :: s => some (.equal, s)
  | '!' :: '=' :: s => some (.notEqual, s)
  | '&' :: '&' :: s => some (.andAnd, s)
  | '|' :: '|' :: s => some (.orOr, s)
  | '=' :: '>' :: s => some (.arrow, s)
  | '+' :: '=' :: s => some (.plusAssign, s)
  | '-' :: '=' :: s => some (.minusAssign, s)
  | '<' :: s => some (.less, s)
  | '>' :: s => some (.greater, s)
  | '=' :: s => some (.assign, s)
  | '+' :: s => some (.plus, s)
  | '-' :: s => some (.minus, s)
  | '*' :: s => some (.star, s)
  | '/' :: s => some (.slash, s)
  | '%' :: s => some (.percent, s)
  | '~' :: s => some (.tilde, s)
  | '!' :: s => some (.bang, s)
  | '.' :: s => some (.dot, s)
  | ',' :: s => some (.comma, s)
  | '(' :: s => some (.openParen, s)
  | ')' :: s => some (.closeParen, s)
  | '[' :: s => some (.openBracket, s)
  | ']' :: s => some (.closeBracket, s)
  | '\x7b' :: s => some (.openBrace, s)
  | '\x7d' :: s => some (.closeBrace, s)
  | ';' :: s => some (.semicolon, s)
  | _ => none

/-- The token at the front of a text that starts with `c`, no blank. -/
def scanToken (c : Char) (s : List Char) : Except SyntaxError (Token × List Char) :=
  if c = '$' then
    match spanIdentifier s with
    | ([], _) => .error .missingVariableName
    | (name, rest) => .ok (.var (String.ofList name), rest)
  else if isLetter c then
    let (name, rest) := spanIdentifier (c :: s)
    .ok (.ident (String.ofList name), rest)
  else if Decimal.isDigit c then scanNumber (c :: s)
  else if c = '\'' ∨ c = '"' then
    match scanString c s with
    | some (text, rest) => .ok (.str (String.ofList text), rest)
    | none => .error .unterminatedString
  else
    match scanPunct (c :: s) with
    | some (p, rest) => .ok (.punct p, rest)
    | none => .error (.unexpectedCharacter c)

/-- The tokens of a fragment up to and including its end, and what follows it. Every token takes at least one
character, so `count` need not exceed the length by more than one. -/
def scanFragmentFrom : (count : Nat) → List Char → Except SyntaxError (List Token × List Char)
  | 0, _ => .error .unterminatedFragment
  | count + 1, s =>
    match Text.trimStart s with
    | [] => .error .unterminatedFragment
    | '?' :: '>' :: rest => .ok ([.fragmentEnd], rest)
    | c :: rest =>
      match scanToken c rest with
      | .error e => .error e
      | .ok (token, rest) =>
        (scanFragmentFrom count rest).map fun (tokens, rest) => (token :: tokens, rest)

/-- The tokens of the fragment at the front of a text. -/
def scanFragment (s : List Char) : Except SyntaxError (List Token × List Char) :=
  scanFragmentFrom (s.length + 1) s

def fragmentOpener : List Char := ['<', '?']

def textToken (s : List Char) : List Token :=
  if s.isEmpty then [] else [.text (String.ofList s)]

/-- The tokens of an artifact of at most `count` characters. -/
def scanFrom : (count : Nat) → List Char → Except SyntaxError (List Token)
  | 0, s => .ok (textToken s)
  | count + 1, s =>
    match Text.splitAt? fragmentOpener s with
    | none => .ok (textToken s)
    | some (before, rest) =>
      match scanFragmentFrom count rest with
      | .error e => .error e
      | .ok (tokens, rest) =>
        (scanFrom count rest).map fun more => textToken before ++ tokens ++ more

def scan (artifact : String) : Except SyntaxError (List Token) :=
  scanFrom artifact.toList.length artifact.toList

end Stencil.Artifact
