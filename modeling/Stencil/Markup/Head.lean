import Stencil.Keyed
import Stencil.Text.Alphanumeric
import Stencil.Text.Blank

/-!
The head of a tag: its name, then parameters `key=value`. A value that starts with a quote runs to the next
one and may contain anything, a backslash taking the following character as it is; any other value runs to the
next blank. A key that comes again moves to the end with its last value.
-/
namespace Stencil.Markup

inductive HeadError where
  /-- No key with an equals sign where a parameter should begin. -/
  | malformed (near : String)
  | unterminatedQuote (key : String)
  deriving DecidableEq

def HeadError.message : HeadError → String
  | malformed near => "malformed parameter near '" ++ near ++ "'"
  | unterminatedQuote key => "unterminated quote in parameter '" ++ key ++ "'"

structure Head where
  name : String
  params : Keyed String

/-- The text up to the closing quote without its escapes, and what follows the quote. -/
def readQuoted (quote : Char) : List Char → Option (List Char × List Char)
  | [] => none
  | '\\' :: [] => none
  | '\\' :: c :: s => (readQuoted quote s).map fun (value, rest) => (c :: value, rest)
  | c :: s =>
    if c = quote then some ([], s)
    else (readQuoted quote s).map fun (value, rest) => (c :: value, rest)

def isKeyChar (c : Char) : Bool := Text.isAlphanumeric c || c == '_'

def notBlank (c : Char) : Bool := !Text.isBlank c

/-- A value and what follows it. -/
def readValue (s : List Char) : Option (List Char × List Char) :=
  match s with
  | '"' :: s => readQuoted '"' s
  | '\'' :: s => readQuoted '\'' s
  | s => some (s.span notBlank)

/-- Parameters up to the end, added to those read before. Each takes at least one character. -/
def readParams : (count : Nat) → Keyed String → List Char → Except HeadError (Keyed String)
  | 0, params, _ => .ok params
  | count + 1, params, s =>
    let s := Text.trimStart s
    if s.isEmpty then .ok params
    else
      match s.span isKeyChar with
      | (key@(_ :: _), '=' :: rest) =>
        match readValue rest with
        | none => .error (.unterminatedQuote (String.ofList key))
        | some (value, rest) =>
          readParams count (Keyed.putLast (String.ofList key) (String.ofList value) params) rest
      | _ => .error (.malformed (String.ofList s))

def Head.parse (s : List Char) : Except HeadError Head :=
  let (name, rest) := (Text.trim s).span notBlank
  (readParams (rest.length + 1) [] rest).map fun params => ⟨String.ofList name, params⟩

/-- The first word of a head, for messages about heads that cannot be read. -/
def firstWord (s : List Char) : String := String.ofList ((Text.trimStart s).takeWhile notBlank)

end Stencil.Markup
