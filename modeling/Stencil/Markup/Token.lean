import Stencil.Error
import Stencil.Text.Blank
import Stencil.Text.Search

/-!
The pieces of a template source. A brace opens a tag if the next character is neither blank nor a closing brace
and a closing brace comes later; the tag ends at the first one. What stands between the two literal tags is
text, whatever it contains, and the literal tags themselves are no pieces.
-/
namespace Stencil.Markup

inductive Kind where
  | text
  /-- A tag that prints an expression. -/
  | variable
  | openTag
  | closeTag
  deriving DecidableEq

structure Token where
  kind : Kind
  raw : List Char
  line : Nat
  deriving DecidableEq

/-- What is left of a piece without its delimiters. -/
def Token.content (t : Token) : List Char :=
  match t.kind with
  | .text => t.raw
  | .variable | .openTag => (t.raw.drop 1).dropLast
  | .closeTag => Text.trim (t.raw.drop 2).dropLast

def literalOpener : List Char := "\x7bliteral\x7d".toList

def literalCloser : List Char := "\x7b/literal\x7d".toList

/-- Whether an opening brace before this text can open a tag. -/
def opensTag : List Char → Bool
  | [] => false
  | c :: _ => !(Text.isBlank c || c == '\x7d')

/-- The text before the first tag, the tag, and what follows it. Where no closing brace comes later, there is no
tag further on either. -/
def nextTag? : List Char → Option (List Char × List Char × List Char)
  | [] => none
  | c :: s =>
    if c = '\x7b' ∧ opensTag s then
      match s.span (· ≠ '\x7d') with
      | (inside, close :: rest) => some ([], '\x7b' :: inside ++ [close], rest)
      | (_, []) => none
    else (nextTag? s).map fun (before, tag, rest) => (c :: before, tag, rest)

def kindOf (tag : List Char) : Kind :=
  match tag.drop 1 with
  | '$' :: _ => .variable
  | '/' :: _ => .closeTag
  | _ => .openTag

def newlines (s : List Char) : Nat := s.count '\n'

def textToken (s : List Char) (line : Nat) : List Token :=
  if s.isEmpty then [] else [⟨.text, s, line⟩]

/-- The pieces of a source that begins on the given line. Every tag takes characters, so `count` need not
exceed the length. -/
def scanFrom (file : String) : (count line : Nat) → List Char → Except TemplateError (List Token)
  | 0, line, s => .ok (textToken s line)
  | count + 1, line, s =>
    match nextTag? s with
    | none => .ok (textToken s line)
    | some (before, tag, rest) =>
      let tagLine := line + newlines before
      if tag = literalOpener then
        match Text.splitAt? literalCloser rest with
        | none => .error (.unclosedTag ⟨"literal", file, tagLine⟩)
        | some (inside, rest) =>
          (scanFrom file count (tagLine + newlines inside) rest).map fun more =>
            textToken before line ++ textToken inside tagLine ++ more
      else
        (scanFrom file count (tagLine + newlines tag) rest).map fun more =>
          textToken before line ++ ⟨kindOf tag, tag, tagLine⟩ :: more

def scan (file source : String) : Except TemplateError (List Token) :=
  scanFrom file source.toList.length 1 source.toList

end Stencil.Markup
