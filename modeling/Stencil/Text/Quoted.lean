import Stencil.Text.Visible

/-!
Three written forms of a text: quoted for a reader with every invisible character spelled out, quoted for an
artifact, and escaped for a page.
-/
namespace Stencil.Text

/-- The digits of a number in base sixteen, small letters, no leading zeros. -/
def hex (n : Nat) : List Char := Nat.toDigits 16 n

/-- A character inside a double-quoted text: the named escapes, then the code point of what cannot be seen. -/
def shownChar (c : Char) : List Char :=
  match c with
  | '\x00' => ['\\', '0']
  | '\t' => ['\\', 't']
  | '\r' => ['\\', 'r']
  | '\n' => ['\\', 'n']
  | '"' => ['\\', '"']
  | '\\' => ['\\', '\\']
  | c => if isVisible c then [c] else ['\\', 'u', '\x7b'] ++ hex c.toNat ++ ['\x7d']

/-- A text between double quotes, for messages. -/
def shown (s : String) : String :=
  String.ofList ('"' :: s.toList.flatMap shownChar ++ ['"'])

/-- A character inside a single-quoted artifact text: quotes and backslashes get a backslash. -/
def quotedChar (c : Char) : List Char :=
  if c = '\'' ∨ c = '\\' then ['\\', c] else [c]

/-- A text between single quotes, as artifacts write it. -/
def quoted (s : List Char) : List Char :=
  '\'' :: s.flatMap quotedChar ++ ['\'']

/-- The five characters that a page must not show as they are. -/
def entity (c : Char) : List Char :=
  match c with
  | '&' => ['&', 'a', 'm', 'p', ';']
  | '<' => ['&', 'l', 't', ';']
  | '>' => ['&', 'g', 't', ';']
  | '"' => ['&', 'q', 'u', 'o', 't', ';']
  | '\'' => ['&', '#', '3', '9', ';']
  | c => [c]

/-- A text that a page shows as it is written here. -/
def escape (s : List Char) : List Char := s.flatMap entity

theorem escape_append (s t : List Char) : escape (s ++ t) = escape s ++ escape t := by
  simp [escape]

end Stencil.Text
