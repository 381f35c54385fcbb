import Stencil.Decimal.Integer
import Stencil.Decimal.Layout
import Stencil.Text.Quoted

/-!
The words of an artifact: text outside the fragments, and inside them names, numbers, quoted texts and
punctuation. Each has a form in which messages show it.
-/
namespace Stencil.Artifact

inductive Punct where
  | lessEqual | greaterEqual | equal | notEqual | andAnd | orOr | arrow | plusAssign | minusAssign
  | less | greater | assign | plus | minus | star | slash | percent | tilde | bang | dot | comma
  | openParen | closeParen | openBracket | closeBracket | openBrace | closeBrace | semicolon
  deriving DecidableEq

def Punct.text : Punct → String
  | lessEqual => "<="
  | greaterEqual => ">="
  | equal => "=="
  | notEqual => "!="
  | andAnd => "&&"
  | orOr => "||"
  | arrow => "=>"
  | plusAssign => "+="
  | minusAssign => "-="
  | less => "<"
  | greater => ">"
  | assign => "="
  | plus => "+"
  | minus => "-"
  | star => "*"
  | slash => "/"
  | percent => "%"
  | tilde => "~"
  | bang => "!"
  | dot => "."
  | comma => ","
  | openParen => "("
  | closeParen => ")"
  | openBracket => "["
  | closeBracket => "]"
  | openBrace => "\x7b"
  | closeBrace => "\x7d"
  | semicolon => ";"

inductive Token where
  /-- Text outside the fragments. -/
  | text (s : String)
  | fragmentEnd
  | var (name : String)
  | ident (name : String)
  | int (i : Int64)
  | float (x : Float)
  | str (s : String)
  | punct (p : Punct)

def Token.shown : Token → String
  | text s => "Text(" ++ Text.shown s ++ ")"
  | fragmentEnd => "FragEnd"
  | var name => "Var(" ++ Text.shown name ++ ")"
  | ident name => "Ident(" ++ Text.shown name ++ ")"
  | int i => "Int(" ++ String.ofList (Decimal.ofInt64 i) ++ ")"
  | float x => "Float(" ++ String.ofList (Decimal.marked.write x) ++ ")"
  | str s => "Str(" ++ Text.shown s ++ ")"
  | punct p => "Punct(" ++ Text.shown p.text ++ ")"

/-- A token that may be missing, as the messages about it show it. -/
def Token.shown? : Option Token → String
  | none => "None"
  | some t => "Some(" ++ t.shown ++ ")"

/-- The token that stands next, or the end. -/
def Token.describe : Option Token → String
  | none => "end of artifact"
  | some t => t.shown

end Stencil.Artifact
