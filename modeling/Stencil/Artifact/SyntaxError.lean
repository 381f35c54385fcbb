import Stencil.Artifact.Token

/-!
Why a text is no artifact, or no expression.
-/
namespace Stencil.Artifact

inductive SyntaxError where
  | unterminatedFragment
  | missingVariableName
  | unexpectedCharacter (c : Char)
  | numberTooLarge (digits : String)
  | unterminatedString
  | expectedPunct (p : Punct) (found : Option Token)
  | expectedVariable (found : Option Token)
  | expectedMember (found : Option Token)
  | expectedOperand (found : Option Token)
  | expectedSemicolon (found : Option Token)
  | expectedBound (found : Option Token)
  | expectedAs (found : Option Token)
  | unexpected (found : Option Token)
  | unknownStatement (word : String)
  | loopVariableMismatch (expected found : String)
  /-- A fragment end inside a text that should be one expression. -/
  | trailingInput
  | afterExpression (found : Token)

def SyntaxError.message : SyntaxError → String
  | unterminatedFragment => "unterminated code fragment"
  | missingVariableName => "expected variable name after '$'"
  | unexpectedCharacter c => "unexpected character '" ++ String.singleton c ++ "'"
  | numberTooLarge digits =>
    "invalid number '" ++ digits ++ "': number too large to fit in target type"
  | unterminatedString => "unterminated string literal"
  | expectedPunct p found => "expected '" ++ p.text ++ "', found " ++ Token.describe found
  | expectedVariable found => "expected variable, found " ++ Token.shown? found
  | expectedMember found => "expected member name, found " ++ Token.shown? found
  | expectedOperand found => "unexpected token " ++ Token.shown? found ++ " in expression"
  | expectedSemicolon found => "expected ';', found " ++ Token.describe found
  | expectedBound found => "expected loop bound, found " ++ Token.describe found
  | expectedAs found => "expected 'as', found " ++ Token.describe found
  | unexpected found => "unexpected " ++ Token.describe found
  | unknownStatement word => "unknown statement '" ++ word ++ "'"
  | loopVariableMismatch expected found =>
    "loop variable mismatch: $" ++ expected ++ " vs $" ++ found
  | trailingInput => "trailing input after expression"
  | afterExpression found => "unexpected token " ++ found.shown ++ " after expression"

end Stencil.Artifact
