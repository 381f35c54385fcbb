import Stencil.Artifact.ExprParser
import Stencil.Artifact.Stmt

/-!
Reading statements from tokens. A statement ends with a semicolon or with its fragment; bodies stand in braces
and may reach over several fragments and the text between them. As with expressions, a list of tokens serves as a
bound by its length.
-/
namespace Stencil.Artifact

def endOfStatement : List Token → Except SyntaxError (List Token)
  | .punct .semicolon :: rest => .ok rest
  | .fragmentEnd :: rest => .ok (.fragmentEnd :: rest)
  | tokens => .error (.expectedSemicolon tokens.head?)

def braced (block : Parser (List Stmt)) : Parser (List Stmt) := fun tokens => do
  let rest ← expect .openBrace tokens
  let (body, rest) ← block rest
  let rest ← expect .closeBrace rest
  .ok (body, rest)

def condition : Parser Expr := fun tokens => do
  let rest ← expect .openParen tokens
  let (e, rest) ← expression rest
  let rest ← expect .closeParen rest
  .ok (e, rest)

/-- The alternatives behind a branch. -/
def alternatives (block : Parser (List Stmt)) : (bound : List Token) → Parser Alternative
  | [], tokens => .ok (.nothing, tokens)
  | _ :: bound, tokens =>
    match word? "else" tokens with
    | none => .ok (.nothing, tokens)
    | some rest =>
      match word? "if" rest with
      | none => do
        let (body, rest) ← braced block rest
        .ok (.otherwise body, rest)
      | some rest => do
        let (test, rest) ← condition rest
        let (body, rest) ← braced block rest
        let (more, rest) ← alternatives block bound rest
        .ok (.branch test body more, rest)

def branchStatement (block : Parser (List Stmt)) : Parser Stmt := fun tokens => do
  let (test, rest) ← condition tokens
  let (body, rest) ← braced block rest
  let (more, rest) ← alternatives block rest rest
  .ok (.branch test body more, rest)

/-- The variable of a loop, named once more. -/
def sameVariable (name : String) (tokens : List Token) : Except SyntaxError (List Token) := do
  let (found, rest) ← varName tokens
  if name = found then .ok rest else .error (.loopVariableMismatch name found)

/-- The comparison that ends a loop, which also tells its direction. -/
def loopBound : Parser Bool
  | .punct .lessEqual :: rest => .ok (false, rest)
  | .punct .greaterEqual :: rest => .ok (true, rest)
  | tokens => .error (.expectedBound tokens.head?)

def countStatement (block : Parser (List Stmt)) : Parser Stmt := fun tokens => do
  let rest ← expect .openParen tokens
  let (var, rest) ← varName rest
  let rest ← expect .assign rest
  let (first, rest) ← expression rest
  let rest ← expect .semicolon rest
  let rest ← sameVariable var rest
  let (descending, rest) ← loopBound rest
  let (last, rest) ← expression rest
  let rest ← expect .semicolon rest
  let rest ← sameVariable var rest
  let rest ← expect .plusAssign rest
  let (step, rest) ← expression rest
  let rest ← expect .closeParen rest
  let (body, rest) ← braced block rest
  .ok (.count var first last step descending body, rest)

/-- The variables of a loop over entries: a value, or a key and a value. -/
def entryVariables : Parser (Option String × String) := fun tokens => do
  let (first, rest) ← varName tokens
  match rest with
  | .punct .arrow :: rest => do
    let (value, rest) ← varName rest
    .ok ((some first, value), rest)
  | _ => .ok ((none, first), rest)

def eachStatement (block : Parser (List Stmt)) : Parser Stmt := fun tokens => do
  let rest ← expect .openParen tokens
  let (list, rest) ← expression rest
  match word? "as" rest with
  | none => .error (.expectedAs rest.head?)
  | some rest => do
    let ((key, value), rest) ← entryVariables rest
    let rest ← expect .closeParen rest
    let (body, rest) ← braced block rest
    .ok (.each list key value body, rest)

/-- The statement that starts with the given word. -/
def statement (block : Parser (List Stmt)) (word : String) : Parser Stmt := fun tokens =>
  if word = "echo" then do
    let (e, rest) ← expression tokens
    let rest ← endOfStatement rest
    .ok (.echo e, rest)
  else if word = "if" then branchStatement block tokens
  else if word = "for" then countStatement block tokens
  else if word = "foreach" then eachStatement block tokens
  else if word = "ob_start" then do
    let rest ← expect .openParen tokens
    let rest ← expect .closeParen rest
    let rest ← endOfStatement rest
    .ok (.startBuffer, rest)
  else .error (.unknownStatement word)

/-- Statements up to a closing brace or the end; `inner` reads the bodies inside them. -/
def statements (inner : Parser (List Stmt)) : (bound : List Token) → Parser (List Stmt)
  | [], tokens => .ok ([], tokens)
  | _ :: _, [] => .ok ([], [])
  | _ :: bound, t :: rest =>
    match t with
    | .punct .closeBrace => .ok ([], t :: rest)
    | .fragmentEnd | .punct .semicolon => statements inner bound rest
    | .text s => do
      let (more, rest) ← statements inner bound rest
      .ok (.text s :: more, rest)
    | .ident word => do
      let (first, rest) ← statement inner word rest
      let (more, rest) ← statements inner bound rest
      .ok (first :: more, rest)
    | t => .error (.unexpected (some t))

/-- Statements with bodies nested in them. Every body takes a brace. -/
def blockWithin : (bound : List Token) → Parser (List Stmt)
  | [] => fun tokens => .ok ([], tokens)
  | _ :: bound => fun tokens => statements (blockWithin bound) tokens tokens

def block : Parser (List Stmt) := fun tokens => blockWithin tokens tokens

/-- The statements of an artifact. -/
def parseStatements (artifact : String) : Except SyntaxError (List Stmt) := do
  let tokens ← scan artifact
  let (body, rest) ← block tokens
  match rest with
  | [] => .ok body
  | t :: _ => .error (.unexpected (some t))

end Stencil.Artifact
