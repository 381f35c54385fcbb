import Stencil.Artifact.Expr
import Stencil.Artifact.Scan

/-!
Reading expressions from tokens. Binary operators stand in six rows, from the loosest to the tightest; an
operand of a row is an expression of the next one, and unary operators, member access and calls bind tighter
than all rows. Comparisons do not chain.

Parsers for what may be nested take the parser of the inner expressions as an argument, so each is plain
recursion; only `expression` ties the knot. A `bound` is a list of tokens that stands for its length: every
bracket and every repetition takes a token, so the tokens that are left bound the depth of the one and the
number of the other.
-/
namespace Stencil.Artifact

abbrev Parser (α : Type) := List Token → Except SyntaxError (α × List Token)

def expect (p : Punct) : List Token → Except SyntaxError (List Token)
  | .punct q :: rest => if q = p then .ok rest else .error (.expectedPunct p (some (.punct q)))
  | tokens => .error (.expectedPunct p tokens.head?)

/-- What follows a word, if it stands next. -/
def word? (word : String) : List Token → Option (List Token)
  | .ident w :: rest => if w = word then some rest else none
  | _ => none

def varName : Parser String
  | .var name :: rest => .ok (name, rest)
  | tokens => .error (.expectedVariable tokens.head?)

/-- A row of binary operators: what each builds, and whether the row's results may be operands again. -/
structure OperatorRow where
  build? : Token → Option (Expr → Expr → Expr)
  chains : Bool

def orRow : OperatorRow where
  chains := true
  build?
    | .punct .orOr => some .or
    | .ident w => if w = "or" then some .or else none
    | _ => none

def andRow : OperatorRow where
  chains := true
  build?
    | .punct .andAnd => some .and
    | .ident w => if w = "and" then some .and else none
    | _ => none

def comparisonRow : OperatorRow where
  chains := false
  build?
    | .punct .equal => some (.binary .eq)
    | .punct .notEqual => some (.binary .ne)
    | .punct .less => some (.binary .lt)
    | .punct .lessEqual => some (.binary .le)
    | .punct .greater => some (.binary .gt)
    | .punct .greaterEqual => some (.binary .ge)
    | _ => none

def concatRow : OperatorRow where
  chains := true
  build?
    | .punct .tilde => some (.binary .concat)
    | _ => none

def sumRow : OperatorRow where
  chains := true
  build?
    | .punct .plus => some (.binary .add)
    | .punct .minus => some (.binary .sub)
    | _ => none

def productRow : OperatorRow where
  chains := true
  build?
    | .punct .star => some (.binary .mul)
    | .punct .slash => some (.binary .div)
    | .punct .percent => some (.binary .mod)
    | _ => none

def operatorRows : List OperatorRow := [orRow, andRow, comparisonRow, concatRow, sumRow, productRow]

/-- Goes on from the left operand, as long as an operator of the row follows. -/
def OperatorRow.extend (row : OperatorRow) (operand : Parser Expr) :
    (bound : List Token) → Expr → Parser Expr
  | [], left, tokens => .ok (left, tokens)
  | _ :: _, left, [] => .ok (left, [])
  | _ :: bound, left, t :: rest =>
    match row.build? t with
    | none => .ok (left, t :: rest)
    | some build => do
      let (right, rest) ← operand rest
      if row.chains then row.extend operand bound (build left right) rest
      else .ok (build left right, rest)

def OperatorRow.parse (row : OperatorRow) (operand : Parser Expr) : Parser Expr := fun tokens => do
  let (left, rest) ← operand tokens
  row.extend operand rest left rest

/-- An expression of the first row, given a parser for the operands of the last one. -/
def binaryRows (operand : Parser Expr) : List OperatorRow → Parser Expr
  | [] => operand
  | row :: tighter => row.parse (binaryRows operand tighter)

/-- The arguments of a call up to the closing parenthesis, of which there is at least one. -/
def arguments (inner : Parser Expr) : (bound : List Token) → Parser (List Expr)
  | [], _ => .error (.expectedOperand none)
  | _ :: bound, tokens => do
    let (arg, rest) ← inner tokens
    match rest with
    | .punct .closeParen :: rest => .ok ([arg], rest)
    | _ =>
      let rest ← expect .comma rest
      let (args, rest) ← arguments inner bound rest
      .ok (arg :: args, rest)

/-- A call of a function, the opening parenthesis onwards. -/
def callOf (inner : Parser Expr) (function : String) : Parser Expr := fun tokens => do
  let rest ← expect .openParen tokens
  match rest with
  | .punct .closeParen :: rest => .ok (.call function [], rest)
  | _ =>
    let (args, rest) ← arguments inner rest rest
    .ok (.call function args, rest)

def primary (inner : Parser Expr) : Parser Expr
  | .var name :: rest => .ok (.var name, rest)
  | .int i :: rest => .ok (.lit (.int i), rest)
  | .float x :: rest => .ok (.lit (.float x), rest)
  | .str s :: rest => .ok (.lit (.str s), rest)
  | .punct .openParen :: rest => do
    let (e, rest) ← inner rest
    let rest ← expect .closeParen rest
    .ok (e, rest)
  | .ident word :: rest =>
    if word = "true" then .ok (.lit (.bool true), rest)
    else if word = "false" then .ok (.lit (.bool false), rest)
    else if word = "null" then .ok (.lit .null, rest)
    else callOf inner word rest
  | tokens => .error (.expectedOperand tokens.head?)

/-- Member and index accesses behind an expression. -/
def accesses (inner : Parser Expr) : (bound : List Token) → Expr → Parser Expr
  | _ :: bound, base, .punct .dot :: rest =>
    match rest with
    | .ident key :: rest => accesses inner bound (.member base key) rest
    | .int i :: rest => accesses inner bound (.member base (String.ofList (Decimal.ofInt64 i))) rest
    | _ => .error (.expectedMember rest.head?)
  | _ :: bound, base, .punct .openBracket :: rest => do
    let (key, rest) ← inner rest
    let rest ← expect .closeBracket rest
    accesses inner bound (.index base key) rest
  | _, base, tokens => .ok (base, tokens)

def postfixed (inner : Parser Expr) : Parser Expr := fun tokens => do
  let (base, rest) ← primary inner tokens
  accesses inner rest base rest

def unary (inner : Parser Expr) : Parser Expr
  | .punct .bang :: rest => do
    let (e, rest) ← unary inner rest
    .ok (.not e, rest)
  | .punct .minus :: rest => do
    let (e, rest) ← unary inner rest
    .ok (.neg e, rest)
  | .ident word :: rest =>
    if word = "not" then do
      let (e, rest) ← unary inner rest
      .ok (.not e, rest)
    else postfixed inner (.ident word :: rest)
  | tokens => postfixed inner tokens

/-- An expression with others nested in it. Without a token there is no operand. -/
def expressionWithin : (bound : List Token) → Parser Expr
  | [] => fun _ => .error (.expectedOperand none)
  | _ :: bound => binaryRows (unary (expressionWithin bound)) operatorRows

def expression : Parser Expr := fun tokens => expressionWithin tokens tokens

/-- Reads a text that is one expression and nothing else. -/
def Expr.parse (s : String) : Except SyntaxError Expr := do
  let (tokens, rest) ← scanFragment (s.toList ++ [' ', '?', '>'])
  if rest.isEmpty then
    let (e, rest) ← expression tokens.dropLast
    match rest with
    | [] => .ok e
    | t :: _ => .error (.afterExpression t)
  else .error .trailingInput

end Stencil.Artifact
