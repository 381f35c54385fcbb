/-!
Why a running template stops.
-/
namespace Stencil

inductive EvalError where
  | unprintable (typeName : String)
  | overflow
  | divisionByZero
  | moduloByZero
  | notComparable (left right : String)
  | comparedNaN
  | badOperands (left right : String)
  | notNegatable (typeName : String)
  | undefinedFunction (name : String)
  | notOneArgument (function : String)
  | notCountable
  /-- A function of the host failed with its own words. -/
  | host (reason : String)
  | noBuffer
  | openBuffers
  | loopNotInteger (what typeName : String)
  | badStep (step : Int)
  | notIterable (typeName : String)
  deriving DecidableEq

def EvalError.message : EvalError → String
  | unprintable typeName => "cannot print a value of type " ++ typeName
  | overflow => "integer overflow"
  | divisionByZero => "division by zero"
  | moduloByZero => "modulo by zero"
  | notComparable left right => "cannot compare " ++ left ++ " with " ++ right
  | comparedNaN => "cannot compare NaN"
  | badOperands left right => "unsupported operands " ++ left ++ " and " ++ right
  | notNegatable typeName => "cannot negate a value of type " ++ typeName
  | undefinedFunction name => "call to undefined function " ++ name ++ "()"
  | notOneArgument function => function ++ "() expects exactly one argument"
  | notCountable => "count() expects one list, map or string"
  | host reason => reason
  | noBuffer => "ob_get_clean() without ob_start()"
  | openBuffers => "unbalanced output buffering"
  | loopNotInteger what typeName => "loop " ++ what ++ " must be an integer, got " ++ typeName
  | badStep step => "invalid loop step " ++ toString step
  | notIterable typeName => "cannot iterate over " ++ typeName

end Stencil
