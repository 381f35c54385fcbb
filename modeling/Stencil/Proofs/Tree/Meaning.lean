import Stencil.Proofs.Artifact.TagCode
import Stencil.Run.Program
import Stencil.Tree.Basic

/-!
What a finished tree means, told without an artifact: text is written, a node without a tag prints its expression,
a condition runs one segment of its body, loops run their bodies again and again, and all other nodes are the
elements that stand in them. Handles stand for the nodes at the ends of their redirections.
-/
namespace Stencil

open Artifact (Expr)

/-- The expression that a text is; a text that is none is taken for null. -/
def Artifact.exprOf (text : String) : Expr :=
  match Expr.parse text with
  | .ok e => e
  | .error _ => .lit .null

namespace Node

/-- The text of the expression that a node without a tag prints: its code without `echo` and the semicolon. -/
def expression (n : Node) : String := String.ofList (n.opening.toList.drop 5).dropLast

/-- A parameter that is a whole number. -/
def number (n : Node) (key : String) : Int64 := (Decimal.readInt64? (n.param key).toList).getD 0

/-- The variable that a parameter names. -/
def loopVariable? (n : Node) (key : String) : Option String :=
  if (n.param key).isEmpty then none else some (Artifact.variableName (n.param key))

/-- Whether a node begins a new segment of a condition, and by which test; an `else` has none. -/
def separator? (n : Node) : Option (Option String) :=
  if n.tag = "elseif" then some (some (n.param "cond")) else if n.tag = "else" then some none else none

end Node

namespace Tree

def separator? (t : Tree) : Element → Option (Option String)
  | .node id => (t.content id).separator?
  | _ => none

/-- The elements in front of the first `elseif` or `else`. -/
def segment (t : Tree) (body : List Element) : List Element := body.takeWhile fun e => (t.separator? e).isNone

/-- Runs elements in order, nodes by `inner`. Code is put into trees by nothing but `t`. -/
def runElements (inner : NodeId → Run Unit) : List Element → Run Unit
  | [] => pure ()
  | .text s :: rest => do
    Run.write s
    runElements inner rest
  | .code _ :: rest => runElements inner rest
  | .node id :: rest => do
    inner id
    runElements inner rest

/-- Runs the first of the later segments of a condition whose test holds, or that of the `else`. -/
def runAlternatives (t : Tree) (fs : Functions) (inner : NodeId → Run Unit) : List Element → Run Unit
  | [] => pure ()
  | e :: rest =>
    match t.separator? e with
    | none => runAlternatives t fs inner rest
    | some none => runElements inner (t.segment rest)
    | some (some test) => do
      let v ← eval fs (Artifact.exprOf test)
      if v.isTruthy then runElements inner (t.segment rest) else runAlternatives t fs inner rest

/-- Runs a node, with others nested in it by `inner`. -/
def runContent (t : Tree) (fs : Functions) (inner : NodeId → Run Unit) (n : Node) : Run Unit :=
  if n.name = none ∧ n.isRoot = false then do
    let v ← eval fs (Artifact.exprOf n.expression)
    let text ← Run.lift v.print
    Run.write text
  else if n.tag = "if" then do
    let v ← eval fs (Artifact.exprOf (n.param "cond"))
    if v.isTruthy then runElements inner (t.segment n.body) else t.runAlternatives fs inner n.body
  else if n.tag = "for" then
    let rounds := progressionLength (n.number "from").toInt (n.number "to").toInt (n.number "step").toInt
    inLoopScope (countLoop (Artifact.variableName (n.param "var")) (n.number "step") (runElements inner n.body)
      rounds (n.number "from"))
  else if n.tag = "foreach" then do
    let v ← eval fs (Artifact.exprOf (n.param "list"))
    let items ← Run.lift (entries v)
    inLoopScope (eachLoop (n.loopVariable? "key") (Artifact.variableName (n.param "var")) (runElements inner n.body) items)
  else runElements inner n.body

/-- Runs what a handle stands for, with others nested in it at most `depth` deep. -/
def runNode (t : Tree) (fs : Functions) : (depth : Nat) → NodeId → Run Unit
  | 0, _ => pure ()
  | depth + 1, id => t.runContent fs (t.runNode fs depth) (t.content id)

/-- The page that a finished tree means. Nodes that stand inside each other all differ, so the tree bounds the
nesting. -/
def page (t : Tree) (root : NodeId) (name : String) (params : Value) (fs : Functions) :
    Except TemplateError String :=
  match t.runNode fs t.size root (RunState.initial params) with
  | .ok ((), s) => .ok s.output
  | .error e => .error (.execution name e.message)

end Tree

end Stencil
