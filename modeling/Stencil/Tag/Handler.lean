import Stencil.Tag.Param
import Stencil.Tree.Basic

/-!
What a tag does when it is met. A handler is a recipe: it changes the tree, asks for the depth of the template
it is in and for blocks, and lets templates be read, and the compilation carries it out. So a handler can do
nothing to a compilation but what is listed here.
-/
namespace Stencil

def Tree.site (t : Tree) (id : NodeId) : Site :=
  let n := t.own id
  ⟨n.tag, n.file, n.line⟩

/-- A block by name: its node, and how deep the template was nested that defined it. Deeper templates are
nearer to the base. -/
structure Block where
  node : NodeId
  depth : Nat
  deriving DecidableEq

inductive Handler (α : Type) where
  | done (a : α)
  | fail (e : TemplateError)
  | onTree (change : Tree → Tree) (next : Tree → Handler α)
  /-- How many templates are being read, one inside the other. -/
  | depth (next : Nat → Handler α)
  | lookup (block : String) (next : Option Block → Handler α)
  /-- Makes a node the block of that name, at the present depth. -/
  | define (block : String) (node : NodeId) (next : Handler α)
  /-- Has a node redirected to its block at the very end, when all blocks are known. -/
  | defer (node : NodeId) (next : Handler α)
  /-- Reads a template on behalf of a node and goes on with its root. -/
  | load (name : String) (via : Option NodeId) (next : Except TemplateError NodeId → Handler α)
  /-- Makes a node the root of the template that is being read. -/
  | replaceRoot (node : NodeId) (next : Handler α)

namespace Handler

def bind {α β : Type} : Handler α → (α → Handler β) → Handler β
  | done a, f => f a
  | fail e, _ => fail e
  | onTree change next, f => onTree change fun t => (next t).bind f
  | depth next, f => depth fun n => (next n).bind f
  | lookup block next, f => lookup block fun b => (next b).bind f
  | define block node next, f => define block node (next.bind f)
  | defer node next, f => defer node (next.bind f)
  | load name via next, f => load name via fun r => (next r).bind f
  | replaceRoot node next, f => replaceRoot node (next.bind f)

instance : Monad Handler where
  pure := done
  bind := bind

def getTree : Handler Tree := onTree id done

def changeTree (change : Tree → Tree) : Handler Unit := onTree change fun _ => done ()

def getDepth : Handler Nat := depth done

def block? (block : String) : Handler (Option Block) := lookup block done

def defineBlock (block : String) (node : NodeId) : Handler Unit := define block node (done ())

def deferNode (node : NodeId) : Handler Unit := defer node (done ())

def setRoot (node : NodeId) : Handler Unit := replaceRoot node (done ())

/-- The root of a template; if it cannot be read, the handler fails likewise. -/
def loadRoot (name : String) (via : Option NodeId) : Handler NodeId :=
  load name via fun
    | .ok root => done root
    | .error e => fail e

def ofExcept {α : Type} : Except TemplateError α → Handler α
  | .ok a => done a
  | .error e => fail e

/-- The node of a handle as it is now. -/
def own (id : NodeId) : Handler Node := do
  let t ← getTree
  pure (t.own id)

def update (id : NodeId) (f : Node → Node) : Handler Unit := changeTree (·.update id f)

def append (id : NodeId) (e : Element) : Handler Unit := changeTree (·.append id e)

def redirect (source destination : NodeId) : Handler Unit := changeTree (·.redirect source destination)

def clear (id : NodeId) : Handler Unit := changeTree (·.clear id)

def copy (id : NodeId) : Handler NodeId := do
  let t ← getTree
  let (new, t) := t.copy id
  changeTree fun _ => t
  pure new

/-- Fails because tags do not fit together at a node. -/
def structural {α : Type} (id : NodeId) (reason : String) : Handler α := do
  let t ← getTree
  fail (.structural (t.site id) reason)

/-- Fails because of a node's parameter. -/
def badParameter {α : Type} (id : NodeId) (reason : String) : Handler α := do
  let t ← getTree
  fail (.parameterType (t.site id) reason)

/-- Checks the parameters of a node and fills in defaults. -/
def demand (id : NodeId) (allowOthers : Bool) (specs : List Tag.ParamSpec) : Handler Unit := do
  let t ← getTree
  let params ← ofExcept (Tag.checkParams (t.site id) allowOthers specs (t.own id).params)
  update id fun n => { n with params := params }

end Handler

end Stencil
