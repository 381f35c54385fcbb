import Stencil.Artifact.Writer
import Stencil.Compile.Basic

/-!
From the finished tree to the artifact. Every node but a root is rendered the first time it is met; a node may
be written several times, but never inside itself.
-/
namespace Stencil

structure EmitState where
  /-- The nodes whose rendering has been handled. -/
  rendered : List NodeId
  written : Artifact.Written

/-- A step of writing. -/
abbrev Emit (W : Type) := StateT EmitState (Compile W)

namespace Emit

variable {W : Type}

def getTree : Emit W Tree := StateT.lift Compile.getTree

def addCode (code : String) : Emit W Unit :=
  modify fun s => { s with written := s.written.addCode code.toList }

def addText (text : String) : Emit W Unit :=
  modify fun s => { s with written := s.written.addText text.toList }

/-- Has a node rendered if it was not before. The handler may redirect it, so the target is looked up again. -/
def render (table : Tag.Table) (load : Loader W) (id : NodeId) : Emit W NodeId := do
  let t ← getTree
  let id := t.target id
  let s ← get
  if (t.own id).isRoot ∨ id ∈ s.rendered then pure id
  else do
    set { s with rendered := id :: s.rendered }
    StateT.lift (Compile.dispatch table load id .onRender)
    let t ← getTree
    pure (t.target id)

/-- Writes elements, handing nodes to `inner`. -/
def elements (inner : NodeId → Emit W Unit) : List Element → Emit W Unit
  | [] => pure ()
  | .text s :: rest => do
    addText s
    elements inner rest
  | .code c :: rest => do
    addCode c
    elements inner rest
  | .node child :: rest => do
    inner child
    elements inner rest

/-- Writes a node inside the nodes that are `active`, with others nested in it at most `depth` deep. -/
def nodeWithin (table : Tag.Table) (load : Loader W) : (depth : Nat) → (active : List NodeId) → NodeId →
    Emit W Unit
  | 0, _, id => do
    let t ← getTree
    throw (.structural (t.site id) "block content includes itself")
  | depth + 1, active, id => do
    let id ← render table load id
    let t ← getTree
    if id ∈ active then throw (.structural (t.site id) "block content includes itself")
    else do
      let n := t.own id
      addCode n.opening
      elements (nodeWithin table load depth (id :: active)) n.body
      addCode n.closing

/-- How far the nesting may grow beyond the tree as it is, by nodes that rendering adds. A handler that puts a
new node of its own tag into a node whenever it renders one would go on for ever; this is where it ends. -/
def growth : Nat := 100000

end Emit

namespace Compile

variable {W : Type}

/-- The artifact of a template. Nodes that are written inside each other all differ, so the tree bounds the
nesting. -/
def artifact (c : Compiler W) (root : NodeId) (strip : Bool) : Compile W String := do
  let t ← getTree
  let (_, s) ← (Emit.nodeWithin c.table (load c) (t.size + 1 + Emit.growth) [] root).run ⟨[], []⟩
  pure (s.written.finish strip)

end Compile

end Stencil
