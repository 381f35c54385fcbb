import Stencil.Library.Basic
import Stencil.Markup.Head
import Stencil.Markup.Token
import Stencil.Tag.Table

/-!
Compilation up to the finished tree. Pieces of a source are put into a tree one after the other; tags are
handed to their handlers, and a handler may have other templates read before it goes on.

The open nodes stand on a stack, the root of the template at the bottom. A closing tag must name the top of the
stack, and at the end nothing but the root may be left.
-/
namespace Stencil

open Tag (Table Phase)

/-- A template that is being read. -/
structure Frame where
  name : String
  identity : String
  root : NodeId

structure CompileState (W : Type) where
  world : W
  tree : Tree
  /-- The templates being read, the innermost first. -/
  frames : List Frame
  /-- The roots of the templates that have been read, by identity. -/
  finished : Keyed NodeId
  /-- The sources that were read, in order, with their stamps. -/
  sources : Keyed (Option Stamp)
  blocks : Keyed Block
  /-- Nodes to be redirected at the end, in order. -/
  deferred : List NodeId

def CompileState.initial {W : Type} (world : W) : CompileState W :=
  ⟨world, Tree.empty, [], [], [], [], []⟩

/-- A step of a compilation. What it has done stays done if it fails. -/
abbrev Compile (W : Type) := ExceptT TemplateError (StateM (CompileState W))

/-- What a compilation needs from outside. -/
structure Compiler (W : Type) where
  library : Library W
  table : Table

/-- Reads a template on behalf of a node and gives its root. -/
abbrev Loader (W : Type) := String → Option NodeId → Compile W NodeId

namespace Compile

variable {W : Type}

/-- Lets the library work on the world inside the state. -/
def onWorld {α : Type} (act : StateM W α) : Compile W α := fun s =>
  let (a, world) := act s.world
  (.ok a, { s with world := world })

def onWorldExcept {α : Type} (act : StateM W (Except TemplateError α)) : Compile W α := fun s =>
  let (r, world) := act s.world
  (r, { s with world := world })

def getTree : Compile W Tree := do
  let s ← get
  pure s.tree

def changeTree (change : Tree → Tree) : Compile W Unit := modify fun s => { s with tree := change s.tree }

/-- A new node inside `parent`. -/
def createChild (file : String) (line : Nat) (parent : NodeId) : Compile W NodeId := do
  let t ← getTree
  let (id, t) := t.create file line
  changeTree fun _ => t.update id fun n => { n with parent := some parent }
  pure id

/-- Replaces the root of the innermost template. -/
def setRoot (root : NodeId) : List Frame → List Frame
  | [] => []
  | frame :: frames => { frame with root := root } :: frames

/-- Carries out a handler. -/
def carryOut (load : Loader W) {α : Type} : Handler α → Compile W α
  | .done a => pure a
  | .fail e => throw e
  | .onTree change next => do
    changeTree change
    let t ← getTree
    carryOut load (next t)
  | .depth next => do
    let s ← get
    carryOut load (next s.frames.length)
  | .lookup block next => do
    let s ← get
    carryOut load (next (Keyed.get? block s.blocks))
  | .define block node next => do
    modify fun s => { s with blocks := Keyed.put block ⟨node, s.frames.length⟩ s.blocks }
    carryOut load next
  | .defer node next => do
    modify fun s => { s with deferred := s.deferred ++ [node] }
    carryOut load next
  | .load name via next => fun s =>
    let (r, s) := load name via s
    carryOut load (next r) s
  | .replaceRoot node next => do
    modify fun s => { s with frames := setRoot node s.frames }
    carryOut load next

/-- The handler of a tag for a phase. A tag that is not closed is handled when it opens. -/
def handlerFor (handlers : Tag.Handlers) : Phase → Option Tag.NodeHandler
  | .onOpen => handlers.onOpenClose.orElse fun _ => handlers.onOpen
  | phase => handlers.get phase

/-- Hands a node to the handler of its tag. Nodes without a tag have none; an unknown tag is an error. -/
def dispatch (table : Table) (load : Loader W) (id : NodeId) (phase : Phase) : Compile W Unit := do
  let t ← getTree
  match (t.own id).name with
  | none => pure ()
  | some tag =>
    match Keyed.get? tag table with
    | none => throw (.unknownTag (t.site id))
    | some handlers =>
      if phase = .onOpen ∧ handlers.onOpenClose.isSome then
        changeTree (·.update id fun n => { n with mustClose := false })
      match handlerFor handlers phase with
      | none => pure ()
      | some handler => carryOut load (handler id)

/-- A tag that prints an expression. -/
def putVariable (file : String) (line : Nat) (expression : String) (parent : NodeId) : Compile W Unit := do
  let id ← createChild file line parent
  changeTree (·.update id fun n =>
    { n with mustClose := false, opening := "echo " ++ expression ++ ";" })
  changeTree (·.append parent (.node id))

/-- A tag that opens. The new node is on top of the stack if it has to be closed. -/
def putOpen (table : Table) (load : Loader W) (file : String) (line : Nat) (head : List Char)
    (parent : NodeId) (outer : List NodeId) : Compile W (List NodeId) := do
  let id ← createChild file line parent
  match Markup.Head.parse head with
  | .error e => throw (.parameterType ⟨Markup.firstWord head, file, line⟩ e.message)
  | .ok head => do
    changeTree (·.update id fun n => { n with name := some head.name, params := head.params })
    dispatch table load id .onOpen
    let t ← getTree
    if (t.own id).mustClose then pure (id :: parent :: outer)
    else do
      changeTree (·.append parent (.node id))
      pure (parent :: outer)

/-- A tag that closes the top of the stack, which then becomes part of the node below. -/
def putClose (table : Table) (load : Loader W) (file : String) (line : Nat) (found : String)
    (top : NodeId) (outer : List NodeId) : Compile W (List NodeId) := do
  let t ← getTree
  let n := t.own top
  if n.isRoot ∨ n.tag ≠ found then throw (.tagMismatch ⟨n.tag, file, line⟩ found)
  else do
    dispatch table load top .onClose
    match outer with
    | [] => pure []
    | parent :: _ => do
      changeTree (·.append parent (.node top))
      pure outer

/-- Puts one piece of a source in its place. -/
def put (table : Table) (load : Loader W) (file : String) (stack : List NodeId) (token : Markup.Token) :
    Compile W (List NodeId) :=
  match stack with
  | [] => pure []
  | top :: outer =>
    let content := token.content
    match token.kind with
    | .text => do
      changeTree (·.append top (.text (String.ofList content)))
      pure (top :: outer)
    | .variable => do
      putVariable file token.line (String.ofList content) top
      pure (top :: outer)
    | .openTag => putOpen table load file token.line content top outer
    | .closeTag => putClose table load file token.line (String.ofList content) top outer

/-- At the end of a source all nodes but the root are closed. -/
def checkClosed : List NodeId → Compile W Unit
  | [] => pure ()
  | top :: _ => do
    let t ← getTree
    if (t.own top).isRoot then pure () else throw (.unclosedTag (t.site top))

/-- Puts all pieces of a source under a root. -/
def build (table : Table) (load : Loader W) (file : String) (root : NodeId) (tokens : List Markup.Token) :
    Compile W Unit := do
  let stack ← tokens.foldlM (put table load file) [root]
  checkClosed stack

/-- Does something while a template counts as being read. The root may be another one in the end. -/
def within (frame : Frame) (act : Compile W Unit) : Compile W NodeId := fun s =>
  let (r, s) := act { s with frames := frame :: s.frames }
  let root := (s.frames.head?.map (·.root)).getD frame.root
  (r.map fun _ => root, { s with frames := s.frames.tail })

/-- Reads the text of a source into the tree and gives its root. -/
def readSource (table : Table) (load : Loader W) (name identity : String) (stamp : Option Stamp)
    (text : String) : Compile W NodeId := do
  modify fun s => { s with sources := Keyed.put identity stamp s.sources }
  let tokens ← liftExcept (Markup.scan name text)
  let t ← getTree
  let (root, t) := t.create name 1
  changeTree fun _ => t.update root fun n => { n with isRoot := true }
  within ⟨name, identity, root⟩ (build table load name root tokens)
where
  liftExcept {α : Type} (x : Except TemplateError α) : Compile W α := fun s => (x, s)

/-- A template that is needed while it is being read. -/
def cycleError (name : String) (via : Option NodeId) (s : CompileState W) : TemplateError :=
  let chain := (s.frames.map (·.name)).reverse ++ [name]
  match via with
  | some id => .cycle (s.tree.site id) chain
  | none => .cycle ⟨"", name, 0⟩ chain

/-- Reads a template, with others nested in it at most `depth` deep. A template that was read before is not
read again, and one that is being read is an error. The stamp is taken before the text, so that a change in
between shows. -/
def loadWithin (c : Compiler W) : (depth : Nat) → Loader W
  | 0, name, via => do
    let s ← get
    throw (cycleError name via s)
  | depth + 1, name, via => do
    let identity ← onWorldExcept (c.library.locate name)
    let s ← get
    if s.frames.any (·.identity = identity) then throw (cycleError name via s)
    else match Keyed.get? identity s.finished with
      | some root => pure root
      | none => do
        let stamp ← onWorld (c.library.modified identity)
        let text ← onWorldExcept (c.library.read name)
        let root ← readSource c.table (loadWithin c depth) name identity stamp text
        modify fun s => { s with finished := Keyed.put identity root s.finished }
        pure root

/-- Reads a template. Templates that are read inside each other all differ, so the number of sources bounds
the nesting. -/
def load (c : Compiler W) : Loader W := fun name via s =>
  loadWithin c (c.library.reach s.world + 2) name via s

/-- Redirects the nodes that waited for their blocks. -/
def linkDeferred : List NodeId → Compile W Unit
  | [] => pure ()
  | id :: ids => do
    let s ← get
    let name := (s.tree.own id).param "id"
    match Keyed.get? name s.blocks with
    | none => throw (.structural (s.tree.site id) ("unknown block '" ++ name ++ "'"))
    | some b => do
      changeTree (·.redirect id b.node)
      linkDeferred ids

end Compile

/-- A template that has been read: its root, and the sources that it was read from. -/
structure Template where
  name : String
  root : NodeId
  dependencies : List Dependency

namespace Compile

variable {W : Type}

/-- Links what was deferred and lists the sources. -/
def finish (name : String) (root : NodeId) : Compile W Template := do
  let s ← get
  set { s with deferred := [] }
  linkDeferred s.deferred
  let s ← get
  pure ⟨name, root, s.sources.map fun (identity, stamp) => ⟨identity, stamp⟩⟩

/-- Reads the template of a name with all that it needs. -/
def template (c : Compiler W) (name : String) : Compile W Template := do
  let root ← load c name none
  finish name root

/-- Reads a template from a text; others that it needs come from the library. -/
def inlineTemplate (c : Compiler W) (name text : String) : Compile W Template := do
  let stamp ← onWorld (c.library.modified name)
  let root ← readSource c.table (load c) name name stamp text
  finish name root

end Compile

end Stencil
