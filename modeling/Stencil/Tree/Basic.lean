import Stencil.Decimal.Integer
import Stencil.Keyed

/-!
The nodes of one compilation. A node has text, code and other nodes as its body, and code before and behind it.
Nodes are addressed by handles; a handle may be redirected to another, and then everything that is done to the
content through it is done to the node at the end of the chain.
-/
namespace Stencil

structure NodeId where
  index : Nat
  deriving DecidableEq

def NodeId.text (id : NodeId) : String := "#" ++ toString id.index

inductive Element where
  | text (s : String)
  /-- Code for the artifact, without the delimiters of a fragment. -/
  | code (s : String)
  | node (id : NodeId)
  deriving DecidableEq

/-- Where an element is put into a body. A negative index counts from the end. -/
inductive Position where
  | after
  | before
  | index (i : Int64)
  deriving DecidableEq

def Position.parse (s : String) : Except String Position :=
  if s = "after" then .ok .after
  else if s = "before" then .ok .before
  else match Decimal.readInt64? s.toList with
    | some i => .ok (.index i)
    | none => .error ("invalid position '" ++ s ++ "'")

/-- The place of an insertion in a body of the given length, never beyond its ends. -/
def Position.place (length : Nat) : Position → Nat
  | .after => length
  | .before => 0
  | .index i => min (if i < 0 then i.toInt + length else i.toInt).toNat length

structure Node where
  /-- The name of the tag, which roots and variables do not have. -/
  name : Option String
  params : Keyed String
  standsFor : Option NodeId
  opening : String
  body : List Element
  closing : String
  mustClose : Bool
  hasElse : Bool
  parent : Option NodeId
  file : String
  line : Nat
  isRoot : Bool

namespace Node

def fresh (file : String) (line : Nat) : Node where
  name := none
  params := []
  standsFor := none
  opening := ""
  body := []
  closing := ""
  mustClose := true
  hasElse := false
  parent := none
  file := file
  line := line
  isRoot := false

instance : Inhabited Node := ⟨fresh "" 0⟩

def tag (n : Node) : String := n.name.getD ""

def param (n : Node) (key : String) : String := (Keyed.get? key n.params).getD ""

end Node

structure Tree where
  nodes : Array Node

namespace Tree

def empty : Tree := ⟨#[]⟩

def size (t : Tree) : Nat := t.nodes.size

/-- The node that a handle itself stands for, redirected or not. -/
def own (t : Tree) (id : NodeId) : Node := t.nodes.getD id.index default

/-- Changes the node that a handle itself stands for. -/
def update (t : Tree) (id : NodeId) (f : Node → Node) : Tree := ⟨t.nodes.modify id.index f⟩

def push (t : Tree) (n : Node) : NodeId × Tree := (⟨t.size⟩, ⟨t.nodes.push n⟩)

def create (t : Tree) (file : String) (line : Nat) : NodeId × Tree := t.push (Node.fresh file line)

/-- The end of a chain of at most `count` redirections. -/
def follow (t : Tree) : (count : Nat) → NodeId → NodeId
  | 0, id => id
  | count + 1, id =>
    match (t.own id).standsFor with
    | none => id
    | some next => t.follow count next

/-- The handle at the end of the redirections. A chain has no repetition, so it is shorter than the tree. -/
def target (t : Tree) (id : NodeId) : NodeId := t.follow t.size id

/-- The node that holds the content of a handle. -/
def content (t : Tree) (id : NodeId) : Node := t.own (t.target id)

/-- From now on the target of `source` is that of `destination`. Two handles that already have the same target
are left as they are, so no chain leads back to itself. -/
def redirect (t : Tree) (source destination : NodeId) : Tree :=
  let last := t.target source
  if last = t.target destination then t
  else t.update last fun n => { n with standsFor := some destination }

def insert (t : Tree) (id : NodeId) (e : Element) (position : Position) : Tree :=
  t.update (t.target id) fun n => { n with body := n.body.insertIdx (position.place n.body.length) e }

def append (t : Tree) (id : NodeId) (e : Element) : Tree :=
  t.update (t.target id) fun n => { n with body := n.body ++ [e] }

def clear (t : Tree) (id : NodeId) : Tree :=
  t.update (t.target id) fun n => { n with opening := "", body := [], closing := "" }

/-- The text of a body that is nothing but text. -/
def bodyText? : List Element → Option String
  | [] => some ""
  | .text s :: rest => (bodyText? rest).map (s ++ ·)
  | _ :: _ => none

def text? (t : Tree) (id : NodeId) : Option String := bodyText? (t.content id).body

/-- A new node with the content, name and parameters of the target; what stands in its body is shared. -/
def copy (t : Tree) (id : NodeId) : NodeId × Tree := t.push { t.content id with standsFor := none }

/-- Code as a fragment of its own. -/
def fragment (code : String) : String := if code.isEmpty then "" else "<?" ++ code ++ "?>"

/-- The content of a handle and of everything in it, nested at most `depth` deep, code as fragments. -/
def outlineWithin (t : Tree) : (depth : Nat) → NodeId → String
  | 0, _ => ""
  | depth + 1, id =>
    let n := t.content id
    let parts := n.body.map fun
      | .text s => s
      | .code c => fragment c
      | .node child => t.outlineWithin depth child
    fragment n.opening ++ String.join parts ++ fragment n.closing

def outline (t : Tree) (id : NodeId) : String := t.outlineWithin t.size id

end Tree

end Stencil
