import Stencil.Tree.Basic

/-!
A walk over everything that a node contains: parents before children, in the order of the bodies, each target
once.
-/
namespace Stencil

/-- A node found on a walk: the handle by which it was first reached, and its target. -/
structure Visit where
  handle : NodeId
  target : NodeId

namespace Tree

def children (t : Tree) (id : NodeId) : List NodeId :=
  (t.own id).body.filterMap fun
    | .node child => some child
    | _ => none

/-- Visits the handles that wait, first the first one with all that it leads to. -/
def walk (t : Tree) : (count : Nat) → (waiting : List NodeId) → (seen : List Visit) → List Visit
  | 0, _, seen => seen
  | _ + 1, [], seen => seen
  | count + 1, handle :: waiting, seen =>
    let target := t.target handle
    if seen.any (·.target = target) then t.walk count waiting seen
    else t.walk count (t.children target ++ waiting) (seen ++ [⟨handle, target⟩])

/-- All targets within a node. Every target is entered once, so there are no more steps than elements. -/
def survey (t : Tree) (id : NodeId) : List Visit :=
  let elements := t.nodes.foldl (fun n node => n + node.body.length) 0
  t.walk (elements + 2) [id] []

end Tree

end Stencil
