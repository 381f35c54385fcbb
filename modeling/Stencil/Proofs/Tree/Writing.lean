import Stencil.Proofs.Artifact.LiteralText
import Stencil.Proofs.Compile.Echo

/-!
What a finished tree writes: the pieces of text and code of elements in order, each node at the end of its
redirections and in the form in which it is rendered. The artifact of a root is made of these pieces and of no
others.
-/
namespace Stencil

open Artifact (Segment Written)

namespace Tag

/-- The table of the standard tags. -/
def standardTable : Table := Table.ofSets [standard]

theorem standardTable_eq : standardTable =
    [("if", ⟨some openIf, none, none, none⟩), ("elseif", ⟨none, none, none, some placeElseIf⟩),
      ("else", ⟨none, none, none, some placeElse⟩), ("for", ⟨some openFor, none, none, none⟩),
      ("foreach", ⟨some openForeach, none, none, none⟩),
      ("block", ⟨some openBlock, some closeBlock, none, none⟩),
      ("blockdef", ⟨some openBlockdef, some closeBlockdef, none, none⟩),
      ("putblock", ⟨none, none, none, some placePutblock⟩),
      ("addblock", ⟨some openAddblock, some closeAddblock, none, none⟩),
      ("extends", ⟨none, none, none, some placeExtends⟩), ("include", ⟨none, none, none, some placeInclude⟩),
      ("t", ⟨none, none, some renderLocalized, none⟩)] :=
  rfl

end Tag

/-- A node in the form in which it is written. -/
def Node.rendered (n : Node) : Node :=
  if n.name = some "t" ∧ n.isRoot = false then
    match Tree.bodyText? n.body with
    | some s => { n with opening := "", body := [.code (Tag.localized s)], closing := "" }
    | none => { n with opening := "ob_start();", closing := "echo _(ob_get_clean());" }
  else n

theorem Node.rendered_of_ne {n : Node} (other : n.name ≠ some "t") : n.rendered = n := by
  unfold Node.rendered
  rw [if_neg fun h => other h.1]

theorem Node.rendered_of_root {n : Node} (root : n.isRoot = true) : n.rendered = n := by
  unfold Node.rendered
  rw [if_neg fun h => by rw [root] at h; cases h.2]

/-- Rendering changes only what is written. -/
theorem Node.rendered_keeps (n : Node) :
    n.rendered.name = n.name ∧ n.rendered.standsFor = n.standsFor ∧ n.rendered.isRoot = n.isRoot ∧
      n.rendered.params = n.params := by
  unfold Node.rendered
  split
  · split <;> exact ⟨rfl, rfl, rfl, rfl⟩
  · exact ⟨rfl, rfl, rfl, rfl⟩

namespace Artifact.Segment

/-- A text as a piece; an empty one is none. -/
def ofText (s : String) : List Segment := if s.isEmpty then [] else [.text s.toList]

def ofCode (s : String) : List Segment := if s.isEmpty then [] else [.code s.toList]

end Artifact.Segment

namespace Tree

/-- What a handle shows: the node at the end of its redirections, as it is written. -/
def shown (t : Tree) (id : NodeId) : Node := (t.content id).rendered

/-- These pieces are written for the elements. -/
inductive Writes (t : Tree) : List Element → List Segment → Prop where
  | nil : t.Writes [] []
  | text {s : String} {rest : List Element} {ps : List Segment} : t.Writes rest ps →
      t.Writes (.text s :: rest) (Segment.ofText s ++ ps)
  | code {c : String} {rest : List Element} {ps : List Segment} : t.Writes rest ps →
      t.Writes (.code c :: rest) (Segment.ofCode c ++ ps)
  | node {id : NodeId} {rest : List Element} {inner ps : List Segment} : t.Writes (t.shown id).body inner →
      t.Writes rest ps →
      t.Writes (.node id :: rest)
        (Segment.ofCode (t.shown id).opening ++ inner ++ Segment.ofCode (t.shown id).closing ++ ps)

/-- The same inside nodes that are being written; none of them is written inside itself. -/
inductive WritesInside (t : Tree) : List NodeId → List Element → List Segment → Prop where
  | nil {active : List NodeId} : t.WritesInside active [] []
  | text {active : List NodeId} {s : String} {rest : List Element} {ps : List Segment} :
      t.WritesInside active rest ps → t.WritesInside active (.text s :: rest) (Segment.ofText s ++ ps)
  | code {active : List NodeId} {c : String} {rest : List Element} {ps : List Segment} :
      t.WritesInside active rest ps → t.WritesInside active (.code c :: rest) (Segment.ofCode c ++ ps)
  | node {active : List NodeId} {id : NodeId} {rest : List Element} {inner ps : List Segment}
      (apart : t.target id ∉ active) : t.WritesInside (t.target id :: active) (t.shown id).body inner →
      t.WritesInside active rest ps →
      t.WritesInside active (.node id :: rest)
        (Segment.ofCode (t.shown id).opening ++ inner ++ Segment.ofCode (t.shown id).closing ++ ps)

theorem WritesInside.writes {t : Tree} {active : List NodeId} {body : List Element} {ps : List Segment}
    (inside : t.WritesInside active body ps) : t.Writes body ps := by
  induction inside with
  | nil => exact .nil
  | text _ ih => exact .text ih
  | code _ ih => exact .code ih
  | node _ _ _ ih ihRest => exact .node ih ihRest

end Tree

theorem Artifact.Written.add_append (ps qs : List Segment) (w : Written) :
    Written.add (ps ++ qs) w = Written.add qs (Written.add ps w) := by
  induction ps generalizing w with
  | nil => rfl
  | cons p ps ih => cases p <;> exact ih _

theorem Artifact.Written.add_ofCode (c : String) (w : Written) :
    Written.add (Segment.ofCode c) w = w.addCode c.toList := by
  unfold Segment.ofCode
  by_cases empty : c.isEmpty = true
  · have none : c.toList = [] := by simpa using empty
    rw [if_pos empty, none]
    rfl
  · rw [if_neg empty]
    rfl

theorem Artifact.Written.add_ofText (s : String) (w : Written) :
    Written.add (Segment.ofText s) w = w.addText s.toList := by
  unfold Segment.ofText
  by_cases empty : s.isEmpty = true
  · have none : s.toList = [] := by simpa using empty
    rw [if_pos empty, none]
    rfl
  · rw [if_neg empty]
    rfl

end Stencil
