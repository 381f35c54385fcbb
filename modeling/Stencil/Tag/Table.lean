import Stencil.Tag.Handler

/-!
Which handler answers for which tag in which phase. Tag sets are bound one after the other, and a later
binding of the same tag and phase replaces an earlier one.
-/
namespace Stencil.Tag

inductive Phase where
  | onOpen
  | onClose
  /-- When the content is written, once for every node. -/
  | onRender
  /-- In place of the opening, for a tag that is not closed. -/
  | onOpenClose
  deriving DecidableEq

abbrev NodeHandler := NodeId → Handler Unit

structure Handlers where
  onOpen : Option NodeHandler
  onClose : Option NodeHandler
  onRender : Option NodeHandler
  onOpenClose : Option NodeHandler

def Handlers.empty : Handlers := ⟨none, none, none, none⟩

def Handlers.get (hs : Handlers) : Phase → Option NodeHandler
  | .onOpen => hs.onOpen
  | .onClose => hs.onClose
  | .onRender => hs.onRender
  | .onOpenClose => hs.onOpenClose

def Handlers.set (hs : Handlers) (phase : Phase) (h : NodeHandler) : Handlers :=
  match phase with
  | .onOpen => { hs with onOpen := some h }
  | .onClose => { hs with onClose := some h }
  | .onRender => { hs with onRender := some h }
  | .onOpenClose => { hs with onOpenClose := some h }

structure Binding where
  tag : String
  phase : Phase
  handler : NodeHandler

/-- A named collection of tags that can be added to a renderer. -/
structure TagSet where
  name : String
  bindings : List Binding

abbrev Table := Keyed Handlers

namespace Table

def bind (table : Table) (b : Binding) : Table :=
  Keyed.put b.tag (((Keyed.get? b.tag table).getD Handlers.empty).set b.phase b.handler) table

def ofSets (sets : List TagSet) : Table := (sets.flatMap (·.bindings)).foldl bind []

/-- The tags that have handlers, in order. -/
def tags (table : Table) : List String := (Keyed.keys table).mergeSort fun a b => !(b < a)

end Table

end Stencil.Tag
