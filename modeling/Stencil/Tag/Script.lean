import Stencil.Tag.Standard
import Stencil.Text.Search

/-!
Handlers written down as lists of actions, so that a tag can be described instead of programmed. Where an
action carries a text, `%key%` stands for the parameter of that name of the node at hand.
-/
namespace Stencil.Tag

open Handler

inductive Action where
  /-- Sets the code before the node. -/
  | opening (s : String)
  /-- Sets the code behind the node. -/
  | closing (s : String)
  | text (s : String)
  | code (s : String)
  | insert (s position : String)
  | mustClose (b : Bool)
  | clear
  | check (allowOthers : Bool) (specs : List ParamSpec)
  | reject (s : String)
  | rejectParameter (s : String)
  /-- Reads a template and puts its root into the node. -/
  | embed (s : String)
  /-- Reads a template and does nothing with it. -/
  | require (s : String)
  /-- Makes another template the root of the one being read. -/
  | become (s : String)
  /-- Makes the node the root of the template being read. -/
  | becomeHere
  | define (s : String)
  /-- Redirects the node to a block, if there is one of that name. -/
  | redirect (s : String)
  | defer
  /-- Writes how deep the template is nested. -/
  | depth
  /-- Writes a block's name and depth. -/
  | block (s : String)
  /-- Replaces plain text by code that prints it. -/
  | quote
  /-- Replaces the content by its outline. -/
  | outline
  /-- Moves the content into a node of its own inside this one. -/
  | wrap
  /-- Puts the node into itself. -/
  | selfContain

/-- A text with the parameters of a node filled in, one after the other. -/
def fillIn (params : Keyed String) (s : String) : String :=
  String.ofList (params.foldl
    (fun s (key, value) => Text.replace ('%' :: key.toList ++ ['%']) value.toList s) s.toList)

/-- The text of a block's depth. -/
def depthText : Option Block → String
  | some b => toString b.depth
  | none => "none"

def Action.run (id : NodeId) (fill : String → String) : Action → Handler Unit
  | .opening s => update id fun n => { n with opening := fill s }
  | .closing s => update id fun n => { n with closing := fill s }
  | .text s => append id (.text (fill s))
  | .code s => append id (.code (fill s))
  | .insert s position =>
    match Position.parse position with
    | .ok place => changeTree (·.insert id (.text (fill s)) place)
    | .error reason => badParameter id reason
  | .mustClose b => update id fun n => { n with mustClose := b }
  | .clear => Handler.clear id
  | .check allowOthers specs => demand id allowOthers specs
  | .reject s => structural id (fill s)
  | .rejectParameter s => badParameter id (fill s)
  | .embed s => do
    let root ← loadRoot (fill s) (some id)
    append id (.node root)
  | .require s => do
    let _ ← loadRoot (fill s) none
  | .become s => do
    let root ← loadRoot (fill s) (some id)
    setRoot root
  | .becomeHere => setRoot id
  | .define s => defineBlock (fill s) id
  | .redirect s => do
    match ← block? (fill s) with
    | some b => Handler.redirect id b.node
    | none => pure ()
  | .defer => deferNode id
  | .depth => do
    let n ← getDepth
    append id (.text (toString n))
  | .block s => do
    let b ← block? (fill s)
    append id (.text ("[" ++ fill s ++ "@" ++ depthText b ++ "]"))
  | .quote => do
    let t ← getTree
    let s := (t.text? id).getD "not literal"
    Handler.clear id
    append id (.code ("echo " ++ String.ofList (Text.quoted s.toList) ++ ";"))
  | .outline => do
    let t ← getTree
    let s := t.outline id
    Handler.clear id
    append id (.text s)
  | .wrap => do
    let inner ← copy id
    Handler.clear id
    append id (.node inner)
  | .selfContain => append id (.node id)

/-- Carries out the actions in order; each sees the parameters as they are when its turn comes. -/
def script : List Action → NodeHandler
  | [], _ => pure ()
  | action :: actions, id => do
    let n ← own id
    action.run id (fillIn n.params)
    script actions id

end Stencil.Tag
