import Stencil.Tag.Table
import Stencil.Text.Quoted

/-!
The standard tags: conditions, loops, blocks and their inheritance, inclusion, and texts in
the reader's language.

Blocks with one name share one content. The definition that counts is that of the shallowest template, which
is the most derived one, and among equals the last: when a block closes, either its handle is redirected to
the content that is already known, or it takes that content's place.
-/
namespace Stencil.Tag

open Handler

def specId : ParamSpec := .required "id" .id

def openIf (id : NodeId) : Handler Unit := do
  demand id false [.required "cond" .expr]
  update id fun n =>
    { n with
      opening := "if (" ++ n.param "cond" ++ ") \x7b"
      closing := "\x7d"
      hasElse := false }

/-- The condition in which a node directly stands. -/
def enclosingIf (id : NodeId) (complaint : String) : Handler NodeId := do
  let t ← getTree
  match (t.own id).parent with
  | some parent => if (t.own parent).tag = "if" then pure parent else structural id complaint
  | none => structural id complaint

def placeElseIf (id : NodeId) : Handler Unit := do
  demand id false [.required "cond" .expr]
  let parent ← enclosingIf id "elseif must be in a if block"
  let outer ← own parent
  if outer.hasElse then structural id "elseif can't be after the else"
  else update id fun n => { n with opening := "\x7d else if (" ++ n.param "cond" ++ ") \x7b" }

def placeElse (id : NodeId) : Handler Unit := do
  demand id false []
  let parent ← enclosingIf id "else must be in a if block"
  let outer ← own parent
  if outer.hasElse then structural id "if block already has an else"
  else do
    update id fun n => { n with opening := "\x7d else \x7b" }
    update parent fun n => { n with hasElse := true }

/-- The head of a counting loop; the step has been read, the bounds stand as they were written. -/
def countHead (n : Node) (step : Int64) : String :=
  let var := n.param "var"
  let comparison := if 0 < step then "<=" else ">="
  "for (" ++ var ++ " = " ++ n.param "from" ++ "; " ++ var ++ " " ++ comparison ++ " " ++
    n.param "to" ++ "; " ++ var ++ " += " ++ String.ofList (Decimal.ofInt64 step) ++ ") \x7b"

def openFor (id : NodeId) : Handler Unit := do
  demand id false
    [.required "var" .var, .required "to" .int, .optional "from" .int "0", .optional "step" .int "1"]
  let n ← own id
  let step := (Decimal.readInt64? (n.param "step").toList).getD 0
  if step = 0 then badParameter id "Parameter 'step' must not be zero"
  else update id fun n => { n with opening := countHead n step, closing := "\x7d" }

def eachHead (n : Node) : String :=
  let key := n.param "key"
  let names := if key.isEmpty then n.param "var" else key ++ " => " ++ n.param "var"
  "foreach (" ++ n.param "list" ++ " as " ++ names ++ ") \x7b"

def openForeach (id : NodeId) : Handler Unit := do
  demand id false [.required "list" .expr, .required "var" .var, .optional "key" .var ""]
  update id fun n => { n with opening := eachHead n, closing := "\x7d" }

/-- The block that a node names. -/
def blockName (id : NodeId) : Handler String := do
  let n ← own id
  pure (n.param "id")

def openBlock (id : NodeId) : Handler Unit := do
  demand id false [specId]
  let name ← blockName id
  match ← block? name with
  | none => defineBlock name id
  | some _ => pure ()

def closeBlock (id : NodeId) : Handler Unit := do
  let name ← blockName id
  let depth ← getDepth
  match ← block? name with
  | none => defineBlock name id
  | some known =>
    if known.node = id then pure ()
    else if known.depth < depth then redirect id known.node
    else do
      redirect known.node id
      defineBlock name id

def openBlockdef (id : NodeId) : Handler Unit := demand id false [specId]

/-- The place of the definition stays empty; the content moves to a node of its own. -/
def closeBlockdef (id : NodeId) : Handler Unit := do
  let name ← blockName id
  let depth ← getDepth
  let body ← copy id
  clear id
  match ← block? name with
  | none => defineBlock name body
  | some known =>
    if depth ≤ known.depth then do
      redirect known.node body
      defineBlock name body
    else redirect body known.node

def placePutblock (id : NodeId) : Handler Unit := do
  demand id false [specId]
  let name ← blockName id
  match ← block? name with
  | some known => redirect id known.node
  | none => deferNode id

/-- Where an addition goes. -/
def additionPosition (id : NodeId) : Handler Position := do
  let n ← own id
  match Position.parse (n.param "position") with
  | .ok position => pure position
  | .error reason => badParameter id reason

def openAddblock (id : NodeId) : Handler Unit := do
  demand id false [specId, .optional "position" .text "after"]
  let _ ← additionPosition id
  let name ← blockName id
  match ← block? name with
  | none => defineBlock name id
  | some _ => pure ()

/-- Puts a node into a block; a line break parts it from the content unless its place is given by index. -/
def addToBlock (block addition : NodeId) (position : Position) : Handler Unit :=
  match position with
  | .after => do
    append block (.text "\n")
    append block (.node addition)
  | .before => do
    changeTree (·.insert block (.node addition) .before)
    changeTree (·.insert block (.text "\n") (.index 1))
  | .index i => changeTree (·.insert block (.node addition) (.index i))

def closeAddblock (id : NodeId) : Handler Unit := do
  let name ← blockName id
  match ← block? name with
  | none => pure ()
  | some known =>
    if known.node = id then pure ()
    else do
      let position ← additionPosition id
      let addition ← copy id
      clear id
      addToBlock known.node addition position

def placeExtends (id : NodeId) : Handler Unit := do
  demand id false
    [(ParamSpec.required "name" .text).orComplain "Required name of the template to extend"]
  let n ← own id
  let root ← loadRoot (n.param "name") (some id)
  setRoot root

def placeInclude (id : NodeId) : Handler Unit := do
  demand id false
    [(ParamSpec.required "name" .text).orComplain "Required name of the template to include"]
  let n ← own id
  let root ← loadRoot (n.param "name") (some id)
  clear id
  append id (.node root)

/-- A call that prints a text in the reader's language. -/
def localized (s : String) : String :=
  "echo _(" ++ String.ofList (Text.quoted s.toList) ++ ");"

/-- Puts its content into the reader's language: at once if it is plain text, otherwise when it has been written. -/
def renderLocalized (id : NodeId) : Handler Unit := do
  demand id false []
  let t ← getTree
  let id := t.target id
  match t.text? id with
  | some s => do
    clear id
    append id (.code (localized s))
  | none => update id fun n => { n with opening := "ob_start();", closing := "echo _(ob_get_clean());" }

/-- The tags that every renderer knows. -/
def standard : TagSet where
  name := "base"
  bindings :=
    [⟨"if", .onOpen, openIf⟩, ⟨"elseif", .onOpenClose, placeElseIf⟩, ⟨"else", .onOpenClose, placeElse⟩,
      ⟨"for", .onOpen, openFor⟩, ⟨"foreach", .onOpen, openForeach⟩,
      ⟨"block", .onOpen, openBlock⟩, ⟨"block", .onClose, closeBlock⟩,
      ⟨"blockdef", .onOpen, openBlockdef⟩, ⟨"blockdef", .onClose, closeBlockdef⟩,
      ⟨"putblock", .onOpenClose, placePutblock⟩,
      ⟨"addblock", .onOpen, openAddblock⟩, ⟨"addblock", .onClose, closeAddblock⟩,
      ⟨"extends", .onOpenClose, placeExtends⟩, ⟨"include", .onOpenClose, placeInclude⟩,
      ⟨"t", .onRender, renderLocalized⟩]

end Stencil.Tag
