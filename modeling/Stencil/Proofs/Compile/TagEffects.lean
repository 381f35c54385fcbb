import Stencil.Proofs.Compile.Generation

/-!
What the standard tags do to a compilation when they open and close. A tag that opens has a new node of its own;
the code before and behind the node is told by its tag and its parameters.
-/
namespace Stencil

open Tag

/-- The code before and behind a node of a standard tag. -/
def Node.framing (n : Node) : String × String :=
  match n.tag with
  | "if" => ("if (" ++ n.param "cond" ++ ") \x7b", "\x7d")
  | "elseif" => ("\x7d else if (" ++ n.param "cond" ++ ") \x7b", "")
  | "else" => ("\x7d else \x7b", "")
  | "for" => (countHead n ((Decimal.readInt64? (n.param "step").toList).getD 0), "\x7d")
  | "foreach" => (eachHead n, "\x7d")
  | _ => ("", "")

section Framing

variable {n : Node}

theorem Node.framing_if (tag : n.tag = "if") : n.framing = ("if (" ++ n.param "cond" ++ ") \x7b", "\x7d") := by
  unfold Node.framing
  rw [tag]
  rfl

theorem Node.framing_elseif (tag : n.tag = "elseif") :
    n.framing = ("\x7d else if (" ++ n.param "cond" ++ ") \x7b", "") := by
  unfold Node.framing
  rw [tag]
  rfl

theorem Node.framing_else (tag : n.tag = "else") : n.framing = ("\x7d else \x7b", "") := by
  unfold Node.framing
  rw [tag]
  rfl

theorem Node.framing_for (tag : n.tag = "for") :
    n.framing = (countHead n ((Decimal.readInt64? (n.param "step").toList).getD 0), "\x7d") := by
  unfold Node.framing
  rw [tag]
  rfl

theorem Node.framing_foreach (tag : n.tag = "foreach") : n.framing = (eachHead n, "\x7d") := by
  unfold Node.framing
  rw [tag]
  rfl

end Framing

def Node.withParams (params : Keyed String) (n : Node) : Node := { n with params := params }

def Node.framed (n : Node) : Node := { n with opening := n.framing.1, closing := n.framing.2 }

/-- What a standard tag that is not written in a language demands of its parameters. -/
def Tag.demands (tag : String) : List ParamSpec :=
  match tag with
  | "if" | "elseif" => [.required "cond" .expr]
  | "for" => [.required "var" .var, .required "to" .int, .optional "from" .int "0", .optional "step" .int "1"]
  | "foreach" => [.required "list" .expr, .required "var" .var, .optional "key" .var ""]
  | "block" | "blockdef" | "putblock" => [specId]
  | "extends" => [(ParamSpec.required "name" .text).orComplain "Required name of the template to extend"]
  | "include" => [(ParamSpec.required "name" .text).orComplain "Required name of the template to include"]
  | _ => []

/-- The node of a tag when it opens; `stands` tells whether the tag has to be closed. -/
def Node.opened (file : String) (line : Nat) (parent : NodeId) (head : Markup.Head) (stands : Bool) : Node :=
  { Node.fresh file line with
    parent := some parent
    name := some head.name
    params := head.params
    mustClose := stands }

namespace Compile

variable {W : Type} {load : Loader W} {s s' : CompileState W} {n : Node}

/-- A state with a new node. -/
def withNode (s : CompileState W) (n : Node) : CompileState W := { s with tree := (s.tree.push n).2 }

theorem own_withNode (s : CompileState W) (n : Node) : (withNode s n).tree.own ⟨s.tree.size⟩ = n := by
  show (s.tree.push n).2.own ⟨s.tree.size⟩ = n
  rw [Tree.own_push, if_pos rfl]

theorem update_withNode (s : CompileState W) (n : Node) (f : Node → Node) :
    { withNode s n with tree := (withNode s n).tree.update ⟨s.tree.size⟩ f } = withNode s (f n) := by
  have same : (withNode s n).tree.update ⟨s.tree.size⟩ f = (s.tree.push (f n)).2 := Tree.update_push ..
  rw [same]
  rfl

/-- The parameters that a tag has after its demands are met. -/
def Checked (n : Node) (allowOthers : Bool) (specs : List ParamSpec) (params : Keyed String) : Prop :=
  Tag.checkParams ⟨n.tag, n.file, n.line⟩ allowOthers specs n.params = .ok params

theorem demand_fresh {allowOthers : Bool} {specs : List ParamSpec}
    (run : carryOut load (Handler.demand ⟨s.tree.size⟩ allowOthers specs) (withNode s n) = (.ok (), s')) :
    ∃ params, Checked n allowOthers specs params ∧ s' = withNode s (n.withParams params) := by
  obtain ⟨params, checked, same⟩ := demand_ok run
  refine ⟨params, ?_, ?_⟩
  · unfold Tree.site at checked
    rw [own_withNode] at checked
    exact checked
  · rw [same]
    exact update_withNode s n _

theorem update_fresh (f : Node → Node) :
    carryOut load (Handler.update ⟨s.tree.size⟩ f) (withNode s n) = (.ok (), withNode s (f n)) := by
  rw [carryOut_update, update_withNode]

theorem demand_of_checked {allowOthers : Bool} {specs : List ParamSpec} {params : Keyed String}
    (checked : Checked n allowOthers specs params) :
    carryOut load (Handler.demand ⟨s.tree.size⟩ allowOthers specs) (withNode s n) =
      (.ok (), withNode s (n.withParams params)) := by
  unfold Handler.demand
  rw [carryOut_after carryOut_getTree]
  have met : Tag.checkParams ((withNode s n).tree.site ⟨s.tree.size⟩) allowOthers specs
      ((withNode s n).tree.own ⟨s.tree.size⟩).params = .ok params := by
    unfold Tree.site
    rw [own_withNode]
    exact checked
  rw [met]
  have passed : carryOut load (Handler.ofExcept (.ok params)) (withNode s n) = (.ok params, withNode s n) := rfl
  rw [carryOut_after passed]
  exact update_fresh _

theorem own_fresh : carryOut load (Handler.own ⟨s.tree.size⟩) (withNode s n) = (.ok n, withNode s n) := by
  rw [carryOut_own, own_withNode]

theorem framed_of {code : String × String} (framing : n.framing = code) :
    n.framed = { n with opening := code.1, closing := code.2 } := by
  unfold Node.framed
  rw [framing]

section Opening

theorem openIf_ok (name : n.tag = "if") (plain : n.hasElse = false)
    (run : carryOut load (openIf ⟨s.tree.size⟩) (withNode s n) = (.ok (), s')) :
    ∃ params, Checked n false (demands "if") params ∧ s' = withNode s (n.withParams params).framed := by
  obtain ⟨_, t, demanded, run⟩ := carryOut_bind_ok run
  obtain ⟨params, checked, rfl⟩ := demand_fresh demanded
  refine ⟨params, checked, ?_⟩
  rw [update_fresh] at run
  cases run
  have framing := Node.framing_if (n := n.withParams params) name
  rw [framed_of framing, ← plain]
  rfl

theorem openFor_ok (name : n.tag = "for")
    (run : carryOut load (openFor ⟨s.tree.size⟩) (withNode s n) = (.ok (), s')) :
    ∃ params, Checked n false (demands "for") params ∧
      (Decimal.readInt64? ((n.withParams params).param "step").toList).getD 0 ≠ 0 ∧
      s' = withNode s (n.withParams params).framed := by
  obtain ⟨_, t, demanded, run⟩ := carryOut_bind_ok run
  obtain ⟨params, checked, rfl⟩ := demand_fresh demanded
  rw [carryOut_after own_fresh] at run
  dsimp only at run
  by_cases zero : (Decimal.readInt64? ((n.withParams params).param "step").toList).getD 0 = 0
  · rw [if_pos zero] at run
    cases run
  · rw [if_neg zero, update_fresh] at run
    cases run
    refine ⟨params, checked, zero, ?_⟩
    have framing := Node.framing_for (n := n.withParams params) name
    rw [framed_of framing]

theorem openForeach_ok (name : n.tag = "foreach")
    (run : carryOut load (openForeach ⟨s.tree.size⟩) (withNode s n) = (.ok (), s')) :
    ∃ params, Checked n false (demands "foreach") params ∧ s' = withNode s (n.withParams params).framed := by
  obtain ⟨_, t, demanded, run⟩ := carryOut_bind_ok run
  obtain ⟨params, checked, rfl⟩ := demand_fresh demanded
  refine ⟨params, checked, ?_⟩
  rw [update_fresh] at run
  cases run
  have framing := Node.framing_foreach (n := n.withParams params) name
  rw [framed_of framing]

theorem blockName_fresh :
    carryOut load (blockName ⟨s.tree.size⟩) (withNode s n) = (.ok (n.param "id"), withNode s n) := by
  unfold blockName
  rw [carryOut_after own_fresh]
  rfl

/-- The state after a block with a new node has opened. -/
def blockOpened (n : Node) (s : CompileState W) : CompileState W :=
  match Keyed.get? (n.param "id") s.blocks with
  | none => { withNode s n with
      blocks := Keyed.put (n.param "id") ⟨⟨s.tree.size⟩, s.frames.length⟩ s.blocks }
  | some _ => withNode s n

theorem openBlock_ok
    (run : carryOut load (openBlock ⟨s.tree.size⟩) (withNode s n) = (.ok (), s')) :
    ∃ params, Checked n false [specId] params ∧ s' = blockOpened (n.withParams params) s := by
  obtain ⟨_, t, demanded, run⟩ := carryOut_bind_ok run
  obtain ⟨params, checked, rfl⟩ := demand_fresh demanded
  refine ⟨params, checked, ?_⟩
  unfold blockOpened
  rw [carryOut_after blockName_fresh, carryOut_after (carryOut_block? _)] at run
  have blocks : (withNode s (n.withParams params)).blocks = s.blocks := rfl
  rw [blocks] at run
  cases known : Keyed.get? ((n.withParams params).param "id") s.blocks with
  | none =>
    rw [known] at run
    cases run
    rfl
  | some b =>
    rw [known] at run
    cases run
    rfl

/-- What an addition to a block demands of its parameters. -/
def additionSpecs : List ParamSpec := [specId, .optional "position" .text "after"]

theorem additionPosition_ok {id : NodeId} {position : Position}
    (run : carryOut load (additionPosition id) s = (.ok position, s')) :
    s' = s ∧ Position.parse ((s.tree.own id).param "position") = .ok position := by
  unfold additionPosition at run
  rw [carryOut_after carryOut_own] at run
  cases placed : Position.parse ((s.tree.own id).param "position") with
  | ok found =>
    rw [placed] at run
    cases run
    exact ⟨rfl, rfl⟩
  | error reason =>
    rw [placed] at run
    cases run

/-- An addition opens like a block, once it is known where it goes. -/
theorem openAddblock_ok
    (run : carryOut load (openAddblock ⟨s.tree.size⟩) (withNode s n) = (.ok (), s')) :
    ∃ params position, Checked n false additionSpecs params ∧
      Position.parse ((n.withParams params).param "position") = .ok position ∧
      s' = blockOpened (n.withParams params) s := by
  obtain ⟨_, t, demanded, run⟩ := carryOut_bind_ok run
  obtain ⟨params, checked, rfl⟩ := demand_fresh demanded
  obtain ⟨position, t, found, run⟩ := carryOut_bind_ok run
  obtain ⟨rfl, placed⟩ := additionPosition_ok found
  rw [own_withNode] at placed
  refine ⟨params, position, checked, placed, ?_⟩
  unfold blockOpened
  rw [carryOut_after blockName_fresh, carryOut_after (carryOut_block? _)] at run
  have blocks : (withNode s (n.withParams params)).blocks = s.blocks := rfl
  rw [blocks] at run
  cases known : Keyed.get? ((n.withParams params).param "id") s.blocks with
  | none =>
    rw [known] at run
    cases run
    rfl
  | some b =>
    rw [known] at run
    cases run
    rfl

/-- The state after a reference to a block has come. -/
def putblockPlaced (n : Node) (s : CompileState W) : CompileState W :=
  match Keyed.get? (n.param "id") s.blocks with
  | none => { withNode s n with deferred := s.deferred ++ [⟨s.tree.size⟩] }
  | some b => { withNode s n with tree := (withNode s n).tree.redirect ⟨s.tree.size⟩ b.node }

theorem placePutblock_ok
    (run : carryOut load (placePutblock ⟨s.tree.size⟩) (withNode s n) = (.ok (), s')) :
    ∃ params, Checked n false [specId] params ∧ s' = putblockPlaced (n.withParams params) s := by
  obtain ⟨_, t, demanded, run⟩ := carryOut_bind_ok run
  obtain ⟨params, checked, rfl⟩ := demand_fresh demanded
  refine ⟨params, checked, ?_⟩
  unfold putblockPlaced
  rw [carryOut_after blockName_fresh, carryOut_after (carryOut_block? _)] at run
  have blocks : (withNode s (n.withParams params)).blocks = s.blocks := rfl
  rw [blocks] at run
  cases known : Keyed.get? ((n.withParams params).param "id") s.blocks with
  | none =>
    rw [known] at run
    cases run
    rfl
  | some b =>
    rw [known] at run
    cases run
    rfl

/-- The condition in which a new node stands. -/
theorem enclosingIf_ok {complaint : String} {parent found : NodeId} (inside : n.parent = some parent)
    (old : parent.index < s.tree.size)
    (run : carryOut load (enclosingIf ⟨s.tree.size⟩ complaint) (withNode s n) = (.ok found, s')) :
    found = parent ∧ s' = withNode s n ∧ (s.tree.own parent).tag = "if" := by
  unfold enclosingIf at run
  rw [carryOut_after carryOut_getTree, own_withNode, inside] at run
  dsimp only at run
  have own : (withNode s n).tree.own parent = s.tree.own parent := by
    show (s.tree.push n).2.own parent = _
    rw [Tree.own_push, if_neg (Nat.ne_of_lt old)]
  rw [own] at run
  by_cases tag : (s.tree.own parent).tag = "if"
  · rw [if_pos tag] at run
    cases run
    exact ⟨rfl, rfl, tag⟩
  · rw [if_neg tag] at run
    cases run

theorem own_old {parent : NodeId} (old : parent.index < s.tree.size) :
    (withNode s n).tree.own parent = s.tree.own parent := by
  show (s.tree.push n).2.own parent = _
  rw [Tree.own_push, if_neg (Nat.ne_of_lt old)]

theorem placeElseIf_ok {parent : NodeId} (name : n.tag = "elseif") (inside : n.parent = some parent)
    (old : parent.index < s.tree.size) (closing : n.closing = "")
    (run : carryOut load (placeElseIf ⟨s.tree.size⟩) (withNode s n) = (.ok (), s')) :
    ∃ params, Checked n false (demands "elseif") params ∧ (s.tree.own parent).tag = "if" ∧
      (s.tree.own parent).hasElse = false ∧ s' = withNode s (n.withParams params).framed := by
  obtain ⟨_, t, demanded, run⟩ := carryOut_bind_ok run
  obtain ⟨params, checked, rfl⟩ := demand_fresh demanded
  obtain ⟨found, t, enclosed, run⟩ := carryOut_bind_ok run
  have inside' : (n.withParams params).parent = some parent := inside
  obtain ⟨rfl, rfl, tag⟩ := enclosingIf_ok inside' old enclosed
  rw [carryOut_after carryOut_own, own_old old] at run
  by_cases late : (s.tree.own found).hasElse = true
  · rw [if_pos late] at run
    cases run
  · rw [if_neg late, update_fresh] at run
    cases run
    refine ⟨params, checked, tag, by simpa using late, ?_⟩
    have framing := Node.framing_elseif (n := n.withParams params) name
    rw [framed_of framing, ← closing]
    rfl

/-- The state after a condition has got its last branch. -/
def noteElse (id : NodeId) (s : CompileState W) : CompileState W :=
  { s with tree := s.tree.update id fun n => { n with hasElse := true } }

theorem placeElse_ok {parent : NodeId} (name : n.tag = "else") (inside : n.parent = some parent)
    (old : parent.index < s.tree.size) (closing : n.closing = "")
    (run : carryOut load (placeElse ⟨s.tree.size⟩) (withNode s n) = (.ok (), s')) :
    ∃ params, Checked n false [] params ∧ (s.tree.own parent).tag = "if" ∧
      (s.tree.own parent).hasElse = false ∧
      s' = noteElse parent (withNode s (n.withParams params).framed) := by
  obtain ⟨_, t, demanded, run⟩ := carryOut_bind_ok run
  obtain ⟨params, checked, rfl⟩ := demand_fresh demanded
  obtain ⟨found, t, enclosed, run⟩ := carryOut_bind_ok run
  have inside' : (n.withParams params).parent = some parent := inside
  obtain ⟨rfl, rfl, tag⟩ := enclosingIf_ok inside' old enclosed
  rw [carryOut_after carryOut_own, own_old old] at run
  by_cases late : (s.tree.own found).hasElse = true
  · rw [if_pos late] at run
    cases run
  · rw [if_neg late, carryOut_after (update_fresh _)] at run
    cases run
    refine ⟨params, checked, tag, by simpa using late, ?_⟩
    have framing := Node.framing_else (n := n.withParams params) name
    rw [framed_of framing, ← closing]
    rfl

end Opening

section Closing

/-- The state after a block has closed. -/
def blockClosed (id : NodeId) (s : CompileState W) : CompileState W :=
  let name := (s.tree.own id).param "id"
  let depth := s.frames.length
  match Keyed.get? name s.blocks with
  | none => { s with blocks := Keyed.put name ⟨id, depth⟩ s.blocks }
  | some known =>
    if known.node = id then s
    else if known.depth < depth then { s with tree := s.tree.redirect id known.node }
    else { s with
      tree := s.tree.redirect known.node id
      blocks := Keyed.put name ⟨id, depth⟩ s.blocks }

theorem closeBlock_eq (id : NodeId) (s : CompileState W) :
    carryOut load (closeBlock id) s = (.ok (), blockClosed id s) := by
  unfold closeBlock blockClosed
  have name : carryOut load (blockName id) s = (.ok ((s.tree.own id).param "id"), s) := rfl
  rw [carryOut_after name, carryOut_after carryOut_getDepth, carryOut_after (carryOut_block? _)]
  dsimp only
  cases Keyed.get? ((s.tree.own id).param "id") s.blocks with
  | none => rfl
  | some known =>
    dsimp only
    by_cases same : known.node = id
    · rw [if_pos same, if_pos same]
      rfl
    · rw [if_neg same, if_neg same]
      by_cases deeper : known.depth < s.frames.length
      · rw [if_pos deeper, if_pos deeper]
        rfl
      · rw [if_neg deeper, if_neg deeper]
        rfl

/-- The tree after the content of a definition has moved to a new node. -/
def movedOut (id : NodeId) (t : Tree) : Tree := (t.copy id).2.clear id

/-- The state after a definition of a block has closed. -/
def blockdefClosed (id : NodeId) (s : CompileState W) : CompileState W :=
  let name := (s.tree.own id).param "id"
  let depth := s.frames.length
  let body : NodeId := ⟨s.tree.size⟩
  let t := movedOut id s.tree
  match Keyed.get? name s.blocks with
  | none => { s with tree := t, blocks := Keyed.put name ⟨body, depth⟩ s.blocks }
  | some known =>
    if depth ≤ known.depth then
      { s with tree := t.redirect known.node body, blocks := Keyed.put name ⟨body, depth⟩ s.blocks }
    else { s with tree := t.redirect body known.node }

theorem closeBlockdef_eq (id : NodeId) (s : CompileState W) :
    carryOut load (closeBlockdef id) s = (.ok (), blockdefClosed id s) := by
  unfold closeBlockdef blockdefClosed
  have name : carryOut load (blockName id) s = (.ok ((s.tree.own id).param "id"), s) := rfl
  have cleared : carryOut load (Handler.clear id) { s with tree := (s.tree.copy id).2 } =
      (.ok (), { s with tree := movedOut id s.tree }) := rfl
  rw [carryOut_after name, carryOut_after carryOut_getDepth, carryOut_after carryOut_copy, carryOut_after cleared,
    carryOut_after (carryOut_block? _)]
  dsimp only
  cases Keyed.get? ((s.tree.own id).param "id") s.blocks with
  | none => rfl
  | some known =>
    dsimp only
    by_cases deeper : s.frames.length ≤ known.depth
    · rw [if_pos deeper, if_pos deeper]
      rfl
    · rw [if_neg deeper, if_neg deeper]
      rfl

/-- The tree after a node has been put into a block. -/
def added (block addition : NodeId) (position : Position) (t : Tree) : Tree :=
  match position with
  | .after => (t.append block (.text "\n")).append block (.node addition)
  | .before => (t.insert block (.node addition) .before).insert block (.text "\n") (.index 1)
  | .index i => t.insert block (.node addition) (.index i)

theorem addToBlock_eq (block addition : NodeId) (position : Position) (s : CompileState W) :
    carryOut load (addToBlock block addition position) s =
      (.ok (), { s with tree := added block addition position s.tree }) := by
  cases position <;> rfl

/-- The state after an addition to a block has closed. -/
def addblockClosed (position : Position) (id : NodeId) (s : CompileState W) : CompileState W :=
  match Keyed.get? ((s.tree.own id).param "id") s.blocks with
  | none => s
  | some known =>
    if known.node = id then s
    else { s with tree := added known.node ⟨s.tree.size⟩ position (movedOut id s.tree) }

/-- What is added to another node goes where the parameter says. -/
def Goes (id : NodeId) (position : Position) (s : CompileState W) : Prop :=
  ∀ b, Keyed.get? ((s.tree.own id).param "id") s.blocks = some b → b.node ≠ id →
    Position.parse ((s.tree.own id).param "position") = .ok position

theorem closeAddblock_ok {id : NodeId} (run : carryOut load (closeAddblock id) s = (.ok (), s')) :
    ∃ position, Goes id position s ∧ s' = addblockClosed position id s := by
  unfold closeAddblock at run
  have name : carryOut load (blockName id) s = (.ok ((s.tree.own id).param "id"), s) := rfl
  rw [carryOut_after name, carryOut_after (carryOut_block? _)] at run
  unfold addblockClosed
  cases known : Keyed.get? ((s.tree.own id).param "id") s.blocks with
  | none =>
    rw [known] at run
    cases run
    exact ⟨.after, fun b found => (by cases known.symm.trans found), rfl⟩
  | some b =>
    rw [known] at run
    dsimp only at run ⊢
    by_cases same : b.node = id
    · rw [if_pos same] at run
      cases run
      refine ⟨.after, fun b' found apart => ?_, if_pos same |>.symm⟩
      cases known.symm.trans found
      exact absurd same apart
    · rw [if_neg same] at run
      obtain ⟨position, t, found, moved⟩ := carryOut_bind_ok run
      obtain ⟨same', placed⟩ := additionPosition_ok found
      subst same'
      have cleared : carryOut load (Handler.clear id) { t with tree := (t.tree.copy id).2 } =
          (.ok (), { t with tree := movedOut id t.tree }) := rfl
      rw [carryOut_after carryOut_copy, carryOut_after cleared, addToBlock_eq] at moved
      cases moved
      exact ⟨position, fun _ _ _ => placed, if_neg same |>.symm⟩

end Closing

end Compile

end Stencil
