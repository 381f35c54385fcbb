import Stencil.Proofs.Artifact.CountCode
import Stencil.Proofs.Compile.LegibleSources
import Stencil.Proofs.Compile.Texts
import Stencil.Proofs.Run.Counting
import Stencil.Proofs.Tree.Composition

/-!
A source that is one loop over numbers with text in it: whatever its handler accepts is compiled. The program writes
the text once for each number of the range, unless a bound is spelled with a plus sign or a number is the least of 64
bits; then there is no program.
-/
namespace Stencil

open Tag
open Artifact (Segment Written Stmt)

namespace Markup

/-- A parameter as it is written, or what stands for it. -/
def Head.value (head : Head) (key default : String) : String := (Keyed.get? key head.params).getD default

/-- The numbers that the tag of a loop names. -/
structure Head.Ranges (head : Head) (first last step : Int64) : Prop where
  from' : Decimal.readInt64? (head.value "from" "0").toList = some first
  to' : Decimal.readInt64? (head.value "to" "").toList = some last
  step : Decimal.readInt64? (head.value "step" "1").toList = some step

/-- The pieces of a source are one tag with text in it. -/
def IsTagAround (pieces : List Token) (head : Head) (text : String) : Prop :=
  ∃ opening texts closing, pieces = opening :: (texts ++ [closing]) ∧
    opening.kind = .openTag ∧ Head.parse opening.content = .ok head ∧
    (∀ t ∈ texts, t.kind = .text) ∧ text = String.join (texts.map fun t => String.ofList t.content) ∧
    closing.kind = .closeTag ∧ String.ofList closing.content = head.name

end Markup

/-- A handler accepts parameters if it succeeds at a node that has them. -/
def Tag.Accepts (handler : NodeHandler) (params : Keyed String) : Prop :=
  ∃ (s : CompileState Unit) (id : NodeId), id.index < s.tree.size ∧ (s.tree.own id).params = params ∧
    (Compile.carryOut Compile.noLoad (handler id) s).1 = .ok ()

/-! ### What is accepted -/

namespace Tag

variable {specs : List ParamSpec} {params params' : Keyed String}

theorem apply_anywhere {spec : ParamSpec} {site : Site} (run : spec.apply site params = .ok params') (other : Site) :
    spec.apply other params = .ok params' := by
  unfold ParamSpec.apply at run ⊢
  split at run
  · split at run
    · exact run
    · cases run
  · split at run
    · rename_i admits
      rw [if_pos admits]
      exact run
    · cases run

theorem applyAll_anywhere {site : Site} (run : applyAll site specs params = .ok params') (other : Site) :
    applyAll other specs params = .ok params' := by
  induction specs generalizing params with
  | nil => exact run
  | cons spec specs ih =>
    unfold applyAll at run ⊢
    cases first : spec.apply site params with
    | error e =>
      rw [first] at run
      cases run
    | ok params₁ =>
      rw [first] at run
      rw [apply_anywhere first other]
      exact ih run

/-- Where the parameters stand does not matter for their check. -/
theorem checkParams_anywhere {site : Site} {allowOthers : Bool}
    (run : checkParams site allowOthers specs params = .ok params') (other : Site) :
    checkParams other allowOthers specs params = .ok params' := by
  have applied := applyAll_of_checkParams run
  unfold checkParams at run ⊢
  rw [applied] at run
  rw [applyAll_anywhere applied other]
  dsimp only at run ⊢
  generalize (if allowOthers = true then [] else undeclared specs params') = others at run ⊢
  cases others with
  | nil => rfl
  | cons key others => cases run

end Tag

namespace Compile

variable {W : Type} {load : Loader W} {s : CompileState W} {n : Node}

/-- A node at which a loop over numbers has opened. -/
theorem openFor_sets {s' : CompileState W} {id : NodeId} (old : id.index < s.tree.size)
    (run : carryOut load (openFor id) s = (.ok (), s')) :
    let n := s'.tree.own id
    checkParams (s.tree.site id) false (demands "for") (s.tree.own id).params = .ok n.params ∧ n.number "step" ≠ 0 ∧
      n.opening = countHead n (n.number "step") ∧ n.closing = "\x7d" := by
  obtain ⟨_, t, demanded, run⟩ := carryOut_bind_ok run
  obtain ⟨params, checked, rfl⟩ := demand_ok demanded
  rw [carryOut_after carryOut_own] at run
  dsimp only at run
  rw [Tree.own_update_self old] at run
  split at run
  · cases run
  · rename_i nonzero
    rw [carryOut_update] at run
    cases run
    have large : id.index < (s.tree.update id fun n => { n with params := params }).size := by
      rw [Tree.size_update]
      exact old
    dsimp only
    rw [Tree.own_update_self large, Tree.own_update_self old]
    refine ⟨checked, ?_, ?_, rfl⟩
    · unfold Node.number Node.param
      exact nonzero
    · unfold countHead Node.number Node.param
      rfl

theorem exists_checked_of_accepts {params : Keyed String} (accepted : Tag.Accepts openFor params) :
    ∃ checked, (∀ n : Node, n.params = params → Checked n false (demands "for") checked) ∧
      (Decimal.readInt64? ((Keyed.get? "step" checked).getD "").toList).getD 0 ≠ 0 := by
  obtain ⟨s, id, small, rfl, run⟩ := accepted
  have whole : carryOut noLoad (openFor id) s = (.ok (), (carryOut noLoad (openFor id) s).2) := Prod.ext run rfl
  obtain ⟨met, nonzero, -⟩ := openFor_sets small whole
  refine ⟨_, fun n same => ?_, nonzero⟩
  unfold Checked
  rw [same]
  exact checkParams_anywhere met _

theorem openFor_of_checked {params : Keyed String} (tag : n.tag = "for") (checked : Checked n false (demands "for") params)
    (nonzero : (Decimal.readInt64? ((n.withParams params).param "step").toList).getD 0 ≠ 0) :
    carryOut load (openFor ⟨s.tree.size⟩) (withNode s n) = (.ok (), withNode s (n.withParams params).framed) := by
  have demanded : carryOut load (Handler.demand ⟨s.tree.size⟩ false (demands "for")) (withNode s n) = _ :=
    demand_of_checked checked
  refine (carryOut_after demanded).trans ?_
  rw [carryOut_after own_fresh]
  dsimp only
  rw [if_neg nonzero, update_fresh]
  have framing := Node.framing_for (n := n.withParams params) tag
  rw [framed_of framing]

/-! ### The tree of the source -/

variable {file : String}

theorem putOpen_for {line : Nat} {content : List Char} {head : Markup.Head} {top : NodeId} {below : List NodeId}
    {params : Keyed String} (parsed : Markup.Head.parse content = .ok head) (tag : head.name = "for")
    (checked : Checked (Node.opened file line top head true) false (demands "for") params)
    (nonzero : (Decimal.readInt64? ((Keyed.get? "step" params).getD "").toList).getD 0 ≠ 0) :
    putOpen standardTable load file line content top below s =
      (.ok (⟨s.tree.size⟩ :: top :: below), withNode s (tagNode file line top head true params)) := by
  have opened : carryOut load (openFor ⟨s.tree.size⟩) (withNode s (Node.opened file line top head true)) =
      (.ok (), withNode s (tagNode file line top head true params)) := openFor_of_checked tag checked nonzero
  have dispatched : dispatch standardTable load ⟨s.tree.size⟩ .onOpen (withNode s (Node.opened file line top head true)) =
      (.ok (), withNode s (tagNode file line top head true params)) := by
    unfold dispatch
    rw [bind_apply, getTree_apply]
    dsimp only
    rw [own_withNode]
    have name : (Node.opened file line top head true).name = some "for" := congrArg some tag
    have found : Keyed.get? "for" standardTable = some ⟨some openFor, none, none, none⟩ := rfl
    rw [name]
    dsimp only
    rw [found]
    exact opened
  unfold putOpen
  rw [bind_apply, createChild_eq]
  dsimp only
  rw [parsed]
  dsimp only
  rw [bind_apply, changeTree_fresh]
  dsimp only
  rw [bind_apply]
  have named : withNode s { Node.fresh file line with parent := some top, name := some head.name, params := head.params } =
      withNode s (Node.opened file line top head true) := rfl
  rw [named, dispatched]
  dsimp only
  rw [bind_apply, getTree_apply]
  dsimp only
  rw [own_withNode]
  rfl

theorem putClose_for {line : Nat} {found : String} {top parent : NodeId} {below : List NodeId}
    (name : (s.tree.own top).name = some "for") (inner : (s.tree.own top).isRoot = false) (same : found = "for") :
    putClose standardTable load file line found top (parent :: below) s =
      (.ok (parent :: below), attach parent (.node top) s) := by
  have tag := Node.tag_of_name name
  have dispatched : dispatch standardTable load top .onClose s = (.ok (), s) := by
    unfold dispatch
    rw [bind_apply, getTree_apply]
    dsimp only
    rw [name]
    rfl
  unfold putClose
  rw [bind_apply, getTree_apply]
  dsimp only
  rw [if_neg (by rw [inner, tag, same]; simp), bind_apply, dispatched]
  rfl

/-- The tree of a loop with texts in it. -/
def loopTree (file : String) (line : Nat) (head : Markup.Head) (params : Keyed String) (texts : List Element) : Tree :=
  let root : Node := { Node.fresh file 1 with isRoot := true }
  ((Tree.empty.push { root with body := [.node ⟨1⟩] }).2.push
    { tagNode file line ⟨0⟩ head true params with body := texts }).2

theorem build_loop {opening closing : Markup.Token} {texts : List Markup.Token} {head : Markup.Head}
    {params : Keyed String} (opens : opening.kind = .openTag) (parsed : Markup.Head.parse opening.content = .ok head)
    (areTexts : ∀ t ∈ texts, t.kind = .text) (closes : closing.kind = .closeTag)
    (matches' : String.ofList closing.content = head.name) (tag : head.name = "for")
    (checked : Checked (Node.opened file opening.line ⟨0⟩ head true) false (demands "for") params)
    (nonzero : (Decimal.readInt64? ((Keyed.get? "step" params).getD "").toList).getD 0 ≠ 0)
    (empty : s.tree = Tree.empty) :
    build standardTable load file ⟨0⟩ (opening :: (texts ++ [closing]))
        (withNode s { Node.fresh file 1 with isRoot := true }) =
      (.ok (), { s with
        tree := loopTree file opening.line head params (texts.map fun t => .text (String.ofList t.content)) }) := by
  let root : Node := { Node.fresh file 1 with isRoot := true }
  have size : (withNode s root).tree.size = 1 := by
    show (s.tree.push root).2.size = 1
    rw [Tree.size_push, empty]
    rfl
  let n : Node := tagNode file opening.line ⟨0⟩ head true params
  have first : put standardTable load file [⟨0⟩] opening (withNode s root) =
      (.ok [⟨1⟩, ⟨0⟩], withNode (withNode s root) n) := by
    have opened : putOpen standardTable load file opening.line opening.content ⟨0⟩ [] (withNode s root) = _ :=
      putOpen_for parsed tag checked nonzero
    rw [size] at opened
    unfold put
    dsimp only
    rw [opens]
    exact opened
  have inside : texts.foldlM (put standardTable load file) (⟨(withNode s root).tree.size⟩ :: [⟨0⟩])
      (withNode (withNode s root) n) = _ := put_texts areTexts rfl [⟨0⟩]
  rw [size] at inside
  let n' : Node := { n with body := n.body ++ texts.map fun t => .text (String.ofList t.content) }
  have last : put standardTable load file [⟨1⟩, ⟨0⟩] closing (withNode (withNode s root) n') =
      (.ok [⟨0⟩], attach ⟨0⟩ (.node ⟨1⟩) (withNode (withNode s root) n')) := by
    have own : (withNode (withNode s root) n').tree.own ⟨1⟩ = n' := by
      have fresh := own_withNode (withNode s root) n'
      rwa [size] at fresh
    unfold put
    dsimp only
    rw [closes]
    refine putClose_for ?_ ?_ (matches'.trans tag)
    · rw [own]
      exact congrArg some tag
    · rw [own]
      rfl
  have tree : attach ⟨0⟩ (.node ⟨1⟩) (withNode (withNode s root) n') =
      { s with tree := loopTree file opening.line head params (texts.map fun t => .text (String.ofList t.content)) } := by
    obtain ⟨world, t, frames, finished, sources, blocks, deferred⟩ := s
    cases empty
    rfl
  unfold build
  rw [bind_apply, List.foldlM_cons, bind_apply, first]
  dsimp only
  rw [List.foldlM_append, bind_apply, inside]
  dsimp only
  rw [List.foldlM_cons, bind_apply, last]
  dsimp only
  rw [tree]
  rfl

theorem compiled_loop {c : Compiler W} (standard : c.table = standardTable) {name source text : String}
    {pieces : List Markup.Token} {head : Markup.Head} (scanned : Markup.scan name source = .ok pieces)
    (around : Markup.IsTagAround pieces head text) (tag : head.name = "for") {params : Keyed String}
    (checked : ∀ n : Node, n.params = head.params → Checked n false (demands "for") params)
    (nonzero : (Decimal.readInt64? ((Keyed.get? "step" params).getD "").toList).getD 0 ≠ 0) (w : W) :
    ∃ t s line texts, compiled c name (some source) (.initial w) = (.ok t, s) ∧ t.root = ⟨0⟩ ∧
      s.tree = loopTree name line head params (texts.map .text) ∧ text = String.join texts := by
  obtain ⟨opening, texts, closing, rfl, opens, parsed, areTexts, rfl, closes, matches'⟩ := around
  have read : ∀ (stamp : Option Stamp) (s : CompileState W), s.tree = Tree.empty →
      readSource standardTable (load c) name name stamp source s = (.ok ⟨0⟩, { s with
        tree := loopTree name opening.line head params (texts.map fun t => .text (String.ofList t.content))
        sources := Keyed.put name stamp s.sources }) := by
    intro stamp s empty
    have size : s.tree.size = 0 := by
      rw [empty]
      rfl
    let s₁ : CompileState W := { s with sources := Keyed.put name stamp s.sources, frames := ⟨name, name, ⟨0⟩⟩ :: s.frames }
    have built : build standardTable (load c) name ⟨0⟩ (opening :: (texts ++ [closing]))
        (withNode s₁ { Node.fresh name 1 with isRoot := true }) = _ :=
      build_loop opens parsed areTexts closes matches' tag (checked _ rfl) nonzero empty
    rw [readSource_of_scan scanned, size]
    exact within_of_ok (s := { withNode s { Node.fresh name 1 with isRoot := true } with
      sources := Keyed.put name stamp s.sources }) built
  have stamped : onWorld (c.library.modified name) (.initial w) =
      (.ok (c.library.modified name w).1, .initial (c.library.modified name w).2) := rfl
  have finished := read (c.library.modified name w).1 (.initial (c.library.modified name w).2) rfl
  have inlined : ∃ t s, compiled c name (some source) (.initial w) = (.ok t, s) ∧ t.root = ⟨0⟩ ∧
      s.tree = loopTree name opening.line head params (texts.map fun t => .text (String.ofList t.content)) := by
    show ∃ t s, inlineTemplate c name source (.initial w) = (.ok t, s) ∧ _
    unfold inlineTemplate
    rw [bind_apply, stamped]
    dsimp only
    rw [bind_apply, standard, finished]
    exact ⟨_, _, rfl, rfl, rfl⟩
  obtain ⟨t, s, made, root, tree⟩ := inlined
  refine ⟨t, s, opening.line, texts.map fun t => String.ofList t.content, made, root, ?_, rfl⟩
  rw [tree, List.map_map]
  rfl

/-! ### The artifact of the tree -/

/-- Rendering a loop changes nothing. -/
theorem render_for {id : NodeId} (settled : s.tree.Settled id) (inner : (s.tree.own id).isRoot = false)
    (name : (s.tree.own id).name = some "for") {e : EmitState} (fresh : id ∉ e.rendered) :
    Emit.render standardTable load id e s = (.ok (id, { e with rendered := id :: e.rendered }), s) := by
  have dispatched : dispatch standardTable load id .onRender s = (.ok (), s) := by
    unfold dispatch
    rw [bind_apply, getTree_apply]
    dsimp only
    rw [name]
    rfl
  rw [Emit.render_apply, settled.target_eq, if_neg (by rw [inner]; simp [fresh]), dispatched]
  dsimp only
  rw [settled.target_eq]

/-- The pieces of a loop with texts in it. -/
def loopPieces (n : Node) (texts : List String) : List Segment :=
  Segment.ofCode n.opening ++ texts.flatMap Segment.ofText ++ Segment.ofCode n.closing

theorem artifact_loop {c : Compiler W} (standard : c.table = standardTable) {name : String} {line : Nat}
    {head : Markup.Head} {params : Keyed String} {texts : List String} (tag : head.name = "for") (strip : Bool)
    (tree : s.tree = loopTree name line head params (texts.map .text)) :
    artifact c ⟨0⟩ strip s =
      (.ok ((Written.ofPieces (loopPieces (tagNode name line ⟨0⟩ head true params) texts)).finish strip), s) := by
  let n : Node := { tagNode name line ⟨0⟩ head true params with body := texts.map .text }
  have root : s.tree.own ⟨0⟩ = { Node.fresh name 1 with isRoot := true, body := [.node ⟨1⟩] } := by
    rw [tree]
    rfl
  have inner : s.tree.own ⟨1⟩ = n := by
    rw [tree]
    rfl
  have settledRoot : s.tree.Settled ⟨0⟩ := by
    unfold Tree.Settled
    rw [root]
    rfl
  have settled : s.tree.Settled ⟨1⟩ := by
    unfold Tree.Settled
    rw [inner]
    rfl
  have code : ∀ (c : String) (e : EmitState), (Emit.addCode c : Emit W Unit) e s =
      (.ok ((), { e with written := Written.add (Segment.ofCode c) e.written }), s) := by
    intro c e
    rw [Written.add_ofCode]
    rfl
  have within' : ∀ depth e, e.rendered = [] →
      Emit.nodeWithin standardTable (load c) (depth + 1) [⟨0⟩] ⟨1⟩ e s =
        (.ok ((), ⟨[⟨1⟩], Written.add (loopPieces (tagNode name line ⟨0⟩ head true params) texts) e.written⟩), s) := by
    intro depth e none
    have fresh : ⟨1⟩ ∉ e.rendered := by
      rw [none]
      exact List.not_mem_nil
    have rendered : Emit.render standardTable (load c) ⟨1⟩ e s = _ :=
      render_for settled (by rw [inner]; rfl) (by rw [inner]; exact congrArg some tag) fresh
    rw [Emit.nodeWithin_of_not_mem rendered (by decide), inner, Emit.bind_apply, code]
    dsimp only
    rw [Emit.bind_apply, elements_texts]
    dsimp only
    rw [code, none, ← Written.add_append, ← Written.add_append]
    rfl
  have whole : ∀ depth, Emit.nodeWithin standardTable (load c) (depth + 2) [] ⟨0⟩ ⟨[], []⟩ s =
      (.ok ((), ⟨[⟨1⟩], Written.ofPieces (loopPieces (tagNode name line ⟨0⟩ head true params) texts)⟩), s) := by
    intro depth
    have rendered : Emit.render standardTable (load c) ⟨0⟩ ⟨[], []⟩ s = _ := render_root settledRoot (by rw [root]) ⟨[], []⟩
    rw [Emit.nodeWithin_of_not_mem rendered List.not_mem_nil, root, Emit.bind_apply, code]
    dsimp only
    rw [Emit.bind_apply, Emit.elements, Emit.bind_apply, within' depth _ rfl]
    rfl
  have size : s.tree.size = 2 := by
    rw [tree]
    rfl
  have depth : s.tree.size + 1 + Emit.growth = 1 + Emit.growth + 2 := by omega
  have run : Emit.nodeWithin c.table (load c) (s.tree.size + 1 + Emit.growth) [] ⟨0⟩ ⟨[], []⟩ s =
      (.ok ((), ⟨[⟨1⟩], Written.ofPieces (loopPieces (tagNode name line ⟨0⟩ head true params) texts)⟩), s) := by
    rw [depth, standard]
    exact whole _
  exact artifact_of_ok run strip

end Compile

/-! ### The program of the artifact -/

theorem exists_countHead (n : Node) (step : Int64) : ∃ rest, (countHead n step).toList = 'f' :: rest := by
  unfold countHead
  simp only [String.append_assoc, String.toList_append]
  exact ⟨_, rfl⟩

/-- A loop with texts in it begins and ends with code. -/
theorem Compile.loopPieces_eq {n : Node} {step : Int64} (framed : (n.opening, n.closing) = (countHead n step, "\x7d"))
    (texts : List String) : Compile.loopPieces n texts =
      .code (countHead n step).toList :: (texts.flatMap Segment.ofText ++ [.code "\x7d".toList]) := by
  obtain ⟨opening, closing⟩ := Prod.mk.inj framed
  obtain ⟨rest, starts⟩ := exists_countHead n step
  have opens : Segment.ofCode (countHead n step) = [.code (countHead n step).toList] := by
    unfold Segment.ofCode
    rw [if_neg]
    intro empty
    rw [String.isEmpty_iff] at empty
    rw [empty] at starts
    cases starts
  have closes : Segment.ofCode "\x7d" = [.code "\x7d".toList] := rfl
  unfold Compile.loopPieces
  rw [opening, closing, opens, closes, List.append_assoc]
  rfl

theorem Compile.finish_loopPieces {n : Node} {step : Int64}
    (framed : (n.opening, n.closing) = (countHead n step, "\x7d")) (texts : List String) :
    ∃ inner, ∀ strip, (Written.ofPieces (Compile.loopPieces n texts)).finish strip =
      String.ofList ('<' :: '?' :: ((countHead n step).toList ++ (inner ++ ['?', '>']))) := by
  obtain ⟨rest, starts⟩ := exists_countHead n step
  rw [loopPieces_eq framed]
  exact Artifact.finish_of_code_ends (by rw [starts]; exact List.cons_ne_nil _ _) (by decide) _

/-- The program of a loop with texts in it. -/
theorem Node.Counts.parse_loop {n : Node} (counts : n.Counts)
    (framed : (n.opening, n.closing) = (countHead n (n.number "step"), "\x7d")) (texts : List String) (strip : Bool)
    (name : String) :
    ∃ p, Program.parse name ((Written.ofPieces (Compile.loopPieces n texts)).finish strip) = .ok p ∧
      ∀ fs, execAll fs p.body = inLoopScope (countLoop (Artifact.variableName (n.param "var")) (n.number "step")
        (Run.write (String.join texts))
        (progressionLength (n.number "from").toInt (n.number "to").toInt (n.number "step").toInt) (n.number "from")) := by
  obtain ⟨stmts, body, writes⟩ := Artifact.composes_texts texts
  obtain ⟨loop, composes, runs⟩ := counts.composes framed body
  obtain ⟨stmts', parsed, same⟩ := Artifact.exists_parse_of_composes composes.single
  obtain ⟨inner, whole⟩ := Compile.finish_loopPieces framed texts
  refine ⟨⟨name, stmts'⟩, ?_, fun fs => ?_⟩
  · unfold Program.parse
    rw [whole strip, ← whole false]
    unfold Compile.loopPieces
    rw [parsed]
  · show execAll fs stmts' = _
    rw [same, execAll, execAll, bind_pure_unit, runs, writes]

/-! ### All that is accepted -/

namespace Tag

/-- A parameter that has been checked is as it was written, or its default. -/
theorem value_of_applyAll {head : Markup.Head} {specs : List ParamSpec} {site : Site} {params : Keyed String}
    (applied : applyAll site specs head.params = .ok params) {spec : ParamSpec} (mem : spec ∈ specs) {default : String}
    (only : ∀ other ∈ specs, other.name = spec.name → other.default?.getD "" = default) :
    (Keyed.get? spec.name params).getD "" = head.value spec.name default := by
  obtain ⟨value, found, -⟩ := exists_of_demanded applied mem
  rw [found]
  unfold Markup.Head.value
  cases written : Keyed.get? spec.name head.params with
  | some value' =>
    have kept := get?_applyAll applied written
    rw [found] at kept
    exact Option.some.inj kept
  | none =>
    rcases written_or_default applied found with here | ⟨other, mem, name, default'⟩
    · rw [written] at here
      cases here
    · have filled := only other mem name
      rw [default'] at filled
      exact filled

end Tag

namespace Markup

/-- The numbers of a loop can be written down as they are spelled: no bound has a plus sign, and none of the numbers is
the least one. A step is not written as it is spelled. -/
structure Head.Writable (head : Head) (first last step : Int64) : Prop where
  from' : (head.value "from" "0").toList.head? ≠ some '+' ∧ first ≠ Int64.minValue
  to' : (head.value "to" "").toList.head? ≠ some '+' ∧ last ≠ Int64.minValue
  step : step ≠ Int64.minValue

end Markup

namespace Compile

variable {W : Type}

/-- What is accepted names a variable and three numbers, and its node has them. -/
theorem ranges_of_checked {head : Markup.Head} {params : Keyed String} {file : String} {line : Nat} {parent : NodeId}
    (checked : Checked (Node.opened file line parent head true) false (demands "for") params) :
    let n := tagNode file line parent head true params
    ∃ first last step, head.Ranges first last step ∧ isVariable (head.value "var" "").toList = true ∧
      n.param "var" = head.value "var" "" ∧ n.param "from" = head.value "from" "0" ∧
      n.param "to" = head.value "to" "" ∧ n.number "from" = first ∧ n.number "to" = last ∧ n.number "step" = step := by
  intro n
  have applied := Tag.applyAll_of_checkParams checked
  have each : ∀ other ∈ demands "for", ∀ spec ∈ demands "for", other.name = spec.name →
      other.default?.getD "" = spec.default?.getD "" := by
    decide
  have values : ∀ spec ∈ demands "for", n.param spec.name = head.value spec.name (spec.default?.getD "") :=
    fun spec mem => Tag.value_of_applyAll applied mem fun other mem' name => each other mem' spec mem name
  have numbers : ∀ spec ∈ demands "for", spec.kind = .int → ∃ i, Decimal.readInt64? (n.param spec.name).toList = some i := by
    intro spec mem int
    obtain ⟨value, is, kind, -⟩ := checked.param spec mem
    have is' : n.param spec.name = value := is
    rw [is']
    rcases kind with admits | default
    · rw [int] at admits
      exact Option.isSome_iff_exists.mp admits
    · simp only [demands, List.mem_cons, List.not_mem_nil, or_false] at mem
      rcases mem with rfl | rfl | rfl | rfl
      · cases default
      · cases default
      · cases default
        exact ⟨0, by decide⟩
      · cases default
        exact ⟨1, by decide⟩
  obtain ⟨first, firstRead⟩ := numbers (.optional "from" .int "0") (by simp [demands]) rfl
  obtain ⟨last, lastRead⟩ := numbers (.required "to" .int) (by simp [demands]) rfl
  obtain ⟨step, stepRead⟩ := numbers (.optional "step" .int "1") (by simp [demands]) rfl
  have fromIs : n.param "from" = head.value "from" "0" := values (.optional "from" .int "0") (by simp [demands])
  have toIs : n.param "to" = head.value "to" "" := values (.required "to" .int) (by simp [demands])
  have stepIs : n.param "step" = head.value "step" "1" := values (.optional "step" .int "1") (by simp [demands])
  have varIs : n.param "var" = head.value "var" "" := values (.required "var" .var) (by simp [demands])
  have number : ∀ {key : String} {i : Int64}, Decimal.readInt64? (n.param key).toList = some i → n.number key = i := by
    intro key i read
    unfold Node.number
    rw [read]
    rfl
  refine ⟨first, last, step, ⟨fromIs ▸ firstRead, toIs ▸ lastRead, stepIs ▸ stepRead⟩, ?_, varIs, fromIs, toIs,
    number firstRead, number lastRead, number stepRead⟩
  obtain ⟨value, is, kind, -⟩ := checked.param (.required "var" .var) (by simp [demands])
  have is' : n.param "var" = value := is
  rw [← varIs, is']
  exact kind.resolve_right fun h => by cases h

section Program

variable {head : Markup.Head} {n : Node} {first last step : Int64} {texts : List String}

/-- A node with numbers that can be written down is a loop that can be. -/
theorem counts_of_writable (ranges : head.Ranges first last step) (writable : head.Writable first last step)
    (isVariable' : isVariable (n.param "var").toList = true) (from' : n.param "from" = head.value "from" "0")
    (to' : n.param "to" = head.value "to" "") (stepIs : n.number "step" = step) (nonzero : step ≠ 0) : n.Counts := by
  subst stepIs
  refine ⟨isVariable', fun key mem => ?_, nonzero, writable.step⟩
  simp only [List.mem_cons, List.not_mem_nil, or_false] at mem
  rcases mem with rfl | rfl
  · rw [from']
    exact ⟨Artifact.isBound_of_read ranges.from' writable.from'.1 writable.from'.2,
      Option.isSome_iff_exists.mpr ⟨_, ranges.from'⟩⟩
  · rw [to']
    exact ⟨Artifact.isBound_of_read ranges.to' writable.to'.1 writable.to'.2,
      Option.isSome_iff_exists.mpr ⟨_, ranges.to'⟩⟩

/-- A loop with numbers that cannot be written down has no program. -/
theorem not_parse_of_unwritable (ranges : head.Ranges first last step) (unwritable : ¬head.Writable first last step)
    (isVariable' : isVariable (n.param "var").toList = true) (from' : n.param "from" = head.value "from" "0")
    (to' : n.param "to" = head.value "to" "") (nonzero : step ≠ 0)
    (framed : (n.opening, n.closing) = (countHead n step, "\x7d")) (strip : Bool) (name : String) (p : Program) :
    Program.parse name ((Written.ofPieces (loopPieces n texts)).finish strip) ≠ .ok p := by
  intro parsed
  obtain ⟨inner, whole⟩ := finish_loopPieces framed texts
  have amiss : Artifact.isBound (n.param "from").toList = false ∨ Artifact.isBound (n.param "to").toList = false ∨
      String.ofList (Decimal.ofInt64 step) = String.ofList (Decimal.ofInt64 Int64.minValue) := by
    rw [from', to']
    cases bound : Artifact.isBound (head.value "from" "0").toList with
    | false => exact .inl rfl
    | true =>
      cases bound' : Artifact.isBound (head.value "to" "").toList with
      | false => exact .inr (.inl rfl)
      | true =>
        refine .inr (.inr ?_)
        have least : step = Int64.minValue := Classical.not_not.mp fun other =>
          unwritable ⟨Artifact.of_isBound ranges.from' bound, Artifact.of_isBound ranges.to' bound', other⟩
        rw [least]
  unfold Program.parse at parsed
  rw [whole strip] at parsed
  cases read : Artifact.parseStatements
      (String.ofList ('<' :: '?' :: ((countHead n step).toList ++ (inner ++ ['?', '>'])))) with
  | error e =>
    rw [read] at parsed
    cases parsed
  | ok stmts =>
    unfold countHead at read
    rw [comparison_eq nonzero] at read
    exact Artifact.not_parse_of_not_isBound (decide (step < 0)) isVariable' (from' ▸ ranges.from') (to' ▸ ranges.to')
      amiss _ stmts read

end Program

/-- A source that is one loop over numbers with a text in it: whatever parameters its handler accepts, it is compiled,
and they name a range. If its numbers can be written down, the program sets the variable to each number of the range in
order and writes the text each time, without an error whatever the parameters are. If not, there is no program. -/
theorem accepted_loops_run_their_ranges {c : Compiler W} (standard : c.table = standardTable) {name source text : String}
    {pieces : List Markup.Token} {head : Markup.Head} (scanned : Markup.scan name source = .ok pieces)
    (around : Markup.IsTagAround pieces head text) (tag : head.name = "for") (accepted : Tag.Accepts openFor head.params)
    (w : W) (strip : Bool) :
    ∃ t s artifact first last step, compiled c name (some source) (.initial w) = (.ok t, s) ∧
      Compile.artifact c t.root strip s = (.ok artifact, s) ∧ head.Ranges first last step ∧
      (head.Writable first last step → ∃ p numbers, Program.parse name artifact = .ok p ∧
        IsProgression first.toInt last.toInt step.toInt numbers ∧
        (∀ fs, execAll fs p.body =
          inLoopScope (runForEach (Artifact.variableName (head.value "var" "")) (Run.write text) numbers)) ∧
        ∀ params fs, p.execute params fs = .ok (String.join (List.replicate numbers.length text))) ∧
      (¬head.Writable first last step → ∀ p, Program.parse name artifact ≠ .ok p) := by
  obtain ⟨params, checked, nonzero⟩ := exists_checked_of_accepts accepted
  obtain ⟨t, s, line, texts, made, root, tree, rfl⟩ := compiled_loop standard scanned around tag checked nonzero w
  have written := artifact_loop standard (c := c) tag strip tree
  let n := tagNode name line ⟨0⟩ head true params
  obtain ⟨first, last, step, ranges, isVariable', var, from', to', firstIs, lastIs, stepIs⟩ :=
    ranges_of_checked (checked (Node.opened name line ⟨0⟩ head true) rfl)
  have framed : (n.opening, n.closing) = (countHead n (n.number "step"), "\x7d") := Node.framing_for (n := n) tag
  have nonzero' : n.number "step" ≠ 0 := nonzero
  rw [stepIs] at framed nonzero'
  rw [← var] at isVariable'
  refine ⟨t, s, _, first, last, step, made, by rw [root]; exact written, ranges, fun writable => ?_, fun unwritable p =>
    not_parse_of_unwritable ranges unwritable isVariable' from' to' nonzero' framed strip name p⟩
  have counts := counts_of_writable ranges writable isVariable' from' to' stepIs nonzero'
  obtain ⟨p, parsed, runs⟩ := counts.parse_loop (by rw [stepIs]; exact framed) texts strip name
  rw [var, firstIs, lastIs, stepIs] at runs
  have numbers : IsProgression first.toInt last.toInt step.toInt _ := isProgression_terms nonzero'
  have each := fun fs => (runs fs).trans (congrArg inLoopScope (countLoop_eq_runForEach ..))
  exact ⟨p, _, parsed, numbers, each, fun arguments fs => Program.execute_of_runForEach (each fs) arguments⟩

/-- A range that reaches the upper end of 64 bits, and a text with a brace of its own. -/
theorem last_numbers_are_reached :
    let c : Compiler MemorySources := ⟨Library.memory, standardTable⟩
    let source := "\x7bfor var=$i step=2 from=9223372036854775805 to='9223372036854775807'\x7d<?\x7b \x7b/for\x7d"
    let head : Markup.Head := ⟨"for", [("var", "$i"), ("step", "2"), ("from", "9223372036854775805"),
      ("to", "9223372036854775807")]⟩
    ∃ pieces, Markup.scan "page" source = .ok pieces ∧ Markup.IsTagAround pieces head "<?\x7b " ∧ head.name = "for" ∧
      Tag.Accepts openFor head.params ∧ ∃ t s artifact p, compiled c "page" (some source) (.initial (.ofList [])) = (.ok t, s) ∧
        Compile.artifact c t.root true s = (.ok artifact, s) ∧ Program.parse "page" artifact = .ok p ∧
        ∀ params fs, p.execute params fs = .ok "<?\x7b <?\x7b " := by
  intro c source head
  have scanned : Markup.scan "page" source = .ok
      [⟨.openTag, "\x7bfor var=$i step=2 from=9223372036854775805 to='9223372036854775807'\x7d".toList, 1⟩,
        ⟨.text, "<?\x7b ".toList, 1⟩, ⟨.closeTag, "\x7b/for\x7d".toList, 1⟩] := by decide +kernel
  have around : Markup.IsTagAround
      [⟨.openTag, "\x7bfor var=$i step=2 from=9223372036854775805 to='9223372036854775807'\x7d".toList, 1⟩,
        ⟨.text, "<?\x7b ".toList, 1⟩, ⟨.closeTag, "\x7b/for\x7d".toList, 1⟩] head "<?\x7b " := by
    refine ⟨_, [⟨.text, "<?\x7b ".toList, 1⟩], _, rfl, rfl, by rfl, by decide, by decide, rfl, by decide⟩
  have accepted : Tag.Accepts openFor head.params :=
    ⟨⟨(), ⟨#[{ Node.fresh "page" 1 with params := head.params }]⟩, [], [], [], [], []⟩, ⟨0⟩, by decide, rfl,
      by decide +kernel⟩
  obtain ⟨t, s, artifact, first, last, step, made, written, ranges, runs, -⟩ :=
    accepted_loops_run_their_ranges (c := c) rfl scanned around rfl accepted (.ofList []) true
  have from' : first = 9223372036854775805 := Option.some.inj (ranges.from'.symm.trans (by decide +kernel))
  have to' : last = 9223372036854775807 := Option.some.inj (ranges.to'.symm.trans (by decide +kernel))
  have step' : step = 2 := Option.some.inj (ranges.step.symm.trans (by decide +kernel))
  subst from' to' step'
  obtain ⟨p, numbers, parsed, progression, -, pages⟩ := runs ⟨by decide +kernel, by decide +kernel, by decide⟩
  have two : numbers.length = 2 := by
    have second := (progression.reach 1).mpr (by unfold Reached; decide)
    have third := mt (progression.reach 2).mp (by unfold Reached; decide)
    omega
  refine ⟨_, scanned, around, rfl, accepted, t, s, artifact, p, made, written, parsed, fun params fs => ?_⟩
  rw [pages, two]
  decide +kernel

end Compile

end Stencil
