import Mathlib.Logic.Relation
import Stencil.Proofs.Compile.Calls
import Stencil.Proofs.Compile.KnownTags

/-!
Nodes that stand in themselves. The nodes of a finished tree and the elements of their bodies make a graph. If no
handler fails, an artifact is written for a root just in case no cycle is reached from it; otherwise the error names a
node on a cycle. The bound on the nesting plays no part in this.
-/
namespace Stencil

open Relation
open Tag (standardTable)

namespace Tree

variable {t : Tree} {root id : NodeId}

/-- A node stands in the body of another one, by some handle. -/
def Includes (t : Tree) (outer inner : NodeId) : Prop :=
  ∃ child, .node child ∈ (t.own outer).body ∧ t.target child = inner

/-- A node that is reached from the root and leads back to itself. -/
def IsKnot (t : Tree) (root id : NodeId) : Prop :=
  ReflTransGen t.Includes (t.target root) id ∧ TransGen t.Includes id id

theorem lt_size_of_includes {inner : NodeId} (includes : t.Includes id inner) : id.index < t.size := by
  obtain ⟨child, mem, -⟩ := includes
  rcases Nat.lt_or_ge id.index t.size with small | large
  · exact small
  · rw [own_of_size_le large] at mem
    cases mem

theorem no_node_of_bodyText {body : List Element} {s : String} (text : bodyText? body = some s) (child : NodeId) :
    .node child ∉ body := by
  induction body generalizing s with
  | nil => exact List.not_mem_nil
  | cons e rest ih =>
    cases e with
    | text c =>
      obtain ⟨s', text', -⟩ := Option.map_eq_some_iff.mp text
      exact fun mem => (List.mem_cons.mp mem).elim nofun (ih text')
    | code c => cases text
    | node id => cases text

theorem node_mem_rendered (n : Node) (child : NodeId) : .node child ∈ n.rendered.body ↔ .node child ∈ n.body := by
  unfold Node.rendered
  split
  · cases text : bodyText? n.body with
    | none => exact Iff.rfl
    | some s =>
      refine iff_of_false (fun mem => ?_) (no_node_of_bodyText text child)
      cases List.mem_singleton.mp mem
  · exact Iff.rfl

/-! #### What can be written reaches no cycle -/

/-- What stands in elements that can be written leads to an end. -/
theorem Writes.acc {body : List Element} {ps : List Artifact.Segment} (writes : t.Writes body ps) {child : NodeId}
    (mem : .node child ∈ body) : Acc (fun inner outer => t.Includes outer inner) (t.target child) := by
  induction writes generalizing child with
  | nil => cases mem
  | text _ ih => exact ih ((List.mem_cons.mp mem).resolve_left nofun)
  | code _ ih => exact ih ((List.mem_cons.mp mem).resolve_left nofun)
  | node _ _ ih ihRest =>
    rcases List.mem_cons.mp mem with same | mem
    · cases same
      refine Acc.intro _ fun inner includes => ?_
      obtain ⟨other, stands, rfl⟩ := includes
      exact ih ((node_mem_rendered _ other).mpr stands)
    · exact ihRest mem

theorem not_isKnot_of_acc (ends : Acc (fun inner outer => t.Includes outer inner) (t.target root)) :
    ¬ t.IsKnot root id := by
  rintro ⟨reached, cycle⟩
  have ends' : Acc (fun inner outer => t.Includes outer inner) id := by
    clear cycle
    induction reached with
    | refl => exact ends
    | tail _ includes ih => exact ih.inv includes
  clear reached
  induction ends' with
  | intro id _ ih =>
    obtain ⟨next, includes, back⟩ := TransGen.head'_iff.mp cycle
    exact ih next includes (TransGen.tail' back includes)

/-! #### Nodes that are being written -/

/-- The nodes that are being written when a handle is met: they are reached from the root, each leads on to what the
handle stands for, and none comes twice. -/
structure Nested (t : Tree) (root : NodeId) (active : List NodeId) (id : NodeId) : Prop where
  distinct : active.Nodup
  leads : ∀ outer ∈ active, TransGen t.Includes outer (t.target id)
  reached : ReflTransGen t.Includes (t.target root) (t.target id)

namespace Nested

variable {active : List NodeId} {child : NodeId}

theorem start (t : Tree) (root : NodeId) : t.Nested root [] root := ⟨List.nodup_nil, fun _ mem => (by cases mem), .refl⟩

/-- The node of the handle is written, and what stands in it is met. -/
theorem enter (nested : t.Nested root active id) (apart : t.target id ∉ active)
    (stands : .node child ∈ (t.shown id).body) : t.Nested root (t.target id :: active) child := by
  have includes : t.Includes (t.target id) (t.target child) := ⟨child, (node_mem_rendered _ child).mp stands, rfl⟩
  refine ⟨List.nodup_cons.mpr ⟨apart, nested.distinct⟩, ?_, nested.reached.tail includes⟩
  exact List.forall_mem_cons.mpr ⟨.single includes, fun outer mem => (nested.leads outer mem).tail includes⟩

theorem isKnot (nested : t.Nested root active id) (inside : t.target id ∈ active) : t.IsKnot root (t.target id) :=
  ⟨nested.reached, nested.leads _ inside⟩

theorem length_le (nested : t.Nested root active id) : active.length ≤ t.size := by
  refine length_le_size nested.distinct fun outer mem => ?_
  obtain ⟨next, includes, -⟩ := TransGen.head'_iff.mp (nested.leads outer mem)
  exact lt_size_of_includes includes

end Nested

theorem Rendering.site_eq {t' : Tree} {done : List NodeId} (rendering : t.Rendering t' done) (id : NodeId) :
    t'.site id = t.site id := by
  have kept : ∀ n : Node, n.rendered.tag = n.tag ∧ n.rendered.file = n.file ∧ n.rendered.line = n.line := by
    intro n
    unfold Node.rendered
    split
    · split <;> exact ⟨rfl, rfl, rfl⟩
    · exact ⟨rfl, rfl, rfl⟩
  obtain ⟨tag, file, line⟩ := kept (t.own id)
  unfold site
  dsimp only
  rw [rendering.own]
  split
  · rw [tag, file, line]
  · rfl

theorem Rendering.known {t' : Tree} {done : List NodeId} (rendering : t.Rendering t' done) (known : t.Known) :
    t'.Known := by
  intro id tag name
  rw [rendering.own] at name
  split at name
  · rw [(t.own id).rendered_keeps.1] at name
    exact known id tag name
  · exact known id tag name

end Tree

namespace Emit

variable {W : Type} {table : Tag.Table} {load : Loader W} {t : Tree} {root id : NodeId} {e e' : EmitState}
  {s s' : CompileState W} {er : TemplateError} {active : List NodeId}

/-- What is said of a node that is met while it is being written. -/
def selfInclusion (t : Tree) (id : NodeId) : TemplateError := .structural (t.site id) "block content includes itself"

/-! #### Handlers that fail -/

/-- A call has its node handed to this handler, because the node is met for the first time. -/
def Call.Renders (table : Tag.Table) (call : Call W) (handler : Handler Unit) : Prop :=
  let id := call.state.tree.target call.handle
  (call.state.tree.own id).isRoot = false ∧ id ∉ call.before.rendered ∧
    ∃ tag handlers render, (call.state.tree.own id).name = some tag ∧ Keyed.get? tag table = some handlers ∧
      handlers.onRender = some render ∧ handler = render id

/-- Rendering fails only if a handler does. -/
theorem render_error {depth : Nat} (known : s.tree.Known) (run : render standardTable load id e s = (.error er, s')) :
    ∃ handler, Call.Renders standardTable ⟨depth, active, id, e, s⟩ handler ∧
      Compile.carryOut load handler s = (.error er, s') := by
  rw [render_apply] at run
  by_cases done : (s.tree.own (s.tree.target id)).isRoot = true ∨ s.tree.target id ∈ e.rendered
  · rw [if_pos done] at run
    cases run
  · rw [if_neg done] at run
    obtain ⟨inner, fresh⟩ := not_or.mp done
    have failed : Compile.dispatch standardTable load (s.tree.target id) .onRender s = (.error er, s') := by
      rcases dispatched : Compile.dispatch standardTable load (s.tree.target id) .onRender s with ⟨er' | u, s₁⟩
      · rw [dispatched] at run
        cases run
        rfl
      · rw [dispatched] at run
        cases run
    unfold Compile.dispatch at failed
    rw [Compile.bind_apply, Compile.getTree_apply] at failed
    dsimp only at failed
    cases name : (s.tree.own (s.tree.target id)).name with
    | none =>
      rw [name] at failed
      cases failed
    | some tag =>
      obtain ⟨handlers, found⟩ := known _ tag name
      rw [name] at failed
      dsimp only at failed
      rw [found] at failed
      dsimp only at failed
      rw [if_neg fun h => (by cases h.1)] at failed
      cases bound : handlers.onRender with
      | none =>
        have unbound : Compile.handlerFor handlers .onRender = none := bound
        rw [unbound] at failed
        cases failed
      | some handler =>
        have bound' : Compile.handlerFor handlers .onRender = some handler := bound
        rw [bound'] at failed
        exact ⟨_, ⟨Bool.eq_false_iff.mpr inner, fresh, tag, handlers, handler, name, found, bound, rfl⟩, failed⟩

/-! #### Calls that fail -/

theorem elements_error {inner : NodeId → Emit W Unit} {body : List Element}
    (run : elements inner body e s = (.error er, s')) :
    ∃ front child back e₁ s₁, body = front ++ .node child :: back ∧ elements inner front e s = (.ok ((), e₁), s₁) ∧
      inner child e₁ s₁ = (.error er, s') := by
  induction body generalizing e s with
  | nil => cases run
  | cons element rest ih =>
    cases element with
    | text c =>
      obtain ⟨front, child, back, e₁, s₁, rfl, before, failed⟩ :=
        ih (e := { e with written := e.written.addText c.toList }) run
      exact ⟨.text c :: front, child, back, e₁, s₁, rfl, before, failed⟩
    | code c =>
      obtain ⟨front, child, back, e₁, s₁, rfl, before, failed⟩ :=
        ih (e := { e with written := e.written.addCode c.toList }) run
      exact ⟨.code c :: front, child, back, e₁, s₁, rfl, before, failed⟩
    | node first =>
      unfold elements at run
      rw [bind_apply] at run
      rcases written : inner first e s with ⟨er' | ⟨⟨⟩, e₂⟩, s₂⟩
      · rw [written] at run
        cases run
        exact ⟨[], first, rest, e, s, rfl, rfl, written⟩
      · rw [written] at run
        obtain ⟨front, child, back, e₁, s₁, rfl, before, failed⟩ := ih run
        refine ⟨.node first :: front, child, back, e₁, s₁, rfl, ?_, failed⟩
        unfold elements
        rw [bind_apply, written]
        exact before

namespace Call

variable {call next inner : Call W}

theorem Makes.within (makes : Makes table load call next) (inside : Within table load next inner) :
    Within table load call inner := by
  induction inside with
  | itself => exact .inner .itself makes
  | inner _ makes' ih => exact .inner ih makes'

/-- In the course of a call some of the nodes have been rendered, and nothing else of the tree has changed. -/
theorem Within.rendering (sound : t.Sound) (rendering : t.Rendering call.state.tree call.before.rendered)
    (inside : Within standardTable load call inner) : t.Rendering inner.state.tree inner.before.rendered := by
  induction inside with
  | itself => exact rendering
  | inner _ makes ih => exact makes.rendering sound ih

/-- A call that fails has a handler that fails in its course, or meets a node while it is being written. -/
theorem fails (sound : t.Sound) (known : t.Known) (depth : Nat) (rendering : t.Rendering s.tree e.rendered)
    (nested : t.Nested root active id) (deep : t.size < depth + active.length)
    (run : Call.run standardTable load ⟨depth, active, id, e, s⟩ = (.error er, s')) :
    (∃ inner handler s'', Within standardTable load ⟨depth, active, id, e, s⟩ inner ∧
      inner.Renders standardTable handler ∧ Compile.carryOut load handler inner.state = (.error er, s'')) ∨
    ∃ node, er = selfInclusion t node ∧ t.IsKnot root node := by
  induction depth generalizing active id e s with
  | zero =>
    have le := nested.length_le
    omega
  | succ depth ih =>
    unfold Call.run at run
    dsimp only at run
    rcases first : render standardTable load id e s with ⟨er' | ⟨target, e₁⟩, s₁⟩
    · rw [nodeWithin_of_error first] at run
      cases run
      obtain ⟨handler, renders, failed⟩ := render_error (rendering.known known) first
      exact .inl ⟨_, handler, s', .itself, renders, failed⟩
    · obtain ⟨adds, rfl, own⟩ := render_ok sound rendering first
      by_cases inside : t.target id ∈ active
      · rw [nodeWithin_of_mem first inside] at run
        obtain ⟨same, -⟩ := Prod.mk.inj run
        refine .inr ⟨t.target id, ?_, nested.isKnot inside⟩
        unfold selfInclusion
        rw [← adds.rendering.site_eq]
        exact (Except.error.inj same).symm
      · rw [nodeWithin_of_not_mem first inside, own] at run
        obtain ⟨e₂, opened, adds₂⟩ := addCode_adds adds.rendering (t.shown id).opening
        rw [bind_of_ok opened, bind_apply] at run
        rcases written : elements (nodeWithin standardTable load depth (t.target id :: active)) (t.shown id).body e₂ s₁
          with ⟨er' | ⟨⟨⟩, e₃⟩, s₃⟩
        · rw [written] at run
          cases run
          -- What stands in front of the child that fails was written, so its call is one of those made here.
          obtain ⟨front, child, back, e₃, s₃, body, before, failed⟩ := elements_error written
          obtain ⟨ps, -, adds₃⟩ := elements_ok (nodeWithin_ok sound depth (t.target id :: active)) adds₂.rendering before
          have stands : .node child ∈ (t.shown id).body := by
            rw [body]
            exact List.mem_append_right _ List.mem_cons_self
          have makes : Makes standardTable load ⟨depth + 1, active, id, e, s⟩
              ⟨depth, t.target id :: active, child, e₃, s₃⟩ := by
            refine .inside first inside (by rw [own]; exact body) ?_
            rw [own, bind_of_ok opened]
            exact before
          have deep' : t.size < depth + (t.target id :: active).length := by
            rw [List.length_cons]
            omega
          rcases ih adds₃.rendering (nested.enter inside stands) deep' failed with
            ⟨inner, handler, s'', course, renders, failed⟩ | knot
          · exact .inl ⟨inner, handler, s'', makes.within course, renders, failed⟩
          · exact .inr knot
        · rw [written] at run
          cases run

end Call

/-! #### The bound on the nesting -/

theorem elements_stable {writer writer' : NodeId → Emit W Unit} (writes : WritesNodes t active writer)
    {body : List Element} (same : ∀ child, .node child ∈ body → ∀ {e : EmitState} {s : CompileState W},
      t.Rendering s.tree e.rendered → writer child e s = writer' child e s)
    (rendering : t.Rendering s.tree e.rendered) : elements writer body e s = elements writer' body e s := by
  induction body generalizing e s with
  | nil => rfl
  | cons element rest ih =>
    have later : ∀ {e : EmitState} {s : CompileState W}, t.Rendering s.tree e.rendered →
        elements writer rest e s = elements writer' rest e s :=
      fun rendering => ih (fun child mem => same child (List.mem_cons_of_mem _ mem)) rendering
    cases element with
    | text c => exact later (e := { e with written := e.written.addText c.toList }) rendering
    | code c => exact later (e := { e with written := e.written.addCode c.toList }) rendering
    | node child =>
      unfold elements
      rw [bind_apply, bind_apply, ← same child List.mem_cons_self rendering]
      rcases written : writer child e s with ⟨er | ⟨⟨⟩, e₁⟩, s₁⟩
      · rfl
      · obtain ⟨-, ps, -, adds⟩ := writes rendering written
        exact later adds.rendering

/-- Beyond the size of the tree the bound on the nesting does not matter. -/
theorem nodeWithin_stable (sound : t.Sound) {depth depth' : Nat} (rendering : t.Rendering s.tree e.rendered)
    (nested : t.Nested root active id) (deep : t.size < depth + active.length) (deep' : t.size < depth' + active.length) :
    nodeWithin standardTable load depth active id e s = nodeWithin standardTable load depth' active id e s := by
  induction depth generalizing depth' active id e s with
  | zero =>
    have le := nested.length_le
    omega
  | succ depth ih =>
    cases depth' with
    | zero =>
      have le := nested.length_le
      omega
    | succ depth' =>
      rcases first : render standardTable load id e s with ⟨er | ⟨target, e₁⟩, s₁⟩
      · rw [nodeWithin_of_error first, nodeWithin_of_error first]
      · obtain ⟨adds, rfl, own⟩ := render_ok sound rendering first
        by_cases inside : t.target id ∈ active
        · rw [nodeWithin_of_mem first inside, nodeWithin_of_mem first inside]
        · rw [nodeWithin_of_not_mem first inside, nodeWithin_of_not_mem first inside, own]
          obtain ⟨e₂, opened, adds₂⟩ := addCode_adds adds.rendering (t.shown id).opening
          rw [bind_of_ok opened, bind_of_ok opened, bind_apply, bind_apply]
          have alike : elements (nodeWithin standardTable load depth (t.target id :: active)) (t.shown id).body e₂ s₁ =
              elements (nodeWithin standardTable load depth' (t.target id :: active)) (t.shown id).body e₂ s₁ := by
            refine elements_stable (nodeWithin_ok sound depth _) (fun child stands e s rendering => ?_) adds₂.rendering
            refine ih rendering (nested.enter inside stands) ?_ ?_
            · rw [List.length_cons]
              omega
            · rw [List.length_cons]
              omega
          rw [alike]

end Emit

namespace Compile

variable {W : Type} {c : Compiler W} {s : CompileState W} {root : NodeId}

/-- No handler fails while the artifact of a root is written. -/
def Renders (c : Compiler W) (root : NodeId) (s : CompileState W) : Prop :=
  ∀ call handler, Emit.Call.Within c.table (load c) (.first root s) call → call.Renders c.table handler →
    ∃ s', carryOut (load c) handler call.state = (.ok (), s')

theorem renderLocalized_of_bare {load : Loader W} {id : NodeId} (bare : (s.tree.own id).params = []) :
    ∃ s', carryOut load (Tag.renderLocalized id) s = (.ok (), s') := by
  have demanded : carryOut load (Handler.demand id false []) s =
      (.ok (), { s with tree := s.tree.update id fun n => { n with params := [] } }) := by
    unfold Handler.demand
    rw [carryOut_after carryOut_getTree, bare]
    rfl
  unfold Tag.renderLocalized
  rw [carryOut_after demanded, carryOut_after carryOut_getTree]
  dsimp only
  split
  · exact ⟨_, rfl⟩
  · exact ⟨_, rfl⟩

/-- No handler fails if texts in the reader's language have no parameters. -/
theorem renders_of_bare (standard : c.table = standardTable) (sound : s.tree.Sound)
    (bare : ∀ n ∈ s.tree.nodes, n.name = some "t" → n.params = []) : Renders c root s := by
  have bare' : ∀ id, (s.tree.own id).name = some "t" → (s.tree.own id).params = [] := by
    intro id name
    rcases Nat.lt_or_ge id.index s.tree.size with small | large
    · refine bare _ ?_ name
      unfold Tree.own
      rw [Array.getD_eq_getD_getElem?, Array.getElem?_eq_getElem small]
      exact Array.getElem_mem small
    · rw [Tree.own_of_size_le large] at name
      cases name
  rintro call handler inside ⟨inner, fresh, tag, handlers, render, name, found, bound, rfl⟩
  rw [standard] at inside found
  have rendering := inside.rendering sound (Tree.Rendering.start s.tree)
  rcases Tag.standard_onRender found with ⟨rfl, localized⟩ | ⟨-, nothing⟩
  · cases localized.symm.trans bound
    refine renderLocalized_of_bare ?_
    rw [rendering.own, if_neg fresh] at name ⊢
    exact bare' _ name
  · cases nothing.symm.trans bound

theorem artifact_error {strip : Bool} {er : TemplateError} {s' : CompileState W}
    (run : artifact c root strip s = (.error er, s')) :
    (Emit.Call.first root s).run c.table (load c) = (.error er, s') := by
  unfold artifact at run
  rcases bind_error run with failed | ⟨t, s₁, asked, run⟩
  · cases failed
  cases asked
  rcases bind_error run with failed | ⟨written, s₂, -, run⟩
  · rw [StateT.run] at failed
    exact failed
  · cases run

/-- Whatever has been compiled with the standard tags, if no handler fails then an artifact is written just in case no
cycle is reached from the root; otherwise the error names a node on such a cycle. No bound on the nesting that is
larger than the tree changes anything. -/
theorem artifacts_exist_without_cycles (standard : c.table = standardTable) {name : String} {text? : Option String}
    {w : W} {t : Template} (compiles : compiled c name text? (.initial w) = (.ok t, s))
    (renders : Renders c t.root s) (strip : Bool) :
    (∀ depth, s.tree.size < depth → Emit.nodeWithin c.table (load c) depth [] t.root ⟨[], []⟩ s =
      Emit.nodeWithin c.table (load c) (s.tree.size + 1 + Emit.growth) [] t.root ⟨[], []⟩ s) ∧
    ((∃ code s', artifact c t.root strip s = (.ok code, s')) ↔ ∀ id, ¬ s.tree.IsKnot t.root id) ∧
    ((∃ id s', artifact c t.root strip s =
      (.error (.structural (s.tree.site id) "block content includes itself"), s') ∧ s.tree.IsKnot t.root id) ↔
        ∃ id, s.tree.IsKnot t.root id) := by
  obtain ⟨sound, known⟩ := compiled_known standard compiles
  have start := Tree.Rendering.start s.tree
  have nested := Tree.Nested.start s.tree t.root
  have enough : s.tree.size < (s.tree.size + 1 + Emit.growth) + ([] : List NodeId).length := by
    rw [List.length_nil]
    omega
  -- What has been written reaches no cycle.
  have free : ∀ {code s'}, artifact c t.root strip s = (.ok code, s') → ∀ id, ¬ s.tree.IsKnot t.root id := by
    intro code s' run id
    obtain ⟨ps, writes, -⟩ := artifact_writes standard sound run
    exact Tree.not_isKnot_of_acc (writes.acc List.mem_cons_self)
  -- What has not been written has met a node while it was being written.
  have total : (∃ code s', artifact c t.root strip s = (.ok code, s')) ∨
      ∃ id s', artifact c t.root strip s = (.error (Emit.selfInclusion s.tree id), s') ∧ s.tree.IsKnot t.root id := by
    rcases run : artifact c t.root strip s with ⟨er | code, s'⟩
    · have failed := artifact_error run
      rw [standard] at failed
      rcases Emit.Call.fails sound known _ start nested enough failed with
        ⟨call, handler, s'', inside, renders', stopped⟩ | ⟨id, rfl, knot⟩
      · rw [← standard] at inside renders'
        obtain ⟨s₁, done⟩ := renders call handler inside renders'
        cases done.symm.trans stopped
      · exact .inr ⟨id, s', rfl, knot⟩
    · exact .inl ⟨code, s', rfl⟩
  refine ⟨fun depth deep => ?_, ⟨fun ⟨code, s', run⟩ => free run, fun none => ?_⟩,
    ⟨fun ⟨id, s', run, knot⟩ => ⟨id, knot⟩, fun ⟨id, knot⟩ => ?_⟩⟩
  · rw [standard]
    exact Emit.nodeWithin_stable sound start nested (by rwa [List.length_nil]) enough
  · rcases total with written | ⟨id, -, -, knot⟩
    · exact written
    · exact absurd knot (none id)
  · rcases total with ⟨code, s', run⟩ | found
    · exact absurd knot (free run id)
    · exact found

/-- A page that shows one card in several places, and a block that is shown inside itself by way of another template. -/
def mirrors : MemorySources :=
  .ofList [("card", "\x7bt\x7dName\x7b/t\x7d"),
    ("page", "\x7bblock id=cards\x7d\x7binclude name=card\x7d, \x7binclude name=card\x7d\x7b/block\x7d" ++
      "\x7bputblock id=cards\x7d"),
    ("glass", "\x7bputblock id=frame\x7d"),
    ("mirror", "\x7bblock id=frame\x7d\x7binclude name=glass\x7d\x7b/block\x7d")]

/-- What stands in a page several times is written, and what stands in itself is found. -/
theorem mirrors_are_found :
    let c : Compiler MemorySources := ⟨Library.memory, standardTable⟩
    (∃ t s, compiled c "page" none (.initial mirrors) = (.ok t, s) ∧ Renders c t.root s ∧
      (∃ code s', artifact c t.root false s = (.ok code, s')) ∧ ∀ id, ¬ s.tree.IsKnot t.root id) ∧
    ∃ t s, compiled c "mirror" none (.initial mirrors) = (.ok t, s) ∧ Renders c t.root s ∧ ∃ id s',
      artifact c t.root false s = (.error (.structural (s.tree.site id) "block content includes itself"), s') ∧
        s.tree.IsKnot t.root id := by
  intro c
  let bare (s : CompileState MemorySources) : Bool :=
    decide (∀ n ∈ s.tree.nodes, n.name = some "t" → n.params = [])
  have page : compilesTo c "page" none mirrors (fun t s => bare s && (artifact c t.root false s).1.isOk) = true := by
    decide +kernel
  have mirror : compilesTo c "mirror" none mirrors (fun t s => bare s && !(artifact c t.root false s).1.isOk) = true := by
    decide +kernel
  constructor
  · obtain ⟨t, s, compiles, made⟩ := exists_of_compilesTo page
    obtain ⟨bare, ok⟩ := Bool.and_eq_true_iff.mp made
    have renders : Renders c t.root s :=
      renders_of_bare rfl (compiled_known (c := c) rfl compiles).1 (of_decide_eq_true bare)
    obtain ⟨-, written, -⟩ := artifacts_exist_without_cycles (c := c) rfl compiles renders false
    have code := exists_of_isOk ok
    exact ⟨t, s, compiles, renders, code, written.mp code⟩
  · obtain ⟨t, s, compiles, made⟩ := exists_of_compilesTo mirror
    obtain ⟨bare, failed⟩ := Bool.and_eq_true_iff.mp made
    have renders : Renders c t.root s :=
      renders_of_bare rfl (compiled_known (c := c) rfl compiles).1 (of_decide_eq_true bare)
    obtain ⟨-, written, found⟩ := artifacts_exist_without_cycles (c := c) rfl compiles renders false
    have knot : ∃ id, s.tree.IsKnot t.root id := by
      refine Classical.byContradiction fun none => ?_
      obtain ⟨code, s', run⟩ := written.mpr fun id knot => none ⟨id, knot⟩
      rw [run] at failed
      cases failed
    exact ⟨t, s, compiles, renders, found.mpr knot⟩

end Compile

end Stencil
