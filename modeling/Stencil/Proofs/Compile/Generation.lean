import Stencil.Proofs.Compile.Handling

/-!
From the finished tree to the artifact. While it is written, a node is rendered when it is met first, and nothing
else is changed; so the artifact is made of the pieces that the tree writes.
-/
namespace Stencil

open Artifact (Segment Written)

namespace Tree

/-- The tree after these nodes have been rendered. -/
structure Rendering (t t' : Tree) (done : List NodeId) : Prop where
  size : t'.size = t.size
  own : ∀ id, t'.own id = if id ∈ done then (t.own id).rendered else t.own id

namespace Rendering

variable {t t' : Tree} {done : List NodeId}

theorem start (t : Tree) : t.Rendering t [] := ⟨rfl, fun _ => (if_neg List.not_mem_nil).symm⟩

theorem sameLinks (rendering : t.Rendering t' done) : t.SameLinks t' := by
  refine ⟨Nat.le_of_eq rendering.size.symm, fun id => ?_⟩
  rw [rendering.own]
  split
  · exact (t.own id).rendered_keeps.2.1
  · rfl

theorem target_eq (rendering : t.Rendering t' done) (sound : t.Sound) (id : NodeId) : t'.target id = t.target id :=
  rendering.sameLinks.target_eq sound id

/-- One more node is rendered. -/
theorem add (rendering : t.Rendering t' done) {id : NodeId} {t'' : Tree} (fresh : id ∉ done)
    (size : t''.size = t'.size)
    (own : ∀ other, t''.own other = if other = id then (t'.own id).rendered else t'.own other) :
    t.Rendering t'' (id :: done) := by
  refine ⟨size.trans rendering.size, fun other => ?_⟩
  rw [own]
  by_cases same : other = id
  · subst same
    rw [if_pos rfl, if_pos (List.mem_cons_self ..), rendering.own, if_neg fresh]
  · rw [if_neg same, rendering.own]
    by_cases mem : other ∈ done
    · rw [if_pos mem, if_pos (List.mem_cons_of_mem _ mem)]
    · rw [if_neg mem, if_neg fun h => (List.mem_cons.mp h).elim same mem]

end Rendering

end Tree

theorem Tag.checkParams_nil {site : Site} {params params' : Keyed String}
    (checked : Tag.checkParams site false [] params = .ok params') : params' = params := by
  unfold Tag.checkParams Tag.applyAll at checked
  dsimp only at checked
  by_cases empty : (if false = true then [] else Tag.undeclared [] params).isEmpty = true
  · rw [if_pos empty] at checked
    exact (Except.ok.inj checked).symm
  · rw [if_neg empty] at checked
    cases checked

/-- A text in the reader's language is rendered in place. -/
theorem Compile.renderLocalized_ok {W : Type} {load : Loader W} {s s' : CompileState W} {id : NodeId}
    (settled : s.tree.Settled id) (small : id.index < s.tree.size) (name : (s.tree.own id).name = some "t")
    (inner : (s.tree.own id).isRoot = false)
    (run : Compile.carryOut load (Tag.renderLocalized id) s = (.ok (), s')) :
    ∃ t, s' = { s with tree := t } ∧ t.size = s.tree.size ∧
      ∀ other, t.own other = if other = id then (s.tree.own id).rendered else s.tree.own other := by
  have form : (s.tree.own id).rendered = _ := if_pos ⟨name, inner⟩
  unfold Tag.renderLocalized at run
  obtain ⟨_, t, demanded, run⟩ := carryOut_bind_ok run
  obtain ⟨params, checked, rfl⟩ := demand_ok demanded
  have same := Tag.checkParams_nil checked
  subst same
  -- The parameters are as they were, so the demand changes nothing.
  have kept : (s.tree.update id fun n => { n with params := (s.tree.own id).params }) = s.tree := by
    refine Tree.ext_own (Tree.size_update ..) fun other => ?_
    rw [Tree.own_update]
    split
    · rename_i here
      rw [here.1]
    · rfl
  rw [kept, carryOut_after carryOut_getTree, settled.target_eq] at run
  dsimp only at run
  have plain : s.tree.text? id = Tree.bodyText? (s.tree.own id).body := by
    unfold Tree.text? Tree.content
    rw [settled.target_eq]
  rw [plain] at run
  cases text : Tree.bodyText? (s.tree.own id).body with
  | none =>
    rw [text] at run form
    cases run
    refine ⟨_, rfl, Tree.size_update .., fun other => ?_⟩
    rw [Tree.own_update, form]
    by_cases same : other = id
    · rw [if_pos ⟨same, small⟩, if_pos same]
    · rw [if_neg fun h => same h.1, if_neg same]
  | some text' =>
    rw [text] at run form
    cases run
    have still : (s.tree.clear id).Settled id := ((Tree.SameLinks.clear _ _).settled_iff id).mpr settled
    have shape : (s.tree.clear id).append id (.code (Tag.localized text')) =
        s.tree.update id fun n => { n with opening := "", body := [.code (Tag.localized text')], closing := "" } := by
      rw [still.append_eq, settled.clear_eq, Tree.update_update]
      rfl
    refine ⟨_, rfl, ?_, fun other => ?_⟩
    · exact (congrArg Tree.size shape).trans (Tree.size_update ..)
    · refine (congrArg (fun t : Tree => t.own other) shape).trans ?_
      rw [Tree.own_update, form]
      by_cases same : other = id
      · rw [if_pos ⟨same, small⟩, if_pos same]
      · rw [if_neg fun h => same h.1, if_neg same]

namespace Emit

variable {W : Type} {α β : Type}

theorem bind_apply (a : Emit W α) (f : α → Emit W β) (e : EmitState) (s : CompileState W) :
    (a >>= f) e s =
      match a e s with
      | (.ok (x, e'), s') => f x e' s'
      | (.error er, s') => (.error er, s') := by
  refine (Compile.bind_apply (a e) (fun p => f p.1 p.2) s).trans ?_
  rcases a e s with ⟨er | ⟨x, e'⟩, s'⟩ <;> rfl

end Emit

/-- Only one of the standard tags has something to do when it is written. -/
theorem Tag.standard_onRender {tag : String} {handlers : Handlers}
    (found : Keyed.get? tag standardTable = some handlers) :
    tag = "t" ∧ handlers.onRender = some renderLocalized ∨ tag ≠ "t" ∧ handlers.onRender = none := by
  have mem := Keyed.mem_of_get? found
  rw [standardTable_eq] at mem
  simp only [List.mem_cons, Prod.mk.injEq, List.not_mem_nil, or_false] at mem
  rcases mem with ⟨rfl, rfl⟩ | ⟨rfl, rfl⟩ | ⟨rfl, rfl⟩ | ⟨rfl, rfl⟩ | ⟨rfl, rfl⟩ | ⟨rfl, rfl⟩ | ⟨rfl, rfl⟩ |
    ⟨rfl, rfl⟩ | ⟨rfl, rfl⟩ | ⟨rfl, rfl⟩ | ⟨rfl, rfl⟩ | ⟨rfl, rfl⟩
  all_goals first
    | exact Or.inl ⟨rfl, rfl⟩
    | exact Or.inr ⟨by decide, rfl⟩

section Standard

variable {W : Type} {load : Loader W} {s s' : CompileState W} {id : NodeId}

theorem Compile.render_ok (settled : s.tree.Settled id) (inner : (s.tree.own id).isRoot = false)
    (run : Compile.dispatch Tag.standardTable load id .onRender s = (.ok (), s')) :
    ∃ t, s' = { s with tree := t } ∧ t.size = s.tree.size ∧
      ∀ other, t.own other = if other = id then (s.tree.own id).rendered else s.tree.own other := by
  have unchanged : (s.tree.own id).name ≠ some "t" → s' = s →
      ∃ t, s' = { s with tree := t } ∧ t.size = s.tree.size ∧
        ∀ other, t.own other = if other = id then (s.tree.own id).rendered else s.tree.own other := by
    rintro plain rfl
    refine ⟨s'.tree, rfl, rfl, fun other => ?_⟩
    rw [Node.rendered_of_ne plain]
    split
    · rename_i same
      rw [same]
    · rfl
  unfold Compile.dispatch at run
  obtain ⟨t, s₁, asked, run⟩ := bind_ok run
  cases asked
  cases name : (s.tree.own id).name with
  | none =>
    rw [name] at run
    cases run
    exact unchanged (by rw [name]; exact fun h => (by cases h)) rfl
  | some tag =>
    rw [name] at run
    dsimp only at run
    cases found : Keyed.get? tag Tag.standardTable with
    | none =>
      rw [found] at run
      cases run
    | some handlers =>
      rw [found] at run
      dsimp only at run
      rw [if_neg fun h => (by cases h.1)] at run
      have handler : Compile.handlerFor handlers .onRender = handlers.onRender := rfl
      rw [handler] at run
      rcases Tag.standard_onRender found with ⟨rfl, render⟩ | ⟨other, render⟩
      · rw [render] at run
        have small : id.index < s.tree.size := by
          rcases Nat.lt_or_ge id.index s.tree.size with small | large
          · exact small
          · rw [Tree.own_of_size_le large] at name
            cases name
        exact Compile.renderLocalized_ok settled small name inner run
      · rw [render] at run
        cases run
        refine unchanged ?_ rfl
        rw [name]
        exact fun h => other (Option.some.inj h)

end Standard

namespace Emit

variable {W : Type} {load : Loader W} {t : Tree}

/-- What steps of writing do when they succeed: they add pieces, and render nodes of the tree. -/
def Adds (t : Tree) (e : EmitState) (s : CompileState W) (e' : EmitState) (s' : CompileState W)
    (ps : List Segment) : Prop :=
  e'.written = Written.add ps e.written ∧ ∃ t', s' = { s with tree := t' } ∧ t.Rendering t' e'.rendered

/-- A node is rendered the first time it is met, unless it is a root. -/
theorem render_apply (table : Tag.Table) (load : Loader W) (id : NodeId) (e : EmitState) (s : CompileState W) :
    render table load id e s =
      if (s.tree.own (s.tree.target id)).isRoot = true ∨ s.tree.target id ∈ e.rendered then
        (.ok (s.tree.target id, e), s)
      else
        match Compile.dispatch table load (s.tree.target id) .onRender s with
        | (.ok _, s') =>
          (.ok (s'.tree.target (s.tree.target id), { e with rendered := s.tree.target id :: e.rendered }), s')
        | (.error er, s') => (.error er, s') := by
  unfold render
  rw [bind_apply]
  have asked : (getTree : Emit W Tree) e s = (.ok (s.tree, e), s) := rfl
  rw [asked]
  dsimp only
  rw [bind_apply]
  have state : (get : Emit W EmitState) e s = (.ok (e, e), s) := rfl
  rw [state]
  dsimp only
  split
  · rfl
  · rw [bind_apply]
    have recorded : (set { e with rendered := s.tree.target id :: e.rendered } : Emit W PUnit) e s =
        (.ok (PUnit.unit, { e with rendered := s.tree.target id :: e.rendered }), s) := rfl
    rw [recorded]
    dsimp only
    rcases dispatched : Compile.dispatch table load (s.tree.target id) .onRender s with ⟨er | ⟨⟨⟩⟩, s'⟩
    · have lifted : (StateT.lift (Compile.dispatch table load (s.tree.target id) .onRender) : Emit W Unit)
          { e with rendered := s.tree.target id :: e.rendered } s = (.error er, s') := by
        refine (Compile.bind_apply _ _ s).trans ?_
        rw [dispatched]
      rw [bind_apply, lifted]
    · have lifted : (StateT.lift (Compile.dispatch table load (s.tree.target id) .onRender) : Emit W Unit)
          { e with rendered := s.tree.target id :: e.rendered } s =
            (.ok ((), { e with rendered := s.tree.target id :: e.rendered }), s') := by
        refine (Compile.bind_apply _ _ s).trans ?_
        rw [dispatched]
        rfl
      rw [bind_apply, lifted]
      rfl

theorem render_ok (sound : t.Sound) {e e' : EmitState} {s s' : CompileState W} {id id' : NodeId}
    (rendering : t.Rendering s.tree e.rendered)
    (run : render Tag.standardTable load id e s = (.ok (id', e'), s')) :
    Adds t e s e' s' [] ∧ id' = t.target id ∧ s'.tree.own id' = t.shown id := by
  rw [render_apply, rendering.target_eq sound] at run
  have own := rendering.own (t.target id)
  have shown : t.shown id = (t.own (t.target id)).rendered := rfl
  by_cases done : (s.tree.own (t.target id)).isRoot = true ∨ t.target id ∈ e.rendered
  · rw [if_pos done] at run
    cases run
    refine ⟨⟨rfl, s.tree, rfl, rendering⟩, rfl, ?_⟩
    rw [shown, own]
    split
    · rfl
    · rename_i fresh
      rw [own, if_neg fresh] at done
      exact (Node.rendered_of_root (done.resolve_right fresh)).symm
  · rw [if_neg done] at run
    obtain ⟨outer, fresh⟩ := not_or.mp done
    have inner : (s.tree.own (t.target id)).isRoot = false := Bool.eq_false_iff.mpr outer
    rw [if_neg fresh] at own
    rcases dispatched : Compile.dispatch Tag.standardTable load (t.target id) .onRender s with ⟨er | u, s₁⟩
    · rw [dispatched] at run
      cases run
    · rw [dispatched] at run
      have settled : s.tree.Settled (t.target id) :=
        (rendering.sameLinks.settled_iff _).mpr (sound.settled_target id)
      obtain ⟨t', rfl, size, changed⟩ := Compile.render_ok settled inner dispatched
      have after : t.Rendering t' (t.target id :: e.rendered) := rendering.add fresh size changed
      dsimp only at run
      rw [after.target_eq sound, sound.target_target] at run
      cases run
      refine ⟨⟨rfl, t', rfl, after⟩, rfl, ?_⟩
      have here := changed (t.target id)
      rw [if_pos rfl, own] at here
      exact here

theorem Adds.trans {e₁ e₂ e₃ : EmitState} {s₁ s₂ s₃ : CompileState W} {ps qs : List Segment}
    (first : Adds t e₁ s₁ e₂ s₂ ps) (second : Adds t e₂ s₂ e₃ s₃ qs) : Adds t e₁ s₁ e₃ s₃ (ps ++ qs) := by
  obtain ⟨written₁, t₁, rfl, -⟩ := first
  obtain ⟨written₂, t₂, rfl, rendering⟩ := second
  exact ⟨by rw [Written.add_append, ← written₁, written₂], t₂, rfl, rendering⟩

theorem Adds.rendering {e e' : EmitState} {s s' : CompileState W} {ps : List Segment} (adds : Adds t e s e' s' ps) :
    t.Rendering s'.tree e'.rendered := by
  obtain ⟨-, t', rfl, rendering⟩ := adds
  exact rendering

theorem addCode_adds {e : EmitState} {s : CompileState W} (rendering : t.Rendering s.tree e.rendered) (c : String) :
    ∃ e', (addCode c : Emit W Unit) e s = (.ok ((), e'), s) ∧ Adds t e s e' s (Segment.ofCode c) :=
  ⟨_, rfl, (Written.add_ofCode c e.written).symm, s.tree, rfl, rendering⟩

theorem addText_adds {e : EmitState} {s : CompileState W} (rendering : t.Rendering s.tree e.rendered) (c : String) :
    ∃ e', (addText c : Emit W Unit) e s = (.ok ((), e'), s) ∧ Adds t e s e' s (Segment.ofText c) :=
  ⟨_, rfl, (Written.add_ofText c e.written).symm, s.tree, rfl, rendering⟩

/-- A node that is written inside others adds what the element writes. -/
def WritesNodes (t : Tree) (active : List NodeId) (inner : NodeId → Emit W Unit) : Prop :=
  ∀ {id e s e' s'}, t.Rendering s.tree e.rendered → inner id e s = (.ok ((), e'), s') →
    t.target id ∉ active ∧ ∃ ps, t.WritesInside (t.target id :: active) (t.shown id).body ps ∧
      Adds t e s e' s' (Segment.ofCode (t.shown id).opening ++ ps ++ Segment.ofCode (t.shown id).closing)

theorem elements_ok {active : List NodeId} {inner : NodeId → Emit W Unit} (writes : WritesNodes t active inner)
    {body : List Element} {e e' : EmitState} {s s' : CompileState W} (rendering : t.Rendering s.tree e.rendered)
    (run : elements inner body e s = (.ok ((), e'), s')) :
    ∃ ps, t.WritesInside active body ps ∧ Adds t e s e' s' ps := by
  induction body generalizing e s with
  | nil =>
    cases run
    exact ⟨[], .nil, rfl, _, rfl, rendering⟩
  | cons element rest ih =>
    cases element with
    | text c =>
      obtain ⟨e₁, added, adds⟩ := addText_adds rendering c
      unfold elements at run
      rw [bind_apply, added] at run
      obtain ⟨ps, rest, more⟩ := ih adds.rendering run
      exact ⟨_, .text rest, adds.trans more⟩
    | code c =>
      obtain ⟨e₁, added, adds⟩ := addCode_adds rendering c
      unfold elements at run
      rw [bind_apply, added] at run
      obtain ⟨ps, rest, more⟩ := ih adds.rendering run
      exact ⟨_, .code rest, adds.trans more⟩
    | node child =>
      unfold elements at run
      rw [bind_apply] at run
      cases first : inner child e s with
      | mk r s₁ =>
        rw [first] at run
        cases r with
        | error er => cases run
        | ok p =>
          obtain ⟨apart, inside, body, adds⟩ := writes rendering first
          obtain ⟨ps, rest, more⟩ := ih adds.rendering run
          exact ⟨_, .node apart body rest, adds.trans more⟩

section Within

variable {table : Tag.Table} {depth : Nat} {active : List NodeId} {id target : NodeId} {e e₁ : EmitState}
  {s s₁ : CompileState W}

theorem nodeWithin_of_error {er : TemplateError} (failed : render table load id e s = (.error er, s₁)) :
    nodeWithin table load (depth + 1) active id e s = (.error er, s₁) := by
  unfold nodeWithin
  rw [bind_apply, failed]

theorem nodeWithin_of_mem (rendered : render table load id e s = (.ok (target, e₁), s₁)) (inside : target ∈ active) :
    nodeWithin table load (depth + 1) active id e s =
      (.error (.structural (s₁.tree.site target) "block content includes itself"), s₁) := by
  unfold nodeWithin
  rw [bind_apply, rendered]
  dsimp only
  rw [bind_apply]
  have asked : (getTree : Emit W Tree) e₁ s₁ = (.ok (s₁.tree, e₁), s₁) := rfl
  rw [asked]
  dsimp only
  rw [if_pos inside]
  rfl

/-- A node that is not being written yet is written between its opening and its closing. -/
theorem nodeWithin_of_not_mem (rendered : render table load id e s = (.ok (target, e₁), s₁))
    (apart : target ∉ active) :
    nodeWithin table load (depth + 1) active id e s =
      (addCode (s₁.tree.own target).opening >>= fun _ =>
        elements (nodeWithin table load depth (target :: active)) (s₁.tree.own target).body >>= fun _ =>
          addCode (s₁.tree.own target).closing) e₁ s₁ := by
  rw [nodeWithin, bind_apply, rendered]
  dsimp only
  rw [bind_apply]
  have asked : (getTree : Emit W Tree) e₁ s₁ = (.ok (s₁.tree, e₁), s₁) := rfl
  rw [asked]
  dsimp only
  rw [if_neg apart]

end Within

theorem nodeWithin_ok (sound : t.Sound) (depth : Nat) (active : List NodeId) :
    WritesNodes t active (nodeWithin (W := W) Tag.standardTable load depth active) := by
  induction depth generalizing active with
  | zero =>
    intro id e s e' s' rendering run
    cases run
  | succ depth ih =>
    intro id e s e' s' rendering run
    rcases first : render Tag.standardTable load id e s with ⟨er | ⟨id', e₁⟩, s₁⟩
    · rw [nodeWithin_of_error first] at run
      cases run
    · obtain ⟨adds, rfl, own⟩ := render_ok sound rendering first
      by_cases inside : t.target id ∈ active
      · rw [nodeWithin_of_mem first inside] at run
        cases run
      · rw [nodeWithin_of_not_mem first inside, own] at run
        obtain ⟨e₂, opened, adds₂⟩ := addCode_adds adds.rendering (t.shown id).opening
        rw [bind_apply, opened] at run
        dsimp only at run
        rw [bind_apply] at run
        rcases body : elements (nodeWithin Tag.standardTable load depth (t.target id :: active)) (t.shown id).body e₂ s₁
          with ⟨er | ⟨⟨⟩, e₃⟩, s₂⟩
        · rw [body] at run
          cases run
        · rw [body] at run
          obtain ⟨ps, writes, adds₃⟩ := elements_ok (ih (t.target id :: active)) adds₂.rendering body
          obtain ⟨e₄, closed, adds₄⟩ := addCode_adds adds₃.rendering (t.shown id).closing
          dsimp only at run
          rw [closed] at run
          cases run
          exact ⟨inside, ps, writes, ((adds.trans adds₂).trans adds₃).trans adds₄⟩

end Emit

/-- The artifact of a root is made of the pieces that the tree writes for it. -/
theorem Compile.artifact_writesInside {W : Type} {c : Compiler W} (standard : c.table = Tag.standardTable)
    {root : NodeId} {strip : Bool} {s s' : CompileState W} (sound : s.tree.Sound) {artifact : String}
    (run : Compile.artifact c root strip s = (.ok artifact, s')) :
    ∃ ps, s.tree.WritesInside [] [.node root] ps ∧ artifact = (Written.ofPieces ps).finish strip := by
  unfold Compile.artifact at run
  obtain ⟨t, s₁, asked, run⟩ := bind_ok run
  cases asked
  obtain ⟨p, s₂, written, run⟩ := bind_ok run
  cases run
  rw [standard] at written
  obtain ⟨⟨⟩, e⟩ := p
  obtain ⟨apart, ps, writes, adds⟩ := Emit.nodeWithin_ok sound _ [] (Tree.Rendering.start s.tree) written
  refine ⟨_, .node apart writes .nil, ?_⟩
  rw [List.append_nil]
  exact congrArg (Written.finish strip) adds.1

theorem Compile.artifact_writes {W : Type} {c : Compiler W} (standard : c.table = Tag.standardTable) {root : NodeId}
    {strip : Bool} {s s' : CompileState W} (sound : s.tree.Sound) {artifact : String}
    (run : Compile.artifact c root strip s = (.ok artifact, s')) :
    ∃ ps, s.tree.Writes [.node root] ps ∧ artifact = (Written.ofPieces ps).finish strip := by
  obtain ⟨ps, inside, same⟩ := artifact_writesInside standard sound run
  exact ⟨ps, inside.writes, same⟩

end Stencil
