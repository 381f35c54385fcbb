import Stencil.Proofs.Compile.Generation

/-!
The calls that are made while an artifact is written. A call is for one handle, inside the nodes that are being
written and with so many pieces written before. All calls for handles with the same target add the same pieces,
whatever has been rendered between them.
-/
namespace Stencil

open Artifact (Segment Written)

namespace Tree

variable {t : Tree} {x y : NodeId}

/-- What is written for elements is unique. -/
theorem Writes.unique {body : List Element} {ps qs : List Segment} (writes : t.Writes body ps)
    (writes' : t.Writes body qs) : ps = qs := by
  induction writes generalizing qs with
  | nil =>
    cases writes'
    rfl
  | text _ ih =>
    cases writes' with
    | text rest => rw [ih rest]
  | code _ ih =>
    cases writes' with
    | code rest => rw [ih rest]
  | node _ _ ih ihRest =>
    cases writes' with
    | node inner rest => rw [ih inner, ihRest rest]

theorem shown_of_target (same : t.target x = t.target y) : t.shown x = t.shown y := by
  unfold shown content
  rw [same]

/-- Handles with the same target are written alike. -/
theorem Writes.of_target {ps : List Segment} (same : t.target x = t.target y) (writes : t.Writes [.node x] ps) :
    t.Writes [.node y] ps := by
  cases writes with
  | node inner rest =>
    cases rest
    rw [shown_of_target same] at inner ⊢
    exact .node inner .nil

end Tree

namespace Emit

variable {W : Type} {table : Tag.Table} {load : Loader W} {t : Tree}

/-- A call of the writer for a handle. -/
structure Call (W : Type) where
  /-- How deep further calls may be nested in this one. -/
  depth : Nat
  /-- The nodes that are being written. -/
  active : List NodeId
  handle : NodeId
  before : EmitState
  state : CompileState W

namespace Call

/-- What the call does. -/
def run (table : Tag.Table) (load : Loader W) (call : Call W) : Except TemplateError (Unit × EmitState) × CompileState W :=
  nodeWithin table load call.depth call.active call.handle call.before call.state

/-- The call for the root of an artifact. -/
def first (root : NodeId) (s : CompileState W) : Call W := ⟨s.tree.size + 1 + growth, [], root, ⟨[], []⟩, s⟩

/-- One call is made by another: the outer one has its node rendered, and has written what stands in front. -/
inductive Makes (table : Tag.Table) (load : Loader W) : Call W → Call W → Prop where
  | inside {depth : Nat} {active : List NodeId} {id target child : NodeId} {e e₁ e₂ : EmitState}
      {s s₁ s₂ : CompileState W} {front back : List Element}
      (renders : render table load id e s = (.ok (target, e₁), s₁))
      (apart : target ∉ active)
      (body : (s₁.tree.own target).body = front ++ .node child :: back)
      (writes : (addCode (s₁.tree.own target).opening >>= fun _ =>
        elements (nodeWithin table load depth (target :: active)) front) e₁ s₁ = (.ok ((), e₂), s₂)) :
      Makes table load ⟨depth + 1, active, id, e, s⟩ ⟨depth, target :: active, child, e₂, s₂⟩

/-- The calls that are made in the course of a call. -/
inductive Within (table : Tag.Table) (load : Loader W) (outer : Call W) : Call W → Prop where
  | itself : Within table load outer outer
  | inner {call next : Call W} : Within table load outer call → Makes table load call next → Within table load outer next

end Call

theorem elements_append (inner : NodeId → Emit W Unit) (front back : List Element) :
    elements inner (front ++ back) = elements inner front >>= fun _ => elements inner back := by
  induction front with
  | nil => exact (pure_bind (m := Emit W) () fun _ => elements inner back).symm
  | cons element front ih =>
    cases element with
    | text s => simp only [List.cons_append, elements, ih, bind_assoc]
    | code c => simp only [List.cons_append, elements, ih, bind_assoc]
    | node child => simp only [List.cons_append, elements, ih, bind_assoc]

/-- Steps of writing that succeed together succeed one after the other. -/
theorem bind_ok {α β : Type} {a : Emit W α} {f : α → Emit W β} {e e' : EmitState} {s s' : CompileState W} {y : β}
    (run : (a >>= f) e s = (.ok (y, e'), s')) :
    ∃ x e₁ s₁, a e s = (.ok (x, e₁), s₁) ∧ f x e₁ s₁ = (.ok (y, e'), s') := by
  rw [bind_apply] at run
  rcases first : a e s with ⟨er | ⟨x, e₁⟩, s₁⟩
  · rw [first] at run
    cases run
  · rw [first] at run
    exact ⟨x, e₁, s₁, rfl, run⟩

theorem bind_of_ok {α β : Type} {a : Emit W α} {f : α → Emit W β} {e e₁ : EmitState} {s s₁ : CompileState W} {x : α}
    (first : a e s = (.ok (x, e₁), s₁)) : (a >>= f) e s = f x e₁ s₁ := by
  rw [bind_apply, first]

namespace Call

variable {call next outer : Call W}

/-- A call is made when some of the nodes have been rendered, and nothing else of the tree has changed. -/
theorem Makes.rendering (sound : t.Sound) (rendering : t.Rendering call.state.tree call.before.rendered)
    (makes : Makes Tag.standardTable load call next) : t.Rendering next.state.tree next.before.rendered := by
  cases makes with
  | inside renders apart body writes =>
    obtain ⟨adds, -, -⟩ := render_ok sound rendering renders
    obtain ⟨⟨⟩, e, s, opened, front⟩ := bind_ok writes
    obtain ⟨e', opened', adds'⟩ := addCode_adds adds.rendering _
    cases opened.symm.trans opened'
    obtain ⟨ps, -, adds''⟩ := elements_ok (nodeWithin_ok sound _ _) adds'.rendering front
    exact adds''.rendering

/-- A call that succeeds makes no call that fails. -/
theorem Makes.succeeds {e' : EmitState} {s' : CompileState W} (makes : Makes table load call next)
    (run : call.run table load = (.ok ((), e'), s')) : ∃ e'' s'', next.run table load = (.ok ((), e''), s'') := by
  cases makes with
  | inside renders apart body writes =>
    unfold Call.run at run
    dsimp only at run
    rw [nodeWithin_of_not_mem renders apart, body, elements_append] at run
    obtain ⟨⟨⟩, e₃, s₃, opened, run⟩ := bind_ok run
    obtain ⟨⟨⟩, e₄, s₄, written, -⟩ := bind_ok run
    obtain ⟨⟨⟩, e₅, s₅, front, rest⟩ := bind_ok written
    rw [bind_of_ok opened] at writes
    cases front.symm.trans writes
    obtain ⟨⟨⟩, e₆, s₆, child, -⟩ := bind_ok rest
    exact ⟨e₆, s₆, child⟩

/-- So it is for all calls in the course of a call. -/
theorem Within.sound (sound : t.Sound) (rendering : t.Rendering outer.state.tree outer.before.rendered)
    {e' : EmitState} {s' : CompileState W} (run : outer.run Tag.standardTable load = (.ok ((), e'), s'))
    (inside : Within Tag.standardTable load outer call) :
    t.Rendering call.state.tree call.before.rendered ∧
      ∃ e'' s'', call.run Tag.standardTable load = (.ok ((), e''), s'') := by
  induction inside with
  | itself => exact ⟨rendering, e', s', run⟩
  | inner _ makes ih =>
    obtain ⟨rendering, e₁, s₁, run⟩ := ih
    exact ⟨makes.rendering sound rendering, makes.succeeds run⟩

/-- A call adds what the tree writes for its handle. -/
theorem run_adds (sound : t.Sound) (rendering : t.Rendering call.state.tree call.before.rendered)
    {e' : EmitState} {s' : CompileState W} (run : call.run Tag.standardTable load = (.ok ((), e'), s')) :
    ∃ ps, t.Writes [.node call.handle] ps ∧ e'.written = Written.add ps call.before.written := by
  obtain ⟨-, ps, inside, adds⟩ := nodeWithin_ok sound call.depth call.active rendering run
  refine ⟨_, .node inside.writes .nil, ?_⟩
  rw [List.append_nil]
  exact adds.1

end Call

end Emit

namespace Compile

variable {W : Type} {c : Compiler W} {s s' : CompileState W} {root : NodeId} {strip : Bool} {artifact : String}

/-- An artifact is what the call for its root has written. -/
theorem artifact_first (run : Compile.artifact c root strip s = (.ok artifact, s')) :
    ∃ e, (Emit.Call.first root s).run c.table (load c) = (.ok ((), e), s') ∧ artifact = e.written.finish strip := by
  unfold Compile.artifact at run
  obtain ⟨t, s₁, asked, run⟩ := bind_ok run
  cases asked
  obtain ⟨⟨⟨⟩, e⟩, s₂, written, run⟩ := bind_ok run
  -- Said in so many words: comparing the two by unfolding would count down the whole bound on the nesting.
  rw [StateT.run] at written
  cases run
  exact ⟨e, written, rfl⟩

/-- While an artifact is written, all calls for handles with one target succeed and add the same pieces. -/
theorem calls_add_alike (standard : c.table = Tag.standardTable) (sound : s.tree.Sound)
    (run : Compile.artifact c root strip s = (.ok artifact, s')) (target : NodeId) :
    ∃ ps, ∀ call, Emit.Call.Within c.table (load c) (.first root s) call → s.tree.target call.handle = target →
      ∃ e s₁, call.run c.table (load c) = (.ok ((), e), s₁) ∧ e.written = Written.add ps call.before.written := by
  obtain ⟨e, first, -⟩ := artifact_first run
  rw [standard] at first ⊢
  have each : ∀ call, Emit.Call.Within Tag.standardTable (load c) (.first root s) call →
      ∃ e s₁ ps, call.run Tag.standardTable (load c) = (.ok ((), e), s₁) ∧ s.tree.Writes [.node call.handle] ps ∧
        e.written = Written.add ps call.before.written := by
    intro call inside
    obtain ⟨rendering, e₁, s₁, ran⟩ := inside.sound sound (Tree.Rendering.start s.tree) first
    obtain ⟨ps, writes, added⟩ := Emit.Call.run_adds sound rendering ran
    exact ⟨e₁, s₁, ps, ran, writes, added⟩
  by_cases written : ∃ call, Emit.Call.Within Tag.standardTable (load c) (.first root s) call ∧
      s.tree.target call.handle = target
  · obtain ⟨call, inside, leads⟩ := written
    obtain ⟨-, -, ps, -, writes, -⟩ := each call inside
    refine ⟨ps, fun other inside' leads' => ?_⟩
    obtain ⟨e₁, s₁, qs, ran, writes', added⟩ := each other inside'
    cases (writes.of_target (leads.trans leads'.symm)).unique writes'
    exact ⟨e₁, s₁, ran, added⟩
  · exact ⟨[], fun call inside leads => absurd ⟨call, inside, leads⟩ written⟩

end Compile

end Stencil
