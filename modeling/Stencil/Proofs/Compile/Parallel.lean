import Stencil.Proofs.Tag.Complaints

/-!
Compilations that go through the same steps in different worlds. A relation of two compilations that holds of every
step which does without the world, and of what is made of related steps, holds of all that is built on handlers:
of the reading of whole sources and of the writing of whole trees. What the two do with the world is left to their
handlers.
-/
namespace Stencil

namespace Compile

variable {W₁ W₂ : Type}

/-- A relation that the steps of a compilation respect, handlers and loaders apart. -/
structure Parallel (R : (α : Type) → Compile W₁ α → Compile W₂ α → Prop) : Prop where
  pure : ∀ {α : Type} (a : α), R α (pure a) (pure a)
  throw : ∀ {α : Type} {e : TemplateError}, e.Ordinary → R α (throw e) (throw e)
  getTree : R Tree getTree getTree
  changeTree : ∀ change, R Unit (changeTree change) (changeTree change)
  bind : ∀ {α β : Type} {a₁ : Compile W₁ α} {a₂ : Compile W₂ α} {f₁ : α → Compile W₁ β} {f₂ : α → Compile W₂ β},
    R α a₁ a₂ → (∀ x, R β (f₁ x) (f₂ x)) → R β (a₁ >>= f₁) (a₂ >>= f₂)

namespace Parallel

variable {R : (α : Type) → Compile W₁ α → Compile W₂ α → Prop} (parallel : Parallel R) {table : Tag.Table}
  {load₁ : Loader W₁} {load₂ : Loader W₂}

include parallel

/-- Nodes are handed to handlers that are related. -/
theorem related_dispatch (id : NodeId) (phase : Tag.Phase)
    (acts : ∀ tag handlers handler, Keyed.get? tag table = some handlers →
      handlerFor handlers phase = some handler → R Unit (carryOut load₁ (handler id)) (carryOut load₂ (handler id))) :
    R Unit (dispatch table load₁ id phase) (dispatch table load₂ id phase) := by
  unfold dispatch
  refine parallel.bind parallel.getTree fun t => ?_
  cases (t.own id).name with
  | none => exact parallel.pure ()
  | some tag =>
    dsimp only
    cases bound : Keyed.get? tag table with
    | none => exact parallel.throw (TemplateError.ordinary_of_ne nofun)
    | some handlers =>
      dsimp only
      cases found : handlerFor handlers phase with
      | none =>
        dsimp only
        split
        · exact parallel.bind (parallel.changeTree _) fun _ => parallel.pure ()
        · exact parallel.pure ()
      | some handler =>
        have act := acts tag handlers handler bound found
        dsimp only
        split
        · exact parallel.bind (parallel.changeTree _) fun _ => act
        · exact act

/-! #### Sources -/

theorem related_createChild (file : String) (line : Nat) (parent : NodeId) :
    R NodeId (createChild file line parent) (createChild file line parent) := by
  unfold createChild
  refine parallel.bind parallel.getTree fun t => ?_
  exact parallel.bind (parallel.changeTree _) fun _ => parallel.pure _

theorem related_putVariable (file : String) (line : Nat) (expression : String) (parent : NodeId) :
    R Unit (putVariable file line expression parent) (putVariable file line expression parent) := by
  unfold putVariable
  refine parallel.bind (parallel.related_createChild file line parent) fun id => ?_
  exact parallel.bind (parallel.changeTree _) fun _ => parallel.changeTree _

section Reading

variable (dispatches : ∀ id phase, phase ≠ .onRender →
  R Unit (dispatch table load₁ id phase) (dispatch table load₂ id phase))

include dispatches

theorem related_putOpen (file : String) (line : Nat) (head : List Char) (parent : NodeId) (outer : List NodeId) :
    R _ (putOpen table load₁ file line head parent outer) (putOpen table load₂ file line head parent outer) := by
  unfold putOpen
  refine parallel.bind (parallel.related_createChild file line parent) fun id => ?_
  cases Markup.Head.parse head with
  | error e => exact parallel.throw (TemplateError.ordinary_of_ne nofun)
  | ok read =>
    refine parallel.bind (parallel.changeTree _) fun _ => ?_
    refine parallel.bind (dispatches id .onOpen (by decide)) fun _ => ?_
    refine parallel.bind parallel.getTree fun t => ?_
    by_cases waits : (t.own id).mustClose = true
    · rw [if_pos waits, if_pos waits]
      exact parallel.pure _
    · rw [if_neg waits, if_neg waits]
      exact parallel.bind (parallel.changeTree _) fun _ => parallel.pure _

theorem related_putClose (file : String) (line : Nat) (found : String) (top : NodeId) (outer : List NodeId) :
    R _ (putClose table load₁ file line found top outer)
      (putClose table load₂ file line found top outer) := by
  unfold putClose
  refine parallel.bind parallel.getTree fun t => ?_
  dsimp only
  by_cases mismatch : (t.own top).isRoot = true ∨ (t.own top).tag ≠ found
  · rw [if_pos mismatch, if_pos mismatch]
    exact parallel.throw (TemplateError.ordinary_of_ne nofun)
  · rw [if_neg mismatch, if_neg mismatch]
    refine parallel.bind (dispatches top .onClose (by decide)) fun _ => ?_
    cases outer with
    | nil => exact parallel.pure _
    | cons parent others => exact parallel.bind (parallel.changeTree _) fun _ => parallel.pure _

theorem related_put (file : String) (stack : List NodeId) (token : Markup.Token) :
    R _ (put table load₁ file stack token) (put table load₂ file stack token) := by
  unfold put
  cases stack with
  | nil => exact parallel.pure _
  | cons top outer =>
    dsimp only
    rcases token.kind with _ | _ | _ | _
    · exact parallel.bind (parallel.changeTree _) fun _ => parallel.pure _
    · exact parallel.bind (parallel.related_putVariable _ _ _ _) fun _ => parallel.pure _
    · exact parallel.related_putOpen dispatches _ _ _ _ _
    · exact parallel.related_putClose dispatches _ _ _ _ _

theorem related_puts (file : String) (tokens : List Markup.Token) (stack : List NodeId) :
    R _ (tokens.foldlM (put table load₁ file) stack) (tokens.foldlM (put table load₂ file) stack) := by
  induction tokens generalizing stack with
  | nil => exact parallel.pure _
  | cons token tokens ih =>
    rw [List.foldlM_cons, List.foldlM_cons]
    exact parallel.bind (parallel.related_put dispatches file stack token) fun stack => ih stack

theorem related_build (file : String) (root : NodeId) (tokens : List Markup.Token) :
    R _ (build table load₁ file root tokens) (build table load₂ file root tokens) := by
  unfold build
  refine parallel.bind (parallel.related_puts dispatches file tokens [root]) fun stack => ?_
  unfold checkClosed
  cases stack with
  | nil => exact parallel.pure _
  | cons top outer =>
    refine parallel.bind parallel.getTree fun t => ?_
    by_cases isRoot : (t.own top).isRoot = true
    · rw [if_pos isRoot, if_pos isRoot]
      exact parallel.pure _
    · rw [if_neg isRoot, if_neg isRoot]
      exact parallel.throw (TemplateError.ordinary_of_ne nofun)

end Reading

end Parallel

end Compile

/-! #### Artifacts -/

namespace Emit

variable {W₁ W₂ : Type} {α β : Type} {R : (α : Type) → Compile W₁ α → Compile W₂ α → Prop}

/-- Steps of writing are related if they are so whatever has been written. -/
def Related (R : (α : Type) → Compile W₁ α → Compile W₂ α → Prop) (a₁ : Emit W₁ α) (a₂ : Emit W₂ α) : Prop :=
  ∀ e : EmitState, R (α × EmitState) (a₁ e) (a₂ e)

variable (parallel : Compile.Parallel R)

include parallel

theorem related_bind {a₁ : Emit W₁ α} {a₂ : Emit W₂ α} {f₁ : α → Emit W₁ β} {f₂ : α → Emit W₂ β}
    (first : Related R a₁ a₂) (rest : ∀ x, Related R (f₁ x) (f₂ x)) : Related R (a₁ >>= f₁) (a₂ >>= f₂) :=
  fun e => parallel.bind (first e) fun x => rest x.1 x.2

theorem related_pure (a : α) : Related R (pure a) (pure a) := fun e => parallel.pure (a, e)

theorem related_throw {error : TemplateError} (ordinary : error.Ordinary) :
    Related R (throw error : Emit W₁ α) (throw error) :=
  fun _ => parallel.throw ordinary

theorem related_modify (f : EmitState → EmitState) : Related R (modify f : Emit W₁ Unit) (modify f) :=
  fun e => parallel.pure ((), f e)

theorem related_lift {a₁ : Compile W₁ α} {a₂ : Compile W₂ α} (related : R α a₁ a₂) :
    Related R (StateT.lift a₁ : Emit W₁ α) (StateT.lift a₂) :=
  fun e => parallel.bind related fun a => parallel.pure (a, e)

theorem related_getTree : Related R getTree getTree := related_lift parallel parallel.getTree

variable {table : Tag.Table} {load₁ : Loader W₁} {load₂ : Loader W₂}

theorem related_elements {inner₁ : NodeId → Emit W₁ Unit} {inner₂ : NodeId → Emit W₂ Unit}
    (inner : ∀ id, Related R (inner₁ id) (inner₂ id)) (body : List Element) :
    Related R (elements inner₁ body) (elements inner₂ body) := by
  induction body with
  | nil => exact related_pure parallel ()
  | cons e body ih =>
    cases e with
    | text s => exact related_bind parallel (related_modify parallel _) fun _ => ih
    | code c => exact related_bind parallel (related_modify parallel _) fun _ => ih
    | node child => exact related_bind parallel (inner child) fun _ => ih

variable (dispatches : ∀ id,
  R Unit (Compile.dispatch table load₁ id .onRender) (Compile.dispatch table load₂ id .onRender))

include dispatches

theorem related_render (id : NodeId) : Related R (render table load₁ id) (render table load₂ id) := by
  unfold render
  refine related_bind parallel (related_getTree parallel) fun t => ?_
  refine related_bind parallel (fun e => parallel.pure (e, e)) fun e => ?_
  by_cases settled : (t.own (t.target id)).isRoot = true ∨ t.target id ∈ e.rendered
  · rw [if_pos settled, if_pos settled]
    exact related_pure parallel _
  · rw [if_neg settled, if_neg settled]
    refine related_bind parallel (fun _ => parallel.pure (PUnit.unit, _)) fun _ => ?_
    refine related_bind parallel (related_lift parallel (dispatches _)) fun _ => ?_
    exact related_bind parallel (related_getTree parallel) fun t => related_pure parallel _

theorem related_nodeWithin (depth : Nat) (active : List NodeId) (id : NodeId) :
    Related R (nodeWithin table load₁ depth active id) (nodeWithin table load₂ depth active id) := by
  induction depth generalizing active id with
  | zero => exact related_bind parallel (related_getTree parallel) fun t =>
      related_throw parallel (TemplateError.ordinary_structural (by decide))
  | succ depth ih =>
    refine related_bind parallel (related_render parallel dispatches id) fun id => ?_
    refine related_bind parallel (related_getTree parallel) fun t => ?_
    by_cases inside : id ∈ active
    · rw [if_pos inside, if_pos inside]
      exact related_throw parallel (TemplateError.ordinary_structural (by decide))
    · rw [if_neg inside, if_neg inside]
      refine related_bind parallel (related_modify parallel _) fun _ => ?_
      refine related_bind parallel (related_elements parallel (fun child => ih (id :: active) child) _) fun _ => ?_
      exact related_modify parallel _

end Emit

/-- Artifacts are written alike if handlers render alike. -/
theorem Compile.Parallel.related_artifact {W₁ W₂ : Type} {R : (α : Type) → Compile W₁ α → Compile W₂ α → Prop}
    (parallel : Parallel R) {c₁ : Compiler W₁} {c₂ : Compiler W₂} (table : c₂.table = c₁.table)
    (dispatches : ∀ id, R Unit (dispatch c₁.table (load c₁) id .onRender) (dispatch c₁.table (load c₂) id .onRender))
    (root : NodeId) (strip : Bool) : R String (artifact c₁ root strip) (artifact c₂ root strip) := by
  unfold artifact
  refine parallel.bind parallel.getTree fun t => ?_
  rw [table]
  exact parallel.bind (Emit.related_nodeWithin parallel dispatches _ [] root ⟨[], []⟩) fun p => parallel.pure _

end Stencil
