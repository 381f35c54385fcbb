import Stencil.Main
import Stencil.Tag.Script

/-!
Handlers that give up when a template cannot be read, and handlers that have none read. All standard tags and all
scripts give up, and of the standard tags only those for inheritance and inclusion have templates read.
-/
namespace Stencil

namespace Handler

variable {α β : Type}

/-- The handler fails whatever it is told. -/
def Fails : Handler α → Prop
  | .done _ => False
  | .fail _ => True
  | .onTree _ next => ∀ t, (next t).Fails
  | .depth next => ∀ n, (next n).Fails
  | .lookup _ next => ∀ b, (next b).Fails
  | .define _ _ next => next.Fails
  | .defer _ next => next.Fails
  | .load _ _ next => ∀ r, (next r).Fails
  | .replaceRoot _ next => next.Fails

/-- The handler fails when a template cannot be read; it has none read unless it may. -/
def Strict (mayRead : Prop) : Handler α → Prop
  | .done _ => True
  | .fail _ => True
  | .onTree _ next => ∀ t, (next t).Strict mayRead
  | .depth next => ∀ n, (next n).Strict mayRead
  | .lookup _ next => ∀ b, (next b).Strict mayRead
  | .define _ _ next => next.Strict mayRead
  | .defer _ next => next.Strict mayRead
  | .load _ _ next => mayRead ∧ (∀ e, (next (.error e)).Fails) ∧ ∀ root, (next (.ok root)).Strict mayRead
  | .replaceRoot _ next => next.Strict mayRead

theorem Fails.bind {h : Handler α} (fails : h.Fails) (f : α → Handler β) : (h.bind f).Fails := by
  induction h with
  | done a => cases fails
  | fail e => trivial
  | onTree change next ih => exact fun t => ih t (fails t)
  | depth next ih => exact fun n => ih n (fails n)
  | lookup block next ih => exact fun b => ih b (fails b)
  | define block node next ih => exact ih fails
  | defer node next ih => exact ih fails
  | load name via next ih => exact fun r => ih r (fails r)
  | replaceRoot node next ih => exact ih fails

theorem Strict.bind {mayRead : Prop} {h : Handler α} {f : α → Handler β} (strict : h.Strict mayRead)
    (rest : ∀ a, (f a).Strict mayRead) : (h.bind f).Strict mayRead := by
  induction h with
  | done a => exact rest a
  | fail e => trivial
  | onTree change next ih => exact fun t => ih t (strict t)
  | depth next ih => exact fun n => ih n (strict n)
  | lookup block next ih => exact fun b => ih b (strict b)
  | define block node next ih => exact ih strict
  | defer node next ih => exact ih strict
  | load name via next ih => exact ⟨strict.1, fun e => (strict.2.1 e).bind f, fun root => ih _ (strict.2.2 root)⟩
  | replaceRoot node next ih => exact ih strict

section Pieces

variable {mayRead : Prop}

theorem strict_getTree : getTree.Strict mayRead := fun _ => trivial

theorem strict_changeTree (change : Tree → Tree) : (changeTree change).Strict mayRead := fun _ => trivial

theorem strict_update (id : NodeId) (f : Node → Node) : (update id f).Strict mayRead := strict_changeTree _

theorem strict_append (id : NodeId) (e : Element) : (append id e).Strict mayRead := strict_changeTree _

theorem strict_redirect (source destination : NodeId) : (redirect source destination).Strict mayRead :=
  strict_changeTree _

theorem strict_clear (id : NodeId) : (clear id).Strict mayRead := strict_changeTree _

theorem strict_own (id : NodeId) : (own id).Strict mayRead := fun _ => trivial

theorem strict_copy (id : NodeId) : (copy id).Strict mayRead := fun _ _ => trivial

theorem strict_getDepth : getDepth.Strict mayRead := fun _ => trivial

theorem strict_block? (name : String) : (block? name).Strict mayRead := fun _ => trivial

theorem strict_defineBlock (name : String) (node : NodeId) : (defineBlock name node).Strict mayRead := trivial

theorem strict_deferNode (node : NodeId) : (deferNode node).Strict mayRead := trivial

theorem strict_setRoot (node : NodeId) : (setRoot node).Strict mayRead := trivial

theorem strict_loadRoot (name : String) (via : Option NodeId) : (loadRoot name via).Strict True :=
  ⟨trivial, fun _ => trivial, fun _ => trivial⟩

theorem strict_structural (id : NodeId) (reason : String) : (structural id reason : Handler α).Strict mayRead :=
  fun _ => trivial

theorem strict_badParameter (id : NodeId) (reason : String) : (badParameter id reason : Handler α).Strict mayRead :=
  fun _ => trivial

theorem strict_demand (id : NodeId) (allowOthers : Bool) (specs : List Tag.ParamSpec) :
    (demand id allowOthers specs).Strict mayRead := by
  refine strict_getTree.bind fun t => ?_
  refine Strict.bind ?_ fun params => strict_update id _
  unfold ofExcept
  split <;> trivial

end Pieces

end Handler

/-- Every handler gives up when a template cannot be read, and none has one read while the artifact is written. -/
def Tag.Table.Steady (table : Tag.Table) : Prop :=
  ∀ (tag : String) (handlers : Tag.Handlers) (phase : Tag.Phase) (handler : Tag.NodeHandler) (id : NodeId),
    Keyed.get? tag table = some handlers → handlers.get phase = some handler →
      (handler id).Strict (phase ≠ .onRender)

namespace Tag

open Handler

variable {mayRead : Prop}

theorem strict_openIf (id : NodeId) : (openIf id).Strict mayRead :=
  (strict_demand id _ _).bind fun _ => strict_update id _

theorem strict_enclosingIf (id : NodeId) (complaint : String) : (enclosingIf id complaint).Strict mayRead := by
  refine strict_getTree.bind fun t => ?_
  cases (t.own id).parent with
  | none => exact strict_structural id complaint
  | some parent =>
    dsimp only
    split
    · trivial
    · exact strict_structural id complaint

theorem strict_placeElseIf (id : NodeId) : (placeElseIf id).Strict mayRead := by
  refine (strict_demand id _ _).bind fun _ => ?_
  refine (strict_enclosingIf id _).bind fun parent => ?_
  refine (strict_own parent).bind fun outer => ?_
  split
  · exact strict_structural id _
  · exact strict_update id _

theorem strict_placeElse (id : NodeId) : (placeElse id).Strict mayRead := by
  refine (strict_demand id _ _).bind fun _ => ?_
  refine (strict_enclosingIf id _).bind fun parent => ?_
  refine (strict_own parent).bind fun outer => ?_
  split
  · exact strict_structural id _
  · exact (strict_update id _).bind fun _ => strict_update parent _

theorem strict_openFor (id : NodeId) : (openFor id).Strict mayRead := by
  refine (strict_demand id _ _).bind fun _ => ?_
  refine (strict_own id).bind fun n => ?_
  dsimp only
  split
  · exact strict_badParameter id _
  · exact strict_update id _

theorem strict_openForeach (id : NodeId) : (openForeach id).Strict mayRead :=
  (strict_demand id _ _).bind fun _ => strict_update id _

theorem strict_blockName (id : NodeId) : (blockName id).Strict mayRead := (strict_own id).bind fun _ => trivial

theorem strict_openBlock (id : NodeId) : (openBlock id).Strict mayRead := by
  refine (strict_demand id _ _).bind fun _ => ?_
  refine (strict_blockName id).bind fun name => ?_
  refine (strict_block? name).bind fun known => ?_
  cases known with
  | none => exact strict_defineBlock name id
  | some known => trivial

theorem strict_closeBlock (id : NodeId) : (closeBlock id).Strict mayRead := by
  refine (strict_blockName id).bind fun name => ?_
  refine strict_getDepth.bind fun depth => ?_
  refine (strict_block? name).bind fun known => ?_
  cases known with
  | none => exact strict_defineBlock name id
  | some known =>
    dsimp only
    split
    · trivial
    · split
      · exact strict_redirect id _
      · exact (strict_redirect _ id).bind fun _ => strict_defineBlock name id

theorem strict_openBlockdef (id : NodeId) : (openBlockdef id).Strict mayRead := strict_demand id _ _

theorem strict_closeBlockdef (id : NodeId) : (closeBlockdef id).Strict mayRead := by
  refine (strict_blockName id).bind fun name => ?_
  refine strict_getDepth.bind fun depth => ?_
  refine (strict_copy id).bind fun body => ?_
  refine (strict_clear id).bind fun _ => ?_
  refine (strict_block? name).bind fun known => ?_
  cases known with
  | none => exact strict_defineBlock name body
  | some known =>
    dsimp only
    split
    · exact (strict_redirect _ body).bind fun _ => strict_defineBlock name body
    · exact strict_redirect body _

theorem strict_placePutblock (id : NodeId) : (placePutblock id).Strict mayRead := by
  refine (strict_demand id _ _).bind fun _ => ?_
  refine (strict_blockName id).bind fun name => ?_
  refine (strict_block? name).bind fun known => ?_
  cases known with
  | none => exact strict_deferNode id
  | some known => exact strict_redirect id _

theorem strict_additionPosition (id : NodeId) : (additionPosition id).Strict mayRead := by
  refine (strict_own id).bind fun n => ?_
  split
  · trivial
  · exact strict_badParameter id _

theorem strict_openAddblock (id : NodeId) : (openAddblock id).Strict mayRead := by
  refine (strict_demand id _ _).bind fun _ => ?_
  refine (strict_additionPosition id).bind fun _ => ?_
  refine (strict_blockName id).bind fun name => ?_
  refine (strict_block? name).bind fun known => ?_
  cases known with
  | none => exact strict_defineBlock name id
  | some known => trivial

theorem strict_addToBlock (block addition : NodeId) (position : Position) :
    (addToBlock block addition position).Strict mayRead := by
  cases position with
  | after => exact (strict_append block _).bind fun _ => strict_append block _
  | before => exact (strict_changeTree _).bind fun _ => strict_changeTree _
  | index i => exact strict_changeTree _

theorem strict_closeAddblock (id : NodeId) : (closeAddblock id).Strict mayRead := by
  refine (strict_blockName id).bind fun name => ?_
  refine (strict_block? name).bind fun known => ?_
  cases known with
  | none => trivial
  | some known =>
    dsimp only
    split
    · trivial
    · refine (strict_additionPosition id).bind fun position => ?_
      refine (strict_copy id).bind fun addition => ?_
      exact (strict_clear id).bind fun _ => strict_addToBlock _ addition position

theorem strict_placeExtends (id : NodeId) : (placeExtends id).Strict True := by
  refine (strict_demand id _ _).bind fun _ => ?_
  refine (strict_own id).bind fun n => ?_
  exact (strict_loadRoot _ _).bind fun root => strict_setRoot root

theorem strict_placeInclude (id : NodeId) : (placeInclude id).Strict True := by
  refine (strict_demand id _ _).bind fun _ => ?_
  refine (strict_own id).bind fun n => ?_
  refine (strict_loadRoot _ _).bind fun root => ?_
  exact (strict_clear id).bind fun _ => strict_append id _

theorem strict_renderLocalized (id : NodeId) : (renderLocalized id).Strict mayRead := by
  refine (strict_demand id _ _).bind fun _ => ?_
  refine strict_getTree.bind fun t => ?_
  dsimp only
  split
  · exact (strict_clear _).bind fun _ => strict_append _ _
  · exact strict_update _ _

theorem strict_action (id : NodeId) (fill : String → String) (action : Action) : (action.run id fill).Strict True := by
  cases action with
  | opening s => exact strict_update id _
  | closing s => exact strict_update id _
  | text s => exact strict_append id _
  | code s => exact strict_append id _
  | insert s position =>
    simp only [Action.run]
    split
    · exact strict_changeTree _
    · exact strict_badParameter id _
  | mustClose b => exact strict_update id _
  | clear => exact strict_clear id
  | check allowOthers specs => exact strict_demand id _ _
  | reject s => exact strict_structural id _
  | rejectParameter s => exact strict_badParameter id _
  | embed s => exact (strict_loadRoot _ _).bind fun root => strict_append id _
  | require s => exact (strict_loadRoot _ _).bind fun _ => trivial
  | become s => exact (strict_loadRoot _ _).bind fun root => strict_setRoot root
  | becomeHere => exact strict_setRoot id
  | define s => exact strict_defineBlock _ id
  | redirect s =>
    refine (strict_block? _).bind fun known => ?_
    cases known with
    | none => trivial
    | some known => exact strict_redirect id _
  | defer => exact strict_deferNode id
  | depth => exact strict_getDepth.bind fun n => strict_append id _
  | block s => exact (strict_block? _).bind fun known => strict_append id _
  | quote => exact strict_getTree.bind fun t => (strict_clear id).bind fun _ => strict_append id _
  | outline => exact strict_getTree.bind fun t => (strict_clear id).bind fun _ => strict_append id _
  | wrap => exact (strict_copy id).bind fun inner => (strict_clear id).bind fun _ => strict_append id _
  | selfContain => exact strict_append id _

/-- A script gives up when a template cannot be read. -/
theorem strict_script (actions : List Action) (id : NodeId) : (script actions id).Strict True := by
  induction actions with
  | nil => trivial
  | cons action actions ih =>
    refine (strict_own id).bind fun n => ?_
    exact (strict_action id _ action).bind fun _ => ih

/-! #### Tables -/

/-- A binding as a table needs it to be steady. -/
def Binding.Steady (b : Binding) : Prop := ∀ id, (b.handler id).Strict (b.phase ≠ .onRender)

theorem Handlers.get_set (hs : Handlers) (phase other : Phase) (h : NodeHandler) :
    (hs.set phase h).get other = if other = phase then some h else hs.get other := by
  cases phase <;> cases other <;> rfl

/-- Every handler of a table was bound to its tag and phase by one of the sets. -/
theorem Table.exists_binding {sets : List TagSet} {tag : String} {handlers : Handlers} {phase : Phase}
    {handler : NodeHandler} (bound : Keyed.get? tag (Table.ofSets sets) = some handlers)
    (found : handlers.get phase = some handler) :
    ∃ set ∈ sets, ∃ b ∈ set.bindings, b.tag = tag ∧ b.phase = phase ∧ b.handler = handler := by
  -- A table is made binding after binding, and what a binding does not replace was there before.
  have all : ∀ (bindings : List Binding) (table : Table) (handlers : Handlers),
      Keyed.get? tag (bindings.foldl Table.bind table) = some handlers → handlers.get phase = some handler →
      (∃ b ∈ bindings, b.tag = tag ∧ b.phase = phase ∧ b.handler = handler) ∨
        ∃ before, Keyed.get? tag table = some before ∧ before.get phase = some handler := by
    intro bindings
    induction bindings with
    | nil => exact fun table handlers bound found => .inr ⟨handlers, bound, found⟩
    | cons b bindings ih =>
      intro table handlers bound found
      rcases ih (table.bind b) handlers bound found with ⟨other, mem, there⟩ | ⟨after, bound, found⟩
      · exact .inl ⟨other, List.mem_cons_of_mem _ mem, there⟩
      · by_cases same : b.tag = tag
        · rw [Table.bind, same, Keyed.get?_put_self] at bound
          cases bound
          rw [Handlers.get_set] at found
          split at found
          · rename_i here
            exact .inl ⟨b, List.mem_cons_self, same, here.symm, Option.some.inj found⟩
          · cases known : Keyed.get? tag table with
            | none =>
              rw [known] at found
              cases phase <;> cases found
            | some before =>
              rw [known] at found
              exact .inr ⟨before, rfl, found⟩
        · rw [Table.bind, Keyed.get?_put_of_ne same] at bound
          exact .inr ⟨after, bound, found⟩
  rcases all _ [] handlers bound found with ⟨b, mem, there⟩ | ⟨before, bound, -⟩
  · obtain ⟨set, among, mem⟩ := List.mem_flatMap.mp mem
    exact ⟨set, among, b, mem, there⟩
  · cases bound

theorem Table.steady_ofSets {sets : List TagSet} (fine : ∀ set ∈ sets, ∀ b ∈ set.bindings, b.Steady) :
    (Table.ofSets sets).Steady := by
  intro tag handlers phase handler id bound found
  obtain ⟨set, among, b, mem, -, rfl, rfl⟩ := exists_binding bound found
  exact fine set among b mem id

theorem standard_steady : ∀ b ∈ standard.bindings, b.Steady := by
  have reading : ∀ p : Phase, p ≠ .onRender → (p ≠ .onRender) = True := fun _ h => eq_true h
  intro b hb
  simp only [standard, List.mem_cons, List.not_mem_nil, or_false] at hb
  rcases hb with rfl | rfl | rfl | rfl | rfl | rfl | rfl | rfl | rfl | rfl | rfl | rfl | rfl | rfl | rfl
  · exact strict_openIf
  · exact strict_placeElseIf
  · exact strict_placeElse
  · exact strict_openFor
  · exact strict_openForeach
  · exact strict_openBlock
  · exact strict_closeBlock
  · exact strict_openBlockdef
  · exact strict_closeBlockdef
  · exact strict_placePutblock
  · exact strict_openAddblock
  · exact strict_closeAddblock
  · intro id
    rw [reading _ (by decide)]
    exact strict_placeExtends id
  · intro id
    rw [reading _ (by decide)]
    exact strict_placeInclude id
  · exact strict_renderLocalized

end Tag

end Stencil
