import Stencil.Proofs.Tag.Strictness

/-!
What handlers complain of. A reference to a block that nothing registers is found out at the very end of a
compilation; no handler of a standard tag fails with that error.
-/
namespace Stencil

/-- The error of a reference to a block that there is not. -/
def TemplateError.unknownBlock (site : Site) (block : String) : TemplateError :=
  .structural site ("unknown block '" ++ block ++ "'")

/-- Any error but that of an unknown block. -/
def TemplateError.Ordinary (e : TemplateError) : Prop := ∀ site block, e ≠ unknownBlock site block

theorem TemplateError.ordinary_of_ne {e : TemplateError} (other : ∀ site reason, e ≠ .structural site reason) :
    e.Ordinary :=
  fun site _ => other site _

/-- A complaint about tags that do not fit together is told by how it begins. -/
theorem TemplateError.ordinary_structural {site : Site} {reason : String} (begins : reason.toList.head? ≠ some 'u') :
    (TemplateError.structural site reason).Ordinary := by
  intro site' block same
  have worded := (TemplateError.structural.inj same).2
  refine begins ?_
  rw [worded, String.toList_append, String.toList_append]
  rfl

/-- Parameters that do not meet a demand are missing, of another kind or unknown. -/
theorem Tag.checkParams_error {site : Site} {allowOthers : Bool} {specs : List ParamSpec} {params : Keyed String}
    {e : TemplateError} (failed : checkParams site allowOthers specs params = .error e) :
    ∃ reason, e = .missingParameter site reason ∨ e = .parameterType site reason := by
  have applied : ∀ (specs : List ParamSpec) (params : Keyed String) {e : TemplateError},
      applyAll site specs params = .error e →
        ∃ reason, e = .missingParameter site reason ∨ e = .parameterType site reason := by
    intro specs
    induction specs with
    | nil =>
      intro params e failed
      cases failed
    | cons spec specs ih =>
      intro params e failed
      unfold applyAll at failed
      cases first : spec.apply site params with
      | ok params' =>
        rw [first] at failed
        exact ih params' failed
      | error e' =>
        rw [first] at failed
        cases failed
        unfold ParamSpec.apply at first
        split at first
        · split at first
          · cases first
          · cases first
            exact ⟨_, .inl rfl⟩
        · split at first
          · cases first
          · cases first
            exact ⟨_, .inr rfl⟩
  unfold checkParams at failed
  cases all : applyAll site specs params with
  | error e' =>
    rw [all] at failed
    cases failed
    exact applied specs params all
  | ok params' =>
    rw [all] at failed
    dsimp only at failed
    generalize (if allowOthers = true then [] else undeclared specs params') = others at failed
    cases others with
    | nil => cases failed
    | cons key others =>
      cases failed
      exact ⟨_, .inr rfl⟩

theorem Tag.checkParams_ordinary {site : Site} {allowOthers : Bool} {specs : List ParamSpec} {params : Keyed String}
    {e : TemplateError} (failed : checkParams site allowOthers specs params = .error e) : e.Ordinary := by
  obtain ⟨reason, rfl | rfl⟩ := checkParams_error failed
  · exact TemplateError.ordinary_of_ne nofun
  · exact TemplateError.ordinary_of_ne nofun

namespace Handler

variable {α β : Type}

/-- The handler fails with ordinary errors only, if it is told of none but these. -/
def Ordinary : Handler α → Prop
  | .done _ => True
  | .fail e => e.Ordinary
  | .onTree _ next => ∀ t, (next t).Ordinary
  | .depth next => ∀ n, (next n).Ordinary
  | .lookup _ next => ∀ b, (next b).Ordinary
  | .define _ _ next => next.Ordinary
  | .defer _ next => next.Ordinary
  | .load _ _ next => ∀ r, (∀ e, r = .error e → e.Ordinary) → (next r).Ordinary
  | .replaceRoot _ next => next.Ordinary

theorem Ordinary.bind {h : Handler α} {f : α → Handler β} (ordinary : h.Ordinary) (rest : ∀ a, (f a).Ordinary) :
    (h.bind f).Ordinary := by
  induction h with
  | done a => exact rest a
  | fail e => exact ordinary
  | onTree change next ih => exact fun t => ih t (ordinary t)
  | depth next ih => exact fun n => ih n (ordinary n)
  | lookup block next ih => exact fun b => ih b (ordinary b)
  | define block node next ih => exact ih ordinary
  | defer node next ih => exact ih ordinary
  | load name via next ih => exact fun r told => ih r (ordinary r told)
  | replaceRoot node next ih => exact ih ordinary

section Pieces

theorem ordinary_getTree : getTree.Ordinary := fun _ => trivial

theorem ordinary_update (id : NodeId) (f : Node → Node) : (update id f).Ordinary := fun _ => trivial

theorem ordinary_append (id : NodeId) (e : Element) : (append id e).Ordinary := fun _ => trivial

theorem ordinary_redirect (source destination : NodeId) : (redirect source destination).Ordinary := fun _ => trivial

theorem ordinary_clear (id : NodeId) : (clear id).Ordinary := fun _ => trivial

theorem ordinary_own (id : NodeId) : (own id).Ordinary := fun _ => trivial

theorem ordinary_copy (id : NodeId) : (copy id).Ordinary := fun _ _ => trivial

theorem ordinary_getDepth : getDepth.Ordinary := fun _ => trivial

theorem ordinary_block? (name : String) : (block? name).Ordinary := fun _ => trivial

theorem ordinary_defineBlock (name : String) (node : NodeId) : (defineBlock name node).Ordinary := trivial

theorem ordinary_loadRoot (name : String) (via : Option NodeId) : (loadRoot name via).Ordinary := by
  intro r told
  cases r with
  | error e => exact told e rfl
  | ok root => trivial

theorem ordinary_structural (id : NodeId) {reason : String} (begins : reason.toList.head? ≠ some 'u') :
    (structural id reason : Handler α).Ordinary :=
  fun _ => TemplateError.ordinary_structural begins

theorem ordinary_badParameter (id : NodeId) (reason : String) : (badParameter id reason : Handler α).Ordinary :=
  fun _ => TemplateError.ordinary_of_ne nofun

theorem ordinary_demand (id : NodeId) (allowOthers : Bool) (specs : List Tag.ParamSpec) :
    (demand id allowOthers specs).Ordinary := by
  intro t
  show (Handler.bind (ofExcept _) _).Ordinary
  cases checked : Tag.checkParams (t.site id) allowOthers specs (t.own id).params with
  | error e => exact Tag.checkParams_ordinary checked
  | ok params => exact ordinary_update id _

end Pieces

end Handler

namespace Tag

open Handler

theorem ordinary_openIf (id : NodeId) : (openIf id).Ordinary :=
  (ordinary_demand id _ _).bind fun _ => ordinary_update id _

theorem ordinary_enclosingIf (id : NodeId) {complaint : String} (begins : complaint.toList.head? ≠ some 'u') :
    (enclosingIf id complaint).Ordinary := by
  refine ordinary_getTree.bind fun t => ?_
  cases (t.own id).parent with
  | none => exact ordinary_structural id begins
  | some parent =>
    dsimp only
    split
    · trivial
    · exact ordinary_structural id begins

theorem ordinary_placeElseIf (id : NodeId) : (placeElseIf id).Ordinary := by
  refine (ordinary_demand id _ _).bind fun _ => ?_
  refine (ordinary_enclosingIf id (by decide)).bind fun parent => ?_
  refine (ordinary_own parent).bind fun outer => ?_
  split
  · exact ordinary_structural id (by decide)
  · exact ordinary_update id _

theorem ordinary_placeElse (id : NodeId) : (placeElse id).Ordinary := by
  refine (ordinary_demand id _ _).bind fun _ => ?_
  refine (ordinary_enclosingIf id (by decide)).bind fun parent => ?_
  refine (ordinary_own parent).bind fun outer => ?_
  split
  · exact ordinary_structural id (by decide)
  · exact (ordinary_update id _).bind fun _ => ordinary_update parent _

theorem ordinary_openFor (id : NodeId) : (openFor id).Ordinary := by
  refine (ordinary_demand id _ _).bind fun _ => ?_
  refine (ordinary_own id).bind fun n => ?_
  dsimp only
  split
  · exact ordinary_badParameter id _
  · exact ordinary_update id _

theorem ordinary_openForeach (id : NodeId) : (openForeach id).Ordinary :=
  (ordinary_demand id _ _).bind fun _ => ordinary_update id _

theorem ordinary_blockName (id : NodeId) : (blockName id).Ordinary := (ordinary_own id).bind fun _ => trivial

/-- A tag asks for its block, and goes on in one of two ways. -/
theorem ordinary_byBlock {name : String} {f : Option Block → Handler Unit} (unknown : (f none).Ordinary)
    (known : ∀ b, (f (some b)).Ordinary) : (block? name >>= f).Ordinary := by
  refine (ordinary_block? name).bind fun found => ?_
  cases found with
  | none => exact unknown
  | some b => exact known b

theorem ordinary_openBlock (id : NodeId) : (openBlock id).Ordinary := by
  refine (ordinary_demand id _ _).bind fun _ => ?_
  refine (ordinary_blockName id).bind fun name => ?_
  exact ordinary_byBlock (ordinary_defineBlock name id) fun _ => trivial

theorem ordinary_closeBlock (id : NodeId) : (closeBlock id).Ordinary := by
  refine (ordinary_blockName id).bind fun name => ?_
  refine ordinary_getDepth.bind fun depth => ?_
  refine ordinary_byBlock (ordinary_defineBlock name id) fun known => ?_
  dsimp only
  split
  · trivial
  · split
    · exact ordinary_redirect id _
    · exact (ordinary_redirect _ id).bind fun _ => ordinary_defineBlock name id

theorem ordinary_closeBlockdef (id : NodeId) : (closeBlockdef id).Ordinary := by
  refine (ordinary_blockName id).bind fun name => ?_
  refine ordinary_getDepth.bind fun depth => ?_
  refine (ordinary_copy id).bind fun body => ?_
  refine (ordinary_clear id).bind fun _ => ?_
  refine ordinary_byBlock (ordinary_defineBlock name body) fun known => ?_
  dsimp only
  split
  · exact (ordinary_redirect _ body).bind fun _ => ordinary_defineBlock name body
  · exact ordinary_redirect body _

theorem ordinary_placePutblock (id : NodeId) : (placePutblock id).Ordinary := by
  refine (ordinary_demand id _ _).bind fun _ => ?_
  refine (ordinary_blockName id).bind fun name => ?_
  exact ordinary_byBlock trivial fun known => ordinary_redirect id _

theorem ordinary_additionPosition (id : NodeId) : (additionPosition id).Ordinary := by
  refine (ordinary_own id).bind fun n => ?_
  split
  · trivial
  · exact ordinary_badParameter id _

theorem ordinary_openAddblock (id : NodeId) : (openAddblock id).Ordinary := by
  refine (ordinary_demand id _ _).bind fun _ => ?_
  refine (ordinary_additionPosition id).bind fun _ => ?_
  refine (ordinary_blockName id).bind fun name => ?_
  exact ordinary_byBlock (ordinary_defineBlock name id) fun _ => trivial

theorem ordinary_addToBlock (block addition : NodeId) (position : Position) :
    (addToBlock block addition position).Ordinary := by
  cases position with
  | after => exact (ordinary_append block _).bind fun _ => ordinary_append block _
  | before => exact fun _ _ => trivial
  | index i => exact fun _ => trivial

theorem ordinary_closeAddblock (id : NodeId) : (closeAddblock id).Ordinary := by
  refine (ordinary_blockName id).bind fun name => ?_
  refine ordinary_byBlock trivial fun known => ?_
  dsimp only
  split
  · trivial
  · refine (ordinary_additionPosition id).bind fun position => ?_
    refine (ordinary_copy id).bind fun addition => ?_
    exact (ordinary_clear id).bind fun _ => ordinary_addToBlock _ addition position

theorem ordinary_placeExtends (id : NodeId) : (placeExtends id).Ordinary := by
  refine (ordinary_demand id _ _).bind fun _ => ?_
  refine (ordinary_own id).bind fun n => ?_
  exact (ordinary_loadRoot _ _).bind fun root => trivial

theorem ordinary_placeInclude (id : NodeId) : (placeInclude id).Ordinary := by
  refine (ordinary_demand id _ _).bind fun _ => ?_
  refine (ordinary_own id).bind fun n => ?_
  refine (ordinary_loadRoot _ _).bind fun root => ?_
  exact (ordinary_clear id).bind fun _ => ordinary_append id _

theorem ordinary_renderLocalized (id : NodeId) : (renderLocalized id).Ordinary := by
  refine (ordinary_demand id _ _).bind fun _ => ?_
  refine ordinary_getTree.bind fun t => ?_
  dsimp only
  split
  · exact (ordinary_clear _).bind fun _ => ordinary_append _ _
  · exact ordinary_update _ _

/-- No standard tag complains of an unknown block. -/
theorem standard_ordinary : ∀ b ∈ standard.bindings, ∀ id, (b.handler id).Ordinary := by
  intro b mem
  simp only [standard, List.mem_cons, List.not_mem_nil, or_false] at mem
  rcases mem with rfl | rfl | rfl | rfl | rfl | rfl | rfl | rfl | rfl | rfl | rfl | rfl | rfl | rfl | rfl
  · exact ordinary_openIf
  · exact ordinary_placeElseIf
  · exact ordinary_placeElse
  · exact ordinary_openFor
  · exact ordinary_openForeach
  · exact ordinary_openBlock
  · exact ordinary_closeBlock
  · exact fun id => ordinary_demand id _ _
  · exact ordinary_closeBlockdef
  · exact ordinary_placePutblock
  · exact ordinary_openAddblock
  · exact ordinary_closeAddblock
  · exact ordinary_placeExtends
  · exact ordinary_placeInclude
  · exact ordinary_renderLocalized

/-- A handler of the standard table, for whatever phase, is that of a standard tag. -/
theorem standard_handlerFor {tag : String} {handlers : Handlers} {phase : Phase} {handler : NodeHandler}
    (bound : Keyed.get? tag (Table.ofSets [standard]) = some handlers)
    (found : Compile.handlerFor handlers phase = some handler) : ∃ b ∈ standard.bindings, b.handler = handler := by
  have listed : ∀ phase, handlers.get phase = some handler → ∃ b ∈ standard.bindings, b.handler = handler := by
    intro phase found
    obtain ⟨set, among, b, mem, -, -, same⟩ := Table.exists_binding bound found
    cases List.mem_singleton.mp among
    exact ⟨b, mem, same⟩
  cases phase with
  | onOpen =>
    unfold Compile.handlerFor at found
    cases once : handlers.onOpenClose with
    | none =>
      rw [once] at found
      exact listed .onOpen found
    | some first =>
      rw [once] at found
      cases found
      exact listed .onOpenClose once
  | onClose => exact listed .onClose found
  | onRender => exact listed .onRender found
  | onOpenClose => exact listed .onOpenClose found

end Tag

end Stencil
