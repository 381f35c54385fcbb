import Stencil.Proofs.Compile.Cycles
import Stencil.Proofs.Compile.UnknownBlocks
import Stencil.Proofs.Tree.Places

/-!
Errors and their places. While templates are read from memory, every node of the tree is where it comes from; so where
a standard tag complains of a node, a tag of its name begins.
-/
namespace Stencil

open Tag

/-- Where the error has a place, the tag that it names begins; a closing tag that closes nothing is named by what is
found. The only other place is the beginning of a template that is written inside itself. -/
inductive TemplateError.Points (texts : Texts) : TemplateError → Prop where
  | nowhere {e : TemplateError} (none : e.site? = none) : Points texts e
  | opening {e : TemplateError} {site : Site} {text : String} (place : e.site? = some site)
      (other : ∀ found, e ≠ .tagMismatch site found) (read : texts site.file = some text)
      (opens : Markup.OpensAt text.toList site.line site.tag) : Points texts e
  | closing {tag file found text : String} {line : Nat} (read : texts file = some text)
      (closes : Markup.ClosesAt text.toList line found) : Points texts (.tagMismatch ⟨tag, file, line⟩ found)
  | root {file text : String} (read : texts file = some text) :
      Points texts (.structural ⟨"", file, 1⟩ "block content includes itself")

/-- The texts of those templates that have been read. -/
def MemorySources.textsOf (sources : MemorySources) (read : Keyed (Option Stamp)) : Texts := fun file =>
  if file ∈ Keyed.keys read then (Keyed.get? file sources.entries).map (·.1) else none

namespace Compile

/-- The sources stay as they are, every node is where it comes from, and all that is held on to is a tag or a root. -/
structure Mapped (sources : MemorySources) (s : CompileState MemorySources) : Prop where
  world : s.world = sources
  placed : s.tree.Placed (sources.textsOf s.sources)
  blocks : ∀ name b, Keyed.get? name s.blocks = some b → s.tree.Firm b.node
  deferred : ∀ id ∈ s.deferred, (s.tree.own id).name ≠ none
  finished : ∀ identity root, Keyed.get? identity s.finished = some root → s.tree.Firm root
  frames : ∀ frame ∈ s.frames, s.tree.Firm frame.root

/-- Later on. -/
structure Onward (s s' : CompileState MemorySources) : Prop where
  tree : s.tree.Retains s'.tree
  sources : Keyed.keys s.sources ⊆ Keyed.keys s'.sources

variable {sources : MemorySources} {s s' s'' : CompileState MemorySources} {id : NodeId} {α β : Type}

theorem Onward.refl (s : CompileState MemorySources) : Onward s s := ⟨.refl s.tree, fun _ mem => mem⟩

theorem Onward.onTree {t : Tree} (retains : s.tree.Retains t) : Onward s { s with tree := t } :=
  ⟨retains, fun _ mem => mem⟩

/-- Neither the tree nor what has been read is another. -/
theorem Onward.aside (tree : s'.tree = s.tree) (sources : s'.sources = s.sources) : Onward s s' := by
  refine ⟨?_, ?_⟩
  · rw [tree]
    exact .refl s.tree
  · rw [sources]
    exact fun _ mem => mem

theorem Onward.trans (first : Onward s s') (second : Onward s' s'') : Onward s s'' :=
  ⟨first.tree.trans second.tree, fun _ mem => second.sources (first.sources mem)⟩

theorem Onward.named (onward : Onward s s') (named : (s.tree.own id).name ≠ none) :
    (s'.tree.own id).name ≠ none := by
  rw [(onward.tree id (.inl named)).1]
  exact named

theorem textsOf_mono {read more : Keyed (Option Stamp)} (sub : Keyed.keys read ⊆ Keyed.keys more) (file text : String)
    (known : sources.textsOf read file = some text) : sources.textsOf more file = some text := by
  unfold MemorySources.textsOf at known ⊢
  split at known
  · rename_i mem
    rw [if_pos (sub mem)]
    exact known
  · cases known

/-- The tree has changed, and nothing else. -/
theorem Mapped.onTree {t : Tree} (mapped : Mapped sources s) (retains : s.tree.Retains t)
    (placed : t.Placed (sources.textsOf s.sources)) : Mapped sources { s with tree := t } := by
  have onward : Onward s { s with tree := t } := .onTree retains
  exact ⟨mapped.world, placed, fun name b known => retains.firm (mapped.blocks name b known),
    fun id mem => onward.named (mapped.deferred id mem),
    fun identity root done => retains.firm (mapped.finished identity root done),
    fun frame mem => retains.firm (mapped.frames frame mem)⟩

theorem Mapped.define (mapped : Mapped sources s) {node : NodeId} (firm : s.tree.Firm node) (name : String)
    (depth : Nat) : Mapped sources { s with blocks := Keyed.put name ⟨node, depth⟩ s.blocks } := by
  refine { mapped with blocks := fun other b known => ?_ }
  rcases Keyed.get?_put known with ⟨-, rfl⟩ | ⟨-, known⟩
  · exact firm
  · exact mapped.blocks other b known

/-! #### Steps -/

/-- A step has gone well, or what it complains of begins where it says. -/
def Pointing (sources : MemorySources) (fine : α → CompileState MemorySources → Prop) (s : CompileState MemorySources)
    (result : Except TemplateError α × CompileState MemorySources) : Prop :=
  match result with
  | (.ok a, s') => Onward s s' ∧ Mapped sources s' ∧ fine a s'
  | (.error e, s') => e.Points (sources.textsOf s'.sources)

variable {fine : α → CompileState MemorySources → Prop} {fine' : β → CompileState MemorySources → Prop}

theorem Pointing.bind {a : Compile MemorySources α} {f : α → Compile MemorySources β}
    (first : Pointing sources fine s (a s))
    (rest : ∀ x s', Onward s s' → Mapped sources s' → fine x s' → Pointing sources fine' s' (f x s')) :
    Pointing sources fine' s ((a >>= f) s) := by
  rw [bind_apply]
  rcases acted : a s with ⟨e | x, s₁⟩
  · rw [acted] at first
    exact first
  · rw [acted] at first
    obtain ⟨onward, mapped, good⟩ := first
    have next := rest x s₁ onward mapped good
    show Pointing sources fine' s (f x s₁)
    rcases acted' : f x s₁ with ⟨e | y, s₂⟩
    · rw [acted'] at next
      exact next
    · rw [acted'] at next
      exact ⟨onward.trans next.1, next.2⟩

theorem pointing_pure (mapped : Mapped sources s) {a : α} (good : fine a s) :
    Pointing sources fine s ((pure a : Compile MemorySources α) s) :=
  ⟨.refl s, mapped, good⟩

theorem pointing_changeTree (mapped : Mapped sources s) {change : Tree → Tree}
    (retains : s.tree.Retains (change s.tree)) (placed : (change s.tree).Placed (sources.textsOf s.sources)) :
    Pointing sources (fun _ _ => True) s (changeTree change s) :=
  ⟨.onTree retains, mapped.onTree retains placed, trivial⟩

/-- What is said of a node with a name has the place of a tag. -/
theorem points_of_site (mapped : Mapped sources s) (named : (s.tree.own id).name ≠ none) {e : TemplateError}
    (place : e.site? = some (s.tree.site id)) (other : ∀ found, e ≠ .tagMismatch (s.tree.site id) found) :
    e.Points (sources.textsOf s.sources) := by
  obtain ⟨tag, name⟩ := Option.ne_none_iff_exists'.mp named
  obtain ⟨text, read, opens⟩ := (mapped.placed.nodes id).tag tag name
  refine .opening place other read ?_
  show Markup.OpensAt text.toList (s.tree.own id).line ((s.tree.own id).name.getD "")
  rw [name]
  exact opens

/-! #### What handlers do -/

section Handlers

variable {load : Loader MemorySources} {source destination : NodeId} {f : Node → Node}

theorem Pointing.andThen {h : Handler α} {g : α → Handler β} (first : Pointing sources fine s (carryOut load h s))
    (rest : ∀ x s', Onward s s' → Mapped sources s' → fine x s' → Pointing sources fine' s' (carryOut load (g x) s')) :
    Pointing sources fine' s (carryOut load (h >>= g) s) := by
  rw [carryOut_bind]
  exact first.bind rest

/-- The handler can be carried out for any node with a name. -/
def Careful (sources : MemorySources) (load : Loader MemorySources) (handler : NodeHandler) : Prop :=
  ∀ id s, Mapped sources s → (s.tree.own id).name ≠ none →
    Pointing sources (fun _ _ => True) s (carryOut load (handler id) s)

theorem pointing_done (mapped : Mapped sources s) {a : α} (good : fine a s) :
    Pointing sources fine s (carryOut load (.done a) s) :=
  pointing_pure mapped good

theorem pointing_onTree (mapped : Mapped sources s) {change : Tree → Tree} (retains : s.tree.Retains (change s.tree))
    (placed : (change s.tree).Placed (sources.textsOf s.sources)) :
    Pointing sources (fun _ _ => True) s (carryOut load (Handler.changeTree change) s) := by
  have run : carryOut load (Handler.changeTree change) s = (.ok (), { s with tree := change s.tree }) := rfl
  rw [run]
  exact pointing_changeTree mapped retains placed

theorem pointing_update (mapped : Mapped sources s) (id : NodeId) (marks : ∀ n, (f n).mark = n.mark)
    (body : ∀ n, (f n).body = n.body) :
    Pointing sources (fun _ _ => True) s (carryOut load (Handler.update id f) s) :=
  pointing_onTree mapped (.update s.tree id marks) (mapped.placed.update marks (.inr body))

/-- A node has been given other content. -/
theorem pointing_content (mapped : Mapped sources s) (firm : s.tree.Firm id) (marks : ∀ n, (f n).mark = n.mark) :
    Pointing sources (fun _ _ => True) s (carryOut load (Handler.changeTree (·.update (s.tree.target id) f)) s) :=
  pointing_onTree mapped (.update s.tree _ marks) (mapped.placed.update marks (.inl (mapped.placed.target firm)))

theorem pointing_append (mapped : Mapped sources s) (firm : s.tree.Firm id) (e : Element) :
    Pointing sources (fun _ _ => True) s (carryOut load (Handler.append id e) s) :=
  pointing_content mapped firm fun _ => rfl

theorem pointing_insert (mapped : Mapped sources s) (firm : s.tree.Firm id) (e : Element) (position : Position) :
    Pointing sources (fun _ _ => True) s (carryOut load (Handler.changeTree (·.insert id e position)) s) :=
  pointing_content mapped firm fun _ => rfl

theorem pointing_clear (mapped : Mapped sources s) (firm : s.tree.Firm id) :
    Pointing sources (fun _ _ => True) s (carryOut load (Handler.clear id) s) :=
  pointing_content mapped firm fun _ => rfl

theorem pointing_redirect (mapped : Mapped sources s) (source : NodeId) (firm : s.tree.Firm destination) :
    Pointing sources (fun _ _ => True) s (carryOut load (Handler.redirect source destination) s) :=
  pointing_onTree mapped (.redirect s.tree source destination) (mapped.placed.redirect firm)

theorem pointing_copy (mapped : Mapped sources s) (firm : s.tree.Firm id) :
    Pointing sources (fun new s' => s'.tree.Firm new) s (carryOut load (Handler.copy id) s) :=
  ⟨.onTree (.push s.tree _), mapped.onTree (.push s.tree _) (mapped.placed.copy id),
    Tree.firm_copy mapped.placed firm⟩

theorem pointing_defineBlock (mapped : Mapped sources s) (name : String) (firm : s.tree.Firm id) :
    Pointing sources (fun _ _ => True) s (carryOut load (Handler.defineBlock name id) s) :=
  ⟨.aside rfl rfl, mapped.define firm name s.frames.length, trivial⟩

theorem pointing_deferNode (mapped : Mapped sources s) (named : (s.tree.own id).name ≠ none) :
    Pointing sources (fun _ _ => True) s (carryOut load (Handler.deferNode id) s) := by
  refine ⟨.aside rfl rfl, { mapped with deferred := fun other mem => ?_ }, trivial⟩
  rcases List.mem_append.mp mem with waited | new
  · exact mapped.deferred other waited
  · rw [List.mem_singleton.mp new]
    exact named

theorem pointing_setRoot (mapped : Mapped sources s) {root : NodeId} (firm : s.tree.Firm root) :
    Pointing sources (fun _ _ => True) s (carryOut load (Handler.setRoot root) s) := by
  refine ⟨.aside rfl rfl, { mapped with frames := fun frame mem => ?_ }, trivial⟩
  have mem : frame ∈ setRoot root s.frames := mem
  cases frames : s.frames with
  | nil =>
    rw [frames] at mem
    cases mem
  | cons first others =>
    rw [frames] at mem
    rcases List.mem_cons.mp mem with rfl | later
    · exact firm
    · exact mapped.frames frame (frames ▸ List.mem_cons_of_mem _ later)

theorem pointing_structural (mapped : Mapped sources s) (named : (s.tree.own id).name ≠ none) (reason : String) :
    Pointing sources fine s (carryOut load (Handler.structural id reason : Handler α) s) :=
  points_of_site mapped named rfl nofun

theorem pointing_badParameter (mapped : Mapped sources s) (named : (s.tree.own id).name ≠ none) (reason : String) :
    Pointing sources fine s (carryOut load (Handler.badParameter id reason : Handler α) s) :=
  points_of_site mapped named rfl nofun

theorem pointing_demand (mapped : Mapped sources s) (named : (s.tree.own id).name ≠ none) (allowOthers : Bool)
    (specs : List ParamSpec) :
    Pointing sources (fun _ _ => True) s (carryOut load (Handler.demand id allowOthers specs) s) := by
  unfold Handler.demand
  rw [carryOut_after carryOut_getTree]
  cases checked : checkParams (s.tree.site id) allowOthers specs (s.tree.own id).params with
  | ok params => exact pointing_update mapped id (fun _ => rfl) fun _ => rfl
  | error e =>
    obtain ⟨reason, rfl | rfl⟩ := checkParams_error checked
    · exact points_of_site mapped named rfl nofun
    · exact points_of_site mapped named rfl nofun

/-! #### The standard tags -/

theorem careful_openIf : Careful sources load openIf := by
  intro id s mapped named
  refine (pointing_demand mapped named _ _).andThen fun _ s₁ _ mapped _ => ?_
  exact pointing_update mapped id (fun _ => rfl) fun _ => rfl

theorem pointing_enclosingIf (mapped : Mapped sources s) (named : (s.tree.own id).name ≠ none) (complaint : String) :
    Pointing sources (fun _ _ => True) s (carryOut load (enclosingIf id complaint) s) := by
  unfold enclosingIf
  rw [carryOut_after carryOut_getTree]
  cases (s.tree.own id).parent with
  | none => exact pointing_structural mapped named complaint
  | some parent =>
    dsimp only
    split
    · exact pointing_done mapped trivial
    · exact pointing_structural mapped named complaint

theorem careful_placeElseIf : Careful sources load placeElseIf := by
  intro id s mapped named
  refine (pointing_demand mapped named _ _).andThen fun _ s₁ onward mapped _ => ?_
  replace named := onward.named named
  refine (pointing_enclosingIf mapped named _).andThen fun parent s₂ onward mapped _ => ?_
  rw [carryOut_after carryOut_own]
  split
  · exact pointing_structural mapped (onward.named named) _
  · exact pointing_update mapped id (fun _ => rfl) fun _ => rfl

theorem careful_placeElse : Careful sources load placeElse := by
  intro id s mapped named
  refine (pointing_demand mapped named _ _).andThen fun _ s₁ onward mapped _ => ?_
  replace named := onward.named named
  refine (pointing_enclosingIf mapped named _).andThen fun parent s₂ onward mapped _ => ?_
  rw [carryOut_after carryOut_own]
  split
  · exact pointing_structural mapped (onward.named named) _
  · refine Pointing.andThen (pointing_update mapped id ?_ ?_) fun _ s₃ _ mapped _ => ?_
    · exact fun _ => rfl
    · exact fun _ => rfl
    · exact pointing_update mapped parent (fun _ => rfl) fun _ => rfl

theorem careful_openFor : Careful sources load openFor := by
  intro id s mapped named
  refine (pointing_demand mapped named _ _).andThen fun _ s₁ onward mapped _ => ?_
  rw [carryOut_after carryOut_own]
  dsimp only
  split
  · exact pointing_badParameter mapped (onward.named named) _
  · exact pointing_update mapped id (fun _ => rfl) fun _ => rfl

theorem careful_openForeach : Careful sources load openForeach := by
  intro id s mapped named
  refine (pointing_demand mapped named _ _).andThen fun _ s₁ _ mapped _ => ?_
  exact pointing_update mapped id (fun _ => rfl) fun _ => rfl

theorem carryOut_blockName : carryOut load (blockName id) s = (.ok ((s.tree.own id).param "id"), s) := rfl

theorem careful_openBlock : Careful sources load openBlock := by
  intro id s mapped named
  refine (pointing_demand mapped named _ _).andThen fun _ s₁ onward mapped _ => ?_
  rw [carryOut_after carryOut_blockName, carryOut_after (carryOut_block? _)]
  cases Keyed.get? _ s₁.blocks with
  | none => exact pointing_defineBlock mapped _ (.inl (onward.named named))
  | some b => exact pointing_done mapped trivial

theorem careful_closeBlock : Careful sources load closeBlock := by
  intro id s mapped named
  unfold closeBlock
  rw [carryOut_after carryOut_blockName, carryOut_after carryOut_getDepth, carryOut_after (carryOut_block? _)]
  cases found : Keyed.get? ((s.tree.own id).param "id") s.blocks with
  | none => exact pointing_defineBlock mapped _ (.inl named)
  | some known =>
    dsimp only
    split
    · exact pointing_done mapped trivial
    · split
      · exact pointing_redirect mapped id (mapped.blocks _ known found)
      · refine (pointing_redirect mapped known.node (.inl named)).andThen fun _ s₁ onward mapped _ => ?_
        exact pointing_defineBlock mapped _ (.inl (onward.named named))

theorem careful_openBlockdef : Careful sources load openBlockdef :=
  fun _ _ mapped named => pointing_demand mapped named _ _

theorem careful_closeBlockdef : Careful sources load closeBlockdef := by
  intro id s mapped named
  unfold closeBlockdef
  rw [carryOut_after carryOut_blockName, carryOut_after carryOut_getDepth]
  refine (pointing_copy mapped (.inl named)).andThen fun body s₁ onward mapped firm => ?_
  refine (pointing_clear mapped (.inl (onward.named named))).andThen fun _ s₂ onward mapped _ => ?_
  replace firm := onward.tree.firm firm
  rw [carryOut_after (carryOut_block? _)]
  cases found : Keyed.get? ((s.tree.own id).param "id") s₂.blocks with
  | none => exact pointing_defineBlock mapped _ firm
  | some known =>
    dsimp only
    split
    · refine (pointing_redirect mapped known.node firm).andThen fun _ s₃ onward mapped _ => ?_
      exact pointing_defineBlock mapped _ (onward.tree.firm firm)
    · exact pointing_redirect mapped body (mapped.blocks _ known found)

theorem careful_placePutblock : Careful sources load placePutblock := by
  intro id s mapped named
  refine (pointing_demand mapped named _ _).andThen fun _ s₁ onward mapped _ => ?_
  rw [carryOut_after carryOut_blockName, carryOut_after (carryOut_block? _)]
  cases found : Keyed.get? ((s₁.tree.own id).param "id") s₁.blocks with
  | none => exact pointing_deferNode mapped (onward.named named)
  | some known => exact pointing_redirect mapped id (mapped.blocks _ known found)

theorem pointing_additionPosition (mapped : Mapped sources s) (named : (s.tree.own id).name ≠ none) :
    Pointing sources (fun _ _ => True) s (carryOut load (additionPosition id) s) := by
  unfold additionPosition
  rw [carryOut_after carryOut_own]
  split
  · exact pointing_done mapped trivial
  · exact pointing_badParameter mapped named _

theorem careful_openAddblock : Careful sources load openAddblock := by
  intro id s mapped named
  refine (pointing_demand mapped named _ _).andThen fun _ s₁ onward mapped _ => ?_
  replace named := onward.named named
  refine (pointing_additionPosition mapped named).andThen fun _ s₂ onward mapped _ => ?_
  rw [carryOut_after carryOut_blockName, carryOut_after (carryOut_block? _)]
  cases Keyed.get? _ s₂.blocks with
  | none => exact pointing_defineBlock mapped _ (.inl (onward.named named))
  | some b => exact pointing_done mapped trivial

theorem pointing_addToBlock {block addition : NodeId} (mapped : Mapped sources s) (firm : s.tree.Firm block)
    (position : Position) :
    Pointing sources (fun _ _ => True) s (carryOut load (addToBlock block addition position) s) := by
  cases position with
  | after =>
    refine (pointing_append mapped firm _).andThen fun _ s₁ onward mapped _ => ?_
    exact pointing_append mapped (onward.tree.firm firm) _
  | before =>
    refine (pointing_insert mapped firm _ _).andThen fun _ s₁ onward mapped _ => ?_
    exact pointing_insert mapped (onward.tree.firm firm) _ _
  | index i => exact pointing_insert mapped firm _ _

theorem careful_closeAddblock : Careful sources load closeAddblock := by
  intro id s mapped named
  unfold closeAddblock
  rw [carryOut_after carryOut_blockName, carryOut_after (carryOut_block? _)]
  cases found : Keyed.get? ((s.tree.own id).param "id") s.blocks with
  | none => exact pointing_done mapped trivial
  | some known =>
    have firm := mapped.blocks _ known found
    dsimp only
    split
    · exact pointing_done mapped trivial
    · refine (pointing_additionPosition mapped named).andThen fun position s₁ onward mapped _ => ?_
      replace named := onward.named named
      replace firm := onward.tree.firm firm
      refine (pointing_copy mapped (.inl named)).andThen fun addition s₂ onward mapped _ => ?_
      replace named := onward.named named
      replace firm := onward.tree.firm firm
      refine (pointing_clear mapped (.inl named)).andThen fun _ s₃ onward mapped _ => ?_
      exact pointing_addToBlock mapped (onward.tree.firm firm) position

/-- Whatever is read on behalf of a node with a name. -/
def Loads (sources : MemorySources) (load : Loader MemorySources) : Prop :=
  ∀ name id s, Mapped sources s → (s.tree.own id).name ≠ none →
    Pointing sources (fun root s' => s'.tree.Firm root) s (load name (some id) s)

theorem pointing_loadRoot (loads : Loads sources load) (mapped : Mapped sources s) (named : (s.tree.own id).name ≠ none)
    (name : String) :
    Pointing sources (fun root s' => s'.tree.Firm root) s (carryOut load (Handler.loadRoot name (some id)) s) := by
  rw [loadRoot_apply]
  exact loads name id s mapped named

theorem careful_placeExtends (loads : Loads sources load) : Careful sources load placeExtends := by
  intro id s mapped named
  refine (pointing_demand mapped named _ _).andThen fun _ s₁ onward mapped _ => ?_
  rw [carryOut_after carryOut_own]
  refine (pointing_loadRoot loads mapped (onward.named named) _).andThen fun root s₂ _ mapped firm => ?_
  exact pointing_setRoot mapped firm

theorem careful_placeInclude (loads : Loads sources load) : Careful sources load placeInclude := by
  intro id s mapped named
  refine (pointing_demand mapped named _ _).andThen fun _ s₁ onward mapped _ => ?_
  replace named := onward.named named
  rw [carryOut_after carryOut_own]
  refine (pointing_loadRoot loads mapped named _).andThen fun root s₂ onward mapped _ => ?_
  replace named := onward.named named
  refine (pointing_clear mapped (.inl named)).andThen fun _ s₃ onward mapped _ => ?_
  exact pointing_append mapped (.inl (onward.named named)) _

theorem careful_renderLocalized : Careful sources load renderLocalized := by
  intro id s mapped named
  refine (pointing_demand mapped named _ _).andThen fun _ s₁ onward mapped _ => ?_
  have firm : s₁.tree.Firm (s₁.tree.target id) := mapped.placed.target (.inl (onward.named named))
  rw [carryOut_after carryOut_getTree]
  dsimp only
  split
  · refine (pointing_clear mapped firm).andThen fun _ s₂ onward mapped _ => ?_
    exact pointing_append mapped (onward.tree.firm firm) _
  · exact pointing_update mapped _ (fun _ => rfl) fun _ => rfl

theorem standard_careful (loads : Loads sources load) : ∀ b ∈ standard.bindings, Careful sources load b.handler := by
  intro b mem
  simp only [standard, List.mem_cons, List.not_mem_nil, or_false] at mem
  rcases mem with rfl | rfl | rfl | rfl | rfl | rfl | rfl | rfl | rfl | rfl | rfl | rfl | rfl | rfl | rfl
  · exact careful_openIf
  · exact careful_placeElseIf
  · exact careful_placeElse
  · exact careful_openFor
  · exact careful_openForeach
  · exact careful_openBlock
  · exact careful_closeBlock
  · exact careful_openBlockdef
  · exact careful_closeBlockdef
  · exact careful_placePutblock
  · exact careful_openAddblock
  · exact careful_closeAddblock
  · exact careful_placeExtends loads
  · exact careful_placeInclude loads
  · exact careful_renderLocalized

end Handlers

end Compile

end Stencil
