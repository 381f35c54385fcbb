import Stencil.Proofs.Compile.Sites

/-!
The tags of a finished tree. With the standard tags every node that has a name has been handed to the handlers of its
tag when it opened, or took the name from such a node; so there is no unknown tag left when the artifact is written.
-/
namespace Stencil

open Tag

section Names

variable {n : Node} {tag : String} {handlers : Handlers}

/-- If a node has a name, it is that of a standard tag. -/
def Node.Known (n : Node) : Prop := ∀ tag, n.name = some tag → ∃ handlers, Keyed.get? tag standardTable = some handlers

theorem Node.known_of_name (name : n.name = some tag) (found : Keyed.get? tag standardTable = some handlers) :
    n.Known := by
  intro tag' name'
  cases name.symm.trans name'
  exact ⟨handlers, found⟩

theorem Node.known_of_none (name : n.name = none) : n.Known := by
  intro tag name'
  cases name.symm.trans name'

end Names

namespace Tree

/-- All nodes have names of standard tags, or none. -/
def Known (t : Tree) : Prop := ∀ id, (t.own id).Known

namespace Known

variable {t : Tree} {id : NodeId} {n : Node} {f : Node → Node}

theorem empty : Tree.empty.Known := by
  intro id tag name
  cases name

theorem push (known : t.Known) (named : n.Known) : (t.push n).2.Known := by
  intro other
  rw [own_push]
  split
  · exact named
  · exact known other

theorem update (known : t.Known) (keeps : ∀ n, (f n).name = n.name) : (t.update id f).Known := by
  intro other tag name
  rw [own_update] at name
  split at name
  · rw [keeps] at name
    exact known id tag name
  · exact known other tag name

theorem redirect (known : t.Known) (source destination : NodeId) : (t.redirect source destination).Known := by
  intro id tag name
  obtain ⟨next, same, -⟩ := t.own_redirect source destination id
  rw [same] at name
  exact known id tag name

theorem append (known : t.Known) (id : NodeId) (e : Element) : (t.append id e).Known := known.update fun _ => rfl

theorem insert (known : t.Known) (id : NodeId) (e : Element) (position : Position) : (t.insert id e position).Known :=
  known.update fun _ => rfl

theorem clear (known : t.Known) (id : NodeId) : (t.clear id).Known := known.update fun _ => rfl

theorem copy (known : t.Known) (id : NodeId) : (t.copy id).2.Known := known.push (known (t.target id))

end Known

end Tree

namespace Compile

variable {W : Type} {c : Compiler W} {s s' : CompileState W} {file : String} {line : Nat} {top : NodeId}
  {below stack : List NodeId} {token : Markup.Token} {head : Markup.Head} {stands : Bool}

/-! #### Pieces -/

theorem movedOut_known {t : Tree} (known : t.Known) (id : NodeId) : (movedOut id t).Known := (known.copy id).clear id

theorem added_known {t : Tree} (known : t.Known) (block addition : NodeId) (position : Position) :
    (added block addition position t).Known := by
  cases position with
  | after => exact (known.append _ _).append _ _
  | before => exact (known.insert _ _ _).insert _ _ _
  | index i => exact known.insert _ _ _

theorem settle_known (known : s.tree.Known) (holder : NodeId) (block : String) : (settle holder block s).tree.Known := by
  unfold settle
  split
  · exact known
  · split
    · exact known
    · split
      · exact known.redirect _ _
      · exact known.redirect _ _

/-- No piece makes a node that is not known. -/
theorem effect_known (effect : Effect s file top below token s' stack) (grounded : Grounded s) (known : s.tree.Known) :
    s'.tree.Known := by
  cases effect with
  | text kind => exact known.append top _
  | printed kind => exact (known.push (Node.known_of_none rfl)).append top _
  | nested kind parsed tag checked steps =>
    refine known.push ?_
    simp only [List.mem_cons, List.not_mem_nil, or_false] at tag
    rcases tag with tag | tag | tag | tag
    · exact Node.known_of_name (congrArg some tag) rfl
    · exact Node.known_of_name (congrArg some tag) rfl
    · exact Node.known_of_name (congrArg some tag) rfl
    · exact Node.known_of_name (congrArg some tag) rfl
  | localized kind parsed tag => exact known.push (Node.known_of_name (congrArg some tag) rfl)
  | block kind parsed tag checked =>
    rw [tree_blockOpened]
    exact known.push (Node.known_of_name (congrArg some tag) rfl)
  | elseIf kind parsed tag checked inside early =>
    exact (known.push (Node.known_of_name (congrArg some tag) rfl)).append top _
  | @otherwise head params kind parsed tag checked inside early =>
    have grown : (withNode s (tagNode file token.line top head false params)).tree.Known :=
      known.push (Node.known_of_name (congrArg some tag) rfl)
    have marked : (noteElse top (withNode s (tagNode file token.line top head false params))).tree.Known :=
      grown.update fun _ => rfl
    exact marked.append top _
  | @putblock head kind parsed tag checked =>
    have grown : (withNode s (Node.opened file token.line top head false)).tree.Known :=
      known.push (Node.known_of_name (congrArg some tag) rfl)
    refine Tree.Known.append ?_ top _
    unfold putblockPlaced
    split
    · exact grown
    · exact grown.redirect _ _
  | adding kind parsed tag checked placed =>
    rw [tree_blockOpened]
    exact known.push (Node.known_of_name (congrArg some tag) rfl)
  | closed kind nested inner other => exact known.append _ _
  | closedBlock kind nested inner tag =>
    rw [blockClosed_eq]
    exact (settle_known known _ _).append _ _
  | closedBlockdef kind nested inner tag =>
    rw [blockdefClosed_eq top s grounded.blocks]
    exact (settle_known (s := { s with tree := movedOut top s.tree }) (movedOut_known known top) _ _).append _ _
  | closedAdding kind nested inner tag =>
    refine Tree.Known.append ?_ _ _
    unfold addblockClosed
    split
    · exact known
    · split
      · exact known
      · exact added_known (movedOut_known known top) _ _ _

/-! #### Other templates -/

theorem received_known (known : s.tree.Known) (head : Markup.Head) (id root : NodeId) :
    (received head id root s).tree.Known := by
  unfold received
  split
  · exact known
  · exact (known.clear id).append id _

theorem settled_known (known : s.tree.Known) (id top : NodeId) (below : List NodeId) :
    (settled id top below s).2.tree.Known := by
  unfold settled
  split
  · exact known
  · exact known.append top _

theorem referring_known (known : s.tree.Known) (reads : token.reading? = some head) :
    (referring file token.line top head s).tree.Known := by
  refine known.push ?_
  obtain ⟨-, -, tag | tag⟩ := of_reading reads
  · exact Node.known_of_name (congrArg some tag) rfl
  · exact Node.known_of_name (congrArg some tag) rfl

theorem laid_known {sheet : Sheet} (known : s.tree.Known) (laid : Laid s sheet s') : s'.tree.Known := by
  obtain ⟨-, name, w, sources, rfl⟩ := laid
  exact known.push (Node.known_of_none rfl)

variable {r r' : Reader W}

theorem step_known (standard : c.table = standardTable) (shaped : Shaped r) (step : Step c r r')
    (known : r.state.tree.Known) : r'.state.tree.Known := by
  cases step with
  | put reads run =>
    obtain ⟨top, below, rfl, old, effect⟩ := shaped.effect standard reads run
    exact effect_known effect shaped.grounded known
  | again reads checked again =>
    obtain ⟨w, rfl⟩ := again_ok again
    exact settled_known
      (received_known (s := { referring _ _ _ _ _ with world := w }) (referring_known known reads) _ _ _) _ _ _
  | enter reads checked enters => exact laid_known (referring_known known reads) (enters_laid enters)
  | @leave s inner _ _ _ _ _ _ _ _ _ finished reads =>
    exact settled_known (received_known (s := left inner s) known _ _ _) _ _ _

theorem run_known (standard : c.table = standardTable) (shaped : Shaped r) (run : Run c r r')
    (known : r.state.tree.Known) : r'.state.tree.Known := by
  induction run with
  | here => exact known
  | on step rest ih => exact ih (shaped.step standard step) (step_known standard shaped step known)

theorem linkDeferred_known {ids : List NodeId} (known : s.tree.Known) (run : linkDeferred ids s = (.ok (), s')) :
    s'.tree.Known := by
  induction ids generalizing s with
  | nil =>
    cases run
    exact known
  | cons id ids ih =>
    rw [linkDeferred_cons] at run
    cases found : Keyed.get? ((s.tree.own id).param "id") s.blocks with
    | none =>
      rw [found] at run
      cases run
    | some b =>
      rw [found] at run
      exact ih (known.redirect id b.node) run

/-- The tree of a template that has been compiled leads in no circles, and all its tags are known. -/
theorem compiled_known (standard : c.table = standardTable) {name : String} {text? : Option String} {w : W} {t : Template}
    (run : compiled c name text? (.initial w) = (.ok t, s')) : s'.tree.Sound ∧ s'.tree.Known := by
  rw [compiled_eq] at run
  obtain ⟨root, s₁, read, finishes⟩ := bind_ok run
  obtain ⟨sheet, s₂, inner, s₃, h, begins, ran, finished, rfl, rfl⟩ := loaded_run standard read
  have laid := begins_laid begins
  have shaped : Shaped ⟨s₂, [sheet], []⟩ := (shaped_initial w).enter (fun _ mem => by cases mem) laid
  have grounded := (shaped.run standard ran).grounded
  have known : s₃.tree.Known := run_known standard shaped ran (laid_known Tree.Known.empty laid)
  obtain ⟨linked, -⟩ := finish_parts finishes
  cases text? with
  | none =>
    have cleared : Grounded { left inner s₃ with deferred := [] } :=
      ⟨grounded.sound, grounded.blocks, fun _ mem => by cases mem⟩
    obtain ⟨-, sound, -⟩ := linkDeferred_joins cleared grounded.deferred linked
    exact ⟨sound, linkDeferred_known (s := { left inner s₃ with deferred := [] }) known linked⟩
  | some text =>
    have cleared : Grounded { s₃ with frames := s₃.frames.tail, deferred := [] } :=
      ⟨grounded.sound, grounded.blocks, fun _ mem => by cases mem⟩
    obtain ⟨-, sound, -⟩ := linkDeferred_joins cleared grounded.deferred linked
    exact ⟨sound, linkDeferred_known (s := { s₃ with frames := s₃.frames.tail, deferred := [] }) known linked⟩

end Compile

end Stencil
