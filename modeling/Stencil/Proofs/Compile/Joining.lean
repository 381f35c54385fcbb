import Stencil.Proofs.Compile.Dependence
import Stencil.Proofs.Compile.Shape

/-!
What is together stays together. No piece of a source parts two handles that have the same target, and what was
registered for a block once leads where what is registered for it then leads.
-/
namespace Stencil

open Tag

namespace Compile

variable {W : Type} {c : Compiler W} {s s' s'' : CompileState W} {t' : Tree} {file : String} {top : NodeId}
  {below stack : List NodeId} {token : Markup.Token} {block : String} {site : NodeId}

/-! #### What is together stays together -/

/-- Handles with the same target keep having the same one, and what was registered for a block leads where what is
registered for it then leads. -/
structure Joins (s s' : CompileState W) : Prop where
  targets : ∀ x y, s.tree.target x = s.tree.target y → s'.tree.target x = s'.tree.target y
  blocks : ∀ block b, Keyed.get? block s.blocks = some b →
    ∃ b', Keyed.get? block s'.blocks = some b' ∧ s'.tree.target b.node = s'.tree.target b'.node
  deferred : s.deferred ⊆ s'.deferred

theorem Joins.refl (s : CompileState W) : Joins s s :=
  ⟨fun _ _ same => same, fun _ b known => ⟨b, known, rfl⟩, fun _ mem => mem⟩

/-- Nothing else in the state matters. -/
theorem Joins.of_same (tree : s'.tree = s.tree) (blocks : s'.blocks = s.blocks) (deferred : s'.deferred = s.deferred) :
    Joins s s' := by
  refine ⟨fun _ _ same => ?_, fun _ b known => ⟨b, ?_, rfl⟩, fun _ mem => ?_⟩
  · rw [tree]
    exact same
  · rw [blocks]
    exact known
  · rw [deferred]
    exact mem

theorem Joins.trans (first : Joins s s') (second : Joins s' s'') : Joins s s'' := by
  refine ⟨fun x y same => second.targets x y (first.targets x y same), fun block b known => ?_,
    fun _ mem => second.deferred (first.deferred mem)⟩
  obtain ⟨b', known', same⟩ := first.blocks block b known
  obtain ⟨b'', known'', same'⟩ := second.blocks block b' known'
  exact ⟨b'', known'', (second.targets _ _ same).trans same'⟩

/-- A handle has the target of what is registered for the block. -/
def Joined (block : String) (site : NodeId) (s : CompileState W) : Prop :=
  ∃ b, Keyed.get? block s.blocks = some b ∧ s.tree.target site = s.tree.target b.node

theorem Joined.of_known {b : Block} (known : Keyed.get? block s.blocks = some b) : Joined block b.node s :=
  ⟨b, known, rfl⟩

theorem Joined.keep (joined : Joined block site s) (joins : Joins s s') : Joined block site s' := by
  obtain ⟨b, known, same⟩ := joined
  obtain ⟨b', known', same'⟩ := joins.blocks block b known
  exact ⟨b', known', (joins.targets _ _ same).trans same'⟩

/-- The tree changes, but not where its handles lead. -/
theorem joins_relink (grounded : Grounded s) (links : s.tree.SameLinks t') : Joins s { s with tree := t' } := by
  refine ⟨fun x y same => ?_, fun block b known => ⟨b, known, rfl⟩, fun _ mem => mem⟩
  show t'.target x = t'.target y
  rw [links.target_eq grounded.sound, links.target_eq grounded.sound]
  exact same

/-- A redirection moves all handles of one target together. -/
theorem joins_redirect (grounded : Grounded s) {source : NodeId} (old : source.index < s.tree.size)
    (destination : NodeId) : Joins s { s with tree := s.tree.redirect source destination } := by
  refine ⟨fun x y same => ?_, fun block b known => ⟨b, known, rfl⟩, fun _ mem => mem⟩
  show (s.tree.redirect source destination).target x = (s.tree.redirect source destination).target y
  rw [grounded.sound.target_redirect old, grounded.sound.target_redirect old, same]

theorem target_redirect_eq (grounded : Grounded s) {source : NodeId} (old : source.index < s.tree.size)
    (destination : NodeId) : (s.tree.redirect source destination).target source =
      (s.tree.redirect source destination).target destination := by
  rw [grounded.sound.target_redirect old, grounded.sound.target_redirect old, if_pos rfl]
  split <;> rfl

/-- Another node is registered only where it leads to the same. -/
theorem joins_define {b : Block} (same : ∀ known, Keyed.get? block s.blocks = some known →
    s.tree.target known.node = s.tree.target b.node) :
    Joins s { s with blocks := Keyed.put block b s.blocks } := by
  refine ⟨fun _ _ same => same, fun other known found => ?_, fun _ mem => mem⟩
  by_cases here : block = other
  · subst here
    exact ⟨b, Keyed.get?_put_self .., same known found⟩
  · exact ⟨known, (Keyed.get?_put_of_ne here b s.blocks).trans found, rfl⟩

theorem joins_defer (s : CompileState W) (id : NodeId) : Joins s { s with deferred := s.deferred ++ [id] } :=
  ⟨fun _ _ same => same, fun _ b known => ⟨b, known, rfl⟩, List.subset_append_left _ _⟩

theorem joins_withNode (grounded : Grounded s) {n : Node} (settled : n.standsFor = none) : Joins s (withNode s n) :=
  joins_relink grounded (.push settled s.tree)

theorem joins_attach (grounded : Grounded s) (parent : NodeId) (e : Element) : Joins s (attach parent e s) :=
  joins_relink grounded (.append s.tree parent e)

theorem joins_noteElse (grounded : Grounded s) (id : NodeId) : Joins s (noteElse id s) :=
  joins_relink grounded (.update s.tree id (fun n => { n with hasElse := true }) fun _ => rfl)

/-! #### The tags for blocks -/

section BlockTags

variable {n : Node}

theorem joins_blockOpened (grounded : Grounded s) (settled : n.standsFor = none) : Joins s (blockOpened n s) := by
  unfold blockOpened
  split
  · rename_i unknown
    refine (joins_withNode grounded settled).trans (joins_define fun known found => ?_)
    cases unknown.symm.trans found
  · exact joins_withNode grounded settled

theorem joins_putblockPlaced (grounded : Grounded s) (settled : n.standsFor = none) :
    Joins s (putblockPlaced n s) := by
  have grown := grounded.withNode settled
  unfold putblockPlaced
  split
  · exact (joins_withNode grounded settled).trans (joins_defer _ _)
  · exact (joins_withNode grounded settled).trans (joins_redirect grown (new_lt s n) _)

/-- A reference leads to its block from the beginning, or waits for it. -/
theorem putblockPlaced_joined (grounded : Grounded s) (settled : n.standsFor = none) :
    Joined (n.param "id") ⟨s.tree.size⟩ (putblockPlaced n s) ∨
      (⟨s.tree.size⟩ : NodeId) ∈ (putblockPlaced n s).deferred := by
  unfold putblockPlaced
  split
  · exact .inr (List.mem_append_right _ (List.mem_singleton_self _))
  · rename_i b known
    exact .inl ⟨b, known, target_redirect_eq (grounded.withNode settled) (new_lt s n) b.node⟩

/-- A definition that closes is joined with its block, and parts nothing. -/
theorem settle_joins (grounded : Grounded s) {holder : NodeId} (old : holder.index < s.tree.size) (block : String) :
    Joins s (settle holder block s) ∧ Joined block holder (settle holder block s) := by
  unfold settle
  cases found : Keyed.get? block s.blocks with
  | none =>
    refine ⟨joins_define fun known found' => ?_, ⟨holder, s.frames.length⟩, Keyed.get?_put_self .., rfl⟩
    cases found.symm.trans found'
  | some known =>
    have known_old := grounded.blocks block known found
    dsimp only
    by_cases same : known.node = holder
    · rw [if_pos same]
      subst same
      exact ⟨.refl s, .of_known found⟩
    · rw [if_neg same]
      by_cases deeper : known.depth < s.frames.length
      · rw [if_pos deeper]
        exact ⟨joins_redirect grounded old known.node, known, found, target_redirect_eq grounded old known.node⟩
      · rw [if_neg deeper]
        have redirected := joins_redirect grounded known_old holder
        refine ⟨redirected.trans (joins_define fun known' found' => ?_), ⟨holder, s.frames.length⟩,
          Keyed.get?_put_self .., rfl⟩
        cases found.symm.trans found'
        exact target_redirect_eq grounded known_old holder

theorem blockClosed_joins (grounded : Grounded s) (old : top.index < s.tree.size) :
    Joins s (blockClosed top s) ∧ Joined ((s.tree.own top).param "id") top (blockClosed top s) := by
  rw [blockClosed_eq]
  exact settle_joins grounded old _

theorem blockdefClosed_joins (grounded : Grounded s) (top : NodeId) :
    Joins s (blockdefClosed top s) ∧
      Joined ((s.tree.own top).param "id") ⟨s.tree.size⟩ (blockdefClosed top s) := by
  rw [blockdefClosed_eq top s grounded.blocks]
  have links := links_movedOut top s.tree
  obtain ⟨joins, joined⟩ := settle_joins (grounded.relink links) (lt_movedOut top s) ((s.tree.own top).param "id")
  exact ⟨(joins_relink grounded links).trans joins, joined⟩

theorem joins_addblockClosed (grounded : Grounded s) (position : Position) (id : NodeId) :
    Joins s (addblockClosed position id s) := by
  unfold addblockClosed
  split
  · exact .refl s
  · split
    · exact .refl s
    · exact joins_relink grounded ((links_movedOut id s.tree).trans (links_added _ _ position _))

end BlockTags

/-! #### Pieces -/

/-- No piece parts what is together. -/
theorem effect_joins (effect : Effect s file top below token s' stack) (grounded : Grounded s)
    (old : top.index < s.tree.size) : Joins s s' := by
  cases effect with
  | text kind => exact joins_attach grounded _ _
  | printed kind => exact (joins_withNode grounded rfl).trans (joins_attach (grounded.withNode rfl) _ _)
  | nested kind parsed tag checked steps => exact joins_withNode grounded rfl
  | localized kind parsed tag => exact joins_withNode grounded rfl
  | block kind parsed tag checked => exact joins_blockOpened grounded rfl
  | elseIf kind parsed tag checked inside early =>
    exact (joins_withNode grounded rfl).trans (joins_attach (grounded.withNode rfl) _ _)
  | @otherwise head params kind parsed tag checked inside early =>
    have grown : Grounded (withNode s (tagNode file token.line top head false params)) := grounded.withNode rfl
    exact ((joins_withNode grounded rfl).trans (joins_noteElse grown top)).trans (joins_attach (grown.noteElse top) _ _)
  | putblock kind parsed tag checked =>
    exact (joins_putblockPlaced grounded rfl).trans (joins_attach (grounded.putblockPlaced rfl) _ _)
  | adding kind parsed tag checked placed => exact joins_blockOpened grounded rfl
  | closed kind nested inner other => exact joins_attach grounded _ _
  | closedBlock kind nested inner tag =>
    exact (blockClosed_joins grounded old).1.trans (joins_attach (grounded.blockClosed old) _ _)
  | closedBlockdef kind nested inner tag =>
    exact (blockdefClosed_joins grounded top).1.trans (joins_attach (grounded.blockdefClosed top) _ _)
  | closedAdding kind nested inner tag =>
    exact (joins_addblockClosed grounded _ top).trans (joins_attach (grounded.addblockClosed _ top) _ _)

/-- A `block` that is closed is joined with its block; nothing else closes one. -/
theorem effect_closes (effect : Effect s file top below token s' stack) (grounded : Grounded s)
    (old : top.index < s.tree.size) {id : NodeId} (mem : id ∈ top :: below) (tag : (s.tree.own id).tag = "block") :
    id ∈ stack ∨ Joined ((s.tree.own id).param "id") id s' := by
  have under : ∀ {tag' : String}, (s.tree.own top).tag = tag' → tag' ≠ "block" → id ∈ below := by
    intro tag' tagged other
    rcases List.mem_cons.mp mem with rfl | mem
    · exact absurd (tagged.symm.trans tag) other
    · exact mem
  cases effect with
  | closed kind nested inner other =>
    refine .inl (under rfl fun same => other ?_)
    rw [same]
    exact List.mem_cons_self
  | closedBlock kind nested inner tag' =>
    rcases List.mem_cons.mp mem with rfl | mem
    · exact .inr ((blockClosed_joins grounded old).2.keep (joins_attach (grounded.blockClosed old) _ _))
    · exact .inl mem
  | closedBlockdef kind nested inner tag' => exact .inl (under tag' (by decide))
  | closedAdding kind nested inner tag' => exact .inl (under tag' (by decide))
  | nested => exact .inl (List.mem_cons_of_mem _ mem)
  | localized => exact .inl (List.mem_cons_of_mem _ mem)
  | block => exact .inl (List.mem_cons_of_mem _ mem)
  | adding => exact .inl (List.mem_cons_of_mem _ mem)
  | _ => exact .inl mem

section Made

variable {head : Markup.Head}

theorem effect_opened (effect : Effect s file top below token s' stack) (kind : token.kind = .openTag)
    (parsed : Markup.Head.parse token.content = .ok head) (tag : head.name = "block") :
    stack = ⟨s.tree.size⟩ :: top :: below ∧ s' = blockOpened (Node.opened file token.line top head true) s := by
  cases effect with
  | block kind' parsed' =>
    cases parsed.symm.trans parsed'
    exact ⟨rfl, rfl⟩
  | nested kind' parsed' tag' =>
    cases parsed.symm.trans parsed'
    rw [tag] at tag'
    simp at tag'
  | localized kind' parsed' tag' | elseIf kind' parsed' tag' | otherwise kind' parsed' tag' | putblock kind' parsed' tag'
  | adding kind' parsed' tag' =>
    cases parsed.symm.trans parsed'
    exact absurd (tag.symm.trans tag') (by decide)
  | text kind' | printed kind' | closed kind' | closedBlock kind' | closedBlockdef kind' | closedAdding kind' =>
    exact absurd (kind.symm.trans kind') (by decide)

theorem effect_referred (effect : Effect s file top below token s' stack) (kind : token.kind = .openTag)
    (parsed : Markup.Head.parse token.content = .ok head) (tag : head.name = "putblock") :
    s' = attach top (.node ⟨s.tree.size⟩) (putblockPlaced (Node.opened file token.line top head false) s) := by
  cases effect with
  | putblock kind' parsed' =>
    cases parsed.symm.trans parsed'
    rfl
  | nested kind' parsed' tag' =>
    cases parsed.symm.trans parsed'
    rw [tag] at tag'
    simp at tag'
  | localized kind' parsed' tag' | elseIf kind' parsed' tag' | otherwise kind' parsed' tag' | block kind' parsed' tag'
  | adding kind' parsed' tag' =>
    cases parsed.symm.trans parsed'
    exact absurd (tag.symm.trans tag') (by decide)
  | text kind' | printed kind' | closed kind' | closedBlock kind' | closedBlockdef kind' | closedAdding kind' =>
    exact absurd (kind.symm.trans kind') (by decide)

theorem effect_defined (effect : Effect s file top below token s' stack) (kind : token.kind = .closeTag)
    (tag : (s.tree.own top).tag = "blockdef") : ∃ parent, s' = attach parent (.node top) (blockdefClosed top s) := by
  cases effect with
  | closedBlockdef => exact ⟨_, rfl⟩
  | closed kind' nested inner other =>
    rw [tag] at other
    exact absurd (by simp) other
  | closedBlock kind' nested inner tag' | closedAdding kind' nested inner tag' =>
    exact absurd (tag.symm.trans tag') (by decide)
  | text kind' | printed kind' | nested kind' | localized kind' | block kind' | elseIf kind' | otherwise kind'
  | putblock kind' | adding kind' => exact absurd (kind.symm.trans kind') (by decide)

end Made

end Compile

end Stencil
