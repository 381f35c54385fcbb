import Stencil.Proofs.Compile.Dependence
import Stencil.Proofs.Compile.LegibleSources
import Stencil.Proofs.Compile.Shape

/-!
A compilation of legible sources keeps its tree legible, from one piece to the next and when the last links are made.
-/
namespace Stencil

open Tag

/-- A node that is the root of a source. -/
structure Tree.Rooted (t : Tree) (id : NodeId) : Prop where
  old : id.index < t.size
  isRoot : (t.own id).isRoot = true
  name : (t.own id).name = none

theorem Tree.Rooted.keep {t t' : Tree} {id : NodeId} {touched : List NodeId} (rooted : t.Rooted id)
    (keeps : t.Keeps t' touched) : t'.Rooted id :=
  ⟨Nat.lt_of_lt_of_le rooted.old keeps.grown, by rw [keeps.roots id rooted.old, rooted.isRoot],
    by rw [keeps.names id rooted.old, rooted.name]⟩

theorem Tree.Rooted.tag {t : Tree} {id : NodeId} (rooted : t.Rooted id) : (t.own id).tag = "" :=
  Node.tag_of_name_none rooted.name

namespace Compile

variable {W : Type} {c : Compiler W} {tags : String → Prop} {s s' : CompileState W} {t t' : Tree} {file : String}
  {top id : NodeId} {below stack : List NodeId} {token : Markup.Token} {n : Node} {e : Element}

/-- What holds of a compilation of legible sources at any time. -/
structure Legible (tags : String → Prop) (s : CompileState W) : Prop where
  grounded : Grounded s
  tree : s.tree.Legible tags
  blocks : ∀ block b, Keyed.get? block s.blocks = some b → (s.tree.own b.node).tag ∈ Tree.contentTags
  deferred : ∀ id ∈ s.deferred, (s.tree.own id).tag ∈ Tree.blockTags
  frames : ∀ frame ∈ s.frames, s.tree.Rooted frame.root
  finished : ∀ source ∈ s.finished, s.tree.Rooted source.2

namespace Legible

/-- The tree changes, and nothing else does. -/
theorem keep (legible : Legible tags s) {touched : List NodeId} (keeps : s.tree.Keeps t' touched)
    (grounded : Grounded { s with tree := t' }) (tree : t'.Legible tags) : Legible tags { s with tree := t' } := by
  refine ⟨grounded, tree, fun block b known => ?_, fun id mem => ?_,
    fun frame mem => (legible.frames frame mem).keep keeps, fun source mem => (legible.finished source mem).keep keeps⟩
  · show (t'.own b.node).tag ∈ _
    rw [keeps.tag (legible.grounded.blocks block b known)]
    exact legible.blocks block b known
  · show (t'.own id).tag ∈ _
    rw [keeps.tag (legible.grounded.deferred id mem)]
    exact legible.deferred id mem

theorem withNode (legible : Legible tags s) (names : ∀ tag ∈ n.name, tags tag) (fine : n.Legible)
    (parted : s.tree.Parted n) (settled : n.standsFor = none) : Legible tags (withNode s n) :=
  legible.keep (.push s.tree n []) (legible.grounded.withNode settled) (legible.tree.push names fine parted settled)

theorem redirect (legible : Legible tags s) {source destination : NodeId} (from' : source.index < s.tree.size)
    (to' : destination.index < s.tree.size) (sourceTag : (s.tree.own source).tag ∈ Tree.blockTags)
    (destinationTag : (s.tree.own destination).tag ∈ Tree.contentTags) :
    Legible tags { s with tree := s.tree.redirect source destination } :=
  legible.keep (.redirect s.tree source destination []) (legible.grounded.redirect from' to')
    (legible.tree.redirect from' to' sourceTag destinationTag)

theorem define (legible : Legible tags s) {block : String} {b : Block} (old : b.node.index < s.tree.size)
    (tag : (s.tree.own b.node).tag ∈ Tree.contentTags) :
    Legible tags { s with blocks := Keyed.put block b s.blocks } := by
  refine ⟨legible.grounded.define old, legible.tree, fun other b' known => ?_, legible.deferred, legible.frames,
    legible.finished⟩
  rcases Keyed.get?_put known with ⟨-, rfl⟩ | ⟨-, known⟩
  · exact tag
  · exact legible.blocks other b' known

theorem defer (legible : Legible tags s) (old : id.index < s.tree.size) (tag : (s.tree.own id).tag ∈ Tree.blockTags) :
    Legible tags { s with deferred := s.deferred ++ [id] } := by
  refine ⟨legible.grounded.defer old, legible.tree, legible.blocks, fun other mem => ?_, legible.frames,
    legible.finished⟩
  rcases List.mem_append.mp mem with mem | mem
  · exact legible.deferred other mem
  · cases List.mem_singleton.mp mem
    exact tag

theorem noteElse (legible : Legible tags s) (id : NodeId) : Legible tags (noteElse id s) :=
  legible.keep (continues_noteElse id s []).keeps (legible.grounded.noteElse id) (legible.tree.noteElse id)

theorem attach (legible : Legible tags s) (old : id.index < s.tree.size) (holding : (s.tree.own id).Holding)
    (admits : s.tree.Admits e) (inside : s.tree.tagAt e ∈ Node.separators →
      (s.tree.own id).tag = "if" ∧ ∀ e' ∈ (s.tree.own id).body, s.tree.tagAt e' ≠ "else")
    (noted : s.tree.tagAt e = "else" → (s.tree.own id).hasElse = true) : Legible tags (attach id e s) :=
  legible.keep (continues_attach s e (List.mem_singleton_self _)).keeps (legible.grounded.attach id e)
    (legible.tree.append old holding admits inside noted)

end Legible

/-! ### Pieces -/

/-- Open nodes are in the tree, and hold others. -/
def Open (t : Tree) (stack : List NodeId) : Prop := ∀ id ∈ stack, id.index < t.size ∧ (t.own id).Holding

theorem Open.keep {touched : List NodeId} (opened : Open t stack) (keeps : t.Keeps t' touched) : Open t' stack :=
  fun id mem => ⟨Nat.lt_of_lt_of_le (opened id mem).1 keeps.grown,
    (opened id mem).2.kept (keeps.names id (opened id mem).1) (keeps.roots id (opened id mem).1)⟩

theorem tag_withNode (s : CompileState W) (n : Node) : ((withNode s n).tree.own ⟨s.tree.size⟩).tag = n.tag := by
  rw [own_withNode]

theorem name_putblockPlaced (n : Node) (s : CompileState W) :
    ((putblockPlaced n s).tree.own ⟨s.tree.size⟩).name = n.name := by
  obtain ⟨next, same⟩ := own_putblockPlaced n s
  rw [same]

section Tags

variable (legible : Legible tags s)

include legible

theorem Legible.blockOpened (names : ∀ tag ∈ n.name, tags tag) (fine : n.Legible) (bare : n.body = [])
    (settled : n.standsFor = none) (tag : n.tag ∈ Tree.contentTags) : Legible tags (blockOpened n s) := by
  have grown := legible.withNode names fine (Tree.parted_of_body_nil bare) settled
  unfold Compile.blockOpened
  split
  · refine grown.define (new_lt s n) ?_
    rw [tag_withNode]
    exact tag
  · exact grown

theorem Legible.putblockPlaced (names : ∀ tag ∈ n.name, tags tag) (fine : n.Legible) (bare : n.body = [])
    (settled : n.standsFor = none) (tag : n.tag = "putblock") : Legible tags (putblockPlaced n s) := by
  have grown := legible.withNode names fine (Tree.parted_of_body_nil bare) settled
  have tagged : ((Compile.withNode s n).tree.own ⟨s.tree.size⟩).tag ∈ Tree.blockTags := by
    rw [tag_withNode, tag]
    decide
  unfold Compile.putblockPlaced
  split
  · exact grown.defer (new_lt s n) tagged
  · rename_i b known
    exact grown.redirect (new_lt s n) (grown.grounded.blocks _ b known) tagged (grown.blocks _ b known)

/-- A definition and what is known of its block are brought together. -/
theorem Legible.settle {holder : NodeId} (old : holder.index < s.tree.size)
    (tag : (s.tree.own holder).tag ∈ Tree.contentTags) (block : String) : Legible tags (settle holder block s) := by
  unfold Compile.settle
  cases known : Keyed.get? block s.blocks with
  | none => exact legible.define old tag
  | some b =>
    have known' := legible.grounded.blocks block b known
    have tag' := legible.blocks block b known
    dsimp only
    split
    · exact legible
    · split
      · exact legible.redirect old known' (Tree.contentTags_subset tag) tag'
      · have keeps := Tree.Keeps.redirect s.tree b.node holder []
        refine (legible.redirect known' old (Tree.contentTags_subset tag') tag).define
          (Nat.lt_of_lt_of_le old keeps.grown) ?_
        show ((s.tree.redirect b.node holder).own holder).tag ∈ _
        rw [keeps.tag old]
        exact tag

theorem Legible.blockClosed (old : id.index < s.tree.size) (tag : (s.tree.own id).tag = "block") :
    Legible tags (blockClosed id s) := by
  rw [blockClosed_eq]
  exact legible.settle old (by rw [tag]; decide) _

/-- The content of a definition moves to a node of its own. -/
theorem Legible.movedOut (old : id.index < s.tree.size) (tag : (s.tree.own id).tag ∈ Tree.contentTags) :
    Legible tags { s with tree := movedOut id s.tree } ∧
      ((movedOut id s.tree).own ⟨s.tree.size⟩).tag ∈ Tree.contentTags := by
  obtain ⟨fine, parted⟩ := legible.tree.content old
  have copied : Legible tags (Compile.withNode s (bodyNode id s)) :=
    legible.withNode (legible.tree.names _ (legible.tree.sound.target_lt_size old))
      (fine.change rfl rfl rfl rfl (.inl rfl))
      ⟨parted.admits, parted.inside, parted.ordered, parted.early⟩ rfl
  have own : (Compile.withNode s (bodyNode id s)).tree.own id = s.tree.own id := own_old old
  have old' : id.index < (Compile.withNode s (bodyNode id s)).tree.size := Nat.lt_trans old (new_lt s _)
  have tagged : (bodyNode id s).tag ∈ Tree.contentTags := legible.tree.content_target tag
  have keeps : (Compile.withNode s (bodyNode id s)).tree.Keeps (Compile.movedOut id s.tree) _ :=
    .clear _ id (List.mem_singleton_self _)
  have kept : ((Compile.movedOut id s.tree).own ⟨s.tree.size⟩).tag = _ := keeps.tag (new_lt s _)
  rw [kept, tag_withNode]
  refine ⟨copied.keep keeps ?_ (copied.tree.clear old' ?_ ?_), tagged⟩
  · exact copied.grounded.update fun _ => rfl
  · rw [own]
    exact Node.holding_of_content tag
  · rw [own]
    exact Node.uncoded_of_content tag

theorem Legible.blockdefClosed (old : id.index < s.tree.size) (tag : (s.tree.own id).tag = "blockdef") :
    Legible tags (blockdefClosed id s) := by
  obtain ⟨moved, tagged⟩ := legible.movedOut old (by rw [tag]; decide)
  rw [blockdefClosed_eq id s legible.grounded.blocks]
  exact moved.settle (lt_movedOut id s) tagged _

/-- A node comes into the content of a block, with a line end beside it. -/
theorem Legible.added {block addition : NodeId} (old : block.index < s.tree.size)
    (tag : (s.tree.own block).tag ∈ Tree.contentTags) (old' : addition.index < s.tree.size)
    (plain : (s.tree.own addition).tag ∉ Node.separators) (position : Position) :
    Legible tags { s with tree := Compile.added block addition position s.tree } := by
  have keeps : s.tree.Keeps (Compile.added block addition position s.tree) [s.tree.target block] :=
    keeps_added legible.grounded.sound (List.mem_singleton_self _) addition position
  refine legible.keep keeps (legible.grounded.relink (links_added block addition position s.tree)) ?_
  have admits : s.tree.Admits (.node addition) := .node old'
  have line : ∀ t : Tree, t.tagAt (.text "\n") ∉ Node.separators := fun _ => (by decide : "" ∉ Node.separators)
  have holding := Node.holding_of_content tag
  cases position with
  | after =>
    have keeps' := Tree.Keeps.append s.tree block (.text "\n") (List.mem_singleton_self _)
    have tag' := keeps'.tag old
    have first := legible.tree.append old holding (.text "\n") (fun parts => absurd parts (line _))
      fun last => absurd (last ▸ (by decide : "else" ∈ Node.separators)) (line _)
    have plain' : (s.tree.append block (.text "\n")).tagAt (.node addition) ∉ Node.separators := by
      rw [admits.tagAt_eq keeps'.names]
      exact plain
    refine first.append (Nat.lt_of_lt_of_le old keeps'.grown) ?_ (admits.grown keeps'.grown)
      (fun parts => absurd parts plain') fun last => absurd (last ▸ (by decide : "else" ∈ Node.separators)) plain'
    exact Node.holding_of_content (by rw [tag']; exact tag)
  | before =>
    have keeps' := Tree.Keeps.insert s.tree block (.node addition) .before (List.mem_singleton_self _)
    have first := legible.tree.insert old tag admits plain .before
    exact first.insert (Nat.lt_of_lt_of_le old keeps'.grown) (by rw [keeps'.tag old]; exact tag) (.text "\n") (line _) _
  | index i => exact legible.tree.insert old tag admits plain _

theorem Legible.addblockClosed (old : id.index < s.tree.size) (tag : (s.tree.own id).tag = "addblock")
    (position : Position) : Legible tags (addblockClosed position id s) := by
  unfold Compile.addblockClosed
  split
  · exact legible
  · rename_i known found
    split
    · exact legible
    · obtain ⟨moved, tagged⟩ := legible.movedOut old (by rw [tag]; decide)
      have keeps : s.tree.Keeps (Compile.movedOut id s.tree) _ := keeps_movedOut (List.mem_singleton_self _)
      have known' := legible.grounded.blocks _ known found
      refine moved.added (Nat.lt_of_lt_of_le known' keeps.grown) ?_ (lt_movedOut id s)
        (Node.holding_of_content tagged).apart.2 position
      show ((Compile.movedOut id s.tree).own known.node).tag ∈ _
      rw [keeps.tag known']
      exact legible.blocks _ known found

end Tags

/-- An element that parts nothing comes into the innermost node. -/
theorem Legible.joins (legible : Legible tags s) (opened : Open s.tree (top :: below)) (admits : s.tree.Admits e)
    (plain : s.tree.tagAt e ∉ Node.separators) :
    Legible tags (Compile.attach top e s) ∧ Open (Compile.attach top e s).tree (top :: below) := by
  obtain ⟨old, holding⟩ := opened top List.mem_cons_self
  refine ⟨legible.attach old holding admits (fun parts => absurd parts plain) fun last => absurd ?_ plain,
    opened.keep (continues_attach s e (List.mem_singleton_self _)).keeps⟩
  rw [last]
  decide

/-- A node that was open becomes part of the node below it. -/
theorem Legible.closes (legible : Legible tags s') {touched : List NodeId} (keeps : s.tree.Keeps s'.tree touched)
    (opened : Open s.tree (id :: top :: below)) :
    Legible tags (Compile.attach top (.node id) s') ∧ Open (Compile.attach top (.node id) s').tree (top :: below) := by
  obtain ⟨old, holding⟩ := opened id List.mem_cons_self
  have under : Open s.tree (top :: below) := fun other mem => opened other (List.mem_cons_of_mem _ mem)
  refine legible.joins (under.keep keeps) (.node (Nat.lt_of_lt_of_le old keeps.grown)) ?_
  show (s'.tree.own id).tag ∉ Node.separators
  rw [keeps.tag old]
  exact holding.apart.2

/-- A separator comes into a condition that has no `else` yet. -/
theorem Legible.divides (legible : Legible tags s) (opened : Open s.tree (top :: below))
    (inside : (s.tree.own top).tag = "if") (early : (s.tree.own top).hasElse = false)
    {touched : List NodeId} (keeps : s.tree.Keeps s'.tree touched) (grown : Legible tags s')
    (body : (s'.tree.own top).body = (s.tree.own top).body) (admits : s'.tree.Admits e)
    (noted : s'.tree.tagAt e = "else" → (s'.tree.own top).hasElse = true) :
    Legible tags (Compile.attach top e s') ∧ Open (Compile.attach top e s').tree (top :: below) := by
  have opened' := opened.keep keeps
  obtain ⟨old, -⟩ := opened top List.mem_cons_self
  obtain ⟨old', holding⟩ := opened' top List.mem_cons_self
  have parted := legible.tree.parted top old
  have undivided : ∀ e ∈ (s'.tree.own top).body, s'.tree.tagAt e ≠ "else" := by
    intro e mem
    rw [body] at mem
    rw [(parted.admits e mem).tagAt_eq keeps.names]
    exact parted.early early e mem
  refine ⟨grown.attach old' holding admits (fun _ => ⟨?_, undivided⟩) noted,
    opened'.keep (continues_attach _ _ (List.mem_singleton_self _)).keeps⟩
  rw [keeps.tag old, inside]

/-- A new node that holds others is open. -/
theorem Open.more (opened : Open s.tree stack) (holding : n.Holding) :
    Open (withNode s n).tree (⟨s.tree.size⟩ :: stack) := by
  refine List.forall_mem_cons.mpr ⟨⟨new_lt s n, ?_⟩, opened.keep (continues_withNode s n []).keeps⟩
  rw [own_withNode]
  exact holding

/-- A new node opens that holds others. -/
theorem Legible.opens (legible : Legible tags s) (opened : Open s.tree stack) (names : ∀ tag ∈ n.name, tags tag)
    (fine : n.Legible) (bare : n.body = []) (settled : n.standsFor = none) (tag : n.tag ∈ Node.holdingTags) :
    Legible tags (Compile.withNode s n) ∧ Open (Compile.withNode s n).tree (⟨s.tree.size⟩ :: stack) :=
  ⟨legible.withNode names fine (Tree.parted_of_body_nil bare) settled, opened.more (.inr tag)⟩

/-- A new node opens that is for a block. -/
theorem Legible.opensBlock (legible : Legible tags s) (opened : Open s.tree stack) (names : ∀ tag ∈ n.name, tags tag)
    (fine : n.Legible) (bare : n.body = []) (settled : n.standsFor = none) (tag : n.tag ∈ Tree.contentTags) :
    Legible tags (Compile.blockOpened n s) ∧ Open (Compile.blockOpened n s).tree (⟨s.tree.size⟩ :: stack) := by
  refine ⟨legible.blockOpened names fine bare settled tag, ?_⟩
  rw [tree_blockOpened]
  exact opened.more (Node.holding_of_content tag)

/-- What a legible piece does leaves the compilation legible, and the nodes that are open then hold others. -/
theorem effect_legible (effect : Effect s file top below token s' stack) (legible : Legible tags s)
    (opened : Open s.tree (top :: below)) (fine : token.isReadable = true) (within : token.Says tags) :
    Legible tags s' ∧ Open s'.tree stack := by
  obtain ⟨old, -⟩ := opened top List.mem_cons_self
  have empty : ∀ {head : Markup.Head} {stands : Bool} {params : Keyed String},
      s.tree.Parted (tagNode file token.line top head stands params) := Tree.parted_of_body_nil rfl
  have named : ∀ {head : Markup.Head}, token.kind = .openTag → Markup.Head.parse token.content = .ok head →
      ∀ tag ∈ some head.name, tags tag := by
    intro head kind parsed tag mem
    cases mem
    exact within head kind parsed
  cases effect with
  | text kind => exact legible.joins opened (.text _) (by decide : "" ∉ Node.separators)
  | printed kind =>
    have node : (printing file token.line (String.ofList token.content) top).Legible :=
      printing_legible (token.isExpression_of_variable fine kind)
    have printed := legible.withNode (fun _ mem => by cases mem) node (Tree.parted_of_body_nil rfl) rfl
    refine printed.joins (opened.keep (continues_withNode s _ []).keeps) (.node (new_lt s _)) ?_
    show ((withNode s _).tree.own ⟨s.tree.size⟩).tag ∉ Node.separators
    rw [tag_withNode]
    exact (by decide : "" ∉ Node.separators)
  | @nested head params kind parsed tag checked steps =>
    have node := tagNode_legible (token.head_isReadable fine kind parsed) (fun _ => checked) steps
    refine legible.opens opened (named kind parsed) node rfl rfl ?_
    show head.name ∈ Node.holdingTags
    simp only [List.mem_cons, List.not_mem_nil, or_false] at tag
    rcases tag with tag | tag | tag | tag <;> rw [tag] <;> decide
  | @localized head kind parsed tag =>
    have node : (Node.opened file token.line top head true).Legible :=
      opened_legible (token.head_isReadable fine kind parsed) (by rw [tag]; decide)
    refine legible.opens opened (named kind parsed) node rfl rfl ?_
    show head.name ∈ Node.holdingTags
    rw [tag]
    decide
  | @block head kind parsed tag checked =>
    have node : (Node.opened file token.line top head true).Legible :=
      opened_legible (token.head_isReadable fine kind parsed) (by rw [tag]; decide)
    refine legible.opensBlock opened (named kind parsed) node rfl rfl ?_
    show head.name ∈ Tree.contentTags
    rw [tag]
    decide
  | @elseIf head params kind parsed tag checked inside early =>
    have node : (tagNode file token.line top head false params).Legible :=
      tagNode_legible (token.head_isReadable fine kind parsed) (fun _ => by rw [tag]; exact checked)
        fun other => absurd (tag.symm.trans other) (by decide)
    have own : (withNode s (tagNode file token.line top head false params)).tree.own top = s.tree.own top := own_old old
    refine legible.divides opened inside early (continues_withNode s _ []).keeps
      (legible.withNode (named kind parsed) node empty rfl) (congrArg Node.body own) (.node (new_lt s _))
      fun last => absurd last ?_
    show ((withNode s _).tree.own ⟨s.tree.size⟩).tag ≠ "else"
    rw [tag_withNode]
    show head.name ≠ "else"
    rw [tag]
    decide
  | @otherwise head params kind parsed tag checked inside early =>
    have node : (tagNode file token.line top head false params).Legible :=
      tagNode_legible (token.head_isReadable fine kind parsed) (fun mem => absurd mem (by rw [tag]; decide))
        fun other => absurd (tag.symm.trans other) (by decide)
    have goes := (continues_noteElse top (withNode s (tagNode file token.line top head false params)) []).keeps
    have own : (noteElse top (withNode s (tagNode file token.line top head false params))).tree.own top =
        { s.tree.own top with hasElse := true } := by
      refine (Tree.own_update ..).trans ?_
      rw [if_pos ⟨rfl, Nat.lt_trans old (new_lt s _)⟩, own_old old]
    refine legible.divides opened inside early ((continues_withNode s _ []).keeps.trans goes)
      ((legible.withNode (named kind parsed) node empty rfl).noteElse top) ?_
      (.node (Nat.lt_of_lt_of_le (new_lt s _) goes.grown)) fun _ => ?_
    · rw [own]
    · rw [own]
  | @putblock head kind parsed tag checked =>
    have node : (Node.opened file token.line top head false).Legible :=
      opened_legible (token.head_isReadable fine kind parsed) (by rw [tag]; decide)
    have goes := continues_putblockPlaced (Node.opened file token.line top head false) s []
    refine (legible.putblockPlaced (named kind parsed) node rfl rfl tag).joins (opened.keep goes.keeps) (.node ?_) ?_
    · exact lt_putblockPlaced _ s
    · show Node.tag _ ∉ Node.separators
      rw [Node.tag_eq_of_name (name_putblockPlaced _ s)]
      show head.name ∉ Node.separators
      rw [tag]
      decide
  | @adding head params position kind parsed tag checked placed =>
    have node : ((Node.opened file token.line top head true).withParams params).Legible :=
      uncoded_legible (token.head_isReadable fine kind parsed) (by rw [tag]; decide) params
    refine legible.opensBlock opened (named kind parsed) node rfl rfl ?_
    show head.name ∈ Tree.contentTags
    rw [tag]
    decide
  | closed kind nested inner other =>
    subst nested
    exact legible.closes (.refl s.tree []) opened
  | closedBlock kind nested inner tag =>
    subst nested
    exact (legible.blockClosed old tag).closes (continues_blockClosed top s []).keeps opened
  | closedBlockdef kind nested inner tag =>
    subst nested
    have continued := continues_blockdefClosed top s (List.mem_singleton_self _)
    exact (legible.blockdefClosed old tag).closes continued.keeps opened
  | @closedAdding parent under position kind nested inner tag =>
    subst nested
    obtain ⟨_, goes⟩ := continues_addblockClosed legible.grounded position top
    exact (legible.addblockClosed old tag position).closes goes.keeps opened

/-- Pieces that read nothing leave the world alone. -/
theorem effect_world (effect : Effect s file top below token s' stack) : s'.world = s.world := by
  cases effect with
  | text => rfl
  | printed => rfl
  | nested => rfl
  | localized => rfl
  | block =>
    unfold blockOpened
    split <;> rfl
  | elseIf => rfl
  | otherwise => rfl
  | putblock =>
    show (putblockPlaced _ s).world = s.world
    unfold putblockPlaced
    split <;> rfl
  | adding =>
    unfold blockOpened
    split <;> rfl
  | closed => rfl
  | closedBlock =>
    show (blockClosed top s).world = s.world
    unfold blockClosed
    dsimp only
    split
    · rfl
    · split
      · rfl
      · split <;> rfl
  | closedBlockdef =>
    show (blockdefClosed top s).world = s.world
    unfold blockdefClosed
    dsimp only
    split
    · rfl
    · split <;> rfl
  | closedAdding =>
    show (addblockClosed _ top s).world = s.world
    unfold addblockClosed
    split
    · rfl
    · split <;> rfl

/-! ### Other templates -/

section Templates

variable {head : Markup.Head} {root : NodeId} {sheet : Sheet} {name : String}

/-- A tag gets the root of the template that it had read. -/
theorem Legible.received (legible : Legible tags s) (old : id.index < s.tree.size) (holding : (s.tree.own id).Holding)
    (tag : (s.tree.own id).tag = head.name) (either : head.name = "extends" ∨ head.name = "include")
    (rooted : s.tree.Rooted root) : Legible tags (received head id root s) := by
  unfold Compile.received
  split
  · refine ⟨⟨legible.grounded.sound, legible.grounded.blocks, legible.grounded.deferred⟩, legible.tree,
      legible.blocks, legible.deferred, fun frame mem => ?_, legible.finished⟩
    change frame ∈ setRoot root s.frames at mem
    cases frames : s.frames with
    | nil =>
      rw [frames] at mem
      cases mem
    | cons first rest =>
      rw [frames] at mem
      rcases List.mem_cons.mp mem with rfl | mem
      · exact rooted
      · exact legible.frames frame (by rw [frames]; exact List.mem_cons_of_mem _ mem)
  · rename_i other
    have keeps := Tree.Keeps.clear s.tree id (List.mem_singleton_self _)
    have uncoded : (s.tree.own id).tag ∉ Node.coded := by
      rw [tag, either.resolve_left other]
      decide
    have cleared : Legible tags { s with tree := s.tree.clear id } :=
      legible.keep keeps (legible.grounded.update fun _ => rfl) (legible.tree.clear old holding uncoded)
    have here : Open s.tree [id] := List.forall_mem_singleton.mpr ⟨old, holding⟩
    have rooted' := rooted.keep keeps
    refine (cleared.joins (here.keep keeps) (.node rooted'.old) ?_).1
    show ((s.tree.clear id).own root).tag ∉ Node.separators
    rw [rooted'.tag]
    decide

/-- A new source is entered. -/
theorem Legible.enter (legible : Legible tags s) (laid : Laid s sheet s') (root : sheet.frame.root = ⟨s.tree.size⟩) :
    Legible tags s' ∧ Open s'.tree sheet.stack := by
  obtain ⟨stack, name, w, sources, rfl⟩ := laid
  have grown := legible.withNode (fun _ mem => by cases mem) (rootNode_legible name) (Tree.parted_of_body_nil rfl) rfl
  have own := own_withNode s (rootNode name)
  refine ⟨⟨⟨grown.grounded.sound, grown.grounded.blocks, grown.grounded.deferred⟩, grown.tree, grown.blocks,
    grown.deferred, List.forall_mem_cons.mpr ⟨?_, grown.frames⟩, grown.finished⟩, fun id mem => ?_⟩
  · rw [root]
    exact ⟨new_lt s _, congrArg Node.isRoot own, congrArg Node.name own⟩
  · rw [stack] at mem
    cases List.mem_singleton.mp mem
    exact ⟨new_lt s _, .inl ⟨congrArg Node.isRoot own, congrArg Node.name own⟩⟩

/-- A source is left. -/
theorem Legible.leave (legible : Legible tags s) (sheet : Sheet) (reading : s.frames ≠ []) :
    s.tree.Rooted (rootOf sheet s) ∧ Legible tags (left sheet s) := by
  have rooted : s.tree.Rooted (rootOf sheet s) := by
    unfold rootOf
    cases frames : s.frames with
    | nil => exact absurd frames reading
    | cons frame rest => exact legible.frames frame (by rw [frames]; exact List.mem_cons_self)
  refine ⟨rooted, ⟨legible.grounded.sound, legible.grounded.blocks, legible.grounded.deferred⟩, legible.tree,
    legible.blocks, legible.deferred, fun frame mem => legible.frames frame (List.mem_of_mem_tail mem),
    fun source mem => ?_⟩
  rcases Keyed.mem_put mem with rfl | mem
  · exact rooted
  · exact legible.finished source mem

end Templates

/-! ### Runs -/

section Runs

variable {holds : W → Prop} {r r' : Reader W} {name : String} {text? : Option String} {root : NodeId} {sheet : Sheet}
  {outer sheets : List Sheet} {frame : Frame} {tokens : List Markup.Token} {head : Markup.Head} {h : List BlockEvent}

/-- What is left to be read of a sheet can be read, and has none but these tags. -/
def Unread (tags : String → Prop) (sheet : Sheet) : Prop :=
  ∀ token ∈ sheet.tokens, token.isReadable = true ∧ token.Says tags

/-- What holds at any time of the machine that reads legible sources. -/
structure Readable (tags : String → Prop) (holds : W → Prop) (r : Reader W) : Prop where
  shaped : Shaped r
  legible : Legible tags r.state
  opened : ∀ sheet ∈ r.sheets, Open r.state.tree sheet.stack
  unread : ∀ sheet ∈ r.sheets, Unread tags sheet
  world : holds r.state.world

/-- A source that is entered can be read if all can. -/
theorem enters_readable (sources : c.library.Supplies holds (Markup.Readable tags)) (world : holds s.world)
    (enters : Enters c name s sheet s') :
    sheet.frame.root = ⟨s.tree.size⟩ ∧ Unread tags sheet ∧ holds s'.world := by
  obtain ⟨identity, s₁, stamp, s₂, text, s₃, located, -, -, stamped, read, tokens, scanned, rfl, rfl⟩ := enters
  obtain ⟨-, rfl⟩ := Prod.mk.inj located
  obtain ⟨-, rfl⟩ := Prod.mk.inj stamped
  obtain ⟨given, rfl⟩ := Prod.mk.inj read
  obtain ⟨world', fine⟩ := sources.read _ _ (sources.modified _ _ (sources.locate _ _ world))
  exact ⟨rfl, fine text given tokens scanned, world'⟩

theorem begins_readable (sources : c.library.Supplies holds (Markup.Readable tags)) (world : holds s.world)
    (fine : ∀ text ∈ text?, Markup.Readable tags name text) (begins : Begins c name text? s sheet s') :
    sheet.frame.root = ⟨s.tree.size⟩ ∧ Unread tags sheet ∧ holds s'.world := by
  cases text? with
  | none => exact enters_readable sources world begins
  | some text =>
    obtain ⟨stamp, s₁, stamped, tokens, scanned, rfl, rfl⟩ := begins
    obtain ⟨-, rfl⟩ := Prod.mk.inj stamped
    exact ⟨rfl, fine text rfl tokens scanned, sources.modified _ _ world⟩

theorem again_readable (sources : c.library.Supplies holds (Markup.Readable tags)) (world : holds s.world)
    (again : Again c name s root s') :
    (∃ w, s' = { s with world := w } ∧ holds w) ∧ ∃ identity, (identity, root) ∈ s.finished := by
  obtain ⟨identity, located, -, done⟩ := again
  obtain ⟨-, rfl⟩ := Prod.mk.inj located
  exact ⟨⟨_, rfl, sources.locate _ _ world⟩, identity, Keyed.mem_of_get? done⟩

namespace Readable

/-- The world changes, and nothing else does. -/
theorem elsewhere {w : W} (readable : Readable tags holds ⟨s, sheets, h⟩) (world : holds w) :
    Readable tags holds ⟨{ s with world := w }, sheets, h⟩ :=
  have legible := readable.legible
  ⟨readable.shaped.world w, ⟨⟨legible.grounded.sound, legible.grounded.blocks, legible.grounded.deferred⟩, legible.tree,
    legible.blocks, legible.deferred, legible.frames, legible.finished⟩, readable.opened, readable.unread, world⟩

/-- The innermost source goes on; the others keep what they have. -/
theorem go (readable : Readable tags holds ⟨s, ⟨frame, token :: tokens, stack⟩ :: outer, h⟩) {touched : List NodeId}
    (keeps : s.tree.Keeps s'.tree touched) (legible : Legible tags s') {stack' : List NodeId}
    (opened : Open s'.tree stack') (world : s'.world = s.world) {tokens' : List Markup.Token}
    (rest : tokens' ⊆ token :: tokens) {h' : List BlockEvent}
    (shaped : Shaped ⟨s', ⟨frame, tokens', stack'⟩ :: outer, h'⟩) :
    Readable tags holds ⟨s', ⟨frame, tokens', stack'⟩ :: outer, h'⟩ := by
  obtain ⟨unread, outerUnread⟩ := List.forall_mem_cons.mp readable.unread
  refine ⟨shaped, legible, List.forall_mem_cons.mpr ⟨opened, fun sheet mem => ?_⟩,
    List.forall_mem_cons.mpr ⟨fun other mem => unread other (rest mem), outerUnread⟩, ?_⟩
  · exact (readable.opened sheet (List.mem_cons_of_mem _ mem)).keep keeps
  · show holds s'.world
    rw [world]
    exact readable.world

theorem put (standard : c.table = standardTable)
    (readable : Readable tags holds ⟨s, ⟨frame, token :: tokens, stack⟩ :: outer, h⟩) {stack' : List NodeId}
    (reads : stack = [] ∨ token.reading? = none)
    (run : Compile.put c.table noLoad frame.name stack token s = (.ok stack', s')) :
    Readable tags holds ⟨s', ⟨frame, tokens, stack'⟩ :: outer, h ++ BlockEvent.ofPiece token stack s⟩ := by
  have upright : Upright s.tree stack := readable.shaped.upright _ List.mem_cons_self
  have opened : Open s.tree stack := readable.opened _ List.mem_cons_self
  obtain ⟨fine, within⟩ := readable.unread _ List.mem_cons_self token List.mem_cons_self
  have shaped : Shaped ⟨s', ⟨frame, tokens, stack'⟩ :: outer, h ++ BlockEvent.ofPiece token stack s⟩ :=
    readable.shaped.put standard reads run
  cases stack with
  | nil => exact absurd rfl upright.ne_nil
  | cons top below =>
    have reads' : token.reading? = none := reads.resolve_left fun h => by cases h
    have old := (opened top List.mem_cons_self).1
    rw [standard] at run
    have effect := put_effect old upright.bottom reads' run
    obtain ⟨-, ⟨touched, goes⟩, -⟩ := effect_shape effect readable.shaped.grounded old
    obtain ⟨legible, opened'⟩ := effect_legible effect readable.legible opened fine within
    exact readable.go goes.keeps legible opened' (effect_world effect) (List.subset_cons_self _ _) shaped

/-- A tag that has a template read opens. -/
theorem refer (readable : Readable tags holds ⟨s, ⟨frame, token :: tokens, top :: below⟩ :: outer, h⟩)
    (reads : token.reading? = some head) :
    Readable tags holds ⟨referring frame.name token.line top head s,
      ⟨frame, token :: tokens, ⟨s.tree.size⟩ :: top :: below⟩ :: outer, h⟩ := by
  have opened : Open s.tree (top :: below) := readable.opened _ List.mem_cons_self
  obtain ⟨fine, within⟩ := readable.unread _ List.mem_cons_self token List.mem_cons_self
  obtain ⟨kind, parsed, either⟩ := of_reading reads
  have node : (Node.opened frame.name token.line top head false).Legible :=
    opened_legible (token.head_isReadable fine kind parsed) (by rcases either with same | same <;> rw [same] <;> decide)
  refine readable.go (continues_withNode s _ []).keeps
    (readable.legible.withNode (fun tag mem => ?_) node (Tree.parted_of_body_nil rfl) rfl)
    (opened.more (.inr ?_)) rfl (List.Subset.refl _) (readable.shaped.refer reads).1
  · cases mem
    exact within head kind parsed
  · show head.name ∈ Node.holdingTags
    rcases either with same | same <;> rw [same] <;> decide

/-- A tag that had a template read goes on with its root. -/
theorem resume (readable : Readable tags holds ⟨s, ⟨frame, token :: tokens, id :: top :: below⟩ :: outer, h⟩)
    (waits : Waiting s.tree ⟨frame, token :: tokens, id :: top :: below⟩) (reads : token.reading? = some head)
    (rooted : s.tree.Rooted root) :
    Readable tags holds ⟨(settled id top below (received head id root s)).2,
      ⟨frame, tokens, (settled id top below (received head id root s)).1⟩ :: outer, h⟩ := by
  have opened : Open s.tree (id :: top :: below) := readable.opened _ List.mem_cons_self
  obtain ⟨old, holding⟩ := opened id List.mem_cons_self
  have stands := waits.stands
  have shaped := readable.shaped.resume stands head root
  have goes : Continues s (received head id root s)
      [s.tree.target id, (s.tree.clear id).target id, (received head id root s).tree.target top] :=
    continues_received head id root s (by simp) (by simp)
  have joins : Continues (received head id root s) (attach top (.node id) (received head id root s))
      [s.tree.target id, (s.tree.clear id).target id, (received head id root s).tree.target top] :=
    continues_attach _ _ (by simp)
  have tag : (s.tree.own id).tag = head.name := by
    obtain ⟨token', tokens', head', id', top', below', same, reads', stack, name, -⟩ := waits
    cases same
    cases stack
    cases reads.symm.trans reads'
    exact Node.tag_of_name name
  rw [settled_received old stands] at shaped ⊢
  have got := readable.legible.received old holding tag (of_reading reads).2.2 rooted
  obtain ⟨legible, opened'⟩ := got.closes goes.keeps opened
  refine readable.go (goes.keeps.trans joins.keeps) legible opened' ?_ (List.subset_cons_self _ _) shaped
  show (received head id root s).world = s.world
  unfold received
  split <;> rfl

/-- Another source is entered while this one waits. -/
theorem enter (readable : Readable tags holds ⟨s, sheets, h⟩) (waits : ∀ first ∈ sheets.head?, Waiting s.tree first)
    (laid : Laid s sheet s')
    (given : sheet.frame.root = ⟨s.tree.size⟩ ∧ Unread tags sheet ∧ holds s'.world) :
    Readable tags holds ⟨s', sheet :: sheets, h⟩ := by
  obtain ⟨root, unread, world⟩ := given
  obtain ⟨legible, opened⟩ := readable.legible.enter laid root
  refine ⟨readable.shaped.enter waits laid, legible, List.forall_mem_cons.mpr ⟨opened, fun other mem => ?_⟩,
    List.forall_mem_cons.mpr ⟨unread, readable.unread⟩, world⟩
  obtain ⟨-, name, w, sources, rfl⟩ := laid
  exact (readable.opened other mem).keep (continues_withNode s (rootNode name) []).keeps

/-- The innermost source is left. -/
theorem leave (readable : Readable tags holds ⟨s, sheet :: sheets, h⟩) :
    s.tree.Rooted (rootOf sheet s) ∧ Readable tags holds ⟨left sheet s, sheets, h⟩ := by
  have reading : s.frames ≠ [] := by
    intro none
    have depth : s.frames.length = sheets.length + 1 := readable.shaped.depth
    rw [none] at depth
    cases depth
  obtain ⟨rooted, legible⟩ := readable.legible.leave sheet reading
  exact ⟨rooted, readable.shaped.leave, legible, fun other mem => readable.opened other (List.mem_cons_of_mem _ mem),
    fun other mem => readable.unread other (List.mem_cons_of_mem _ mem), readable.world⟩

/-- No step makes anything unreadable. -/
theorem step (standard : c.table = standardTable) (sources : c.library.Supplies holds (Markup.Readable tags))
    (readable : Readable tags holds r) (step : Step c r r') : Readable tags holds r' := by
  cases step with
  | put reads run => exact readable.put standard reads run
  | again reads checked again =>
    obtain ⟨-, waits⟩ := readable.shaped.refer reads
    have referred := readable.refer reads
    obtain ⟨⟨w, rfl, world⟩, identity, done⟩ := again_readable sources referred.world again
    exact (referred.elsewhere world).resume waits reads (referred.legible.finished _ done)
  | enter reads checked enters =>
    obtain ⟨-, waits⟩ := readable.shaped.refer reads
    have referred := readable.refer reads
    exact referred.enter (fun first mem => by cases mem; exact waits) (enters_laid enters)
      (enters_readable sources referred.world enters)
  | leave finished reads =>
    obtain ⟨rooted, outer⟩ := readable.leave
    exact outer.resume (readable.shaped.waiting _ List.mem_cons_self) reads rooted

theorem run (standard : c.table = standardTable) (sources : c.library.Supplies holds (Markup.Readable tags))
    (readable : Readable tags holds r) (run : Run c r r') : Readable tags holds r' := by
  induction run with
  | here => exact readable
  | on step rest ih => exact ih (readable.step standard sources step)

end Readable

theorem readable_initial {w : W} (fine : holds w) : Readable tags holds ⟨.initial w, [], []⟩ := by
  have none : ∀ id : NodeId, ¬id.index < Tree.empty.size := fun id => Nat.not_lt_zero _
  have grounded : Grounded (.initial w) :=
    ⟨Tree.sound_empty, fun block b known => (by cases known), fun id mem => (by cases mem)⟩
  refine ⟨⟨grounded, rfl, fun sheet mem => (by cases mem), fun sheet mem => (by cases mem)⟩, ⟨grounded, ?_,
    fun block b known => (by cases known), fun id mem => (by cases mem), fun frame mem => (by cases mem),
    fun source mem => (by cases mem)⟩, fun sheet mem => (by cases mem), fun sheet mem => (by cases mem), fine⟩
  exact ⟨Tree.sound_empty, fun id small => absurd small (none id), fun id small => absurd small (none id),
    fun id small => absurd small (none id),
    fun id next leads => absurd (Tree.lt_size_of_standsFor leads) (none id)⟩

/-- The links that are made in the end keep the tree legible. -/
theorem linkDeferred_legible {ids : List NodeId} (legible : Legible tags s)
    (waits : ∀ id ∈ ids, id.index < s.tree.size ∧ (s.tree.own id).tag ∈ Tree.blockTags)
    (run : linkDeferred ids s = (.ok (), s')) : s'.tree.Legible tags ∧ s.tree.Keeps s'.tree [] := by
  induction ids generalizing s with
  | nil =>
    cases run
    exact ⟨legible.tree, .refl _ _⟩
  | cons id ids ih =>
    obtain ⟨⟨old, tag⟩, rest⟩ := List.forall_mem_cons.mp waits
    rw [linkDeferred_cons] at run
    cases known : Keyed.get? ((s.tree.own id).param "id") s.blocks with
    | none =>
      rw [known] at run
      cases run
    | some b =>
      rw [known] at run
      have keeps := Tree.Keeps.redirect s.tree id b.node []
      have linked := legible.redirect old (legible.grounded.blocks _ b known) tag (legible.blocks _ b known)
      obtain ⟨tree, keeps'⟩ := ih linked (fun other mem => ⟨Nat.lt_of_lt_of_le (rest other mem).1 keeps.grown,
        by rw [keeps.tag (rest other mem).1]; exact (rest other mem).2⟩) run
      exact ⟨tree, keeps.trans keeps'⟩

/-- Legible sources make a legible tree, with a root at its top. -/
theorem reads_legible (standard : c.table = standardTable) (sources : c.library.Supplies holds (Markup.Readable tags))
    {w : W} (world : holds w) (fine : ∀ text ∈ text?, Markup.Readable tags name text) {t : Template}
    (reads : Reads c name text? (.initial w) h t s') : s'.tree.Legible tags ∧ s'.tree.Rooted t.root := by
  obtain ⟨sheet, s₁, inner, s₂, begins, run, finished, finishes⟩ := reads
  have start := (readable_initial world).enter (fun _ mem => by cases mem) (begins_laid begins)
    (begins_readable sources world fine begins)
  have read := start.run standard sources run
  obtain ⟨rooted, -⟩ := read.leave
  obtain ⟨linked, rfl⟩ := finish_parts finishes
  have waits : ∀ id ∈ s₂.deferred, id.index < s₂.tree.size ∧ (s₂.tree.own id).tag ∈ Tree.blockTags :=
    fun id mem => ⟨read.legible.grounded.deferred id mem, read.legible.deferred id mem⟩
  have ready : ∀ {finished : Keyed NodeId}, (∀ source ∈ finished, s₂.tree.Rooted source.2) →
      Legible tags { s₂ with frames := s₂.frames.tail, finished := finished, deferred := [] } := fun rooted =>
    ⟨⟨read.legible.grounded.sound, read.legible.grounded.blocks, fun _ mem => (by cases mem)⟩, read.legible.tree,
      read.legible.blocks, fun _ mem => (by cases mem),
      fun frame mem => read.legible.frames frame (List.mem_of_mem_tail mem), rooted⟩
  have done : s'.tree.Legible tags ∧ s₂.tree.Keeps s'.tree [] := by
    cases text? with
    | none =>
      have finished : ∀ source ∈ Keyed.put inner.frame.identity (rootOf inner s₂) s₂.finished,
          s₂.tree.Rooted source.2 := by
        intro source mem
        rcases Keyed.mem_put mem with rfl | mem
        · exact rooted
        · exact read.legible.finished source mem
      have done := linkDeferred_legible (ready finished) waits linked
      exact done
    | some text =>
      have done := linkDeferred_legible (ready read.legible.finished) waits linked
      exact done
  exact ⟨done.1, rooted.keep done.2⟩

end Runs

end Compile

end Stencil
