import Stencil.Proofs.Compile.Reading
import Stencil.Proofs.Tree.Keeping

/-!
The shape of a compilation that goes on: the tree is sound, every source has its own root at the bottom of its stack
and no other root on it, and the sources that wait stand at the tags that had others read.
-/
namespace Stencil

open Tag

namespace Compile

variable {W : Type} {c : Compiler W} {s s' : CompileState W} {t t' : Tree} {file : String} {top : NodeId}
  {below stack : List NodeId} {token : Markup.Token}

/-- The tree is sound, and all that is known of it is in it. -/
structure Grounded (s : CompileState W) : Prop where
  sound : s.tree.Sound
  blocks : ∀ block b, Keyed.get? block s.blocks = some b → b.node.index < s.tree.size
  deferred : ∀ id ∈ s.deferred, id.index < s.tree.size

/-- What a step leaves alone: the tags of the nodes, and how many templates are being read. -/
structure Continues (s s' : CompileState W) (touched : List NodeId) : Prop where
  keeps : s.tree.Keeps s'.tree touched
  depth : s'.frames.length = s.frames.length

theorem Continues.mono {touched more : List NodeId} (goes : Continues s s' touched) (sub : touched ⊆ more) :
    Continues s s' more :=
  ⟨goes.keeps.mono sub, goes.depth⟩

theorem Continues.trans {s'' : CompileState W} {touched : List NodeId} (first : Continues s s' touched)
    (second : Continues s' s'' touched) : Continues s s'' touched :=
  ⟨first.keeps.trans second.keeps, second.depth.trans first.depth⟩

/-! #### What is done to the tree -/

section Operations

variable {n : Node} {e : Element} {touched : List NodeId}

theorem size_withNode (s : CompileState W) (n : Node) : (withNode s n).tree.size = s.tree.size + 1 :=
  Tree.size_push ..

theorem continues_withNode (s : CompileState W) (n : Node) (touched : List NodeId) :
    Continues s (withNode s n) touched :=
  ⟨.push s.tree n touched, rfl⟩

theorem Grounded.withNode (grounded : Grounded s) (settled : n.standsFor = none) : Grounded (withNode s n) := by
  have grown : ∀ {i : Nat}, i < s.tree.size → i < (Compile.withNode s n).tree.size := by
    intro i h
    rw [size_withNode]
    exact Nat.lt_succ_of_lt h
  exact ⟨(Tree.SameLinks.push settled s.tree).sound grounded.sound,
    fun block b known => grown (grounded.blocks block b known), fun id mem => grown (grounded.deferred id mem)⟩

theorem continues_attach (s : CompileState W) (e : Element) (mem : s.tree.target top ∈ touched) :
    Continues s (attach top e s) touched :=
  ⟨.append s.tree top e mem, rfl⟩

theorem Grounded.update (grounded : Grounded s) {id : NodeId} {f : Node → Node}
    (keeps : ∀ n, (f n).standsFor = n.standsFor) : Grounded { s with tree := s.tree.update id f } := by
  have size : (s.tree.update id f).size = s.tree.size := Tree.size_update ..
  refine ⟨(Tree.SameLinks.update s.tree id f keeps).sound grounded.sound, fun block b known => ?_, fun id mem => ?_⟩
  · show b.node.index < (s.tree.update _ f).size
    rw [size]
    exact grounded.blocks block b known
  · show id.index < (s.tree.update _ f).size
    rw [size]
    exact grounded.deferred id mem

theorem Grounded.attach (grounded : Grounded s) (top : NodeId) (e : Element) : Grounded (attach top e s) :=
  grounded.update fun _ => rfl

theorem continues_noteElse (id : NodeId) (s : CompileState W) (touched : List NodeId) :
    Continues s (noteElse id s) touched :=
  ⟨.update s.tree (fun _ => rfl) (fun _ => rfl) (fun _ => rfl) (fun _ => rfl) (fun _ o c => ⟨o, c⟩)
    (.inr fun _ => ⟨rfl, rfl, rfl⟩), rfl⟩

theorem Grounded.noteElse (grounded : Grounded s) (id : NodeId) : Grounded (noteElse id s) :=
  grounded.update fun _ => rfl

theorem Grounded.redirect (grounded : Grounded s) {source destination : NodeId} (old : source.index < s.tree.size)
    (old' : destination.index < s.tree.size) :
    Grounded { s with tree := s.tree.redirect source destination } := by
  have size : (s.tree.redirect source destination).size = s.tree.size := Tree.size_redirect ..
  refine ⟨grounded.sound.redirect old old', fun block b known => ?_, fun id mem => ?_⟩
  · show b.node.index < (s.tree.redirect _ _).size
    rw [size]
    exact grounded.blocks block b known
  · show id.index < (s.tree.redirect _ _).size
    rw [size]
    exact grounded.deferred id mem

theorem Grounded.define (grounded : Grounded s) {block : String} {b : Block} (old : b.node.index < s.tree.size) :
    Grounded { s with blocks := Keyed.put block b s.blocks } := by
  refine ⟨grounded.sound, fun other b' known => ?_, grounded.deferred⟩
  rcases Keyed.get?_put known with ⟨-, rfl⟩ | ⟨-, known⟩
  · exact old
  · exact grounded.blocks other b' known

theorem Grounded.defer (grounded : Grounded s) {id : NodeId} (old : id.index < s.tree.size) :
    Grounded { s with deferred := s.deferred ++ [id] } := by
  refine ⟨grounded.sound, grounded.blocks, fun other mem => ?_⟩
  rcases List.mem_append.mp mem with mem | mem
  · exact grounded.deferred other mem
  · cases List.mem_singleton.mp mem
    exact old

end Operations

/-! #### What the tags for blocks do -/

theorem tree_blockOpened (n : Node) (s : CompileState W) : (blockOpened n s).tree = (withNode s n).tree := by
  unfold blockOpened
  split <;> rfl

section BlockTags

variable {n : Node} {touched : List NodeId}

theorem new_lt (s : CompileState W) (n : Node) : s.tree.size < (withNode s n).tree.size := by
  rw [size_withNode]
  exact Nat.lt_succ_self _

theorem lt_blockOpened (n : Node) (s : CompileState W) : s.tree.size < (blockOpened n s).tree.size := by
  rw [tree_blockOpened]
  exact new_lt s n

theorem continues_blockOpened (n : Node) (s : CompileState W) (touched : List NodeId) :
    Continues s (blockOpened n s) touched := by
  unfold blockOpened
  split <;> exact ⟨.push s.tree n touched, rfl⟩

theorem Grounded.blockOpened (grounded : Grounded s) (settled : n.standsFor = none) : Grounded (blockOpened n s) := by
  unfold Compile.blockOpened
  split
  · exact (grounded.withNode settled).define (new_lt s n)
  · exact grounded.withNode settled

theorem lt_putblockPlaced (n : Node) (s : CompileState W) : s.tree.size < (putblockPlaced n s).tree.size := by
  unfold putblockPlaced
  split
  · exact new_lt s n
  · show _ < ((withNode s n).tree.redirect _ _).size
    rw [Tree.size_redirect]
    exact new_lt s n

theorem continues_putblockPlaced (n : Node) (s : CompileState W) (touched : List NodeId) :
    Continues s (putblockPlaced n s) touched := by
  unfold putblockPlaced
  split
  · exact ⟨.push s.tree n touched, rfl⟩
  · exact ⟨(Tree.Keeps.push s.tree n touched).trans (.redirect _ _ _ touched), rfl⟩

theorem Grounded.putblockPlaced (grounded : Grounded s) (settled : n.standsFor = none) :
    Grounded (putblockPlaced n s) := by
  unfold Compile.putblockPlaced
  split
  · exact (grounded.withNode settled).defer (new_lt s n)
  · rename_i b known
    exact (grounded.withNode settled).redirect (new_lt s n) (Nat.lt_trans (grounded.blocks _ b known) (new_lt s n))

theorem continues_blockClosed (id : NodeId) (s : CompileState W) (touched : List NodeId) :
    Continues s (blockClosed id s) touched := by
  unfold blockClosed
  dsimp only
  split
  · exact ⟨.refl s.tree touched, rfl⟩
  · split
    · exact ⟨.refl s.tree touched, rfl⟩
    · split <;> exact ⟨.redirect _ _ _ touched, rfl⟩

theorem Grounded.blockClosed (grounded : Grounded s) {id : NodeId} (old : id.index < s.tree.size) :
    Grounded (blockClosed id s) := by
  unfold Compile.blockClosed
  dsimp only
  split
  · exact grounded.define old
  · rename_i b known
    split
    · exact grounded
    · split
      · exact grounded.redirect old (grounded.blocks _ b known)
      · refine (grounded.redirect (grounded.blocks _ b known) old).define ?_
        show id.index < (s.tree.redirect _ _).size
        rw [Tree.size_redirect]
        exact old

/-- The node that takes the content of a definition. -/
def bodyNode (id : NodeId) (s : CompileState W) : Node := { s.tree.content id with standsFor := none }

theorem movedOut_eq (id : NodeId) (s : CompileState W) :
    movedOut id s.tree = (withNode s (bodyNode id s)).tree.clear id :=
  rfl

/-- The new node has what the old one had, which has nothing any more. -/
theorem own_movedOut {id : NodeId} (settled : s.tree.Settled id) (old : id.index < s.tree.size) :
    (movedOut id s.tree).own ⟨s.tree.size⟩ = bodyNode id s ∧
      (movedOut id s.tree).own id = { s.tree.own id with opening := "", body := [], closing := "" } := by
  have apart : (⟨s.tree.size⟩ : NodeId) ≠ id := fun same => Nat.lt_irrefl _ (same ▸ old)
  have settled' : (withNode s (bodyNode id s)).tree.Settled id :=
    ((Tree.SameLinks.push rfl s.tree).settled_iff id).mpr settled
  have grown : id.index < (withNode s (bodyNode id s)).tree.size := Nat.lt_trans old (new_lt s _)
  rw [movedOut_eq, settled'.clear_eq]
  constructor
  · rw [Tree.own_update, if_neg fun h => apart h.1, own_withNode]
  · rw [Tree.own_update_self grown, own_old old]

theorem lt_movedOut (id : NodeId) (s : CompileState W) : s.tree.size < (movedOut id s.tree).size := by
  rw [movedOut_eq]
  show _ < ((withNode s (bodyNode id s)).tree.update _ _).size
  rw [Tree.size_update]
  exact new_lt s _

theorem keeps_movedOut {id : NodeId} (mem : (withNode s (bodyNode id s)).tree.target id ∈ touched) :
    s.tree.Keeps (movedOut id s.tree) touched :=
  (Tree.Keeps.push s.tree (bodyNode id s) touched).trans (.clear _ id mem)

theorem continues_blockdefClosed (id : NodeId) (s : CompileState W)
    (mem : (withNode s (bodyNode id s)).tree.target id ∈ touched) : Continues s (blockdefClosed id s) touched := by
  have moved := keeps_movedOut mem
  unfold blockdefClosed
  dsimp only
  split
  · exact ⟨moved, rfl⟩
  · split <;> exact ⟨moved.trans (.redirect _ _ _ touched), rfl⟩

theorem Grounded.blockdefClosed (grounded : Grounded s) (id : NodeId) : Grounded (blockdefClosed id s) := by
  have moved : Grounded { s with tree := movedOut id s.tree } :=
    (grounded.withNode (n := bodyNode id s) rfl).update fun _ => rfl
  have new := lt_movedOut id s
  unfold Compile.blockdefClosed
  dsimp only
  split
  · exact moved.define new
  · rename_i b known
    have old := moved.blocks _ b known
    split
    · refine (moved.redirect old new).define ?_
      show _ < ((movedOut id s.tree).redirect _ _).size
      rw [Tree.size_redirect]
      exact new
    · exact moved.redirect new old

theorem links_added (block addition : NodeId) (position : Position) (t : Tree) :
    t.SameLinks (added block addition position t) := by
  cases position with
  | after => exact (Tree.SameLinks.append t block _).trans (.append _ block _)
  | before => exact (Tree.SameLinks.insert t block _ _).trans (.insert _ block _ _)
  | index i => exact .insert t block _ _

theorem keeps_added (sound : t.Sound) {block : NodeId} (mem : t.target block ∈ touched) (addition : NodeId)
    (position : Position) : t.Keeps (added block addition position t) touched := by
  cases position with
  | after =>
    refine (Tree.Keeps.append t block _ mem).trans (.append _ block _ ?_)
    rw [(Tree.SameLinks.append t block _).target_eq sound]
    exact mem
  | before =>
    refine (Tree.Keeps.insert t block _ _ mem).trans (.insert _ block _ _ ?_)
    rw [(Tree.SameLinks.insert t block _ _).target_eq sound]
    exact mem
  | index i => exact .insert t block _ _ mem

theorem Grounded.relink (grounded : Grounded s) (links : s.tree.SameLinks t') : Grounded { s with tree := t' } :=
  ⟨links.sound grounded.sound, fun block b known => Nat.lt_of_lt_of_le (grounded.blocks block b known) links.grown,
    fun id mem => Nat.lt_of_lt_of_le (grounded.deferred id mem) links.grown⟩

theorem links_movedOut (id : NodeId) (t : Tree) : t.SameLinks (movedOut id t) :=
  (Tree.SameLinks.push rfl t).trans (.clear _ id)

theorem continues_addblockClosed (grounded : Grounded s) (position : Position) (id : NodeId) :
    ∃ touched, Continues s (addblockClosed position id s) touched := by
  unfold addblockClosed
  split
  · exact ⟨[], .refl _ _, rfl⟩
  · rename_i known _
    split
    · exact ⟨[], .refl _ _, rfl⟩
    · refine ⟨[(withNode s (bodyNode id s)).tree.target id, (movedOut id s.tree).target known.node], ?_, rfl⟩
      have sound := (links_movedOut id s.tree).sound grounded.sound
      exact (keeps_movedOut (List.mem_cons_self ..)).trans (keeps_added sound (by simp) _ position)

theorem Grounded.addblockClosed (grounded : Grounded s) (position : Position) (id : NodeId) :
    Grounded (addblockClosed position id s) := by
  unfold Compile.addblockClosed
  split
  · exact grounded
  · split
    · exact grounded
    · exact grounded.relink ((links_movedOut id s.tree).trans (links_added _ _ position _))

end BlockTags

/-! #### What is closed is settled with the block -/

/-- A definition and what is known of its block are brought together. -/
def settle (holder : NodeId) (block : String) (s : CompileState W) : CompileState W :=
  match Keyed.get? block s.blocks with
  | none => { s with blocks := Keyed.put block ⟨holder, s.frames.length⟩ s.blocks }
  | some known =>
    if known.node = holder then s
    else if known.depth < s.frames.length then { s with tree := s.tree.redirect holder known.node }
    else { s with
      tree := s.tree.redirect known.node holder
      blocks := Keyed.put block ⟨holder, s.frames.length⟩ s.blocks }

theorem blockClosed_eq (id : NodeId) (s : CompileState W) :
    blockClosed id s = settle id ((s.tree.own id).param "id") s :=
  rfl

theorem blockdefClosed_eq (id : NodeId) (s : CompileState W)
    (old : ∀ block b, Keyed.get? block s.blocks = some b → b.node.index < s.tree.size) :
    blockdefClosed id s = settle ⟨s.tree.size⟩ ((s.tree.own id).param "id") { s with tree := movedOut id s.tree } := by
  unfold blockdefClosed settle
  dsimp only
  cases known : Keyed.get? ((s.tree.own id).param "id") s.blocks with
  | none => rfl
  | some b =>
    have new : b.node ≠ ⟨s.tree.size⟩ := by
      intro same
      have lt := old _ b known
      rw [same] at lt
      exact Nat.lt_irrefl _ lt
    dsimp only
    rw [if_neg new]
    by_cases deeper : b.depth < s.frames.length
    · rw [if_neg (Nat.not_le.mpr deeper), if_pos deeper]
    · rw [if_pos (Nat.not_lt.mp deeper), if_neg deeper]

/-! #### Pieces -/

/-- The stack after a piece: the same, one node more, or one less. -/
inductive Stacked (s s' : CompileState W) (top : NodeId) (below : List NodeId) : List NodeId → Prop where
  | same : Stacked s s' top below (top :: below)
  | more (new : s.tree.size < s'.tree.size) (inner : (s'.tree.own ⟨s.tree.size⟩).isRoot = false) :
      Stacked s s' top below (⟨s.tree.size⟩ :: top :: below)
  | less {parent : NodeId} {under : List NodeId} (nested : below = parent :: under)
      (inner : (s.tree.own top).isRoot = false) : Stacked s s' top below below

theorem effect_shape (effect : Effect s file top below token s' stack) (grounded : Grounded s)
    (old : top.index < s.tree.size) :
    Grounded s' ∧ (∃ touched, Continues s s' touched) ∧ Stacked s s' top below stack := by
  cases effect with
  | text kind =>
    exact ⟨grounded.attach top _, ⟨_, continues_attach s _ (List.mem_singleton_self _)⟩, .same⟩
  | printed kind =>
    refine ⟨(grounded.withNode rfl).attach top _, ⟨_, (continues_withNode s _ _).trans
      (continues_attach _ _ (List.mem_singleton_self _))⟩, .same⟩
  | nested kind parsed tag checked steps =>
    exact ⟨grounded.withNode rfl, ⟨[], continues_withNode s _ _⟩, .more (new_lt s _) (by rw [own_withNode]; rfl)⟩
  | localized kind parsed tag =>
    exact ⟨grounded.withNode rfl, ⟨[], continues_withNode s _ _⟩, .more (new_lt s _) (by rw [own_withNode]; rfl)⟩
  | block kind parsed tag checked =>
    exact ⟨grounded.blockOpened rfl, ⟨[], continues_blockOpened _ s _⟩,
      .more (lt_blockOpened _ s) (by rw [own_blockOpened]; rfl)⟩
  | elseIf kind parsed tag checked inside early =>
    exact ⟨(grounded.withNode rfl).attach top _, ⟨_, (continues_withNode s _ _).trans
      (continues_attach _ _ (List.mem_singleton_self _))⟩, .same⟩
  | otherwise kind parsed tag checked inside early =>
    exact ⟨((grounded.withNode rfl).noteElse top).attach top _, ⟨_, ((continues_withNode s _ _).trans
      (continues_noteElse top _ _)).trans (continues_attach _ _ (List.mem_singleton_self _))⟩, .same⟩
  | putblock kind parsed tag checked =>
    exact ⟨(grounded.putblockPlaced rfl).attach top _, ⟨_, (continues_putblockPlaced _ s _).trans
      (continues_attach _ _ (List.mem_singleton_self _))⟩, .same⟩
  | adding kind parsed tag checked placed =>
    exact ⟨grounded.blockOpened rfl, ⟨[], continues_blockOpened _ s _⟩,
      .more (lt_blockOpened _ s) (by rw [own_blockOpened]; rfl)⟩
  | closed kind nested inner other =>
    exact ⟨grounded.attach _ _, ⟨_, continues_attach s _ (List.mem_singleton_self _)⟩, .less nested inner⟩
  | closedBlock kind nested inner tag =>
    exact ⟨(grounded.blockClosed old).attach _ _, ⟨_, (continues_blockClosed top s _).trans
      (continues_attach _ _ (List.mem_singleton_self _))⟩, .less nested inner⟩
  | closedBlockdef kind nested inner tag =>
    rename_i parent under
    refine ⟨(grounded.blockdefClosed top).attach _ _, ⟨[(withNode s (bodyNode top s)).tree.target top,
      (blockdefClosed top s).tree.target parent], (continues_blockdefClosed top s ?_).trans
      (continues_attach _ _ ?_)⟩, .less nested inner⟩ <;> simp
  | closedAdding kind nested inner tag =>
    rename_i parent under position
    obtain ⟨touched, goes⟩ := continues_addblockClosed grounded position top
    refine ⟨(grounded.addblockClosed position top).attach _ _,
      ⟨(addblockClosed position top s).tree.target parent :: touched, ?_⟩, .less nested inner⟩
    exact (goes.mono (List.subset_cons_self _ _)).trans (continues_attach _ _ List.mem_cons_self)

/-! #### The shape -/

/-- The open nodes of a source: at the bottom is the root. -/
structure Upright (t : Tree) (stack : List NodeId) : Prop where
  old : ∀ id ∈ stack, id.index < t.size
  rooted : ∃ inner root, stack = inner ++ [root] ∧ (t.own root).isRoot = true ∧
    ∀ id ∈ inner, (t.own id).isRoot = false

namespace Upright

variable {touched : List NodeId} {id : NodeId}

theorem keep (upright : Upright t stack) (keeps : t.Keeps t' touched) : Upright t' stack := by
  obtain ⟨inner, root, same, bottom, above⟩ := upright.rooted
  have old : ∀ id ∈ inner ++ [root], id.index < t.size := same ▸ upright.old
  refine ⟨fun id mem => Nat.lt_of_lt_of_le (upright.old id mem) keeps.grown, inner, root, same, ?_, ?_⟩
  · rw [keeps.roots root (old root (by simp))]
    exact bottom
  · intro id mem
    rw [keeps.roots id (old id (List.mem_append_left _ mem))]
    exact above id mem

theorem ne_nil (upright : Upright t stack) : stack ≠ [] := by
  obtain ⟨inner, root, rfl, -, -⟩ := upright.rooted
  simp

theorem push (upright : Upright t stack) (old : id.index < t.size) (inner : (t.own id).isRoot = false) :
    Upright t (id :: stack) := by
  obtain ⟨above, root, rfl, bottom, rest⟩ := upright.rooted
  exact ⟨List.forall_mem_cons.mpr ⟨old, upright.old⟩, id :: above, root, rfl, bottom,
    List.forall_mem_cons.mpr ⟨inner, rest⟩⟩

theorem pop {parent : NodeId} {under : List NodeId} (upright : Upright t (id :: parent :: under)) :
    Upright t (parent :: under) := by
  refine ⟨fun id mem => upright.old id (List.mem_cons_of_mem _ mem), ?_⟩
  obtain ⟨above, root, same, bottom, rest⟩ := upright.rooted
  cases above with
  | nil => cases same
  | cons first above =>
    obtain ⟨-, same⟩ := List.cons.inj same
    exact ⟨above, root, same, bottom, fun id mem => rest id (List.mem_cons_of_mem _ mem)⟩

theorem bottom (upright : Upright t (top :: below)) (last : below = []) : (t.own top).isRoot = true := by
  obtain ⟨above, root, same, bottom, -⟩ := upright.rooted
  subst last
  cases above with
  | nil =>
    cases same
    exact bottom
  | cons first above =>
    obtain ⟨-, same⟩ := List.cons.inj same
    exact absurd same.symm (by simp)

/-- A source that is closed has only its root left. -/
theorem closed (upright : Upright t (top :: below)) (root : (t.own top).isRoot = true) : below = [] := by
  obtain ⟨above, root', same, -, rest⟩ := upright.rooted
  cases above with
  | nil => exact (List.cons.inj same).2
  | cons first above =>
    obtain ⟨rfl, -⟩ := List.cons.inj same
    rw [rest top (List.mem_cons_self)] at root
    cases root

end Upright

/-- A source that waits stands at the tag that had another one read; its node is done when that one is. -/
def Waiting (t : Tree) (sheet : Sheet) : Prop :=
  ∃ token tokens head id top below, sheet.tokens = token :: tokens ∧ token.reading? = some head ∧
    sheet.stack = id :: top :: below ∧ (t.own id).name = some head.name ∧ (t.own id).mustClose = false

theorem Waiting.stands {frame : Frame} {tokens : List Markup.Token}
    (waiting : Waiting t ⟨frame, tokens, top :: below⟩) : (t.own top).mustClose = false := by
  obtain ⟨token, tokens, head, id, under, below, -, -, stack, -, stands⟩ := waiting
  cases stack
  exact stands

/-- A source waits at a tag that has another one read. -/
theorem Waiting.tag {frame : Frame} {tokens : List Markup.Token}
    (waiting : Waiting t ⟨frame, tokens, top :: below⟩) :
    (t.own top).tag = "extends" ∨ (t.own top).tag = "include" := by
  obtain ⟨token, tokens, head, id, under, below, -, reads, stack, name, -⟩ := waiting
  cases stack
  unfold Node.tag
  rw [name]
  exact (of_reading reads).2.2

theorem Waiting.keep {sheet : Sheet} {touched : List NodeId} (waiting : Waiting t sheet)
    (upright : Upright t sheet.stack) (keeps : t.Keeps t' touched) : Waiting t' sheet := by
  obtain ⟨token, tokens, head, id, top, below, rest, reads, stack, name, stands⟩ := waiting
  have old : id.index < t.size := upright.old id (by rw [stack]; exact List.mem_cons_self)
  exact ⟨token, tokens, head, id, top, below, rest, reads, stack, by rw [keeps.names id old, name],
    by rw [keeps.stands id old, stands]⟩

/-- A source that has been read to its end has only its root open. -/
theorem finished_stack {sheet : Sheet} (upright : Upright s.tree sheet.stack) (finished : Finished sheet s) :
    ∃ root, sheet.stack = [root] ∧ (s.tree.own root).isRoot = true := by
  obtain ⟨-, closed⟩ := finished
  cases stack : sheet.stack with
  | nil => exact absurd stack upright.ne_nil
  | cons top below =>
    rw [stack] at closed upright
    unfold checkClosed at closed
    dsimp only at closed
    rw [bind_apply, getTree_apply] at closed
    dsimp only at closed
    split at closed
    · rename_i root
      exact ⟨top, by rw [upright.closed root], root⟩
    · cases closed

structure Shaped (r : Reader W) : Prop where
  grounded : Grounded r.state
  depth : r.state.frames.length = r.sheets.length
  upright : ∀ sheet ∈ r.sheets, Upright r.state.tree sheet.stack
  waiting : ∀ sheet ∈ r.sheets.tail, Waiting r.state.tree sheet

namespace Shaped

variable {frame : Frame} {tokens : List Markup.Token} {outer : List Sheet} {h h' : List BlockEvent}

/-- The innermost source goes on with another stack; the others stay as they are. -/
theorem go (shaped : Shaped ⟨s, ⟨frame, token :: tokens, stack⟩ :: outer, h⟩) (grounded : Grounded s')
    {touched : List NodeId} (goes : Continues s s' touched) {stack' : List NodeId} (upright : Upright s'.tree stack')
    (tokens' : List Markup.Token) : Shaped ⟨s', ⟨frame, tokens', stack'⟩ :: outer, h'⟩ := by
  refine ⟨grounded, goes.depth.trans shaped.depth, ?_, ?_⟩
  · refine List.forall_mem_cons.mpr ⟨upright, fun sheet mem => ?_⟩
    exact (shaped.upright sheet (List.mem_cons_of_mem _ mem)).keep goes.keeps
  · intro sheet mem
    exact (shaped.waiting sheet mem).keep (shaped.upright sheet (List.mem_cons_of_mem _ mem)) goes.keeps

/-- What a piece that reads no template does, in a compilation that has its shape. -/
theorem effect (standard : c.table = standardTable)
    (shaped : Shaped ⟨s, ⟨frame, token :: tokens, stack⟩ :: outer, h⟩) {stack' : List NodeId}
    (reads : stack = [] ∨ token.reading? = none)
    (run : Compile.put c.table noLoad frame.name stack token s = (.ok stack', s')) :
    ∃ top below, stack = top :: below ∧ top.index < s.tree.size ∧ Effect s frame.name top below token s' stack' := by
  have upright : Upright s.tree stack := shaped.upright _ List.mem_cons_self
  cases stack with
  | nil => exact absurd rfl upright.ne_nil
  | cons top below =>
    have old := upright.old top List.mem_cons_self
    rw [standard] at run
    exact ⟨top, below, rfl, old, put_effect old upright.bottom (reads.resolve_left fun h => by cases h) run⟩

theorem put (standard : c.table = standardTable)
    (shaped : Shaped ⟨s, ⟨frame, token :: tokens, stack⟩ :: outer, h⟩) {stack' : List NodeId}
    (reads : stack = [] ∨ token.reading? = none)
    (run : Compile.put c.table noLoad frame.name stack token s = (.ok stack', s')) :
    Shaped ⟨s', ⟨frame, tokens, stack'⟩ :: outer, h'⟩ := by
  obtain ⟨top, below, rfl, old, effect⟩ := shaped.effect standard reads run
  obtain ⟨grounded, ⟨touched, goes⟩, stacked⟩ := effect_shape effect shaped.grounded old
  have upright := (shaped.upright _ List.mem_cons_self).keep goes.keeps
  cases stacked with
  | same => exact shaped.go grounded goes upright tokens
  | more new inner => exact shaped.go grounded goes (upright.push new inner) tokens
  | less nested inner =>
    subst nested
    exact shaped.go grounded goes upright.pop tokens

end Shaped

/-! #### Other templates -/

section Templates

variable {name : String} {root id : NodeId} {sheet : Sheet} {sheets : List Sheet} {head : Markup.Head}

theorem onWorld_ok {α : Type} {act : StateM W α} {a : α} (run : onWorld act s = (.ok a, s')) :
    ∃ w, s' = { s with world := w } := by
  cases run
  exact ⟨_, rfl⟩

theorem onWorldExcept_ok {α : Type} {act : StateM W (Except TemplateError α)} {a : α}
    (run : onWorldExcept act s = (.ok a, s')) : ∃ w, s' = { s with world := w } := by
  obtain ⟨-, rfl⟩ := Prod.mk.inj run
  exact ⟨_, rfl⟩

theorem again_ok (again : Again c name s root s') : ∃ w, s' = { s with world := w } := by
  obtain ⟨identity, located, -, -⟩ := again
  exact onWorldExcept_ok located

/-- The node of a root that was just made. -/
def rootNode (name : String) : Node := { Node.fresh name 1 with isRoot := true }

/-- A new source has a new root, and the depth is one more. -/
def Laid (s : CompileState W) (sheet : Sheet) (s' : CompileState W) : Prop :=
  sheet.stack = [⟨s.tree.size⟩] ∧ ∃ name w sources, s' = { withNode s (rootNode name) with
    world := w
    sources := sources
    frames := sheet.frame :: s.frames }

theorem opens_laid {identity text : String} {stamp : Option Stamp}
    (opens : Opens name identity stamp text s sheet s') : Laid s sheet s' := by
  obtain ⟨tokens, -, rfl, rfl⟩ := opens
  exact ⟨rfl, name, _, _, rfl⟩

theorem enters_laid (enters : Enters c name s sheet s') : Laid s sheet s' := by
  obtain ⟨identity, s₁, stamp, s₂, text, s₃, located, -, -, stamped, read, opens⟩ := enters
  obtain ⟨w₁, rfl⟩ := onWorldExcept_ok located
  obtain ⟨w₂, rfl⟩ := onWorld_ok stamped
  obtain ⟨w₃, rfl⟩ := onWorldExcept_ok read
  obtain ⟨stack, name, w, sources, same⟩ := opens_laid opens
  exact ⟨stack, name, w, sources, same⟩

theorem begins_laid {text? : Option String} (begins : Begins c name text? s sheet s') : Laid s sheet s' := by
  cases text? with
  | none => exact enters_laid begins
  | some text =>
    obtain ⟨stamp, s₁, stamped, opens⟩ := begins
    obtain ⟨w, rfl⟩ := onWorld_ok stamped
    obtain ⟨stack, name, w, sources, same⟩ := opens_laid opens
    exact ⟨stack, name, w, sources, same⟩

theorem laid_keeps (laid : Laid s sheet s') : s.tree.Keeps s'.tree [] := by
  obtain ⟨-, name, w, sources, rfl⟩ := laid
  exact .push s.tree (rootNode name) []

theorem settled_eq (stands : (s.tree.own id).mustClose = false) :
    settled id top below s = (top :: below, attach top (.node id) s) := by
  unfold settled
  rw [stands]
  rfl

theorem length_setRoot (root : NodeId) (frames : List Frame) : (setRoot root frames).length = frames.length := by
  cases frames <;> rfl

theorem continues_received (head : Markup.Head) (id root : NodeId) (s : CompileState W) {touched : List NodeId}
    (mem : s.tree.target id ∈ touched) (mem' : (s.tree.clear id).target id ∈ touched) :
    Continues s (received head id root s) touched := by
  unfold received
  split
  · exact ⟨.refl _ _, length_setRoot root s.frames⟩
  · exact ⟨(Tree.Keeps.clear s.tree id mem).trans (.append _ id _ mem'), rfl⟩

/-- A tag that had a template read is closed when it goes on. -/
theorem settled_received (old : id.index < s.tree.size) (stands : (s.tree.own id).mustClose = false)
    (head : Markup.Head) (root : NodeId) : settled id top below (received head id root s) =
      (top :: below, attach top (.node id) (received head id root s)) := by
  have goes : Continues s (received head id root s) [s.tree.target id, (s.tree.clear id).target id] :=
    continues_received head id root s (by simp) (by simp)
  refine settled_eq ?_
  rw [goes.keeps.stands id old]
  exact stands

theorem Grounded.received (grounded : Grounded s) (head : Markup.Head) (id root : NodeId) :
    Grounded (received head id root s) := by
  unfold Compile.received
  split
  · exact ⟨grounded.sound, grounded.blocks, grounded.deferred⟩
  · have cleared : Grounded { s with tree := s.tree.clear id } := grounded.update fun _ => rfl
    exact cleared.update fun _ => rfl

namespace Shaped

variable {frame : Frame} {tokens : List Markup.Token} {outer : List Sheet} {h : List BlockEvent} {w : W}

theorem world (shaped : Shaped ⟨s, sheets, h⟩) (w : W) : Shaped ⟨{ s with world := w }, sheets, h⟩ :=
  ⟨⟨shaped.grounded.sound, shaped.grounded.blocks, shaped.grounded.deferred⟩, shaped.depth, shaped.upright,
    shaped.waiting⟩

/-- A tag that has a template read opens. -/
theorem refer (shaped : Shaped ⟨s, ⟨frame, token :: tokens, top :: below⟩ :: outer, h⟩)
    (reads : token.reading? = some head) :
    Shaped ⟨referring frame.name token.line top head s,
      ⟨frame, token :: tokens, ⟨s.tree.size⟩ :: top :: below⟩ :: outer, h⟩ ∧
      Waiting (referring frame.name token.line top head s).tree
        ⟨frame, token :: tokens, ⟨s.tree.size⟩ :: top :: below⟩ := by
  have goes := continues_withNode s (Node.opened frame.name token.line top head false) []
  have own : (referring frame.name token.line top head s).tree.own ⟨s.tree.size⟩ =
      Node.opened frame.name token.line top head false := own_withNode s _
  have upright : Upright (referring frame.name token.line top head s).tree (top :: below) :=
    (shaped.upright _ List.mem_cons_self).keep goes.keeps
  have upright' : Upright (referring frame.name token.line top head s).tree (⟨s.tree.size⟩ :: top :: below) := by
    exact upright.push (new_lt s _) (by rw [own]; rfl)
  refine ⟨shaped.go (shaped.grounded.withNode rfl) goes upright' _, ?_⟩
  exact ⟨token, tokens, head, _, top, below, rfl, reads, rfl, by rw [own]; rfl, by rw [own]; rfl⟩

/-- A tag that had a template read goes on with its root. -/
theorem resume (shaped : Shaped ⟨s, ⟨frame, token :: tokens, id :: top :: below⟩ :: outer, h⟩)
    (stands : (s.tree.own id).mustClose = false) (head : Markup.Head) (root : NodeId) :
    Shaped ⟨(settled id top below (received head id root s)).2,
      ⟨frame, tokens, (settled id top below (received head id root s)).1⟩ :: outer, h⟩ := by
  have goes : Continues s (received head id root s) [s.tree.target id, (s.tree.clear id).target id] :=
    continues_received head id root s (by simp) (by simp)
  have upright : Upright s.tree (id :: top :: below) := shaped.upright _ List.mem_cons_self
  have got : Shaped ⟨received head id root s, ⟨frame, token :: tokens, id :: top :: below⟩ :: outer, h⟩ :=
    shaped.go (shaped.grounded.received head id root) goes (upright.keep goes.keeps) _
  have joins : Continues (received head id root s) (attach top (.node id) (received head id root s))
      [(received head id root s).tree.target top] :=
    continues_attach _ (.node id) (List.mem_singleton_self _)
  rw [settled_received (upright.old id List.mem_cons_self) stands]
  exact got.go (got.grounded.attach top _) joins ((upright.keep goes.keeps).keep joins.keeps).pop tokens

/-- Another source is entered while this one waits. -/
theorem enter (shaped : Shaped ⟨s, sheets, h⟩) (waits : ∀ first ∈ sheets.head?, Waiting s.tree first)
    (laid : Laid s sheet s') : Shaped ⟨s', sheet :: sheets, h⟩ := by
  obtain ⟨stack, name, w, sources, rfl⟩ := laid
  have goes := (continues_withNode s (rootNode name) []).keeps
  have own := own_withNode s (rootNode name)
  have grounded := shaped.grounded.withNode (n := rootNode name) rfl
  refine ⟨⟨grounded.sound, grounded.blocks, grounded.deferred⟩, congrArg (· + 1) shaped.depth, ?_, ?_⟩
  · refine List.forall_mem_cons.mpr ⟨?_, fun other mem => (shaped.upright other mem).keep goes⟩
    rw [stack]
    refine ⟨fun id mem => ?_, [], _, rfl, congrArg Node.isRoot own, fun id mem => (by cases mem)⟩
    cases List.mem_singleton.mp mem
    exact new_lt s _
  · intro other mem
    cases sheets with
    | nil => cases mem
    | cons first rest =>
      refine Waiting.keep ?_ (shaped.upright other mem) goes
      rcases List.mem_cons.mp mem with rfl | mem
      · exact waits other rfl
      · exact shaped.waiting other mem

/-- The innermost source is left. -/
theorem leave (shaped : Shaped ⟨s, sheet :: sheets, h⟩) : Shaped ⟨left sheet s, sheets, h⟩ := by
  refine ⟨⟨shaped.grounded.sound, shaped.grounded.blocks, shaped.grounded.deferred⟩, ?_, ?_, ?_⟩
  · have depth : s.frames.length = sheets.length + 1 := shaped.depth
    show s.frames.tail.length = sheets.length
    rw [List.length_tail, depth]
    rfl
  · exact fun other mem => shaped.upright other (List.mem_cons_of_mem _ mem)
  · exact fun other mem => shaped.waiting other (List.mem_of_mem_tail mem)

/-- No step spoils the shape. -/
theorem step (standard : c.table = standardTable) {r r' : Reader W} (shaped : Shaped r) (step : Step c r r') :
    Shaped r' := by
  cases step with
  | put reads run => exact shaped.put standard reads run
  | again reads checked again =>
    obtain ⟨referred, waits⟩ := shaped.refer reads
    obtain ⟨w, rfl⟩ := again_ok again
    exact (referred.world w).resume waits.stands _ _
  | enter reads checked enters =>
    obtain ⟨referred, waits⟩ := shaped.refer reads
    exact referred.enter (fun first mem => by cases mem; exact waits) (enters_laid enters)
  | leave finished reads =>
    exact shaped.leave.resume (shaped.waiting _ List.mem_cons_self).stands _ _

/-- No step changes a tag. -/
theorem step_keeps (standard : c.table = standardTable) {r r' : Reader W} (shaped : Shaped r) (step : Step c r r') :
    ∃ touched, r.state.tree.Keeps r'.state.tree touched := by
  have resumed : ∀ (head : Markup.Head) (id root top : NodeId) (below : List NodeId) (s : CompileState W),
      ∃ touched, s.tree.Keeps (settled id top below (Compile.received head id root s)).2.tree touched := by
    intro head id root top below s
    have goes : s.tree.Keeps _ [s.tree.target id, (s.tree.clear id).target id] :=
      (continues_received head id root s (by simp) (by simp)).keeps
    unfold settled
    split
    · exact ⟨_, goes⟩
    · exact ⟨_, goes.join (.append _ top _ (List.mem_singleton_self _))⟩
  have referred : ∀ (s : CompileState W) (n : Node), s.tree.Keeps (Compile.withNode s n).tree [] :=
    fun s n => .push s.tree n []
  cases step with
  | put reads run =>
    obtain ⟨top, below, rfl, old, effect⟩ := shaped.effect standard reads run
    obtain ⟨-, ⟨touched, goes⟩, -⟩ := effect_shape effect shaped.grounded old
    exact ⟨touched, goes.keeps⟩
  | @again s _ frame token _ top root below _ _ head reads checked again =>
    obtain ⟨w, rfl⟩ := again_ok again
    obtain ⟨touched, goes⟩ := resumed head ⟨s.tree.size⟩ root top below
      { referring frame.name token.line top head s with world := w }
    exact ⟨_, (referred s (Node.opened frame.name token.line top head false)).join goes⟩
  | enter reads checked enters =>
    exact ⟨_, (referred _ _).join (laid_keeps (enters_laid enters))⟩
  | @leave s inner _ _ _ id top below _ _ head finished reads =>
    exact resumed head id (rootOf inner s) top below (left inner s)

theorem run_keeps (standard : c.table = standardTable) {r r' : Reader W} (shaped : Shaped r) (run : Run c r r') :
    ∃ touched, r.state.tree.Keeps r'.state.tree touched := by
  induction run with
  | here => exact ⟨[], .refl _ _⟩
  | on step rest ih =>
    obtain ⟨first, keeps⟩ := shaped.step_keeps standard step
    obtain ⟨others, keeps'⟩ := ih (shaped.step standard step)
    exact ⟨_, keeps.join keeps'⟩

/-- The shape of a whole run. -/
theorem run (standard : c.table = standardTable) {r r' : Reader W} (shaped : Shaped r) (run : Run c r r') :
    Shaped r' := by
  induction run with
  | here => exact shaped
  | on step rest ih => exact ih (shaped.step standard step)

end Shaped

end Templates

end Compile

end Stencil
