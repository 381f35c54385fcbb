import Stencil.Proofs.Compile.Shape
import Stencil.Proofs.Tree.Legibility

/-!
What stands in the nodes of a compilation: only nodes that are in the tree, and no code before or behind the
content of a block.
-/
namespace Stencil

open Tag

namespace Tree

/-- What stands in a node is in the tree, and a tag for blocks has no code of its own. -/
structure Furnished (t : Tree) : Prop where
  filled : ∀ id child, .node child ∈ (t.own id).body → child.index < t.size
  bare : ∀ id, (t.own id).tag ∈ contentTags → (t.own id).opening = "" ∧ (t.own id).closing = ""

namespace Furnished

variable {t : Tree} {id : NodeId} {n : Node}

theorem empty : Tree.empty.Furnished := by
  have none : ∀ id, Tree.empty.own id = default := fun id => own_of_size_le (Nat.zero_le _)
  constructor
  · intro id child mem
    rw [none] at mem
    cases mem
  · intro id _
    rw [none]
    exact ⟨rfl, rfl⟩

theorem push (furnished : t.Furnished) (filled : ∀ child, .node child ∈ n.body → child.index < t.size)
    (bare : n.tag ∈ contentTags → n.opening = "" ∧ n.closing = "") : (t.push n).2.Furnished := by
  constructor
  · intro id child mem
    rw [size_push]
    rw [own_push] at mem
    split at mem
    · exact Nat.lt_succ_of_lt (filled child mem)
    · exact Nat.lt_succ_of_lt (furnished.filled id child mem)
  · intro id tag
    rw [own_push] at tag ⊢
    split at tag
    · rename_i new
      rw [if_pos new]
      exact bare tag
    · rename_i old
      rw [if_neg old]
      exact furnished.bare id tag

theorem update (furnished : t.Furnished) {f : Node → Node} (tag : ∀ n, (f n).tag = n.tag)
    (code : ∀ n, n.opening = "" → n.closing = "" → (f n).opening = "" ∧ (f n).closing = "")
    (filled : ∀ child, .node child ∈ (f (t.own id)).body → .node child ∈ (t.own id).body ∨ child.index < t.size) :
    (t.update id f).Furnished := by
  constructor
  · intro other child mem
    rw [size_update]
    rw [own_update] at mem
    split at mem
    · exact (filled child mem).elim (furnished.filled id child) fun old => old
    · exact furnished.filled other child mem
  · intro other isTag
    rw [own_update] at isTag ⊢
    split at isTag
    · rename_i here
      rw [if_pos here]
      rw [tag] at isTag
      obtain ⟨opening, closing⟩ := furnished.bare id isTag
      exact code _ opening closing
    · rename_i elsewhere
      rw [if_neg elsewhere]
      exact furnished.bare other isTag

/-- An element that may be put somewhere. -/
def Fits (t : Tree) (e : Element) : Prop := ∀ child, e = .node child → child.index < t.size

theorem append (furnished : t.Furnished) (id : NodeId) {e : Element} (fits : Fits t e) : (t.append id e).Furnished := by
  refine furnished.update (fun _ => rfl) (fun _ opening closing => ⟨opening, closing⟩) fun child mem => ?_
  rcases List.mem_append.mp mem with mem | mem
  · exact .inl mem
  · exact .inr (fits child (List.mem_singleton.mp mem).symm)

theorem insert (furnished : t.Furnished) (id : NodeId) {e : Element} (fits : Fits t e) (position : Position) :
    (t.insert id e position).Furnished := by
  refine furnished.update (fun _ => rfl) (fun _ opening closing => ⟨opening, closing⟩) fun child mem => ?_
  rcases List.eq_or_mem_of_mem_insertIdx mem with same | mem
  · exact .inr (fits child same.symm)
  · exact .inl mem

theorem clear (furnished : t.Furnished) (id : NodeId) : (t.clear id).Furnished :=
  furnished.update (fun _ => rfl) (fun _ _ _ => ⟨rfl, rfl⟩) fun _ mem => by cases mem

theorem redirect (furnished : t.Furnished) (source destination : NodeId) :
    (t.redirect source destination).Furnished := by
  rw [redirect_eq]
  split
  · exact furnished
  · exact furnished.update (fun _ => rfl) (fun _ opening closing => ⟨opening, closing⟩) fun _ mem => .inl mem

end Furnished

end Tree

namespace Compile

open Stencil.Tree (Furnished)

variable {W : Type} {c : Compiler W} {s s' : CompileState W} {file : String} {top id root : NodeId}
  {below stack : List NodeId} {token : Markup.Token} {n : Node}

theorem Grounded.target_lt (grounded : Grounded s) (old : id.index < s.tree.size) :
    (s.tree.target id).index < s.tree.size :=
  grounded.sound.target_lt_size old

theorem fits_new (s : CompileState W) (n : Node) : Furnished.Fits (withNode s n).tree (.node ⟨s.tree.size⟩) := by
  intro child same
  cases same
  exact new_lt s n

theorem fits_text (t : Tree) (text : String) : Furnished.Fits t (.text text) := fun child same => by cases same

theorem fits_node {t : Tree} (old : id.index < t.size) : Furnished.Fits t (.node id) := by
  intro child same
  cases same
  exact old

section Pieces

variable (furnished : s.tree.Furnished)

include furnished

/-- A node with nothing in it. -/
theorem furnished_new (empty : n.body = []) (bare : n.tag ∈ Tree.contentTags → n.opening = "" ∧ n.closing = "") :
    (withNode s n).tree.Furnished :=
  furnished.push (fun child mem => by rw [empty] at mem; cases mem) bare

theorem furnished_tagNode {line : Nat} {head : Markup.Head} {stands : Bool} {params : Keyed String} :
    (withNode s (tagNode file line top head stands params)).tree.Furnished := by
  refine furnished_new furnished rfl fun tag => ?_
  have plain : (tagNode file line top head stands params).tag ∉ Node.coded := by
    simp only [Tree.contentTags, List.mem_cons, List.not_mem_nil, or_false] at tag
    rcases tag with same | same | same <;> rw [same] <;> decide
  have framing : ((Node.opened file line top head stands).withParams params).framing = ("", "") :=
    Node.framing_plain plain
  unfold tagNode
  rw [framed_of framing]
  exact ⟨rfl, rfl⟩

theorem furnished_movedOut (id : NodeId) : (movedOut id s.tree).Furnished := by
  have copied : (withNode s (bodyNode id s)).tree.Furnished :=
    furnished.push (fun child mem => furnished.filled _ child mem) fun tag => furnished.bare _ tag
  exact copied.clear id

theorem furnished_settle (holder : NodeId) (block : String) : (settle holder block s).tree.Furnished := by
  unfold settle
  split
  · exact furnished
  · split
    · exact furnished
    · split <;> exact furnished.redirect _ _

theorem furnished_addblockClosed (position : Position) (id : NodeId) :
    (addblockClosed position id s).tree.Furnished := by
  unfold addblockClosed
  split
  · exact furnished
  · split
    · exact furnished
    · rename_i known _ _
      have moved := furnished_movedOut furnished id
      have new : Furnished.Fits (movedOut id s.tree) (.node ⟨s.tree.size⟩) := fits_node (lt_movedOut id s)
      cases position with
      | after =>
        have begun := moved.append known.node (fits_text _ "\n")
        refine begun.append known.node (fits_node ?_)
        exact Nat.lt_of_lt_of_le (lt_movedOut id s) (Tree.SameLinks.append _ known.node _).grown
      | before => exact (moved.insert known.node new .before).insert known.node (fits_text _ "\n") (.index 1)
      | index i => exact moved.insert known.node new (.index i)

/-- No piece puts something somewhere that is not in the tree. -/
theorem effect_furnished (effect : Effect s file top below token s' stack) (grounded : Grounded s)
    (old : top.index < s.tree.size) : s'.tree.Furnished := by
  have opened : ∀ {head : Markup.Head} {stands : Bool},
      (withNode s (Node.opened file token.line top head stands)).tree.Furnished :=
    furnished_new furnished rfl fun _ => ⟨rfl, rfl⟩
  have grown : ∀ {s₁ : CompileState W} {touched : List NodeId}, Continues s s₁ touched →
      Furnished.Fits s₁.tree (.node top) :=
    fun goes => fits_node (Nat.lt_of_lt_of_le old goes.keeps.grown)
  cases effect with
  | text => exact furnished.append top (fits_text _ _)
  | printed =>
    have untagged : (printing file token.line (String.ofList token.content) top).tag = "" := rfl
    refine (furnished_new furnished rfl fun tag => ?_).append top (fits_new s _)
    rw [untagged] at tag
    exact absurd tag (by decide)
  | nested => exact furnished_tagNode furnished
  | localized => exact opened
  | block =>
    rw [tree_blockOpened]
    exact opened
  | elseIf => exact (furnished_tagNode furnished).append top (fits_new s _)
  | @otherwise head params =>
    have noted : (noteElse top (withNode s (tagNode file token.line top head false params))).tree.Furnished :=
      (furnished_tagNode furnished).update (fun _ => rfl) (fun _ opening closing => ⟨opening, closing⟩)
        fun _ mem => .inl mem
    refine noted.append top (fits_node ?_)
    exact Nat.lt_of_lt_of_le (new_lt s (tagNode file token.line top head false params))
      (continues_noteElse top _ []).keeps.grown
  | @putblock head =>
    have placed : (putblockPlaced (Node.opened file token.line top head false) s).tree.Furnished := by
      unfold putblockPlaced
      split
      · exact opened
      · exact opened.redirect _ _
    exact placed.append top (fits_node (lt_putblockPlaced _ s))
  | adding =>
    rw [tree_blockOpened]
    exact furnished_new furnished rfl fun _ => ⟨rfl, rfl⟩
  | closed => exact furnished.append _ (fits_node old)
  | closedBlock =>
    exact (furnished_settle furnished top _).append _ (grown (continues_blockClosed top s []))
  | closedBlockdef =>
    have goes := continues_blockdefClosed top s (List.mem_singleton_self _)
    have moved : (blockdefClosed top s).tree.Furnished := by
      rw [blockdefClosed_eq top s grounded.blocks]
      exact furnished_settle (s := { s with tree := movedOut top s.tree }) (furnished_movedOut furnished top) _ _
    exact moved.append _ (grown goes)
  | @closedAdding parent under position =>
    obtain ⟨touched, goes⟩ := continues_addblockClosed grounded position top
    exact (furnished_addblockClosed furnished position top).append _ (grown goes)

end Pieces

/-- A piece leaves alone what is being read and what has been read. -/
theorem effect_reading (effect : Effect s file top below token s' stack) :
    s'.frames = s.frames ∧ s'.finished = s.finished := by
  have opened : ∀ n : Node, (blockOpened n s).frames = s.frames ∧ (blockOpened n s).finished = s.finished := by
    intro n
    unfold blockOpened
    split <;> exact ⟨rfl, rfl⟩
  have settled : ∀ (holder : NodeId) (block : String) (s : CompileState W),
      (settle holder block s).frames = s.frames ∧ (settle holder block s).finished = s.finished := by
    intro holder block s
    unfold settle
    split
    · exact ⟨rfl, rfl⟩
    · split
      · exact ⟨rfl, rfl⟩
      · split <;> exact ⟨rfl, rfl⟩
  cases effect with
  | text | printed | nested | localized | elseIf | otherwise | closed => exact ⟨rfl, rfl⟩
  | block | adding => exact opened _
  | putblock =>
    show (putblockPlaced _ s).frames = s.frames ∧ (putblockPlaced _ s).finished = s.finished
    unfold putblockPlaced
    split <;> exact ⟨rfl, rfl⟩
  | closedBlock =>
    show (blockClosed top s).frames = s.frames ∧ (blockClosed top s).finished = s.finished
    rw [blockClosed_eq]
    exact settled _ _ _
  | closedBlockdef =>
    show (blockdefClosed top s).frames = s.frames ∧ (blockdefClosed top s).finished = s.finished
    unfold blockdefClosed
    dsimp only
    split
    · exact ⟨rfl, rfl⟩
    · split <;> exact ⟨rfl, rfl⟩
  | closedAdding =>
    show (addblockClosed _ top s).frames = s.frames ∧ (addblockClosed _ top s).finished = s.finished
    unfold addblockClosed
    split
    · exact ⟨rfl, rfl⟩
    · split <;> exact ⟨rfl, rfl⟩

/-- What holds of all nodes at any time: what stands in them is in the tree, as are the roots of all sources. -/
structure Provided (r : Reader W) : Prop where
  shaped : Shaped r
  furnished : r.state.tree.Furnished
  frames : ∀ frame ∈ r.state.frames, frame.root.index < r.state.tree.size
  finished : ∀ source ∈ r.state.finished, source.2.index < r.state.tree.size

theorem provided_initial (w : W) : Provided ⟨.initial w, [], []⟩ :=
  ⟨⟨⟨Tree.sound_empty, fun block b known => (by cases known), fun id mem => (by cases mem)⟩, rfl,
    fun sheet mem => (by cases mem), fun sheet mem => (by cases mem)⟩, .empty, fun frame mem => (by cases mem),
    fun source mem => (by cases mem)⟩

namespace Provided

variable {sheet : Sheet} {sheets outer : List Sheet} {frame : Frame} {tokens : List Markup.Token} {head : Markup.Head}
  {h : List BlockEvent}

theorem world (provided : Provided ⟨s, sheets, h⟩) (w : W) : Provided ⟨{ s with world := w }, sheets, h⟩ :=
  ⟨provided.shaped.world w, provided.furnished, provided.frames, provided.finished⟩

/-- A tag that has a template read opens. -/
theorem refer (provided : Provided ⟨s, ⟨frame, token :: tokens, top :: below⟩ :: outer, h⟩)
    (reads : token.reading? = some head) :
    Provided ⟨referring frame.name token.line top head s,
      ⟨frame, token :: tokens, ⟨s.tree.size⟩ :: top :: below⟩ :: outer, h⟩ := by
  have grown := new_lt s (Node.opened frame.name token.line top head false)
  exact ⟨(provided.shaped.refer reads).1, furnished_new provided.furnished rfl fun _ => ⟨rfl, rfl⟩,
    fun frame mem => Nat.lt_trans (provided.frames frame mem) grown,
    fun source mem => Nat.lt_trans (provided.finished source mem) grown⟩

/-- A tag that had a template read goes on with its root. -/
theorem resume (provided : Provided ⟨s, ⟨frame, token :: tokens, id :: top :: below⟩ :: outer, h⟩)
    (stands : (s.tree.own id).mustClose = false) (head : Markup.Head) (inTree : root.index < s.tree.size) :
    Provided ⟨(settled id top below (received head id root s)).2,
      ⟨frame, tokens, (settled id top below (received head id root s)).1⟩ :: outer, h⟩ := by
  have shaped := provided.shaped.resume stands head root
  have old : id.index < s.tree.size := (provided.shaped.upright _ List.mem_cons_self).old id List.mem_cons_self
  have goes : Continues s (received head id root s) [s.tree.target id, (s.tree.clear id).target id] :=
    continues_received head id root s (by simp) (by simp)
  have joins : Continues _ (attach top (.node id) (received head id root s)) _ :=
    continues_attach _ _ (List.mem_singleton_self _)
  have grown := Nat.le_trans goes.keeps.grown joins.keeps.grown
  rw [settled_received old stands] at shaped ⊢
  refine ⟨shaped, ?_, fun frame mem => ?_, fun source mem => ?_⟩
  · refine Tree.Furnished.append ?_ top (fits_node (Nat.lt_of_lt_of_le old goes.keeps.grown))
    unfold received
    split
    · exact provided.furnished
    · exact (provided.furnished.clear id).append id
        (fits_node (Nat.lt_of_lt_of_le inTree (Tree.SameLinks.clear s.tree id).grown))
  · have roots : ∀ frame ∈ (received head id root s).frames, frame.root.index < s.tree.size := by
      unfold received
      split
      · intro frame mem
        cases reading : s.frames with
        | nil =>
          rw [reading] at mem
          cases mem
        | cons first rest =>
          rw [reading] at mem
          rcases List.mem_cons.mp mem with rfl | mem
          · exact inTree
          · exact provided.frames frame (by rw [reading]; exact List.mem_cons_of_mem _ mem)
      · exact provided.frames
    exact Nat.lt_of_lt_of_le (roots frame mem) grown
  · have kept : (received head id root s).finished = s.finished := by
      unfold received
      split <;> rfl
    have mem : source ∈ (received head id root s).finished := mem
    rw [kept] at mem
    exact Nat.lt_of_lt_of_le (provided.finished source mem) grown

/-- Another source is entered while this one waits. -/
theorem enter (provided : Provided ⟨s, sheets, h⟩) (waits : ∀ first ∈ sheets.head?, Waiting s.tree first)
    (laid : Laid s sheet s') (root : sheet.frame.root = ⟨s.tree.size⟩) : Provided ⟨s', sheet :: sheets, h⟩ := by
  have shaped := provided.shaped.enter waits laid
  obtain ⟨-, name, w, sources, rfl⟩ := laid
  have grown := new_lt s (rootNode name)
  have untagged : (rootNode name).tag = "" := rfl
  refine ⟨shaped, furnished_new provided.furnished rfl fun tag => ?_,
    List.forall_mem_cons.mpr ⟨?_, fun frame mem => ?_⟩,
    fun source mem => Nat.lt_trans (provided.finished source mem) grown⟩
  · rw [untagged] at tag
    exact absurd tag (by decide)
  · rw [root]
    exact grown
  · exact Nat.lt_trans (provided.frames frame mem) grown

/-- The root of a source that is read is in the tree. -/
theorem rootOf_lt (provided : Provided ⟨s, sheet :: sheets, h⟩) : (rootOf sheet s).index < s.tree.size := by
  have depth : s.frames.length = sheets.length + 1 := provided.shaped.depth
  unfold rootOf
  cases reading : s.frames with
  | nil =>
    rw [reading] at depth
    cases depth
  | cons first rest => exact provided.frames first (by rw [reading]; exact List.mem_cons_self)

/-- The innermost source is left. -/
theorem leave (provided : Provided ⟨s, sheet :: sheets, h⟩) : Provided ⟨left sheet s, sheets, h⟩ := by
  refine ⟨provided.shaped.leave, provided.furnished, fun frame mem => provided.frames frame (List.mem_of_mem_tail mem),
    fun source mem => ?_⟩
  rcases Keyed.mem_put mem with rfl | mem
  · exact provided.rootOf_lt
  · exact provided.finished source mem

theorem opens_root {name identity text : String} {stamp : Option Stamp}
    (opens : Opens name identity stamp text s sheet s') : sheet.frame.root = ⟨s.tree.size⟩ := by
  obtain ⟨tokens, -, rfl, -⟩ := opens
  rfl

theorem enters_root {name : String} (enters : Enters c name s sheet s') : sheet.frame.root = ⟨s.tree.size⟩ := by
  obtain ⟨identity, s₁, stamp, s₂, text, s₃, located, -, -, stamped, read, opens⟩ := enters
  obtain ⟨w₁, rfl⟩ := onWorldExcept_ok located
  obtain ⟨w₂, rfl⟩ := onWorld_ok stamped
  obtain ⟨w₃, rfl⟩ := onWorldExcept_ok read
  have root := opens_root opens
  exact root

theorem begins_root {name : String} {text? : Option String} (begins : Begins c name text? s sheet s') :
    sheet.frame.root = ⟨s.tree.size⟩ := by
  cases text? with
  | none => exact enters_root begins
  | some text =>
    obtain ⟨stamp, s₁, stamped, opens⟩ := begins
    obtain ⟨w, rfl⟩ := onWorld_ok stamped
    have root := opens_root opens
    exact root

theorem step (standard : c.table = standardTable) {r r' : Reader W} (provided : Provided r) (step : Step c r r') :
    Provided r' := by
  have shaped := provided.shaped.step standard step
  cases step with
  | put reads run =>
    obtain ⟨top, below, rfl, old, effect⟩ := provided.shaped.effect standard reads run
    obtain ⟨-, ⟨touched, goes⟩, -⟩ := effect_shape effect provided.shaped.grounded old
    obtain ⟨frames, finished⟩ := effect_reading effect
    refine ⟨shaped, effect_furnished provided.furnished effect provided.shaped.grounded old, fun frame mem => ?_,
      fun source mem => ?_⟩
    · exact Nat.lt_of_lt_of_le (provided.frames frame (frames ▸ mem)) goes.keeps.grown
    · exact Nat.lt_of_lt_of_le (provided.finished source (finished ▸ mem)) goes.keeps.grown
  | again reads checked again =>
    obtain ⟨-, waits⟩ := provided.shaped.refer reads
    have referred := provided.refer reads
    obtain ⟨identity, located, -, done⟩ := again
    obtain ⟨w, rfl⟩ := onWorldExcept_ok located
    exact (referred.world w).resume waits.stands _ (referred.finished _ (Keyed.mem_of_get? done))
  | enter reads checked enters =>
    obtain ⟨-, waits⟩ := provided.shaped.refer reads
    exact (provided.refer reads).enter (fun first mem => by cases mem; exact waits) (enters_laid enters)
      (enters_root enters)
  | leave finished reads =>
    exact provided.leave.resume (provided.shaped.waiting _ List.mem_cons_self).stands _ provided.rootOf_lt

theorem run (standard : c.table = standardTable) {r r' : Reader W} (provided : Provided r) (run : Run c r r') :
    Provided r' := by
  induction run with
  | here => exact provided
  | on step rest ih => exact ih (provided.step standard step)

end Provided

end Compile

end Stencil
