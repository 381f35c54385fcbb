import Stencil.Proofs.Compile.Additions
import Stencil.Proofs.Compile.Overriding
import Stencil.Proofs.Tag.Demands

/-!
What opens is closed again. At any time the tags for a block that have opened are those that are still open and those
that have closed, and these are the definitions and the additions of the block.
-/
namespace Stencil

open Tag

/-- How many tags of some kinds have opened for a block. -/
def openings (tags : List String) (block : String) (h : List BlockEvent) : Nat :=
  h.countP fun
    | .opened tag name _ => tag ∈ tags ∧ name = block
    | _ => false

/-- How many nodes are tags of some kinds for a block. -/
def Tree.standing (t : Tree) (tags : List String) (block : String) (ids : List NodeId) : Nat :=
  ids.countP fun id => (t.own id).tag ∈ tags ∧ (t.own id).param "id" = block

section Counting

variable {t t' : Tree} {tags : List String} {block : String} {ids ids' touched : List NodeId} {id : NodeId}
  {h h' : List BlockEvent}

theorem openings_append : openings tags block (h ++ h') = openings tags block h + openings tags block h' :=
  List.countP_append

theorem openings_of_opened {around : List String} {tag name : String} :
    openings tags block [.opened tag name around] = if tag ∈ tags ∧ name = block then 1 else 0 := by
  unfold openings
  rw [List.countP_singleton]
  by_cases counts : tag ∈ tags ∧ name = block
  · rw [if_pos counts, if_pos (decide_eq_true counts)]
  · rw [if_neg counts, if_neg (by simpa using counts)]

theorem openings_of_others (others : ∀ tag name around, .opened tag name around ∉ h) : openings tags block h = 0 := by
  refine List.countP_eq_zero.mpr fun e mem => ?_
  cases e with
  | opened tag name around => exact absurd mem (others tag name around)
  | defined | used => exact Bool.false_ne_true

namespace Tree

theorem standing_append :
    t.standing tags block (ids ++ ids') = t.standing tags block ids + t.standing tags block ids' :=
  List.countP_append

theorem standing_cons : t.standing tags block (id :: ids) =
    t.standing tags block ids + if (t.own id).tag ∈ tags ∧ (t.own id).param "id" = block then 1 else 0 := by
  unfold standing
  rw [List.countP_cons]
  congr 1
  simp

theorem standing_pos : 0 < t.standing tags block ids ↔
    ∃ id ∈ ids, (t.own id).tag ∈ tags ∧ (t.own id).param "id" = block := by
  unfold standing
  rw [List.countP_pos_iff]
  simp

/-- Nodes that are no tags for blocks do not count. -/
theorem standing_of_plain (content : tags ⊆ contentTags) (plain : ∀ id ∈ ids, (t.own id).tag ∉ contentTags) :
    t.standing tags block ids = 0 := by
  refine Nat.eq_zero_of_not_pos fun some => ?_
  obtain ⟨id, mem, tag, -⟩ := standing_pos.mp some
  exact plain id mem (content tag)

theorem Keeps.standing (keeps : t.Keeps t' touched) (old : ∀ id ∈ ids, id.index < t.size) :
    t'.standing tags block ids = t.standing tags block ids := by
  refine List.countP_congr fun id mem => ?_
  rw [keeps.tag (old id mem), keeps.param (old id mem)]

end Tree

end Counting

namespace Compile

variable {W : Type} {c : Compiler W} {s s' : CompileState W} {r r' r'' : Reader W} {file block : String} {top : NodeId}
  {below stack opens opens' closed : List NodeId} {token : Markup.Token} {tags : List String}
  {additions first rest : List Addition} {h : List BlockEvent}

/-- What is noted as opened makes up for what is open afterwards and for what has closed. -/
def Balanced (tags : List String) (block : String) (h : List BlockEvent) (s : CompileState W) (opens : List NodeId)
    (s' : CompileState W) (opens' closed : List NodeId) : Prop :=
  openings tags block h + s.tree.standing tags block opens =
    s'.tree.standing tags block opens' + s.tree.standing tags block closed

namespace Balanced

variable {touched : List NodeId}

/-- Nothing opens or closes. -/
theorem same (keeps : s.tree.Keeps s'.tree touched) (old : ∀ id ∈ opens, id.index < s.tree.size)
    (none : openings tags block h = 0) : Balanced tags block h s opens s' opens [] := by
  unfold Balanced
  rw [none, keeps.standing old, Nat.zero_add]
  rfl

/-- What is open further out stays so. -/
theorem append {outer : List NodeId} (balanced : Balanced tags block h s opens s' opens' closed)
    (keeps : s.tree.Keeps s'.tree touched) (old : ∀ id ∈ outer, id.index < s.tree.size) :
    Balanced tags block h s (opens ++ outer) s' (opens' ++ outer) closed := by
  unfold Balanced at balanced ⊢
  rw [Tree.standing_append, Tree.standing_append, keeps.standing old]
  omega

end Balanced

/-! #### Pieces -/

/-- A tag for a block has its name from the beginning. -/
theorem param_of_checked {head : Markup.Head} {line : Nat} {parent : NodeId} {stands : Bool} {params : Keyed String}
    (checked : Checked (Node.opened file line parent head stands) false additionSpecs params) :
    ((Node.opened file line parent head stands).withParams params).param "id" = head.block := by
  obtain ⟨value, here, -, written | ⟨other, mem, name, default⟩⟩ := checked.param specId List.mem_cons_self
  · exact here.trans (congrArg (·.getD "") written).symm
  · simp only [additionSpecs, List.mem_cons, List.not_mem_nil, or_false] at mem
    rcases mem with rfl | rfl
    · cases default
    · exact absurd name (by decide)

theorem openings_of_open {head : Markup.Head} (content : tags ⊆ Tree.contentTags) (kind : token.kind = .openTag)
    (parsed : Markup.Head.parse token.content = .ok head) :
    openings tags block (BlockEvent.ofPiece token stack s) =
      if head.name ∈ tags ∧ head.block = block then 1 else 0 := by
  rw [ofPiece_open kind parsed]
  by_cases tag : head.name ∈ ["block", "blockdef", "addblock"]
  · rw [if_pos tag, openings_of_opened]
  · rw [if_neg tag, if_neg fun counts : head.name ∈ tags ∧ head.block = block => tag (content counts.1)]
    refine openings_of_others fun tag name around => ?_
    split <;> simp

theorem openings_of_not_open (kind : token.kind ≠ .openTag) :
    openings tags block (BlockEvent.ofPiece token stack s) = 0 := by
  refine openings_of_others fun tag name around => ?_
  unfold BlockEvent.ofPiece
  split
  · exact absurd ‹_› kind
  · dsimp only
    split
    · simp
    · split <;> simp
  · exact List.not_mem_nil

/-- A new node counts as much as what is noted of it. -/
theorem Balanced.more {head : Markup.Head} {n : Node} {touched : List NodeId} (keeps : s.tree.Keeps s'.tree touched)
    (old : ∀ id ∈ opens, id.index < s.tree.size) (content : tags ⊆ Tree.contentTags) (kind : token.kind = .openTag)
    (parsed : Markup.Head.parse token.content = .ok head) (own : s'.tree.own ⟨s.tree.size⟩ = n)
    (tag : n.tag = head.name) (named : head.name ∈ Tree.contentTags → n.param "id" = head.block) :
    Balanced tags block (BlockEvent.ofPiece token stack s) s opens s' (⟨s.tree.size⟩ :: opens) [] := by
  have noted : (if head.name ∈ tags ∧ head.block = block then 1 else 0) =
      if n.tag ∈ tags ∧ n.param "id" = block then 1 else 0 := by
    rw [tag]
    by_cases counts : head.name ∈ tags
    · rw [named (content counts)]
    · rw [if_neg fun both => counts both.1, if_neg fun both => counts both.1]
  have grown : s'.tree.standing tags block (⟨s.tree.size⟩ :: opens) =
      s.tree.standing tags block opens + if n.tag ∈ tags ∧ n.param "id" = block then 1 else 0 := by
    rw [Tree.standing_cons, keeps.standing old, own]
  unfold Balanced
  rw [openings_of_open content kind parsed, noted, grown]
  exact Nat.add_comm _ _

/-- A node that closes is no longer open. -/
theorem Balanced.less {touched : List NodeId} (keeps : s.tree.Keeps s'.tree touched)
    (old : ∀ id ∈ below, id.index < s.tree.size) (none : openings tags block h = 0) :
    Balanced tags block h s (top :: below) s' below [top] := by
  have parts : s.tree.standing tags block ([top] ++ below) = _ := Tree.standing_append
  unfold Balanced
  rw [none, keeps.standing old, Nat.zero_add, Nat.add_comm]
  exact parts

/-- A piece opens what it notes, and closes what it ends. -/
theorem effect_balanced (block : String) (effect : Effect s file top below token s' stack) (grounded : Grounded s)
    (old : ∀ id ∈ top :: below, id.index < s.tree.size) (content : tags ⊆ Tree.contentTags) :
    Balanced tags block (BlockEvent.ofPiece token (top :: below) s) s (top :: below) s' stack
      (if token.kind = .closeTag then [top] else []) := by
  obtain ⟨-, ⟨touched, goes⟩, -⟩ := effect_shape effect grounded (old top List.mem_cons_self)
  have stays : token.kind ≠ .closeTag → openings tags block (BlockEvent.ofPiece token (top :: below) s) = 0 →
      Balanced tags block (BlockEvent.ofPiece token (top :: below) s) s (top :: below) s' (top :: below)
        (if token.kind = .closeTag then [top] else []) := by
    intro kind none
    rw [if_neg kind]
    exact .same goes.keeps old none
  have opens : ∀ {head : Markup.Head} {n : Node}, token.kind = .openTag →
      Markup.Head.parse token.content = .ok head → s'.tree.own ⟨s.tree.size⟩ = n → n.tag = head.name →
      (head.name ∈ Tree.contentTags → n.param "id" = head.block) →
      Balanced tags block (BlockEvent.ofPiece token (top :: below) s) s (top :: below) s'
        (⟨s.tree.size⟩ :: top :: below) (if token.kind = .closeTag then [top] else []) := by
    intro head n kind parsed own tag named
    rw [if_neg (by rw [kind]; decide)]
    exact .more goes.keeps old content kind parsed own tag named
  have closes : token.kind = .closeTag →
      Balanced tags block (BlockEvent.ofPiece token (top :: below) s) s (top :: below) s' below
        (if token.kind = .closeTag then [top] else []) := by
    intro kind
    rw [if_pos kind]
    exact .less goes.keeps (fun id mem => old id (List.mem_cons_of_mem _ mem))
      (openings_of_not_open (by rw [kind]; decide))
  have handled : ∀ {head : Markup.Head}, token.kind = .openTag → Markup.Head.parse token.content = .ok head →
      head.name ∉ Tree.contentTags →
      Balanced tags block (BlockEvent.ofPiece token (top :: below) s) s (top :: below) s' (top :: below)
        (if token.kind = .closeTag then [top] else []) := by
    intro head kind parsed other
    refine stays (by rw [kind]; decide) ?_
    rw [openings_of_open content kind parsed, if_neg fun counts => other (content counts.1)]
  cases effect with
  | text kind => exact stays (by rw [kind]; decide) (openings_of_not_open (by rw [kind]; decide))
  | printed kind => exact stays (by rw [kind]; decide) (openings_of_not_open (by rw [kind]; decide))
  | @nested head params kind parsed tag checked =>
    refine opens kind parsed (own_withNode s _) rfl fun isContent => ?_
    have isBlockdef : head.name = "blockdef" := by
      simp only [List.mem_cons, List.not_mem_nil, or_false] at tag
      rcases tag with same | same | same | same
      · exact absurd isContent (by rw [same]; decide)
      · exact absurd isContent (by rw [same]; decide)
      · exact absurd isContent (by rw [same]; decide)
      · exact same
    rw [isBlockdef] at checked
    cases checked_required rfl checked
    rfl
  | localized kind parsed => exact opens kind parsed (own_withNode s _) rfl fun _ => rfl
  | block kind parsed => exact opens kind parsed (own_blockOpened _ s) rfl fun _ => rfl
  | elseIf kind parsed tag => exact handled kind parsed (by rw [tag]; decide)
  | otherwise kind parsed tag => exact handled kind parsed (by rw [tag]; decide)
  | putblock kind parsed tag => exact handled kind parsed (by rw [tag]; decide)
  | adding kind parsed tag checked =>
    exact opens kind parsed (own_blockOpened _ s) rfl fun _ => param_of_checked checked
  | closed kind => exact closes kind
  | closedBlock kind => exact closes kind
  | closedBlockdef kind => exact closes kind
  | closedAdding kind => exact closes kind

/-! #### Steps -/

/-- What a step does with the open nodes. Only pieces close nodes of blocks, and only they are noted. -/
inductive Turn (r r' : Reader W) : Prop where
  | piece {frame : Frame} {tokens : List Markup.Token} {token : Markup.Token} {top : NodeId} {below stack : List NodeId}
      {outer : List Sheet} (before : r.sheets = ⟨frame, token :: tokens, top :: below⟩ :: outer)
      (effect : Effect r.state frame.name top below token r'.state stack)
      (after : r'.sheets = ⟨frame, tokens, stack⟩ :: outer)
      (history : r'.history = r.history ++ BlockEvent.ofPiece token (top :: below) r.state)
  | refers (silent : r.closes? = none) (history : r'.history = r.history)
      (opens : openNodes r'.sheets = openNodes r.sheets)
  | enters {root id : NodeId} (silent : r.closes? = none) (history : r'.history = r.history)
      (opens : openNodes r'.sheets = root :: id :: openNodes r.sheets)
      (untagged : (r'.state.tree.own root).tag = "") (plain : (r'.state.tree.own id).tag ∉ Tree.contentTags)
      (inner : (r'.state.tree.own id).isRoot = false)
  | leaves {root id : NodeId} (silent : r.closes? = none) (history : r'.history = r.history)
      (opens : openNodes r.sheets = root :: id :: openNodes r'.sheets)
      (isRoot : (r.state.tree.own root).isRoot = true) (plain : (r.state.tree.own id).tag ∉ Tree.contentTags)

theorem plain_of_reading {tag : String} (either : tag = "extends" ∨ tag = "include") : tag ∉ Tree.contentTags := by
  rcases either with same | same <;> rw [same] <;> decide

theorem turn (standard : c.table = standardTable) (shaped : Shaped r) (step : Step c r r') : Turn r r' := by
  cases step with
  | put reads run =>
    obtain ⟨top, below, rfl, -, effect⟩ := shaped.effect standard reads run
    exact .piece rfl effect rfl rfl
  | @again s s₁ frame token tokens top root below outer h head reads checked again =>
    have silent : Reader.closes? (W := W) ⟨s, ⟨frame, token :: tokens, top :: below⟩ :: outer, h⟩ = none :=
      if_neg (by rw [(of_reading reads).1]; decide)
    obtain ⟨-, waits⟩ := shaped.refer reads
    obtain ⟨w, rfl⟩ := again_ok again
    let asked : CompileState W := { referring frame.name token.line top head s with world := w }
    have old : (⟨s.tree.size⟩ : NodeId).index < asked.tree.size := new_lt s _
    have closed : settled ⟨s.tree.size⟩ top below (received head ⟨s.tree.size⟩ root asked) = (top :: below, _) :=
      settled_received old waits.stands head root
    refine .refers silent rfl ?_
    rw [openNodes_cons, closed]
    rfl
  | @enter s s₁ frame token tokens top below outer h head sheet reads checked enters =>
    have silent : Reader.closes? (W := W) ⟨s, ⟨frame, token :: tokens, top :: below⟩ :: outer, h⟩ = none :=
      if_neg (by rw [(of_reading reads).1]; decide)
    obtain ⟨stack, name, w, sources, rfl⟩ := enters_laid enters
    let n := Node.opened frame.name token.line top head false
    have own := own_withNode (withNode s n) (rootNode name)
    have keeps := Tree.Keeps.push (withNode s n).tree (rootNode name) []
    have old : (⟨s.tree.size⟩ : NodeId).index < (withNode s n).tree.size := new_lt s n
    have opens : openNodes (sheet :: ⟨frame, token :: tokens, ⟨s.tree.size⟩ :: top :: below⟩ :: outer) =
        ⟨(withNode s n).tree.size⟩ :: ⟨s.tree.size⟩ :: (top :: below ++ openNodes outer) := by
      rw [openNodes_cons, stack]
      rfl
    refine .enters silent rfl opens ?_ ?_ ?_
    · exact congrArg Node.tag own
    · refine plain_of_reading ?_
      have tag : (((withNode (withNode s n) (rootNode name)).tree).own ⟨s.tree.size⟩).tag = head.name :=
        (keeps.tag old).trans (congrArg Node.tag (own_withNode s n))
      exact tag.symm ▸ (of_reading reads).2.2
    · exact (keeps.roots _ old).trans (congrArg Node.isRoot (own_withNode s n))
  | @leave s inner frame token tokens id top below outer h head finished reads =>
    obtain ⟨root, stack, isRoot⟩ := finished_stack (shaped.upright _ List.mem_cons_self) finished
    have waits := shaped.waiting _ List.mem_cons_self
    have old := shaped.leave.upright _ List.mem_cons_self
    have closed : settled id top below (received head id (rootOf inner s) (left inner s)) = (top :: below, _) :=
      settled_received (old.old id List.mem_cons_self) waits.stands head (rootOf inner s)
    have opens : openNodes (inner :: ⟨frame, token :: tokens, id :: top :: below⟩ :: outer) =
        root :: id :: (top :: below ++ openNodes outer) := by
      rw [openNodes_cons, stack]
      rfl
    refine .leaves (nothing_left finished.1).2 rfl ?_ isRoot (plain_of_reading waits.tag)
    rw [openNodes_cons, closed]
    exact opens

/-- The roots of the sources that are being read are no tags. -/
def Untagged (r : Reader W) : Prop :=
  ∀ id ∈ openNodes r.sheets, (r.state.tree.own id).isRoot = true → (r.state.tree.own id).tag = ""

theorem Untagged.step (standard : c.table = standardTable) (ordered : Ordered r) (untagged : Untagged r)
    (step : Step c r r') : Untagged r' := by
  have old := ordered.unmixed.old
  obtain ⟨touched, keeps⟩ := ordered.shaped.step_keeps standard step
  have stays : ∀ id ∈ openNodes r.sheets, (r'.state.tree.own id).isRoot = true → (r'.state.tree.own id).tag = "" := by
    intro id mem
    rw [keeps.roots id (old id mem), keeps.tag (old id mem)]
    exact untagged id mem
  unfold Untagged
  cases turn standard ordered.shaped step with
  | @piece frame tokens token top below stack outer before effect after history =>
    rw [before, openNodes_cons] at stays
    rw [after, openNodes_cons]
    have small : top.index < r.state.tree.size := old top (by rw [before]; exact List.mem_cons_self)
    obtain ⟨-, -, stacked⟩ := effect_shape effect ordered.shaped.grounded small
    cases stacked with
    | same => exact stays
    | more new inner =>
      refine List.forall_mem_cons.mpr ⟨fun isRoot => ?_, stays⟩
      rw [inner] at isRoot
      cases isRoot
    | less => exact fun id mem => stays id (List.mem_cons_of_mem _ mem)
  | refers silent history opens =>
    rw [opens]
    exact stays
  | enters silent history opens untagged plain inner =>
    rw [opens]
    refine List.forall_mem_cons.mpr ⟨fun _ => untagged, List.forall_mem_cons.mpr ⟨fun isRoot => ?_, stays⟩⟩
    rw [inner] at isRoot
    cases isRoot
  | leaves silent history opens =>
    rw [opens] at stays
    exact fun id mem => stays id (List.mem_cons_of_mem _ (List.mem_cons_of_mem _ mem))

/-- What a step notes as opened is open after it and was not before, or the step closes it. -/
theorem step_balanced (standard : c.table = standardTable) (ordered : Ordered r) (untagged : Untagged r)
    (step : Step c r r') (tags : List String) (block : String) (content : tags ⊆ Tree.contentTags) :
    ∃ later, r'.history = r.history ++ later ∧
      Balanced tags block later r.state (openNodes r.sheets) r'.state (openNodes r'.sheets) r.closes?.toList := by
  have old := ordered.unmixed.old
  obtain ⟨touched, keeps⟩ := ordered.shaped.step_keeps standard step
  cases turn standard ordered.shaped step with
  | @piece frame tokens token top below stack outer before effect after history =>
    refine ⟨_, history, ?_⟩
    rw [before, openNodes_cons] at old
    have balanced := effect_balanced block effect ordered.shaped.grounded
      (fun id mem => old id (List.mem_append_left _ mem)) content
    have closes : r.closes?.toList = if token.kind = .closeTag then [top] else [] := by
      unfold Reader.closes?
      rw [before]
      dsimp only
      split <;> rfl
    rw [before, after, openNodes_cons, openNodes_cons, closes]
    exact balanced.append keeps fun id mem => old id (List.mem_append_right _ mem)
  | refers silent history opens =>
    refine ⟨[], history.trans (List.append_nil _).symm, ?_⟩
    rw [silent, opens]
    exact .same keeps old rfl
  | @enters root id silent history opens bare plain inner =>
    refine ⟨[], history.trans (List.append_nil _).symm, ?_⟩
    have none : r'.state.tree.standing tags block [root, id] = 0 := by
      refine Tree.standing_of_plain content (List.forall_mem_cons.mpr ⟨?_, List.forall_mem_cons.mpr ⟨plain, ?_⟩⟩)
      · rw [bare]
        decide
      · exact fun _ mem => absurd mem List.not_mem_nil
    have more : openNodes r'.sheets = [root, id] ++ openNodes r.sheets := opens
    unfold Balanced
    rw [silent, more, Tree.standing_append, none, keeps.standing old]
    rfl
  | @leaves root id silent history opens isRoot plain =>
    refine ⟨[], history.trans (List.append_nil _).symm, ?_⟩
    have none : r.state.tree.standing tags block [root, id] = 0 := by
      refine Tree.standing_of_plain content (List.forall_mem_cons.mpr ⟨?_, List.forall_mem_cons.mpr ⟨plain, ?_⟩⟩)
      · rw [untagged root (by rw [opens]; exact List.mem_cons_self) isRoot]
        decide
      · exact fun _ mem => absurd mem List.not_mem_nil
    have more : openNodes r.sheets = [root, id] ++ openNodes r'.sheets := opens
    rw [more] at old ⊢
    unfold Balanced
    rw [silent, Tree.standing_append, none, keeps.standing fun id mem => old id (List.mem_append_right _ mem),
      Nat.zero_add]
    exact Nat.zero_add _

/-! #### What closes -/

theorem closes?_of_piece {frame : Frame} {tokens : List Markup.Token} {outer : List Sheet}
    (before : r.sheets = ⟨frame, token :: tokens, top :: below⟩ :: outer) :
    r.closes? = if token.kind = .closeTag then some top else none := by
  unfold Reader.closes?
  rw [before]

theorem definitions_of_close (kind : token.kind = .closeTag) :
    (definitions block (BlockEvent.ofPiece token (top :: below) s)).length =
      s.tree.standing ["block", "blockdef"] block [top] := by
  have counts : ∀ {d : Definition}, d.block = (s.tree.own top).param "id" →
      (s.tree.own top).tag ∈ ["block", "blockdef"] →
      (definitions block [.defined d]).length = s.tree.standing ["block", "blockdef"] block [top] := by
    intro d names tag
    rw [Tree.standing_cons, ← List.nil_append [BlockEvent.defined d], definitions_defined, names]
    by_cases same : (s.tree.own top).param "id" = block
    · rw [if_pos same, if_pos ⟨tag, same⟩]
      rfl
    · rw [if_neg same, if_neg fun both => same both.2]
      rfl
  rw [ofPiece_close kind]
  by_cases isBlock : (s.tree.own top).tag = "block"
  · rw [if_pos isBlock]
    exact counts rfl (by simp [isBlock])
  · rw [if_neg isBlock]
    by_cases isBlockdef : (s.tree.own top).tag = "blockdef"
    · rw [if_pos isBlockdef]
      exact counts rfl (by simp [isBlockdef])
    · rw [if_neg isBlockdef, Tree.standing_cons, if_neg (by simp [isBlock, isBlockdef])]
      rfl

theorem definitions_of_not_close (kind : token.kind ≠ .closeTag) :
    definitions block (BlockEvent.ofPiece token stack s) = [] := by
  unfold BlockEvent.ofPiece
  split
  · split
    · split
      · rfl
      · split <;> rfl
    · rfl
  · exact absurd ‹_› kind
  · rfl

/-- What a step notes as defined is what it closes. -/
theorem definitions_of_step (standard : c.table = standardTable) (shaped : Shaped r) (step : Step c r r')
    (block : String) :
    (definitions block r'.history).length = (definitions block r.history).length +
      r.state.tree.standing ["block", "blockdef"] block r.closes?.toList := by
  cases turn standard shaped step with
  | @piece frame tokens token top below stack outer before effect after history =>
    rw [history, definitions_append, List.length_append, closes?_of_piece before]
    by_cases kind : token.kind = .closeTag
    · rw [if_pos kind, definitions_of_close kind]
      rfl
    · rw [if_neg kind, definitions_of_not_close kind]
      rfl
  | refers silent history | enters silent history | leaves silent history =>
    rw [history, silent]
    rfl

/-- What is added is what closes. -/
theorem additions_of_closes :
    (r.addition?.toList.filter (·.block = block)).length =
      r.state.tree.standing ["addblock"] block r.closes?.toList := by
  unfold Reader.addition? Reader.adds?
  cases r.closes? with
  | none => rfl
  | some top =>
    rw [Option.toList_some, Tree.standing_cons]
    by_cases tag : (r.state.tree.own top).tag = "addblock"
    · by_cases same : (r.state.tree.own top).param "id" = block
      · simp [Option.filter, tag, same, Tree.standing]
      · simp [Option.filter, tag, same, Tree.standing]
    · simp [Option.filter, tag, Tree.standing]

/-! #### Runs -/

/-- The tags for a block that have opened are those that are open, the definitions and the additions so far. -/
structure Accounted (block : String) (additions : List Addition) (r : Reader W) : Prop where
  ordered : Ordered r
  untagged : Untagged r
  defined : openings ["block", "blockdef"] block r.history =
    r.state.tree.standing ["block", "blockdef"] block (openNodes r.sheets) + (definitions block r.history).length
  added : openings ["addblock"] block r.history =
    r.state.tree.standing ["addblock"] block (openNodes r.sheets) + (additions.filter (·.block = block)).length

namespace Accounted

theorem step (standard : c.table = standardTable) (accounted : Accounted block additions r) (step : Step c r r') :
    Accounted block (additions ++ r.addition?.toList) r' := by
  obtain ⟨ordered, untagged, defined, added⟩ := accounted
  have definitions := definitions_of_step standard ordered.shaped step block
  refine ⟨(ordered.receives standard step).1, untagged.step standard ordered step, ?_, ?_⟩
  · obtain ⟨later, history, balanced⟩ :=
      step_balanced standard ordered untagged step ["block", "blockdef"] block (by decide)
    unfold Balanced at balanced
    rw [definitions, history, openings_append]
    omega
  · obtain ⟨later, history, balanced⟩ := step_balanced standard ordered untagged step ["addblock"] block (by decide)
    unfold Balanced at balanced
    rw [history, openings_append, List.filter_append, List.length_append, additions_of_closes]
    omega

theorem run (standard : c.table = standardTable) (accounted : Accounted block first r) (adding : Adding c r rest r') :
    Accounted block (first ++ rest) r' := by
  induction adding generalizing first with
  | here =>
    rw [List.append_nil]
    exact accounted
  | on step _ ih =>
    rw [← List.append_assoc]
    exact ih (accounted.step standard step)

end Accounted

/-- A step notes one thing at most. -/
theorem Step.event (step : Step c r r') : r'.history = r.history ∨ ∃ e, r'.history = r.history ++ [e] := by
  cases step with
  | @put s s' frame token tokens stack =>
    have one : BlockEvent.ofPiece token stack s = [] ∨ ∃ e, BlockEvent.ofPiece token stack s = [e] := by
      unfold BlockEvent.ofPiece
      split
      · split
        · split
          · exact .inr ⟨_, rfl⟩
          · split
            · exact .inr ⟨_, rfl⟩
            · exact .inl rfl
        · exact .inl rfl
      · dsimp only
        split
        · exact .inr ⟨_, rfl⟩
        · split
          · exact .inr ⟨_, rfl⟩
          · exact .inl rfl
      · exact .inl rfl
    rcases one with none | ⟨e, one⟩
    · refine .inl ?_
      rw [none, List.append_nil]
    · exact .inr ⟨e, congrArg _ one⟩
  | again | enter | leave => exact .inl rfl

/-- Whatever a run has noted was noted by one of its steps. -/
theorem Adding.at_event {early later : List BlockEvent} {e : BlockEvent} (adding : Adding c r additions r')
    (noted : r'.history = r.history ++ (early ++ e :: later)) : ∃ r₁ r₂ first rest, Adding c r first r₁ ∧
      Step c r₁ r₂ ∧ Adding c r₂ rest r' ∧ additions = first ++ (r₁.addition?.toList ++ rest) ∧
      r₁.history = r.history ++ early ∧ r₂.history = r₁.history ++ [e] := by
  induction adding generalizing early with
  | here r =>
    have none : early ++ e :: later = [] := List.append_right_eq_self.mp noted.symm
    exact absurd none (by simp)
  | @on r r₁ r' additions step rest ih =>
    rcases step.event with same | ⟨e', one⟩
    · rw [← same] at noted
      obtain ⟨r₂, r₃, first, last, before, here, after, rfl, history, event⟩ := ih noted
      refine ⟨r₂, r₃, _, last, .on step before, here, after, (List.append_assoc ..).symm, ?_, event⟩
      rw [history, same]
    · obtain ⟨more, whole⟩ := rest.run.history
      rw [whole, one, List.append_assoc] at noted
      have parts : e' :: more = early ++ e :: later := List.append_cancel_left noted
      cases early with
      | nil =>
        cases parts
        exact ⟨r, r₁, [], additions, .here r, step, rest, rfl, (List.append_nil _).symm, one⟩
      | cons first early =>
        obtain ⟨rfl, rest⟩ := List.cons.inj parts
        have rest : more = early ++ e :: later := rest
        rw [rest] at whole
        obtain ⟨r₂, r₃, first, last, before, here, after, rfl, history, event⟩ := ih whole
        refine ⟨r₂, r₃, _, last, .on step before, here, after, (List.append_assoc ..).symm, ?_, event⟩
        rw [history, one, List.append_assoc]
        rfl

end Compile

end Stencil
