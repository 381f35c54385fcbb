import Stencil.Proofs.Compile.Blocks
import Stencil.Proofs.Compile.Dependence
import Stencil.Proofs.Compile.Shape

/-!
Which definition of a block is shown. Blocks of one name that are not nested in each other within a source, and to
which nothing is added, all show the body of the definition that wins.
-/
namespace Stencil

open Tag

namespace Compile

variable {W : Type} {c : Compiler W} {s s' : CompileState W} {t t' : Tree} {file : String} {top : NodeId}
  {below stack : List NodeId} {token : Markup.Token} {h : List BlockEvent}

/-! #### Open nodes -/

/-- The open nodes of all sources, each with the depth of its source. -/
def opens : List Sheet → List (NodeId × Nat)
  | [] => []
  | sheet :: outer => sheet.stack.map (fun id => (id, outer.length + 1)) ++ opens outer

section Opens

variable {sheet : Sheet} {outer : List Sheet} {id : NodeId} {depth : Nat}

theorem opens_cons (sheet : Sheet) (outer : List Sheet) :
    opens (sheet :: outer) = sheet.stack.map (fun id => (id, outer.length + 1)) ++ opens outer :=
  rfl

theorem mem_opens : (id, depth) ∈ opens (sheet :: outer) ↔
    id ∈ sheet.stack ∧ depth = outer.length + 1 ∨ (id, depth) ∈ opens outer := by
  rw [opens_cons, List.mem_append, List.mem_map]
  constructor
  · rintro (⟨other, mem, same⟩ | mem)
    · cases same
      exact .inl ⟨mem, rfl⟩
    · exact .inr mem
  · rintro (⟨mem, rfl⟩ | mem)
    · exact .inl ⟨id, mem, rfl⟩
    · exact .inr mem

theorem mem_opens_top {frame : Frame} {tokens : List Markup.Token} :
    (top, outer.length + 1) ∈ opens (⟨frame, tokens, top :: below⟩ :: outer) :=
  mem_opens.mpr (.inl ⟨List.mem_cons_self, rfl⟩)

theorem depth_le_of_mem_opens {sheets : List Sheet} (mem : (id, depth) ∈ opens sheets) : depth ≤ sheets.length := by
  induction sheets with
  | nil => cases mem
  | cons sheet outer ih =>
    rcases mem_opens.mp mem with ⟨-, rfl⟩ | mem
    · exact Nat.le_refl _
    · exact Nat.le_succ_of_le (ih mem)

theorem exists_sheet_of_mem_opens {sheets : List Sheet} (mem : (id, depth) ∈ opens sheets) :
    ∃ sheet ∈ sheets, id ∈ sheet.stack := by
  induction sheets with
  | nil => cases mem
  | cons sheet outer ih =>
    rcases mem_opens.mp mem with ⟨mem, -⟩ | mem
    · exact ⟨sheet, List.mem_cons_self, mem⟩
    · obtain ⟨other, there, mem⟩ := ih mem
      exact ⟨other, List.mem_cons_of_mem _ there, mem⟩

/-- A node that is open as deep as can be is on the innermost stack. -/
theorem mem_stack_of_deepest (mem : (id, depth) ∈ opens (sheet :: outer)) (deep : outer.length + 1 ≤ depth) :
    id ∈ sheet.stack ∧ depth = outer.length + 1 := by
  rcases mem_opens.mp mem with here | mem
  · exact here
  · have le := depth_le_of_mem_opens mem
    omega

end Opens

/-- No tag among what happened adds to blocks. -/
def Unadded (h : List BlockEvent) : Prop := ∀ tag block around, .opened tag block around ∈ h → tag ≠ "addblock"

theorem Unadded.before {r r' : Reader W} (unadded : Unadded r'.history) (run : Run c r r') : Unadded r.history := by
  obtain ⟨more, same⟩ := run.history
  intro tag block around mem
  refine unadded tag block around ?_
  rw [same]
  exact List.mem_append_left _ mem

theorem ofPiece_opens {head : Markup.Head} (kind : token.kind = .openTag)
    (parsed : Markup.Head.parse token.content = .ok head) (tag : head.name ∈ ["block", "blockdef", "addblock"]) :
    BlockEvent.ofPiece token stack s = [.opened head.name head.block (s.tree.openBlocks stack)] := by
  unfold BlockEvent.ofPiece
  rw [kind, parsed]
  exact if_pos tag

/-- No source has a block open inside another one of the same name. -/
def Unnested (h : List BlockEvent) : Prop := ∀ tag block around, .opened tag block around ∈ h → block ∉ around

/-- What holds of blocks and open nodes at any time. -/
structure Consistent (r : Reader W) : Prop where
  shaped : Shaped r
  apart : ((opens r.sheets).map Prod.fst).Nodup
  held : ∀ p ∈ opens r.sheets, r.state.tree.Settled p.1
  plain : ∀ p ∈ opens r.sheets, (r.state.tree.own p.1).tag ≠ "addblock"
  bare : ∀ p ∈ opens r.sheets, (r.state.tree.own p.1).tag ∈ ["block", "blockdef"] →
    (r.state.tree.own p.1).opening = "" ∧ (r.state.tree.own p.1).closing = ""
  distinct : ∀ sheet ∈ r.sheets, (r.state.tree.openBlocks sheet.stack).Nodup
  resolved : Resolved r.state.tree r.state.blocks r.state.deferred (opens r.sheets) r.history

/-! #### What is closed is settled with the block -/

/-- The holder of a definition that closes now. -/
structure Holder (s : CompileState W) (opens opens' : List (NodeId × Nat)) (h : List BlockEvent) (e : Definition)
    (holder : NodeId) : Prop where
  old : holder.index < s.tree.size
  settled : s.tree.Settled holder
  param : (s.tree.own holder).param "id" = e.block
  holds : Holds s.tree holder e.body
  shut : ∀ depth, (holder, depth) ∉ opens'
  waits : holder ∉ s.deferred
  other : ∀ d, .defined d ∈ h → d.inPlace = false → d.site ≠ holder
  here : e.inPlace = true → e.site = holder
  apart : e.inPlace = false → e.site ≠ holder
  /-- Only an open block may be known by the same node. -/
  own : ∀ b, Keyed.get? e.block s.blocks = some b → b.node = holder → b.depth = e.depth ∧
    ∀ d ∈ definitions e.block h, e.depth ≤ d.depth
  /-- No block of the same name is open at the same depth. -/
  high : ∀ b, Keyed.get? e.block s.blocks = some b → b.node ≠ holder → e.depth ≤ b.depth →
    ∀ depth, (b.node, depth) ∉ opens

namespace Holder

variable {opens opens' : List (NodeId × Nat)} {e : Definition} {holder : NodeId} {b : Block}
  (hold : Holder s opens opens' h e holder) (r : Resolved s.tree s.blocks s.deferred opens h) (sound : s.tree.Sound)
  (site : Resolved.Site s.tree s.blocks s.deferred opens opens' e)

include hold r sound site in
/-- The block goes to the holder. -/
theorem crowned (least : ∀ d ∈ definitions e.block h, e.depth ≤ d.depth)
    (moved : t' = match Keyed.get? e.block s.blocks with
      | none => s.tree
      | some b => s.tree.redirect b.node holder) :
    Resolved t' (Keyed.put e.block ⟨holder, e.depth⟩ s.blocks) s.deferred opens' (h ++ [.defined e]) :=
  r.crowned sound site least hold.old hold.settled hold.param hold.holds hold.shut hold.waits hold.other hold.here
    hold.apart moved

include hold r sound site in
/-- The block stays with a node further out. -/
theorem outranked (known : Keyed.get? e.block s.blocks = some b) (same : b.node ≠ holder) (deeper : b.depth < e.depth) :
    Resolved (s.tree.redirect holder b.node) s.blocks s.deferred opens' (h ++ [.defined e]) := by
  have distinct : ∀ block b', Keyed.get? block s.blocks = some b' → b'.node ≠ holder := by
    intro block b' known' same'
    apply same
    have block' : block = e.block := by rw [← r.param block b' known', same', hold.param]
    subst block'
    cases known.symm.trans known'
    exact same'
  have diverted : Resolved (s.tree.redirect holder b.node) s.blocks s.deferred opens h :=
    r.divert sound hold.old hold.settled distinct hold.other hold.waits (.refl _) fun _ _ _ mem => .inl mem
  have keeps := Tree.Keeps.redirect s.tree holder b.node []
  have site' : Resolved.Site (s.tree.redirect holder b.node) s.blocks s.deferred opens opens' e := by
    refine ⟨site.sub, site.stays, site.shut, Nat.lt_of_lt_of_le site.old keeps.grown, ?_, fun inPlace => ?_⟩
    · rw [keeps.param site.old]
      exact site.param
    · obtain ⟨settled, content, waits, other⟩ := site.empty inPlace
      refine ⟨settled.redirect ?_, content.redirect site.old holder b.node, waits, other⟩
      rw [hold.settled.target_eq]
      exact hold.apart inPlace
  refine diverted.outranked site' known deeper (fun inSite => ?_) fun inPlace => ?_
  · cases place : e.inPlace with
    | true => exact same (inSite.trans (hold.here place))
    | false => exact (site.empty place).2.2.2 _ b known inSite
  · rw [hold.here inPlace, sound.target_redirect hold.old, if_pos rfl, (r.settled _ b known).target_eq]

include hold r in
/-- No definition is less deep than one that takes over from another node. -/
theorem least (known : Keyed.get? e.block s.blocks = some b) (same : b.node ≠ holder) (deep : e.depth ≤ b.depth) :
    ∀ d ∈ definitions e.block h, e.depth ≤ d.depth := by
  intro d mem
  cases r.current e.block b known with
  | won wins level content closed =>
    have le := wins.le mem
    omega
  | awaited stands tag inner below => exact absurd stands (hold.high b known same deep b.depth)

end Holder

theorem Resolved.settle {opens opens' : List (NodeId × Nat)} {e : Definition} {holder : NodeId}
    (r : Resolved s.tree s.blocks s.deferred opens h) (sound : s.tree.Sound)
    (site : Resolved.Site s.tree s.blocks s.deferred opens opens' e) (depth : e.depth = s.frames.length)
    (hold : Holder s opens opens' h e holder) :
    Resolved (settle holder e.block s).tree (settle holder e.block s).blocks (settle holder e.block s).deferred opens'
        (h ++ [.defined e]) ∧
      ∀ id, s.tree.Settled id → id ≠ holder → (∃ depth, (id, depth) ∈ opens) →
        (settle holder e.block s).tree.Settled id := by
  unfold Compile.settle
  cases known : Keyed.get? e.block s.blocks with
  | none =>
    dsimp only
    rw [← depth]
    refine ⟨hold.crowned r sound site (fun d mem => ?_) (by rw [known]), fun id settled _ _ => settled⟩
    rw [r.unknown _ known] at mem
    cases mem
  | some b =>
    dsimp only
    by_cases same : b.node = holder
    · rw [if_pos same]
      obtain ⟨level, least⟩ := hold.own b known same
      have block : b = ⟨holder, e.depth⟩ := by
        cases b
        cases same
        cases level
        rfl
      have put := Keyed.put_of_get? known
      rw [block] at put
      have still : s.tree = match Keyed.get? e.block s.blocks with
          | none => s.tree
          | some b => s.tree.redirect b.node holder := by
        rw [known]
        dsimp only
        rw [same, Tree.redirect_self]
      have crowned := hold.crowned r sound site least still
      rw [put] at crowned
      exact ⟨crowned, fun id settled _ _ => settled⟩
    · rw [if_neg same]
      by_cases deeper : b.depth < s.frames.length
      · rw [if_pos deeper]
        refine ⟨hold.outranked r sound site known same (by omega), fun id settled apart _ => settled.redirect ?_⟩
        rw [hold.settled.target_eq]
        exact apart
      · rw [if_neg deeper, ← depth]
        have deep : e.depth ≤ b.depth := by omega
        refine ⟨hold.crowned r sound site (hold.least r known same deep) (by rw [known]), fun id settled _ isOpen => ?_⟩
        refine settled.redirect fun same' => ?_
        rw [(r.settled _ b known).target_eq] at same'
        obtain ⟨level, mem⟩ := isOpen
        exact hold.high b known same deep level (same' ▸ mem)

/-! #### Pieces -/

theorem opens_fst (sheet : Sheet) (outer : List Sheet) :
    (opens (sheet :: outer)).map Prod.fst = sheet.stack ++ (opens outer).map Prod.fst := by
  rw [opens_cons, List.map_append, List.map_map]
  exact congrArg (· ++ _) (List.map_id _)

/-- The same open nodes are for the same blocks. -/
theorem openBlocks_keep {touched : List NodeId} (keeps : t.Keeps t' touched) (old : ∀ id ∈ stack, id.index < t.size) :
    t'.openBlocks stack = t.openBlocks stack := by
  induction stack with
  | nil => rfl
  | cons id stack ih =>
    have first := old id List.mem_cons_self
    unfold Tree.openBlocks at ih ⊢
    rw [List.filterMap_cons, List.filterMap_cons, ih fun other mem => old other (List.mem_cons_of_mem _ mem),
      keeps.tag first, keeps.param first]

namespace Consistent

variable {frame : Frame} {tokens : List Markup.Token} {outer : List Sheet} {h' : List BlockEvent}

section Top

variable (consistent : Consistent ⟨s, ⟨frame, token :: tokens, top :: below⟩ :: outer, h⟩)

include consistent

theorem top_depth : outer.length + 1 = s.frames.length := consistent.shaped.depth.symm

end Top

end Consistent

/-- What pieces preserve: the open nodes are settled, and blocks are resolved. -/
structure Fine (s : CompileState W) (opens : List (NodeId × Nat)) (h : List BlockEvent) : Prop where
  grounded : Grounded s
  old : ∀ p ∈ opens, p.1.index < s.tree.size
  held : ∀ p ∈ opens, s.tree.Settled p.1
  resolved : Resolved s.tree s.blocks s.deferred opens h

theorem Consistent.fine {r : Reader W} (consistent : Consistent r) : Fine r.state (opens r.sheets) r.history := by
  refine ⟨consistent.shaped.grounded, fun p mem => ?_, consistent.held, consistent.resolved⟩
  obtain ⟨id, depth⟩ := p
  obtain ⟨sheet, there, mem⟩ := exists_sheet_of_mem_opens mem
  exact (consistent.shaped.upright sheet there).old id mem

namespace Fine

variable {o o' : List (NodeId × Nat)} {parent : NodeId} {depth : Nat} {n : Node}

/-- What was not there before has nothing to do with blocks. -/
theorem unseen (fine : Fine s o h) {id : NodeId} (new : s.tree.size ≤ id.index) : Unseen s.blocks o h id := by
  have apart : ∀ {other : NodeId}, other.index < s.tree.size → other ≠ id := by
    intro other lt same
    rw [same] at lt
    omega
  have r := fine.resolved
  exact ⟨fun depth mem => apart (fine.old _ mem) rfl, fun block b known => apart (r.old block b known),
    fun e mem => apart (r.placed e mem).old, fun block site mem => apart (r.referred block site mem).old⟩

/-- Open nodes are worked on. -/
theorem work (fine : Fine s o h) {touched : List NodeId} (links : s.tree.SameLinks t')
    (keeps : s.tree.Keeps t' touched) (within : ∀ id ∈ touched, ∃ depth, (id, depth) ∈ o) :
    Fine { s with tree := t' } o h := by
  have grown : ∀ {id : NodeId}, id.index < s.tree.size → id.index < t'.size :=
    fun old => Nat.lt_of_lt_of_le old keeps.grown
  refine ⟨⟨links.sound fine.grounded.sound, fun block b known => grown (fine.grounded.blocks block b known),
    fun id mem => grown (fine.grounded.deferred id mem)⟩, fun p mem => grown (fine.old p mem),
    fun p mem => (links.settled_iff p.1).mpr (fine.held p mem), ?_⟩
  exact fine.resolved.keep fine.grounded.sound links keeps within (fun p mem => .inl mem) fun p mem _ _ => mem

theorem attach (fine : Fine s o h) (isOpen : (parent, depth) ∈ o) (e : Element) : Fine (attach parent e s) o h := by
  have mem : s.tree.target parent ∈ [parent] := by
    rw [(fine.held _ isOpen).target_eq]
    exact List.mem_singleton_self _
  refine fine.work (.append s.tree parent e) (.append s.tree parent e mem) fun id mem => ?_
  cases List.mem_singleton.mp mem
  exact ⟨depth, isOpen⟩

theorem clear (fine : Fine s o h) (isOpen : (parent, depth) ∈ o) :
    Fine { s with tree := s.tree.clear parent } o h := by
  have mem : s.tree.target parent ∈ [parent] := by
    rw [(fine.held _ isOpen).target_eq]
    exact List.mem_singleton_self _
  refine fine.work (.clear s.tree parent) (.clear s.tree parent mem) fun id mem => ?_
  cases List.mem_singleton.mp mem
  exact ⟨depth, isOpen⟩

theorem noteElse (fine : Fine s o h) (id : NodeId) : Fine (noteElse id s) o h :=
  fine.work (.update s.tree id _ fun _ => rfl) (continues_noteElse id s []).keeps fun id mem => by cases mem

/-- A new node comes, open or not. -/
theorem withNode (fine : Fine s o h) (settled : n.standsFor = none)
    (opened : ∀ p ∈ o', p ∈ o ∨ p.1 = ⟨s.tree.size⟩) (stays : ∀ p ∈ o, p ∈ o') : Fine (withNode s n) o' h := by
  have links : s.tree.SameLinks (Compile.withNode s n).tree := .push settled s.tree
  have keeps := (continues_withNode s n []).keeps
  have new : (Compile.withNode s n).tree.Settled ⟨s.tree.size⟩ := by
    unfold Tree.Settled
    rw [own_withNode]
    exact settled
  refine ⟨fine.grounded.withNode settled, fun p mem => ?_, fun p mem => ?_, ?_⟩
  · rcases opened p mem with mem | same
    · exact Nat.lt_of_lt_of_le (fine.old p mem) keeps.grown
    · rw [same]
      exact new_lt s n
  · rcases opened p mem with mem | same
    · exact (links.settled_iff p.1).mpr (fine.held p mem)
    · rw [same]
      exact new
  · refine fine.resolved.keep fine.grounded.sound links keeps (fun id mem => by cases mem) (fun p mem => ?_)
      fun p mem _ _ => stays p mem
    exact (opened p mem).imp_right fun same => Nat.le_of_eq (congrArg NodeId.index same).symm

/-- Nodes close that are not for blocks in place. -/
theorem close (fine : Fine s o h) (sub : ∀ p ∈ o', p ∈ o)
    (stays : ∀ p ∈ o, (s.tree.own p.1).tag = "block" → (s.tree.own p.1).isRoot = false → p ∈ o') : Fine s o' h := by
  refine ⟨fine.grounded, fun p mem => fine.old p (sub p mem), fun p mem => fine.held p (sub p mem), ?_⟩
  exact fine.resolved.keep fine.grounded.sound (.refl _) (.refl _ []) (fun id mem => by cases mem)
    (fun p mem => .inl (sub p mem)) stays

theorem noted (fine : Fine s o h) {more : List BlockEvent}
    (plain : ∀ e ∈ more, ∃ tag block around, e = .opened tag block around) : Fine s o (h ++ more) :=
  ⟨fine.grounded, fine.old, fine.held, fine.resolved.noted plain⟩

/-- A new block opens. -/
theorem blockOpened (fine : Fine s o h) (settled : n.standsFor = none) (tag : n.tag = "block")
    (inner : n.isRoot = false) (opened : ∀ p ∈ o', p ∈ o ∨ p.1 = ⟨s.tree.size⟩) (stays : ∀ p ∈ o, p ∈ o')
    (stands : (⟨s.tree.size⟩, s.frames.length) ∈ o') : Fine (blockOpened n s) o' h := by
  have nested := fine.withNode settled opened stays
  have own := own_withNode s n
  have grounded := fine.grounded.blockOpened settled
  unfold Compile.blockOpened at grounded ⊢
  split at grounded
  · rename_i unknown
    refine ⟨grounded, nested.old, nested.held, nested.resolved.declare unknown stands (new_lt s n)
      (nested.held _ stands) ?_ ?_ ?_⟩
    · rw [own, tag]
    · rw [own, inner]
    · rw [own]
  · exact nested

/-- A reference to a block comes. -/
theorem putblockPlaced (fine : Fine s o h) (settled : n.standsFor = none) :
    Fine (putblockPlaced n s) o (h ++ [.used (n.param "id") ⟨s.tree.size⟩]) := by
  have placed : Fine (Compile.withNode s n) o h := fine.withNode settled (fun p mem => .inl mem) fun p mem => mem
  have unseen : Unseen s.blocks o h ⟨s.tree.size⟩ := fine.unseen (Nat.le_refl _)
  have own := own_withNode s n
  have new : (Compile.withNode s n).tree.Settled ⟨s.tree.size⟩ := by
    unfold Tree.Settled
    rw [own]
    exact settled
  have param : ((Compile.withNode s n).tree.own ⟨s.tree.size⟩).param "id" = n.param "id" := by rw [own]
  have grounded := fine.grounded.putblockPlaced settled
  unfold Compile.putblockPlaced at grounded ⊢
  split at grounded
  · exact ⟨grounded, placed.old, placed.held, placed.resolved.await unseen (new_lt s n) new param⟩
  · rename_i b known
    refine ⟨grounded, fun p mem => ?_, fun p mem => (placed.held p mem).redirect fun same => ?_,
      placed.resolved.link placed.grounded.sound unseen (new_lt s n) new param known⟩
    · show _ < ((Compile.withNode s n).tree.redirect _ _).size
      rw [Tree.size_redirect]
      exact placed.old p mem
    · rw [new.target_eq] at same
      exact unseen.shut p.2 (same ▸ mem)

/-! ##### Definitions -/

section Definitions

variable (fine : Fine s ((top, s.frames.length) :: o) h)

include fine

theorem waits : top ∉ s.deferred := by
  intro mem
  obtain ⟨-, ⟨block, used⟩, -⟩ := fine.resolved.waiting top mem
  exact (fine.resolved.referred block top used).shut _ List.mem_cons_self

omit fine in
/-- Whatever else is open stays open. -/
theorem stay : ∀ p ∈ (top, depth) :: o, p.1 ≠ top → p ∈ o := by
  intro p mem other
  rcases List.mem_cons.mp mem with rfl | mem
  · exact absurd rfl other
  · exact mem

/-- A block that is known is either closed or open further out, if the top is not that block itself. -/
theorem closed_or_outer {block : String} {b : Block} (known : Keyed.get? block s.blocks = some b)
    (other : b.node ≠ top) : (∀ depth, (b.node, depth) ∉ (top, s.frames.length) :: o) ∨
      (b.node, b.depth) ∈ o ∧ (s.tree.own b.node).tag = "block" := by
  cases fine.resolved.current block b known with
  | won wins depth holds closed => exact .inl closed
  | awaited stands tag inner deeper =>
    rcases List.mem_cons.mp stands with same | mem
    · exact absurd (congrArg Prod.fst same) other
    · exact .inr ⟨mem, tag⟩

/-- A block that is known by the top, while the top is open, waits there for a definition no deeper than all others. -/
theorem known_top (shut : ∀ depth, (top, depth) ∉ o) {block : String} {b : Block}
    (known : Keyed.get? block s.blocks = some b) (same : b.node = top) :
    (s.tree.own top).tag = "block" ∧ b.depth = s.frames.length ∧
      ∀ d ∈ definitions block h, s.frames.length ≤ d.depth := by
  cases fine.resolved.current block b known with
  | won wins depth holds closed =>
    rw [same] at closed
    exact absurd List.mem_cons_self (closed s.frames.length)
  | awaited stands tag inner deeper =>
    rw [same] at stands tag
    rcases List.mem_cons.mp stands with here | mem
    · have level : b.depth = s.frames.length := congrArg Prod.snd here
      refine ⟨tag, level, fun d mem => ?_⟩
      have lt := deeper d mem
      omega
    · exact absurd mem (shut _)

/-- A block at least as deep as the top, and not open there under the name of the top, is closed. -/
theorem shut_of_deep (alone : ∀ id depth, (id, depth) ∈ o → s.frames.length ≤ depth → (s.tree.own id).tag = "block" →
      (s.tree.own id).param "id" ≠ (s.tree.own top).param "id") {b : Block}
    (known : Keyed.get? ((s.tree.own top).param "id") s.blocks = some b) (other : b.node ≠ top)
    (deep : s.frames.length ≤ b.depth) : ∀ depth, (b.node, depth) ∉ (top, s.frames.length) :: o := by
  rcases fine.closed_or_outer known other with closed | ⟨mem, tag⟩
  · exact closed
  · exact absurd (fine.resolved.param _ b known) (alone b.node b.depth mem deep tag)

theorem blockClosed (shut : ∀ depth, (top, depth) ∉ o) (tag : (s.tree.own top).tag = "block")
    (bare : (s.tree.own top).opening = "" ∧ (s.tree.own top).closing = "")
    (alone : ∀ id depth, (id, depth) ∈ o → s.frames.length ≤ depth → (s.tree.own id).tag = "block" →
      (s.tree.own id).param "id" ≠ (s.tree.own top).param "id") :
    Fine (blockClosed top s) o (h ++ [.defined
      ⟨(s.tree.own top).param "id", s.frames.length, top, true, (s.tree.own top).body⟩]) := by
  have r := fine.resolved
  have old : top.index < s.tree.size := fine.old _ List.mem_cons_self
  have site : Resolved.Site s.tree s.blocks s.deferred ((top, s.frames.length) :: o) o
      ⟨(s.tree.own top).param "id", s.frames.length, top, true, (s.tree.own top).body⟩ :=
    ⟨fun p mem => List.mem_cons_of_mem _ mem, stay, shut, old, rfl, fun h => by cases h⟩
  have hold : Holder s ((top, s.frames.length) :: o) o h
      ⟨(s.tree.own top).param "id", s.frames.length, top, true, (s.tree.own top).body⟩ top := by
    constructor
    case old => exact old
    case settled => exact fine.held _ List.mem_cons_self
    case param => rfl
    case holds =>
      refine ⟨bare.1, rfl, bare.2, fun name => ?_⟩
      unfold Node.tag at tag
      rw [name] at tag
      simp at tag
    case shut => exact shut
    case waits => exact fine.waits
    case other =>
      intro d mem inPlace same
      have closed := (r.placed d mem).shut s.frames.length
      rw [same] at closed
      exact closed List.mem_cons_self
    case here => exact fun _ => rfl
    case apart => exact fun h => by cases h
    case own => exact fun b known same => (fine.known_top shut known same).2
    case high => exact fun b known other deep => fine.shut_of_deep alone known other deep
  obtain ⟨resolved, held⟩ := r.settle fine.grounded.sound site rfl hold
  refine ⟨fine.grounded.blockClosed old, fun p mem => ?_, fun p mem => ?_, resolved⟩
  · exact Nat.lt_of_lt_of_le (fine.old p (List.mem_cons_of_mem _ mem)) (continues_blockClosed top s []).keeps.grown
  · exact held p.1 (fine.held p (List.mem_cons_of_mem _ mem)) (fun same => shut p.2 (same ▸ mem))
      ⟨p.2, List.mem_cons_of_mem _ mem⟩

/-- The content of a definition moves to a node of its own. -/
theorem movedOut :
    Fine { s with tree := movedOut top s.tree } ((top, s.frames.length) :: o) h ∧
      (Compile.movedOut top s.tree).own ⟨s.tree.size⟩ = bodyNode top s ∧
      (Compile.movedOut top s.tree).own top =
        { s.tree.own top with opening := "", body := [], closing := "" } := by
  have old : top.index < s.tree.size := fine.old _ List.mem_cons_self
  have copied : Fine (Compile.withNode s (bodyNode top s)) ((top, s.frames.length) :: o) h :=
    fine.withNode rfl (fun p mem => .inl mem) fun p mem => mem
  exact ⟨copied.clear List.mem_cons_self, own_movedOut (fine.held _ List.mem_cons_self) old⟩

theorem blockdefClosed (shut : ∀ depth, (top, depth) ∉ o) (tag : (s.tree.own top).tag = "blockdef")
    (bare : (s.tree.own top).opening = "" ∧ (s.tree.own top).closing = "")
    (alone : ∀ id depth, (id, depth) ∈ o → s.frames.length ≤ depth → (s.tree.own id).tag = "block" →
      (s.tree.own id).param "id" ≠ (s.tree.own top).param "id") :
    Fine (blockdefClosed top s) o (h ++ [.defined
      ⟨(s.tree.own top).param "id", s.frames.length, top, false, (s.tree.own top).body⟩]) := by
  obtain ⟨moved, holder, left⟩ := fine.movedOut
  have r := moved.resolved
  have old : top.index < s.tree.size := fine.old _ List.mem_cons_self
  have content : s.tree.content top = s.tree.own top := by
    unfold Tree.content
    rw [(fine.held _ List.mem_cons_self).target_eq]
  have keeps : s.tree.Keeps (Compile.movedOut top s.tree) [top] := by
    have keeps := (Tree.Keeps.push s.tree (bodyNode top s) [top]).trans
      (.clear (Compile.withNode s (bodyNode top s)).tree top ?_)
    · exact keeps
    · have links : s.tree.SameLinks (Compile.withNode s (bodyNode top s)).tree := .push rfl s.tree
      rw [links.target_eq fine.grounded.sound, (fine.held _ List.mem_cons_self).target_eq]
      exact List.mem_singleton_self _
  have unseen : Unseen s.blocks ((top, s.frames.length) :: o) h ⟨s.tree.size⟩ := fine.unseen (Nat.le_refl _)
  have apart : top ≠ ⟨s.tree.size⟩ := fun same => by
    rw [same] at old
    exact Nat.lt_irrefl _ old
  have name : (s.tree.own top).name ≠ some "t" := fun name => by
    unfold Node.tag at tag
    rw [name] at tag
    simp at tag
  -- An open definition is not known before it closes.
  have unknown : ∀ block b, Keyed.get? block s.blocks = some b → b.node ≠ top := by
    intro block b known same
    have isBlock := (fine.known_top shut known same).1
    rw [tag] at isBlock
    simp at isBlock
  have own : (Compile.movedOut top s.tree).own ⟨s.tree.size⟩ = { s.tree.own top with standsFor := none } := by
    rw [holder, bodyNode, content]
  have site : Resolved.Site (Compile.movedOut top s.tree) s.blocks s.deferred ((top, s.frames.length) :: o) o
      ⟨(s.tree.own top).param "id", s.frames.length, top, false, (s.tree.own top).body⟩ := by
    refine ⟨fun p mem => List.mem_cons_of_mem _ mem, stay, shut, moved.old _ List.mem_cons_self, ?_,
      fun _ => ⟨moved.held _ List.mem_cons_self, ?_, fine.waits, unknown⟩⟩
    · rw [left]
      rfl
    · exact ⟨by rw [left], by rw [left], by rw [left], by rw [left]; exact name⟩
  have hold : Holder { s with tree := Compile.movedOut top s.tree } ((top, s.frames.length) :: o) o h
      ⟨(s.tree.own top).param "id", s.frames.length, top, false, (s.tree.own top).body⟩ ⟨s.tree.size⟩ := by
    constructor
    case old => exact Nat.lt_of_lt_of_le (new_lt s (bodyNode top s)) (Nat.le_of_eq (Tree.size_update ..).symm)
    case settled => exact congrArg Node.standsFor own
    case param => exact congrArg (·.param "id") own
    case holds =>
      exact ⟨(congrArg Node.opening own).trans bare.1, (congrArg Node.body own).trans rfl,
        (congrArg Node.closing own).trans bare.2, fun h => name ((congrArg Node.name own).symm.trans h)⟩
    case shut => exact fun depth mem => unseen.shut depth (List.mem_cons_of_mem _ mem)
    case waits =>
      intro mem
      obtain ⟨-, ⟨block, used⟩, -⟩ := fine.resolved.waiting _ mem
      exact unseen.reference block _ used rfl
    case other => exact fun d mem _ => unseen.site d mem
    case here => exact fun h => by cases h
    case apart => exact fun _ => apart
    case own => exact fun b known same => absurd same (unseen.block _ b known)
    case high => exact fun b known _ deep => fine.shut_of_deep alone known (unknown _ b known) deep
  obtain ⟨resolved, held⟩ := r.settle moved.grounded.sound site rfl hold
  have same := blockdefClosed_eq top s fine.grounded.blocks
  have size : s.tree.size ≤ (Compile.blockdefClosed top s).tree.size := by
    have goes : Continues s (Compile.blockdefClosed top s) [(Compile.withNode s (bodyNode top s)).tree.target top] :=
      continues_blockdefClosed top s (List.mem_singleton_self _)
    exact goes.keeps.grown
  refine ⟨fine.grounded.blockdefClosed top, fun p mem => ?_, fun p mem => ?_, ?_⟩
  · exact Nat.lt_of_lt_of_le (fine.old p (List.mem_cons_of_mem _ mem)) size
  · rw [same]
    exact held p.1 (moved.held p (List.mem_cons_of_mem _ mem))
      (fun same => unseen.shut p.2 (same ▸ List.mem_cons_of_mem _ mem)) ⟨p.2, List.mem_cons_of_mem _ mem⟩
  · rw [same]
    exact resolved

end Definitions

end Fine

/-! ##### All pieces -/

theorem ofPiece_open {head : Markup.Head} (kind : token.kind = .openTag)
    (parsed : Markup.Head.parse token.content = .ok head) :
    BlockEvent.ofPiece token stack s =
      if head.name ∈ ["block", "blockdef", "addblock"] then [.opened head.name head.block (s.tree.openBlocks stack)]
      else if head.name = "putblock" then [.used head.block ⟨s.tree.size⟩]
      else [] := by
  unfold BlockEvent.ofPiece
  rw [kind, parsed]

theorem ofPiece_opened {head : Markup.Head} (kind : token.kind = .openTag)
    (parsed : Markup.Head.parse token.content = .ok head) (other : head.name ≠ "putblock") :
    ∀ e ∈ BlockEvent.ofPiece token stack s, ∃ tag block around, e = .opened tag block around := by
  intro e mem
  rw [ofPiece_open kind parsed] at mem
  by_cases block : head.name ∈ ["block", "blockdef", "addblock"]
  · rw [if_pos block] at mem
    exact ⟨_, _, _, List.mem_singleton.mp mem⟩
  · rw [if_neg block, if_neg other] at mem
    cases mem

theorem ofPiece_close (kind : token.kind = .closeTag) :
    BlockEvent.ofPiece token (top :: below) s =
      if (s.tree.own top).tag = "block" then
        [.defined ⟨(s.tree.own top).param "id", s.frames.length, top, true, (s.tree.own top).body⟩]
      else if (s.tree.own top).tag = "blockdef" then
        [.defined ⟨(s.tree.own top).param "id", s.frames.length, top, false, (s.tree.own top).body⟩]
      else [] := by
  unfold BlockEvent.ofPiece
  rw [kind]

theorem openBlocks_cons (t : Tree) (id : NodeId) (rest : List NodeId) :
    t.openBlocks (id :: rest) =
      if (t.own id).tag ∈ ["block", "blockdef"] then (t.own id).param "id" :: t.openBlocks rest
      else t.openBlocks rest := by
  unfold Tree.openBlocks
  by_cases tag : (t.own id).tag ∈ ["block", "blockdef"]
  · rw [List.filterMap_cons, if_pos tag, if_pos tag]
  · rw [List.filterMap_cons, if_neg tag, if_neg tag]

/-- A block that is open further out in the same source has another name. -/
theorem openBlocks_apart {id : NodeId} (distinct : (t.openBlocks (top :: below)).Nodup)
    (tag : (t.own top).tag ∈ ["block", "blockdef"]) (mem : id ∈ below) (tag' : (t.own id).tag = "block") :
    (t.own id).param "id" ≠ (t.own top).param "id" := by
  rw [openBlocks_cons, if_pos tag] at distinct
  intro same
  refine (List.nodup_cons.mp distinct).1 ?_
  unfold Tree.openBlocks
  rw [List.mem_filterMap]
  exact ⟨id, mem, by rw [if_pos (by rw [tag']; simp), same]⟩

/-- What is no tag leaves no event. -/
theorem ofPiece_untagged (opens : token.kind ≠ .openTag) (closes : token.kind ≠ .closeTag) :
    BlockEvent.ofPiece token stack s = [] := by
  unfold BlockEvent.ofPiece
  split
  · exact absurd ‹_› opens
  · exact absurd ‹_› closes
  · rfl

namespace Consistent

section Closing

variable {frame : Frame} {tokens : List Markup.Token} {outer : List Sheet}
  (consistent : Consistent ⟨s, ⟨frame, token :: tokens, top :: below⟩ :: outer, h⟩)

include consistent

theorem closing : Fine s ((top, s.frames.length) :: opens (⟨frame, tokens, below⟩ :: outer)) h := by
  rw [← consistent.top_depth]
  exact consistent.fine

/-- The top is open once. -/
theorem top_shut (depth : Nat) : (top, depth) ∉ opens (⟨frame, tokens, below⟩ :: outer) := by
  intro mem
  have apart := consistent.apart
  rw [opens_fst] at apart
  refine (List.nodup_cons.mp apart).1 ?_
  have there := List.mem_map_of_mem (f := Prod.fst) mem
  rw [opens_fst] at there
  exact there

/-- No block of the name of the top is open as deep as the top. -/
theorem top_alone (tag : (s.tree.own top).tag ∈ ["block", "blockdef"]) (id : NodeId) (depth : Nat)
    (mem : (id, depth) ∈ opens (⟨frame, tokens, below⟩ :: outer)) (deep : s.frames.length ≤ depth)
    (tag' : (s.tree.own id).tag = "block") : (s.tree.own id).param "id" ≠ (s.tree.own top).param "id" := by
  rw [← consistent.top_depth] at deep
  exact openBlocks_apart (consistent.distinct _ List.mem_cons_self) tag (mem_stack_of_deepest mem deep).1 tag'

end Closing

end Consistent

theorem effect_fine {frame : Frame} {tokens : List Markup.Token} {outer : List Sheet}
    (consistent : Consistent ⟨s, ⟨frame, token :: tokens, top :: below⟩ :: outer, h⟩)
    (effect : Effect s frame.name top below token s' stack)
    (unadded : Unadded (BlockEvent.ofPiece token (top :: below) s)) :
    Fine s' (opens (⟨frame, tokens, stack⟩ :: outer)) (h ++ BlockEvent.ofPiece token (top :: below) s) := by
  have fine : Fine s (opens (⟨frame, tokens, top :: below⟩ :: outer)) h := consistent.fine
  have isOpen : (top, outer.length + 1) ∈ opens (⟨frame, tokens, top :: below⟩ :: outer) := mem_opens_top
  have opened : ∀ p ∈ opens (⟨frame, tokens, ⟨s.tree.size⟩ :: top :: below⟩ :: outer),
      p ∈ opens (⟨frame, tokens, top :: below⟩ :: outer) ∨ p.1 = ⟨s.tree.size⟩ := by
    intro p mem
    rcases List.mem_cons.mp mem with rfl | mem
    · exact .inr rfl
    · exact .inl mem
  have stays : ∀ p ∈ opens (⟨frame, tokens, top :: below⟩ :: outer),
      p ∈ opens (⟨frame, tokens, ⟨s.tree.size⟩ :: top :: below⟩ :: outer) := fun p mem => List.mem_cons_of_mem _ mem
  have closing := consistent.closing
  have bare : (s.tree.own top).tag ∈ ["block", "blockdef"] →
      (s.tree.own top).opening = "" ∧ (s.tree.own top).closing = "" := consistent.bare _ isOpen
  cases effect with
  | text kind =>
    rw [ofPiece_untagged (by rw [kind]; simp) (by rw [kind]; simp), List.append_nil]
    exact fine.attach isOpen _
  | printed kind =>
    rw [ofPiece_untagged (by rw [kind]; simp) (by rw [kind]; simp), List.append_nil]
    exact (fine.withNode rfl (fun p mem => .inl mem) fun p mem => mem).attach isOpen _
  | nested kind parsed tag checked steps =>
    rename_i head params
    refine (fine.withNode rfl opened stays).noted (ofPiece_opened kind parsed fun same => ?_)
    rw [same] at tag
    simp at tag
  | localized kind parsed tag =>
    refine (fine.withNode rfl opened stays).noted (ofPiece_opened kind parsed fun same => ?_)
    rw [same] at tag
    simp at tag
  | block kind parsed tag checked =>
    refine (fine.blockOpened (n := Node.opened frame.name token.line top _ true) rfl tag rfl opened stays ?_).noted
      (ofPiece_opened kind parsed fun same => ?_)
    · rw [← consistent.top_depth]
      exact mem_opens_top
    · rw [same] at tag
      simp at tag
  | elseIf kind parsed tag checked inside early =>
    refine ((fine.withNode rfl (fun p mem => .inl mem) fun p mem => mem).attach isOpen _).noted
      (ofPiece_opened kind parsed fun same => ?_)
    rw [same] at tag
    simp at tag
  | otherwise kind parsed tag checked inside early =>
    refine (((fine.withNode rfl (fun p mem => .inl mem) fun p mem => mem).noteElse top).attach isOpen _).noted
      (ofPiece_opened kind parsed fun same => ?_)
    rw [same] at tag
    simp at tag
  | putblock kind parsed tag checked =>
    rw [ofPiece_open kind parsed, tag, if_neg (by simp), if_pos rfl]
    exact (fine.putblockPlaced rfl).attach isOpen _
  | adding kind parsed tag checked placed =>
    rw [ofPiece_opens kind parsed (by rw [tag]; simp)] at unadded
    exact absurd tag (unadded _ _ _ (List.mem_singleton_self _))
  | closed kind nested inner other =>
    subst nested
    rename_i parent under
    have isOpen' : (parent, outer.length + 1) ∈ opens (⟨frame, tokens, parent :: under⟩ :: outer) := mem_opens_top
    have none : ∀ tag ∈ ["block", "blockdef"], (s.tree.own top).tag ≠ tag := by
      intro tag mem same
      apply other
      rw [same]
      simp only [List.mem_cons, List.not_mem_nil, or_false] at mem
      rcases mem with rfl | rfl <;> simp
    rw [ofPiece_close kind, if_neg (none _ (by simp)), if_neg (none _ (by simp)), List.append_nil]
    refine (fine.close (fun p mem => List.mem_cons_of_mem _ mem) fun p mem tag _ => ?_).attach isOpen' _
    rcases List.mem_cons.mp mem with rfl | mem
    · exact absurd tag (none _ (by simp))
    · exact mem
  | closedBlock kind nested inner tag =>
    subst nested
    rename_i parent under
    have isOpen' : (parent, outer.length + 1) ∈ opens (⟨frame, tokens, parent :: under⟩ :: outer) := mem_opens_top
    rw [ofPiece_close kind, if_pos tag]
    have among : (s.tree.own top).tag ∈ ["block", "blockdef"] := by rw [tag]; simp
    exact (closing.blockClosed consistent.top_shut tag (bare among) (consistent.top_alone among)).attach isOpen' _
  | closedBlockdef kind nested inner tag =>
    subst nested
    rename_i parent under
    have isOpen' : (parent, outer.length + 1) ∈ opens (⟨frame, tokens, parent :: under⟩ :: outer) := mem_opens_top
    rw [ofPiece_close kind, if_neg (by rw [tag]; simp), if_pos tag]
    have among : (s.tree.own top).tag ∈ ["block", "blockdef"] := by rw [tag]; simp
    exact (closing.blockdefClosed consistent.top_shut tag (bare among) (consistent.top_alone among)).attach isOpen' _
  | closedAdding kind nested inner tag => exact absurd tag (consistent.plain _ isOpen)

/-- A new open node adds to no block. It is bare if it is for a block, and no block of its name is open in the
source. -/
def Fresh (t t' : Tree) (stack stack' : List NodeId) : Prop :=
  stack' = ⟨t.size⟩ :: stack → (t'.own ⟨t.size⟩).tag ≠ "addblock" ∧
    ((t'.own ⟨t.size⟩).tag ∈ ["block", "blockdef"] → (t'.own ⟨t.size⟩).opening = "" ∧ (t'.own ⟨t.size⟩).closing = "" ∧
      (t'.own ⟨t.size⟩).param "id" ∉ t.openBlocks stack)

theorem effect_fresh (effect : Effect s file top below token s' stack)
    (unadded : Unadded (BlockEvent.ofPiece token (top :: below) s))
    (unnested : Unnested (BlockEvent.ofPiece token (top :: below) s)) : Fresh s.tree s'.tree (top :: below) stack := by
  have named : ∀ {head : Markup.Head}, token.kind = .openTag → Markup.Head.parse token.content = .ok head →
      head.name ∈ ["block", "blockdef"] → head.block ∉ s.tree.openBlocks (top :: below) := by
    intro head kind parsed tag
    refine unnested head.name _ _ ?_
    have tag : head.name ∈ ["block", "blockdef", "addblock"] := List.mem_append_left ["addblock"] tag
    rw [ofPiece_opens kind parsed tag]
    exact List.mem_singleton_self _
  cases effect with
  | nested kind parsed tag checked steps =>
    rename_i head params
    intro _
    rw [own_withNode]
    refine ⟨fun same => ?_, fun isBlock => ?_⟩
    · have same : head.name = "addblock" := same
      rw [same] at tag
      simp at tag
    have isBlock : head.name ∈ ["block", "blockdef"] := isBlock
    have name : head.name = "blockdef" := by
      simp only [List.mem_cons, List.not_mem_nil, or_false] at tag isBlock
      rcases isBlock with same | same
      · rw [same] at tag
        simp at tag
      · exact same
    rw [name] at checked
    cases checked_required rfl checked
    have framing : ((Node.opened file token.line top head true).withParams head.params).framing = ("", "") := by
      unfold Node.framing
      rw [show ((Node.opened file token.line top head true).withParams head.params).tag = "blockdef" from name]
      rfl
    unfold tagNode
    refine ⟨congrArg Prod.fst framing, congrArg Prod.snd framing, named kind parsed isBlock⟩
  | localized kind parsed tag =>
    rename_i head
    intro _
    rw [own_withNode]
    refine ⟨fun same => absurd (tag.symm.trans same) (by simp), fun isBlock => ?_⟩
    have isBlock : head.name ∈ ["block", "blockdef"] := isBlock
    rw [tag] at isBlock
    simp at isBlock
  | block kind parsed tag checked =>
    intro _
    rw [own_blockOpened]
    exact ⟨fun same => absurd (tag.symm.trans same) (by simp),
      fun _ => ⟨rfl, rfl, named kind parsed (by rw [tag]; simp)⟩⟩
  | adding kind parsed tag checked placed =>
    rw [ofPiece_opens kind parsed (by rw [tag]; simp)] at unadded
    exact absurd tag (unadded _ _ _ (List.mem_singleton_self _))
  | _ =>
    intro same
    have length := congrArg List.length same
    simp only [List.length_cons] at length
    omega

namespace Consistent

variable {frame : Frame} {tokens tokens' : List Markup.Token} {outer sheets : List Sheet} {h' : List BlockEvent}

/-- The innermost source goes on. -/
theorem go (consistent : Consistent ⟨s, ⟨frame, token :: tokens, top :: below⟩ :: outer, h⟩)
    (shaped : Shaped ⟨s', ⟨frame, tokens', stack⟩ :: outer, h'⟩) {touched : List NodeId}
    (goes : Continues s s' touched) (fine : Fine s' (opens (⟨frame, tokens', stack⟩ :: outer)) h')
    (stacked : Stacked s s' top below stack) (fresh : Fresh s.tree s'.tree (top :: below) stack) :
    Consistent ⟨s', ⟨frame, tokens', stack⟩ :: outer, h'⟩ := by
  have old : ∀ p ∈ opens (⟨frame, token :: tokens, top :: below⟩ :: outer), p.1.index < s.tree.size :=
    consistent.fine.old
  have kept : ∀ p ∈ opens (⟨frame, token :: tokens, top :: below⟩ :: outer),
      (s'.tree.own p.1).tag ∈ ["block", "blockdef"] →
        (s'.tree.own p.1).opening = "" ∧ (s'.tree.own p.1).closing = "" := by
    intro p mem tag
    rw [goes.keeps.tag (old p mem)] at tag
    obtain ⟨opening, closing⟩ := consistent.bare p mem tag
    exact goes.keeps.code p.1 (old p mem) opening closing
  have plain : ∀ p ∈ opens (⟨frame, token :: tokens, top :: below⟩ :: outer), (s'.tree.own p.1).tag ≠ "addblock" := by
    intro p mem
    rw [goes.keeps.tag (old p mem)]
    exact consistent.plain p mem
  have same : ∀ sheet ∈ (⟨frame, token :: tokens, top :: below⟩ : Sheet) :: outer,
      (s'.tree.openBlocks sheet.stack).Nodup := by
    intro sheet mem
    rw [openBlocks_keep goes.keeps (consistent.shaped.upright sheet mem).old]
    exact consistent.distinct sheet mem
  have apart : (opens (⟨frame, token :: tokens, top :: below⟩ :: outer)).map Prod.fst |>.Nodup := consistent.apart
  have first := same _ List.mem_cons_self
  have others : ∀ sheet ∈ outer, (s'.tree.openBlocks sheet.stack).Nodup :=
    fun sheet mem => same sheet (List.mem_cons_of_mem _ mem)
  cases stacked with
  | same => exact ⟨shaped, apart, fine.held, plain, kept, List.forall_mem_cons.mpr ⟨first, others⟩, fine.resolved⟩
  | more new inner =>
    refine ⟨shaped, ?_, fine.held, fun p mem => ?_, fun p mem tag => ?_, List.forall_mem_cons.mpr ⟨?_, others⟩,
      fine.resolved⟩
    · rw [opens_fst, List.cons_append, List.nodup_cons]
      rw [opens_fst] at apart
      refine ⟨fun mem => ?_, apart⟩
      have mem : (⟨s.tree.size⟩ : NodeId) ∈ (opens (⟨frame, token :: tokens, top :: below⟩ :: outer)).map Prod.fst := by
        rw [opens_fst]
        exact mem
      obtain ⟨p, mem, same⟩ := List.mem_map.mp mem
      have lt := old p mem
      rw [same] at lt
      exact Nat.lt_irrefl _ lt
    · rcases List.mem_cons.mp mem with rfl | mem
      · exact (fresh rfl).1
      · exact plain p mem
    · rcases List.mem_cons.mp mem with rfl | mem
      · obtain ⟨opening, closing, -⟩ := (fresh rfl).2 tag
        exact ⟨opening, closing⟩
      · exact kept p mem tag
    · rw [openBlocks_cons]
      split
      · rename_i tag
        obtain ⟨-, -, apart⟩ := (fresh rfl).2 tag
        refine List.nodup_cons.mpr ⟨?_, first⟩
        rw [openBlocks_keep goes.keeps (consistent.shaped.upright _ List.mem_cons_self).old]
        exact apart
      · exact first
  | less nested inner =>
    refine ⟨shaped, ?_, fine.held, fun p mem => plain p (List.mem_cons_of_mem _ mem),
      fun p mem => kept p (List.mem_cons_of_mem _ mem), List.forall_mem_cons.mpr ⟨?_, others⟩, fine.resolved⟩
    · rw [opens_fst] at apart ⊢
      exact (List.nodup_cons.mp apart).2
    · rw [openBlocks_cons] at first
      split at first
      · exact (List.nodup_cons.mp first).2
      · exact first

theorem put (standard : c.table = standardTable)
    (consistent : Consistent ⟨s, ⟨frame, token :: tokens, stack⟩ :: outer, h⟩) {stack' : List NodeId}
    (reads : stack = [] ∨ token.reading? = none)
    (run : Compile.put c.table noLoad frame.name stack token s = (.ok stack', s'))
    (unadded : Unadded (BlockEvent.ofPiece token stack s)) (unnested : Unnested (BlockEvent.ofPiece token stack s)) :
    Consistent ⟨s', ⟨frame, tokens, stack'⟩ :: outer, h ++ BlockEvent.ofPiece token stack s⟩ := by
  have upright : Upright s.tree stack := consistent.shaped.upright _ List.mem_cons_self
  have shaped : Shaped ⟨s', ⟨frame, tokens, stack'⟩ :: outer, h ++ BlockEvent.ofPiece token stack s⟩ :=
    consistent.shaped.put standard reads run
  cases stack with
  | nil => exact absurd rfl upright.ne_nil
  | cons top below =>
    have old := upright.old top List.mem_cons_self
    rw [standard] at run
    have effect := put_effect old upright.bottom (reads.resolve_left fun h => by cases h) run
    obtain ⟨-, ⟨touched, goes⟩, stacked⟩ := effect_shape effect consistent.shaped.grounded old
    exact consistent.go shaped goes (effect_fine consistent effect unadded) stacked
      (effect_fresh effect unadded unnested)

theorem world (consistent : Consistent ⟨s, sheets, h⟩) (w : W) : Consistent ⟨{ s with world := w }, sheets, h⟩ :=
  ⟨consistent.shaped.world w, consistent.apart, consistent.held, consistent.plain, consistent.bare, consistent.distinct,
    consistent.resolved⟩

/-- A tag that has a template read opens. -/
theorem refer {head : Markup.Head} (consistent : Consistent ⟨s, ⟨frame, token :: tokens, top :: below⟩ :: outer, h⟩)
    (reads : token.reading? = some head) :
    Consistent ⟨referring frame.name token.line top head s,
      ⟨frame, token :: tokens, ⟨s.tree.size⟩ :: top :: below⟩ :: outer, h⟩ := by
  obtain ⟨shaped, waits⟩ := consistent.shaped.refer reads
  have fine : Fine s (opens (⟨frame, token :: tokens, top :: below⟩ :: outer)) h := consistent.fine
  have fine' : Fine (referring frame.name token.line top head s)
      (opens (⟨frame, token :: tokens, ⟨s.tree.size⟩ :: top :: below⟩ :: outer)) h := by
    refine fine.withNode rfl (fun p mem => ?_) fun p mem => List.mem_cons_of_mem _ mem
    rcases List.mem_cons.mp mem with rfl | mem
    · exact .inr rfl
    · exact .inl mem
  have own : (referring frame.name token.line top head s).tree.own ⟨s.tree.size⟩ =
      Node.opened frame.name token.line top head false := own_withNode s _
  obtain ⟨-, -, either⟩ := of_reading reads
  have tag : ∀ tag ∈ ["block", "blockdef", "addblock"], head.name ≠ tag := by
    intro tag mem same
    rw [← same] at mem
    rcases either with name | name <;> rw [name] at mem <;> simp at mem
  have goes := continues_withNode s (Node.opened frame.name token.line top head false) []
  refine consistent.go shaped goes fine' (.more (new_lt s _) (congrArg Node.isRoot own))
    fun _ => ⟨fun same => ?_, fun isBlock => ?_⟩
  · exact tag _ (by simp) ((congrArg Node.tag own).symm.trans same)
  · exact absurd rfl (tag head.name (List.mem_append_left ["addblock"] ((congrArg Node.tag own) ▸ isBlock)))

/-- A tag that had a template read goes on with its root. -/
theorem resume {id : NodeId} {head : Markup.Head}
    (consistent : Consistent ⟨s, ⟨frame, token :: tokens, id :: top :: below⟩ :: outer, h⟩)
    (reads : token.reading? = some head) (waits : Waiting s.tree ⟨frame, token :: tokens, id :: top :: below⟩)
    (root : NodeId) :
    Consistent ⟨(settled id top below (received head id root s)).2,
      ⟨frame, tokens, (settled id top below (received head id root s)).1⟩ :: outer, h⟩ := by
  have shaped := consistent.shaped.resume waits.stands head root
  have fine : Fine s (opens (⟨frame, token :: tokens, id :: top :: below⟩ :: outer)) h := consistent.fine
  have upright : Upright s.tree (id :: top :: below) := consistent.shaped.upright _ List.mem_cons_self
  have old := upright.old id List.mem_cons_self
  have goes : Continues s (received head id root s)
      [s.tree.target id, (s.tree.clear id).target id, (received head id root s).tree.target top] :=
    continues_received head id root s (by simp) (by simp)
  have joins : Continues (received head id root s) (attach top (.node id) (received head id root s))
      [s.tree.target id, (s.tree.clear id).target id, (received head id root s).tree.target top] :=
    continues_attach _ (.node id) (by simp)
  rw [settled_received old waits.stands] at shaped ⊢
  have fine₁ : Fine (received head id root s) (opens (⟨frame, token :: tokens, id :: top :: below⟩ :: outer)) h := by
    unfold received
    split
    · exact ⟨⟨fine.grounded.sound, fine.grounded.blocks, fine.grounded.deferred⟩, fine.old, fine.held, fine.resolved⟩
    · exact (fine.clear mem_opens_top).attach mem_opens_top _
  have tag : ((received head id root s).tree.own id).tag ≠ "block" := by
    obtain ⟨-, -, either⟩ := of_reading reads
    obtain ⟨token', tokens', head', id', top', below', same, reads', stack, name, -⟩ := waits
    cases stack
    cases same
    cases reads.symm.trans reads'
    rw [goes.keeps.tag old]
    unfold Node.tag
    rw [name]
    rcases either with same | same <;> show head.name ≠ "block" <;> rw [same] <;> simp
  have fine₂ : Fine (received head id root s) (opens (⟨frame, tokens, top :: below⟩ :: outer)) h := by
    refine fine₁.close (fun p mem => List.mem_cons_of_mem _ mem) fun p mem isBlock _ => ?_
    rcases List.mem_cons.mp mem with rfl | mem
    · exact absurd isBlock tag
    · exact mem
  have inner : (s.tree.own id).isRoot = false := by
    obtain ⟨above, root, same, -, rest⟩ := upright.rooted
    cases above with
    | nil => cases same
    | cons first above =>
      obtain ⟨rfl, -⟩ := List.cons.inj same
      exact rest _ List.mem_cons_self
  refine consistent.go shaped (goes.trans joins) (fine₂.attach mem_opens_top _) (.less rfl inner) fun same => ?_
  have length := congrArg List.length same
  simp only [List.length_cons] at length
  omega

/-- Another source is entered while this one waits. -/
theorem enter {sheet : Sheet} (consistent : Consistent ⟨s, sheets, h⟩)
    (waits : ∀ first ∈ sheets.head?, Waiting s.tree first) (laid : Laid s sheet s') :
    Consistent ⟨s', sheet :: sheets, h⟩ := by
  have shaped := consistent.shaped.enter waits laid
  obtain ⟨stack, name, w, sources, rfl⟩ := laid
  have goes := (continues_withNode s (rootNode name) []).keeps
  have own := own_withNode s (rootNode name)
  have fine : Fine s (opens sheets) h := consistent.fine
  have all : opens (sheet :: sheets) = (⟨s.tree.size⟩, sheets.length + 1) :: opens sheets := by
    rw [opens_cons, stack]
    rfl
  have bare : ((withNode s (rootNode name)).tree.own ⟨s.tree.size⟩).tag ∉ ["block", "blockdef"] := by
    rw [own]
    simp [Node.tag, rootNode, Node.fresh]
  have fine' : Fine (withNode s (rootNode name)) (opens (sheet :: sheets)) h := by
    rw [all]
    refine fine.withNode rfl (fun p mem => ?_) fun p mem => List.mem_cons_of_mem _ mem
    rcases List.mem_cons.mp mem with rfl | mem
    · exact .inr rfl
    · exact .inl mem
  refine ⟨shaped, ?_, fine'.held, fun p mem => ?_, fun p mem tag => ?_,
    List.forall_mem_cons.mpr ⟨?_, fun other mem => ?_⟩, fine'.resolved⟩
  · rw [all, List.map_cons, List.nodup_cons]
    refine ⟨fun mem => ?_, consistent.apart⟩
    obtain ⟨p, mem, same⟩ := List.mem_map.mp mem
    have lt := fine.old p mem
    rw [same] at lt
    exact Nat.lt_irrefl _ lt
  · rw [all] at mem
    rcases List.mem_cons.mp mem with rfl | mem
    · exact fun same => absurd ((congrArg Node.tag own).symm.trans same) (by simp [Node.tag, rootNode, Node.fresh])
    · exact fun same => consistent.plain p mem ((goes.tag (fine.old p mem)).symm.trans same)
  · rw [all] at mem
    rcases List.mem_cons.mp mem with rfl | mem
    · exact absurd tag bare
    · have old := fine.old p mem
      have tag : (s.tree.own p.1).tag ∈ ["block", "blockdef"] := (goes.tag old) ▸ tag
      obtain ⟨opening, closing⟩ := consistent.bare p mem tag
      exact goes.code p.1 old opening closing
  · show ((withNode s (rootNode name)).tree.openBlocks sheet.stack).Nodup
    rw [stack, openBlocks_cons, if_neg bare]
    exact List.nodup_nil
  · show ((withNode s (rootNode name)).tree.openBlocks other.stack).Nodup
    rw [openBlocks_keep goes (consistent.shaped.upright other mem).old]
    exact consistent.distinct other mem

theorem leave {sheet : Sheet} (consistent : Consistent ⟨s, sheet :: sheets, h⟩) (finished : Finished sheet s) :
    Consistent ⟨left sheet s, sheets, h⟩ := by
  obtain ⟨root, stack, isRoot⟩ := finished_stack (consistent.shaped.upright _ List.mem_cons_self) finished
  have fine : Fine s (opens (sheet :: sheets)) h := consistent.fine
  have all : opens (sheet :: sheets) = (root, sheets.length + 1) :: opens sheets := by
    rw [opens_cons, stack]
    rfl
  have fine' : Fine s (opens sheets) h := by
    rw [all] at fine
    refine fine.close (fun p mem => List.mem_cons_of_mem _ mem) fun p mem _ inner => ?_
    rcases List.mem_cons.mp mem with rfl | mem
    · rw [isRoot] at inner
      cases inner
    · exact mem
  have apart : ((opens (sheet :: sheets)).map Prod.fst).Nodup := consistent.apart
  rw [all] at apart
  have outer : ∀ p ∈ opens sheets, p ∈ opens (sheet :: sheets) := by
    intro p mem
    rw [all]
    exact List.mem_cons_of_mem _ mem
  exact ⟨consistent.shaped.leave, (List.nodup_cons.mp apart).2, fine'.held,
    fun p mem => consistent.plain p (outer p mem), fun p mem => consistent.bare p (outer p mem),
    fun other mem => consistent.distinct other (List.mem_cons_of_mem _ mem), fine'.resolved⟩

/-- No step spoils what holds of blocks. -/
theorem step (standard : c.table = standardTable) {r r' : Reader W} (consistent : Consistent r) (step : Step c r r')
    (unadded : Unadded r'.history) (unnested : Unnested r'.history) : Consistent r' := by
  cases step with
  | put reads run =>
    exact consistent.put standard reads run
      (fun tag block around mem => unadded tag block around (List.mem_append_right _ mem))
      fun tag block around mem => unnested tag block around (List.mem_append_right _ mem)
  | again reads checked again =>
    obtain ⟨-, waits⟩ := consistent.shaped.refer reads
    obtain ⟨w, rfl⟩ := again_ok again
    exact ((consistent.refer reads).world w).resume reads waits _
  | enter reads checked enters =>
    obtain ⟨-, waits⟩ := consistent.shaped.refer reads
    exact (consistent.refer reads).enter (fun first mem => by cases mem; exact waits) (enters_laid enters)
  | leave finished reads =>
    exact (consistent.leave finished).resume reads (consistent.shaped.waiting _ List.mem_cons_self) _

theorem run (standard : c.table = standardTable) {r r' : Reader W} (consistent : Consistent r) (run : Run c r r')
    (unadded : Unadded r'.history) (unnested : Unnested r'.history) : Consistent r' := by
  induction run with
  | here => exact consistent
  | on step rest ih =>
    obtain ⟨more, same⟩ := rest.history
    refine ih (consistent.step standard step (unadded.before rest) fun tag block around mem => ?_) unadded unnested
    refine unnested tag block around ?_
    rw [same]
    exact List.mem_append_left _ mem

end Consistent

/-! #### The end of a compilation -/

/-- The elements are written for a site, and nothing else. -/
def Shows (t : Tree) (site : NodeId) (body : List Element) : Prop :=
  ∀ ps, t.Writes [.node site] ps ↔ t.Writes body ps

theorem shows_of_target {site holder : NodeId} {body : List Element} (leads : t.target site = holder)
    (holds : Holds t holder body) : Shows t site body := by
  have shown : t.shown site = t.own holder := by
    unfold Tree.shown Tree.content
    rw [leads]
    exact Node.rendered_of_ne holds.name
  have bare : Artifact.Segment.ofCode "" = [] := rfl
  intro ps
  constructor
  · intro writes
    cases writes with
    | node inner rest =>
      cases rest
      rw [shown] at inner ⊢
      rw [holds.opening, holds.closing, bare, List.append_nil, List.append_nil]
      rw [holds.body] at inner
      exact inner
  · intro writes
    have inner : t.Writes (t.shown site).body ps := by
      rw [shown, holds.body]
      exact writes
    have all := Tree.Writes.node inner Tree.Writes.nil
    rw [shown, holds.opening, holds.closing, bare, List.append_nil, List.append_nil] at all
    exact all

/-- When all is read, every reference is led to its block. -/
theorem linkDeferred_resolved {ids : List NodeId} (grounded : Grounded s)
    (resolved : Resolved s.tree s.blocks ids [] h) (run : linkDeferred ids s = (.ok (), s')) :
    Resolved s'.tree s'.blocks [] [] h ∧ s'.tree.Sound := by
  induction ids generalizing s with
  | nil =>
    cases run
    exact ⟨resolved, grounded.sound⟩
  | cons id ids ih =>
    obtain ⟨settled, ⟨block, used⟩, other⟩ := resolved.waiting id List.mem_cons_self
    have referred := resolved.referred block id used
    rw [linkDeferred_cons, referred.param] at run
    cases known : Keyed.get? block s.blocks with
    | none =>
      rw [known] at run
      cases run
    | some b =>
      rw [known] at run
      have old := referred.old
      have apart : id ∉ ids := (List.nodup_cons.mp resolved.once).1
      refine ih (grounded.redirect old (resolved.old block b known)) ?_ run
      refine resolved.divert grounded.sound old settled other
        (fun e mem inPlace same => ((resolved.placed e mem).empty inPlace).2.2.1 (same ▸ List.mem_cons_self)) apart
        (List.sublist_cons_self id ids) fun name site used' mem => ?_
      rcases List.mem_cons.mp mem with rfl | mem
      · have same : name = block := (resolved.referred name site used').param.symm.trans referred.param
        exact .inr ⟨rfl, b, same ▸ known, rfl⟩
      · exact .inl mem

theorem consistent_initial (w : W) : Consistent ⟨.initial w, [], []⟩ := by
  have none : ∀ {id : NodeId}, id ∉ (CompileState.initial w).deferred := fun mem => by cases mem
  have unknown : ∀ {block : String} {b : Block}, Keyed.get? block (CompileState.initial w).blocks ≠ some b :=
    fun known => by cases known
  refine ⟨⟨⟨Tree.sound_empty, ?_, ?_⟩, rfl, ?_, ?_⟩, List.nodup_nil, ?_, ?_, ?_, ?_, ?_⟩
  · exact fun block b known => absurd known unknown
  · exact fun id mem => absurd mem none
  · exact fun sheet mem => by cases mem
  · exact fun sheet mem => by cases mem
  · exact fun p mem => by cases mem
  · exact fun p mem => by cases mem
  · exact fun p mem => by cases mem
  · exact fun sheet mem => by cases mem
  · exact ⟨fun _ _ => rfl, fun block b known => absurd known unknown, fun block b known => absurd known unknown,
      fun block b known => absurd known unknown, fun block b known => absurd known unknown,
      fun e mem => (by cases mem), fun block site mem => (by cases mem), fun id mem => absurd mem none,
      List.nodup_nil⟩

/-- A compilation ends with the links that were deferred. -/
theorem finish_ok {name : String} {root : NodeId} {t : Template} (run : finish name root s = (.ok t, s')) :
    linkDeferred s.deferred { s with deferred := [] } = (.ok (), s') ∧ t.root = root := by
  obtain ⟨linked, -, rfl⟩ := finish_parts run
  exact ⟨linked, rfl⟩

/-- What holds in the end of a compilation whose sources fit together. -/
theorem reads_resolved (standard : c.table = standardTable) {name : String} {text? : Option String} {t : Template}
    {w : W} (reads : Reads c name text? (.initial w) h t s') (unadded : Unadded h) (unnested : Unnested h) :
    Resolved s'.tree s'.blocks [] [] h ∧ s'.tree.Sound := by
  obtain ⟨sheet, s₁, inner, s₂, begins, run, finished, finishes⟩ := reads
  have start : Consistent ⟨s₁, [sheet], []⟩ :=
    (consistent_initial w).enter (fun _ mem => by cases mem) (begins_laid begins)
  have fine : Fine s₂ [] h := by
    have done := ((start.run standard run unadded unnested).leave finished).fine
    exact ⟨⟨done.grounded.sound, done.grounded.blocks, done.grounded.deferred⟩, done.old, done.held, done.resolved⟩
  have grounded : ∀ frames finished, Grounded { s₂ with frames := frames, finished := finished, deferred := [] } :=
    fun _ _ => ⟨fine.grounded.sound, fine.grounded.blocks, fun _ mem => by cases mem⟩
  cases text? with
  | none => exact linkDeferred_resolved (grounded _ _) fine.resolved (finish_ok finishes).1
  | some text => exact linkDeferred_resolved (grounded _ _) fine.resolved (finish_ok finishes).1

/-- Every compilation has a history, and whatever its sources are, if nothing is added to blocks and none is open
inside another one of its name in the same source, then all definitions in place and all references of a block show
the body of the definition that wins, and the definitions elsewhere show nothing. The artifact is what is shown. -/
theorem every_site_shows_the_winner (standard : c.table = standardTable) (name : String) (text? : Option String)
    (w : W) :
    (∀ t s', compiled c name text? (.initial w) = (.ok t, s') → ∃ h, Reads c name text? (.initial w) h t s') ∧
    ∀ h t s', Reads c name text? (.initial w) h t s' → Unadded h → Unnested h →
      (∀ block, definitions block h ≠ [] ∨ (∃ site, .used block site ∈ h) → ∃ d, Wins d (definitions block h) ∧
        (∀ e ∈ definitions block h, Shows s'.tree e.site (if e.inPlace then d.body else [])) ∧
        ∀ site, .used block site ∈ h → Shows s'.tree site d.body) ∧
      ∀ strip artifact s'', Compile.artifact c t.root strip s' = (.ok artifact, s'') →
        ∃ ps, s'.tree.Writes [.node t.root] ps ∧ artifact = (Artifact.Written.ofPieces ps).finish strip := by
  refine ⟨fun t s' run => compiled_reads standard run, fun h t s' reads unadded unnested => ?_⟩
  obtain ⟨resolved, sound⟩ := reads_resolved standard reads unadded unnested
  refine ⟨fun block named => ?_, fun strip artifact s'' run => artifact_writes standard sound run⟩
  have winner : ∀ b, Keyed.get? block s'.blocks = some b →
      ∃ d, Wins d (definitions block h) ∧ Holds s'.tree b.node d.body := by
    intro b known
    cases resolved.current block b known with
    | won wins depth holds shut => exact ⟨_, wins, holds⟩
    | awaited stands tag inner deeper => cases stands
  have known : ∃ b, Keyed.get? block s'.blocks = some b := by
    rcases named with some | ⟨site, used⟩
    · cases known : Keyed.get? block s'.blocks with
      | none => exact absurd (resolved.unknown block known) some
      | some b => exact ⟨b, rfl⟩
    · rcases (resolved.referred block site used).leads with waits | ⟨b, known, -⟩
      · cases waits
      · exact ⟨b, known⟩
  obtain ⟨b, known⟩ := known
  obtain ⟨d, wins, holds⟩ := winner b known
  refine ⟨d, wins, fun e mem => ?_, fun site used => ?_⟩
  · obtain ⟨closed, rfl⟩ := mem_definitions.mp mem
    have placed := resolved.placed e closed
    cases inPlace : e.inPlace with
    | true => exact shows_of_target (placed.leads inPlace b known) holds
    | false =>
      obtain ⟨settled, empty, -, -⟩ := placed.empty inPlace
      exact shows_of_target settled.target_eq empty
  · rcases (resolved.referred block site used).leads with waits | ⟨b', known', leads⟩
    · cases waits
    · cases known.symm.trans known'
      exact shows_of_target leads holds

/-- A page that extends a page that extends another one, each with a block of the same name. -/
def chained : MemorySources :=
  .ofList [("base", "<\x7bblock id=a\x7dB\x7b/block\x7d>"),
    ("middle", "\x7bblock id=a\x7dM\x7b/block\x7d\x7bextends name=base\x7d"),
    ("leaf", "\x7bextends name=middle\x7d\x7bblock id=a\x7dL\x7b/block\x7d")]

/-- The block of the base, which closed between those of the other two, shows what the leaf has in it. -/
theorem base_shows_the_leaf :
    let c : Compiler MemorySources := ⟨Library.memory, standardTable⟩
    let middle : Definition := ⟨"a", 2, ⟨3⟩, true, [.text "M"]⟩
    let base : Definition := ⟨"a", 3, ⟨6⟩, true, [.text "B"]⟩
    let leaf : Definition := ⟨"a", 1, ⟨7⟩, true, [.text "L"]⟩
    ∃ h t s', Reads c "leaf" none (.initial chained) h t s' ∧ Unadded h ∧ Unnested h ∧
      definitions "a" h = [middle, base, leaf] ∧ Shows s'.tree base.site leaf.body := by
  intro c middle base leaf
  have events : (read? c 40 "leaf" (.initial chained)).map (·.1) =
      some [.opened "block" "a" [], .defined middle, .opened "block" "a" [], .defined base,
        .opened "block" "a" [], .defined leaf] := by decide +kernel
  obtain ⟨⟨h, t, s'⟩, read, rfl⟩ := Option.map_eq_some_iff.mp events
  have reads := reads_of_read? read
  have unadded : Unadded [.opened "block" "a" [], .defined middle, .opened "block" "a" [], .defined base,
      .opened "block" "a" [], .defined leaf] := by
    intro tag block around mem
    simp only [List.mem_cons, reduceCtorEq, BlockEvent.opened.injEq, false_or, or_false, List.not_mem_nil] at mem
    rcases mem with ⟨rfl, -, -⟩ | ⟨rfl, -, -⟩ | ⟨rfl, -, -⟩ <;> decide
  have unnested : Unnested [.opened "block" "a" [], .defined middle, .opened "block" "a" [], .defined base,
      .opened "block" "a" [], .defined leaf] := by
    intro tag block around mem
    simp only [List.mem_cons, reduceCtorEq, BlockEvent.opened.injEq, false_or, or_false, List.not_mem_nil] at mem
    rcases mem with ⟨-, -, rfl⟩ | ⟨-, -, rfl⟩ | ⟨-, -, rfl⟩ <;> simp
  obtain ⟨resolved, -⟩ :=
    (every_site_shows_the_winner (c := c) rfl "leaf" none chained).2 _ t s' reads unadded unnested
  obtain ⟨d, wins, sites, -⟩ := resolved "a" (.inl (by decide))
  have least : ∀ e ∈ [middle, base], leaf.depth ≤ e.depth := by decide
  have leafWins : Wins leaf [middle, base, leaf] := Wins.replaced least
  have same : d = leaf := wins.unique leafWins
  subst same
  exact ⟨_, t, s', reads, unadded, unnested, rfl, sites base (by decide)⟩

end Compile

end Stencil
