import Stencil.Proofs.Compile.Composing
import Stencil.Proofs.Compile.Openings

/-!
What is added to a block after it has closed. If a block is defined once, and no addition to it opens before that, then
all additions to it stand where the block stands, each of them once and around what stood in the block.
-/
namespace Stencil

open Tag

/-! #### What stands around a body -/

/-- A body with what is put in front of it, the last first, and with what is put behind it. -/
def arranged (body : List Element) (additions : List Addition) : List Element :=
  (additions.filter (·.position = .before)).reverse.flatMap (fun a => [.node a.node, .text "\n"]) ++ body ++
    (additions.filter (·.position = .after)).flatMap fun a => [.text "\n", .node a.node]

/-- Additions at the ends leave the body in one piece. -/
theorem composed_eq_arranged {body : List Element} {additions : List Addition}
    (ends : ∀ a ∈ additions, a.position = .after ∨ a.position = .before) :
    composed body additions = arranged body additions := by
  induction additions generalizing body with
  | nil => exact (List.append_nil body).symm
  | cons a rest ih =>
    obtain ⟨first, others⟩ := List.forall_mem_cons.mp ends
    have made : composed body (a :: rest) = composed (a.position.into (.node a.node) body) rest := rfl
    rw [made, ih others]
    unfold arranged
    rcases first with after | before
    · rw [after, List.filter_cons_of_neg (by simp [after]), List.filter_cons_of_pos (by simp [after])]
      simp [Position.into]
    · rw [before, List.filter_cons_of_pos (by simp [before]), List.filter_cons_of_neg (by simp [before])]
      simp [Position.into]

namespace Compile

variable {W : Type} {c : Compiler W} {s s' : CompileState W} {r r' : Reader W} {file block name : String} {b : Block}
  {d : Definition} {top id holder : NodeId} {below stack : List NodeId} {token : Markup.Token}
  {additions : List Addition}

/-! #### Blocks that are open -/

theorem effect_stays (effect : Effect s file top below token s' stack) (mem : id ∈ top :: below) :
    id ∈ stack ∨ token.kind = .closeTag ∧ id = top := by
  have closes : token.kind = .closeTag → id ∈ below ∨ token.kind = .closeTag ∧ id = top := by
    intro kind
    rcases List.mem_cons.mp mem with rfl | mem
    · exact .inr ⟨kind, rfl⟩
    · exact .inl mem
  cases effect with
  | closed kind => exact closes kind
  | closedBlock kind => exact closes kind
  | closedBlockdef kind => exact closes kind
  | closedAdding kind => exact closes kind
  | nested | localized | block | adding => exact .inl (List.mem_cons_of_mem _ mem)
  | _ => exact .inl mem

/-- The node of a block stays open until it closes. -/
theorem step_stays (standard : c.table = standardTable) (ordered : Ordered r) (untagged : Untagged r)
    (step : Step c r r') (isOpen : id ∈ openNodes r.sheets) (tag : (r.state.tree.own id).tag ∈ Tree.contentTags) :
    id ∈ openNodes r'.sheets ∨ r.closes? = some id := by
  cases turn standard ordered.shaped step with
  | @piece frame tokens token top below stack outer before effect after =>
    rw [before, openNodes_cons] at isOpen
    rw [after, openNodes_cons, closes?_of_piece before]
    rcases List.mem_append.mp isOpen with mem | mem
    · refine (effect_stays effect mem).imp (List.mem_append_left _) fun ⟨kind, here⟩ => ?_
      rw [if_pos kind, here]
    · exact .inl (List.mem_append_right _ mem)
  | refers silent history opens =>
    rw [opens]
    exact .inl isOpen
  | enters silent history opens =>
    rw [opens]
    exact .inl (List.mem_cons_of_mem _ (List.mem_cons_of_mem _ isOpen))
  | @leaves root other silent history opens isRoot plain =>
    have bare := untagged root (by rw [opens]; exact List.mem_cons_self) isRoot
    rw [opens] at isOpen
    rcases List.mem_cons.mp isOpen with rfl | mem
    · rw [bare] at tag
      exact absurd tag (by decide)
    · rcases List.mem_cons.mp mem with rfl | mem
      · exact absurd tag plain
      · exact .inl mem

/-! #### How a block becomes known -/

/-- A definition that closes makes no other block known. -/
theorem settle_registers (unknown : Keyed.get? block s.blocks = none)
    (known : Keyed.get? block (settle holder name s).blocks = some b) : name = block := by
  have put : ∀ {first : Block}, Keyed.get? block (Keyed.put name first s.blocks) = some b → name = block := by
    intro first found
    rcases Keyed.get?_put found with ⟨here, -⟩ | ⟨-, found⟩
    · exact here
    · cases unknown.symm.trans found
  unfold settle at known
  split at known
  · exact put known
  · split at known
    · cases unknown.symm.trans known
    · split at known
      · cases unknown.symm.trans known
      · exact put known

/-- A tag that opens makes its own block known, by its own node. -/
theorem blockOpened_registers {n : Node} (unknown : Keyed.get? block s.blocks = none)
    (known : Keyed.get? block (blockOpened n s).blocks = some b) :
    n.param "id" = block ∧ b.node = ⟨s.tree.size⟩ := by
  unfold blockOpened at known
  split at known
  · rcases Keyed.get?_put known with ⟨here, rfl⟩ | ⟨-, found⟩
    · exact ⟨here, rfl⟩
    · cases unknown.symm.trans found
  · cases unknown.symm.trans known

/-- A block becomes known when it opens, with an addition, or when a definition of it closes. -/
theorem effect_registers (effect : Effect s file top below token s' stack) (grounded : Grounded s)
    (unknown : Keyed.get? block s.blocks = none) (known : Keyed.get? block s'.blocks = some b) :
    definitions block (BlockEvent.ofPiece token (top :: below) s) ≠ [] ∨
      openings ["addblock"] block (BlockEvent.ofPiece token (top :: below) s) ≠ 0 ∨
      b.node ∈ stack ∧ (s'.tree.own b.node).tag = "block" ∧ s'.tree.Settled b.node := by
  have same : s'.blocks = s.blocks → False := by
    intro same
    rw [same] at known
    cases unknown.symm.trans known
  have defines : token.kind = .closeTag → (s.tree.own top).tag ∈ ["block", "blockdef"] →
      (s.tree.own top).param "id" = block → definitions block (BlockEvent.ofPiece token (top :: below) s) ≠ [] := by
    intro kind tag names none
    have counts : (definitions block (BlockEvent.ofPiece token (top :: below) s)).length = _ :=
      definitions_of_close kind
    rw [none, Tree.standing_cons, if_pos ⟨tag, names⟩] at counts
    cases counts
  cases effect with
  | text | printed | nested | localized | elseIf | otherwise | closed => exact (same rfl).elim
  | putblock =>
    refine (same ?_).elim
    show (putblockPlaced _ s).blocks = s.blocks
    unfold putblockPlaced
    split <;> rfl
  | closedAdding =>
    refine (same ?_).elim
    show (addblockClosed _ top s).blocks = s.blocks
    unfold addblockClosed
    split
    · rfl
    · split <;> rfl
  | @block head kind parsed tag =>
    obtain ⟨-, new⟩ := blockOpened_registers unknown known
    have own := own_blockOpened (Node.opened file token.line top head true) s
    rw [new]
    refine .inr (.inr ⟨List.mem_cons_self, ?_, congrArg Node.standsFor own⟩)
    rw [own]
    exact tag
  | @adding head params position kind parsed tag checked =>
    obtain ⟨names, -⟩ := blockOpened_registers unknown known
    have counts : head.name ∈ ["addblock"] ∧ head.block = block :=
      ⟨List.mem_singleton.mpr tag, (param_of_checked checked).symm.trans names⟩
    refine .inr (.inl ?_)
    rw [openings_of_open (by decide) kind parsed, if_pos counts]
    exact Nat.one_ne_zero
  | closedBlock kind nested inner tag =>
    have known : Keyed.get? block (blockClosed top s).blocks = some b := known
    rw [blockClosed_eq] at known
    exact .inl (defines kind (by simp [tag]) (settle_registers unknown known))
  | closedBlockdef kind nested inner tag =>
    have known : Keyed.get? block (blockdefClosed top s).blocks = some b := known
    rw [blockdefClosed_eq top s grounded.blocks] at known
    exact .inl (defines kind (by simp [tag])
      (settle_registers (s := { s with tree := movedOut top s.tree }) unknown known))

/-- A block that is known by its own open node, which leads nowhere else. -/
structure Awaited (block : String) (b : Block) (r : Reader W) : Prop where
  held : Held block b b.node r.state
  isOpen : b.node ∈ openNodes r.sheets
  tag : (r.state.tree.own b.node).tag = "block"

/-- As long as no definition of a block has closed and no addition to it has opened, it is known by its own open node
if it is known. -/
def Early (block : String) (r : Reader W) : Prop :=
  definitions block r.history = [] → openings ["addblock"] block r.history = 0 →
    ∀ b, Keyed.get? block r.state.blocks = some b → Awaited block b r

theorem Early.step (standard : c.table = standardTable) (ordered : Ordered r) (untagged : Untagged r)
    (early : Early block r) (step : Step c r r') : Early block r' := by
  intro undefined unadded b known
  have shaped := ordered.shaped
  obtain ⟨later, history⟩ := step.history
  obtain ⟨touched, keeps⟩ := shaped.step_keeps standard step
  have closed := definitions_of_step standard shaped step block
  rw [undefined] at closed
  rw [history, definitions_append, List.append_eq_nil_iff] at undefined
  rw [history, openings_append, Nat.add_eq_zero_iff] at unadded
  cases found : Keyed.get? block r.state.blocks with
  | some first =>
    obtain ⟨held, isOpen, tag⟩ := early undefined.1 unadded.1 first found
    have held' : Held block first first.node r'.state := by
      refine step_held standard ordered held step fun more same d mem names => ?_
      have among : d ∈ definitions block later := by
        rw [List.append_cancel_left (history.symm.trans same)]
        exact mem_definitions.mpr ⟨mem, names⟩
      rw [undefined.2] at among
      cases among
    cases held'.known.symm.trans known
    refine ⟨held', ?_, ?_⟩
    · refine (step_stays standard ordered untagged step isOpen (by rw [tag]; decide)).resolve_right fun closes => ?_
      have names := ordered.unmixed.named.blocks block b found
      rw [closes, Option.toList_some, Tree.standing_cons, if_pos ⟨by simp [tag], names⟩] at closed
      simp at closed
    · rw [keeps.tag (ordered.unmixed.old _ isOpen)]
      exact tag
  | none =>
    have same : r'.state.blocks = r.state.blocks → Awaited block b r' := by
      intro same
      rw [same, found] at known
      cases known
    have settled : ∀ (id top : NodeId) (below : List NodeId) (head : Markup.Head) (root : NodeId) (s : CompileState W),
        (settled id top below (received head id root s)).2.blocks = s.blocks := by
      intro id top below head root s
      have received : (received head id root s).blocks = s.blocks := by
        unfold received
        split <;> rfl
      unfold Compile.settled
      split <;> exact received
    cases step with
    | @put s s' frame token tokens stack stack' outer h reads run =>
      obtain ⟨top, below, rfl, small, effect⟩ := shaped.effect standard reads run
      have noted : BlockEvent.ofPiece token (top :: below) s = later := List.append_cancel_left history
      rcases effect_registers effect shaped.grounded found known with some | some | ⟨mem, tag, settled⟩
      · rw [noted] at some
        exact absurd undefined.2 some
      · rw [noted] at some
        exact absurd unadded.2 some
      · exact ⟨⟨known, settled.target_eq⟩, List.mem_append_left _ mem, tag⟩
    | again reads checked again =>
      obtain ⟨w, rfl⟩ := again_ok again
      exact same (settled ..)
    | enter reads checked enters =>
      obtain ⟨-, name, w, sources, rfl⟩ := enters_laid enters
      exact same rfl
    | leave finished reads => exact same (settled ..)

/-! #### The only definition of a block -/

/-- The piece that ends a definition. -/
theorem effect_of_defined (effect : Effect s file top below token s' stack)
    (noted : BlockEvent.ofPiece token (top :: below) s = [.defined d]) :
    d.block = (s.tree.own top).param "id" ∧ d.site = top ∧ d.body = (s.tree.own top).body ∧
      ∃ parent under, below = parent :: under ∧ stack = below ∧
        ((s.tree.own top).tag = "block" ∧ d.inPlace = true ∧ s' = attach parent (.node top) (blockClosed top s) ∨
          (s.tree.own top).tag = "blockdef" ∧ d.inPlace = false ∧
            s' = attach parent (.node top) (blockdefClosed top s)) := by
  have closing : token.kind = .closeTag := by
    by_contra other
    have none : definitions d.block (BlockEvent.ofPiece token (top :: below) s) = [] := definitions_of_not_close other
    rw [noted, ← List.nil_append [BlockEvent.defined d], definitions_defined, if_pos rfl] at none
    simp at none
  rw [ofPiece_close closing] at noted
  cases effect with
  | @closedBlock parent under kind nested inner tag =>
    rw [if_pos tag] at noted
    cases noted
    exact ⟨rfl, rfl, rfl, parent, under, nested, rfl, .inl ⟨tag, rfl, rfl⟩⟩
  | @closedBlockdef parent under kind nested inner tag =>
    rw [if_neg (by rw [tag]; decide), if_pos tag] at noted
    cases noted
    exact ⟨rfl, rfl, rfl, parent, under, nested, rfl, .inr ⟨tag, rfl, rfl⟩⟩
  | closed kind nested inner other =>
    rw [if_neg fun tag => other (by simp [tag]), if_neg fun tag => other (by simp [tag])] at noted
    cases noted
  | closedAdding kind nested inner tag =>
    rw [if_neg (by rw [tag]; decide), if_neg (by rw [tag]; decide)] at noted
    cases noted
  | text kind | printed kind | nested kind | localized kind | block kind | elseIf kind | otherwise kind | putblock kind
  | adding kind => exact absurd (closing.symm.trans kind) (by decide)

/-- A block that is known by a node that no open node leads to, which holds what stood in its only definition. -/
structure Established (d : Definition) (b : Block) (r : Reader W) : Prop where
  held : Held d.block b b.node r.state
  beside : Beside r b.node
  holds : Holds r.state.tree b.node d.body
  inPlace : d.inPlace = true → d.site = b.node
  moved : d.inPlace = false → Alone r d.site ∧ Holds r.state.tree d.site []

/-- No open node leads to a block of which no tag is open. -/
theorem Held.beside (held : Held block b b.node r.state) (ordered : Ordered r)
    (undefined : r.state.tree.standing ["block", "blockdef"] block (openNodes r.sheets) = 0)
    (unadded : r.state.tree.standing ["addblock"] block (openNodes r.sheets) = 0) : Beside r b.node := by
  have unmixed := ordered.unmixed
  refine ⟨unmixed.grounded.blocks block b held.known, fun other isOpen leads => ?_⟩
  rcases unmixed.each other isOpen with lone | ⟨tag, -⟩
  · rw [lone.here.target_eq] at leads
    exact lone.unknown block b held.known leads.symm
  · have names := held.name_eq unmixed.grounded unmixed.named leads
    simp only [List.mem_cons, List.not_mem_nil, or_false] at tag
    rcases tag with tag | tag
    · exact (Tree.standing_pos.mpr ⟨other, isOpen, by simp [tag], names⟩).ne' undefined
    · exact (Tree.standing_pos.mpr ⟨other, isOpen, by simp [tag], names⟩).ne' unadded

/-- A `block` whose name is known by its own node at most stays as it is when it closes. -/
theorem blockClosed_only (itself : ∀ b, Keyed.get? ((s.tree.own top).param "id") s.blocks = some b → b.node = top) :
    ∃ b : Block, b.node = top ∧ Keyed.get? ((s.tree.own top).param "id") (blockClosed top s).blocks = some b ∧
      (blockClosed top s).tree = s.tree := by
  rw [blockClosed_eq]
  unfold settle
  split
  · exact ⟨_, rfl, Keyed.get?_put_self .., rfl⟩
  · rename_i b known
    rw [if_pos (itself b known)]
    exact ⟨b, itself b known, known, rfl⟩

theorem blockdefClosed_only (unknown : Keyed.get? ((s.tree.own top).param "id") s.blocks = none) :
    blockdefClosed top s = { s with
      tree := movedOut top s.tree
      blocks := Keyed.put ((s.tree.own top).param "id") ⟨⟨s.tree.size⟩, s.frames.length⟩ s.blocks } := by
  unfold blockdefClosed
  dsimp only
  rw [unknown]

section Closing

variable {opens : List NodeId} {parent : NodeId} (unmixed : Unmixed r.state (top :: opens))
  (furnished : r.state.tree.Furnished) (ordered' : Ordered r') (nodes : openNodes r'.sheets = opens)
  (around : parent ∈ opens) (block' : d.block = (r.state.tree.own top).param "id") (site : d.site = top)
  (body : d.body = (r.state.tree.own top).body)
  (undefined : r'.state.tree.standing ["block", "blockdef"] d.block (openNodes r'.sheets) = 0)
  (unadded : r'.state.tree.standing ["addblock"] d.block (openNodes r'.sheets) = 0)

include unmixed furnished ordered' nodes around block' site body undefined unadded

/-- A `block` that is known by its own node at most is established in its place. -/
theorem exists_established_of_block (tag : (r.state.tree.own top).tag = "block") (inPlace : d.inPlace = true)
    (same : r'.state = attach parent (.node top) (blockClosed top r.state))
    (itself : ∀ b, Keyed.get? d.block r.state.blocks = some b → b.node = top ∧ r.state.tree.target top = top) :
    ∃ b, Established d b r' := by
  have isOpen : top ∈ top :: opens := List.mem_cons_self
  have here : r.state.tree.target top = top := by
    rcases unmixed.each top isOpen with lone | ⟨-, b, known, -⟩
    · exact lone.here.target_eq
    · rw [← block'] at known
      exact (itself b known).2
  rw [block'] at itself
  obtain ⟨b, rfl, known, tree⟩ := blockClosed_only fun b known => (itself b known).1
  have tree' : r'.state.tree = r.state.tree.append parent (.node b.node) := by
    rw [same]
    exact congrArg (·.append parent (.node b.node)) tree
  have links : r.state.tree.SameLinks r'.state.tree := tree' ▸ .append _ _ _
  have held : Held d.block b b.node r'.state := by
    refine ⟨?_, (links.target_eq unmixed.grounded.sound _).trans here⟩
    rw [same, block']
    exact known
  have beside := held.beside ordered' undefined unadded
  have apart : r.state.tree.target parent ≠ b.node := by
    rw [← links.target_eq unmixed.grounded.sound]
    exact beside.apart parent (by rw [nodes]; exact around)
  obtain ⟨opening, closing⟩ := furnished.bare b.node (by rw [tag]; decide)
  have other : (r.state.tree.own b.node).name ≠ some "t" := by
    intro isText
    rw [Node.tag_of_name isText] at tag
    exact absurd tag (by decide)
  have holds : Holds r.state.tree b.node d.body := ⟨opening, body.symm, closing, other⟩
  have attached : r.state.tree.Keeps r'.state.tree [r.state.tree.target parent] :=
    tree' ▸ .append _ _ _ (List.mem_singleton_self _)
  refine ⟨b, held, beside, holds.keep attached (unmixed.old _ isOpen) (by simpa using apart.symm), fun _ => site,
    fun moved => ?_⟩
  rw [inPlace] at moved
  cases moved

/-- A `blockdef` of a block that is not known is established by the node that takes what stood in it. -/
theorem exists_established_of_blockdef (tag : (r.state.tree.own top).tag = "blockdef") (moved : d.inPlace = false)
    (same : r'.state = attach parent (.node top) (blockdefClosed top r.state))
    (unknown : Keyed.get? d.block r.state.blocks = none) : ∃ b, Established d b r' := by
  have isOpen : top ∈ top :: opens := List.mem_cons_self
  have shut := (List.nodup_cons.mp unmixed.apart).1
  have lone : Lone r.state top := (unmixed.each top isOpen).resolve_right fun ⟨other, _⟩ => by
    rw [tag] at other
    exact absurd other (by decide)
  have copied := unmixed.passing_movedOut isOpen
  have new := unmixed.lone_movedOut top
  let b : Block := ⟨⟨r.state.tree.size⟩, r.state.frames.length⟩
  rw [block'] at unknown
  rw [blockdefClosed_only unknown] at same
  have links : (movedOut top r.state.tree).SameLinks r'.state.tree := by
    rw [same]
    exact .append _ parent _
  have held : Held d.block b b.node r'.state := by
    refine ⟨?_, (links.target_eq copied.unmixed.grounded.sound _).trans new.here.target_eq⟩
    rw [same, block']
    exact Keyed.get?_put_self ..
  have beside := held.beside ordered' undefined unadded
  have apart : (movedOut top r.state.tree).target parent ≠ b.node := by
    rw [← links.target_eq copied.unmixed.grounded.sound]
    exact beside.apart parent (by rw [nodes]; exact around)
  have attached : (movedOut top r.state.tree).Keeps r'.state.tree [(movedOut top r.state.tree).target parent] := by
    rw [same]
    exact .append _ parent _ (List.mem_singleton_self _)
  obtain ⟨nodeHolds, siteHolds⟩ := holds_movedOut lone furnished (by rw [tag]; decide)
  rw [← body] at nodeHolds
  refine ⟨b, held, beside, nodeHolds.keep attached new.old (by simpa using apart.symm), fun inPlace => ?_, fun _ => ?_⟩
  · rw [moved] at inPlace
    cases inPlace
  · let defined : CompileState W := { r.state with
      tree := movedOut top r.state.tree
      blocks := Keyed.put ((r.state.tree.own top).param "id") b r.state.blocks }
    have other : b.node ≠ top := fun here => Nat.lt_irrefl _ (here ▸ lone.old)
    have free : Lone defined top := (lone.relink unmixed.grounded (links_movedOut top _)).define other
    have grounded : Grounded defined := copied.unmixed.grounded.define (lt_movedOut top r.state)
    have outside : parent ≠ top := fun here => shut (here ▸ around)
    have holds : Holds defined.tree top [] := siteHolds
    rw [site]
    refine ⟨⟨?_, by rw [nodes]; exact shut⟩, ?_⟩
    · rw [same]
      exact free.relink grounded (.append _ parent _)
    · rw [same]
      exact holds.attach free outside _

end Closing

/-- The only definition of a block establishes it, if no addition to it is open. -/
theorem exists_established (standard : c.table = standardTable) (ordered : Ordered r)
    (furnished : r.state.tree.Furnished) (step : Step c r r') (noted : r'.history = r.history ++ [.defined d])
    (awaited : ∀ b, Keyed.get? d.block r.state.blocks = some b → Awaited d.block b r)
    (undefined : r'.state.tree.standing ["block", "blockdef"] d.block (openNodes r'.sheets) = 0)
    (unadded : r'.state.tree.standing ["addblock"] d.block (openNodes r'.sheets) = 0) :
    ∃ b, Established d b r' := by
  have ordered' := (ordered.receives standard step).1
  obtain ⟨touched, keeps⟩ := ordered.shaped.step_keeps standard step
  have silent : r'.history ≠ r.history := fun same => by
    rw [same] at noted
    exact absurd (List.append_right_eq_self.mp noted.symm) (List.cons_ne_nil _ _)
  cases turn standard ordered.shaped step with
  | refers _ history | enters _ history | leaves _ history => exact absurd history silent
  | @piece frame tokens token top below stack outer before effect after history =>
    have piece := List.append_cancel_left (history.symm.trans noted)
    obtain ⟨block, site, body, parent, under, rfl, rfl, closed⟩ := effect_of_defined effect piece
    have opens : openNodes r.sheets = top :: (parent :: under ++ openNodes outer) := by
      rw [before]
      rfl
    have opens' : openNodes r'.sheets = parent :: under ++ openNodes outer := by
      rw [after]
      rfl
    have unmixed := ordered.unmixed
    rw [opens] at unmixed
    -- Another open block of this name would still be open.
    have itself : ∀ b, Keyed.get? d.block r.state.blocks = some b → b.node = top := by
      intro b known
      obtain ⟨held, stands, tag⟩ := awaited b known
      rw [opens] at stands
      refine (List.mem_cons.mp stands).resolve_right fun mem => ?_
      have old := unmixed.old b.node stands
      have names := unmixed.named.blocks d.block b known
      refine (Tree.standing_pos.mpr ⟨b.node, by rw [opens']; exact mem, ?_⟩).ne' undefined
      rw [keeps.tag old, keeps.param old]
      exact ⟨by simp [tag], names⟩
    rcases closed with ⟨tag, inPlace, same⟩ | ⟨tag, moved, same⟩
    · refine exists_established_of_block unmixed furnished ordered' opens' List.mem_cons_self block site body undefined
        unadded tag inPlace same fun b known => ?_
      have here := itself b known
      exact ⟨here, here ▸ (awaited b known).held.leads⟩
    · refine exists_established_of_blockdef unmixed furnished ordered' opens' List.mem_cons_self block site body
        undefined unadded tag moved same ?_
      cases known : Keyed.get? d.block r.state.blocks with
      | none => rfl
      | some b =>
        have isBlock := (awaited b known).tag
        rw [itself b known, tag] at isBlock
        exact absurd isBlock (by decide)

/-! #### Whole compilations -/

section Whole

variable {text? : Option String} {w : W} {s₁ : CompileState W} {sheet : Sheet} {h before after : List BlockEvent}
  {first rest : List Addition} {t : Template} {tags : List String}

/-- In the beginning nothing is open but a root, and no block is known. -/
theorem begins_accounted (begins : Begins c name text? (.initial w) sheet s₁) (block : String) :
    Accounted block [] ⟨s₁, [sheet], []⟩ ∧ Early block ⟨s₁, [sheet], []⟩ := by
  have ordered := (begins_ordered begins).1
  obtain ⟨stack, file, w', sources, rfl⟩ := begins_laid begins
  have own := own_withNode (.initial w) (rootNode file)
  have opens : openNodes [sheet] = [⟨(CompileState.initial w).tree.size⟩] := by
    rw [openNodes_cons, stack]
    rfl
  have plain : ∀ id ∈ openNodes [sheet], ((withNode (.initial w) (rootNode file)).tree.own id).tag = "" := by
    rw [opens]
    intro id mem
    rw [List.mem_singleton.mp mem, own]
    rfl
  have none : ∀ tags ⊆ Tree.contentTags,
      (withNode (.initial w) (rootNode file)).tree.standing tags block (openNodes [sheet]) = 0 :=
    fun tags content => Tree.standing_of_plain content fun id mem => by rw [plain id mem]; decide
  refine ⟨⟨ordered, fun id mem _ => plain id mem, ?_, ?_⟩, fun _ _ b known => ?_⟩
  · exact (none _ (by decide)).symm
  · exact (none _ (by decide)).symm
  · cases known

theorem Early.run (standard : c.table = standardTable) (accounted : Accounted block first r) (early : Early block r)
    (adding : Adding c r rest r') : Early block r' := by
  induction adding generalizing first with
  | here => exact early
  | on step _ ih =>
    exact ih (accounted.step standard step) (early.step standard accounted.ordered accounted.untagged step)

/-- In the end nothing is open but a root. -/
theorem Accounted.finished (accounted : Accounted block additions ⟨s, [sheet], h⟩) (finished : Finished sheet s)
    (content : tags ⊆ Tree.contentTags) : s.tree.standing tags block (openNodes [sheet]) = 0 := by
  have upright := accounted.ordered.shaped.upright _ List.mem_cons_self
  obtain ⟨root, stack, isRoot⟩ := finished_stack upright finished
  have opens : openNodes [sheet] = [root] := by
    rw [openNodes_cons, stack]
    rfl
  have plain : (s.tree.own root).tag = "" :=
    accounted.untagged root (by rw [opens]; exact List.mem_singleton_self root) isRoot
  rw [opens]
  refine Tree.standing_of_plain content fun id mem => ?_
  rw [List.mem_singleton.mp mem, plain]
  decide

theorem definitions_only (only : definitions block (before ++ .defined d :: after) = [d]) :
    d.block = block ∧ definitions block before = [] ∧ definitions block after = [] := by
  have mem : d ∈ definitions block (before ++ .defined d :: after) := by
    rw [only]
    exact List.mem_singleton_self d
  obtain ⟨-, same⟩ := mem_definitions.mp mem
  have parts : before ++ .defined d :: after = before ++ [.defined d] ++ after := by simp
  rw [parts, definitions_append, definitions_defined, if_pos same] at only
  have lengths := congrArg List.length only
  simp only [List.length_append, List.length_singleton] at lengths
  exact ⟨same, List.length_eq_zero_iff.mp (by omega), List.length_eq_zero_iff.mp (by omega)⟩

/-- The moment when the only definition of a block has closed: the block is established, all additions to it are still
to come, and no definition is. -/
theorem exists_moment (standard : c.table = standardTable) (accounted : Accounted block [] r) (early : Early block r)
    (provided : Provided r) (started : r.history = []) (adding : Adding c r additions ⟨s, [sheet], h⟩)
    (finished : Finished sheet s) (noted : h = before ++ .defined d :: after) (only : definitions block h = [d])
    (unadded : openings ["addblock"] block before = 0) :
    ∃ r₂ rest b, Adding c r₂ rest ⟨s, [sheet], h⟩ ∧ Ordered r₂ ∧ Provided r₂ ∧ Established d b r₂ ∧
      r₂.history = before ++ [.defined d] ∧ additions.filter (·.block = block) = rest.filter (·.block = block) := by
  have noted' : h = r.history ++ (before ++ .defined d :: after) := by
    rw [started]
    exact noted
  obtain ⟨r₁, r₂, first, rest, early', step, late, rfl, history, event⟩ := adding.at_event noted'
  rw [started, List.nil_append] at history
  obtain ⟨same, none, -⟩ := definitions_only (noted ▸ only)
  have whole := accounted.run standard adding
  have accounted₁ := accounted.run standard early'
  have accounted₂ := accounted₁.step standard step
  have noted₂ : r₂.history = before ++ [.defined d] := by
    rw [event, history]
  -- One tag has opened for a definition of the block, and that one has closed.
  have opened : openings ["block", "blockdef"] block h = 1 := by
    have nothing : s.tree.standing ["block", "blockdef"] block (openNodes [sheet]) = 0 :=
      whole.finished finished (by decide)
    have defined : openings ["block", "blockdef"] block h = _ := whole.defined
    rw [defined, nothing, only]
    rfl
  have grown : openings ["block", "blockdef"] block r₂.history ≤ 1 := by
    obtain ⟨later, grown⟩ := late.run.history
    have grown : h = r₂.history ++ later := grown
    rw [← opened, grown, openings_append]
    exact Nat.le_add_right _ _
  have undefined : r₂.state.tree.standing ["block", "blockdef"] block (openNodes r₂.sheets) = 0 := by
    have defined := accounted₂.defined
    rw [noted₂, definitions_defined, if_pos same, none, List.nil_append, List.length_singleton, ← noted₂] at defined
    omega
  -- No tag has opened for an addition.
  have added := accounted₂.added
  rw [noted₂, openings_append, unadded, openings_of_others (by simp)] at added
  have awaited := early.run standard accounted early' (by rw [history]; exact none) (by rw [history]; exact unadded)
  have provided₁ := provided.run standard early'.run
  rw [← same] at undefined awaited added
  obtain ⟨b, established⟩ := exists_established standard accounted₁.ordered provided₁.furnished step event awaited
    undefined (by omega)
  refine ⟨r₂, rest, b, late, accounted₂.ordered, provided₁.step standard step, established, noted₂, ?_⟩
  have nothing : ([] ++ first ++ r₁.addition?.toList : List Addition).filter (·.block = block) = [] :=
    List.length_eq_zero_iff.mp (by rw [← same]; omega)
  rw [List.nil_append] at nothing
  rw [← List.append_assoc, List.filter_append, nothing, List.nil_append]

/-- What becomes of an established block, if no other definition of it follows. -/
theorem Established.composes (standard : c.table = standardTable) (ordered : Ordered r) (provided : Provided r)
    (established : Established d b r) (adding : Adding c r rest ⟨s, [sheet], h⟩)
    (last : ∀ later, h = r.history ++ later → definitions d.block later = []) {root : NodeId}
    (finishes : finish name root
      (if text?.isSome then { s with frames := s.frames.tail } else left sheet s) = (.ok t, s')) :
    Held d.block b b.node s' ∧ Holds s'.tree b.node (composed d.body (rest.filter (·.block = d.block))) ∧
      Shows s'.tree d.site (if d.inPlace then composed d.body (rest.filter (·.block = d.block)) else []) ∧
      ∀ a ∈ rest.filter (·.block = d.block),
        (composed d.body (rest.filter (·.block = d.block))).count (.node a.node) = 1 ∧
          Shows s'.tree a.node a.body ∧ Shows s'.tree a.site [] := by
  obtain ⟨held, beside, holds, inPlace, moved⟩ := established
  have gathers := ordered.gathers standard provided adding beside
  obtain ⟨ordered', receives⟩ := ordered.receives_run standard adding
  obtain ⟨touched, keeps⟩ := ordered.shaped.run_keeps standard adding.run
  have ends := ends_of_finish ordered'.unmixed finishes
  obtain ⟨held', names⟩ := run_held standard ordered held adding fun later grown e mem same => by
    have among := mem_definitions.mpr ⟨mem, same⟩
    rw [last later grown] at among
    cases among
  have made : rest.filter (·.into = b.node) = rest.filter (·.block = d.block) :=
    List.filter_congr fun a mem => decide_eq_decide.mpr (names a mem)
  have took := gathers.took
  rw [made] at took
  have full : Holds s.tree b.node (composed d.body (rest.filter (·.block = d.block))) := by
    refine ⟨took.opening.trans holds.opening, ?_, took.closing.trans holds.closing, fun isText => holds.name ?_⟩
    · rw [took.body, holds.body]
    · rw [← keeps.names b.node beside.old]
      exact isText
  have full' := full.keep ends.keeps gathers.beside.old List.not_mem_nil
  have held'' := ends.held held'
  refine ⟨held'', full', ?_, fun a mem => ?_⟩
  · cases place : d.inPlace with
    | true =>
      rw [inPlace place]
      exact shows_of_target held''.leads full'
    | false =>
      obtain ⟨alone, empty⟩ := moved place
      obtain ⟨alone', same⟩ := receives.alone d.site alone
      exact ends.shows alone'.lone (empty.sameAt same (keeps.names _ alone.lone.old))
  · rw [← made] at mem
    obtain ⟨added, into'⟩ := List.mem_filter.mp mem
    obtain ⟨site, empty, node, content⟩ := gathers.made a added (of_decide_eq_true into')
    have once := gathers.count_eq_one provided.furnished mem
    rw [made, holds.body] at once
    exact ⟨once, ends.shows node.lone content, ends.shows site.lone empty⟩

theorem of_used (noted : BlockEvent.ofPiece token stack s = [.used block id]) : ∃ head, token.kind = .openTag ∧
    Markup.Head.parse token.content = .ok head ∧ head.name = "putblock" ∧ head.block = block ∧ id = ⟨s.tree.size⟩ := by
  unfold BlockEvent.ofPiece at noted
  split at noted
  · rename_i kind
    split at noted
    · rename_i head parsed
      split at noted
      · cases noted
      · split at noted
        · rename_i tag
          cases noted
          exact ⟨head, kind, parsed, tag, rfl, rfl⟩
        · cases noted
    · cases noted
  · dsimp only at noted
    split at noted
    · cases noted
    · split at noted <;> cases noted
  · cases noted

/-- A reference that comes is a handle for its block. -/
theorem site_of_used (standard : c.table = standardTable) (shaped : Shaped r) (step : Step c r r')
    (noted : r'.history = r.history ++ [.used block id]) : r.Site block id := by
  have silent : r'.history ≠ r.history := fun same => by
    rw [same] at noted
    exact absurd (List.append_right_eq_self.mp noted.symm) (List.cons_ne_nil _ _)
  cases turn standard shaped step with
  | refers _ history | enters _ history | leaves _ history => exact absurd history silent
  | piece before effect after history =>
    obtain ⟨head, kind, parsed, tag, names, rfl⟩ := of_used (List.append_cancel_left (history.symm.trans noted))
    refine .refers ?_ tag names
    unfold Reader.opens?
    rw [before]
    dsimp only
    rw [if_pos kind, parsed]
    rfl

/-- A moment before anything has been noted counts as the beginning. -/
theorem accounted_of_silent (standard : c.table = standardTable) (begins : Begins c name text? (.initial w) sheet s₁)
    (run : Run c ⟨s₁, [sheet], []⟩ r) (silent : r.history = []) (block : String) :
    Accounted block [] r ∧ Early block r := by
  obtain ⟨accounted, early⟩ := begins_accounted begins block
  obtain ⟨first, adding⟩ := exists_adding run
  obtain ⟨ordered, untagged, defined, added⟩ := accounted.run standard adding
  refine ⟨⟨ordered, untagged, defined, ?_⟩, early.run standard accounted adding⟩
  rw [silent] at added ⊢
  have none : openings ["addblock"] block [] = 0 := rfl
  rw [none] at added ⊢
  exact (Nat.add_eq_zero_iff.mp added.symm).1.symm

/-- Every compilation has additions from the beginning, and whatever its sources are, if one definition of a block
closes and no tag that adds to the block has opened before that, then all such tags make one addition each. The
definition and all references show what these make of its content, each addition once and at the ends around the
content in one piece, or where its index says; the tags themselves show nothing. The artifact is what is shown. -/
theorem late_additions_all_show (standard : c.table = standardTable) (name : String) (text? : Option String) (w : W) :
    (∀ t s', compiled c name text? (.initial w) = (.ok t, s') →
      ∃ r additions h, Completes c name text? (.initial w) r additions h t s' ∧ r.history = []) ∧
    ∀ r additions h t s', Completes c name text? (.initial w) r additions h t s' → r.history = [] →
      ∀ block d before after, h = before ++ .defined d :: after → definitions block h = [d] →
        openings ["addblock"] block before = 0 →
        let made := additions.filter (·.block = block)
        made.length = openings ["addblock"] block h ∧
          Shows s'.tree d.site (if d.inPlace then composed d.body made else []) ∧
          (∀ site, .used block site ∈ h → Shows s'.tree site (composed d.body made)) ∧
          (∀ a ∈ made, (composed d.body made).count (.node a.node) = 1 ∧ Shows s'.tree a.node a.body ∧
            Shows s'.tree a.site []) ∧
          ((∀ a ∈ made, a.position = .after ∨ a.position = .before) → composed d.body made = arranged d.body made) ∧
          ∀ strip artifact s'', Compile.artifact c t.root strip s' = (.ok artifact, s'') →
            ∃ ps, s'.tree.Writes [.node t.root] ps ∧ artifact = (Artifact.Written.ofPieces ps).finish strip := by
  refine ⟨fun t s' run => ?_, fun r additions h t s' completes silent block d before after noted only unadded => ?_⟩
  · obtain ⟨h, sheet, s₁, inner, s₂, begins, run, finished, finishes⟩ := compiled_reads standard run
    obtain ⟨additions, adding⟩ := exists_adding run
    exact ⟨_, additions, h, ⟨sheet, s₁, inner, s₂, begins, .here _, adding, finished, finishes⟩, rfl⟩
  · intro made
    obtain ⟨sheet, s₁, inner, s₂, begins, start, adding, finished, finishes⟩ := completes
    obtain ⟨accounted, early⟩ := accounted_of_silent standard begins start silent block
    have provided := (begins_ordered begins).2.run standard start
    obtain ⟨r₂, rest, b, late, ordered₂, provided₂, established, history, same⟩ :=
      exists_moment standard accounted early provided silent adding finished noted only unadded
    obtain ⟨rfl, -, none⟩ := definitions_only (noted ▸ only)
    obtain ⟨held, full, shows, each⟩ := established.composes standard ordered₂ provided₂ late (fun later grown => by
      rw [history, noted, List.append_assoc] at grown
      cases List.append_cancel_left grown
      exact none) finishes
    rw [← same] at full shows each
    have joined : ∀ {r₁ : Reader W}, Run c r r₁ → Run c r₁ ⟨s₂, [inner], h⟩ → s'.tree.Sound ∧
        ∀ block site, r₁.Site block site → Joined block site s' := by
      intro r₁ first last
      have passes : Passes c name text? (.initial w) r₁ (rootOf inner s₂) _ :=
        ⟨sheet, s₁, inner, s₂, h, begins, start.trans first, last, finished, rfl, rfl⟩
      exact passes.joined standard finishes
    refine ⟨?_, shows, fun site used => ?_, each, composed_eq_arranged, fun strip artifact s'' run => ?_⟩
    · have whole := accounted.run standard adding
      have added : openings ["addblock"] d.block h = _ := whole.added
      have nothing : s₂.tree.standing ["addblock"] d.block (openNodes [inner]) = 0 :=
        whole.finished finished (by decide)
      rw [added, nothing, Nat.zero_add]
      rfl
    · obtain ⟨earlier, later, parts⟩ := List.append_of_mem used
      have noted' : h = r.history ++ (earlier ++ .used d.block site :: later) := by
        rw [silent]
        exact parts
      obtain ⟨r₁, r₃, first, last, before', step, after', -, -, event⟩ := adding.at_event noted'
      have made := site_of_used standard (accounted.run standard before').ordered.shaped step event
      obtain ⟨b', known, leads⟩ := (joined before'.run (.on step after'.run)).2 d.block site made
      cases held.known.symm.trans known
      exact shows_of_target (leads.trans held.leads) full
    · exact artifact_writes standard (joined (.here r) adding.run).1 run

/-- A page that adds to its own block on both sides, and refers to it. -/
def margins : MemorySources :=
  .ofList [("page", "\x7bblock id=s\x7dS\x7b/block\x7d|\x7baddblock id=s\x7d1\x7b/addblock\x7d" ++
    "\x7baddblock id=s position=before\x7d2\x7b/addblock\x7d\x7bputblock id=s\x7d")]

/-- The block and the reference show what has been added on both sides. -/
theorem page_shows_its_margins :
    let c : Compiler MemorySources := ⟨Library.memory, standardTable⟩
    let block : Definition := ⟨"s", 1, ⟨1⟩, true, [.text "S"]⟩
    let shown : List Element := [.node ⟨5⟩, .text "\n", .text "S", .text "\n", .node ⟨3⟩]
    ∃ r additions h t s', Completes c "page" none (.initial margins) r additions h t s' ∧ r.history = [] ∧
      h = [.opened "block" "s" []] ++ .defined block ::
        [.opened "addblock" "s" [], .opened "addblock" "s" [], .used "s" ⟨6⟩] ∧
      definitions "s" h = [block] ∧ openings ["addblock"] "s" [.opened "block" "s" []] = 0 ∧
      Shows s'.tree block.site shown ∧ Shows s'.tree ⟨6⟩ shown ∧ Shows s'.tree ⟨3⟩ [.text "1"] := by
  intro c block shown
  let made : List Addition := [⟨"s", ⟨1⟩, .after, ⟨2⟩, ⟨3⟩, [.text "1"]⟩, ⟨"s", ⟨1⟩, .before, ⟨4⟩, ⟨5⟩, [.text "2"]⟩]
  have read : (complete? c 0 40 "page" (.initial margins)).map (fun p => (p.1.history, p.2.1, p.2.2.1)) =
      some ([], made, [.opened "block" "s" [], .defined block, .opened "addblock" "s" [], .opened "addblock" "s" [],
        .used "s" ⟨6⟩]) := by decide +kernel
  obtain ⟨⟨r, additions, h, t, s'⟩, read, same⟩ := Option.map_eq_some_iff.mp read
  simp only [Prod.mk.injEq] at same
  obtain ⟨silent, rfl, rfl⟩ := same
  have completes := completes_of_complete? read
  have only : definitions "s" [.opened "block" "s" [], .defined block, .opened "addblock" "s" [],
      .opened "addblock" "s" [], .used "s" ⟨6⟩] = [block] := by decide
  have unadded : openings ["addblock"] "s" [.opened "block" "s" []] = 0 := by decide
  obtain ⟨-, place, references, each, -⟩ := (late_additions_all_show (c := c) rfl "page" none margins).2 r made _ t s'
    completes silent "s" block [.opened "block" "s" []] _ rfl only unadded
  refine ⟨r, made, _, t, s', completes, silent, rfl, only, unadded, place, references ⟨6⟩ (by decide), ?_⟩
  exact (each ⟨"s", ⟨1⟩, .after, ⟨2⟩, ⟨3⟩, [.text "1"]⟩ (by decide)).2.1

end Whole

end Compile

end Stencil
