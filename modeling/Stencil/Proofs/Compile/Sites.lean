import Stencil.Proofs.Compile.Joining

/-!
The handles that are made for a block. Each is joined with its block at once, waits for it, or is a `block` that is
still open; the ends of the sources and the last links join the rest.
-/
namespace Stencil

open Tag

/-- The head of the tag that the next piece opens. -/
def Reader.opens? {W : Type} (r : Reader W) : Option Markup.Head :=
  match r.sheets with
  | ⟨_, token :: _, _⟩ :: _ => if token.kind = .openTag then (Markup.Head.parse token.content).toOption else none
  | _ => none

/-- The node that the next piece closes. -/
def Reader.closes? {W : Type} (r : Reader W) : Option NodeId :=
  match r.sheets with
  | ⟨_, token :: _, top :: _⟩ :: _ => if token.kind = .closeTag then some top else none
  | _ => none

/-- A handle for a block, as it is made by the next piece or is registered by now. -/
inductive Reader.Site {W : Type} (r : Reader W) (block : String) : NodeId → Prop where
  /-- The node of a `block` that opens. -/
  | opens {head : Markup.Head} (next : r.opens? = some head) (tag : head.name = "block") (names : head.block = block) :
      r.Site block ⟨r.state.tree.size⟩
  /-- The node of a `putblock`. -/
  | refers {head : Markup.Head} (next : r.opens? = some head) (tag : head.name = "putblock")
      (names : head.block = block) : r.Site block ⟨r.state.tree.size⟩
  /-- The node that takes the content of a `blockdef` when it closes. -/
  | takes {top : NodeId} (next : r.closes? = some top) (tag : (r.state.tree.own top).tag = "blockdef")
      (names : (r.state.tree.own top).param "id" = block) : r.Site block ⟨r.state.tree.size⟩
  /-- The node that is registered for the block. -/
  | registered {b : Block} (known : Keyed.get? block r.state.blocks = some b) : r.Site block b.node

namespace Compile

variable {W : Type} {c : Compiler W} {s s' s'' : CompileState W} {top : NodeId} {below stack : List NodeId}
  {token : Markup.Token} {block : String} {site : NodeId}

/-! #### Handles for blocks -/

/-- A handle that was made for a block is joined with it, waits for it, or is a `block` that is still open. -/
inductive Bound (block : String) (site : NodeId) (r : Reader W) : Prop where
  | joined (same : Joined block site r.state)
  | waiting (mem : site ∈ r.state.deferred) (names : (r.state.tree.own site).param "id" = block)
  | standing {sheet : Sheet} (mem : sheet ∈ r.sheets) (isOpen : site ∈ sheet.stack)
      (tag : (r.state.tree.own site).tag = "block") (inner : (r.state.tree.own site).isRoot = false)
      (names : (r.state.tree.own site).param "id" = block)

section Sheets

variable {sheets sheets' outer : List Sheet} {sheet inner : Sheet} {frame : Frame} {tokens : List Markup.Token}
  {h h' : List BlockEvent} {touched : List NodeId} {head : Markup.Head} {id root : NodeId}

/-- A handle stays bound while the compilation goes on, if every `block` that is closed is joined with its block. -/
theorem Bound.keep (bound : Bound block site ⟨s, sheets, h⟩) (shaped : Shaped ⟨s, sheets, h⟩) (joins : Joins s s')
    (keeps : s.tree.Keeps s'.tree touched)
    (closes : ∀ sheet ∈ sheets, ∀ id ∈ sheet.stack, (s.tree.own id).tag = "block" → (s.tree.own id).isRoot = false →
      (∃ sheet' ∈ sheets', id ∈ sheet'.stack) ∨ Joined ((s.tree.own id).param "id") id s') :
    Bound block site ⟨s', sheets', h'⟩ := by
  cases bound with
  | joined same => exact .joined (same.keep joins)
  | waiting mem names =>
    refine .waiting (joins.deferred mem) ?_
    rw [keeps.param (shaped.grounded.deferred site mem)]
    exact names
  | standing mem isOpen tag inner names =>
    have old := (shaped.upright _ mem).old site isOpen
    rcases closes _ mem site isOpen tag inner with ⟨sheet', mem', isOpen'⟩ | same
    · refine .standing mem' isOpen' ?_ ?_ ?_
      · rw [keeps.tag old]
        exact tag
      · rw [keeps.roots site old]
        exact inner
      · rw [keeps.param old]
        exact names
    · have names : (s.tree.own site).param "id" = block := names
      rw [names] at same
      exact .joined same

/-- The innermost source goes on. -/
theorem Bound.go {tokens' : List Markup.Token} (bound : Bound block site ⟨s, ⟨frame, tokens, stack⟩ :: outer, h⟩)
    (shaped : Shaped ⟨s, ⟨frame, tokens, stack⟩ :: outer, h⟩) (joins : Joins s s') (keeps : s.tree.Keeps s'.tree touched)
    {stack' : List NodeId} (closes : ∀ id ∈ stack, (s.tree.own id).tag = "block" →
      id ∈ stack' ∨ Joined ((s.tree.own id).param "id") id s') :
    Bound block site ⟨s', ⟨frame, tokens', stack'⟩ :: outer, h'⟩ := by
  refine bound.keep shaped joins keeps fun sheet mem id isOpen tag _ => ?_
  rcases List.mem_cons.mp mem with rfl | mem
  · exact (closes id isOpen tag).imp_left fun isOpen => ⟨_, List.mem_cons_self, isOpen⟩
  · exact .inl ⟨sheet, List.mem_cons_of_mem _ mem, isOpen⟩

/-! #### Other templates -/

theorem joins_received (grounded : Grounded s) (head : Markup.Head) (id root : NodeId) :
    Joins s (received head id root s) := by
  unfold received
  split
  · exact .of_same rfl rfl rfl
  · exact joins_relink grounded ((Tree.SameLinks.clear s.tree id).trans (.append _ id _))

/-- A tag that had a template read goes on with its root, and is closed. -/
theorem Bound.resume (bound : Bound block site ⟨s, ⟨frame, token :: tokens, id :: top :: below⟩ :: outer, h⟩)
    (shaped : Shaped ⟨s, ⟨frame, token :: tokens, id :: top :: below⟩ :: outer, h⟩)
    (waits : Waiting s.tree ⟨frame, token :: tokens, id :: top :: below⟩) (head : Markup.Head) (root : NodeId) :
    Bound block site ⟨(settled id top below (received head id root s)).2,
      ⟨frame, tokens, (settled id top below (received head id root s)).1⟩ :: outer, h⟩ := by
  have goes : Continues s (received head id root s)
      [s.tree.target id, (s.tree.clear id).target id, (received head id root s).tree.target top] :=
    continues_received head id root s (by simp) (by simp)
  have old := (shaped.upright _ List.mem_cons_self).old id List.mem_cons_self
  have other : (s.tree.own id).tag ≠ "block" := by
    rcases waits.tag with same | same <;> rw [same] <;> decide
  have grounded := shaped.grounded.received head id root
  rw [settled_received old waits.stands]
  refine bound.go shaped ((joins_received shaped.grounded head id root).trans (joins_attach grounded top (.node id)))
    (goes.keeps.trans (Tree.Keeps.append _ top _ (by simp))) fun other' mem tag => ?_
  rcases List.mem_cons.mp mem with rfl | mem
  · exact absurd tag other
  · exact .inl mem

/-- A tag that has a template read opens. -/
theorem Bound.refer (bound : Bound block site ⟨s, ⟨frame, token :: tokens, top :: below⟩ :: outer, h⟩)
    (shaped : Shaped ⟨s, ⟨frame, token :: tokens, top :: below⟩ :: outer, h⟩) (head : Markup.Head) :
    Bound block site ⟨referring frame.name token.line top head s,
      ⟨frame, token :: tokens, ⟨s.tree.size⟩ :: top :: below⟩ :: outer, h⟩ :=
  bound.go shaped (joins_withNode shaped.grounded rfl) (continues_withNode s _ []).keeps
    fun _ mem _ => .inl (List.mem_cons_of_mem _ mem)

/-- Another source is entered. -/
theorem Bound.enter (bound : Bound block site ⟨s, sheets, h⟩) (shaped : Shaped ⟨s, sheets, h⟩)
    (laid : Laid s sheet s') : Bound block site ⟨s', sheet :: sheets, h⟩ := by
  obtain ⟨-, name, w, sources, same⟩ := laid
  have joins : Joins s (withNode s (rootNode name)) := joins_withNode shaped.grounded rfl
  have joins : Joins s s' := joins.trans (by subst same; exact .of_same rfl rfl rfl)
  have keeps : s.tree.Keeps s'.tree [] := by
    subst same
    exact (continues_withNode s (rootNode name) []).keeps
  refine bound.keep shaped joins keeps fun other mem id isOpen _ _ => ?_
  exact .inl ⟨other, List.mem_cons_of_mem _ mem, isOpen⟩

/-- A source that has been read to its end leaves no block open. -/
theorem Bound.leave (bound : Bound block site ⟨s, sheet :: sheets, h⟩) (shaped : Shaped ⟨s, sheet :: sheets, h⟩)
    (finished : Finished sheet s) : Bound block site ⟨left sheet s, sheets, h⟩ := by
  obtain ⟨root, stack, isRoot⟩ := finished_stack (shaped.upright _ List.mem_cons_self) finished
  have joins : Joins s (left sheet s) := .of_same rfl rfl rfl
  have keeps : s.tree.Keeps (left sheet s).tree [] := .refl _ _
  refine bound.keep shaped joins keeps fun other mem id isOpen _ inner => ?_
  rcases List.mem_cons.mp mem with rfl | mem
  · rw [stack] at isOpen
    cases List.mem_singleton.mp isOpen
    rw [isRoot] at inner
    cases inner
  · exact .inl ⟨other, mem, isOpen⟩

/-! #### Steps -/

variable {r r' : Reader W}

/-- What is together stays together, and what is registered stays so. -/
theorem step_joins (standard : c.table = standardTable) (shaped : Shaped r) (step : Step c r r') :
    Joins r.state r'.state := by
  have goesOn : ∀ {s : CompileState W} {id top : NodeId} {below : List NodeId}, Grounded s →
      Joins s (settled id top below s).2 := by
    intro s id top below grounded
    unfold settled
    split
    · exact .refl s
    · exact joins_attach grounded top (.node id)
  have refers : ∀ {s : CompileState W} (file : String) (line : Nat) (top : NodeId) (head : Markup.Head), Grounded s →
      Joins s (referring file line top head s) := fun _ _ _ _ grounded => joins_withNode grounded rfl
  cases step with
  | put reads run =>
    obtain ⟨top, below, rfl, old, effect⟩ := shaped.effect standard reads run
    exact effect_joins effect shaped.grounded old
  | again reads checked again =>
    obtain ⟨referred, -⟩ := shaped.refer reads
    obtain ⟨w, rfl⟩ := again_ok again
    have grounded := (referred.world w).grounded
    refine (Joins.trans ?_ (joins_received grounded _ _ _)).trans (goesOn (grounded.received _ _ _))
    exact (refers _ _ _ _ shaped.grounded).trans (.of_same rfl rfl rfl)
  | enter reads checked enters =>
    obtain ⟨referred, -⟩ := shaped.refer reads
    obtain ⟨-, name, w, sources, same⟩ := enters_laid enters
    subst same
    refine ((refers _ _ _ _ shaped.grounded).trans (joins_withNode (n := rootNode name) referred.grounded rfl)).trans ?_
    exact .of_same rfl rfl rfl
  | leave finished reads =>
    have grounded := shaped.leave.grounded
    refine (Joins.trans ?_ (joins_received grounded _ _ _)).trans (goesOn (grounded.received _ _ _))
    exact .of_same rfl rfl rfl

theorem run_joins (standard : c.table = standardTable) (shaped : Shaped r) (run : Run c r r') :
    Joins r.state r'.state := by
  induction run with
  | here => exact .refl _
  | on step rest ih => exact (step_joins standard shaped step).trans (ih (shaped.step standard step))

theorem Bound.world (bound : Bound block site ⟨s, sheets, h⟩) (w : W) :
    Bound block site ⟨{ s with world := w }, sheets, h⟩ := by
  cases bound with
  | joined same => exact .joined same
  | waiting mem names => exact .waiting mem names
  | standing mem isOpen tag inner names => exact .standing mem isOpen tag inner names

/-- No step loses a handle of a block. -/
theorem Bound.step (standard : c.table = standardTable) (bound : Bound block site r) (shaped : Shaped r)
    (step : Step c r r') : Bound block site r' := by
  cases step with
  | put reads run =>
    obtain ⟨top, below, rfl, old, effect⟩ := shaped.effect standard reads run
    obtain ⟨-, ⟨touched, goes⟩, -⟩ := effect_shape effect shaped.grounded old
    exact bound.go shaped (effect_joins effect shaped.grounded old) goes.keeps
      fun id mem tag => effect_closes effect shaped.grounded old mem tag
  | again reads checked again =>
    obtain ⟨referred, waits⟩ := shaped.refer reads
    obtain ⟨w, rfl⟩ := again_ok again
    exact ((bound.refer shaped _).world w).resume (referred.world w) waits _ _
  | enter reads checked enters =>
    obtain ⟨referred, -⟩ := shaped.refer reads
    exact (bound.refer shaped _).enter referred (enters_laid enters)
  | leave finished reads =>
    exact (bound.leave shaped finished).resume shaped.leave (shaped.waiting _ List.mem_cons_self) _ _

theorem Bound.run (standard : c.table = standardTable) (bound : Bound block site r) (shaped : Shaped r)
    (run : Run c r r') : Bound block site r' := by
  induction run with
  | here => exact bound
  | on step rest ih => exact ih (bound.step standard shaped step) (shaped.step standard step)

/-! #### Handles that a piece makes -/

theorem of_opens {head : Markup.Head}
    (next : Reader.opens? ⟨s, ⟨frame, token :: tokens, stack⟩ :: outer, h⟩ = some head) :
    token.kind = .openTag ∧ Markup.Head.parse token.content = .ok head := by
  unfold Reader.opens? at next
  dsimp only at next
  split at next
  · rename_i kind
    cases parsed : Markup.Head.parse token.content with
    | error e =>
      rw [parsed] at next
      cases next
    | ok found =>
      rw [parsed] at next
      cases next
      exact ⟨kind, rfl⟩
  · cases next

theorem of_closes {top' : NodeId}
    (next : Reader.closes? ⟨s, ⟨frame, token :: tokens, top :: below⟩ :: outer, h⟩ = some top') :
    token.kind = .closeTag ∧ top' = top := by
  unfold Reader.closes? at next
  dsimp only at next
  split at next
  · rename_i kind
    cases next
    exact ⟨kind, rfl⟩
  · cases next

/-- Nothing comes after the end of a source. -/
theorem nothing_left (finished : sheet.tokens = []) :
    Reader.opens? ⟨s, sheet :: outer, h⟩ = none ∧ Reader.closes? ⟨s, sheet :: outer, h⟩ = none := by
  obtain ⟨frame, tokens, stack⟩ := sheet
  cases finished
  exact ⟨rfl, rfl⟩

/-- The step after a piece is known: a tag that reads a template is for no block. -/
theorem step_opens (standard : c.table = standardTable) (shaped : Shaped r) {head : Markup.Head}
    (next : r.opens? = some head) (plain : head.name ≠ "extends" ∧ head.name ≠ "include") (step : Step c r r') :
    ∃ frame token tokens top below outer stack, token.kind = .openTag ∧
      Markup.Head.parse token.content = .ok head ∧ top.index < r.state.tree.size ∧
      Effect r.state frame.name top below token r'.state stack ∧ r'.sheets = ⟨frame, tokens, stack⟩ :: outer := by
  have other : ∀ {token : Markup.Token} {head' : Markup.Head}, token.reading? = some head' →
      Markup.Head.parse token.content = .ok head → False := by
    intro token head' reads parsed
    obtain ⟨-, parsed', either⟩ := of_reading reads
    cases parsed.symm.trans parsed'
    exact either.elim plain.1 plain.2
  cases step with
  | put reads run =>
    obtain ⟨kind, parsed⟩ := of_opens next
    obtain ⟨top, below, rfl, old, effect⟩ := shaped.effect standard reads run
    exact ⟨_, _, _, top, below, _, _, kind, parsed, old, effect, rfl⟩
  | again reads => exact (other reads (of_opens next).2).elim
  | enter reads => exact (other reads (of_opens next).2).elim
  | leave finished =>
    rw [(nothing_left finished.1).1] at next
    cases next

theorem step_closes (standard : c.table = standardTable) (shaped : Shaped r) {id : NodeId}
    (next : r.closes? = some id) (step : Step c r r') :
    ∃ frame token tokens below outer stack, token.kind = .closeTag ∧ id.index < r.state.tree.size ∧
      Effect r.state frame.name id below token r'.state stack ∧ r'.sheets = ⟨frame, tokens, stack⟩ :: outer := by
  cases step with
  | put reads run =>
    obtain ⟨top, below, rfl, old, effect⟩ := shaped.effect standard reads run
    obtain ⟨kind, rfl⟩ := of_closes next
    exact ⟨_, _, _, below, _, _, kind, old, effect, rfl⟩
  | again reads =>
    obtain ⟨kind, -⟩ := of_closes next
    exact absurd (kind.symm.trans (of_reading reads).1) (by decide)
  | enter reads =>
    obtain ⟨kind, -⟩ := of_closes next
    exact absurd (kind.symm.trans (of_reading reads).1) (by decide)
  | leave finished =>
    rw [(nothing_left finished.1).2] at next
    cases next

/-- A handle is bound as soon as it is there. -/
theorem bound_of_site (standard : c.table = standardTable) (shaped : Shaped r) (made : r.Site block site)
    (step : Step c r r') : Bound block site r' := by
  cases made with
  | @opens head next tag names =>
    obtain ⟨frame, token, tokens, top, below, outer, stack, kind, parsed, -, effect, sheets⟩ :=
      step_opens standard shaped next (by rw [tag]; decide) step
    obtain ⟨rfl, same⟩ := effect_opened effect kind parsed tag
    have own : r'.state.tree.own ⟨r.state.tree.size⟩ = Node.opened frame.name token.line top head true := by
      rw [same]
      exact own_blockOpened _ _
    have inner : (⟨frame, tokens, ⟨r.state.tree.size⟩ :: top :: below⟩ : Sheet) ∈ r'.sheets := by
      rw [sheets]
      exact List.mem_cons_self
    refine .standing inner List.mem_cons_self ?_ ?_ ?_
    · rw [own]
      exact tag
    · rw [own]
      rfl
    · rw [own]
      exact names
  | @refers head next tag names =>
    obtain ⟨frame, token, tokens, top, below, outer, stack, kind, parsed, -, effect, -⟩ :=
      step_opens standard shaped next (by rw [tag]; decide) step
    have same := effect_referred effect kind parsed tag
    let n := Node.opened frame.name token.line top head false
    have placed : Grounded (putblockPlaced n r.state) := shaped.grounded.putblockPlaced rfl
    have linked : Joined (n.param "id") ⟨r.state.tree.size⟩ (putblockPlaced n r.state) ∨ _ :=
      putblockPlaced_joined shaped.grounded rfl
    rcases linked with joined | waits
    · refine .joined ?_
      rw [same, ← names]
      exact joined.keep (joins_attach placed _ _)
    · refine .waiting (by rw [same]; exact waits) ?_
      obtain ⟨next, own⟩ := own_putblockPlaced n r.state
      have keeps := Tree.Keeps.append (putblockPlaced n r.state).tree top (.node ⟨r.state.tree.size⟩)
        (List.mem_singleton_self _)
      have old : (⟨r.state.tree.size⟩ : NodeId).index < (putblockPlaced n r.state).tree.size :=
        lt_putblockPlaced n r.state
      have kept := keeps.param old "id"
      rw [own] at kept
      rw [same]
      exact kept.trans names
  | takes next tag names =>
    obtain ⟨frame, token, tokens, below, outer, stack, kind, old, effect, -⟩ := step_closes standard shaped next step
    obtain ⟨parent, same⟩ := effect_defined effect kind tag
    refine .joined ?_
    rw [same, ← names]
    exact (blockdefClosed_joins shaped.grounded _).2.keep (joins_attach (shaped.grounded.blockdefClosed _) _ _)
  | registered known => exact Bound.step standard (.joined (.of_known known)) shaped step

end Sheets

/-! #### Whole compilations -/

/-- The sources of a compilation are read from the first piece to the last, and this is a moment on the way. -/
def Passes (c : Compiler W) (name : String) (text? : Option String) (s : CompileState W) (r : Reader W) (root : NodeId)
    (s' : CompileState W) : Prop :=
  ∃ sheet s₁ inner s₂ h, Begins c name text? s sheet s₁ ∧ Run c ⟨s₁, [sheet], []⟩ r ∧ Run c r ⟨s₂, [inner], h⟩ ∧
    Finished inner s₂ ∧ root = rootOf inner s₂ ∧
    s' = if text?.isSome then { s₂ with frames := s₂.frames.tail } else left inner s₂

theorem shaped_initial (w : W) : Shaped ⟨.initial w, [], []⟩ :=
  ⟨⟨Tree.sound_empty, fun block b known => (by cases known), fun id mem => (by cases mem)⟩, rfl,
    fun sheet mem => (by cases mem), fun sheet mem => (by cases mem)⟩

/-- The last links join what waited. -/
theorem linkDeferred_joins {ids : List NodeId} (grounded : Grounded s) (old : ∀ id ∈ ids, id.index < s.tree.size)
    (run : linkDeferred ids s = (.ok (), s')) :
    Joins s s' ∧ s'.tree.Sound ∧ ∀ id ∈ ids, Joined ((s.tree.own id).param "id") id s' := by
  induction ids generalizing s with
  | nil =>
    cases run
    exact ⟨.refl _, grounded.sound, fun id mem => (by cases mem)⟩
  | cons id ids ih =>
    obtain ⟨small, rest⟩ := List.forall_mem_cons.mp old
    rw [linkDeferred_cons] at run
    cases found : Keyed.get? ((s.tree.own id).param "id") s.blocks with
    | none =>
      rw [found] at run
      cases run
    | some b =>
      rw [found] at run
      have keeps := Tree.Keeps.redirect s.tree id b.node []
      have linked := joins_redirect grounded small b.node
      have here : Joined ((s.tree.own id).param "id") id { s with tree := s.tree.redirect id b.node } :=
        ⟨b, found, target_redirect_eq grounded small b.node⟩
      obtain ⟨joins, sound, joined⟩ := ih (grounded.redirect small (grounded.blocks _ b found))
        (fun other mem => Nat.lt_of_lt_of_le (rest other mem) keeps.grown) run
      refine ⟨linked.trans joins, sound, List.forall_mem_cons.mpr ⟨here.keep joins, fun other mem => ?_⟩⟩
      rw [← keeps.param (rest other mem)]
      exact joined other mem

section Whole

variable {name : String} {text? : Option String} {w : W} {r : Reader W} {root : NodeId}

theorem Passes.shaped (standard : c.table = standardTable) (passes : Passes c name text? (.initial w) r root s') :
    Shaped r := by
  obtain ⟨sheet, s₁, inner, s₂, h, begins, before, -⟩ := passes
  exact ((shaped_initial w).enter (fun _ mem => by cases mem) (begins_laid begins)).run standard before

/-- What is registered at some moment is registered in the end. -/
theorem Passes.joins (standard : c.table = standardTable) (passes : Passes c name text? (.initial w) r root s') :
    Joins r.state s' := by
  have shaped := passes.shaped standard
  obtain ⟨sheet, s₁, inner, s₂, h, begins, before, after, finished, -, rfl⟩ := passes
  refine (run_joins standard shaped after).trans ?_
  split
  · exact .of_same rfl rfl rfl
  · exact .of_same rfl rfl rfl

theorem Passes.grounded (standard : c.table = standardTable) (passes : Passes c name text? (.initial w) r root s') :
    Grounded s' := by
  have shaped := passes.shaped standard
  obtain ⟨sheet, s₁, inner, s₂, h, -, -, after, -, -, rfl⟩ := passes
  have grounded := (shaped.run standard after).leave.grounded
  cases text? with
  | none => exact grounded
  | some text => exact ⟨grounded.sound, grounded.blocks, grounded.deferred⟩

/-- After the last piece a handle of a block is joined with it, or waits for it. -/
theorem Passes.bound (standard : c.table = standardTable) (passes : Passes c name text? (.initial w) r root s')
    (made : r.Site block site) :
    Joined block site s' ∨ site ∈ s'.deferred ∧ (s'.tree.own site).param "id" = block := by
  have shaped := passes.shaped standard
  obtain ⟨sheet, s₁, inner, s₂, h, begins, before, after, finished, -, rfl⟩ := passes
  have bound : Bound block site ⟨s₂, [inner], h⟩ := by
    cases after with
    | here =>
      cases made with
      | opens next | refers next =>
        rw [(nothing_left finished.1).1] at next
        cases next
      | takes next =>
        rw [(nothing_left finished.1).2] at next
        cases next
      | registered known => exact .joined (.of_known known)
    | on step rest => exact (bound_of_site standard shaped made step).run standard (shaped.step standard step) rest
  have ends : Joined block site (left inner s₂) ∨
      site ∈ (left inner s₂).deferred ∧ ((left inner s₂).tree.own site).param "id" = block := by
    cases bound.leave (shaped.run standard after) finished with
    | joined same => exact .inl same
    | waiting mem names => exact .inr ⟨mem, names⟩
    | standing mem => cases mem
  cases text? with
  | none => exact ends
  | some text => exact ends

/-- In the end all handles of a block are joined with it, and nothing leads in circles. -/
theorem Passes.joined (standard : c.table = standardTable) (passes : Passes c name text? (.initial w) r root s')
    {t : Template} (finishes : finish name root s' = (.ok t, s'')) :
    s''.tree.Sound ∧ ∀ block site, r.Site block site → Joined block site s'' := by
  have grounded := passes.grounded standard
  obtain ⟨linked, -⟩ := finish_parts finishes
  have cleared : Grounded { s' with deferred := [] } := ⟨grounded.sound, grounded.blocks, fun _ mem => by cases mem⟩
  obtain ⟨joins, sound, joined⟩ := linkDeferred_joins cleared grounded.deferred linked
  refine ⟨sound, fun block site made => ?_⟩
  rcases passes.bound standard made with same | ⟨mem, names⟩
  · exact Joined.keep (s := { s' with deferred := [] }) same joins
  · rw [← names]
    exact joined site mem

end Whole

end Compile

end Stencil
