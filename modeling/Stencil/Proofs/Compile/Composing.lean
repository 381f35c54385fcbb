import Stencil.Proofs.Compile.Additions
import Stencil.Proofs.Compile.Overriding

/-!
What a block is composed of in the end. From the moment when a block has closed its body is what the additions make
of it, in the order in which they close, and the block stays what is shown by its name unless another definition that
is not nested deeper comes.
-/
namespace Stencil

open Tag

namespace Compile

variable {W : Type} {c : Compiler W} {s s' : CompileState W} {t' : Tree} {r r' : Reader W} {file block name : String}
  {b : Block} {top id holder source destination : NodeId} {below stack opens outer : List NodeId}
  {token : Markup.Token} {n : Node} {additions : List Addition}

/-! #### What is known of a block -/

/-- A block is known by one node all the time, which leads to the same holder. -/
structure Held (block : String) (b : Block) (holder : NodeId) (s : CompileState W) : Prop where
  known : Keyed.get? block s.blocks = some b
  leads : s.tree.target b.node = holder

namespace Held

theorem of_same (held : Held block b holder s) (tree : s'.tree = s.tree) (blocks : s'.blocks = s.blocks) :
    Held block b holder s' := by
  refine ⟨?_, ?_⟩
  · rw [blocks]
    exact held.known
  · rw [tree]
    exact held.leads

theorem relink (held : Held block b holder s) (grounded : Grounded s) (links : s.tree.SameLinks t') :
    Held block b holder { s with tree := t' } :=
  ⟨held.known, (links.target_eq grounded.sound b.node).trans held.leads⟩

theorem redirect (held : Held block b holder s) (grounded : Grounded s) (old : source.index < s.tree.size)
    (stays : s.tree.target source = holder → s.tree.target destination = holder) :
    Held block b holder { s with tree := s.tree.redirect source destination } := by
  refine ⟨held.known, ?_⟩
  show (s.tree.redirect source destination).target b.node = holder
  rw [grounded.sound.target_redirect old]
  split
  · rename_i together
    exact stays (together.symm.trans held.leads)
  · exact held.leads

theorem define (held : Held block b holder s) {known : Block} (other : name ≠ block) :
    Held block b holder { s with blocks := Keyed.put name known s.blocks } :=
  ⟨(Keyed.get?_put_of_ne other known s.blocks).trans held.known, held.leads⟩

/-- The holder of a block has its name, and so has every node that leads to it. -/
theorem name_eq (held : Held block b holder s) (grounded : Grounded s) (named : Named s)
    (leads : s.tree.target id = holder) : (s.tree.own id).param "id" = block := by
  rw [← named.target grounded.sound id, leads, ← held.leads, named.target grounded.sound]
  exact named.blocks block b held.known

theorem withNode (held : Held block b holder s) (grounded : Grounded s) (settled : n.standsFor = none) :
    Held block b holder (withNode s n) :=
  held.relink grounded (.push settled s.tree)

theorem attach (held : Held block b holder s) (grounded : Grounded s) (parent : NodeId) (e : Element) :
    Held block b holder (attach parent e s) :=
  held.relink grounded (.append s.tree parent e)

theorem blockOpened (held : Held block b holder s) (grounded : Grounded s) (settled : n.standsFor = none) :
    Held block b holder (blockOpened n s) := by
  unfold Compile.blockOpened
  split
  · rename_i unknown
    refine (held.withNode grounded settled).define fun same => ?_
    rw [same, held.known] at unknown
    cases unknown
  · exact held.withNode grounded settled

theorem putblockPlaced (held : Held block b holder s) (grounded : Grounded s) (settled : n.standsFor = none) :
    Held block b holder (putblockPlaced n s) := by
  have new := held.withNode grounded settled
  have alone := lone_new grounded settled
  unfold Compile.putblockPlaced
  split
  · exact ⟨new.known, new.leads⟩
  · refine new.redirect (grounded.withNode settled) alone.old fun leads => ?_
    rw [alone.here.target_eq] at leads
    exact absurd (new.leads.trans leads.symm) (alone.apart_known new.known)

/-- A definition that closes takes the place of no block of another name, and not of one that is shallower. -/
theorem settle (held : Held block b holder s) (grounded : Grounded s) (named : Named s) {definition : NodeId}
    (old : definition.index < s.tree.size) (names : (s.tree.own definition).param "id" = name)
    (kept : name = block → b.depth < s.frames.length) : Held block b holder (settle definition name s) := by
  have same : ∀ {id : NodeId}, (s.tree.own id).param "id" = name → s.tree.target id = holder → name = block :=
    fun names leads => names.symm.trans (held.name_eq grounded named leads)
  unfold Compile.settle
  split
  · rename_i unknown
    refine held.define fun here => ?_
    rw [here, held.known] at unknown
    cases unknown
  · rename_i known found
    split
    · exact held
    · split
      · refine held.redirect grounded old fun leads => ?_
        cases same names leads
        cases held.known.symm.trans found
        exact held.leads
      · rename_i shallow
        have other : name ≠ block := by
          intro here
          subst here
          cases held.known.symm.trans found
          exact shallow (kept rfl)
        have apart : Held block b holder { s with tree := s.tree.redirect known.node definition } :=
          held.redirect grounded (grounded.blocks name known found)
            fun leads => absurd (same (named.blocks name known found) leads) other
        exact apart.define other

end Held

/-- No piece takes the place of a block unless it is the end of a definition that is not deeper. -/
theorem effect_held (effect : Effect s file top below token s' stack) (unmixed : Unmixed s (top :: (below ++ outer)))
    (held : Held block b holder s)
    (kept : ∀ d, .defined d ∈ BlockEvent.ofPiece token (top :: below) s → d.block = block → b.depth < d.depth) :
    Held block b holder s' := by
  obtain ⟨grounded, named⟩ : Grounded s ∧ Named s := ⟨unmixed.grounded, unmixed.named⟩
  have old := unmixed.old top List.mem_cons_self
  have moved : Passing s _ { s with tree := movedOut top s.tree } _ := unmixed.passing_movedOut List.mem_cons_self
  -- A definition of the block is noted when it closes.
  have deeper : ∀ inPlace : Bool, BlockEvent.ofPiece token (top :: below) s =
        [.defined ⟨(s.tree.own top).param "id", s.frames.length, top, inPlace, (s.tree.own top).body⟩] →
      (s.tree.own top).param "id" = block → b.depth < s.frames.length := by
    intro inPlace noted names
    exact kept ⟨_, _, top, inPlace, _⟩ (by rw [noted]; exact List.mem_singleton_self _) names
  cases effect with
  | text => exact held.attach grounded _ _
  | printed => exact (held.withNode grounded rfl).attach (grounded.withNode rfl) _ _
  | nested => exact held.withNode grounded rfl
  | localized => exact held.withNode grounded rfl
  | block => exact held.blockOpened grounded rfl
  | elseIf => exact (held.withNode grounded rfl).attach (grounded.withNode rfl) _ _
  | @otherwise head params =>
    have new : Grounded (withNode s (tagNode file token.line top head false params)) := grounded.withNode rfl
    have noted : Held block b holder (noteElse top (withNode s (tagNode file token.line top head false params))) :=
      (held.withNode grounded rfl).relink new (.update _ top (fun n => { n with hasElse := true }) fun _ => rfl)
    exact noted.attach (new.noteElse top) _ _
  | putblock => exact (held.putblockPlaced grounded rfl).attach (grounded.putblockPlaced rfl) _ _
  | adding => exact held.blockOpened grounded rfl
  | closed => exact held.attach grounded _ _
  | closedBlock kind nested inner tag =>
    have noted := deeper true (by rw [ofPiece_close kind, if_pos tag])
    have closed : Held block b holder (blockClosed top s) := by
      rw [blockClosed_eq]
      exact held.settle grounded named old rfl noted
    exact closed.attach (grounded.blockClosed old) _ _
  | closedBlockdef kind nested inner tag =>
    have noted := deeper false (by rw [ofPiece_close kind, if_neg (by rw [tag]; decide), if_pos tag])
    have closed : Held block b holder (blockdefClosed top s) := by
      have names : ((movedOut top s.tree).own ⟨s.tree.size⟩).param "id" = (s.tree.own top).param "id" :=
        unmixed.param_movedOut top
      rw [blockdefClosed_eq top s grounded.blocks]
      have held' : Held block b holder { s with tree := movedOut top s.tree } :=
        held.relink grounded (links_movedOut top s.tree)
      exact held'.settle moved.unmixed.grounded moved.unmixed.named (unmixed.lone_movedOut top).old names noted
    exact closed.attach (grounded.blockdefClosed top) _ _
  | @closedAdding parent under position =>
    have closed : Held block b holder (addblockClosed position top s) := by
      unfold addblockClosed
      split
      · exact held
      · split
        · exact held
        · exact held.relink grounded ((links_movedOut top s.tree).trans (links_added _ _ position _))
    exact closed.attach (grounded.addblockClosed position top) _ _

/-- No step takes the place of a block unless it ends a definition that is not deeper. -/
theorem step_held (standard : c.table = standardTable) (ordered : Ordered r) (held : Held block b holder r.state)
    (step : Step c r r') (kept : ∀ later, r'.history = r.history ++ later →
      ∀ d, .defined d ∈ later → d.block = block → b.depth < d.depth) : Held block b holder r'.state := by
  have shaped := ordered.shaped
  have resumes : ∀ {s : CompileState W} {id top : NodeId} {below : List NodeId} (head : Markup.Head) (root : NodeId),
      Grounded s → Held block b holder s → Held block b holder (settled id top below (received head id root s)).2 := by
    intro s id top below head root grounded held
    have got : Held block b holder (received head id root s) := by
      unfold received
      split
      · exact ⟨held.known, held.leads⟩
      · exact held.relink grounded ((Tree.SameLinks.clear s.tree id).trans (.append _ id _))
    unfold settled
    split
    · exact got
    · exact got.attach (grounded.received head id root) top _
  cases step with
  | put reads run =>
    obtain ⟨top, below, rfl, old, effect⟩ := shaped.effect standard reads run
    exact effect_held effect ordered.unmixed held (kept _ rfl)
  | @again s s₁ frame token tokens top root below outer h head reads checked again =>
    obtain ⟨referred, -⟩ := shaped.refer reads
    obtain ⟨w, rfl⟩ := again_ok again
    have opened : Held block b holder (referring frame.name token.line top head s) := held.withNode shaped.grounded rfl
    exact resumes _ _ (referred.world w).grounded (opened.of_same rfl rfl)
  | @enter s s₁ frame token tokens top below outer h head sheet reads checked enters =>
    obtain ⟨referred, -⟩ := shaped.refer reads
    obtain ⟨-, name, w, sources, same⟩ := enters_laid enters
    have opened : Held block b holder (referring frame.name token.line top head s) := held.withNode shaped.grounded rfl
    subst same
    exact (opened.withNode (n := rootNode name) referred.grounded rfl).of_same rfl rfl
  | leave finished reads => exact resumes _ _ shaped.leave.grounded (held.of_same rfl rfl)

/-- As long as nothing takes the place of a block, what goes into its holder are the additions of its name. -/
theorem run_held (standard : c.table = standardTable) (ordered : Ordered r) (held : Held block b holder r.state)
    (adding : Adding c r additions r') (kept : ∀ later, r'.history = r.history ++ later →
      ∀ d, .defined d ∈ later → d.block = block → b.depth < d.depth) :
    Held block b holder r'.state ∧ ∀ a ∈ additions, a.into = holder ↔ a.block = block := by
  induction adding with
  | here => exact ⟨held, fun a mem => by cases mem⟩
  | @on r r₁ r₂ additions step rest ih =>
    obtain ⟨more, first⟩ := step.history
    obtain ⟨later, second⟩ := rest.run.history
    have all := kept (more ++ later) (by rw [second, first, List.append_assoc])
    have held' : Held block b holder r₁.state := by
      refine step_held standard ordered held step fun more' same d mem => all d (List.mem_append_left _ ?_)
      rw [first] at same
      rwa [List.append_cancel_left same]
    obtain ⟨held'', names⟩ := ih (ordered.receives standard step).1 held' fun later' same d mem =>
      all d (List.mem_append_right _ (by rw [second] at same; rwa [List.append_cancel_left same]))
    refine ⟨held'', fun a mem => ?_⟩
    rcases List.mem_append.mp mem with mem | mem
    · have grounded := ordered.unmixed.grounded
      have named := ordered.unmixed.named
      have adds := Option.mem_toList.mp mem
      obtain ⟨-, name, -⟩ := of_addition adds
      rcases into_cases adds with ⟨b', known, -, into'⟩ | ⟨itself, into'⟩
      · constructor
        · intro taken
          rw [← named.blocks a.block b' known]
          exact held.name_eq grounded named (into'.symm.trans taken)
        · intro same
          rw [same] at known
          cases held.known.symm.trans known
          exact into'.trans held.leads
      · constructor
        · intro taken
          rw [← name]
          exact held.name_eq grounded named (into'.symm.trans taken)
        · intro same
          rw [into', ← itself b (same ▸ held.known)]
          exact held.leads
    · exact names a mem

/-! #### The last links -/

section Linking

variable {ids : List NodeId}

theorem linkDeferred_keeps (run : linkDeferred ids s = (.ok (), s')) : s.tree.Keeps s'.tree [] := by
  induction ids generalizing s with
  | nil =>
    cases run
    exact .refl _ _
  | cons id ids ih =>
    rw [linkDeferred_cons] at run
    split at run
    · cases run
    · exact (Tree.Keeps.redirect s.tree id _ []).trans (ih run)

theorem linkDeferred_lone (grounded : Grounded s) (lone : Lone s id) (closed : id ∉ ids)
    (old : ∀ other ∈ ids, other.index < s.tree.size) (run : linkDeferred ids s = (.ok (), s')) : Lone s' id := by
  induction ids generalizing s with
  | nil =>
    cases run
    exact lone
  | cons other ids ih =>
    obtain ⟨small, rest⟩ := List.forall_mem_cons.mp old
    rw [linkDeferred_cons] at run
    split at run
    · cases run
    · rename_i b known
      have apart : other ≠ id := fun same => closed (same ▸ List.mem_cons_self)
      have keeps := Tree.Keeps.redirect s.tree other b.node []
      exact ih (grounded.redirect small (grounded.blocks _ b known))
        (lone.redirect grounded small (lone.apart apart) (lone.apart_known known))
        (fun mem => closed (List.mem_cons_of_mem _ mem))
        (fun id mem => Nat.lt_of_lt_of_le (rest id mem) keeps.grown) run

theorem linkDeferred_held (grounded : Grounded s) (named : Named s) (held : Held block b holder s)
    (old : ∀ other ∈ ids, other.index < s.tree.size) (run : linkDeferred ids s = (.ok (), s')) :
    Held block b holder s' := by
  induction ids generalizing s with
  | nil =>
    cases run
    exact held
  | cons other ids ih =>
    obtain ⟨small, rest⟩ := List.forall_mem_cons.mp old
    rw [linkDeferred_cons] at run
    split at run
    · cases run
    · rename_i known found
      have keeps := Tree.Keeps.redirect s.tree other known.node []
      refine ih (grounded.redirect small (grounded.blocks _ known found))
        (named.redirect grounded (named.blocks _ known found).symm) ?_
        (fun id mem => Nat.lt_of_lt_of_le (rest id mem) keeps.grown) run
      refine held.redirect grounded small fun leads => ?_
      rw [held.name_eq grounded named leads] at found
      cases held.known.symm.trans found
      exact held.leads

/-- The last links are made after the last piece, in a state that differs in nothing else. -/
theorem linking_of_finish {sheet : Sheet} {text? : Option String} {root : NodeId} {t : Template}
    (finishes : finish name root
      (if text?.isSome then { s with frames := s.frames.tail } else left sheet s) = (.ok t, s')) :
    ∃ s₁ : CompileState W, s₁.tree = s.tree ∧ s₁.blocks = s.blocks ∧ s₁.deferred = [] ∧
      linkDeferred s.deferred s₁ = (.ok (), s') := by
  cases text? with
  | none => exact ⟨{ left sheet s with deferred := [] }, rfl, rfl, rfl, (finish_ok finishes).1⟩
  | some text => exact ⟨{ s with frames := s.frames.tail, deferred := [] }, rfl, rfl, rfl, (finish_ok finishes).1⟩

end Linking

/-! #### Whole compilations -/

section Whole

variable {text? : Option String} {w : W} {s₁ s₂ : CompileState W} {sheet inner : Sheet} {h : List BlockEvent}
  {t : Template}

theorem ordered_initial (w : W) : Unmixed (.initial w) (openNodes []) := by
  have settled : ∀ id, (CompileState.initial w).tree.Settled id := fun id => Tree.settled_of_size_le (Nat.zero_le _)
  refine ⟨⟨Tree.sound_empty, fun block b known => (by cases known), fun id mem => (by cases mem)⟩,
    ⟨fun id next leads => ?_, fun block b known => (by cases known)⟩, List.nodup_nil, fun id mem => (by cases mem),
    fun id mem => (by cases mem)⟩
  rw [settled id] at leads
  cases leads

theorem begins_ordered (begins : Begins c name text? (.initial w) sheet s₁) :
    Ordered ⟨s₁, [sheet], []⟩ ∧ Provided ⟨s₁, [sheet], []⟩ := by
  have laid := begins_laid begins
  have waits : ∀ first ∈ ([] : List Sheet).head?, Waiting (CompileState.initial w).tree first :=
    fun _ mem => by cases mem
  exact ⟨⟨(shaped_initial w).enter waits laid, ((ordered_initial w).passing_enter laid).unmixed⟩,
    (provided_initial w).enter waits laid (Provided.begins_root begins)⟩

theorem Ordered.run (standard : c.table = standardTable) (ordered : Ordered r) (run : Run c r r') : Ordered r' := by
  obtain ⟨additions, adding⟩ := exists_adding run
  exact (ordered.receives_run standard adding).1

/-- What the last links leave as it is. -/
structure Ends (s s' : CompileState W) : Prop where
  keeps : s.tree.Keeps s'.tree []
  shows : ∀ {id body}, Lone s id → Holds s.tree id body → Shows s'.tree id body
  held : ∀ {block b holder}, Held block b holder s → Held block b holder s'

theorem ends_of_finish (unmixed : Unmixed s opens) {root : NodeId} (finishes : finish name root
    (if text?.isSome then { s with frames := s.frames.tail } else left sheet s) = (.ok t, s')) : Ends s s' := by
  obtain ⟨s₁, tree, blocks, none, linked⟩ := linking_of_finish finishes
  have fewer : s₁.deferred ⊆ s.deferred := by
    rw [none]
    exact List.nil_subset _
  have unmixed' : Unmixed s₁ opens := unmixed.of_same tree blocks fewer
  have old : ∀ id ∈ s.deferred, id.index < s₁.tree.size := by
    rw [tree]
    exact unmixed.grounded.deferred
  have keeps := linkDeferred_keeps linked
  rw [tree] at keeps
  refine ⟨keeps, fun {id body} lone holds => ?_, fun {block b holder} held => ?_⟩
  · have lone' := linkDeferred_lone unmixed'.grounded (lone.of_same tree blocks fewer) lone.awaits old linked
    exact shows_of_target lone'.here.target_eq (holds.keep keeps lone.old List.not_mem_nil)
  · exact linkDeferred_held unmixed'.grounded unmixed'.named (held.of_same tree blocks) old linked

/-- A moment of a compilation, the additions that close after it, what has happened in the end, and the last state. -/
def Completes (c : Compiler W) (name : String) (text? : Option String) (s : CompileState W) (r : Reader W)
    (additions : List Addition) (h : List BlockEvent) (t : Template) (s' : CompileState W) : Prop :=
  ∃ sheet s₁ inner s₂, Begins c name text? s sheet s₁ ∧ Run c ⟨s₁, [sheet], []⟩ r ∧
    Adding c r additions ⟨s₂, [inner], h⟩ ∧ Finished inner s₂ ∧ finish name (rootOf inner s₂)
      (if text?.isSome then { s₂ with frames := s₂.frames.tail } else left inner s₂) = (.ok t, s')

/-- What is added in so many steps. -/
def addingFor (c : Compiler W) : Nat → Reader W → List Addition
  | 0, _ => []
  | n + 1, r =>
    match step? c r with
    | some r' => r.addition?.toList ++ addingFor c n r'
    | none => []

theorem adding_addingFor (c : Compiler W) (n : Nat) (r : Reader W) : Adding c r (addingFor c n r) (runFor c n r) := by
  induction n generalizing r with
  | zero => exact .here r
  | succ n ih =>
    unfold addingFor runFor
    cases goes : step? c r with
    | some r' => exact .on (step_of_step? goes) (ih r')
    | none => exact .here r

/-- The moment after so many steps of a compilation, with what is added after it. -/
def complete? (c : Compiler W) (before after : Nat) (name : String) (s : CompileState W) :
    Option (Reader W × List Addition × List BlockEvent × Template × CompileState W) :=
  match ask? c name s with
  | some (.inr sheet, s₁) =>
    let r := runFor c before ⟨s₁, [sheet], []⟩
    let r' := runFor c after r
    match r'.sheets with
    | [inner] =>
      if isFinished inner r'.state then
        match finish name (rootOf inner r'.state) (left inner r'.state) with
        | (.ok t, s') => some (r, addingFor c after r, r'.history, t, s')
        | (.error _, _) => none
      else none
    | _ => none
  | _ => none

theorem completes_of_complete? {before after : Nat}
    (read : complete? c before after name s = some (r, additions, h, t, s')) :
    Completes c name none s r additions h t s' := by
  unfold complete? at read
  split at read
  · rename_i sheet s₁ asked
    dsimp only at read
    split at read
    · rename_i inner alone
      split at read
      · rename_i finished
        split at read
        · rename_i finishes
          cases read
          have first := run_runFor c before ⟨s₁, [sheet], []⟩
          have rest := adding_addingFor c after (runFor c before ⟨s₁, [sheet], []⟩)
          generalize runFor c after (runFor c before ⟨s₁, [sheet], []⟩) = r' at *
          obtain ⟨s₂, sheets, h⟩ := r'
          dsimp only at alone finished finishes
          subst alone
          exact ⟨sheet, s₁, inner, s₂, enters_of_ask? asked, first, rest, finished_of_isFinished finished, finishes⟩
        · cases read
      · cases read
    · cases read
  · cases read

/-- What a block is composed of. From any moment when the block is known and no open node leads to it, all additions
that go into it are made one after the other: each of their nodes stands in the body once and has what stood in its
tag, the tag itself shows nothing, and what stood in the body before keeps its order. Unless a definition that is not
nested deeper closes later, these are all the additions by the name of the block, and the block shows this body. -/
theorem additions_compose_the_body (standard : c.table = standardTable) (name : String) (text? : Option String) (w : W)
    (r : Reader W) (additions : List Addition) (h : List BlockEvent) (t : Template) (s' : CompileState W)
    (completes : Completes c name text? (.initial w) r additions h t s') (block : String) (b : Block)
    (known : Keyed.get? block r.state.blocks = some b)
    (outside : ∀ id ∈ openNodes r.sheets, r.state.tree.target id ≠ r.state.tree.target b.node) :
    let holder := r.state.tree.target b.node
    let made := additions.filter (·.into = holder)
    (s'.tree.own holder).body = composed (r.state.tree.own holder).body made ∧
      (∀ first rest, made = first ++ rest →
        (composed (r.state.tree.own holder).body first).Sublist (s'.tree.own holder).body) ∧
      (∀ a ∈ made, (s'.tree.own holder).body.count (.node a.node) = 1 ∧ Shows s'.tree a.node a.body ∧
        Shows s'.tree a.site []) ∧
      ((∀ d, .defined d ∈ h.drop r.history.length → d.block = block → b.depth < d.depth) →
        made = additions.filter (·.block = block) ∧ s'.tree.content b.node = s'.tree.own holder) := by
  intro holder made
  obtain ⟨sheet, s₁, inner, s₂, begins, before, after, finished, finishes⟩ := completes
  obtain ⟨started, stocked⟩ := begins_ordered begins
  have ordered := started.run standard before
  have provided := stocked.run standard before
  have grounded := ordered.unmixed.grounded
  have beside : Beside r holder := ⟨grounded.target_lt (grounded.blocks block b known), outside⟩
  have gathers := ordered.gathers standard provided after beside
  have ordered' := ordered.run standard after.run
  have ends := ends_of_finish ordered'.unmixed finishes
  have same := ends.keeps.sameAt gathers.beside.old List.not_mem_nil
  have body : (s'.tree.own holder).body = composed (r.state.tree.own holder).body made :=
    same.body.trans gathers.took.body
  refine ⟨body, fun first rest parts => ?_, fun a mem => ?_, fun kept => ?_⟩
  · rw [body, parts, composed_append]
    exact sublist_composed
  · obtain ⟨added, into'⟩ := List.mem_filter.mp mem
    have into' : a.into = holder := of_decide_eq_true into'
    obtain ⟨site, empty, node, moved⟩ := gathers.made a added into'
    refine ⟨?_, ends.shows node.lone moved, ends.shows site.lone empty⟩
    rw [body]
    exact gathers.count_eq_one provided.furnished mem
  · have held : Held block b holder r.state := ⟨known, rfl⟩
    obtain ⟨held', names⟩ := run_held standard ordered held after fun later grown d mem => by
      refine kept d ?_
      have grown : h = r.history ++ later := grown
      rw [grown, List.drop_left]
      exact mem
    refine ⟨List.filter_congr fun a mem => decide_eq_decide.mpr (names a mem), ?_⟩
    show s'.tree.own (s'.tree.target b.node) = _
    rw [(ends.held held').leads]

/-- A base and a page that adds to its block in three ways. -/
def sections : MemorySources :=
  .ofList [("base", "<\x7bblock id=s\x7dS\x7b/block\x7d>"),
    ("page", "\x7bextends name=base\x7d\x7baddblock id=s\x7d1\x7b/addblock\x7d" ++
      "\x7baddblock id=s position=before\x7d2\x7b/addblock\x7d\x7baddblock id=s position=-1\x7d3\x7b/addblock\x7d")]

/-- What is added after the block of the base has closed stands around its text. -/
theorem page_composes_the_base :
    let c : Compiler MemorySources := ⟨Library.memory, standardTable⟩
    ∃ r additions h t s' b, Completes c "page" none (.initial sections) r additions h t s' ∧
      Keyed.get? "s" r.state.blocks = some b ∧
      (∀ id ∈ openNodes r.sheets, r.state.tree.target id ≠ r.state.tree.target b.node) ∧
      (∀ d, .defined d ∈ h.drop r.history.length → d.block = "s" → b.depth < d.depth) ∧
      (s'.tree.content b.node).body =
        [.node ⟨7⟩, .text "\n", .text "S", .text "\n", .node ⟨9⟩, .node ⟨5⟩] := by
  intro c
  let made : List Addition := [⟨"s", ⟨3⟩, .after, ⟨4⟩, ⟨5⟩, [.text "1"]⟩, ⟨"s", ⟨3⟩, .before, ⟨6⟩, ⟨7⟩, [.text "2"]⟩,
    ⟨"s", ⟨3⟩, .index (-1), ⟨8⟩, ⟨9⟩, [.text "3"]⟩]
  have before : (complete? c 5 40 "page" (.initial sections)).map (fun p => (Keyed.get? "s" p.1.state.blocks,
      (⟨3⟩ :: openNodes p.1.sheets).map p.1.state.tree.target, (p.1.state.tree.own ⟨3⟩).body)) =
      some (some ⟨⟨3⟩, 2⟩, [⟨3⟩, ⟨2⟩, ⟨1⟩, ⟨0⟩], [.text "S"]) := by decide +kernel
  have after : (complete? c 5 40 "page" (.initial sections)).map (fun p =>
      (p.2.1, p.2.2.1.drop p.1.history.length)) =
      some (made, [.opened "addblock" "s" [], .opened "addblock" "s" [], .opened "addblock" "s" []]) := by
    decide +kernel
  obtain ⟨⟨r, additions, h, t, s'⟩, read, same⟩ := Option.map_eq_some_iff.mp before
  rw [read, Option.map_some, Option.some_inj, Prod.mk.injEq] at after
  obtain ⟨rfl, later⟩ := after
  simp only [Prod.mk.injEq, List.map_cons, List.cons.injEq] at same
  obtain ⟨known, ⟨holder, leads⟩, body⟩ := same
  have completes := completes_of_complete? read
  have outside : ∀ id ∈ openNodes r.sheets, r.state.tree.target id ≠ r.state.tree.target ⟨3⟩ := by
    intro id mem
    have among : r.state.tree.target id ∈ [⟨2⟩, ⟨1⟩, (⟨0⟩ : NodeId)] := leads ▸ List.mem_map_of_mem mem
    intro here
    rw [here, holder] at among
    exact absurd among (by decide)
  have kept : ∀ d, .defined d ∈ h.drop r.history.length → d.block = "s" → 2 < d.depth := by
    rw [later]
    intro d mem
    simp at mem
  obtain ⟨composes, -, -, shown⟩ := additions_compose_the_body (c := c) rfl "page" none sections r made h t s' completes
    "s" ⟨⟨3⟩, 2⟩ known outside
  obtain ⟨all, content⟩ := shown kept
  refine ⟨r, made, h, t, s', ⟨⟨3⟩, 2⟩, completes, known, outside, kept, ?_⟩
  rw [content, composes, all, holder, body]
  decide

end Whole

end Compile

end Stencil
