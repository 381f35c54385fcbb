import Stencil.Proofs.Compile.Places
import Stencil.Proofs.Compile.SelfInclusion

/-!
Errors point at tags. While templates are read from memory, while their blocks are linked and while the artifact is
written, an error that has a place is found where the tag that it names begins.
-/
namespace Stencil

open Tag (standardTable standard)

namespace Compile

variable {sources : MemorySources} {s s₁ : CompileState MemorySources} {load : Loader MemorySources} {id : NodeId}
  {α : Type} {fine : α → CompileState MemorySources → Prop} {file text : String} {tokens : List Markup.Token}
  {token : Markup.Token}

theorem Pointing.after {result : Except TemplateError α × CompileState MemorySources} (onward : Onward s s₁)
    (pointing : Pointing sources fine s₁ result) : Pointing sources fine s result := by
  rcases result with ⟨e | a, s₂⟩
  · exact pointing
  · exact ⟨onward.trans pointing.1, pointing.2⟩

theorem onward_withNode (s : CompileState MemorySources) (n : Node) : Onward s (withNode s n) :=
  .onTree (.push s.tree n)

theorem Mapped.withNode (mapped : Mapped sources s) {n : Node} (placed : n.Placed (sources.textsOf s.sources))
    (settled : n.standsFor = none) : Mapped sources (withNode s n) :=
  mapped.onTree (.push s.tree n) (mapped.placed.push placed settled)

/-! #### Pieces -/

theorem pointing_attach (mapped : Mapped sources s) (firm : s.tree.Firm id) (e : Element) :
    Pointing sources (fun _ _ => True) s (changeTree (·.append id e) s) :=
  pointing_changeTree mapped (.append s.tree id e) (mapped.placed.append firm e)

theorem pointing_dispatch (loads : Loads sources load) (mapped : Mapped sources s) (id : NodeId) (phase : Tag.Phase) :
    Pointing sources (fun _ _ => True) s (dispatch standardTable load id phase s) := by
  unfold dispatch
  rw [bind_apply, getTree_apply]
  dsimp only
  cases name : (s.tree.own id).name with
  | none => exact pointing_pure mapped trivial
  | some tag =>
    have named : (s.tree.own id).name ≠ none := by
      rw [name]
      exact Option.some_ne_none tag
    dsimp only
    cases bound : Keyed.get? tag standardTable with
    | none => exact points_of_site mapped named rfl nofun
    | some handlers =>
      have marked : Pointing sources (fun _ _ => True) s
          (changeTree (·.update id fun n => { n with mustClose := false }) s) := by
        refine pointing_changeTree mapped (.update s.tree id ?_) (mapped.placed.update ?_ (.inr ?_))
        all_goals exact fun _ => rfl
      dsimp only
      cases found : handlerFor handlers phase with
      | none =>
        split
        · exact marked.bind fun _ s₁ _ mapped _ => pointing_pure mapped trivial
        · exact pointing_pure mapped trivial
      | some handler =>
        obtain ⟨b, mem, rfl⟩ := Tag.standard_handlerFor bound found
        have careful := standard_careful loads b mem id
        split
        · exact marked.bind fun _ s₁ onward mapped _ => careful s₁ mapped (onward.named named)
        · exact careful s mapped named

theorem pointing_putVariable (mapped : Mapped sources s) {parent : NodeId} (firm : s.tree.Firm parent) (line : Nat)
    (expression : String) :
    Pointing sources (fun _ _ => True) s (putVariable file line expression parent s) := by
  unfold putVariable
  rw [bind_apply, createChild_eq]
  dsimp only
  rw [bind_apply, changeTree_fresh]
  dsimp only
  refine Pointing.after (onward_withNode s _) (pointing_attach (mapped.withNode ?_ rfl) ?_ _)
  · exact Node.placed_of_loose rfl rfl rfl
  · exact (onward_withNode s _).tree.firm firm

/-- The stack holds tags and roots. -/
def FirmStack (stack : List NodeId) (s : CompileState MemorySources) : Prop := ∀ id ∈ stack, s.tree.Firm id

theorem FirmStack.later {stack : List NodeId} (firm : FirmStack stack s) (onward : Onward s s₁) : FirmStack stack s₁ :=
  fun id mem => onward.tree.firm (firm id mem)

variable {top : NodeId} {below stack : List NodeId}

theorem pointing_putOpen (loads : Loads sources load) (mapped : Mapped sources s) (firm : FirmStack (top :: below) s)
    (piece : token.ReadFrom (sources.textsOf s.sources) file) (kind : token.kind = .openTag) :
    Pointing sources FirmStack s (putOpen standardTable load file token.line token.content top below s) := by
  obtain ⟨text, read, opens⟩ := piece.opens kind
  unfold putOpen
  rw [bind_apply, createChild_eq]
  dsimp only
  cases parsed : Markup.Head.parse token.content with
  | error e => exact .opening rfl nofun read opens
  | ok head =>
    rw [Markup.firstWord_of_parse parsed] at opens
    dsimp only
    rw [bind_apply, changeTree_fresh]
    dsimp only
    let n := Node.opened file token.line top head true
    have placed : n.Placed (sources.textsOf s.sources) := by
      refine ⟨fun tag name => ?_, nofun, fun loose => absurd (.inl (Option.some_ne_none head.name)) loose⟩
      cases name
      exact ⟨text, read, opens⟩
    have mapped' : Mapped sources (withNode s n) := mapped.withNode placed rfl
    have onward := onward_withNode s n
    have new : (withNode s n).tree.Firm ⟨s.tree.size⟩ := by
      unfold Tree.Firm
      rw [own_withNode]
      exact .inl (Option.some_ne_none head.name)
    refine Pointing.after onward ?_
    refine (pointing_dispatch loads mapped' ⟨s.tree.size⟩ .onOpen).bind fun _ s₂ onward' mapped _ => ?_
    have firm := (firm.later onward).later onward'
    rw [bind_apply, getTree_apply]
    dsimp only
    split
    · refine pointing_pure mapped ?_
      exact List.forall_mem_cons.mpr ⟨onward'.tree.firm new, firm⟩
    · refine (pointing_attach mapped (firm top List.mem_cons_self) _).bind fun _ s₃ onward mapped _ => ?_
      exact pointing_pure mapped (firm.later onward)

theorem pointing_putClose (loads : Loads sources load) (mapped : Mapped sources s) (firm : FirmStack (top :: below) s)
    (piece : token.ReadFrom (sources.textsOf s.sources) file) (kind : token.kind = .closeTag) :
    Pointing sources FirmStack s
      (putClose standardTable load file token.line (String.ofList token.content) top below s) := by
  unfold putClose
  rw [bind_apply, getTree_apply]
  dsimp only
  split
  · obtain ⟨text, read, closes⟩ := piece.closes kind
    exact .closing read closes
  · refine (pointing_dispatch loads mapped top .onClose).bind fun _ s₁ onward mapped _ => ?_
    replace firm := firm.later onward
    cases below with
    | nil => exact pointing_pure mapped fun _ mem => (by cases mem)
    | cons parent others =>
      have inner := firm parent (List.mem_cons_of_mem _ List.mem_cons_self)
      refine (pointing_attach mapped inner _).bind fun _ s₂ onward mapped _ => ?_
      exact pointing_pure mapped fun id mem => onward.tree.firm (firm id (List.mem_cons_of_mem _ mem))

theorem pointing_put (loads : Loads sources load) (mapped : Mapped sources s) (firm : FirmStack stack s)
    (piece : token.ReadFrom (sources.textsOf s.sources) file) :
    Pointing sources FirmStack s (put standardTable load file stack token s) := by
  unfold put
  cases stack with
  | nil => exact pointing_pure mapped firm
  | cons top below =>
    have held := firm top List.mem_cons_self
    dsimp only
    rcases kind : token.kind with _ | _ | _ | _
    · refine (pointing_attach mapped held _).bind fun _ s₁ onward mapped _ => ?_
      exact pointing_pure mapped (firm.later onward)
    · refine (pointing_putVariable mapped held _ _).bind fun _ s₁ onward mapped _ => ?_
      exact pointing_pure mapped (firm.later onward)
    · exact pointing_putOpen loads mapped firm piece kind
    · exact pointing_putClose loads mapped firm piece kind

/-! #### Sources -/

theorem pointing_puts (loads : Loads sources load) (mapped : Mapped sources s) (firm : FirmStack stack s)
    (pieces : ∀ token ∈ tokens, token.ReadFrom (sources.textsOf s.sources) file) :
    Pointing sources FirmStack s (tokens.foldlM (put standardTable load file) stack s) := by
  induction tokens generalizing stack s with
  | nil => exact pointing_pure mapped firm
  | cons token tokens ih =>
    obtain ⟨first, later⟩ := List.forall_mem_cons.mp pieces
    rw [List.foldlM_cons]
    refine (pointing_put loads mapped firm first).bind fun stack s₁ onward mapped firm => ?_
    exact ih mapped firm fun token mem => (later token mem).mono (textsOf_mono onward.sources)

theorem pointing_build (loads : Loads sources load) (mapped : Mapped sources s) {root : NodeId}
    (firm : s.tree.Firm root) (pieces : ∀ token ∈ tokens, token.ReadFrom (sources.textsOf s.sources) file) :
    Pointing sources (fun _ _ => True) s (build standardTable load file root tokens s) := by
  have alone : FirmStack [root] s := fun id mem => List.mem_singleton.mp mem ▸ firm
  unfold build
  refine (pointing_puts loads mapped alone pieces).bind fun stack s₁ _ mapped firm => ?_
  cases stack with
  | nil => exact pointing_pure mapped trivial
  | cons top below =>
    unfold checkClosed
    dsimp only
    rw [bind_apply, getTree_apply]
    dsimp only
    split
    · exact pointing_pure mapped trivial
    · rename_i inner
      exact points_of_site mapped ((firm top List.mem_cons_self).resolve_right inner) rfl nofun

/-- One more source counts as read. -/
theorem Mapped.record (mapped : Mapped sources s) (identity : String) (stamp : Option Stamp) :
    Onward s { s with sources := Keyed.put identity stamp s.sources } ∧
      Mapped sources { s with sources := Keyed.put identity stamp s.sources } := by
  have sub : Keyed.keys s.sources ⊆ Keyed.keys (Keyed.put identity stamp s.sources) := fun _ mem =>
    Keyed.mem_keys_put.mpr (.inr mem)
  exact ⟨⟨.refl s.tree, sub⟩, { mapped with placed := mapped.placed.mono (textsOf_mono sub) }⟩

/-- What is done while a template counts as being read. -/
theorem pointing_within {frame : Frame} {act : Compile MemorySources Unit} (mapped : Mapped sources s)
    (firm : s.tree.Firm frame.root)
    (acts : ∀ s', Onward s s' → Mapped sources s' → Pointing sources (fun _ _ => True) s' (act s')) :
    Pointing sources (fun root s' => s'.tree.Firm root) s (within frame act s) := by
  have framed : Mapped sources { s with frames := frame :: s.frames } :=
    { mapped with frames := List.forall_mem_cons.mpr ⟨firm, mapped.frames⟩ }
  have done := acts { s with frames := frame :: s.frames } (.aside rfl rfl) framed
  rcases acted : act { s with frames := frame :: s.frames } with ⟨e | a, s₁⟩
  · rw [acted] at done
    rw [within_apply acted]
    exact done
  · rw [acted] at done
    rw [within_apply acted]
    obtain ⟨onward, mapped₁, -⟩ := done
    refine ⟨⟨onward.tree, onward.sources⟩, ?_, ?_⟩
    · exact { mapped₁ with frames := fun frame mem => mapped₁.frames frame (List.mem_of_mem_tail mem) }
    · cases frames : s₁.frames with
      | nil => exact onward.tree.firm firm
      | cons first others => exact mapped₁.frames first (frames ▸ List.mem_cons_self)

theorem readSource_of_scan_error {W : Type} {s : CompileState W} {table : Tag.Table} {load : Loader W}
    {name identity : String} {stamp : Option Stamp} {e : TemplateError} (failed : Markup.scan name text = .error e) :
    readSource table load name identity stamp text s =
      (.error e, { s with sources := Keyed.put identity stamp s.sources }) := by
  simp only [readSource, failed]
  rfl

theorem pointing_readSource (loads : Loads sources load) (mapped : Mapped sources s) {name : String}
    {stamp : Option Stamp} (has : (Keyed.get? name sources.entries).map (·.1) = some text) :
    Pointing sources (fun root s' => s'.tree.Firm root) s (readSource standardTable load name name stamp text s) := by
  obtain ⟨onward, recorded⟩ := mapped.record name stamp
  have read : sources.textsOf (Keyed.put name stamp s.sources) name = some text := by
    unfold MemorySources.textsOf
    rw [if_pos (Keyed.mem_keys_put.mpr (.inl rfl))]
    exact has
  cases scanned : Markup.scan name text with
  | error e =>
    rw [readSource_of_scan_error scanned]
    obtain ⟨line, rfl, opens⟩ := Markup.opensAt_of_scan_error scanned
    exact .opening rfl nofun read opens
  | ok tokens =>
    let n : Node := { Node.fresh name 1 with isRoot := true }
    let s₁ := withNode { s with sources := Keyed.put name stamp s.sources } n
    have placed : n.Placed (sources.textsOf (Keyed.put name stamp s.sources)) := by
      refine ⟨nofun, fun _ => ⟨rfl, rfl, ?_⟩, fun loose => absurd (.inr rfl) loose⟩
      exact Option.isSome_iff_exists.mpr ⟨text, read⟩
    have firm : s₁.tree.Firm ⟨s.tree.size⟩ :=
      .inr (congrArg Node.isRoot (own_withNode { s with sources := Keyed.put name stamp s.sources } n))
    rw [readSource_of_scan scanned]
    refine Pointing.after (onward.trans (onward_withNode _ n)) ?_
    refine pointing_within (s := s₁) (recorded.withNode placed rfl) firm fun s₂ onward mapped => ?_
    refine pointing_build loads mapped (onward.tree.firm firm) fun token mem => ?_
    exact Markup.Token.ReadFrom.mono ⟨text, tokens, read, scanned, mem⟩ (textsOf_mono onward.sources)

/-- One more template has been read. -/
theorem Mapped.finish (mapped : Mapped sources s) {root : NodeId} (firm : s.tree.Firm root) (identity : String) :
    Mapped sources { s with finished := Keyed.put identity root s.finished } := by
  refine { mapped with finished := fun other root' done => ?_ }
  rcases Keyed.get?_put done with ⟨-, rfl⟩ | ⟨-, before⟩
  · exact firm
  · exact mapped.finished other root' before

/-- Sources that nobody edits are the same after they have been read. -/
theorem read_settled (settled : sources.laidUp = []) {name : String} {stamp : Stamp}
    (found : Keyed.get? name sources.entries = some (text, stamp)) (world : s.world = sources) :
    onWorldExcept (Library.memory.read name) s = (.ok text, s) := by
  have given : s.world.read name = (.ok text, s.world) := by
    unfold MemorySources.read MemorySources.makeEdit
    rw [world, found, settled]
    rfl
  show ((s.world.read name).1, { s with world := (s.world.read name).2 }) = _
  rw [given]

/-- A template is read on behalf of a node with a name, or as the first one. -/
theorem pointing_loadWithin (settled : sources.laidUp = []) (depth : Nat) (name : String) (via : Option NodeId)
    (mapped : Mapped sources s)
    (first : (∃ id, via = some id ∧ (s.tree.own id).name ≠ none) ∨ s.frames = [] ∧ 0 < depth) :
    Pointing sources (fun root s' => s'.tree.Firm root) s
      (loadWithin ⟨Library.memory, standardTable⟩ depth name via s) := by
  induction depth generalizing name via s with
  | zero =>
    obtain ⟨id, rfl, named⟩ := first.resolve_right fun none => absurd none.2 (Nat.lt_irrefl 0)
    exact points_of_site mapped named rfl nofun
  | succ depth ih =>
    have loads : Loads sources (loadWithin ⟨Library.memory, standardTable⟩ depth) := fun name id s mapped named =>
      ih name (some id) mapped (.inl ⟨id, rfl, named⟩)
    have located : onWorldExcept (Library.memory.locate name) s = (sources.locate name, s) := by
      rw [← mapped.world]
      rfl
    have asked : (get : Compile MemorySources (CompileState MemorySources)) s = (.ok s, s) := rfl
    unfold loadWithin
    rw [bind_apply, located]
    cases found : Keyed.get? name sources.entries with
    | none =>
      have unknown : sources.locate name = .error (MemorySources.notFound name) := by
        simp [MemorySources.locate, Keyed.has, found]
      rw [unknown]
      exact .nowhere rfl
    | some source =>
      obtain ⟨text, stamp⟩ := source
      have known : sources.locate name = .ok name := by simp [MemorySources.locate, Keyed.has, found]
      rw [known]
      dsimp only
      rw [bind_apply, asked]
      dsimp only
      split
      · rename_i nested
        rcases first with ⟨id, rfl, named⟩ | ⟨alone, -⟩
        · exact points_of_site mapped named rfl nofun
        · rw [alone] at nested
          cases nested
      · cases done : Keyed.get? name s.finished with
        | some root => exact pointing_pure mapped (mapped.finished name root done)
        | none =>
          have stamped : onWorld (Library.memory.modified name) s = (.ok (s.world.modified name), s) := rfl
          have has : (Keyed.get? name sources.entries).map (·.1) = some text := by
            rw [found]
            rfl
          dsimp only
          rw [bind_apply, stamped]
          dsimp only
          rw [bind_apply, read_settled settled found mapped.world]
          dsimp only
          refine (pointing_readSource loads mapped has).bind fun root s₁ _ mapped firm => ?_
          exact ⟨.aside rfl rfl, mapped.finish firm name, firm⟩

theorem pointing_linkDeferred (ids : List NodeId) (mapped : Mapped sources s)
    (named : ∀ id ∈ ids, (s.tree.own id).name ≠ none) :
    Pointing sources (fun _ _ => True) s (linkDeferred ids s) := by
  induction ids generalizing s with
  | nil => exact pointing_pure mapped trivial
  | cons id ids ih =>
    obtain ⟨here, others⟩ := List.forall_mem_cons.mp named
    rw [linkDeferred_cons]
    cases found : Keyed.get? ((s.tree.own id).param "id") s.blocks with
    | none => exact points_of_site mapped here rfl nofun
    | some b =>
      have firm := mapped.blocks _ b found
      have onward : Onward s { s with tree := s.tree.redirect id b.node } :=
        .onTree (.redirect s.tree id b.node)
      refine Pointing.after onward (ih ?_ fun id mem => onward.named (others id mem))
      exact mapped.onTree (.redirect s.tree id b.node) (mapped.placed.redirect firm)

theorem mapped_initial (sources : MemorySources) : Mapped sources (.initial sources) :=
  ⟨rfl, .empty, nofun, nofun, nofun, nofun⟩

theorem pointing_template (settled : sources.laidUp = []) (name : String) :
    Pointing sources (fun _ _ => True) (.initial sources)
      (template ⟨Library.memory, standardTable⟩ name (.initial sources)) := by
  have first : Pointing sources (fun root s' => s'.tree.Firm root) (.initial sources)
      (Compile.load ⟨Library.memory, standardTable⟩ name none (.initial sources)) :=
    pointing_loadWithin settled _ name none (mapped_initial sources) (.inr ⟨rfl, Nat.succ_pos _⟩)
  unfold template
  refine first.bind fun root s₁ _ mapped _ => ?_
  rw [finish_apply]
  have cleared : Mapped sources { s₁ with deferred := [] } := { mapped with deferred := nofun }
  have onward : Onward s₁ { s₁ with deferred := [] } := .aside rfl rfl
  refine Pointing.after onward ?_
  unfold finishing
  refine (pointing_linkDeferred s₁.deferred cleared mapped.deferred).bind fun _ s₂ _ mapped _ => ?_
  exact pointing_pure mapped trivial

/-! #### Artifacts -/

/-- Putting a text into the reader's language fails only for its parameters. -/
theorem renderLocalized_error {W : Type} {load : Loader W} {s s' : CompileState W} {e : TemplateError}
    (failed : carryOut load (Tag.renderLocalized id) s = (.error e, s')) :
    ∃ reason, e = .missingParameter (s.tree.site id) reason ∨ e = .parameterType (s.tree.site id) reason := by
  unfold Tag.renderLocalized at failed
  rw [carryOut_bind] at failed
  rcases bind_error failed with demanded | ⟨⟨⟩, s₁, -, rendered⟩
  · unfold Handler.demand at demanded
    rw [carryOut_after carryOut_getTree] at demanded
    cases checked : Tag.checkParams (s.tree.site id) false [] (s.tree.own id).params with
    | ok params =>
      rw [checked] at demanded
      cases demanded
    | error e' =>
      rw [checked] at demanded
      cases demanded
      exact Tag.checkParams_error checked
  · rw [carryOut_after carryOut_getTree] at rendered
    dsimp only at rendered
    split at rendered
    · cases rendered
    · cases rendered

/-- A node that stands in itself is a tag or a root. -/
theorem firm_of_isKnot {t : Tree} {texts : Texts} {root : NodeId} (placed : t.Placed texts) (knot : t.IsKnot root id) :
    t.Firm id := by
  obtain ⟨next, ⟨child, stands, -⟩, -⟩ := Relation.TransGen.head'_iff.mp knot.2
  by_contra loose
  exact (placed.nodes id).leaf loose child stands

theorem points_of_selfInclusion (mapped : Mapped sources s) (firm : s.tree.Firm id) :
    (Emit.selfInclusion s.tree id).Points (sources.textsOf s.sources) := by
  by_cases named : (s.tree.own id).name = none
  · have isRoot := firm.resolve_left (not_not_intro named)
    obtain ⟨-, first, read⟩ := (mapped.placed.nodes id).root isRoot
    obtain ⟨text, read⟩ := Option.isSome_iff_exists.mp read
    unfold Emit.selfInclusion Tree.site Node.tag
    dsimp only
    rw [named, first]
    exact .root read
  · exact points_of_site mapped named rfl nofun

theorem artifact_points {c : Compiler MemorySources} (standard : c.table = standardTable) {name : String} {t : Template}
    (compiles : template c name (.initial sources) = (.ok t, s)) (mapped : Mapped sources s) {strip : Bool}
    {e : TemplateError} {s' : CompileState MemorySources} (failed : artifact c t.root strip s = (.error e, s')) :
    e.Points (sources.textsOf s.sources) := by
  have run : compiled c name none (.initial sources) = (.ok t, s) := compiles
  obtain ⟨sound, known⟩ := compiled_known standard run
  have failed := artifact_error failed
  rw [standard] at failed
  have enough : s.tree.size < (s.tree.size + 1 + Emit.growth) + ([] : List NodeId).length := by
    rw [List.length_nil]
    omega
  have start := Tree.Rendering.start s.tree
  rcases Emit.Call.fails sound known _ start (Tree.Nested.start s.tree t.root) enough failed with
    ⟨call, handler, s'', inside, renders, stopped⟩ | ⟨node, rfl, knot⟩
  · obtain ⟨-, fresh, tag, handlers, render, name, found, bound, rfl⟩ := renders
    have rendering := inside.rendering sound start
    rcases Tag.standard_onRender found with ⟨rfl, localized⟩ | ⟨-, nothing⟩
    · cases localized.symm.trans bound
      obtain ⟨reason, complaint⟩ := renderLocalized_error stopped
      rw [rendering.site_eq] at complaint
      rw [rendering.own, if_neg fresh] at name
      have named : (s.tree.own (call.state.tree.target call.handle)).name ≠ none := by
        rw [name]
        exact Option.some_ne_none _
      rcases complaint with rfl | rfl
      · exact points_of_site mapped named rfl nofun
      · exact points_of_site mapped named rfl nofun
    · cases nothing.symm.trans bound
  · exact points_of_selfInclusion mapped (firm_of_isKnot mapped.placed knot)

/-- An error that has a place names a template that was read, and the tag that it names begins there: a closing tag where
what it closes is not open, and an opening one otherwise, be it a literal tag that is never closed. Only a template that
is written inside itself is named by its beginning. -/
theorem errors_point_at_tags (settled : sources.laidUp = []) (name : String) :
    let c : Compiler MemorySources := ⟨Library.memory, standardTable⟩
    (∀ e s, template c name (.initial sources) = (.error e, s) → e.Points (sources.textsOf s.sources)) ∧
    ∀ t s strip e s', template c name (.initial sources) = (.ok t, s) → artifact c t.root strip s = (.error e, s') →
      e.Points (sources.textsOf s.sources) := by
  intro c
  have pointing := pointing_template settled name
  constructor
  · intro e s failed
    rw [failed] at pointing
    exact pointing
  · intro t s strip e s' compiles failed
    rw [compiles] at pointing
    exact artifact_points (c := c) rfl compiles pointing.2.1 failed

/-- A loop that is closed but not open, a literal text without an end, and a template that shows itself. -/
def mistakes : MemorySources :=
  .ofList [("page", "\x7binclude name=part\x7d"), ("part", "One\n\x7bif cond=$a\x7d\ntwo\x7b/for\x7d"),
    ("note", "\x7bextends name=base\x7d"), ("base", "\n\n\x7bliteral\x7d three \x7b"),
    ("glass", "\x7bputblock id=frame\x7d"),
    ("hall", "\x7binclude name=glass\x7d\x7bblock id=frame\x7d\x7binclude name=glass\x7d\x7b/block\x7d")]

/-- The first two mistakes are found where the templates are read, the third one where the artifact is written. -/
theorem mistakes_are_located :
    let c : Compiler MemorySources := ⟨Library.memory, standardTable⟩
    (∃ s, template c "page" (.initial mistakes) = (.error (.tagMismatch ⟨"if", "part", 3⟩ "for"), s) ∧
      (TemplateError.tagMismatch ⟨"if", "part", 3⟩ "for").Points (mistakes.textsOf s.sources)) ∧
    (∃ s, template c "note" (.initial mistakes) = (.error (.unclosedTag ⟨"literal", "base", 3⟩), s) ∧
      (TemplateError.unclosedTag ⟨"literal", "base", 3⟩).Points (mistakes.textsOf s.sources)) ∧
    ∃ t s e s', template c "hall" (.initial mistakes) = (.ok t, s) ∧ artifact c t.root false s = (.error e, s') ∧
      e = .structural ⟨"", "glass", 1⟩ "block content includes itself" ∧ e.Points (mistakes.textsOf s.sources) := by
  intro c
  have settled : mistakes.laidUp = [] := by decide
  have page : (template c "page" (.initial mistakes)).1.map (fun _ => ()) =
      .error (.tagMismatch ⟨"if", "part", 3⟩ "for") := by decide +kernel
  have note : (template c "note" (.initial mistakes)).1.map (fun _ => ()) =
      .error (.unclosedTag ⟨"literal", "base", 3⟩) := by decide +kernel
  have hall : compilesTo c "hall" none mistakes (fun t s => (artifact c t.root false s).1.map (fun _ => ()) =
      .error (.structural ⟨"", "glass", 1⟩ "block content includes itself")) = true := by decide +kernel
  have failed {α : Type} {x : Except TemplateError α × CompileState MemorySources} {e : TemplateError}
      (failed : x.1.map (fun _ => ()) = .error e) : x = (.error e, x.2) :=
    Prod.ext (Markup.map_eq_error.mp failed) rfl
  refine ⟨⟨_, failed page, ?_⟩, ⟨_, failed note, ?_⟩, ?_⟩
  · exact (errors_point_at_tags settled "page").1 _ _ (failed page)
  · exact (errors_point_at_tags settled "note").1 _ _ (failed note)
  · obtain ⟨t, s, compiles, written⟩ := exists_of_compilesTo hall
    have stopped := failed (of_decide_eq_true written)
    exact ⟨t, s, _, _, compiles, stopped, rfl, (errors_point_at_tags settled "hall").2 t s false _ _ compiles stopped⟩

end Compile

end Stencil
