import Stencil.Proofs.Compile.TagEffects

/-!
What one piece of a source does to a compilation with the standard tags, tags that have another template read
apart: all that can happen is listed here once.
-/
namespace Stencil

open Tag

/-- The head of a tag that has another template read. -/
def Markup.Token.reading? (token : Markup.Token) : Option Markup.Head :=
  match token.kind, Markup.Head.parse token.content with
  | .openTag, .ok head => if head.name = "extends" ∨ head.name = "include" then some head else none
  | _, _ => none

theorem Markup.Token.other_of_reading_none (token : Markup.Token) {head : Markup.Head}
    (kind : token.kind = .openTag) (parsed : Markup.Head.parse token.content = .ok head)
    (reads : token.reading? = none) : head.name ≠ "extends" ∧ head.name ≠ "include" := by
  unfold reading? at reads
  rw [kind, parsed] at reads
  dsimp only at reads
  split at reads
  · cases reads
  · rename_i neither
    exact ⟨fun h => neither (.inl h), fun h => neither (.inr h)⟩

namespace Compile

variable {W : Type} {load : Loader W} {s s' : CompileState W}

/-- Where no template is read. -/
def noLoad : Loader W := fun name _ s => (.error (.artifactMissing name), s)

/-! #### Handlers that read nothing -/

theorem carryOut_of_strict {α : Type} {h : Handler α} (strict : h.Strict False) (load load' : Loader W)
    (s : CompileState W) : carryOut load h s = carryOut load' h s := by
  induction h generalizing s with
  | done a => rfl
  | fail e => rfl
  | onTree change next ih => exact ih (change s.tree) (strict _) { s with tree := change s.tree }
  | depth next ih => exact ih s.frames.length (strict _) s
  | lookup block next ih => exact ih (Keyed.get? block s.blocks) (strict _) s
  | define block node next ih => exact ih strict _
  | defer node next ih => exact ih strict _
  | load name via next ih => exact absurd strict.1 id
  | replaceRoot node next ih => exact ih strict _

/-- All standard tags but two read nothing. -/
theorem strict_standard {tag : String} {handlers : Handlers} (found : Keyed.get? tag standardTable = some handlers)
    {phase : Phase} (reads : phase = .onClose ∨ tag ≠ "extends" ∧ tag ≠ "include") {handler : NodeHandler}
    (bound : handlerFor handlers phase = some handler) (id : NodeId) : (handler id).Strict False := by
  have mem := Keyed.mem_of_get? found
  rw [standardTable_eq] at mem
  simp only [List.mem_cons, Prod.mk.injEq, List.not_mem_nil, or_false] at mem
  rcases mem with ⟨rfl, rfl⟩ | ⟨rfl, rfl⟩ | ⟨rfl, rfl⟩ | ⟨rfl, rfl⟩ | ⟨rfl, rfl⟩ | ⟨rfl, rfl⟩ | ⟨rfl, rfl⟩ |
    ⟨rfl, rfl⟩ | ⟨rfl, rfl⟩ | ⟨rfl, rfl⟩ | ⟨rfl, rfl⟩ | ⟨rfl, rfl⟩ <;> cases phase <;> cases bound
  · exact strict_openIf id
  · exact strict_placeElseIf id
  · exact strict_placeElseIf id
  · exact strict_placeElse id
  · exact strict_placeElse id
  · exact strict_openFor id
  · exact strict_openForeach id
  · exact strict_openBlock id
  · exact strict_closeBlock id
  · exact strict_openBlockdef id
  · exact strict_closeBlockdef id
  · exact strict_placePutblock id
  · exact strict_placePutblock id
  · exact strict_openAddblock id
  · exact strict_closeAddblock id
  all_goals first
    | exact strict_renderLocalized id
    | exact absurd reads (by decide)

theorem createChild_eq (file : String) (line : Nat) (parent : NodeId) (s : CompileState W) :
    createChild file line parent s =
      (.ok ⟨s.tree.size⟩, withNode s { Node.fresh file line with parent := some parent }) :=
  congrArg (Prod.mk _) (update_withNode s (Node.fresh file line) fun n => { n with parent := some parent })

theorem changeTree_fresh (s : CompileState W) (n : Node) (f : Node → Node) :
    changeTree (·.update ⟨s.tree.size⟩ f) (withNode s n) = (.ok (), withNode s (f n)) :=
  congrArg (Prod.mk _) (update_withNode s n f)

theorem getTree_apply (s : CompileState W) : getTree s = (.ok s.tree, s) := rfl

/-- Where no template is read, it does not matter how templates are read. -/
theorem dispatch_of_strict {phase : Phase} {id : NodeId}
    (reads : phase = .onClose ∨ ∀ name, (s.tree.own id).name = some name → name ≠ "extends" ∧ name ≠ "include")
    (load load' : Loader W) : dispatch standardTable load id phase s = dispatch standardTable load' id phase s := by
  unfold dispatch
  rw [bind_apply, bind_apply, getTree_apply]
  dsimp only
  cases name : (s.tree.own id).name with
  | none => rfl
  | some tag =>
    dsimp only
    cases found : Keyed.get? tag standardTable with
    | none => rfl
    | some handlers =>
      dsimp only
      cases bound : handlerFor handlers phase with
      | none => rfl
      | some handler =>
        have handled := carryOut_of_strict (strict_standard found (reads.imp_right fun h => h tag name) bound id)
          load load'
        dsimp only
        split
        · exact handled _
        · exact handled _

theorem put_of_reading_none {stack : List NodeId} {token : Markup.Token} (file : String)
    (reads : token.reading? = none) (load load' : Loader W) :
    put standardTable load file stack token s = put standardTable load' file stack token s := by
  cases stack with
  | nil => rfl
  | cons top below =>
    unfold put
    cases kind : token.kind <;> dsimp only
    · unfold putOpen
      rw [bind_apply, bind_apply, createChild_eq]
      dsimp only
      cases parsed : Markup.Head.parse token.content with
      | error e => rfl
      | ok head =>
        dsimp only
        rw [bind_apply, bind_apply, changeTree_fresh]
        dsimp only
        rw [bind_apply, bind_apply, dispatch_of_strict _ load load']
        refine .inr fun name h => ?_
        rw [own_withNode] at h
        cases h
        exact token.other_of_reading_none kind parsed reads
    · unfold putClose
      rw [bind_apply, bind_apply, getTree_apply]
      dsimp only
      split
      · rfl
      · rw [bind_apply, bind_apply, dispatch_of_strict (.inl rfl) load load']

/-! #### What a piece can do -/

/-- The node of a tag that prints an expression. -/
def printing (file : String) (line : Nat) (expression : String) (parent : NodeId) : Node :=
  { Node.fresh file line with
    parent := some parent
    mustClose := false
    opening := "echo " ++ expression ++ ";" }

/-- The state with one more element at the end of a node. -/
def attach (parent : NodeId) (e : Element) (s : CompileState W) : CompileState W :=
  { s with tree := s.tree.append parent e }

/-- The node of a standard tag with its parameters as they are checked. -/
def tagNode (file : String) (line : Nat) (parent : NodeId) (head : Markup.Head) (stands : Bool)
    (params : Keyed String) : Node :=
  ((Node.opened file line parent head stands).withParams params).framed

/-- All that a piece which reads no template can do in a state, below the top of the stack and what is under it. -/
inductive Effect (s : CompileState W) (file : String) (top : NodeId) (below : List NodeId) (token : Markup.Token) :
    CompileState W → List NodeId → Prop where
  | text (kind : token.kind = .text) :
      Effect s file top below token (attach top (.text (String.ofList token.content)) s) (top :: below)
  | printed (kind : token.kind = .variable) :
      Effect s file top below token
        (attach top (.node ⟨s.tree.size⟩) (withNode s (printing file token.line (String.ofList token.content) top)))
        (top :: below)
  | nested {head : Markup.Head} {params : Keyed String} (kind : token.kind = .openTag)
      (parsed : Markup.Head.parse token.content = .ok head) (tag : head.name ∈ ["if", "for", "foreach", "blockdef"])
      (checked : Checked (Node.opened file token.line top head true) false (demands head.name) params)
      (steps : head.name = "for" →
        (Decimal.readInt64? ((tagNode file token.line top head true params).param "step").toList).getD 0 ≠ 0) :
      Effect s file top below token (withNode s (tagNode file token.line top head true params))
        (⟨s.tree.size⟩ :: top :: below)
  | localized {head : Markup.Head} (kind : token.kind = .openTag)
      (parsed : Markup.Head.parse token.content = .ok head) (tag : head.name = "t") :
      Effect s file top below token (withNode s (Node.opened file token.line top head true))
        (⟨s.tree.size⟩ :: top :: below)
  | block {head : Markup.Head} (kind : token.kind = .openTag)
      (parsed : Markup.Head.parse token.content = .ok head) (tag : head.name = "block")
      (checked : Checked (Node.opened file token.line top head true) false [specId] head.params) :
      Effect s file top below token (blockOpened (Node.opened file token.line top head true) s)
        (⟨s.tree.size⟩ :: top :: below)
  | elseIf {head : Markup.Head} {params : Keyed String} (kind : token.kind = .openTag)
      (parsed : Markup.Head.parse token.content = .ok head) (tag : head.name = "elseif")
      (checked : Checked (Node.opened file token.line top head false) false (demands "elseif") params)
      (inside : (s.tree.own top).tag = "if") (early : (s.tree.own top).hasElse = false) :
      Effect s file top below token
        (attach top (.node ⟨s.tree.size⟩) (withNode s (tagNode file token.line top head false params)))
        (top :: below)
  | otherwise {head : Markup.Head} {params : Keyed String} (kind : token.kind = .openTag)
      (parsed : Markup.Head.parse token.content = .ok head) (tag : head.name = "else")
      (checked : Checked (Node.opened file token.line top head false) false [] params)
      (inside : (s.tree.own top).tag = "if") (early : (s.tree.own top).hasElse = false) :
      Effect s file top below token
        (attach top (.node ⟨s.tree.size⟩) (noteElse top (withNode s (tagNode file token.line top head false params))))
        (top :: below)
  | putblock {head : Markup.Head} (kind : token.kind = .openTag)
      (parsed : Markup.Head.parse token.content = .ok head) (tag : head.name = "putblock")
      (checked : Checked (Node.opened file token.line top head false) false [specId] head.params) :
      Effect s file top below token
        (attach top (.node ⟨s.tree.size⟩) (putblockPlaced (Node.opened file token.line top head false) s))
        (top :: below)
  | adding {head : Markup.Head} {params : Keyed String} {position : Position} (kind : token.kind = .openTag)
      (parsed : Markup.Head.parse token.content = .ok head) (tag : head.name = "addblock")
      (checked : Checked (Node.opened file token.line top head true) false additionSpecs params)
      (placed : Position.parse (((Node.opened file token.line top head true).withParams params).param "position") =
        .ok position) :
      Effect s file top below token (blockOpened ((Node.opened file token.line top head true).withParams params) s)
        (⟨s.tree.size⟩ :: top :: below)
  | closed {parent : NodeId} {under : List NodeId} (kind : token.kind = .closeTag)
      (nested : below = parent :: under) (inner : (s.tree.own top).isRoot = false)
      (plain : (s.tree.own top).tag ∉ ["block", "blockdef", "addblock"]) :
      Effect s file top below token (attach parent (.node top) s) below
  | closedBlock {parent : NodeId} {under : List NodeId} (kind : token.kind = .closeTag)
      (nested : below = parent :: under) (inner : (s.tree.own top).isRoot = false)
      (tag : (s.tree.own top).tag = "block") :
      Effect s file top below token (attach parent (.node top) (blockClosed top s)) below
  | closedBlockdef {parent : NodeId} {under : List NodeId} (kind : token.kind = .closeTag)
      (nested : below = parent :: under) (inner : (s.tree.own top).isRoot = false)
      (tag : (s.tree.own top).tag = "blockdef") :
      Effect s file top below token (attach parent (.node top) (blockdefClosed top s)) below
  | closedAdding {parent : NodeId} {under : List NodeId} {position : Position} (kind : token.kind = .closeTag)
      (nested : below = parent :: under) (inner : (s.tree.own top).isRoot = false)
      (tag : (s.tree.own top).tag = "addblock") :
      Effect s file top below token (attach parent (.node top) (addblockClosed position top s)) below

section Open

variable {file : String} {top : NodeId} {below stack : List NodeId} {token : Markup.Token}

/-- A tag that opens has its new node handed to its handler, and stays open if the node says so. -/
theorem putOpen_ok {line : Nat} {content : List Char}
    (run : putOpen standardTable load file line content top below s = (.ok stack, s')) :
    ∃ head s₁, Markup.Head.parse content = .ok head ∧
      dispatch standardTable load ⟨s.tree.size⟩ .onOpen (withNode s (Node.opened file line top head true)) =
        (.ok (), s₁) ∧
      (stack, s') = if (s₁.tree.own ⟨s.tree.size⟩).mustClose then (⟨s.tree.size⟩ :: top :: below, s₁)
        else (top :: below, attach top (.node ⟨s.tree.size⟩) s₁) := by
  unfold putOpen at run
  rw [bind_apply, createChild_eq] at run
  dsimp only at run
  cases parsed : Markup.Head.parse content with
  | error e =>
    rw [parsed] at run
    cases run
  | ok head =>
    rw [parsed] at run
    obtain ⟨⟨⟩, s₀, named, run⟩ := bind_ok run
    have same : s₀ = withNode s (Node.opened file line top head true) := by
      cases named
      exact update_withNode s _ _
    subst same
    obtain ⟨⟨⟩, s₁, dispatched, run⟩ := bind_ok run
    refine ⟨head, s₁, rfl, dispatched, ?_⟩
    obtain ⟨t, s₂, got, run⟩ := bind_ok run
    cases got
    by_cases stands : (s₁.tree.own ⟨s.tree.size⟩).mustClose = true
    · rw [if_pos stands] at run ⊢
      cases run
      rfl
    · rw [if_neg stands] at run ⊢
      cases run
      rfl

/-- The handler of a new node, for a tag that stays open and for one that is handled at once. -/
theorem dispatch_onOpen_ok {line : Nat} {head : Markup.Head}
    (run : dispatch standardTable load ⟨s.tree.size⟩ .onOpen (withNode s (Node.opened file line top head true)) =
      (.ok (), s')) :
    ∃ handlers, Keyed.get? head.name standardTable = some handlers ∧
      match handlers.onOpenClose, handlers.onOpen with
      | some handler, _ =>
        carryOut load (handler ⟨s.tree.size⟩) (withNode s (Node.opened file line top head false)) = (.ok (), s')
      | none, some handler =>
        carryOut load (handler ⟨s.tree.size⟩) (withNode s (Node.opened file line top head true)) = (.ok (), s')
      | none, none => s' = withNode s (Node.opened file line top head true) := by
  unfold dispatch at run
  obtain ⟨t, s₁, got, run⟩ := bind_ok run
  cases got
  rw [own_withNode] at run
  dsimp only [Node.opened] at run
  cases found : Keyed.get? head.name standardTable with
  | none =>
    rw [found] at run
    cases run
  | some handlers =>
    rw [found] at run
    refine ⟨handlers, rfl, ?_⟩
    cases once : handlers.onOpenClose with
    | some handler =>
      have both : Phase.onOpen = .onOpen ∧ handlers.onOpenClose.isSome = true := ⟨rfl, by rw [once]; rfl⟩
      dsimp only at run
      rw [if_pos both] at run
      obtain ⟨⟨⟩, s₂, changed, run⟩ := bind_ok run
      have same : s₂ = withNode s (Node.opened file line top head false) := by
        cases changed
        exact update_withNode s _ _
      subst same
      unfold handlerFor at run
      rw [once] at run
      exact run
    | none =>
      have neither : ¬(Phase.onOpen = .onOpen ∧ handlers.onOpenClose.isSome = true) := by
        rw [once]
        exact fun h => by cases h.2
      dsimp only at run
      rw [if_neg neither] at run
      unfold handlerFor at run
      rw [once] at run
      dsimp only [Option.orElse] at run
      cases opens : handlers.onOpen with
      | none =>
        rw [opens] at run
        cases run
        rfl
      | some handler =>
        rw [opens] at run
        exact run

theorem own_blockOpened (n : Node) (s : CompileState W) : (blockOpened n s).tree.own ⟨s.tree.size⟩ = n := by
  unfold blockOpened
  split <;> exact own_withNode s n

/-- A reference differs from the node of its tag in nothing but where it leads. -/
theorem own_putblockPlaced (n : Node) (s : CompileState W) :
    ∃ next, (putblockPlaced n s).tree.own ⟨s.tree.size⟩ = { n with standsFor := next } := by
  unfold putblockPlaced
  split
  · exact ⟨n.standsFor, own_withNode s n⟩
  · rename_i b _
    obtain ⟨next, same, -⟩ := (withNode s n).tree.own_redirect ⟨s.tree.size⟩ b.node ⟨s.tree.size⟩
    exact ⟨next, by rw [same, own_withNode]⟩

theorem mustClose_putblockPlaced (n : Node) (s : CompileState W) :
    ((putblockPlaced n s).tree.own ⟨s.tree.size⟩).mustClose = n.mustClose := by
  obtain ⟨next, same⟩ := own_putblockPlaced n s
  rw [same]

/-- A demand without a default leaves the parameters as they are. -/
theorem checked_required {n : Node} {spec : ParamSpec} {params : Keyed String} (required : spec.default? = none)
    (checked : Checked n false [spec] params) : params = n.params := by
  have applied : ∀ {site : Site} {before after : Keyed String}, spec.apply site before = .ok after →
      after = before := by
    intro site before after h
    unfold ParamSpec.apply at h
    rw [required] at h
    split at h
    · cases h
    · split at h
      · cases h
        rfl
      · cases h
  unfold Checked checkParams applyAll at checked
  cases first : spec.apply ⟨n.tag, n.file, n.line⟩ n.params with
  | error e =>
    rw [first] at checked
    cases checked
  | ok after =>
    rw [first] at checked
    dsimp only [applyAll] at checked
    generalize undeclared [spec] after = others at checked
    cases others with
    | nil =>
      cases checked
      exact applied first
    | cons key others => cases checked

theorem open_effect (old : top.index < s.tree.size) (kind : token.kind = .openTag) (reads : token.reading? = none)
    (run : putOpen standardTable load file token.line token.content top below s = (.ok stack, s')) :
    Effect s file top below token s' stack := by
  obtain ⟨head, s₁, parsed, dispatched, placed⟩ := putOpen_ok run
  obtain ⟨handlers, found, handled⟩ := dispatch_onOpen_ok dispatched
  have other := token.other_of_reading_none kind parsed reads
  obtain ⟨name, params⟩ := head
  -- A node that stands is left open, one that does not becomes part of the node around it.
  have holds : (s₁.tree.own ⟨s.tree.size⟩).mustClose = true →
      stack = ⟨s.tree.size⟩ :: top :: below ∧ s' = s₁ := by
    intro holds
    rw [if_pos holds] at placed
    cases placed
    exact ⟨rfl, rfl⟩
  have joins : (s₁.tree.own ⟨s.tree.size⟩).mustClose = false →
      stack = top :: below ∧ s' = attach top (.node ⟨s.tree.size⟩) s₁ := by
    intro joins
    rw [if_neg (by rw [joins]; exact Bool.false_ne_true)] at placed
    cases placed
    exact ⟨rfl, rfl⟩
  have mem := Keyed.mem_of_get? found
  rw [standardTable_eq] at mem
  simp only [List.mem_cons, Prod.mk.injEq, List.not_mem_nil, or_false] at mem
  -- The cases are those of the table: if, elseif, else, for, foreach, block, blockdef, putblock, addblock, then extends
  -- and include, which read, and t, which has no handler that opens it.
  rcases mem with ⟨rfl, rfl⟩ | ⟨rfl, rfl⟩ | ⟨rfl, rfl⟩ | ⟨rfl, rfl⟩ | ⟨rfl, rfl⟩ | ⟨rfl, rfl⟩ | ⟨rfl, rfl⟩ |
    ⟨rfl, rfl⟩ | ⟨rfl, rfl⟩ | ⟨rfl, rfl⟩ | ⟨rfl, rfl⟩ | ⟨rfl, rfl⟩ <;> dsimp only at handled
  · obtain ⟨params', checked, same⟩ := openIf_ok rfl rfl handled
    obtain ⟨rfl, rfl⟩ := holds (by rw [same, own_withNode]; rfl)
    rw [same]
    exact .nested kind parsed (by simp) checked fun h => absurd h (by simp)
  · obtain ⟨params', checked, inside, early, same⟩ := placeElseIf_ok rfl rfl old rfl handled
    obtain ⟨rfl, rfl⟩ := joins (by rw [same, own_withNode]; rfl)
    rw [same]
    exact .elseIf kind parsed rfl checked inside early
  · obtain ⟨params', checked, inside, early, same⟩ := placeElse_ok rfl rfl old rfl handled
    have kept : (s₁.tree.own ⟨s.tree.size⟩).mustClose = false := by
      unfold noteElse at same
      rw [same, Tree.own_update, if_neg, own_withNode]
      · rfl
      · intro h
        rw [← h.1] at old
        exact Nat.lt_irrefl _ old
    obtain ⟨rfl, rfl⟩ := joins kept
    rw [same]
    exact .otherwise kind parsed rfl checked inside early
  · obtain ⟨params', checked, steps, same⟩ := openFor_ok rfl handled
    obtain ⟨rfl, rfl⟩ := holds (by rw [same, own_withNode]; rfl)
    rw [same]
    exact .nested kind parsed (by simp) checked fun _ => steps
  · obtain ⟨params', checked, same⟩ := openForeach_ok rfl handled
    obtain ⟨rfl, rfl⟩ := holds (by rw [same, own_withNode]; rfl)
    rw [same]
    exact .nested kind parsed (by simp) checked fun h => absurd h (by simp)
  · obtain ⟨params', checked, same⟩ := openBlock_ok handled
    cases checked_required rfl checked
    obtain ⟨rfl, rfl⟩ := holds (by rw [same, own_blockOpened]; rfl)
    rw [same]
    exact .block kind parsed rfl checked
  · obtain ⟨params', checked, same⟩ := demand_fresh handled
    obtain ⟨rfl, rfl⟩ := holds (by rw [same, own_withNode]; rfl)
    rw [same]
    exact .nested kind parsed (by simp) checked fun h => absurd h (by simp)
  · obtain ⟨params', checked, same⟩ := placePutblock_ok handled
    cases checked_required rfl checked
    obtain ⟨rfl, rfl⟩ := joins (by rw [same, mustClose_putblockPlaced]; rfl)
    rw [same]
    exact .putblock kind parsed rfl checked
  · obtain ⟨params', position, checked, goes, same⟩ := openAddblock_ok handled
    obtain ⟨rfl, rfl⟩ := holds (by rw [same, own_blockOpened]; rfl)
    rw [same]
    exact .adding kind parsed rfl checked goes
  · exact absurd rfl other.1
  · exact absurd rfl other.2
  · obtain ⟨rfl, rfl⟩ := holds (by rw [handled, own_withNode]; rfl)
    rw [handled]
    exact .localized kind parsed rfl

end Open

section Close

variable {file : String} {top : NodeId} {below stack : List NodeId} {token : Markup.Token}

/-- The handler of a node that closes; only three tags have one. -/
theorem dispatch_onClose_ok (run : dispatch standardTable load top .onClose s = (.ok (), s')) :
    ((s.tree.own top).tag = "addblock" ∧ ∃ position, Goes top position s ∧ s' = addblockClosed position top s) ∨
      (s.tree.own top).tag ≠ "addblock" ∧
        s' = if (s.tree.own top).tag = "block" then blockClosed top s
          else if (s.tree.own top).tag = "blockdef" then blockdefClosed top s else s := by
  unfold dispatch at run
  obtain ⟨t, s₁, got, run⟩ := bind_ok run
  cases got
  unfold Node.tag
  cases name : (s.tree.own top).name with
  | none =>
    rw [name] at run
    cases run
    exact .inr ⟨by simp, rfl⟩
  | some tag =>
    rw [name] at run
    dsimp only at run
    cases found : Keyed.get? tag standardTable with
    | none =>
      rw [found] at run
      cases run
    | some handlers =>
      rw [found] at run
      dsimp only at run
      rw [if_neg fun h => by cases h.1] at run
      have mem := Keyed.mem_of_get? found
      rw [standardTable_eq] at mem
      simp only [List.mem_cons, Prod.mk.injEq, List.not_mem_nil, or_false] at mem
      rcases mem with ⟨rfl, rfl⟩ | ⟨rfl, rfl⟩ | ⟨rfl, rfl⟩ | ⟨rfl, rfl⟩ | ⟨rfl, rfl⟩ | ⟨rfl, rfl⟩ | ⟨rfl, rfl⟩ |
        ⟨rfl, rfl⟩ | ⟨rfl, rfl⟩ | ⟨rfl, rfl⟩ | ⟨rfl, rfl⟩ | ⟨rfl, rfl⟩
      case inr.inr.inr.inr.inr.inl =>
        have closed := (closeBlock_eq top s).symm.trans run
        cases closed
        exact .inr ⟨by simp, rfl⟩
      case inr.inr.inr.inr.inr.inr.inl =>
        have closed := (closeBlockdef_eq top s).symm.trans run
        cases closed
        exact .inr ⟨by simp, rfl⟩
      case inr.inr.inr.inr.inr.inr.inr.inr.inl => exact .inl ⟨rfl, closeAddblock_ok run⟩
      all_goals
        cases run
        exact .inr ⟨by simp, rfl⟩

/-- A tag that closes has the node handed to its handler, and the node becomes part of the one below. -/
theorem putClose_ok (bottom : below = [] → (s.tree.own top).isRoot = true) {line : Nat} {found : String}
    (run : putClose standardTable load file line found top below s = (.ok stack, s')) :
    ∃ parent under s₁, below = parent :: under ∧ (s.tree.own top).isRoot = false ∧
      dispatch standardTable load top .onClose s = (.ok (), s₁) ∧ stack = below ∧
      s' = attach parent (.node top) s₁ := by
  unfold putClose at run
  obtain ⟨t, s₁, got, run⟩ := bind_ok run
  cases got
  dsimp only at run
  by_cases amiss : (s.tree.own top).isRoot = true ∨ (s.tree.own top).tag ≠ found
  · rw [if_pos amiss] at run
    cases run
  · rw [if_neg amiss] at run
    have inner : (s.tree.own top).isRoot = false := by
      cases root : (s.tree.own top).isRoot with
      | false => rfl
      | true => exact absurd (.inl root) amiss
    obtain ⟨⟨⟩, s₁, dispatched, run⟩ := bind_ok run
    cases below with
    | nil =>
      rw [bottom rfl] at inner
      cases inner
    | cons parent under =>
      cases run
      exact ⟨parent, under, s₁, rfl, inner, dispatched, rfl, rfl⟩

theorem close_effect (bottom : below = [] → (s.tree.own top).isRoot = true) (kind : token.kind = .closeTag)
    {line : Nat} {found : String} (run : putClose standardTable load file line found top below s = (.ok stack, s')) :
    Effect s file top below token s' stack := by
  obtain ⟨parent, under, s₁, rfl, inner, dispatched, rfl, rfl⟩ := putClose_ok bottom run
  obtain ⟨adding, position, -, rfl⟩ | ⟨adding, same⟩ := dispatch_onClose_ok dispatched
  · exact .closedAdding kind rfl inner adding
  · by_cases block : (s.tree.own top).tag = "block"
    · rw [if_pos block] at same
      rw [same]
      exact .closedBlock kind rfl inner block
    · rw [if_neg block] at same
      by_cases blockdef : (s.tree.own top).tag = "blockdef"
      · rw [if_pos blockdef] at same
        rw [same]
        exact .closedBlockdef kind rfl inner blockdef
      · rw [if_neg blockdef] at same
        rw [same]
        refine .closed kind rfl inner fun h => ?_
        simp only [List.mem_cons, List.not_mem_nil, or_false] at h
        rcases h with h | h | h
        · exact block h
        · exact blockdef h
        · exact adding h

/-- What a piece that reads no template does is listed. -/
theorem put_effect (old : top.index < s.tree.size) (bottom : below = [] → (s.tree.own top).isRoot = true)
    (reads : token.reading? = none) (run : put standardTable load file (top :: below) token s = (.ok stack, s')) :
    Effect s file top below token s' stack := by
  unfold put at run
  cases kind : token.kind <;> rw [kind] at run
  · cases run
    exact .text kind
  · have created : putVariable file token.line (String.ofList token.content) top s =
        (.ok (), attach top (.node ⟨s.tree.size⟩)
          (withNode s (printing file token.line (String.ofList token.content) top))) := by
      unfold putVariable
      rw [bind_apply, createChild_eq]
      dsimp only
      rw [bind_apply, changeTree_fresh]
      rfl
    dsimp only at run
    rw [bind_apply, created] at run
    cases run
    exact .printed kind
  · exact open_effect old kind reads run
  · exact close_effect bottom kind run

end Close

end Compile

end Stencil
