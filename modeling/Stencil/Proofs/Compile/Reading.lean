import Stencil.Proofs.Compile.Putting

/-!
A compilation as a machine that reads one piece at a time. Every template that is being read is a sheet; the
innermost is read on, and the others wait at the tag that had the next one read, which is open meanwhile. What is
done with blocks is written down in a history. A successful compilation is a run of the machine.
-/
namespace Stencil

open Tag

/-- A `block` or a `blockdef` that has closed, by how deep its template is nested and with what stands in it. -/
structure Definition where
  block : String
  depth : Nat
  site : NodeId
  /-- Whether the content is also written where it is defined. -/
  inPlace : Bool
  body : List Element
  deriving DecidableEq

inductive BlockEvent where
  /-- A tag for a block has opened inside other blocks of the same source. -/
  | opened (tag block : String) (around : List String)
  | defined (d : Definition)
  /-- A `putblock` has come. -/
  | used (block : String) (site : NodeId)
  deriving DecidableEq

/-- A template that is being read: what is left of it, and its open nodes. -/
structure Sheet where
  frame : Frame
  tokens : List Markup.Token
  stack : List NodeId

structure Reader (W : Type) where
  state : CompileState W
  /-- The innermost sheet comes first. -/
  sheets : List Sheet
  history : List BlockEvent

/-- The block that a tag names. -/
def Markup.Head.block (head : Markup.Head) : String := (Keyed.get? "id" head.params).getD ""

/-- The blocks among open nodes. -/
def Tree.openBlocks (t : Tree) (stack : List NodeId) : List String :=
  stack.filterMap fun id =>
    if (t.own id).tag ∈ ["block", "blockdef"] then some ((t.own id).param "id") else none

/-- What a piece does with blocks. -/
def BlockEvent.ofPiece {W : Type} (token : Markup.Token) (stack : List NodeId) (s : CompileState W) : List BlockEvent :=
  match token.kind, stack with
  | .openTag, _ =>
    match Markup.Head.parse token.content with
    | .ok head =>
      if head.name ∈ ["block", "blockdef", "addblock"] then
        [.opened head.name head.block (s.tree.openBlocks stack)]
      else if head.name = "putblock" then [.used head.block ⟨s.tree.size⟩]
      else []
    | .error _ => []
  | .closeTag, top :: _ =>
    let n := s.tree.own top
    if n.tag = "block" then [.defined ⟨n.param "id", s.frames.length, top, true, n.body⟩]
    else if n.tag = "blockdef" then [.defined ⟨n.param "id", s.frames.length, top, false, n.body⟩]
    else []
  | _, _ => []

namespace Compile

variable {W : Type} {c : Compiler W} {load : Loader W} {s s' : CompileState W}

/-! #### The machine -/

/-- A template is asked for that was read before. -/
def Again (c : Compiler W) (name : String) (s : CompileState W) (root : NodeId) (s' : CompileState W) : Prop :=
  ∃ identity, onWorldExcept (c.library.locate name) s = (.ok identity, s') ∧
    s'.frames.any (·.identity = identity) = false ∧ Keyed.get? identity s'.finished = some root

/-- A text is laid out to be read. -/
def Opens (name identity : String) (stamp : Option Stamp) (text : String) (s : CompileState W) (sheet : Sheet)
    (s' : CompileState W) : Prop :=
  ∃ tokens, Markup.scan name text = .ok tokens ∧
    sheet = ⟨⟨name, identity, ⟨s.tree.size⟩⟩, tokens, [⟨s.tree.size⟩]⟩ ∧
    s' = { withNode s { Node.fresh name 1 with isRoot := true } with
      sources := Keyed.put identity stamp s.sources
      frames := sheet.frame :: s.frames }

/-- A template is asked for that was not read before. -/
def Enters (c : Compiler W) (name : String) (s : CompileState W) (sheet : Sheet) (s' : CompileState W) : Prop :=
  ∃ identity s₁ stamp s₂ text s₃, onWorldExcept (c.library.locate name) s = (.ok identity, s₁) ∧
    s₁.frames.any (·.identity = identity) = false ∧ Keyed.get? identity s₁.finished = none ∧
    onWorld (c.library.modified identity) s₁ = (.ok stamp, s₂) ∧
    onWorldExcept (c.library.read name) s₂ = (.ok text, s₃) ∧ Opens name identity stamp text s₃ sheet s'

/-- The root of a template that has been read to its end. -/
def rootOf (sheet : Sheet) (s : CompileState W) : NodeId :=
  (s.frames.head?.map (·.root)).getD sheet.frame.root

/-- The state after a template has been read. -/
def left (sheet : Sheet) (s : CompileState W) : CompileState W :=
  { s with
    frames := s.frames.tail
    finished := Keyed.put sheet.frame.identity (rootOf sheet s) s.finished }

/-- What a tag does with the root of the template that it had read. -/
def received (head : Markup.Head) (id root : NodeId) (s : CompileState W) : CompileState W :=
  if head.name = "extends" then { s with frames := setRoot root s.frames }
  else { s with tree := (s.tree.clear id).append id (.node root) }

/-- The stack and the state after a new node has been handled. -/
def settled (id top : NodeId) (below : List NodeId) (s : CompileState W) : List NodeId × CompileState W :=
  if (s.tree.own id).mustClose then (id :: top :: below, s) else (top :: below, attach top (.node id) s)

/-- The state in which a template is asked for on behalf of a tag. -/
def referring (file : String) (line : Nat) (top : NodeId) (head : Markup.Head) (s : CompileState W) :
    CompileState W :=
  withNode s (Node.opened file line top head false)

/-- A sheet that has been read to its end. -/
def Finished (sheet : Sheet) (s : CompileState W) : Prop :=
  sheet.tokens = [] ∧ checkClosed sheet.stack s = (.ok (), s)

inductive Step (c : Compiler W) : Reader W → Reader W → Prop where
  | put {s s' : CompileState W} {frame : Frame} {token : Markup.Token} {tokens : List Markup.Token}
      {stack stack' : List NodeId} {outer : List Sheet} {h : List BlockEvent}
      (reads : stack = [] ∨ token.reading? = none)
      (run : Compile.put c.table noLoad frame.name stack token s = (.ok stack', s')) :
      Step c ⟨s, ⟨frame, token :: tokens, stack⟩ :: outer, h⟩
        ⟨s', ⟨frame, tokens, stack'⟩ :: outer, h ++ BlockEvent.ofPiece token stack s⟩
  | again {s s₁ : CompileState W} {frame : Frame} {token : Markup.Token} {tokens : List Markup.Token}
      {top root : NodeId} {below : List NodeId} {outer : List Sheet} {h : List BlockEvent} {head : Markup.Head}
      (reads : token.reading? = some head)
      (checked : Checked (Node.opened frame.name token.line top head false) false (demands head.name) head.params)
      (again : Again c ((Keyed.get? "name" head.params).getD "") (referring frame.name token.line top head s) root s₁) :
      Step c ⟨s, ⟨frame, token :: tokens, top :: below⟩ :: outer, h⟩
        ⟨(settled ⟨s.tree.size⟩ top below (received head ⟨s.tree.size⟩ root s₁)).2,
          ⟨frame, tokens, (settled ⟨s.tree.size⟩ top below (received head ⟨s.tree.size⟩ root s₁)).1⟩ :: outer, h⟩
  | enter {s s₁ : CompileState W} {frame : Frame} {token : Markup.Token} {tokens : List Markup.Token}
      {top : NodeId} {below : List NodeId} {outer : List Sheet} {h : List BlockEvent} {head : Markup.Head} {sheet : Sheet}
      (reads : token.reading? = some head)
      (checked : Checked (Node.opened frame.name token.line top head false) false (demands head.name) head.params)
      (enters : Enters c ((Keyed.get? "name" head.params).getD "") (referring frame.name token.line top head s)
        sheet s₁) :
      Step c ⟨s, ⟨frame, token :: tokens, top :: below⟩ :: outer, h⟩
        ⟨s₁, sheet :: ⟨frame, token :: tokens, ⟨s.tree.size⟩ :: top :: below⟩ :: outer, h⟩
  | leave {s : CompileState W} {inner : Sheet} {frame : Frame} {token : Markup.Token} {tokens : List Markup.Token}
      {id top : NodeId} {below : List NodeId} {outer : List Sheet} {h : List BlockEvent} {head : Markup.Head}
      (finished : Finished inner s) (reads : token.reading? = some head) :
      Step c ⟨s, inner :: ⟨frame, token :: tokens, id :: top :: below⟩ :: outer, h⟩
        ⟨(settled id top below (received head id (rootOf inner s) (left inner s))).2,
          ⟨frame, tokens, (settled id top below (received head id (rootOf inner s) (left inner s))).1⟩ :: outer, h⟩

/-- What has happened is not forgotten. -/
theorem Step.history {r r' : Reader W} (step : Step c r r') : ∃ more, r'.history = r.history ++ more := by
  cases step with
  | put => exact ⟨_, rfl⟩
  | again => exact ⟨[], (List.append_nil _).symm⟩
  | enter => exact ⟨[], (List.append_nil _).symm⟩
  | leave => exact ⟨[], (List.append_nil _).symm⟩

/-- Any number of steps. -/
inductive Run (c : Compiler W) : Reader W → Reader W → Prop where
  | here (r : Reader W) : Run c r r
  | on {r r₁ r₂ : Reader W} : Step c r r₁ → Run c r₁ r₂ → Run c r r₂

theorem Run.trans {r r₁ r₂ : Reader W} (first : Run c r r₁) (second : Run c r₁ r₂) : Run c r r₂ := by
  induction first with
  | here => exact second
  | on step _ ih => exact .on step (ih second)

theorem Run.history {r r' : Reader W} (run : Run c r r') : ∃ more, r'.history = r.history ++ more := by
  induction run with
  | here r => exact ⟨[], (List.append_nil _).symm⟩
  | on step rest ih =>
    obtain ⟨events, first⟩ := step.history
    obtain ⟨more, same⟩ := ih
    exact ⟨events ++ more, by rw [same, first, List.append_assoc]⟩

/-! #### Compilations are runs -/

theorem of_reading {token : Markup.Token} {head : Markup.Head} (reads : token.reading? = some head) :
    token.kind = .openTag ∧ Markup.Head.parse token.content = .ok head ∧
      (head.name = "extends" ∨ head.name = "include") := by
  unfold Markup.Token.reading? at reads
  split at reads
  · rename_i kind parsed
    split at reads
    · rename_i either
      cases reads
      exact ⟨kind, parsed, either⟩
    · cases reads
  · cases reads

theorem loadRoot_ok {name : String} {via : Option NodeId} {root : NodeId}
    (run : carryOut load (Handler.loadRoot name via) s = (.ok root, s')) : load name via s = (.ok root, s') := by
  unfold Handler.loadRoot carryOut at run
  cases result : load name via s with
  | mk r s₁ =>
    rw [result] at run
    cases r with
    | error e => cases run
    | ok found =>
      cases run
      rfl

/-- A tag that has a template read goes on with the root that it gets. -/
theorem put_reading_ok (standard : c.table = standardTable) {file : String} {token : Markup.Token}
    {head : Markup.Head} {top : NodeId} {below stack : List NodeId} (reads : token.reading? = some head)
    (run : put c.table load file (top :: below) token s = (.ok stack, s')) :
    Checked (Node.opened file token.line top head false) false (demands head.name) head.params ∧
      ∃ root s₁, load ((Keyed.get? "name" head.params).getD "") (some ⟨s.tree.size⟩)
        (referring file token.line top head s) = (.ok root, s₁) ∧
        (stack, s') = settled ⟨s.tree.size⟩ top below (received head ⟨s.tree.size⟩ root s₁) := by
  obtain ⟨kind, parsed, either⟩ := of_reading reads
  unfold put at run
  rw [kind, standard] at run
  obtain ⟨head', s₁, parsed', dispatched, placed⟩ := putOpen_ok run
  cases parsed.symm.trans parsed'
  obtain ⟨handlers, found, handled⟩ := dispatch_onOpen_ok dispatched
  have stands : (stack, s') = settled ⟨s.tree.size⟩ top below s₁ := placed
  obtain ⟨name, params⟩ := head
  have mem := Keyed.mem_of_get? found
  rw [standardTable_eq] at mem
  simp only [List.mem_cons, Prod.mk.injEq, List.not_mem_nil, or_false] at mem
  dsimp only at either
  rcases either with rfl | rfl
  all_goals
    simp only [String.reduceEq, false_and, false_or, or_false, true_and] at mem
    subst mem
    obtain ⟨⟨⟩, s₂, demanded, handled⟩ := carryOut_bind_ok handled
    obtain ⟨params', checked, same⟩ := demand_fresh demanded
    cases checked_required rfl checked
    subst same
    rw [carryOut_after own_fresh] at handled
    obtain ⟨root, s₃, loaded, handled⟩ := carryOut_bind_ok handled
    cases handled
    exact ⟨checked, root, s₃, loadRoot_ok loaded, stands⟩

/-- What a loader does is a step, or a run on a sheet of its own. -/
def Traced (c : Compiler W) (load : Loader W) : Prop :=
  ∀ {name : String} {via : Option NodeId} {s s' : CompileState W} {root : NodeId},
    load name via s = (.ok root, s') → Again c name s root s' ∨ ∃ sheet s₁, Enters c name s sheet s₁ ∧
      ∀ outer h, ∃ inner s₂ h', Run c ⟨s₁, sheet :: outer, h⟩ ⟨s₂, inner :: outer, h'⟩ ∧ Finished inner s₂ ∧
        root = rootOf inner s₂ ∧ s' = left inner s₂

/-- Putting the pieces of a source in their places is a run. -/
theorem puts_run (standard : c.table = standardTable) (traced : Traced c load) (frame : Frame) (outer : List Sheet)
    (tokens : List Markup.Token) {stack stack' : List NodeId} {h : List BlockEvent}
    (run : tokens.foldlM (put c.table load frame.name) stack s = (.ok stack', s')) :
    ∃ h', Run c ⟨s, ⟨frame, tokens, stack⟩ :: outer, h⟩ ⟨s', ⟨frame, [], stack'⟩ :: outer, h'⟩ := by
  induction tokens generalizing s stack h with
  | nil =>
    cases run
    exact ⟨h, .here _⟩
  | cons token tokens ih =>
    rw [List.foldlM_cons] at run
    obtain ⟨stack₁, s₁, first, rest⟩ := bind_ok run
    by_cases reads : stack = [] ∨ token.reading? = none
    · obtain ⟨h', after⟩ := ih (h := h ++ BlockEvent.ofPiece token stack s) rest
      refine ⟨h', .on (.put reads ?_) after⟩
      rcases reads with empty | reads
      · rw [empty] at first ⊢
        exact first
      · rw [← first, standard]
        exact put_of_reading_none _ reads _ _
    · cases stack with
      | nil => exact absurd (.inl rfl) reads
      | cons top below =>
        cases found : token.reading? with
        | none => exact absurd (.inr found) reads
        | some head =>
          obtain ⟨checked, root, s₂, loaded, after⟩ := put_reading_ok standard found first
          obtain ⟨rfl, rfl⟩ := Prod.mk.inj after
          rcases traced loaded with again | ⟨sheet, s₃, enters, inside⟩
          · obtain ⟨h', after⟩ := ih (h := h) rest
            exact ⟨h', .on (.again found checked again) after⟩
          · obtain ⟨inner, s₄, h₁, ran, finished, rfl, rfl⟩ :=
              inside (⟨frame, token :: tokens, ⟨s.tree.size⟩ :: top :: below⟩ :: outer) h
            obtain ⟨h', after⟩ := ih (h := h₁) rest
            exact ⟨h', .on (.enter found checked enters) (ran.trans (.on (.leave finished found) after))⟩

theorem checkClosed_ok {stack : List NodeId} (run : checkClosed stack s = (.ok (), s')) : s' = s := by
  cases stack with
  | nil =>
    cases run
    rfl
  | cons top below =>
    unfold checkClosed at run
    dsimp only at run
    rw [bind_apply, getTree_apply] at run
    dsimp only at run
    split at run
    · cases run
      rfl
    · cases run

/-- What is done while a template counts as being read succeeds with it. -/
theorem within_ok {frame : Frame} {act : Compile W Unit} {root : NodeId}
    (run : within frame act s = (.ok root, s')) :
    ∃ a t, act { s with frames := frame :: s.frames } = (.ok a, t) ∧
      root = (t.frames.head?.map (·.root)).getD frame.root ∧ s' = { t with frames := t.frames.tail } := by
  unfold within at run
  cases acted : act { s with frames := frame :: s.frames } with
  | mk r t =>
    rw [acted] at run
    cases r with
    | error e => cases run
    | ok a =>
      cases run
      exact ⟨a, t, rfl, rfl, rfl⟩

theorem within_of_ok {frame : Frame} {act : Compile W Unit}
    (done : act { s with frames := frame :: s.frames } = (.ok (), s')) :
    within frame act s = (.ok ((s'.frames.head?.map (·.root)).getD frame.root), { s' with frames := s'.frames.tail }) := by
  unfold within
  rw [done]
  rfl

/-- A text is read under a root of its own. -/
theorem readSource_of_scan {table : Tag.Table} {name identity : String} {stamp : Option Stamp} {text : String}
    {tokens : List Markup.Token} (scanned : Markup.scan name text = .ok tokens) :
    readSource table load name identity stamp text s =
      within ⟨name, identity, ⟨s.tree.size⟩⟩ (build table load name ⟨s.tree.size⟩ tokens)
        { withNode s { Node.fresh name 1 with isRoot := true } with sources := Keyed.put identity stamp s.sources } := by
  have placed := update_withNode { s with sources := Keyed.put identity stamp s.sources } (Node.fresh name 1)
    fun n => { n with isRoot := true }
  show _ = within _ _ (withNode { s with sources := Keyed.put identity stamp s.sources } _)
  rw [← placed]
  simp only [readSource, scanned]
  rfl

/-- Reading the text of a source is a run on a sheet of its own. -/
theorem readSource_run (standard : c.table = standardTable) (traced : Traced c load) {name identity : String}
    {stamp : Option Stamp} {text : String} {root : NodeId}
    (run : readSource c.table load name identity stamp text s = (.ok root, s')) :
    ∃ sheet s₁, Opens name identity stamp text s sheet s₁ ∧ ∀ outer h, ∃ inner s₂ h',
      Run c ⟨s₁, sheet :: outer, h⟩ ⟨s₂, inner :: outer, h'⟩ ∧ Finished inner s₂ ∧ inner.frame = sheet.frame ∧
        root = rootOf inner s₂ ∧ s' = { s₂ with frames := s₂.frames.tail } := by
  cases scanned : Markup.scan name text with
  | error e =>
    simp only [readSource, scanned] at run
    cases run
  | ok tokens =>
    let id : NodeId := ⟨s.tree.size⟩
    let frame : Frame := ⟨name, identity, id⟩
    let s₁ : CompileState W := { withNode s { Node.fresh name 1 with isRoot := true } with
      sources := Keyed.put identity stamp s.sources }
    have same : readSource c.table load name identity stamp text s =
        within frame (build c.table load name id tokens) s₁ := readSource_of_scan scanned
    refine ⟨⟨frame, tokens, [id]⟩, { s₁ with frames := frame :: s.frames }, ⟨tokens, scanned, rfl, rfl⟩, ?_⟩
    intro outer h
    rw [same] at run
    obtain ⟨a, s₂, built, rfl, rfl⟩ := within_ok run
    obtain ⟨stack, s₃, putAll, closed⟩ := bind_ok built
    cases checkClosed_ok closed
    obtain ⟨h', ran⟩ := puts_run standard traced frame outer tokens (h := h) putAll
    exact ⟨⟨frame, [], stack⟩, s₂, h', ran, ⟨rfl, closed⟩, rfl, rfl, rfl⟩

theorem loadWithin_traced (standard : c.table = standardTable) (depth : Nat) : Traced c (loadWithin c depth) := by
  induction depth with
  | zero =>
    intro name via s s' root run
    cases run
  | succ depth ih =>
    intro name via s s' root run
    unfold loadWithin at run
    obtain ⟨identity, s₁, located, run⟩ := bind_ok run
    obtain ⟨state, s₂, got, run⟩ := bind_ok run
    cases got
    cases cyclic : s₁.frames.any (·.identity = identity) with
    | true =>
      rw [if_pos cyclic] at run
      cases run
    | false =>
      rw [if_neg (by rw [cyclic]; exact Bool.false_ne_true)] at run
      cases done : Keyed.get? identity s₁.finished with
      | some found =>
        rw [done] at run
        cases run
        exact .inl ⟨identity, located, cyclic, done⟩
      | none =>
        rw [done] at run
        obtain ⟨stamp, s₂, stamped, run⟩ := bind_ok run
        obtain ⟨text, s₃, read, run⟩ := bind_ok run
        obtain ⟨root', s₄, sourced, run⟩ := bind_ok run
        cases run
        obtain ⟨sheet, s₅, opens, inside⟩ := readSource_run standard ih sourced
        refine .inr ⟨sheet, s₅, ⟨identity, s₁, stamp, s₂, text, s₃, located, cyclic, done, stamped, read, opens⟩, ?_⟩
        intro outer h
        obtain ⟨inner, s₆, h', ran, finished, frame, rfl, rfl⟩ := inside outer h
        refine ⟨inner, s₆, h', ran, finished, rfl, ?_⟩
        obtain ⟨tokens, -, laid, -⟩ := opens
        unfold left
        rw [frame, laid]

theorem load_traced (standard : c.table = standardTable) : Traced c (Compile.load c) :=
  fun run => loadWithin_traced standard _ run

/-- A compilation of the template of a name, or of a text under that name. -/
def compiled (c : Compiler W) (name : String) : Option String → Compile W Template
  | none => template c name
  | some text => inlineTemplate c name text

/-- The first sheet of a compilation. -/
def Begins (c : Compiler W) (name : String) (text? : Option String) (s : CompileState W) (sheet : Sheet)
    (s' : CompileState W) : Prop :=
  match text? with
  | none => Enters c name s sheet s'
  | some text => ∃ stamp s₁, onWorld (c.library.modified name) s = (.ok stamp, s₁) ∧
      Opens name name stamp text s₁ sheet s'

/-- A whole compilation: the first sheet is read to its end, and what was deferred is linked. -/
def Reads (c : Compiler W) (name : String) (text? : Option String) (s : CompileState W) (h : List BlockEvent)
    (t : Template) (s' : CompileState W) : Prop :=
  ∃ sheet s₁ inner s₂, Begins c name text? s sheet s₁ ∧ Run c ⟨s₁, [sheet], []⟩ ⟨s₂, [inner], h⟩ ∧
    Finished inner s₂ ∧ finish name (rootOf inner s₂)
      (if text?.isSome then { s₂ with frames := s₂.frames.tail } else left inner s₂) = (.ok t, s')

/-- What comes before the last links: the template is read with all that it needs. -/
def loaded (c : Compiler W) (name : String) : Option String → Compile W NodeId
  | none => Compile.load c name none
  | some text => do
    let stamp ← onWorld (c.library.modified name)
    readSource c.table (Compile.load c) name name stamp text

theorem compiled_eq (c : Compiler W) (name : String) (text? : Option String) :
    compiled c name text? = loaded c name text? >>= finish name := by
  cases text? with
  | none => rfl
  | some text => exact (bind_assoc (m := Compile W) _ _ _).symm

/-- What is read is a run from the first sheet to its last piece. -/
theorem loaded_run (standard : c.table = standardTable) {name : String} {text? : Option String} {root : NodeId}
    {w : W} (run : loaded c name text? (.initial w) = (.ok root, s')) :
    ∃ sheet s₁ inner s₂ h, Begins c name text? (.initial w) sheet s₁ ∧ Run c ⟨s₁, [sheet], []⟩ ⟨s₂, [inner], h⟩ ∧
      Finished inner s₂ ∧ root = rootOf inner s₂ ∧
      s' = if text?.isSome then { s₂ with frames := s₂.frames.tail } else left inner s₂ := by
  cases text? with
  | none =>
    rcases load_traced standard run with ⟨identity, located, -, done⟩ | ⟨sheet, s₂, enters, inside⟩
    · have kept : s'.finished = [] := by
        obtain ⟨-, rfl⟩ := Prod.mk.inj located
        rfl
      rw [kept] at done
      cases done
    · obtain ⟨inner, s₃, h, ran, complete, rfl, rfl⟩ := inside [] []
      exact ⟨sheet, s₂, inner, s₃, h, enters, ran, complete, rfl, rfl⟩
  | some text =>
    obtain ⟨stamp, s₁, stamped, sourced⟩ := bind_ok run
    obtain ⟨sheet, s₃, opens, inside⟩ := readSource_run standard (load_traced standard) sourced
    obtain ⟨inner, s₄, h, ran, complete, -, rfl, rfl⟩ := inside [] []
    exact ⟨sheet, s₃, inner, s₄, h, ⟨stamp, s₁, stamped, opens⟩, ran, complete, rfl, rfl⟩

/-- Every compilation that succeeds is a run from its first sheet to its last piece. -/
theorem compiled_reads (standard : c.table = standardTable) {name : String} {text? : Option String} {t : Template}
    {w : W} (run : compiled c name text? (.initial w) = (.ok t, s')) :
    ∃ h, Reads c name text? (.initial w) h t s' := by
  rw [compiled_eq] at run
  obtain ⟨root, s₁, read, finishes⟩ := bind_ok run
  obtain ⟨sheet, s₂, inner, s₃, h, begins, ran, finished, rfl, rfl⟩ := loaded_run standard read
  exact ⟨h, sheet, s₂, inner, s₃, begins, ran, finished, finishes⟩

/-- Whether a compilation succeeds with a template and a state of which this holds. -/
def compilesTo (c : Compiler W) (name : String) (text? : Option String) (w : W)
    (holds : Template → CompileState W → Bool) : Bool :=
  match compiled c name text? (.initial w) with
  | (.ok t, s) => holds t s
  | (.error _, _) => false

theorem exists_of_compilesTo {name : String} {text? : Option String} {w : W} {holds : Template → CompileState W → Bool}
    (made : compilesTo c name text? w holds = true) :
    ∃ t s, compiled c name text? (.initial w) = (.ok t, s) ∧ holds t s = true := by
  unfold compilesTo at made
  split at made
  · rename_i t s compiles
    exact ⟨t, s, compiles, made⟩
  · cases made

theorem exists_of_isOk {α : Type} {result : Except TemplateError α × CompileState W} (ok : result.1.isOk = true) :
    ∃ a s', result = (.ok a, s') := by
  obtain ⟨e | a, s'⟩ := result
  · cases ok
  · exact ⟨a, s', rfl⟩

theorem exists_of_not_isOk {α : Type} {result : Except TemplateError α × CompileState W}
    (failed : result.1.isOk = false) : ∃ e s', result = (.error e, s') := by
  obtain ⟨e | a, s'⟩ := result
  · exact ⟨e, s', rfl⟩
  · cases failed

/-! #### The machine as a function -/

/-- Lays out the text of a source. -/
def lay? (name identity : String) (stamp : Option Stamp) (text : String) (s : CompileState W) :
    Option (Sheet × CompileState W) :=
  match Markup.scan name text with
  | .ok tokens =>
    let frame : Frame := ⟨name, identity, ⟨s.tree.size⟩⟩
    some (⟨frame, tokens, [⟨s.tree.size⟩]⟩, { withNode s { Node.fresh name 1 with isRoot := true } with
      sources := Keyed.put identity stamp s.sources
      frames := frame :: s.frames })
  | .error _ => none

theorem opens_of_lay? {name identity text : String} {stamp : Option Stamp} {sheet : Sheet}
    (laid : lay? name identity stamp text s = some (sheet, s')) : Opens name identity stamp text s sheet s' := by
  unfold lay? at laid
  split at laid
  · rename_i tokens scanned
    cases laid
    exact ⟨tokens, scanned, rfl, rfl⟩
  · cases laid

/-- What is there for a name: a root, or a sheet that is still to be read. -/
def ask? (c : Compiler W) (name : String) (s : CompileState W) : Option ((NodeId ⊕ Sheet) × CompileState W) :=
  match onWorldExcept (c.library.locate name) s with
  | (.ok identity, s) =>
    if s.frames.any (·.identity = identity) then none
    else match Keyed.get? identity s.finished with
      | some root => some (.inl root, s)
      | none =>
        match onWorld (c.library.modified identity) s with
        | (.ok stamp, s) =>
          match onWorldExcept (c.library.read name) s with
          | (.ok text, s) => (lay? name identity stamp text s).map fun (sheet, s) => (.inr sheet, s)
          | _ => none
        | _ => none
  | _ => none

theorem again_of_ask? {name : String} {root : NodeId} (asked : ask? c name s = some (.inl root, s')) :
    Again c name s root s' := by
  unfold ask? at asked
  split at asked
  · rename_i identity s₁ located
    split at asked
    · cases asked
    rename_i acyclic
    split at asked
    · rename_i found done
      cases asked
      exact ⟨identity, located, Bool.eq_false_iff.mpr acyclic, done⟩
    · split at asked
      · split at asked
        · obtain ⟨p, -, same⟩ := Option.map_eq_some_iff.mp asked
          cases same
        · cases asked
      · cases asked
  · cases asked

theorem enters_of_ask? {name : String} {sheet : Sheet} (asked : ask? c name s = some (.inr sheet, s')) :
    Enters c name s sheet s' := by
  unfold ask? at asked
  split at asked
  · rename_i identity s₁ located
    split at asked
    · cases asked
    rename_i acyclic
    split at asked
    · cases asked
    · rename_i fresh
      split at asked
      · rename_i stamp s₂ stamped
        split at asked
        · rename_i text s₃ read
          obtain ⟨p, laid, same⟩ := Option.map_eq_some_iff.mp asked
          cases same
          exact ⟨identity, s₁, stamp, s₂, text, s₃, located, Bool.eq_false_iff.mpr acyclic, fresh, stamped, read,
            opens_of_lay? laid⟩
        · cases asked
      · cases asked
  · cases asked

/-- Whether a sheet has been read to its end. -/
def isFinished (sheet : Sheet) (s : CompileState W) : Bool :=
  sheet.tokens.isEmpty && (checkClosed sheet.stack s).1.toBool

theorem finished_of_isFinished {sheet : Sheet} (finished : isFinished sheet s = true) : Finished sheet s := by
  unfold isFinished at finished
  rw [Bool.and_eq_true] at finished
  obtain ⟨empty, closed⟩ := finished
  cases run : checkClosed sheet.stack s with
  | mk r s₁ =>
    rw [run] at closed
    cases r with
    | error e => cases closed
    | ok =>
      cases checkClosed_ok run
      exact ⟨List.isEmpty_iff.mp empty, run⟩

/-- The next piece of a sheet is put in its place. -/
def put? (c : Compiler W) (s : CompileState W) (frame : Frame) (token : Markup.Token) (tokens : List Markup.Token)
    (stack : List NodeId) (outer : List Sheet) (h : List BlockEvent) : Option (Reader W) :=
  match Compile.put c.table noLoad frame.name stack token s with
  | (.ok stack', s') => some ⟨s', ⟨frame, tokens, stack'⟩ :: outer, h ++ BlockEvent.ofPiece token stack s⟩
  | (.error _, _) => none

/-- The next piece of a sheet asks for a template. -/
def refer? (c : Compiler W) (s : CompileState W) (frame : Frame) (token : Markup.Token) (tokens : List Markup.Token)
    (top : NodeId) (below : List NodeId) (outer : List Sheet) (h : List BlockEvent) (head : Markup.Head) :
    Option (Reader W) :=
  let n := Node.opened frame.name token.line top head false
  if (checkParams ⟨n.tag, n.file, n.line⟩ false (demands head.name) n.params).toOption = some head.params then
    match ask? c ((Keyed.get? "name" head.params).getD "") (referring frame.name token.line top head s) with
    | some (.inl root, s₁) =>
      let p := settled ⟨s.tree.size⟩ top below (received head ⟨s.tree.size⟩ root s₁)
      some ⟨p.2, ⟨frame, tokens, p.1⟩ :: outer, h⟩
    | some (.inr sheet, s₁) =>
      some ⟨s₁, sheet :: ⟨frame, token :: tokens, ⟨s.tree.size⟩ :: top :: below⟩ :: outer, h⟩
    | none => none
  else none

/-- The innermost sheet has been read, and the one around it goes on. -/
def leave? (s : CompileState W) (inner : Sheet) (h : List BlockEvent) : List Sheet → Option (Reader W)
  | ⟨frame, token :: tokens, id :: top :: below⟩ :: outer =>
    match token.reading? with
    | some head =>
      if isFinished inner s then
        let p := settled id top below (received head id (rootOf inner s) (left inner s))
        some ⟨p.2, ⟨frame, tokens, p.1⟩ :: outer, h⟩
      else none
    | none => none
  | _ => none

def step? (c : Compiler W) (r : Reader W) : Option (Reader W) :=
  match r.sheets with
  | ⟨frame, token :: tokens, []⟩ :: outer => put? c r.state frame token tokens [] outer r.history
  | ⟨frame, token :: tokens, top :: below⟩ :: outer =>
    match token.reading? with
    | none => put? c r.state frame token tokens (top :: below) outer r.history
    | some head => refer? c r.state frame token tokens top below outer r.history head
  | inner :: outer => leave? r.state inner r.history outer
  | [] => none

theorem step_of_put? {frame : Frame} {token : Markup.Token} {tokens : List Markup.Token} {stack : List NodeId}
    {outer : List Sheet} {h : List BlockEvent} {r : Reader W} (reads : stack = [] ∨ token.reading? = none)
    (goes : put? c s frame token tokens stack outer h = some r) :
    Step c ⟨s, ⟨frame, token :: tokens, stack⟩ :: outer, h⟩ r := by
  unfold put? at goes
  split at goes
  · rename_i run
    cases goes
    exact .put reads run
  · cases goes

theorem step_of_refer? {frame : Frame} {token : Markup.Token} {tokens : List Markup.Token} {top : NodeId}
    {below : List NodeId} {outer : List Sheet} {h : List BlockEvent} {head : Markup.Head} {r : Reader W}
    (reads : token.reading? = some head)
    (goes : refer? c s frame token tokens top below outer h head = some r) :
    Step c ⟨s, ⟨frame, token :: tokens, top :: below⟩ :: outer, h⟩ r := by
  unfold refer? at goes
  dsimp only at goes
  split at goes
  · rename_i same
    have checked : Checked (Node.opened frame.name token.line top head false) false (demands head.name)
        head.params := by
      unfold Checked
      cases result : checkParams _ false (demands head.name)
          (Node.opened frame.name token.line top head false).params with
      | error e =>
        rw [result] at same
        cases same
      | ok params =>
        rw [result] at same
        exact congrArg Except.ok (Option.some.inj same)
    split at goes
    · rename_i asked
      cases goes
      exact .again reads checked (again_of_ask? asked)
    · rename_i asked
      cases goes
      exact .enter reads checked (enters_of_ask? asked)
    · cases goes
  · cases goes

theorem step_of_leave? {inner : Sheet} {outer : List Sheet} {h : List BlockEvent} {r : Reader W}
    (goes : leave? s inner h outer = some r) : Step c ⟨s, inner :: outer, h⟩ r := by
  unfold leave? at goes
  split at goes
  · split at goes
    · rename_i reads
      split at goes
      · rename_i finished
        cases goes
        exact .leave (finished_of_isFinished finished) reads
      · cases goes
    · cases goes
  · cases goes

theorem step_of_step? {r r' : Reader W} (goes : step? c r = some r') : Step c r r' := by
  obtain ⟨s, sheets, h⟩ := r
  unfold step? at goes
  split at goes
  · rename_i same
    dsimp only at same
    subst same
    exact step_of_put? (.inl rfl) goes
  · rename_i same
    dsimp only at same
    subst same
    split at goes
    · rename_i reads
      exact step_of_put? (.inr reads) goes
    · rename_i reads
      exact step_of_refer? reads goes
  · rename_i same
    dsimp only at same
    subst same
    exact step_of_leave? goes
  · cases goes

/-- Goes on for at most so many steps. -/
def runFor (c : Compiler W) : Nat → Reader W → Reader W
  | 0, r => r
  | n + 1, r =>
    match step? c r with
    | some r' => runFor c n r'
    | none => r

theorem run_runFor (c : Compiler W) (n : Nat) (r : Reader W) : Run c r (runFor c n r) := by
  induction n generalizing r with
  | zero => exact .here r
  | succ n ih =>
    unfold runFor
    split
    · rename_i r' goes
      exact .on (step_of_step? goes) (ih r')
    · exact .here r

/-- What is read in so many steps for the template of a name. -/
def read? (c : Compiler W) (n : Nat) (name : String) (s : CompileState W) :
    Option (List BlockEvent × Template × CompileState W) :=
  match ask? c name s with
  | some (.inr sheet, s₁) =>
    let r := runFor c n ⟨s₁, [sheet], []⟩
    match r.sheets with
    | [inner] =>
      if isFinished inner r.state then
        match finish name (rootOf inner r.state) (left inner r.state) with
        | (.ok t, s') => some (r.history, t, s')
        | (.error _, _) => none
      else none
    | _ => none
  | _ => none

theorem reads_of_read? {n : Nat} {name : String} {h : List BlockEvent} {t : Template}
    (read : read? c n name s = some (h, t, s')) : Reads c name none s h t s' := by
  unfold read? at read
  split at read
  · rename_i sheet s₁ asked
    dsimp only at read
    split at read
    · rename_i inner alone
      split at read
      · rename_i finished
        split at read
        · rename_i finishes
          cases read
          have ran := run_runFor c n ⟨s₁, [sheet], []⟩
          generalize runFor c n ⟨s₁, [sheet], []⟩ = r at *
          obtain ⟨s₂, sheets, h⟩ := r
          dsimp only at alone finished finishes
          subst alone
          exact ⟨sheet, s₁, inner, s₂, enters_of_ask? asked, ran, finished_of_isFinished finished, finishes⟩
        · cases read
      · cases read
    · cases read
  · cases read

end Compile

end Stencil
