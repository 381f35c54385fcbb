import Stencil.Proofs.Compile.Calls
import Stencil.Proofs.Compile.UnknownBlocks

/-!
All uses of a block converge. Whatever the sources are, in the end every node of a `block`, every node that took the
content of a `blockdef`, every node of a `putblock` and every node that was ever registered for a block lead to one
node, and the artifact has the same pieces wherever one of them is written. A compilation fails because of an unknown
block only if a `putblock` names one that nothing has registered.
-/
namespace Stencil

open Tag

/-- The next piece is a `putblock` of this block. -/
def Reader.Refers {W : Type} (r : Reader W) (block : String) : Prop :=
  ∃ head, r.opens? = some head ∧ head.name = "putblock" ∧ head.block = block

/-- The error of an unknown block tells which block it is. -/
theorem TemplateError.unknownBlock_inj {site site' : Site} {block block' : String}
    (same : unknownBlock site block = unknownBlock site' block') : block = block' := by
  have worded := (TemplateError.structural.inj same).2
  exact String.append_right_inj _ |>.mp (String.append_left_inj _ |>.mp worded)

namespace Compile

variable {W : Type} {c : Compiler W} {s s' : CompileState W} {name : String} {text? : Option String} {root : NodeId}
  {site : Site} {block : String}

/-! #### The last links -/

/-- The last links fail if something waits for a block that is not registered. -/
theorem linkDeferred_fails {ids : List NodeId}
    (unknown : ∃ id ∈ ids, Keyed.get? ((s.tree.own id).param "id") s.blocks = none) :
    ∃ site block s', linkDeferred ids s = (.error (.unknownBlock site block), s') := by
  induction ids generalizing s with
  | nil =>
    obtain ⟨id, mem, -⟩ := unknown
    cases mem
  | cons first ids ih =>
    rw [linkDeferred_cons]
    cases known : Keyed.get? ((s.tree.own first).param "id") s.blocks with
    | none => exact ⟨_, _, s, rfl⟩
    | some b =>
      obtain ⟨id, mem, missing⟩ := unknown
      refine ih ⟨id, ?_, ?_⟩
      · rcases List.mem_cons.mp mem with rfl | mem
        · cases missing.symm.trans known
        · exact mem
      · obtain ⟨next, same, -⟩ := s.tree.own_redirect first b.node id
        show Keyed.get? (((s.tree.redirect first b.node).own id).param "id") s.blocks = none
        rw [same]
        exact missing

/-- Then the error names such a block. -/
theorem unknown_of_linkDeferred {ids : List NodeId}
    (failed : linkDeferred ids s = (.error (.unknownBlock site block), s')) :
    ∃ id ∈ ids, (s.tree.own id).param "id" = block ∧ Keyed.get? block s.blocks = none := by
  induction ids generalizing s with
  | nil => cases failed
  | cons first ids ih =>
    rw [linkDeferred_cons] at failed
    cases known : Keyed.get? ((s.tree.own first).param "id") s.blocks with
    | none =>
      rw [known] at failed
      have named := TemplateError.unknownBlock_inj (Except.error.inj (Prod.mk.inj failed).1)
      subst named
      exact ⟨first, List.mem_cons_self, rfl, known⟩
    | some b =>
      rw [known] at failed
      obtain ⟨id, mem, named, missing⟩ := ih failed
      refine ⟨id, List.mem_cons_of_mem _ mem, ?_, missing⟩
      obtain ⟨next, same, -⟩ := s.tree.own_redirect first b.node id
      rw [← named, same]
      rfl

theorem finish_fails (unknown : ∃ id ∈ s.deferred, Keyed.get? ((s.tree.own id).param "id") s.blocks = none) :
    ∃ site block s', finish name root s = (.error (.unknownBlock site block), s') := by
  obtain ⟨site, block, s', failed⟩ := linkDeferred_fails (s := { s with deferred := [] }) unknown
  refine ⟨site, block, s', ?_⟩
  rw [finish_apply]
  unfold finishing
  rw [bind_apply, failed]

theorem unknown_of_finish (failed : finish name root s = (.error (.unknownBlock site block), s')) :
    ∃ id ∈ s.deferred, (s.tree.own id).param "id" = block ∧ Keyed.get? block s.blocks = none := by
  rw [finish_apply] at failed
  unfold finishing at failed
  rw [bind_apply] at failed
  rcases linked : linkDeferred s.deferred { s with deferred := [] } with ⟨e | u, s₁⟩
  · rw [linked] at failed
    cases failed
    exact unknown_of_linkDeferred (s := { s with deferred := [] }) linked
  · rw [linked] at failed
    cases failed

/-! #### Whole compilations -/

section Whole

variable {w : W} {r : Reader W}

/-- Every reading that succeeds has its moments. -/
theorem exists_passes (standard : c.table = standardTable) (run : loaded c name text? (.initial w) = (.ok root, s')) :
    ∃ r, Passes c name text? (.initial w) r root s' ∧ r.state.blocks = s'.blocks := by
  obtain ⟨sheet, s₁, inner, s₂, h, begins, ran, finished, same, rfl⟩ := loaded_run standard run
  refine ⟨⟨s₂, [inner], h⟩, ⟨sheet, s₁, inner, s₂, h, begins, ran, .here _, finished, same, rfl⟩, ?_⟩
  cases text? <;> rfl

/-- A source that is read refers to a block that nothing registers. -/
def Dangles (c : Compiler W) (name : String) (text? : Option String) (w : W) (block : String) : Prop :=
  ∃ root s', loaded c name text? (.initial w) = (.ok root, s') ∧
    (∃ r, Passes c name text? (.initial w) r root s' ∧ r.Refers block) ∧
    ∀ r, Passes c name text? (.initial w) r root s' → Keyed.get? block r.state.blocks = none

/-- A reference to a block that is not registered waits in the end. -/
theorem Passes.waits (standard : c.table = standardTable) (passes : Passes c name text? (.initial w) r root s')
    (refers : r.Refers block) (unknown : Keyed.get? block s'.blocks = none) :
    ∃ id ∈ s'.deferred, (s'.tree.own id).param "id" = block := by
  obtain ⟨head, opens, tag, names⟩ := refers
  rcases passes.bound standard (.refers opens tag names) with ⟨b, known, -⟩ | ⟨mem, named⟩
  · cases unknown.symm.trans known
  · exact ⟨_, mem, named⟩

/-- What waits in the end is a reference that has been read. -/
theorem referred_of_waits (standard : c.table = standardTable)
    (run : loaded c name text? (.initial w) = (.ok root, s')) {id : NodeId} (waits : id ∈ s'.deferred) :
    ∃ r, Passes c name text? (.initial w) r root s' ∧ r.Refers ((s'.tree.own id).param "id") := by
  obtain ⟨sheet, s₁, inner, s₂, h, begins, ran, finished, same, rfl⟩ := loaded_run standard run
  have laid := begins_laid begins
  have shaped : Shaped ⟨s₁, [sheet], []⟩ := (shaped_initial w).enter (fun _ mem => by cases mem) laid
  have last : id ∈ s₂.deferred ∧ ∀ x : CompileState W,
      x = (if text?.isSome then { s₂ with frames := s₂.frames.tail } else left inner s₂) → x.tree = s₂.tree := by
    cases text? with
    | none => exact ⟨waits, fun x same => same ▸ rfl⟩
    | some text => exact ⟨waits, fun x same => same ▸ rfl⟩
  rw [last.2 _ rfl]
  rcases run_deferred standard shaped ran last.1 with old | ⟨r, head, before, after, opens, tag, names⟩
  · obtain ⟨-, name, w, sources, rfl⟩ := laid
    cases old
  · exact ⟨r, ⟨sheet, s₁, inner, s₂, h, begins, before, after, finished, same, rfl⟩, head, opens, tag, names.symm⟩

/-- Of a block that a compilation fails for nothing is known, and a source refers to it. -/
theorem dangles_of_error (standard : c.table = standardTable) (sources : c.library.Ordinary)
    (failed : compiled c name text? (.initial w) = (.error (.unknownBlock site block), s')) :
    Dangles c name text? w block := by
  rw [compiled_eq, bind_apply] at failed
  rcases read : loaded c name text? (.initial w) with ⟨e | root, s₁⟩
  · rw [read] at failed
    cases failed
    exact absurd rfl (loaded_ordinary standard sources name text? _ _ _ read site block)
  · rw [read] at failed
    obtain ⟨id, waits, named, unknown⟩ := unknown_of_finish failed
    obtain ⟨r, passes, refers⟩ := referred_of_waits standard read waits
    rw [named] at refers
    refine ⟨root, s₁, read, ⟨r, passes, refers⟩, fun r' passes' => ?_⟩
    cases known : Keyed.get? block r'.state.blocks with
    | none => rfl
    | some b =>
      obtain ⟨b', known', -⟩ := (passes'.joins standard).blocks block b known
      cases unknown.symm.trans known'

theorem error_of_dangles (standard : c.table = standardTable) (dangles : Dangles c name text? w block) :
    ∃ site block' s', compiled c name text? (.initial w) = (.error (.unknownBlock site block'), s') := by
  obtain ⟨root, s₁, read, ⟨r, passes, refers⟩, never⟩ := dangles
  obtain ⟨last, ends, same⟩ := exists_passes standard read
  have unknown : Keyed.get? block s₁.blocks = none := by
    rw [← same]
    exact never last ends
  obtain ⟨id, waits, named⟩ := passes.waits standard refers unknown
  rw [← named] at unknown
  obtain ⟨site, block', s', failed⟩ :
      ∃ site block' s', finish name root s₁ = (.error (.unknownBlock site block'), s') :=
    finish_fails ⟨id, waits, unknown⟩
  refine ⟨site, block', s', ?_⟩
  rw [compiled_eq, bind_apply, read]
  exact failed

/-- While the sources are read, the handle is made for a block or is registered for it. -/
def Uses (c : Compiler W) (name : String) (text? : Option String) (w : W) (root : NodeId) (s' : CompileState W)
    (block : String) (site : NodeId) : Prop :=
  ∃ r, Passes c name text? (.initial w) r root s' ∧ r.Site block site

/-- Whatever the sources are, in the end all handles that were made for a block lead to the node that its registered
one leads to, and wherever one of them is written the artifact has the same pieces. If the sources themselves do not
complain of unknown blocks, a compilation fails for one exactly if nothing is registered for a block that a source
refers to, and no other error comes first; the error names such a block. -/
theorem uses_of_a_block_converge (standard : c.table = standardTable) (name : String) (text? : Option String) (w : W) :
    (∀ t s', compiled c name text? (.initial w) = (.ok t, s') →
      ∃ r root s, Passes c name text? (.initial w) r root s ∧ finish name root s = (.ok t, s')) ∧
    (∀ r root s t s', Passes c name text? (.initial w) r root s → finish name root s = (.ok t, s') →
      (∀ block site, Uses c name text? w root s block site →
        ∃ b, Keyed.get? block s'.blocks = some b ∧ s'.tree.target site = s'.tree.target b.node) ∧
      ∀ strip artifact s'', Compile.artifact c t.root strip s' = (.ok artifact, s'') → ∀ block, ∃ ps,
        ∀ call, Emit.Call.Within c.table (Compile.load c) (.first t.root s') call →
          Uses c name text? w root s block call.handle → ∃ e s₁,
            call.run c.table (Compile.load c) = (.ok ((), e), s₁) ∧
            e.written = Artifact.Written.add ps call.before.written) ∧
    (c.library.Ordinary →
      (∀ site block s', compiled c name text? (.initial w) = (.error (.unknownBlock site block), s') →
        Dangles c name text? w block) ∧
      ∀ block, Dangles c name text? w block →
        ∃ site block' s', compiled c name text? (.initial w) = (.error (.unknownBlock site block'), s')) := by
  refine ⟨fun t s' run => ?_, fun r root s t s' passes finishes => ?_, fun sources => ⟨fun site block s' failed => ?_,
    fun block dangles => error_of_dangles standard dangles⟩⟩
  · rw [compiled_eq] at run
    obtain ⟨root, s, read, finishes⟩ := bind_ok run
    obtain ⟨r, passes, -⟩ := exists_passes standard read
    exact ⟨r, root, s, passes, finishes⟩
  · have joined : ∀ block site, Uses c name text? w root s block site → Joined block site s' :=
      fun block site ⟨r', passes', made⟩ => (passes'.joined standard finishes).2 block site made
    refine ⟨joined, fun strip artifact s'' run block => ?_⟩
    have sound := (passes.joined standard finishes).1
    cases known : Keyed.get? block s'.blocks with
    | none =>
      refine ⟨[], fun call _ uses => ?_⟩
      obtain ⟨b, known', -⟩ := joined block call.handle uses
      cases known.symm.trans known'
    | some b =>
      obtain ⟨ps, alike⟩ := calls_add_alike standard sound run (s'.tree.target b.node)
      refine ⟨ps, fun call inside uses => alike call inside ?_⟩
      obtain ⟨b', known', leads⟩ := joined block call.handle uses
      cases known.symm.trans known'
      exact leads
  · exact dangles_of_error standard sources failed

end Whole

/-! #### Moments of a given compilation -/

/-- The machine in front of the first piece. -/
def opening (c : Compiler W) (name : String) (s : CompileState W) : Reader W :=
  match ask? c name s with
  | some (.inr sheet, s₁) => ⟨s₁, [sheet], []⟩
  | _ => ⟨s, [], []⟩

/-- Everything has been read, and the template can be finished. -/
def isOver (name : String) (r : Reader W) : Bool :=
  match r.sheets with
  | [inner] => isFinished inner r.state && (finish name (rootOf inner r.state) (left inner r.state)).1.toBool
  | _ => false

theorem run_runFor_of_le (c : Compiler W) {k n : Nat} (le : k ≤ n) (r : Reader W) :
    Run c (runFor c k r) (runFor c n r) := by
  induction k generalizing n r with
  | zero => exact run_runFor c n r
  | succ k ih =>
    obtain ⟨n, rfl⟩ : ∃ m, n = m + 1 := ⟨n - 1, by omega⟩
    unfold runFor
    cases step? c r with
    | none => exact .here r
    | some next => exact ih (Nat.le_of_succ_le_succ le) next

/-- All the readers on the way to the end are moments of one compilation. -/
theorem exists_passes_of_isOver {w : W} {n : Nat} (ends : isOver name (runFor c n (opening c name (.initial w))) = true) :
    ∃ root s t s', finish name root s = (.ok t, s') ∧
      ∀ k ≤ n, Passes c name none (.initial w) (runFor c k (opening c name (.initial w))) root s := by
  have ran : ∀ k ≤ n, Run c (opening c name (.initial w)) (runFor c k (opening c name (.initial w))) ∧
      Run c (runFor c k (opening c name (.initial w))) (runFor c n (opening c name (.initial w))) :=
    fun k le => ⟨run_runFor c k _, run_runFor_of_le c le _⟩
  generalize last : runFor c n (opening c name (.initial w)) = r at ends ran
  obtain ⟨s₂, sheets, h⟩ := r
  unfold isOver at ends
  split at ends
  · rename_i inner alone
    dsimp only at alone ends
    subst alone
    obtain ⟨finished, finishes⟩ := Bool.and_eq_true_iff.mp ends
    rcases ended : finish name (rootOf inner s₂) (left inner s₂) with ⟨e | t, s'⟩
    · rw [ended] at finishes
      cases finishes
    · refine ⟨_, _, t, s', ended, fun k le => ?_⟩
      obtain ⟨before, after⟩ := ran k le
      generalize runFor c k (opening c name (.initial w)) = r at before after
      unfold opening at before last
      split at before
      · rename_i sheet s₁ asked
        exact ⟨sheet, s₁, inner, s₂, h, enters_of_ask? asked, before, after, finished_of_isFinished finished, rfl, rfl⟩
      · have stays : runFor c n ⟨.initial w, [], []⟩ = ⟨.initial w, [], []⟩ := by cases n <;> rfl
        rename_i nothing
        split at last
        · rename_i sheet s₁ asked
          exact (nothing sheet s₁ asked).elim
        · cases stays.symm.trans last
  · cases ends

/-- The next piece makes a handle for the block. -/
def makes (r : Reader W) (block : String) : Bool :=
  r.opens?.any (fun head => (head.name = "block" || head.name = "putblock") && head.block = block) ||
    r.closes?.any fun top => (r.state.tree.own top).tag = "blockdef" && (r.state.tree.own top).param "id" = block

theorem site_of_makes {r : Reader W} (made : makes r block = true) : r.Site block ⟨r.state.tree.size⟩ := by
  unfold makes at made
  simp only [Bool.or_eq_true, Bool.and_eq_true, Option.any_eq_true, decide_eq_true_eq] at made
  rcases made with ⟨head, next, tag | tag, names⟩ | ⟨top, next, tag, names⟩
  · exact .opens next tag names
  · exact .refers next tag names
  · exact .takes next tag names

/-- A block that is referred to before it is there, defined again by another source and added to. -/
def meeting : MemorySources :=
  .ofList [("page", "\x7bputblock id=a\x7d\x7bblock id=a\x7dx\x7b/block\x7d\x7binclude name=part\x7d"),
    ("part", "\x7bblockdef id=a\x7dB\x7b/blockdef\x7d\x7baddblock id=a position=before\x7d+\x7b/addblock\x7d" ++
      "\x7bputblock id=a\x7d"),
    ("lost", "\x7bputblock id=b\x7d")]

/-- Both references, the block and what took the content of the definition elsewhere lead to one node. A page that
refers to a block which no source has cannot be finished. -/
theorem references_meet_the_block :
    let c : Compiler MemorySources := ⟨Library.memory, standardTable⟩
    (∃ root s t s', finish "page" root s = (.ok t, s') ∧
      (∀ site ∈ [1, 2, 6, 9], Uses c "page" none meeting root s "a" ⟨site⟩) ∧
      ∃ node, ∀ site ∈ [1, 2, 6, 9], s'.tree.target ⟨site⟩ = node) ∧
    Dangles c "lost" none meeting "b" := by
  intro c
  constructor
  · have ends : isOver "page" (runFor c 30 (opening c "page" (.initial meeting))) = true := by decide +kernel
    obtain ⟨root, s, t, s', finishes, passes⟩ := exists_passes_of_isOver ends
    have moments : ∀ k ∈ [0, 1, 7, 11], k ≤ 30 ∧ makes (runFor c k (opening c "page" (.initial meeting))) "a" = true := by
      decide +kernel
    have handles : [0, 1, 7, 11].map (fun k => (runFor c k (opening c "page" (.initial meeting))).state.tree.size) =
        [1, 2, 6, 9] := by decide +kernel
    have uses : ∀ site ∈ [1, 2, 6, 9], Uses c "page" none meeting root s "a" ⟨site⟩ := by
      intro site mem
      rw [← handles] at mem
      obtain ⟨k, among, rfl⟩ := List.mem_map.mp mem
      obtain ⟨le, made⟩ := moments k among
      exact ⟨_, passes k le, site_of_makes made⟩
    obtain ⟨converges, -⟩ :=
      (uses_of_a_block_converge (c := c) rfl "page" none meeting).2.1 _ _ _ _ _ (passes 0 (by omega)) finishes
    obtain ⟨b, known, -⟩ := converges "a" ⟨1⟩ (uses 1 (by decide))
    refine ⟨root, s, t, s', finishes, uses, s'.tree.target b.node, fun site mem => ?_⟩
    obtain ⟨b', known', leads⟩ := converges "a" ⟨site⟩ (uses site mem)
    cases known.symm.trans known'
    exact leads
  · obtain ⟨fails, -⟩ := (uses_of_a_block_converge (c := c) rfl "lost" none meeting).2.2 Library.memory_ordinary
    have failed : (compiled c "lost" none (.initial meeting)).1.map (fun _ => ()) =
        .error (.unknownBlock ⟨"putblock", "lost", 1⟩ "b") := by decide +kernel
    rcases run : compiled c "lost" none (.initial meeting) with ⟨e | t, s'⟩
    · rw [run] at failed
      cases failed
      exact fails _ "b" s' run
    · rw [run] at failed
      cases failed

end Compile

end Stencil
