import Stencil.Proofs.Compile.Dependence
import Stencil.Proofs.Compile.Reading
import Stencil.Proofs.Library.Sharing

/-!
A compilation whose sources are edited while it runs. If it succeeds, and all sources that it has recorded have
their stamps in the end, then a compilation from the sources of the end goes the same way.

A stamp is taken before the text is read. So a text that was edited in between has a newer stamp than the recorded
one, and it cannot get that one back. As long as all goes well no identity is recorded twice: what has been recorded
is being read or has been read, and is not read again.
-/
namespace Stencil

/-- What holds of the states of a compilation that has not failed so far. -/
structure Tidy (s : CompileState SharedSources) : Prop where
  sound : s.world.now.Sound
  apart : (s.frames.map (·.identity)).Nodup
  openRecorded : ∀ identity ∈ s.frames.map (·.identity), identity ∈ Keyed.keys s.sources
  doneRecorded : ∀ identity root, Keyed.get? identity s.finished = some root → identity ∈ Keyed.keys s.sources
  known : ∀ identity ∈ Keyed.keys s.sources,
    identity ∈ s.frames.map (·.identity) ∨ ∃ root, Keyed.get? identity s.finished = some root

/-- Steps have led from one state to another. They have recorded nothing unless they may read. -/
structure Advances (mayRead : Prop) (s s' : CompileState SharedSources) : Prop where
  later : s.world.now.Later s'.world.now
  kept : ∀ d ∈ s.sources, d ∈ s'.sources
  reading : s'.frames.map (·.identity) = s.frames.map (·.identity)
  still : ¬ mayRead → s'.sources = s.sources

/-- The sources have become these in the end, and all that are recorded have the recorded stamps. -/
structure Confirmed (final : MemorySources) (s : CompileState SharedSources) : Prop where
  later : s.world.now.Later final
  stamps : ∀ d ∈ s.sources, ∃ stamp, d.2 = some stamp ∧ final.modified d.1 = some stamp

variable {s s' s'' : CompileState SharedSources} {final : MemorySources} {mayRead : Prop}

theorem Advances.trans (first : Advances mayRead s s') (second : Advances mayRead s' s'') : Advances mayRead s s'' :=
  ⟨first.later.trans second.later, fun d h => second.kept d (first.kept d h), second.reading.trans first.reading,
    fun mayNot => (second.still mayNot).trans (first.still mayNot)⟩

theorem Advances.weaken {less : Prop} (advances : Advances less s s') (more : less → mayRead) :
    Advances mayRead s s' :=
  ⟨advances.later, advances.kept, advances.reading, fun mayNot => advances.still fun may => mayNot (more may)⟩

theorem Advances.length_eq (advances : Advances mayRead s s') : s'.frames.length = s.frames.length := by
  have lengths := congrArg List.length advances.reading
  rwa [List.length_map, List.length_map] at lengths

theorem Confirmed.before (confirmed : Confirmed final s') (advances : Advances mayRead s s') : Confirmed final s :=
  ⟨advances.later.trans confirmed.later, fun d h => confirmed.stamps d (advances.kept d h)⟩

/-- A recorded source is there in the end. -/
theorem Confirmed.found (confirmed : Confirmed final s) {identity : String}
    (recorded : identity ∈ Keyed.keys s.sources) : (Keyed.get? identity final.entries).isSome = true := by
  obtain ⟨d, mem, rfl⟩ := List.mem_map.mp recorded
  obtain ⟨stamp, -, still⟩ := confirmed.stamps d mem
  obtain ⟨entry, found, -⟩ := Option.map_eq_some_iff.mp still
  rw [found]
  rfl

/-- The state is changed where it does not matter. -/
theorem Tidy.change (tidy : Tidy s) (sound : s'.world.now.Sound)
    (reading : s'.frames.map (·.identity) = s.frames.map (·.identity)) (done : s'.finished = s.finished)
    (recorded : s'.sources = s.sources) : Tidy s' := by
  constructor
  case sound => exact sound
  case apart =>
    rw [reading]
    exact tidy.apart
  case openRecorded =>
    rw [reading, recorded]
    exact tidy.openRecorded
  case doneRecorded =>
    rw [done, recorded]
    exact tidy.doneRecorded
  case known =>
    rw [reading, done, recorded]
    exact tidy.known

/-- One more template is being read, and it is recorded. -/
theorem Tidy.enter (tidy : Tidy s) {name : String} (closed : name ∉ s.frames.map (·.identity)) (stamp : Option Stamp)
    (n : Node) (root : NodeId) :
    Tidy { Compile.withNode s n with
      sources := Keyed.put name stamp s.sources
      frames := ⟨name, name, root⟩ :: s.frames } := by
  constructor
  case sound => exact tidy.sound
  case apart => exact List.nodup_cons.mpr ⟨closed, tidy.apart⟩
  case openRecorded =>
    intro identity h
    rcases List.mem_cons.mp h with rfl | h
    · exact Keyed.mem_keys_put.mpr (Or.inl rfl)
    · exact Keyed.mem_keys_put.mpr (Or.inr (tidy.openRecorded identity h))
  case doneRecorded => exact fun identity root h => Keyed.mem_keys_put.mpr (Or.inr (tidy.doneRecorded identity root h))
  case known =>
    intro identity h
    rcases Keyed.mem_keys_put.mp h with rfl | h
    · exact Or.inl (List.mem_cons_self ..)
    · exact (tidy.known identity h).imp_left (List.mem_cons_of_mem _)

/-- The innermost template has been read. -/
theorem Tidy.leave (tidy : Tidy s) {name : String} {outer : List String}
    (inner : s.frames.map (·.identity) = name :: outer) (root : NodeId) :
    Tidy { s with frames := s.frames.tail, finished := Keyed.put name root s.finished } := by
  have left : s.frames.tail.map (·.identity) = outer := by
    rw [List.map_tail, inner]
    rfl
  constructor
  case sound => exact tidy.sound
  case apart =>
    have apart := tidy.apart
    rw [inner] at apart
    rw [left]
    exact (List.nodup_cons.mp apart).2
  case openRecorded =>
    intro identity h
    rw [left] at h
    exact tidy.openRecorded identity (by rw [inner]; exact List.mem_cons_of_mem _ h)
  case doneRecorded =>
    intro identity root' h
    rcases Keyed.get?_put h with ⟨rfl, -⟩ | ⟨-, h⟩
    · exact tidy.openRecorded name (by rw [inner]; exact List.mem_cons_self ..)
    · exact tidy.doneRecorded identity root' h
  case known =>
    intro identity h
    rw [left]
    by_cases itself : name = identity
    · subst itself
      exact Or.inr ⟨_, Keyed.get?_put_self _ _ _⟩
    rcases tidy.known identity h with h | ⟨root', h⟩
    · rw [inner] at h
      exact Or.inl ((List.mem_cons.mp h).resolve_left fun h => itself h.symm)
    · exact Or.inr ⟨root', (Keyed.get?_put_of_ne itself _ _).trans h⟩

/-- The world goes on. -/
theorem Tidy.turn (tidy : Tidy s) : Tidy { s with world := s.world.turn } :=
  tidy.change (SharedSources.sound_turn tidy.sound) rfl rfl rfl

theorem Advances.turn (mayRead : Prop) (s : CompileState SharedSources) :
    Advances mayRead s { s with world := s.world.turn } :=
  ⟨SharedSources.later_turn s.world, fun _ h => h, rfl, fun _ => rfl⟩

section Following

variable {W : Type} {w : W} {n : Nat} {α β : Type}

/-- Where the first compilation succeeds among edits, the second, in a world that stays as it is, does the same if
the first one's sources are confirmed in the end. -/
def Follows (final : MemorySources) (w : W) (mayRead : Prop) (n : Nat) (a₁ : Compile SharedSources α)
    (a₂ : Compile W α) : Prop :=
  ∀ s x s', Tidy s → s.frames.length = n → a₁ s = (.ok x, s') →
    Tidy s' ∧ Advances mayRead s s' ∧ (Confirmed final s' → a₂ (s.placed w) = (.ok x, s'.placed w))

theorem Follows.bind {a₁ : Compile SharedSources α} {a₂ : Compile W α} {f₁ : α → Compile SharedSources β}
    {f₂ : α → Compile W β} (follows : Follows final w mayRead n a₁ a₂) (rest : ∀ x, Follows final w mayRead n (f₁ x) (f₂ x)) :
    Follows final w mayRead n (a₁ >>= f₁) (a₂ >>= f₂) := by
  intro s y s' tidy reading run
  obtain ⟨x, t, first, second⟩ := Compile.bind_ok run
  obtain ⟨tidy', advances, same⟩ := follows s x t tidy reading first
  obtain ⟨tidy'', advances', same'⟩ := rest x t y s' tidy' (advances.length_eq.trans reading) second
  refine ⟨tidy'', advances.trans advances', fun confirmed => ?_⟩
  rw [Compile.bind_apply, same (confirmed.before advances')]
  exact same' confirmed

/-- Steps that do without the world and change nothing that is said of it. -/
theorem follows_of_eq {a₁ : Compile SharedSources α} {a₂ : Compile W α}
    (act : CompileState SharedSources → CompileState SharedSources) (x : CompileState SharedSources → α)
    (first : ∀ s, a₁ s = (.ok (x s), act s)) (second : ∀ s, a₂ (s.placed w) = (.ok (x s), (act s).placed w))
    (world : ∀ s, (act s).world = s.world) (reading : ∀ s, (act s).frames.map (·.identity) = s.frames.map (·.identity))
    (done : ∀ s, (act s).finished = s.finished) (recorded : ∀ s, (act s).sources = s.sources) :
    Follows final w mayRead n a₁ a₂ := by
  intro s y s' tidy _ run
  rw [first] at run
  cases run
  refine ⟨tidy.change (by rw [world]; exact tidy.sound) (reading s) (done s) (recorded s), ?_, fun _ => second s⟩
  refine ⟨by rw [world]; exact .refl _, fun d h => ?_, reading s, fun _ => recorded s⟩
  rw [recorded]
  exact h

theorem Follows.weaken {more : Prop} {a₁ : Compile SharedSources α} {a₂ : Compile W α}
    (follows : Follows final w mayRead n a₁ a₂) (weaker : mayRead → more) : Follows final w more n a₁ a₂ := by
  intro s x s' tidy reading run
  obtain ⟨tidy', advances, same⟩ := follows s x s' tidy reading run
  exact ⟨tidy', advances.weaken weaker, same⟩

theorem follows_throw (e : TemplateError) : Follows final w mayRead n (throw e : Compile SharedSources α) (throw e) := by
  intro s x s' _ _ run
  cases run

/-- What the compilations do without their worlds, they do alike. -/
theorem follows_parallel (final : MemorySources) (w : W) (mayRead : Prop) (n : Nat) :
    Compile.Parallel fun _ a₁ a₂ => Follows final w mayRead n a₁ a₂ where
  pure a := follows_of_eq id (fun _ => a) (fun _ => rfl) (fun _ => rfl) (fun _ => rfl) (fun _ => rfl) (fun _ => rfl)
    fun _ => rfl
  throw _ := follows_throw _
  getTree := follows_of_eq id (·.tree) (fun _ => rfl) (fun _ => rfl) (fun _ => rfl) (fun _ => rfl) (fun _ => rfl)
    fun _ => rfl
  changeTree change := follows_of_eq (fun s => { s with tree := change s.tree }) (fun _ => ()) (fun _ => rfl)
    (fun _ => rfl) (fun _ => rfl) (fun _ => rfl) (fun _ => rfl) fun _ => rfl
  bind follows rest := follows.bind rest

variable {load₁ : Loader SharedSources} {load₂ : Loader W}

/-- A handler that gives up when a template cannot be read goes on with roots alone. -/
theorem carryOut_follows (loads : mayRead → ∀ name via, Follows final w True n (load₁ name via) (load₂ name via))
    {h : Handler α} (strict : h.Strict mayRead) :
    Follows final w mayRead n (Compile.carryOut load₁ h) (Compile.carryOut load₂ h) := by
  induction h with
  | done a => exact (follows_parallel final w mayRead n).pure a
  | fail e => exact follows_throw e
  | onTree change next ih =>
    refine ((follows_parallel final w mayRead n).changeTree change).bind fun _ => ?_
    exact (follows_parallel final w mayRead n).getTree.bind fun t => ih t (strict t)
  | depth next ih =>
    intro s x s' tidy reading run
    exact ih s.frames.length (strict _) s x s' tidy reading run
  | lookup block next ih =>
    intro s x s' tidy reading run
    exact ih (Keyed.get? block s.blocks) (strict _) s x s' tidy reading run
  | define block node next ih =>
    refine Follows.bind ?_ fun _ => ih strict
    exact follows_of_eq (fun s => { s with blocks := Keyed.put block ⟨node, s.frames.length⟩ s.blocks }) (fun _ => ())
      (fun _ => rfl) (fun _ => rfl) (fun _ => rfl) (fun _ => rfl) (fun _ => rfl) fun _ => rfl
  | defer node next ih =>
    refine Follows.bind ?_ fun _ => ih strict
    exact follows_of_eq (fun s => { s with deferred := s.deferred ++ [node] }) (fun _ => ())
      (fun _ => rfl) (fun _ => rfl) (fun _ => rfl) (fun _ => rfl) (fun _ => rfl) fun _ => rfl
  | load name via next ih =>
    intro s x s' tidy reading run
    unfold Compile.carryOut at run ⊢
    cases first : load₁ name via s with
    | mk r t =>
      rw [first] at run
      dsimp only at run
      cases r with
      | error e =>
        have failed := (strict.2.1 e).carryOut load₁ t
        rw [run] at failed
        cases failed
      | ok root =>
        obtain ⟨tidy', advances, same⟩ := loads strict.1 name via s root t tidy reading first
        obtain ⟨tidy'', advances', same'⟩ :=
          ih (.ok root) (strict.2.2 root) t x s' tidy' (advances.length_eq.trans reading) run
        refine ⟨tidy'', (advances.weaken fun _ => strict.1).trans advances', fun confirmed => ?_⟩
        rw [same (confirmed.before advances')]
        exact same' confirmed
  | replaceRoot node next ih =>
    refine Follows.bind ?_ fun _ => ih strict
    exact follows_of_eq (fun s => { s with frames := Compile.setRoot node s.frames }) (fun _ => ())
      (fun _ => rfl) (fun _ => rfl) (fun _ => rfl) (fun s => Sides.map_identity_setRoot node s.frames) (fun _ => rfl)
      fun _ => rfl

theorem dispatch_follows {table : Tag.Table} (steady : table.Steady) (id : NodeId) (phase : Tag.Phase)
    (loads : phase ≠ .onRender → ∀ name via, Follows final w True n (load₁ name via) (load₂ name via)) :
    Follows final w (phase ≠ .onRender) n (Compile.dispatch table load₁ id phase)
      (Compile.dispatch table load₂ id phase) :=
  (follows_parallel final w (phase ≠ .onRender) n).related_dispatch id phase fun _ _ _ bound found =>
    carryOut_follows loads (Sides.steady_handlerFor steady bound found id)

theorem build_follows {table : Tag.Table} (steady : table.Steady)
    (loads : ∀ name via, Follows final w True n (load₁ name via) (load₂ name via)) (file : String) (root : NodeId)
    (tokens : List Markup.Token) :
    Follows final w True n (Compile.build table load₁ file root tokens) (Compile.build table load₂ file root tokens) :=
  (follows_parallel final w True n).related_build
    (fun id phase _ => (dispatch_follows steady id phase fun _ => loads).weaken fun _ => trivial) file root tokens

/-! #### Loading -/

/-- A template that is read for the first time is recorded, and counts as read when it is finished. -/
theorem readSource_follows {table : Tag.Table} (steady : table.Steady)
    (loads : ∀ name via, Follows final w True (n + 1) (load₁ name via) (load₂ name via)) {name text : String}
    {stamp : Option Stamp} {root : NodeId} (tidy : Tidy s) (reading : s.frames.length = n)
    (closed : name ∉ s.frames.map (·.identity)) (new : Keyed.get? name s.finished = none)
    (run : Compile.readSource table load₁ name name stamp text s = (.ok root, s')) :
    let done : CompileState SharedSources := { s' with finished := Keyed.put name root s'.finished }
    Tidy done ∧ Advances True s done ∧ (name, stamp) ∈ s'.sources ∧
      (Confirmed final s' → Compile.readSource table load₂ name name stamp text (s.placed w) =
        (.ok root, s'.placed w)) := by
  have unrecorded : name ∉ Keyed.keys s.sources := by
    intro recorded
    rcases tidy.known name recorded with reading | ⟨root, done⟩
    · exact closed reading
    · cases new.symm.trans done
  have entered : Keyed.put name stamp s.sources = s.sources ++ [(name, stamp)] := Keyed.put_of_not_mem unrecorded
  cases scanned : Markup.scan name text with
  | error e =>
    simp only [Compile.readSource, scanned] at run
    cases run
  | ok tokens =>
    have tidyInside := tidy.enter closed stamp { Node.fresh name 1 with isRoot := true } ⟨s.tree.size⟩
    rw [Compile.readSource_of_scan scanned] at run
    obtain ⟨a, t, built, rfl, rfl⟩ := Compile.within_ok run
    obtain ⟨tidyInner, advances, same⟩ := build_follows steady loads name ⟨s.tree.size⟩ tokens _ a t tidyInside
      (congrArg Nat.succ reading) built
    have inner : t.frames.map (·.identity) = name :: s.frames.map (·.identity) := advances.reading
    have outer : t.frames.tail.map (·.identity) = s.frames.map (·.identity) := by
      rw [List.map_tail, inner]
      rfl
    refine ⟨tidyInner.leave inner _, ⟨advances.later, fun d h => advances.kept d ?_, outer, fun h => absurd trivial h⟩,
      advances.kept _ ?_, fun confirmed => ?_⟩
    · show d ∈ Keyed.put name stamp s.sources
      rw [entered]
      exact List.mem_append_left _ h
    · show (name, stamp) ∈ Keyed.put name stamp s.sources
      rw [entered]
      exact List.mem_append_right _ (List.mem_singleton.mpr rfl)
    · rw [Compile.readSource_of_scan scanned]
      exact Compile.within_of_ok (s := { Compile.withNode (s.placed w) { Node.fresh name 1 with isRoot := true } with
        sources := Keyed.put name stamp s.sources }) (same ⟨confirmed.later, confirmed.stamps⟩)

theorem onWorldExcept_ok {V : Type} {act : StateM V (Except TemplateError α)} {s s' : CompileState V} {x : α}
    (run : Compile.onWorldExcept act s = (.ok x, s')) : ∃ v, act s.world = (.ok x, v) ∧ s' = { s with world := v } := by
  obtain ⟨result, rfl⟩ := Prod.mk.inj run
  exact ⟨(act s.world).2, Prod.ext result rfl, rfl⟩

/-- What a library of sources that others edit is asked for one template, if all goes well. -/
theorem loadWithin_shared {table : Tag.Table} {depth : Nat} {name : String} {via : Option NodeId} {root : NodeId}
    (tidy : Tidy s) (run : Compile.loadWithin ⟨Library.shared, table⟩ (depth + 1) name via s = (.ok root, s')) :
    name ∉ s.frames.map (·.identity) ∧
    (Keyed.get? name s.finished = some root ∧ s' = { s with world := s.world.turn } ∨
      Keyed.get? name s.finished = none ∧ ∃ text stamp t,
        Keyed.get? name s.world.turn.turn.turn.now.entries = some (text, stamp) ∧
        Compile.readSource table (Compile.loadWithin ⟨Library.shared, table⟩ depth) name name
          (s.world.turn.turn.now.modified name) text { s with world := s.world.turn.turn.turn } = (.ok root, t) ∧
        s' = { t with finished := Keyed.put name root t.finished }) := by
  unfold Compile.loadWithin at run
  obtain ⟨identity, s₁, located, run⟩ := Compile.bind_ok run
  obtain ⟨v, answer, rfl⟩ := onWorldExcept_ok located
  obtain ⟨rfl, rfl⟩ := SharedSources.locate_ok answer
  obtain ⟨state, s₂, got, run⟩ := Compile.bind_ok run
  cases got
  dsimp only at run
  cases cyclic : s.frames.any (·.identity = identity) with
  | true =>
    rw [cyclic, if_pos rfl] at run
    cases run
  | false =>
    rw [cyclic, if_neg Bool.false_ne_true] at run
    have closed : identity ∉ s.frames.map (·.identity) := fun h =>
      Bool.false_ne_true (cyclic.symm.trans (reading_iff.mpr h))
    refine ⟨closed, ?_⟩
    cases done : Keyed.get? identity s.finished with
    | some found =>
      rw [done] at run
      cases run
      exact Or.inl ⟨rfl, rfl⟩
    | none =>
      rw [done] at run
      obtain ⟨stamp, s₂, stamped, asked⟩ := Compile.bind_ok run
      cases stamped
      obtain ⟨text, s₃, read, given⟩ := Compile.bind_ok asked
      obtain ⟨root', s₄, sourced, ended⟩ := Compile.bind_ok given
      cases ended
      obtain ⟨v, answer, rfl⟩ := onWorldExcept_ok read
      have sound := SharedSources.sound_turn (SharedSources.sound_turn tidy.sound)
      obtain ⟨rfl, stamp, found⟩ := SharedSources.read_ok sound answer
      exact Or.inr ⟨rfl, text, stamp, s₄, found, sourced, rfl⟩

/-- What is recorded when a template has been read is what is there in the end. -/
theorem Confirmed.same_text {name text : String} {stamp : Stamp} {asked read : MemorySources} (sound : asked.Sound)
    (meanwhile : asked.Later read) (later : read.Later final)
    (confirmed : ∃ stamp, asked.modified name = some stamp ∧ final.modified name = some stamp)
    (found : Keyed.get? name read.entries = some (text, stamp)) :
    ∃ stamp, asked.modified name = some stamp ∧ Keyed.get? name final.entries = some (text, stamp) := by
  obtain ⟨old, stamped, still⟩ := confirmed
  obtain ⟨⟨source, stamp'⟩, then', rfl⟩ := Option.map_eq_some_iff.mp stamped
  have there := (meanwhile.trans later).same_of_stamp sound then' still
  have given : stamp'.value ≤ read.revision := Nat.le_trans (sound.stamps name _ then') meanwhile.revision
  have same : source = text := later.same_of_old found there given
  subst same
  exact ⟨stamp', stamped, there⟩

section Loading

variable {table : Tag.Table} (steady : table.Steady) {c : Compiler W} (tags : c.table = table)
  (holds : c.library.Holds w final.entries)

include steady tags holds

theorem loadWithin_succ_follows {depth₁ depth₂ : Nat}
    (loads : ∀ name via, Follows final w True (n + 1) (Compile.loadWithin ⟨Library.shared, table⟩ depth₁ name via)
      (Compile.loadWithin c depth₂ name via)) (name : String) (via : Option NodeId) :
    Follows final w True n (Compile.loadWithin ⟨Library.shared, table⟩ (depth₁ + 1) name via)
      (Compile.loadWithin c (depth₂ + 1) name via) := by
  intro s root s' tidy reading run
  have second := Sides.loadWithin_apply holds depth₂ name via s
  rw [tags] at second
  obtain ⟨closed, ⟨done, rfl⟩ | ⟨new, text, stamp, t, found, sourced, rfl⟩⟩ := loadWithin_shared tidy run
  · refine ⟨tidy.turn, .turn True s, fun confirmed => ?_⟩
    have recorded := tidy.doneRecorded name root done
    obtain ⟨entry, there⟩ := Option.isSome_iff_exists.mp ((confirmed.before (.turn True s)).found recorded)
    rw [there] at second
    dsimp only at second
    rw [if_neg closed, done] at second
    exact second
  · have asked := Advances.turn True { s with world := s.world.turn }
    have read := Advances.turn True { s with world := s.world.turn.turn }
    obtain ⟨tidy', advances, entered, same⟩ :=
      readSource_follows steady loads tidy.turn.turn.turn reading closed new sourced
    refine ⟨tidy', ((Advances.turn True s).trans (asked.trans read)).trans advances, fun confirmed => ?_⟩
    obtain ⟨stamp', stamped, there⟩ := Confirmed.same_text tidy.turn.turn.sound read.later
      (advances.later.trans confirmed.later) (confirmed.stamps _ entered) found
    have again : Compile.readSource table (Compile.loadWithin c depth₂) name name (some stamp') text (s.placed w) =
        (.ok root, t.placed w) := by
      rw [← stamped]
      exact same ⟨confirmed.later, confirmed.stamps⟩
    rw [there] at second
    dsimp only at second
    rw [if_neg closed, new] at second
    dsimp only at second
    rw [again] at second
    exact second

/-- Templates that are being read all differ and are there in the end, so there are no more of them than sources. -/
theorem loadWithin_follows (depth₁ depth₂ : Nat) (room : final.entries.length < depth₂ + n) (name : String)
    (via : Option NodeId) :
    Follows final w True n (Compile.loadWithin ⟨Library.shared, table⟩ depth₁ name via)
      (Compile.loadWithin c depth₂ name via) := by
  induction depth₁ generalizing depth₂ n name via with
  | zero =>
    intro s root s' _ _ run
    cases run
  | succ depth₁ ih =>
    have step : ∀ depth, final.entries.length < depth + 1 + n →
        Follows final w True n (Compile.loadWithin ⟨Library.shared, table⟩ (depth₁ + 1) name via)
          (Compile.loadWithin c (depth + 1) name via) := fun depth room =>
      loadWithin_succ_follows steady tags holds (fun name via => ih depth (by omega) name via) name via
    cases depth₂ with
    | succ depth₂ => exact step depth₂ room
    | zero =>
      intro s root s' tidy reading run
      obtain ⟨tidy', advances, -⟩ := step final.entries.length (by omega) s root s' tidy reading run
      refine ⟨tidy', advances, fun confirmed => ?_⟩
      have few : s.frames.length ≤ final.entries.length := frames_le_of_found tidy.apart fun identity h =>
        (confirmed.before advances).found (tidy.openRecorded identity h)
      omega

theorem load_follows (name : String) (via : Option NodeId) :
    Follows final w True n (Compile.load ⟨Library.shared, table⟩ name via) (Compile.load c name via) := by
  intro s root s' tidy reading run
  have room := holds.reach
  exact loadWithin_follows steady tags holds (Library.shared.reach s.world + 2) (c.library.reach w + 2) (by omega)
    name via s root s' tidy reading run

/-! #### Whole templates -/

omit steady tags holds in
theorem linkDeferred_follows (ids : List NodeId) :
    Follows final w True n (Compile.linkDeferred ids) (Compile.linkDeferred ids) := by
  induction ids with
  | nil => exact (follows_parallel final w True n).pure ()
  | cons id ids ih =>
    intro s x s' tidy reading run
    have second := Compile.linkDeferred_cons id ids (s.placed w)
    rw [Compile.linkDeferred_cons] at run
    dsimp only [CompileState.placed] at second
    cases known : Keyed.get? ((s.tree.own id).param "id") s.blocks with
    | none =>
      rw [known] at run
      cases run
    | some b =>
      rw [known] at run second
      have moved : Tidy { s with tree := s.tree.redirect id b.node } := tidy.change tidy.sound rfl rfl rfl
      obtain ⟨tidy', advances, same⟩ := ih { s with tree := s.tree.redirect id b.node } x s' moved reading run
      exact ⟨tidy', ⟨advances.later, advances.kept, advances.reading, advances.still⟩,
        fun confirmed => second.trans (same confirmed)⟩

omit steady tags holds in
theorem finish_follows (name : String) (root : NodeId) :
    Follows final w True n (Compile.finish name root) (Compile.finish name root) := by
  intro s t s' tidy reading run
  obtain ⟨linked, rfl⟩ := Compile.finish_parts run
  have emptied : Tidy { s with deferred := [] } := tidy.change tidy.sound rfl rfl rfl
  obtain ⟨tidy', advances, same⟩ := linkDeferred_follows s.deferred _ () s' emptied reading linked
  refine ⟨tidy', ⟨advances.later, advances.kept, advances.reading, advances.still⟩, fun confirmed => ?_⟩
  rw [Compile.finish_apply]
  unfold Compile.finishing
  have linked' : Compile.linkDeferred (s.placed w).deferred { s.placed w with deferred := [] } =
      (.ok (), s'.placed w) := same confirmed
  rw [Compile.bind_apply, linked']
  rfl

theorem template_follows (name : String) :
    Follows final w True n (Compile.template ⟨Library.shared, table⟩ name) (Compile.template c name) :=
  (load_follows steady tags holds name none).bind fun root => finish_follows name root

omit holds in
/-- No template is read while the artifact is written, so nothing is recorded any more. -/
theorem artifact_follows (root : NodeId) (strip : Bool) :
    Follows final w False n (Compile.artifact ⟨Library.shared, table⟩ root strip) (Compile.artifact c root strip) := by
  refine (follows_parallel final w False n).related_artifact tags (fun id => ?_) root strip
  exact (dispatch_follows steady id .onRender fun mayRead => absurd rfl mayRead).weaken fun mayRead => mayRead rfl

/-- A compilation that succeeds among edits gives what one from the sources of the end gives, as long as all that it
lists have their stamps in the end. -/
theorem compileSteps_follow {r₁ : Renderer SharedSources} {r₂ : Renderer W}
    (first : r₁.compiler = ⟨Library.shared, table⟩) (second : r₂.compiler = c) (strip : r₁.strip = r₂.strip)
    {name : String} {before after : SharedSources} {compiled : Compiled} (sound : before.now.Sound)
    (run : Renderer.compileWith (r₁.compileSteps name) before = (.ok compiled, after)) :
    after.now.Sound ∧ (after.now.Later final →
      (∀ d ∈ compiled.template.dependencies, ∃ stamp,
        d.stamp = some stamp ∧ final.modified d.identity = some stamp) →
      Renderer.compileWith (r₂.compileSteps name) w = (.ok compiled, w)) := by
  have start : Tidy (CompileState.initial before) :=
    ⟨sound, List.nodup_nil, fun _ h => (by cases h), fun _ _ h => (by cases h), fun _ h => (by cases h)⟩
  obtain ⟨s, s', templated, written, rfl⟩ := Renderer.compileSteps_parts run
  have listed := Compile.template_dependencies templated
  rw [first] at templated written
  obtain ⟨tidy, advances, same⟩ :=
    template_follows steady tags holds name (.initial before) compiled.template s start rfl templated
  have closed : s.frames.length = 0 := advances.length_eq
  have writing : Follows final w False 0 _ (Compile.artifact c compiled.template.root r₁.strip) :=
    artifact_follows steady tags compiled.template.root r₁.strip
  obtain ⟨tidy', advances', same'⟩ := writing s compiled.artifact s' tidy closed written
  refine ⟨tidy'.sound, fun later fresh => ?_⟩
  have confirmed : Confirmed final s' := by
    refine ⟨later, fun d h => ?_⟩
    rw [advances'.still id] at h
    refine fresh ⟨d.1, d.2⟩ ?_
    rw [listed]
    exact List.mem_map.mpr ⟨d, h, rfl⟩
  have templated' : Compile.template r₂.compiler name (.initial w) = (.ok compiled.template, s.placed w) := by
    rw [second]
    exact same (confirmed.before advances')
  rw [Renderer.compileSteps_of_ok templated', second, ← strip, same' confirmed]
  rfl

end Loading

end Following

end Stencil
