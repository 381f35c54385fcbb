import Stencil.Proofs.Compile.Following
import Stencil.Proofs.Library.Watching

/-!
Compilations under watch. They go as they would unwatched, every inquiry for a template shows in the log, and what
is recorded is what has been read. So the dependencies of a template are the sources that were read before it was
finished; what handlers have read while the artifact is written comes too late for them.
-/
namespace Stencil

/-- Has no template read, whatever it is told. -/
abbrev Handler.Silent {α : Type} (h : Handler α) : Prop := h.Strict False

/-- No template is read while an artifact is written. -/
def Tag.Table.Quiet (table : Tag.Table) : Prop :=
  ∀ (tag : String) (handlers : Tag.Handlers) (handler : Tag.NodeHandler) (id : NodeId),
    Keyed.get? tag table = some handlers → handlers.onRender = some handler → (handler id).Silent

theorem Handler.Strict.mono {α : Type} {h : Handler α} {mayRead more : Prop} (strict : h.Strict mayRead)
    (weaker : mayRead → more) : h.Strict more := by
  induction h with
  | done a => trivial
  | fail e => trivial
  | onTree change next ih => exact fun t => ih t (strict t)
  | depth next ih => exact fun n => ih n (strict n)
  | lookup block next ih => exact fun b => ih b (strict b)
  | define block node next ih => exact ih strict
  | defer node next ih => exact ih strict
  | load name via next ih => exact ⟨weaker strict.1, strict.2.1, fun root => ih _ (strict.2.2 root)⟩
  | replaceRoot node next ih => exact ih strict

theorem Handler.Fails.strict {α : Type} {h : Handler α} (fails : h.Fails) : h.Strict True := by
  induction h with
  | done a => cases fails
  | fail e => trivial
  | onTree change next ih => exact fun t => ih t (fails t)
  | depth next ih => exact fun n => ih n (fails n)
  | lookup block next ih => exact fun b => ih b (fails b)
  | define block node next ih => exact ih fails
  | defer node next ih => exact ih fails
  | load name via next ih => exact ⟨trivial, fun e => fails (.error e), fun root => ih _ (fails (.ok root))⟩
  | replaceRoot node next ih => exact ih fails

theorem Tag.Table.Steady.quiet {table : Tag.Table} (steady : table.Steady) : table.Quiet :=
  fun tag handlers handler id bound found => (steady tag handlers .onRender handler id bound found).mono (absurd rfl)

/-- The compiler whose library is watched. -/
def Compiler.watched {W : Type} (c : Compiler W) : Compiler (Watched W) := ⟨c.library.watched, c.table⟩

namespace CompileState

variable {W : Type}

/-- A state without its log. -/
def unwatched (s : CompileState (Watched W)) : CompileState W := s.placed s.world.world

/-- What has been recorded is being read or has been read. -/
def Settled (s : CompileState W) : Prop :=
  ∀ identity ∈ Keyed.keys s.sources, identity ∈ s.frames.map (·.identity) ∨ identity ∈ Keyed.keys s.finished

theorem Settled.change {s s' : CompileState W} (settled : s.Settled)
    (reading : s'.frames.map (·.identity) = s.frames.map (·.identity)) (done : s'.finished = s.finished)
    (recorded : s'.sources = s.sources) : s'.Settled := by
  unfold Settled
  rw [reading, done, recorded]
  exact settled

end CompileState

/-- Steps that have led from one state to another have made these inquiries, and have recorded what they have read.
They have made none unless they may. -/
structure Asks {W : Type} (mayRead : Prop) (inquiries : List Inquiry) (s s' : CompileState (Watched W)) : Prop where
  log : s'.world.log = s.world.log ++ inquiries.flatMap Inquiry.questions
  recorded : s'.sources = Keyed.putAll (Inquiry.sources inquiries) s.sources
  reading : s'.frames.map (·.identity) = s.frames.map (·.identity)
  still : ¬ mayRead → inquiries = []

/-- Nothing new is recorded twice: what has been read is added to what had been. -/
structure AddsTo {W : Type} (inquiries : List Inquiry) (s s' : CompileState (Watched W)) : Prop where
  settled : s'.Settled
  added : s'.sources = s.sources ++ Inquiry.sources inquiries

namespace Asks

variable {W : Type} {mayRead : Prop} {first second : List Inquiry} {s s' s'' : CompileState (Watched W)}

theorem trans (early : Asks mayRead first s s') (late : Asks mayRead second s' s'') :
    Asks mayRead (first ++ second) s s'' := by
  constructor
  case log => rw [late.log, early.log, List.flatMap_append, List.append_assoc]
  case recorded => rw [late.recorded, early.recorded, Inquiry.sources_append, Keyed.putAll_append]
  case reading => exact late.reading.trans early.reading
  case still =>
    intro mayNot
    rw [early.still mayNot, late.still mayNot, List.append_nil]

theorem weaken {more : Prop} (asks : Asks mayRead first s s') (weaker : mayRead → more) : Asks more first s s' :=
  ⟨asks.log, asks.recorded, asks.reading, fun mayNot => asks.still fun may => mayNot (weaker may)⟩

theorem nothing (log : s'.world.log = s.world.log) (recorded : s'.sources = s.sources)
    (reading : s'.frames.map (·.identity) = s.frames.map (·.identity)) : Asks mayRead [] s s' :=
  ⟨by rw [log]; exact (List.append_nil _).symm, recorded, reading, fun _ => rfl⟩

end Asks

theorem AddsTo.trans {W : Type} {first second : List Inquiry} {s s' s'' : CompileState (Watched W)}
    (early : AddsTo first s s') (late : AddsTo second s' s'') : AddsTo (first ++ second) s s'' := by
  refine ⟨late.settled, ?_⟩
  rw [late.added, early.added, Inquiry.sources_append, List.append_assoc]

namespace Compile

variable {W : Type} {mayRead careful : Prop} {α β : Type}

/-- The first compilation is the second one under watch. If handlers are careful, and all has gone well, it has read
no source twice. -/
def Watches (mayRead careful : Prop) (a₁ : Compile (Watched W) α) (a₂ : Compile W α) : Prop :=
  ∀ s r s', a₁ s = (r, s') → a₂ s.unwatched = (r, s'.unwatched) ∧
    ∃ inquiries, Asks mayRead inquiries s s' ∧ (careful → r.isOk = true → s.Settled → AddsTo inquiries s s')

theorem Watches.bind {a₁ : Compile (Watched W) α} {a₂ : Compile W α} {f₁ : α → Compile (Watched W) β}
    {f₂ : α → Compile W β} (watches : Watches mayRead careful a₁ a₂)
    (rest : ∀ x, Watches mayRead careful (f₁ x) (f₂ x)) : Watches mayRead careful (a₁ >>= f₁) (a₂ >>= f₂) := by
  intro s r s' run
  rw [bind_apply] at run
  rw [bind_apply]
  rcases first : a₁ s with ⟨e | x, t⟩
  · rw [first] at run
    cases run
    obtain ⟨same, inquiries, asks, -⟩ := watches s _ _ first
    rw [same]
    exact ⟨rfl, inquiries, asks, fun _ fine => by cases fine⟩
  · rw [first] at run
    obtain ⟨same, inquiries, asks, adds⟩ := watches s _ _ first
    obtain ⟨same', inquiries', asks', adds'⟩ := rest x t r s' run
    rw [same]
    refine ⟨same', inquiries ++ inquiries', asks.trans asks', fun steady fine settled => ?_⟩
    have early := adds steady rfl settled
    exact early.trans (adds' steady fine early.settled)

theorem watches_of_eq {a₁ : Compile (Watched W) α} {a₂ : Compile W α}
    (act : CompileState (Watched W) → CompileState (Watched W)) (x : CompileState (Watched W) → Except TemplateError α)
    (first : ∀ s, a₁ s = (x s, act s)) (second : ∀ s, a₂ s.unwatched = (x s, (act s).unwatched))
    (world : ∀ s, (act s).world = s.world) (reading : ∀ s, (act s).frames.map (·.identity) = s.frames.map (·.identity))
    (done : ∀ s, (act s).finished = s.finished) (recorded : ∀ s, (act s).sources = s.sources) :
    Watches mayRead careful a₁ a₂ := by
  intro s r s' run
  rw [first] at run
  cases run
  refine ⟨second s, [], .nothing (by rw [world]) (recorded s) (reading s), fun _ _ settled => ⟨?_, ?_⟩⟩
  · exact settled.change (reading s) (done s) (recorded s)
  · rw [recorded]
    exact (List.append_nil _).symm

theorem watches_throw (e : CompileState (Watched W) → TemplateError) (e' : CompileState W → TemplateError)
    (same : ∀ s, e' s.unwatched = e s) :
    Watches mayRead careful (fun s => (.error (e s), s) : Compile (Watched W) α) fun s => (.error (e' s), s) :=
  watches_of_eq id (fun s => .error (e s)) (fun _ => rfl) (fun s => by rw [same]; rfl) (fun _ => rfl) (fun _ => rfl)
    (fun _ => rfl) fun _ => rfl

/-- What compilations do without their worlds, they do alike under watch. -/
theorem watches_parallel (mayRead careful : Prop) :
    Parallel fun _ (a₁ : Compile (Watched W) _) (a₂ : Compile W _) => Watches mayRead careful a₁ a₂ where
  pure a := watches_of_eq id (fun _ => .ok a) (fun _ => rfl) (fun _ => rfl) (fun _ => rfl) (fun _ => rfl)
    (fun _ => rfl) fun _ => rfl
  throw _ := watches_throw _ _ fun _ => rfl
  getTree := watches_of_eq id (.ok ·.tree) (fun _ => rfl) (fun _ => rfl) (fun _ => rfl) (fun _ => rfl)
    (fun _ => rfl) fun _ => rfl
  changeTree change := watches_of_eq (fun s => { s with tree := change s.tree }) (fun _ => .ok ()) (fun _ => rfl)
    (fun _ => rfl) (fun _ => rfl) (fun _ => rfl) (fun _ => rfl) fun _ => rfl
  bind watches rest := watches.bind rest

variable {load₁ : Loader (Watched W)} {load₂ : Loader W}

theorem carryOut_watches (loads : mayRead → ∀ name via, Watches True careful (load₁ name via) (load₂ name via))
    {h : Handler α} (quiet : ¬ mayRead → h.Silent) (strict : careful → h.Strict True) :
    Watches mayRead careful (carryOut load₁ h) (carryOut load₂ h) := by
  induction h with
  | done a => exact (watches_parallel mayRead careful).pure a
  | fail e => exact watches_throw _ _ fun _ => rfl
  | onTree change next ih =>
    refine ((watches_parallel mayRead careful).changeTree change).bind fun _ => ?_
    refine (watches_parallel mayRead careful).getTree.bind fun t => ?_
    exact ih t (fun mayNot => quiet mayNot t) fun care => strict care t
  | depth next ih =>
    intro s r s' run
    exact ih s.frames.length (fun mayNot => quiet mayNot _) (fun care => strict care _) s r s' run
  | lookup block next ih =>
    intro s r s' run
    exact ih (Keyed.get? block s.blocks) (fun mayNot => quiet mayNot _) (fun care => strict care _) s r s' run
  | define block node next ih =>
    refine Watches.bind ?_ fun _ => ih quiet strict
    exact watches_of_eq (fun s => { s with blocks := Keyed.put block ⟨node, s.frames.length⟩ s.blocks })
      (fun _ => .ok ()) (fun _ => rfl) (fun _ => rfl) (fun _ => rfl) (fun _ => rfl) (fun _ => rfl) fun _ => rfl
  | defer node next ih =>
    refine Watches.bind ?_ fun _ => ih quiet strict
    exact watches_of_eq (fun s => { s with deferred := s.deferred ++ [node] })
      (fun _ => .ok ()) (fun _ => rfl) (fun _ => rfl) (fun _ => rfl) (fun _ => rfl) (fun _ => rfl) fun _ => rfl
  | load name via next ih =>
    have may : mayRead := Classical.byContradiction fun mayNot => (quiet mayNot).1
    intro s r s' run
    unfold carryOut at run ⊢
    cases first : load₁ name via s with
    | mk answer t =>
      rw [first] at run
      dsimp only at run
      obtain ⟨same, inquiries, asks, adds⟩ := loads may name via s answer t first
      cases answer with
      | error e =>
        -- A careful handler gives up here, so nothing is promised of what it records from now on.
        have failing : careful → (next (.error e)).Fails := fun care => (strict care).2.1 e
        obtain ⟨same', inquiries', asks', -⟩ :=
          ih (.error e) (absurd may) (fun care => (failing care).strict) t r s' run
        rw [same]
        refine ⟨same', inquiries ++ inquiries', (asks.weaken fun _ => may).trans asks', fun care fine => ?_⟩
        have failed := (failing care).carryOut load₁ t
        rw [run, fine] at failed
        cases failed
      | ok root =>
        obtain ⟨same', inquiries', asks', adds'⟩ :=
          ih (.ok root) (absurd may) (fun care => (strict care).2.2 root) t r s' run
        rw [same]
        refine ⟨same', inquiries ++ inquiries', (asks.weaken fun _ => may).trans asks', fun care fine settled => ?_⟩
        have early := adds care rfl settled
        exact early.trans (adds' care fine early.settled)
  | replaceRoot node next ih =>
    refine Watches.bind ?_ fun _ => ih quiet strict
    exact watches_of_eq (fun s => { s with frames := setRoot node s.frames })
      (fun _ => .ok ()) (fun _ => rfl) (fun _ => rfl) (fun _ => rfl)
      (fun s => Sides.map_identity_setRoot node s.frames) (fun _ => rfl) fun _ => rfl

theorem within_apply {frame : Frame} {act : Compile W Unit} {s t : CompileState W} {answer : Except TemplateError Unit}
    (acted : act { s with frames := frame :: s.frames } = (answer, t)) :
    within frame act s =
      (answer.map fun _ => (t.frames.head?.map (·.root)).getD frame.root, { t with frames := t.frames.tail }) := by
  unfold within
  rw [acted]

section Reading

variable {table : Tag.Table} (loads : ∀ name via, Watches True table.Steady (load₁ name via) (load₂ name via))

include loads

theorem dispatch_watches (id : NodeId) (phase : Tag.Phase) :
    Watches True table.Steady (dispatch table load₁ id phase) (dispatch table load₂ id phase) :=
  (watches_parallel True table.Steady).related_dispatch id phase fun _ _ _ bound found =>
    carryOut_watches (fun _ => loads) (absurd trivial) fun steady =>
      (Sides.steady_handlerFor steady bound found id).mono fun _ => trivial

theorem dispatch_onRender_watches (id : NodeId) :
    Watches (¬ table.Quiet) table.Steady (dispatch table load₁ id .onRender) (dispatch table load₂ id .onRender) :=
  (watches_parallel (¬ table.Quiet) table.Steady).related_dispatch id .onRender fun tag handlers handler bound found =>
    carryOut_watches (fun _ => loads) (fun quiet => Classical.not_not.mp quiet tag handlers handler id bound found)
      fun steady => (Sides.steady_handlerFor steady bound found id).mono fun _ => trivial

theorem build_watches (file : String) (root : NodeId) (tokens : List Markup.Token) :
    Watches True table.Steady (build table load₁ file root tokens) (build table load₂ file root tokens) :=
  (watches_parallel True table.Steady).related_build (fun id phase _ => dispatch_watches loads id phase) file root tokens

/-- The text of a source is read after the source has been recorded. If it was not recorded before, it stands behind
those that were. -/
theorem readSource_watches {name identity text : String} {stamp : Option Stamp} {s s' : CompileState (Watched W)}
    {r : Except TemplateError NodeId} (run : readSource table load₁ name identity stamp text s = (r, s')) :
    readSource table load₂ name identity stamp text s.unwatched = (r, s'.unwatched) ∧
    ∃ inquiries, s'.world.log = s.world.log ++ inquiries.flatMap Inquiry.questions ∧
      s'.sources = Keyed.putAll (Inquiry.sources inquiries) (Keyed.put identity stamp s.sources) ∧
      s'.frames.map (·.identity) = s.frames.map (·.identity) ∧
      (table.Steady → ∀ root, r = .ok root → s.Settled → identity ∉ s.frames.map (·.identity) →
        identity ∉ Keyed.keys s.finished →
        CompileState.Settled { s' with finished := Keyed.put identity root s'.finished } ∧
          s'.sources = s.sources ++ (identity, stamp) :: Inquiry.sources inquiries) := by
  cases scanned : Markup.scan name text with
  | error e =>
    simp only [readSource, scanned] at run ⊢
    cases run
    exact ⟨rfl, [], (List.append_nil _).symm, rfl, rfl, fun _ root fine => by cases fine⟩
  | ok tokens =>
    let frame : Frame := ⟨name, identity, ⟨s.tree.size⟩⟩
    let laid : CompileState (Watched W) :=
      { withNode s { Node.fresh name 1 with isRoot := true } with sources := Keyed.put identity stamp s.sources }
    let inside : CompileState (Watched W) := { laid with frames := frame :: s.frames }
    rw [readSource_of_scan scanned] at run ⊢
    rcases built : build table load₁ name ⟨s.tree.size⟩ tokens inside with ⟨answer, t⟩
    obtain ⟨same, inquiries, asks, adds⟩ := build_watches loads name ⟨s.tree.size⟩ tokens inside answer t built
    have inner : t.frames.map (·.identity) = identity :: s.frames.map (·.identity) := asks.reading
    have outer : t.frames.tail.map (·.identity) = s.frames.map (·.identity) := by
      rw [List.map_tail, inner]
      rfl
    obtain ⟨rfl, rfl⟩ := Prod.mk.inj ((within_apply built).symm.trans run)
    refine ⟨?_, inquiries, asks.log, asks.recorded, outer, fun steady root fine settled closed new => ?_⟩
    · exact within_apply (s := laid.unwatched) same
    · -- Whatever is recorded is on the stack or finished, and this source is neither.
      have unrecorded : identity ∉ Keyed.keys s.sources := fun recorded =>
        (settled identity recorded).elim closed new
      have entered : inside.sources = s.sources ++ [(identity, stamp)] := Keyed.put_of_not_mem unrecorded
      have settledInside : inside.Settled := by
        intro other h
        rcases Keyed.mem_keys_put.mp h with rfl | h
        · exact .inl List.mem_cons_self
        · exact (settled other h).imp_left (List.mem_cons_of_mem _)
      have read : answer.isOk = true := by
        cases answer with
        | ok a => rfl
        | error e => cases fine
      have added := adds steady read settledInside
      refine ⟨fun other h => ?_, ?_⟩
      · show other ∈ t.frames.tail.map (·.identity) ∨ _
        rw [outer]
        rcases added.settled other h with reading | done
        · rw [inner] at reading
          rcases List.mem_cons.mp reading with rfl | reading
          · exact .inr (Keyed.mem_keys_put.mpr (.inl rfl))
          · exact .inl reading
        · exact .inr (Keyed.mem_keys_put.mpr (.inr done))
      · show t.sources = _
        rw [added.added, entered, List.append_assoc]
        rfl

/-- A text is asked for and read. What is read in its course comes behind it. -/
theorem inquire_watches {name identity text : String} {stamp : Option Stamp} {w : W} {s s' : CompileState (Watched W)}
    {log : List Query} (asked : log = s.world.log ++ (Inquiry.reading name identity stamp text).questions)
    {r : Except TemplateError NodeId}
    (run : readSource table load₁ name identity stamp text { s with world := ⟨w, log⟩ } = (r, s')) :
    readSource table load₂ name identity stamp text (s.placed w) = (r, s'.unwatched) ∧
    ∃ inquiries, Asks True inquiries s s' ∧
      (table.Steady → ∀ root, r = .ok root → s.Settled → identity ∉ s.frames.map (·.identity) →
        identity ∉ Keyed.keys s.finished →
        AddsTo inquiries s { s' with finished := Keyed.put identity root s'.finished }) := by
  obtain ⟨same, inquiries, further, recorded, reading, adds⟩ := readSource_watches loads run
  refine ⟨same, .reading name identity stamp text :: inquiries, ⟨?_, recorded, reading, absurd trivial⟩, ?_⟩
  · rw [further, asked, List.flatMap_cons, List.append_assoc]
  · intro steady root fine settled closed new
    obtain ⟨settled', added⟩ := adds steady root fine settled closed new
    exact ⟨settled', added⟩

end Reading

theorem asks_of_unread (inquiry : Inquiry) (unread : inquiry.source? = none) {s : CompileState (Watched W)} (w : W)
    {log : List Query} (asked : log = s.world.log ++ inquiry.questions) (careful : Prop) {α : Type}
    (answer : Except TemplateError α) :
    ∃ inquiries, Asks True inquiries s { s with world := ⟨w, log⟩ } ∧
      (careful → answer.isOk = true → s.Settled → AddsTo inquiries s { s with world := ⟨w, log⟩ }) := by
  have nothing : Inquiry.sources [inquiry] = [] := by
    unfold Inquiry.sources
    rw [List.filterMap_cons_none unread, List.filterMap_nil]
  refine ⟨[inquiry], ⟨?_, ?_, rfl, absurd trivial⟩, fun _ _ settled => ⟨settled.change rfl rfl rfl, ?_⟩⟩
  · rw [List.flatMap_singleton]
    exact asked
  · rw [nothing]
    rfl
  · rw [nothing]
    exact (List.append_nil _).symm

/-- A template is asked for, and what its text asks for comes behind it. -/
theorem loadWithin_watches (c : Compiler W) (depth : Nat) (name : String) (via : Option NodeId) :
    Watches True c.table.Steady (loadWithin c.watched depth name via) (loadWithin c depth name via) := by
  induction depth generalizing name via with
  | zero => exact watches_throw (cycleError name via) (cycleError name via) fun _ => rfl
  | succ depth ih =>
    intro s r s' run
    rw [loadWithin_succ] at run
    rw [loadWithin_succ]
    rcases located : c.library.locate name s.world.world with ⟨e | identity, w⟩
    · rw [show c.watched.library.locate name s.world = _ from Library.note_apply located] at run
      rw [show c.library.locate name s.unwatched.world = _ from located]
      cases run
      exact ⟨rfl, asks_of_unread (.unknown name e) rfl w rfl _ _⟩
    · rw [show c.watched.library.locate name s.world = _ from Library.note_apply located] at run
      rw [show c.library.locate name s.unwatched.world = _ from located]
      dsimp only at run ⊢
      rw [show s.unwatched.frames = s.frames from rfl, show s.unwatched.finished = s.finished from rfl]
      cases cyclic : s.frames.any (·.identity = identity) with
      | true =>
        rw [cyclic, if_pos rfl] at run
        rw [if_pos rfl]
        cases run
        exact ⟨rfl, asks_of_unread (.known name identity) rfl w rfl _ _⟩
      | false =>
        rw [cyclic, if_neg Bool.false_ne_true] at run
        rw [if_neg Bool.false_ne_true]
        cases done : Keyed.get? identity s.finished with
        | some root =>
          rw [done] at run
          cases run
          exact ⟨rfl, asks_of_unread (.known name identity) rfl w rfl _ _⟩
        | none =>
          rw [done] at run
          dsimp only at run ⊢
          rcases stamped : c.library.modified identity w with ⟨stamp, w₁⟩
          rw [show c.watched.library.modified identity _ = _ from Library.note_apply stamped] at run
          dsimp only at run ⊢
          rcases given : c.library.read name w₁ with ⟨e | text, w₂⟩
          · rw [show c.watched.library.read name _ = _ from Library.note_apply given] at run
            cases run
            refine ⟨rfl, asks_of_unread (.missing name identity stamp e) rfl w₂ ?_ _ _⟩
            rw [List.append_assoc, List.append_assoc]
            rfl
          · rw [show c.watched.library.read name _ = _ from Library.note_apply given] at run
            dsimp only at run ⊢
            rcases sourced : readSource c.watched.table (loadWithin c.watched depth) name identity stamp text
              { s with world := ⟨w₂, s.world.log ++ [.located name (.ok identity)] ++ [.stamped identity stamp] ++
                [.given name (.ok text)]⟩ } with ⟨answer, t⟩
            rw [sourced] at run
            obtain ⟨same, inquiries, asks, adds⟩ := inquire_watches ih (by simp [Inquiry.questions]) sourced
            dsimp only [CompileState.unwatched, CompileState.placed] at same ⊢
            rw [same]
            have closed : identity ∉ s.frames.map (·.identity) := fun h =>
              Bool.false_ne_true (cyclic.symm.trans (reading_iff.mpr h))
            have new : identity ∉ Keyed.keys s.finished := by
              intro h
              obtain ⟨root, found⟩ := Keyed.exists_get?_of_mem_keys h
              cases done.symm.trans found
            cases answer with
            | error e =>
              cases run
              exact ⟨rfl, inquiries, asks, fun _ fine => by cases fine⟩
            | ok root =>
              cases run
              exact ⟨rfl, inquiries, ⟨asks.log, asks.recorded, asks.reading, asks.still⟩, fun steady _ settled =>
                adds steady root rfl settled closed new⟩

theorem load_watches (c : Compiler W) (name : String) (via : Option NodeId) :
    Watches True c.table.Steady (load c.watched name via) (load c name via) :=
  fun s => loadWithin_watches c (c.library.reach s.world.world + 2) name via s

/-! #### Whole templates -/

theorem linkDeferred_watches (ids : List NodeId) :
    Watches mayRead careful (linkDeferred ids : Compile (Watched W) Unit) (linkDeferred ids) := by
  induction ids with
  | nil => exact (watches_parallel mayRead careful).pure ()
  | cons id ids ih =>
    intro s r s' run
    rw [linkDeferred_cons] at run
    rw [linkDeferred_cons]
    dsimp only [CompileState.unwatched, CompileState.placed]
    cases known : Keyed.get? ((s.tree.own id).param "id") s.blocks with
    | none =>
      rw [known] at run
      cases run
      exact ⟨rfl, [], .nothing rfl rfl rfl, fun _ fine => by cases fine⟩
    | some b =>
      rw [known] at run
      obtain ⟨same, inquiries, asks, adds⟩ := ih { s with tree := s.tree.redirect id b.node } r s' run
      exact ⟨same, inquiries, ⟨asks.log, asks.recorded, asks.reading, asks.still⟩, fun care fine settled =>
        ⟨(adds care fine settled).settled, (adds care fine settled).added⟩⟩

theorem finish_watches (name : String) (root : NodeId) :
    Watches mayRead careful (finish name root : Compile (Watched W) Template) (finish name root) := by
  have listing : Watches mayRead careful
      (get >>= fun s => pure ⟨name, root, s.sources.map fun d => ⟨d.1, d.2⟩⟩ : Compile (Watched W) Template)
      (get >>= fun s => pure ⟨name, root, s.sources.map fun d => ⟨d.1, d.2⟩⟩) :=
    watches_of_eq id (fun s => .ok ⟨name, root, s.sources.map fun d => ⟨d.1, d.2⟩⟩) (fun _ => rfl) (fun _ => rfl)
      (fun _ => rfl) (fun _ => rfl) (fun _ => rfl) fun _ => rfl
  intro s r s' run
  rw [finish_apply] at run
  obtain ⟨same, inquiries, asks, adds⟩ :=
    (linkDeferred_watches s.deferred).bind (fun _ => listing) { s with deferred := [] } r s' run
  exact ⟨same, inquiries, ⟨asks.log, asks.recorded, asks.reading, asks.still⟩, fun care fine settled =>
    ⟨(adds care fine settled).settled, (adds care fine settled).added⟩⟩

theorem template_watches (c : Compiler W) (name : String) :
    Watches True c.table.Steady (template c.watched name) (template c name) :=
  (load_watches c name none).bind fun root => finish_watches name root

theorem artifact_watches (c : Compiler W) (root : NodeId) (strip : Bool) :
    Watches (¬ c.table.Quiet) c.table.Steady (artifact c.watched root strip) (artifact c root strip) :=
  Parallel.related_artifact (watches_parallel (¬ c.table.Quiet) c.table.Steady) rfl
    (dispatch_onRender_watches (load_watches c)) root strip

end Compile

/-! #### Dependencies -/

namespace Renderer

variable {W : Type} {r : Renderer W} {name : String} {w w' : W} {compiled : Compiled}

/-- The renderer compiles a template under watch: first it is read with these inquiries, then its artifact is written
with the others. -/
def CompilesAsking (r : Renderer W) (name : String) (w : W) (compiled : Compiled) (w' : W)
    (reading writing : List Inquiry) : Prop :=
  ∃ s s', Compile.template r.compiler.watched name (.initial ⟨w, []⟩) = (.ok compiled.template, s) ∧
    s.world.log = reading.flatMap Inquiry.questions ∧
    Compile.artifact r.compiler.watched compiled.template.root r.strip s = (.ok compiled.artifact, s') ∧
    s'.world = ⟨w', (reading ++ writing).flatMap Inquiry.questions⟩

/-- Two tags that show a template: a frame reads it when it is met, a poster when the artifact is written. -/
def frames : Tag.TagSet :=
  ⟨"frames", [⟨"frame", .onOpenClose, Tag.script [.embed "%of%"]⟩, ⟨"poster", .onRender, Tag.script [.embed "%of%"]⟩]⟩

def gallery : Renderer MemorySources :=
  (make Library.memory (Cache.transient ⟨fun _ => [], fun _ w => w⟩)).addTags frames

def paintings : MemorySources :=
  .ofList [("room", "\x7bframe of=sea\x7d, \x7bframe of=sea\x7d\x7bposter of=hill\x7d\x7b/poster\x7d"),
    ("hill", "green"), ("sea", "blue")]

end Renderer

end Stencil
