import Stencil.Proofs.Cache.Faithful
import Stencil.Tag.Script

/-!
Caches are transparent. Whatever is edited, rendered, compiled ahead, removed or opened anew, and in whatever
order, a renderer answers as if it compiled every page from the sources as they are, wherever its cache is.
-/
namespace Stencil

/-- What is asked of a renderer, or done to its sources. -/
inductive Request where
  | edit (e : Edit)
  | render (name : String) (params : Datum)
  | precompile
  | remove (name : String)

inductive Answer where
  | done
  | page (r : Except TemplateError String)
  | count (r : Except TemplateError Nat)

/-- A renderer at work. -/
structure Session where
  renderer : Renderer World
  bench : Workbench World

/-- A request, or a new start of the renderer in the same world. -/
inductive Event where
  | request (r : Request)
  | reopen

namespace Session

def answer (s : Session) : Request → Answer × Session
  | .edit e =>
    let world := s.bench.world
    (.done, { s with bench := { s.bench with world := { world with sources := e.make world.sources } } })
  | .render name params =>
    let (r, bench) := s.renderer.render name params s.bench
    (.page r, { s with bench := bench })
  | .precompile =>
    let (r, bench) := s.renderer.precompile s.bench
    (.count r, { s with bench := bench })
  | .remove name =>
    let (_, bench) := s.renderer.remove name s.bench
    (.done, { s with bench := bench })

def reopen (q : Equipment) (place : CachePlace) (s : Session) : Session :=
  let (r, w) := q.openAt place s.bench.world
  ⟨r, { s.bench with world := w }⟩

/-- The answers to all requests, in order. -/
def answers (q : Equipment) (place : CachePlace) : List Event → Session → List Answer
  | [], _ => []
  | .request r :: events, s =>
    let (a, s) := s.answer r
    a :: answers q place events s
  | .reopen :: events, s => answers q place events (s.reopen q place)

end Session

def requests (events : List Event) : List Request :=
  events.filterMap fun
    | .request r => some r
    | .reopen => none

/-- The names that requests are about. -/
def Request.names : Request → List String
  | edit e => [e.name]
  | render name _ => [name]
  | precompile => []
  | remove name => [name]

namespace Equipment

/-- The answers of a renderer that starts with a new cache on a disk, before there are any sources. -/
def answers (q : Equipment) (place : CachePlace) (disk : Disk) (events : List Event) : List Answer :=
  let (r, w) := q.openAt place (World.ofDisk disk)
  Session.answers q place events ⟨r, ⟨w, 0⟩⟩

/-- The page of a template that is compiled from these sources. -/
def pageAfresh (q : Equipment) (sources : MemorySources) (name : String) (params : Datum) :
    Except TemplateError String :=
  params.toValue.bind fun v => (q.program sources name).bind fun p => p.execute v q.functions

/-- The number of the templates, or why one of them has no program. -/
def countAfresh (q : Equipment) (sources : MemorySources) : Except TemplateError Nat :=
  (sources.names.forM fun name => (q.program sources name).map fun _ => ()).map fun _ => sources.names.length

/-- The answers of someone who keeps nothing but the sources. -/
def answersAfresh (q : Equipment) : List Request → MemorySources → List Answer
  | [], _ => []
  | .edit e :: rest, sources => .done :: q.answersAfresh rest (e.make sources)
  | .render name params :: rest, sources => .page (q.pageAfresh sources name params) :: q.answersAfresh rest sources
  | .precompile :: rest, sources => .count (q.countAfresh sources) :: q.answersAfresh rest sources
  | .remove _ :: rest, sources => .done :: q.answersAfresh rest sources

end Equipment

/-- What a place needs for a cache: a folder must be the cache's own, and the names must fit into file names. -/
def CachePlace.Serves (place : CachePlace) (disk : Disk) (names : String → Prop) : Prop :=
  match place with
  | transient => True
  | memory => True
  | folder dir => FolderCache.Fresh ⟨dir⟩ disk ∧ ∀ name, names name → FolderCache.Fits ⟨dir⟩ name

/-- Templates are compiled ahead in the order of their names. -/
theorem Equipment.precompile_apply (q : Equipment) (cache : Cache World) (s : Workbench World) :
    (q.renderer cache).precompile s =
      match s.world.sources.names.forM (q.renderer cache).ensure s with
      | (.ok (), s') => (.ok s.world.sources.names.length, s')
      | (.error e, s') => (.error e, s') := by
  have listed : Renderer.onWorldExcept (q.renderer cache).library.names s = (.ok s.world.sources.names, s) := rfl
  rw [Renderer.precompile_apply listed]
  rcases s.world.sources.names.forM (q.renderer cache).ensure s with ⟨e | u, s'⟩ <;> rfl

namespace Cache.Faithful

variable {q : Equipment} {names : String → Prop} {cache : Cache World} {inv : World → Prop}

/-- A piece of work ends with this result, in a world with the same sources in which the invariant holds. -/
def Ends {α : Type} (inv : World → Prop) (act : Rendering World α) (s : Workbench World)
    (r : Except TemplateError α) (holds : World → Prop) : Prop :=
  ∃ s', act s = (r, s') ∧ inv s'.world ∧ s'.world.sources = s.world.sources ∧ holds s'.world

variable {s : Workbench World} {name : String}

theorem compileAndKeep (faithful : cache.Faithful q names inv) (holds : inv s.world)
    (sound : s.world.sources.Sound) (counted : s.world.sources.Counted) (known : names name) :
    Ends inv ((q.renderer cache).compileAndKeep name) s ((q.program s.world.sources name).map fun _ => ())
      fun w => ∀ p, q.program s.world.sources name = .ok p → cache.Gives inv name p w := by
  cases result : q.compiled s.world.sources name with
  | error e =>
    rw [Equipment.program_of_error result]
    have failed := Renderer.compileAndKeep_of_error (Equipment.compile_of_error sound result cache)
    exact ⟨s, failed, holds, rfl, fun p h => (by cases h)⟩
  | ok c =>
    rw [Equipment.program_of_ok result]
    have compiled := Equipment.compile_of_ok sound result cache
    cases parsed : Program.parse name c.artifact with
    | error e =>
      obtain ⟨reason, rfl⟩ := Program.parse_error parsed
      have bad := CacheEntry.make_of_error parsed c.template.dependencies
      obtain ⟨w, stored, holds', same⟩ := faithful.refused holds bad
      exact ⟨_, Renderer.compileAndKeep_of_ok compiled stored, holds', same, fun p h => (by cases h)⟩
    | ok p =>
      have made := CacheEntry.make_of_ok parsed c.template.dependencies
      obtain ⟨w, stored, holds', same, gives⟩ := faithful.stored holds sound counted known result made
      refine ⟨_, Renderer.compileAndKeep_of_ok compiled stored, holds', same, fun p' h => ?_⟩
      cases h
      exact gives

theorem ensure (faithful : cache.Faithful q names inv) (holds : inv s.world)
    (sound : s.world.sources.Sound) (counted : s.world.sources.Counted) (known : names name) :
    Ends inv ((q.renderer cache).ensure name) s ((q.program s.world.sources name).map fun _ => ())
      fun w => ∀ p, q.program s.world.sources name = .ok p → cache.Gives inv name p w := by
  obtain ⟨b, run, good⟩ := faithful.asked holds sound known
  have asked : (q.renderer cache).isFresh name s = (.ok b, s) := Renderer.isFresh_apply run
  cases b with
  | true =>
    obtain ⟨p, result, gives⟩ := good rfl
    rw [result]
    refine ⟨s, Renderer.ensure_fresh asked, holds, rfl, fun p' same => ?_⟩
    cases same
    exact gives
  | false =>
    rw [Ends, Renderer.ensure_stale asked]
    exact faithful.compileAndKeep holds sound counted known

theorem render (faithful : cache.Faithful q names inv) (holds : inv s.world)
    (sound : s.world.sources.Sound) (counted : s.world.sources.Counted) (known : names name) (params : Datum) :
    Ends inv ((q.renderer cache).render name params) s (q.pageAfresh s.world.sources name params)
      fun _ => True := by
  unfold Renderer.render Equipment.pageAfresh
  cases params.toValue with
  | error e => exact ⟨s, rfl, holds, rfl, trivial⟩
  | ok v =>
    obtain ⟨s', run, holds', same, gives⟩ := faithful.ensure holds sound counted known
    cases result : q.program s.world.sources name with
    | error e =>
      rw [result] at run
      exact ⟨s', Renderer.renderValue_of_error run v, holds', same, trivial⟩
    | ok p =>
      rw [result] at run
      obtain ⟨w, loaded, holds'', same'⟩ := gives p result
      exact ⟨_, Renderer.renderValue_of_load run loaded v, holds'', same'.trans same, trivial⟩

theorem ensureAll (faithful : cache.Faithful q names inv) (wanted : List String)
    (known : ∀ name ∈ wanted, names name) (holds : inv s.world) (sound : s.world.sources.Sound)
    (counted : s.world.sources.Counted) :
    Ends inv (wanted.forM (q.renderer cache).ensure) s
      (wanted.forM fun name => (q.program s.world.sources name).map fun _ => ()) fun _ => True := by
  induction wanted generalizing s with
  | nil => exact ⟨s, rfl, holds, rfl, trivial⟩
  | cons name rest ih =>
    obtain ⟨s', run, holds', same, -⟩ :=
      faithful.ensure holds sound counted (known name (List.mem_cons_self ..))
    unfold List.forM
    rw [Ends, Rendering.bind_apply, run]
    cases q.program s.world.sources name with
    | error e => exact ⟨s', rfl, holds', same, trivial⟩
    | ok p =>
      obtain ⟨s'', run', holds'', same', -⟩ := ih (fun n h => known n (List.mem_cons_of_mem _ h)) holds'
        (by rw [same]; exact sound) (by rw [same]; exact counted)
      rw [same] at run' same'
      exact ⟨s'', run', holds'', same', trivial⟩

theorem precompile (faithful : cache.Faithful q names inv) (holds : inv s.world)
    (sound : s.world.sources.Sound) (counted : s.world.sources.Counted)
    (known : ∀ name ∈ Keyed.keys s.world.sources.entries, names name) :
    Ends inv (q.renderer cache).precompile s (q.countAfresh s.world.sources) fun _ => True := by
  obtain ⟨s', run, holds', same, -⟩ := faithful.ensureAll s.world.sources.names
    (fun name h => known name (List.mem_mergeSort.mp h)) holds sound counted
  unfold Equipment.countAfresh
  rw [Ends, q.precompile_apply, run]
  cases s.world.sources.names.forM fun name => (q.program s.world.sources name).map fun _ => () with
  | error e => exact ⟨s', rfl, holds', same, trivial⟩
  | ok u => exact ⟨s', rfl, holds', same, trivial⟩

end Cache.Faithful

/-! #### Whole histories -/

namespace Equipment

variable {q : Equipment} {names : String → Prop} {disk : Disk} {place : CachePlace} {n : Nat} {w : World}

/-- Compilations have made all that is kept at a place with a shelf of its own. -/
def KeptAt (q : Equipment) (place : CachePlace) (names : String → Prop) (n : Nat) (w : World) : Prop :=
  match place with
  | .transient => q.KeptOn n w
  | .memory => q.KeptOn n w
  | .folder dir => q.KeptIn names ⟨dir⟩ n w

theorem faithful_at (steady : q.Steady) (serves : place.Serves disk names) (n : Nat) :
    (place.cache n).Faithful q names (q.KeptAt place names n) := by
  cases place with
  | transient => exact faithful_transient n
  | memory => exact faithful_memory steady n
  | folder dir => exact faithful_folder steady serves.2 n

/-- A new shelf has nothing on it. -/
theorem getD_addShelf (w : World) : w.addShelf.2.shelves.getD w.shelves.length [] = [] := by
  show (w.shelves ++ [[]]).getD w.shelves.length [] = []
  rw [List.getD_eq_getElem?_getD, List.getElem?_concat_length]
  rfl

theorem keptOn_addShelf (q : Equipment) (w : World) : q.KeptOn w.shelves.length w.addShelf.2 := by
  constructor
  · show w.shelves.length < (w.shelves ++ [[]]).length
    rw [List.length_append]
    exact Nat.lt_succ_self _
  · intro name entry found
    rw [getD_addShelf] at found
    cases found

/-- With a new shelf, the cache of a folder goes on with what is on disk. -/
theorem keptIn_addShelf {c : FolderCache} (usable : c.Usable w.disk)
    (shown : ∀ name, names name → ∃ s : FolderCacheState, s.disk = w.disk ∧ q.InStep c w.sources s name) :
    q.KeptIn names c w.shelves.length w.addShelf.2 := by
  have blank := keptOn_addShelf q w
  refine ⟨blank.there, usable, fun name known => ?_⟩
  have copies : Keyed.get? name (w.addShelf.2.shelves.getD w.shelves.length []) = none := by
    rw [getD_addShelf]
    rfl
  obtain ⟨s, disk, ⟨info, -⟩ | ⟨entry, made, shows, -⟩⟩ := shown name known
  · rw [disk] at info
    exact Or.inl ⟨info, copies⟩
  · rw [disk] at shows
    exact Or.inr ⟨entry, made, shows, fun copy found => (by cases copies.symm.trans found)⟩

theorem KeptAt.reopen (kept : q.KeptAt place names n w) :
    q.KeptAt place names w.shelves.length w.addShelf.2 := by
  cases place with
  | transient => exact keptOn_addShelf q w
  | memory => exact keptOn_addShelf q w
  | folder dir => exact keptIn_addShelf kept.usable fun name known => ⟨_, rfl, kept.inStep name known⟩

theorem keptAt_start (serves : place.Serves disk names) :
    q.KeptAt place names 0 (World.ofDisk disk).addShelf.2 := by
  cases place with
  | transient => exact keptOn_addShelf q (World.ofDisk disk)
  | memory => exact keptOn_addShelf q (World.ofDisk disk)
  | folder dir =>
    obtain ⟨fresh, fits⟩ := serves
    have inStep : ∀ name, names name → ∃ s : FolderCacheState, s.disk = disk ∧
        q.InStep ⟨dir⟩ MemorySources.empty s name :=
      fun name known => ⟨⟨disk, []⟩, rfl, Or.inl ⟨(fresh.shows (fits name known)).info, rfl⟩⟩
    exact keptIn_addShelf (w := World.ofDisk disk) (Or.inl fresh) inStep

/-- What holds of a renderer at work at every moment. -/
structure AtWork (q : Equipment) (place : CachePlace) (names : String → Prop) (s : Session) : Prop where
  kept : ∃ n, s.renderer = q.renderer (place.cache n) ∧ q.KeptAt place names n s.bench.world
  sound : s.bench.world.sources.Sound
  known : ∀ name ∈ Keyed.keys s.bench.world.sources.entries, names name

theorem AtWork.reopen {s : Session} (work : q.AtWork place names s) : q.AtWork place names (s.reopen q place) := by
  obtain ⟨n, -, kept⟩ := work.kept
  exact ⟨⟨_, rfl, kept.reopen⟩, work.sound, work.known⟩

/-- Stamps that requests take. -/
def stamps (requests : List Request) : Nat :=
  requests.countP fun
    | .edit _ => true
    | _ => false

/-- A request is answered afresh, and what holds of the renderer goes on to hold. -/
theorem AtWork.answer {s : Session} (work : q.AtWork place names s) (steady : q.Steady)
    (serves : place.Serves disk names) (counted : s.bench.world.sources.Counted) (r : Request)
    (known : ∀ name ∈ r.names, names name) (rest : List Request) :
    q.AtWork place names (s.answer r).2 ∧
      (s.answer r).2.bench.world.sources.revision + stamps rest ≤
        s.bench.world.sources.revision + stamps (r :: rest) ∧
      q.answersAfresh (r :: rest) s.bench.world.sources =
        (s.answer r).1 :: q.answersAfresh rest (s.answer r).2.bench.world.sources := by
  obtain ⟨⟨n, opened, kept⟩, sound, sources⟩ := work
  obtain ⟨renderer, bench⟩ := s
  subst opened
  have faithful : (place.cache n).Faithful q names (q.KeptAt place names n) := faithful_at steady serves n
  -- Only an edit changes the sources; all other requests leave what they find.
  have keeps : ∀ {r : Request} {t : Workbench World} {a : Answer},
      Session.answer ⟨q.renderer (place.cache n), bench⟩ r = (a, ⟨q.renderer (place.cache n), t⟩) →
      q.KeptAt place names n t.world → t.world.sources = bench.world.sources → stamps (r :: rest) = stamps rest →
      q.answersAfresh (r :: rest) bench.world.sources = a :: q.answersAfresh rest bench.world.sources →
      let s' := (Session.answer ⟨q.renderer (place.cache n), bench⟩ r).2
      q.AtWork place names s' ∧
        s'.bench.world.sources.revision + stamps rest ≤ bench.world.sources.revision + stamps (r :: rest) ∧
        q.answersAfresh (r :: rest) bench.world.sources =
          (Session.answer ⟨q.renderer (place.cache n), bench⟩ r).1 ::
            q.answersAfresh rest s'.bench.world.sources := by
    intro r t a step kept' unchanged free afresh
    rw [step, free]
    dsimp only
    rw [unchanged]
    refine ⟨⟨⟨n, rfl, kept'⟩, ?_, ?_⟩, Nat.le_refl _, afresh⟩
    · show t.world.sources.Sound
      rw [unchanged]
      exact sound
    · show ∀ name ∈ Keyed.keys t.world.sources.entries, names name
      rw [unchanged]
      exact sources
  cases r with
  | edit e =>
    refine ⟨⟨⟨n, rfl, faithful.edited kept (MemorySources.later_edit e _)⟩, sound.edit e, ?_⟩, ?_, rfl⟩
    · intro name h
      rcases MemorySources.known_edit e _ h with rfl | h
      · exact known _ (List.mem_singleton.mpr rfl)
      · exact sources name h
    · have step := (MemorySources.edit_cases e bench.world.sources).2.1.2
      have taken : stamps (.edit e :: rest) = stamps rest + 1 := List.countP_cons_of_pos rfl
      show (e.make bench.world.sources).revision + stamps rest ≤
        bench.world.sources.revision + stamps (.edit e :: rest)
      omega
  | render name params =>
    obtain ⟨t, run, kept', unchanged, -⟩ :=
      faithful.render kept sound counted (known name (List.mem_singleton.mpr rfl)) params
    refine keeps (t := t) (a := .page (q.pageAfresh bench.world.sources name params)) ?_ kept' unchanged rfl rfl
    unfold Session.answer
    dsimp only
    rw [run]
  | precompile =>
    obtain ⟨t, run, kept', unchanged, -⟩ := faithful.precompile kept sound counted sources
    refine keeps (t := t) (a := .count (q.countAfresh bench.world.sources)) ?_ kept' unchanged rfl rfl
    unfold Session.answer
    dsimp only
    rw [run]
  | remove name =>
    obtain ⟨w, run, kept', unchanged⟩ := faithful.removed kept (known name (List.mem_singleton.mpr rfl))
    refine keeps (t := { bench with world := w }) (a := .done) ?_ kept' unchanged rfl rfl
    show (let (_, bench') := Renderer.onWorld ((place.cache n).remove name) bench
      ((.done : Answer), (⟨q.renderer (place.cache n), bench'⟩ : Session))) = _
    unfold Renderer.onWorld
    rw [run]

/-- A renderer at work answers every history afresh. -/
theorem AtWork.answers {s : Session} (work : q.AtWork place names s) (steady : q.Steady)
    (serves : place.Serves disk names) (events : List Event)
    (known : ∀ r ∈ requests events, ∀ name ∈ r.names, names name)
    (counted : s.bench.world.sources.revision + stamps (requests events) < 0x10000000000000000) :
    s.answers q place events = q.answersAfresh (requests events) s.bench.world.sources := by
  induction events generalizing s with
  | nil => rfl
  | cons event events ih =>
    cases event with
    | reopen => exact ih work.reopen known counted
    | request r =>
      have few : s.bench.world.sources.Counted := by
        unfold MemorySources.Counted
        omega
      have now : ∀ name ∈ r.names, names name := known r (List.mem_cons_self ..)
      obtain ⟨work', grown, answer⟩ := work.answer steady serves few r now (requests events)
      have rest := ih work' (fun r' h => known r' (List.mem_cons_of_mem _ h)) (Nat.lt_of_le_of_lt grown counted)
      show (s.answer r).1 :: Session.answers q place events (s.answer r).2 = q.answersAfresh (r :: requests events) _
      rw [rest, answer]

def standard : Equipment := ⟨[Tag.standard], Functions.standard, true, true⟩

theorem steady_standard : standard.Steady := by
  intro set mem
  rw [List.mem_singleton.mp mem]
  exact Tag.standard_steady

/-- A page that is edited between two renderings. -/
def editing (between : List Event) : List Event :=
  [.request (.edit (.add "page" "one")), .request (.render "page" (.struct []))] ++ between ++
    [.request (.edit (.add "page" "two")), .request (.render "page" (.struct []))]

/-- A folder that is not there yet. -/
theorem fresh_cache : FolderCache.Fresh ⟨"cache"⟩ (Disk.empty []) := by
  refine ⟨?_, ((Disk.empty []).makeWalk [] ["cache"]).toOption.getD (Disk.empty []), ["cache"], rfl, rfl, rfl,
    fun part => rfl⟩
  intro l part there
  cases l <;> cases there

theorem serves_editing : (CachePlace.folder "cache").Serves (Disk.empty [])
    fun name => ∃ r ∈ requests (editing [.reopen]), name ∈ r.names := by
  constructor
  · exact fresh_cache
  · intro name named
    obtain ⟨r, mem, named⟩ := named
    have page : name = "page" := by
      rcases List.mem_cons.mp mem with rfl | mem
      · exact List.mem_singleton.mp named
      rcases List.mem_cons.mp mem with rfl | mem
      · exact List.mem_singleton.mp named
      rcases List.mem_cons.mp mem with rfl | mem
      · exact List.mem_singleton.mp named
      · rw [List.mem_singleton.mp mem] at named
        exact List.mem_singleton.mp named
    subst page
    unfold FolderCache.Fits
    decide +kernel

def pages (answers : List Answer) : List String :=
  answers.filterMap fun
    | .page (.ok s) => some s
    | _ => none

/-- A template that is edited between two renderings of a page with a tag that reads it. -/
def editingPart : List Event :=
  [.request (.edit (.add "page" "\x7bpart\x7d\x7b/part\x7d")), .request (.edit (.add "part" "one")),
    .request (.render "page" (.struct [])), .request (.edit (.add "part" "two")),
    .request (.render "page" (.struct []))]

def withPart (phase : Tag.Phase) : Equipment :=
  { standard with tagSets := [Tag.standard, ⟨"parts", [⟨"part", phase, Tag.script [.embed "part"]⟩]⟩] }

-- A template that is read while the artifact is written is not among the sources of the artifact.
example : pages ((withPart .onRender).answers .memory (Disk.empty []) editingPart) = ["one", "one"] ∧
    pages ((withPart .onRender).answers .transient (Disk.empty []) editingPart) = ["one", "two"] := by
  decide +kernel

example : pages ((withPart .onOpen).answers .memory (Disk.empty []) editingPart) = ["one", "two"] := by
  decide +kernel

end Equipment

end Stencil
