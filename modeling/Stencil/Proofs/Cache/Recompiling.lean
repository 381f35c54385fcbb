import Stencil.Proofs.Cache.Trails

/-!
When a template is compiled anew in the course of a history: when its cache has nothing for it, or when a source of
what the cache has was edited after it was compiled, and at no other time.
-/
namespace Stencil

namespace Session

def after (s : Session) (history : List Request) : Session := history.foldl (fun s r => (s.answer r).2) s

def marks (s : Session) : Request → List Mark
  | .edit e => [.edited e.name]
  | .render name params =>
    match params.toValue with
    | .ok _ => s.renderer.mark name s.bench
    | .error _ => []
  | .precompile => s.renderer.marks s.bench.world.sources.names s.bench
  | .remove _ => []

def trail : List Request → Session → List Mark
  | [], _ => []
  | r :: rest, s => s.marks r ++ trail rest (s.answer r).2

/-- A request has come to a template, with those that were seen to before and what the renderer then has: a rendering
comes to its own, and compiling ahead to one after the other. -/
inductive Turn (s : Session) : Request → List String → String → Workbench World → Prop where
  | render {name : String} {params : Datum} {v : Value} (value : params.toValue = .ok v) :
      Turn s (.render name params) [] name s.bench
  | precompile {before after : List String} {name : String} {t : Workbench World}
      (listed : s.bench.world.sources.names = before ++ name :: after)
      (run : before.forM s.renderer.ensure s.bench = (.ok (), t)) : Turn s .precompile before name t

end Session

/-! ### Histories -/

/-- A request that neither removes a template nor edits a source of what the cache has for it. -/
def Request.Spares (name : String) (dependencies : List Dependency) : Request → Prop
  | edit e => ∀ d ∈ dependencies, d.identity ≠ e.name
  | remove other => other ≠ name
  | _ => True

/-- A renderer with a new cache on a disk, before there are any sources. -/
def Equipment.session (q : Equipment) (place : CachePlace) (disk : Disk) : Session :=
  let (r, w) := q.openAt place (World.ofDisk disk)
  ⟨r, ⟨w, 0⟩⟩

theorem MemorySources.mem_names {sources : MemorySources} {name : String} :
    name ∈ sources.names ↔ name ∈ Keyed.keys sources.entries := List.mem_mergeSort

/-- A renderer at work has this cache, and the trail tells of it. -/
structure Session.Tracked (q : Equipment) (place : CachePlace) (names : String → Prop)
    (held : String → Option CacheEntry) (trail : List Mark) (s : Session) : Prop where
  renderer : s.renderer = q.renderer (place.cache 0)
  tracks : place.Tracks names held trail s.bench.world

namespace Session.Tracked

variable {q : Equipment} {place : CachePlace} {names : String → Prop} {held : String → Option CacheEntry}
  {trail : List Mark} {disk : Disk} {s : Session}

theorem start (q : Equipment) (serves : place.Serves disk names) :
    (q.session place disk).Tracked q place names (fun _ => none) [] where
  renderer := rfl
  tracks := by
    refine ⟨CachePlace.holds_new (World.ofDisk disk) serves, MemorySources.sound_empty, ?_, ?_⟩
    · intro name mem
      cases mem
    · intro name entry found
      cases found

theorem render (tracked : s.Tracked q place names held trail) (lasting : place.lasting = true)
    (serves : place.Serves disk names) (counted : s.bench.world.sources.Counted) {name : String} (known : names name)
    (params : Datum) :
    ∃ held', (s.answer (.render name params)).2.renderer = q.renderer (place.cache 0) ∧
      place.Worked names held trail s.bench.world held' (trail ++ s.marks (.render name params))
        (s.answer (.render name params)).2.bench.world := by
  obtain ⟨renderer, bench⟩ := s
  obtain ⟨rfl, tracks⟩ := tracked
  unfold Session.answer Session.marks
  dsimp only
  unfold Renderer.render
  cases params.toValue with
  | error e =>
    dsimp only
    rw [List.append_nil]
    exact ⟨held, rfl, tracks.worked_refl⟩
  | ok v =>
    obtain ⟨r, s', held', run, worked, good⟩ := tracks.worked_ensure q lasting serves counted known
    dsimp only
    cases r with
    | error e =>
      rw [Renderer.renderValue_of_error run]
      exact ⟨held', rfl, worked⟩
    | ok u =>
      obtain ⟨entry, found, -⟩ := good rfl
      obtain ⟨w, loaded, holds, same⟩ := (CachePlace.holding serves 0).loaded worked.tracks.holds known found
      rw [Renderer.renderValue_of_load run loaded]
      exact ⟨held', rfl, worked.tracks.leave holds same, same.trans worked.sources, worked.kept⟩

theorem precompile (tracked : s.Tracked q place names held trail) (lasting : place.lasting = true)
    (serves : place.Serves disk names) (counted : s.bench.world.sources.Counted) :
    ∃ held', (s.answer .precompile).2.renderer = q.renderer (place.cache 0) ∧
      place.Worked names held trail s.bench.world held' (trail ++ s.marks .precompile)
        (s.answer .precompile).2.bench.world ∧
      ∀ n, (s.answer .precompile).1 = .count (.ok n) → ∀ name ∈ s.bench.world.sources.names,
        ∃ entry : CacheEntry, entry.Unedited name held' (trail ++ s.marks .precompile) := by
  obtain ⟨renderer, bench⟩ := s
  obtain ⟨rfl, tracks⟩ := tracked
  obtain ⟨r, s', held', run, worked, good⟩ := tracks.worked_ensureAll q lasting serves counted
    bench.world.sources.names fun name mem => tracks.listed name (MemorySources.mem_names.mp mem)
  unfold Session.answer Session.marks
  dsimp only
  rw [q.precompile_apply, run]
  cases r with
  | error e => exact ⟨held', rfl, worked, nofun⟩
  | ok u => exact ⟨held', rfl, worked, fun _ _ => good rfl⟩

/-- A request is answered. What it spares stays as it is. -/
theorem answer (tracked : s.Tracked q place names held trail) (lasting : place.lasting = true)
    (serves : place.Serves disk names) (counted : s.bench.world.sources.Counted) (r : Request)
    (known : ∀ name ∈ r.names, names name) :
    ∃ held', (s.answer r).2.Tracked q place names held' (trail ++ s.marks r) ∧
      (s.answer r).2.bench.world.sources.revision ≤ s.bench.world.sources.revision + Equipment.stamps [r] ∧
      ∀ (name : String) (entry : CacheEntry), r.Spares name entry.dependencies → entry.Unedited name held trail →
        entry.Unedited name held' (trail ++ s.marks r) := by
  cases r with
  | edit e =>
    refine ⟨held, ⟨tracked.renderer, tracked.tracks.edit serves e (known _ (List.mem_singleton_self _))⟩,
      (MemorySources.edit_cases e _).2.1.2, ?_⟩
    rintro name entry spared ⟨found, unedited⟩
    refine ⟨found, fun d mem => ?_⟩
    show d.identity ∉ editedSince name (trail ++ [.edited e.name])
    rw [editedSince_edited, List.mem_append, List.mem_singleton, not_or]
    exact ⟨unedited d mem, spared d mem⟩
  | render name params =>
    obtain ⟨held', renderer, worked⟩ :=
      tracked.render lasting serves counted (known name (List.mem_singleton_self _)) params
    exact ⟨held', ⟨renderer, worked.tracks⟩, Nat.le_of_eq (congrArg MemorySources.revision worked.sources),
      fun other entry _ unedited => worked.kept other entry unedited⟩
  | precompile =>
    obtain ⟨held', renderer, worked, -⟩ := tracked.precompile lasting serves counted
    exact ⟨held', ⟨renderer, worked.tracks⟩, Nat.le_of_eq (congrArg MemorySources.revision worked.sources),
      fun other entry _ unedited => worked.kept other entry unedited⟩
  | remove name =>
    obtain ⟨renderer, bench⟩ := s
    obtain ⟨rfl, tracks⟩ := tracked
    obtain ⟨w, run, holds, same⟩ :=
      (CachePlace.holding serves 0).removed tracks.holds (known name (List.mem_singleton_self _))
    have answered : (Session.answer ⟨q.renderer (place.cache 0), bench⟩ (.remove name)).2 =
        ⟨q.renderer (place.cache 0), { bench with world := w }⟩ := by
      show (⟨q.renderer (place.cache 0), (Renderer.onWorld ((place.cache 0).remove name) bench).2⟩ : Session) = _
      unfold Renderer.onWorld
      rw [run]
    rw [answered]
    refine ⟨Function.update held name none, ⟨rfl, ?_⟩, Nat.le_of_eq (congrArg MemorySources.revision same), ?_⟩
    · show place.Tracks names _ (trail ++ []) w
      rw [List.append_nil]
      exact tracks.remove holds same
    · rintro other entry spared ⟨found, unedited⟩
      refine ⟨(Function.update_of_ne (Ne.symm spared) ..).trans found, ?_⟩
      show ∀ d ∈ entry.dependencies, d.identity ∉ editedSince other (trail ++ [])
      rw [List.append_nil]
      exact unedited

/-- Requests are answered. -/
theorem after (tracked : s.Tracked q place names held trail) (lasting : place.lasting = true)
    (serves : place.Serves disk names) (history : List Request)
    (counted : s.bench.world.sources.revision + Equipment.stamps history < 0x10000000000000000)
    (known : ∀ r ∈ history, ∀ name ∈ r.names, names name) :
    ∃ held', (s.after history).Tracked q place names held' (trail ++ s.trail history) ∧
      (s.after history).bench.world.sources.revision ≤
        s.bench.world.sources.revision + Equipment.stamps history ∧
      ∀ (name : String) (entry : CacheEntry), (∀ r ∈ history, r.Spares name entry.dependencies) →
        entry.Unedited name held trail → entry.Unedited name held' (trail ++ s.trail history) := by
  induction history generalizing s held trail with
  | nil =>
    refine ⟨held, ?_, Nat.le_add_right _ _, ?_⟩
    · rw [Session.trail, List.append_nil]
      exact tracked
    · intro name entry _ unedited
      rw [Session.trail, List.append_nil]
      exact unedited
  | cons r rest ih =>
    have split : Equipment.stamps ([r] ++ rest) = Equipment.stamps [r] + Equipment.stamps rest := List.countP_append
    rw [List.singleton_append] at split
    have few : s.bench.world.sources.Counted := by
      unfold MemorySources.Counted
      omega
    obtain ⟨held₁, tracked₁, grown₁, kept₁⟩ :=
      tracked.answer lasting serves few r (known r (List.mem_cons_self ..))
    obtain ⟨held₂, tracked₂, grown₂, kept₂⟩ := ih tracked₁ (by omega) fun other mem =>
      known other (List.mem_cons_of_mem _ mem)
    rw [List.append_assoc] at tracked₂ kept₂
    have bound : ((s.answer r).2.after rest).bench.world.sources.revision ≤
        s.bench.world.sources.revision + Equipment.stamps (r :: rest) := by omega
    refine ⟨held₂, tracked₂, bound, fun name entry spared unedited => ?_⟩
    refine kept₂ name entry (fun other mem => spared other (List.mem_cons_of_mem _ mem)) ?_
    exact kept₁ name entry (spared r (List.mem_cons_self ..)) unedited

/-- A template whose turn has come is compiled exactly if that is needed. -/
theorem turn (tracked : s.Tracked q place names held trail) (lasting : place.lasting = true)
    (serves : place.Serves disk names) (counted : s.bench.world.sources.Counted) {r : Request}
    (known : ∀ name ∈ r.names, names name) {before : List String} {name : String} {t : Workbench World}
    (turn : s.Turn r before name t) :
    (s.renderer.Compiles name t ↔ place.Needs (trail ++ s.renderer.marks before s.bench) name t.world) ∧
      (¬ place.Needs (trail ++ s.renderer.marks before s.bench) name t.world →
        s.renderer.ensure name t = (.ok (), t)) := by
  obtain ⟨renderer, bench⟩ := s
  obtain ⟨rfl, tracks⟩ := tracked
  cases turn with
  | render value =>
    rw [Renderer.marks, List.append_nil]
    exact tracks.compiles_iff q lasting serves counted (known name (List.mem_singleton_self _))
  | @precompile before after name t listed run =>
    have all : ∀ other ∈ before ++ name :: after, names other := by
      intro other mem
      rw [← listed] at mem
      exact tracks.listed other (MemorySources.mem_names.mp mem)
    obtain ⟨r, s', held', run', worked, -⟩ := tracks.worked_ensureAll q lasting serves counted before
      fun other mem => all other (List.mem_append_left _ mem)
    cases run'.symm.trans run
    refine worked.tracks.compiles_iff q lasting serves ?_ (all name (List.mem_append_right _ (List.mem_cons_self ..)))
    rw [worked.sources]
    exact counted

/-- An edit that is of no source of what the cache has for a template makes no difference to it. -/
theorem edit_of_another (tracked : s.Tracked q place names held trail) (lasting : place.lasting = true)
    (serves : place.Serves disk names) (counted : s.bench.world.sources.Counted) {e : Edit} (known : names e.name)
    (counted' : (e.make s.bench.world.sources).Counted) {name : String} (asked : names name)
    (apart : ∀ artifact dependencies, place.recorded name s.bench.world = some (artifact, dependencies) →
      ∀ d ∈ dependencies, d.identity ≠ e.name) :
    (s.answer (.edit e)).2.renderer.Compiles name (s.answer (.edit e)).2.bench ↔
      s.renderer.Compiles name s.bench := by
  obtain ⟨renderer, bench⟩ := s
  obtain ⟨rfl, tracks⟩ := tracked
  have later := tracks.edit serves e known
  refine (later.compiles_iff (s := ⟨_, bench.compilations⟩) q lasting serves counted' asked).1.trans ?_
  refine Iff.trans ?_ (tracks.compiles_iff q lasting serves counted asked).1.symm
  rw [later.needs_iff lasting asked, tracks.needs_iff lasting asked]
  refine not_congr (exists_congr fun entry => and_congr_right fun found => forall₂_congr fun d mem => ?_)
  rw [editedSince_edited, List.mem_append, List.mem_singleton, not_or]
  have recorded : place.recorded name bench.world = some (entry.artifact, entry.dependencies) := by
    rw [CachePlace.recorded_eq lasting tracks.holds asked, found]
    rfl
  exact and_iff_left (apart _ _ recorded d mem)

/-- What was compiled ahead is fresh until it is removed or a source of it is edited. -/
theorem precompiled (tracked : s.Tracked q place names held trail) (lasting : place.lasting = true)
    (serves : place.Serves disk names) {rest : List Request}
    (counted : s.bench.world.sources.revision + Equipment.stamps rest < 0x10000000000000000)
    (known : ∀ r ∈ rest, ∀ name ∈ r.names, names name) {n : Nat}
    (counts : (s.answer .precompile).1 = .count (.ok n)) {name : String}
    (listed : name ∈ s.bench.world.sources.names) :
    ∃ artifact dependencies,
      place.recorded name (s.answer .precompile).2.bench.world = some (artifact, dependencies) ∧
      ((∀ r ∈ rest, r.Spares name dependencies) →
        let t := (s.answer .precompile).2.after rest
        t.renderer.isFresh name t.bench = (.ok true, t.bench) ∧
          place.recorded name t.bench.world = some (artifact, dependencies)) := by
  have few : s.bench.world.sources.Counted := by
    unfold MemorySources.Counted
    omega
  have asked : names name := tracked.tracks.listed name (MemorySources.mem_names.mp listed)
  obtain ⟨held₁, renderer, worked, good⟩ := tracked.precompile lasting serves few
  obtain ⟨entry, unedited⟩ := good n counts name listed
  have tracked₁ : (s.answer .precompile).2.Tracked q place names held₁ (trail ++ s.marks .precompile) :=
    ⟨renderer, worked.tracks⟩
  refine ⟨entry.artifact, entry.dependencies, ?_, fun spared => ?_⟩
  · rw [CachePlace.recorded_eq lasting worked.tracks.holds asked, unedited.1]
    rfl
  · obtain ⟨held₂, tracked₂, -, kept⟩ := tracked₁.after lasting serves rest (by rw [worked.sources]; exact counted) known
    have unedited₂ := kept name entry spared unedited
    obtain ⟨b, fresh, good⟩ := tracked₂.tracks.isFresh (q := q) lasting serves asked
    cases good.mpr ⟨entry, unedited₂⟩
    rw [← tracked₂.renderer] at fresh
    refine ⟨fresh, ?_⟩
    rw [CachePlace.recorded_eq lasting tracked₂.tracks.holds asked, unedited₂.1]
    rfl

end Session.Tracked

namespace Equipment

/-- A page with a part is rendered, and before each further rendering something is edited. -/
def partedHistory : List Request :=
  [.edit (.add "page" "<\x7binclude name=part\x7d>"), .edit (.add "part" "one"), .render "page" (.struct []),
    .edit (.add "news" "none"), .render "page" (.struct []), .edit (.touch "part"), .render "page" (.struct []),
    .precompile]

theorem serves_partedHistory : (CachePlace.folder "cache").Serves (Disk.empty [])
    fun name => ∃ r ∈ partedHistory, name ∈ r.names := by
  refine ⟨fresh_cache, ?_⟩
  rintro name ⟨r, mem, named⟩
  have few : name ∈ ["page", "part", "page", "news", "page", "part", "page"] :=
    List.mem_flatMap.mpr ⟨r, mem, named⟩
  have fits : ∀ name ∈ ["page", "part", "page", "news", "page", "part", "page"], FolderCache.Fits ⟨"cache"⟩ name := by
    unfold FolderCache.Fits
    decide +kernel
  exact fits name few

end Equipment

end Stencil
