import Stencil.Proofs.Cache.Holding
import Stencil.Proofs.Cache.Kept

/-!
What a renderer may rely on. A faithful cache calls only such artifacts fresh as a compilation from the sources
as they are would give, hands out what it was given, and never touches the sources. The three caches are
faithful: the one in a folder as long as the folder is its own and the names fit into file names.
-/
namespace Stencil

/-- The cache hands out this program, and its invariant goes on to hold. -/
def Cache.Gives (cache : Cache World) (inv : World → Prop) (name : String) (p : Program) (w : World) : Prop :=
  ∃ w', cache.load name w = (.ok p, w') ∧ inv w' ∧ w'.sources = w.sources

/-- Fewer stamps are given out than the counter can hold. -/
def MemorySources.Counted (s : MemorySources) : Prop := s.revision < 0x10000000000000000

structure Cache.Faithful (q : Equipment) (names : String → Prop) (cache : Cache World) (inv : World → Prop) :
    Prop where
  edited : ∀ {w sources}, inv w → w.sources.Later sources → inv { w with sources := sources }
  asked : ∀ {w name}, inv w → w.sources.Sound → names name →
    ∃ b, cache.isFresh Library.ofWorld name w = (b, w) ∧
      (b = true → ∃ p, q.program w.sources name = .ok p ∧ cache.Gives inv name p w)
  refused : ∀ {w name artifact dependencies e}, inv w → CacheEntry.make name artifact dependencies = .error e →
    ∃ w', cache.store name artifact dependencies w = (.error e, w') ∧ inv w' ∧ w'.sources = w.sources
  stored : ∀ {w name c entry}, inv w → w.sources.Sound → w.sources.Counted → names name →
    q.compiled w.sources name = .ok c →
    CacheEntry.make name c.artifact c.template.dependencies = .ok entry →
    ∃ w', cache.store name c.artifact c.template.dependencies w = (.ok (), w') ∧ inv w' ∧
      w'.sources = w.sources ∧ cache.Gives inv name entry.program w'
  removed : ∀ {w name}, inv w → names name →
    ∃ w', cache.remove name w = ((), w') ∧ inv w' ∧ w'.sources = w.sources

/-- Fewer names are asked for. -/
theorem Cache.Faithful.weaken {q : Equipment} {names names' : String → Prop} {cache : Cache World}
    {inv : World → Prop} (faithful : cache.Faithful q names inv) (fewer : ∀ name, names' name → names name) :
    cache.Faithful q names' inv where
  edited := faithful.edited
  asked holds sound known := faithful.asked holds sound (fewer _ known)
  refused := faithful.refused
  stored holds sound counted known := faithful.stored holds sound counted (fewer _ known)
  removed holds known := faithful.removed holds (fewer _ known)

namespace Equipment

variable {q : Equipment} {names : String → Prop} {cache : Cache World} {lasting : Bool}
  {inv : (String → Option CacheEntry) → World → Prop} {n : Nat} {w : World}

/-- What a compilation records can be written down. -/
theorem compiled_fits {sources : MemorySources} (sound : sources.Sound) (counted : sources.Counted) {name : String}
    {c : Compiled} (run : q.compiled sources name = .ok c) : CacheInfo.Fits c.template.dependencies := by
  intro d mem stamp recorded
  obtain ⟨source, stamp', found, recorded'⟩ := compiled_stamps sound run d mem
  have same : stamp = stamp' := Option.some.inj (recorded.symm.trans recorded')
  have low := sound.stamps d.identity _ found
  unfold MemorySources.Counted at counted
  subst same
  dsimp only at low
  omega

/-- Compilations from earlier sources have made all that a cache holds for the names. -/
def KeptBy (q : Equipment) (names : String → Prop) (inv : (String → Option CacheEntry) → World → Prop)
    (w : World) : Prop :=
  ∃ held, inv held w ∧ ∀ name entry, names name → held name = some entry → q.Kept w.sources name entry

/-- The cache hands out what it holds. -/
theorem gives_of_holding (holding : cache.Holding names lasting inv) {held : String → Option CacheEntry}
    (holds : inv held w)
    (kept : ∀ name entry, names name → held name = some entry → q.Kept w.sources name entry) {name : String}
    {entry : CacheEntry} (known : names name) (found : held name = some entry) :
    cache.Gives (q.KeptBy names inv) name entry.program w := by
  obtain ⟨w', loaded, holds', same⟩ := holding.loaded holds known found
  refine ⟨w', loaded, ⟨held, holds', ?_⟩, same⟩
  rw [same]
  exact kept

/-- A cache that calls fresh what it holds can be relied on if handlers do not pass over what they have read. -/
theorem faithful_of_holding (holding : cache.Holding names lasting inv) (steady : lasting = true → q.Steady) :
    cache.Faithful q names (q.KeptBy names inv) := by
  constructor
  case edited =>
    rintro w sources ⟨held, holds, kept⟩ later
    exact ⟨held, holding.edited holds sources, fun name entry known found => (kept name entry known found).later later⟩
  case asked =>
    rintro w name ⟨held, holds, kept⟩ sound known
    refine ⟨_, holding.asked holds known, fun good => ?_⟩
    obtain ⟨lasts, current⟩ := (Bool.and_eq_true _ _).mp good
    obtain ⟨entry, found, current⟩ := (Option.any_eq_true _ _).mp current
    refine ⟨entry.program, ?_, gives_of_holding holding holds kept known found⟩
    exact (kept name entry known found).still_good (steady lasts) sound (MemorySources.current_iff.mp current)
  case refused =>
    rintro w name artifact dependencies e ⟨held, holds, kept⟩ bad
    obtain ⟨w', stored, holds', same⟩ := holding.refused holds bad
    refine ⟨w', stored, ⟨held, holds', ?_⟩, same⟩
    rw [same]
    exact kept
  case stored =>
    rintro w name c entry ⟨held, holds, kept⟩ sound counted known run made
    obtain ⟨w', stored, holds', same⟩ := holding.stored holds known (compiled_fits sound counted run) made
    have kept' : ∀ other entry', names other → Function.update held name (some entry) other = some entry' →
        q.Kept w'.sources other entry' := by
      intro other entry' known' found
      rw [same]
      by_cases here : other = name
      · subst here
        rw [Function.update_self] at found
        cases found
        exact kept_compiled sound run made
      · rw [Function.update_of_ne here] at found
        exact kept other entry' known' found
    exact ⟨w', stored, ⟨_, holds', kept'⟩, same,
      gives_of_holding holding holds' kept' known (Function.update_self ..)⟩
  case removed =>
    rintro w name ⟨held, holds, kept⟩ known
    obtain ⟨w', removed, holds', same⟩ := holding.removed holds known
    refine ⟨w', removed, ⟨_, holds', fun other entry known' found => ?_⟩, same⟩
    rw [same]
    by_cases here : other = name
    · subst here
      rw [Function.update_self] at found
      cases found
    · rw [Function.update_of_ne here] at found
      exact kept other entry known' found

/-! #### Caches in memory -/

/-- There is a shelf of this number, and compilations have made all that is on it. -/
structure KeptOn (q : Equipment) (n : Nat) (w : World) : Prop where
  there : n < w.shelves.length
  kept : ∀ name entry, Keyed.get? name (w.shelves.getD n []) = some entry → q.Kept w.sources name entry

theorem keptOn_eq (q : Equipment) (n : Nat) :
    q.KeptOn n = q.KeptBy (fun _ => True) (World.OnShelf (fun _ => True) n) := by
  funext w
  refine propext ⟨fun on => ?_, ?_⟩
  · refine ⟨fun name => Keyed.get? name (w.shelves.getD n []), ⟨on.there, fun _ _ => rfl⟩, ?_⟩
    exact fun name entry _ found => on.kept name entry found
  · rintro ⟨held, on, kept⟩
    exact ⟨on.there, fun name entry found => kept name entry trivial ((on.holds name trivial).symm.trans found)⟩

theorem faithful_transient (n : Nat) : (Cache.transient (World.shelfPart n)).Faithful q names (q.KeptOn n) := by
  rw [keptOn_eq]
  exact (faithful_of_holding (Cache.holding_transient n) fun lasts => by cases lasts).weaken fun _ _ => trivial

theorem faithful_memory (steady : q.Steady) (n : Nat) :
    (Cache.memory (World.shelfPart n)).Faithful q names (q.KeptOn n) := by
  rw [keptOn_eq]
  exact (faithful_of_holding (Cache.holding_memory n) fun _ => steady).weaken fun _ _ => trivial

/-! #### The cache in a folder -/

/-- Nothing is kept for a name, or what is on disk was made by a compilation, and a copy in memory is the same. -/
def InStep (q : Equipment) (c : FolderCache) (now : MemorySources) (s : FolderCacheState) (name : String) : Prop :=
  c.readInfo name s.disk = none ∧ Keyed.get? name s.copies = none ∨
  ∃ entry, q.Kept now name entry ∧
    c.Shows s.disk name (some entry.artifact) (some ⟨compilerVersion, entry.dependencies⟩) ∧
    ∀ copy, Keyed.get? name s.copies = some copy → copy = entry

structure KeptIn (q : Equipment) (names : String → Prop) (c : FolderCache) (n : Nat) (w : World) : Prop where
  there : n < w.shelves.length
  usable : c.Usable w.disk
  inStep : ∀ name, names name → q.InStep c w.sources ((World.folderCachePart n).get w) name

variable {c : FolderCache}

theorem keptIn_eq (q : Equipment) (names : String → Prop) (c : FolderCache) (n : Nat) :
    q.KeptIn names c n = q.KeptBy names (World.InFolder names c n) := by
  funext w
  refine propext ⟨fun kept => ?_, ?_⟩
  · have each : ∀ name, ∃ found, names name → c.Holds name ((World.folderCachePart n).get w) found ∧
        ∀ entry, found = some entry → q.Kept w.sources name entry := by
      intro name
      by_cases known : names name
      · rcases kept.inStep name known with none | ⟨entry, made, shows, copies⟩
        · exact ⟨.none, fun _ => ⟨none, fun _ h => (by cases h)⟩⟩
        · refine ⟨some entry, fun _ => ⟨⟨made.made, shows, copies⟩, fun e h => ?_⟩⟩
          cases h
          exact made
      · exact ⟨none, fun h => absurd h known⟩
    choose held holds using each
    exact ⟨held, ⟨kept.there, kept.usable, fun name known => (holds name known).1⟩,
      fun name entry known found => (holds name known).2 entry found⟩
  · rintro ⟨held, within, kept⟩
    refine ⟨within.there, within.usable, fun name known => ?_⟩
    have holds := within.holds name known
    cases found : held name with
    | none =>
      rw [found] at holds
      exact Or.inl holds
    | some entry =>
      rw [found] at holds
      exact Or.inr ⟨entry, kept name entry known found, holds.2⟩

theorem faithful_folder (steady : q.Steady) (fits : ∀ name, names name → c.Fits name) (n : Nat) :
    (Cache.folder c (World.folderCachePart n)).Faithful q names (q.KeptIn names c n) := by
  rw [keptIn_eq]
  exact faithful_of_holding (Cache.holding_folder fits n) fun _ => steady

end Equipment

end Stencil
