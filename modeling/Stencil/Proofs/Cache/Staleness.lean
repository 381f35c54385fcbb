import Stencil.Proofs.Cache.Persisting
import Stencil.Proofs.Compile.Following

/-!
Artifacts that were compiled while their sources were edited. Edits may come between any two questions that a
compilation asks its library, and after it. Whatever a cache then calls fresh is what a compilation from the sources
as they are gives.
-/
namespace Stencil

namespace Equipment

/-- A renderer of sources that others edit. It compiles, and its cache keeps nothing. -/
def sharing (q : Equipment) : Renderer SharedSources :=
  ⟨Library.shared, Cache.transient ⟨fun _ => [], fun _ s => s⟩, q.tagSets, q.functions, q.strip, q.singleFlight⟩

/-- What a compilation gives while others edit the sources, and the sources that it leaves. -/
def compiledAmong (q : Equipment) (s : SharedSources) (name : String) :
    Except TemplateError Compiled × SharedSources :=
  Renderer.compileWith (q.sharing.compileSteps name) s

end Equipment

/-- A cache that calls an artifact fresh has found the stamps that were stored with it, and hands it out. -/
def Cache.Vouches (cache : Cache World) (name artifact : String) (dependencies : List Dependency) (w : World) : Prop :=
  (∀ d ∈ dependencies, ∃ stamp, d.stamp = some stamp ∧ w.sources.modified d.identity = some stamp) ∧
    (cache.artifact name w).1 = some artifact

variable {name artifact : String} {dependencies : List Dependency} {n : Nat} {w w₁ w₂ : World}

theorem World.getD_set_cases (shelves : List Shelf) (n : Nat) (shelf : Shelf) :
    (shelves.set n shelf).getD n [] = shelf ∨ (shelves.set n shelf).getD n [] = [] := by
  rw [List.getD_eq_getElem?_getD]
  by_cases there : n < shelves.length
  · rw [List.getElem?_set_self there]
    exact Or.inl rfl
  · rw [List.getElem?_eq_none (by rw [List.length_set]; omega)]
    exact Or.inr rfl

theorem Library.allFresh_true (fresh : Library.ofWorld.allFresh dependencies w = (true, w₂)) :
    w₂ = w ∧ ∀ d ∈ dependencies, ∃ stamp,
      d.stamp = some stamp ∧ w₂.sources.modified d.identity = some stamp := by
  obtain ⟨current, same⟩ := Prod.mk.inj ((Library.allFresh_ofWorld dependencies w).symm.trans fresh)
  cases same
  exact ⟨rfl, MemorySources.current_iff.mp current⟩

section Vouching

variable {entry : CacheEntry} (held : ∀ copy, Keyed.get? name (w.shelves.getD n []) = some copy → copy = entry)

include held

theorem vouches_memory (fresh : (Cache.memory (World.shelfPart n)).isFresh Library.ofWorld name w = (true, w₂)) :
    w₂ = w ∧ (Cache.memory (World.shelfPart n)).Vouches name entry.artifact entry.dependencies w := by
  cases found : Keyed.get? name (w.shelves.getD n []) with
  | none =>
    rw [Cache.memory_isFresh_none found] at fresh
    cases fresh
  | some copy =>
    cases held copy found
    rw [Cache.memory_isFresh found] at fresh
    obtain ⟨rfl, stamps⟩ := Library.allFresh_true fresh
    refine ⟨rfl, stamps, ?_⟩
    show (Keyed.get? name (w₂.shelves.getD n [])).map (·.artifact) = some entry.artifact
    rw [found]
    rfl

theorem vouches_folder {c : FolderCache} (onDisk : c.readArtifact name w.disk = some entry.artifact)
    (informed : ∀ info, c.readInfo name w.disk = some info → info = ⟨compilerVersion, entry.dependencies⟩)
    (fresh : (Cache.folder c (World.folderCachePart n)).isFresh Library.ofWorld name w = (true, w₂)) :
    w₂ = w ∧ (Cache.folder c (World.folderCachePart n)).Vouches name entry.artifact entry.dependencies w := by
  cases info : c.readInfo name w.disk with
  | none =>
    rw [Cache.folder_isFresh_none (by exact info)] at fresh
    cases fresh
  | some found =>
    cases informed found info
    have usable : c.isUsable name ⟨compilerVersion, entry.dependencies⟩ w.disk = true :=
      decide_eq_true ⟨rfl, FolderCache.isFile_of_readArtifact onDisk⟩
    rw [Cache.folder_isFresh (by exact info) (by exact usable)] at fresh
    obtain ⟨rfl, stamps⟩ := Library.allFresh_true fresh
    have ready : c.Ready name entry ((World.folderCachePart n).get w₂) := by
      refine ⟨fun copy there => ?_, Or.inl onDisk⟩
      cases held copy there
      exact ⟨rfl, rfl⟩
    exact ⟨rfl, stamps, ready.shown.1⟩

end Vouching

theorem Part.eq_of_within {W S α : Type} {part : Part W S} {act : StateM S α} {w w' : W} {a : α}
    (run : part.within act w = (a, w')) : ∃ s, act (part.get w) = (a, s) ∧ w' = part.set s w := by
  obtain ⟨result, rfl⟩ := Prod.mk.inj run
  exact ⟨(act (part.get w)).2, Prod.ext result rfl, rfl⟩

theorem Shelf.store_ok {s s' : Shelf} (stored : Shelf.store name artifact dependencies s = (.ok (), s')) :
    ∃ entry, CacheEntry.make name artifact dependencies = .ok entry ∧ s' = Keyed.put name entry s := by
  unfold Shelf.store at stored
  cases made : CacheEntry.make name artifact dependencies with
  | error e =>
    rw [made] at stored
    cases stored
  | ok entry =>
    rw [made] at stored
    cases stored
    exact ⟨entry, rfl, rfl⟩

theorem FolderCache.store_ok {c : FolderCache} {s s' : FolderCacheState}
    (stored : c.store name artifact dependencies s = (.ok (), s')) :
    c.Stored name artifact dependencies s (.ok ()) s' := by
  cases made : CacheEntry.make name artifact dependencies with
  | error e =>
    unfold store at stored
    rw [made] at stored
    cases stored
  | ok entry =>
    have how := store_stored made c s
    rw [stored] at how
    exact how

/-- What a cache calls fresh after it was stored has its stamps, and is handed out. -/
theorem vouches_stored (place : CachePlace) (stored : (place.cache n).store name artifact dependencies w = (.ok (), w₁))
    {sources : MemorySources}
    (fresh : (place.cache n).isFresh Library.ofWorld name { w₁ with sources := sources } = (true, w₂)) :
    w₂ = { w₁ with sources := sources } ∧ (place.cache n).Vouches name artifact dependencies w₂ := by
  have put : ∀ {entry : CacheEntry} {shelf : Shelf}, ∀ copy,
      Keyed.get? name ((w.shelves.set n (Keyed.put name entry shelf)).getD n []) = some copy → copy = entry := by
    intro entry shelf copy found
    rcases World.getD_set_cases w.shelves n (Keyed.put name entry shelf) with same | same
    · rw [same, Keyed.get?_put_self] at found
      exact (Option.some.inj found).symm
    · rw [same] at found
      cases found
  cases place with
  | transient => cases fresh
  | memory =>
    have within : (World.shelfPart n).within (Shelf.store name artifact dependencies) w = (.ok (), w₁) := stored
    obtain ⟨shelf, kept, rfl⟩ := Part.eq_of_within within
    obtain ⟨entry, made, rfl⟩ := Shelf.store_ok kept
    obtain ⟨rfl, rfl, -⟩ := CacheEntry.make_ok made
    let now : World := { (World.shelfPart n).set (Keyed.put name entry ((World.shelfPart n).get w)) w with
      sources := sources }
    have asked : (Cache.memory (World.shelfPart n)).isFresh Library.ofWorld name now = (true, w₂) := fresh
    have held : ∀ copy, Keyed.get? name (now.shelves.getD n []) = some copy → copy = entry := put
    obtain ⟨rfl, vouches⟩ := vouches_memory held asked
    exact ⟨rfl, vouches⟩
  | folder dir =>
    have within : (World.folderCachePart n).within (FolderCache.store ⟨dir⟩ name artifact dependencies) w =
        (.ok (), w₁) := stored
    obtain ⟨after, kept, rfl⟩ := Part.eq_of_within within
    obtain ⟨entry, made, persists, copies⟩ := FolderCache.store_ok kept
    obtain ⟨rfl, rfl, -⟩ := CacheEntry.make_ok made
    obtain ⟨onDisk, informed⟩ := persists.written
    let now : World := { (World.folderCachePart n).set after w with sources := sources }
    have asked : (Cache.folder ⟨dir⟩ (World.folderCachePart n)).isFresh Library.ofWorld name now = (true, w₂) := fresh
    have held : ∀ copy, Keyed.get? name (now.shelves.getD n []) = some copy → copy = entry := by
      show ∀ copy, Keyed.get? name ((w.shelves.set n after.copies).getD n []) = some copy → copy = entry
      rw [copies]
      exact put
    obtain ⟨rfl, vouches⟩ := vouches_folder held onDisk informed asked
    exact ⟨rfl, vouches⟩

/-- Storing changes no sources. -/
theorem CachePlace.sources_store {place : CachePlace} {r : Except TemplateError Unit}
    (stored : (place.cache n).store name artifact dependencies w = (r, w₁)) : w₁.sources = w.sources := by
  obtain ⟨-, rfl⟩ := Prod.mk.inj stored
  cases place <;> rfl

namespace Equipment

/-- Others may edit the sources as they like, before every single question that a compilation with the standard tags
asks its library, before its artifact is stored and afterwards: when the cache calls the artifact fresh, a compilation
from the sources as they then are gives the same template and the same artifact, and that artifact is handed out. -/
theorem fresh_artifacts_are_current {q : Equipment} (standard : q.tagSets = [Tag.standard]) {w w₁ w₂ : World}
    (sound : w.sources.Sound) (coming : List (List Edit)) (meanwhile later : List Edit) {name : String}
    {compiled : Compiled} {left : SharedSources}
    (run : q.compiledAmong ⟨w.sources, coming⟩ name = (.ok compiled, left)) (place : CachePlace) (shelf : Nat)
    (stored : (place.cache shelf).store name compiled.artifact compiled.template.dependencies
      { w with sources := Edit.makeAll meanwhile left.now } = (.ok (), w₁))
    (fresh : (place.cache shelf).isFresh Library.ofWorld name
      { w₁ with sources := Edit.makeAll later w₁.sources } = (true, w₂)) :
    q.compiled w₂.sources name = .ok compiled ∧
      ((place.cache shelf).artifact name w₂).1 = some compiled.artifact := by
  have steady : q.Steady := by
    intro set mem
    rw [standard] at mem
    rw [List.mem_singleton.mp mem]
    exact Tag.standard_steady
  obtain ⟨now, stamps, served⟩ := vouches_stored place stored fresh
  refine ⟨?_, served⟩
  let alone (sources : MemorySources) : World := { World.ofDisk (Disk.empty []) with sources := sources }
  let r := q.renderer (Cache.transient (World.shelfPart 0))
  have follow : ∀ sources : MemorySources, sources.laidUp = [] → left.now.Sound ∧ (left.now.Later sources →
      (∀ d ∈ compiled.template.dependencies, ∃ stamp,
        d.stamp = some stamp ∧ sources.modified d.identity = some stamp) →
      Renderer.compileWith (r.compileSteps name) (alone sources) = (.ok compiled, alone sources)) :=
    fun sources settled => by
      have sharing : q.sharing.compiler = ⟨Library.shared, q.sharing.table⟩ := rfl
      have held := Library.memory_holds (w := alone sources) settled
      exact compileSteps_follow (Tag.Table.steady_ofSets steady) (c := r.compiler) rfl held sharing rfl rfl sound run
  have end' : w₂.sources = Edit.makeAll later (Edit.makeAll meanwhile left.now) := by
    rw [now]
    dsimp only
    rw [CachePlace.sources_store stored]
  have leftSound := (follow .empty rfl).1
  have final : w₂.sources.Sound := by
    rw [end']
    exact (leftSound.makeAll meanwhile).makeAll later
  have after : left.now.Later w₂.sources := by
    rw [end']
    exact (MemorySources.later_makeAll meanwhile left.now).trans (MemorySources.later_makeAll later _)
  exact congrArg Prod.fst ((follow w₂.sources final.settled).2 after stamps)

theorem run_eq {ε α β : Type} {run : Except ε α × β} {a : α} (ok : run.1.toOption = some a) : run = (.ok a, run.2) := by
  obtain ⟨r, b⟩ := run
  cases r with
  | error e => cases ok
  | ok x =>
    cases ok
    rfl

/-- A page with a part of its own, and an empty cache. -/
def partedPage : World :=
  { (World.ofDisk (Disk.empty [])).addShelf.2 with
    sources := .ofList [("page", "<\x7binclude name=part\x7d>"), ("part", "old")] }

/-- The part is edited while the page is compiled, but before the compilation comes to it. -/
def editedEarly : List (List Edit) :=
  [[], [.touch "page"], [.add "news" "none"], [.remove "part", .add "part" "new"], [.touch "news"], [.remove "news"]]

theorem early_edits_are_current : ∃ compiled left w₁ w₂,
    standard.compiledAmong ⟨partedPage.sources, editedEarly⟩ "page" = (.ok compiled, left) ∧
      ((CachePlace.folder "cache").cache 0).store "page" compiled.artifact compiled.template.dependencies
        { partedPage with sources := Edit.makeAll [.touch "news"] left.now } = (.ok (), w₁) ∧
      ((CachePlace.folder "cache").cache 0).isFresh Library.ofWorld "page"
        { w₁ with sources := Edit.makeAll [.add "news" "late"] w₁.sources } = (true, w₂) ∧
      compiled.artifact = "<new>" ∧ standard.compiled w₂.sources "page" = .ok compiled := by
  let cache := (CachePlace.folder "cache").cache 0
  let result := standard.compiledAmong ⟨partedPage.sources, editedEarly⟩ "page"
  let dependencies : List Dependency := [⟨"page", some ⟨3⟩⟩, ⟨"part", some ⟨5⟩⟩]
  let stored := cache.store "page" "<new>" dependencies
    { partedPage with sources := Edit.makeAll [.touch "news"] result.2.now }
  let asked := cache.isFresh Library.ofWorld "page"
    { stored.2 with sources := Edit.makeAll [.add "news" "late"] stored.2.sources }
  have compiles : result.1.toOption.map (fun c => (c.artifact, c.template.dependencies)) =
      some ("<new>", dependencies) := by decide +kernel
  have stores : stored.1.toOption = some () := by decide +kernel
  have fresh : asked.1 = true := by decide +kernel
  have sound : partedPage.sources.Sound :=
    MemorySources.sound_empty.makeAll [.add "page" "<\x7binclude name=part\x7d>", .add "part" "old"]
  obtain ⟨compiled, found, parts⟩ := Option.map_eq_some_iff.mp compiles
  obtain ⟨text, listed⟩ := Prod.mk.inj parts
  have run : result = (.ok compiled, result.2) := run_eq found
  have kept : cache.store "page" compiled.artifact compiled.template.dependencies
      { partedPage with sources := Edit.makeAll [.touch "news"] result.2.now } = (.ok (), stored.2) := by
    rw [text, listed]
    exact run_eq stores
  have good : asked = (true, asked.2) := Prod.ext fresh rfl
  refine ⟨compiled, result.2, stored.2, asked.2, run, kept, good, text, ?_⟩
  exact (fresh_artifacts_are_current rfl sound editedEarly [.touch "news"] [.add "news" "late"] run
    (.folder "cache") 0 kept good).1

/-- The part is edited after its stamp was taken and before it is read. -/
example :
    let result := standard.compiledAmong ⟨partedPage.sources, [[], [], [], [], [], [.add "part" "new"]]⟩ "page"
    let stored := (CachePlace.memory.cache 0).store "page" "<new>" [⟨"page", some ⟨1⟩⟩, ⟨"part", some ⟨2⟩⟩]
      { partedPage with sources := result.2.now }
    result.1.toOption.map (fun c => (c.artifact, c.template.dependencies)) =
        some ("<new>", [⟨"page", some ⟨1⟩⟩, ⟨"part", some ⟨2⟩⟩]) ∧
      ((CachePlace.memory.cache 0).isFresh Library.ofWorld "page" stored.2).1 = false := by
  decide +kernel

end Equipment

end Stencil
