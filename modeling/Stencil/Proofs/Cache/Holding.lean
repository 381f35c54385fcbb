import Stencil.Proofs.Cache.FolderFiles
import Stencil.Proofs.Cache.Rendering
import Stencil.World

/-!
What caches hold. A cache holds at most one entry for a name: what was stored last, unless it was removed. The three
caches keep to this, the one in a folder as long as the folder is its own and the names fit into file names.
-/
namespace Stencil

/-- An entry is made of what it is made from. -/
theorem CacheEntry.make_ok {name artifact : String} {dependencies : List Dependency} {entry : CacheEntry}
    (made : CacheEntry.make name artifact dependencies = .ok entry) :
    entry.artifact = artifact ∧ entry.dependencies = dependencies ∧
      Program.parse name artifact = .ok entry.program := by
  unfold CacheEntry.make at made
  cases parsed : Program.parse name artifact with
  | error e =>
    rw [parsed] at made
    cases made
  | ok p =>
    rw [parsed] at made
    cases made
    exact ⟨rfl, rfl, rfl⟩

theorem CacheEntry.make_of_error {name artifact : String} {e : TemplateError}
    (parsed : Program.parse name artifact = .error e) (dependencies : List Dependency) :
    CacheEntry.make name artifact dependencies = .error e := by
  unfold CacheEntry.make
  rw [parsed]
  rfl

theorem CacheEntry.make_of_ok {name artifact : String} {p : Program} (parsed : Program.parse name artifact = .ok p)
    (dependencies : List Dependency) :
    CacheEntry.make name artifact dependencies = .ok ⟨artifact, p, dependencies⟩ := by
  unfold CacheEntry.make
  rw [parsed]
  rfl

/-- The library of the sources in memory. -/
abbrev Library.ofWorld : Library World := LibraryPlace.memory.library

/-- Whether all sources still have the stamps that were recorded. -/
def MemorySources.current (sources : MemorySources) (dependencies : List Dependency) : Bool :=
  dependencies.all fun d => d.stamp.isSome && sources.modified d.identity = d.stamp

theorem MemorySources.current_iff {sources : MemorySources} {dependencies : List Dependency} :
    sources.current dependencies = true ↔
      ∀ d ∈ dependencies, ∃ stamp, d.stamp = some stamp ∧ sources.modified d.identity = some stamp := by
  unfold MemorySources.current
  rw [List.all_eq_true]
  refine forall₂_congr fun d _ => ?_
  cases recorded : d.stamp with
  | none => simp
  | some stamp => simp

/-- Sources in memory are asked for their stamps without any change. -/
theorem Library.allFresh_ofWorld (dependencies : List Dependency) (w : World) :
    Library.ofWorld.allFresh dependencies w = (w.sources.current dependencies, w) := by
  induction dependencies with
  | nil => rfl
  | cons d ds ih =>
    have asked : Library.ofWorld.isFresh d w =
        (d.stamp.isSome && w.sources.modified d.identity = d.stamp, w) := by
      unfold Library.isFresh
      cases d.stamp <;> rfl
    show (match Library.ofWorld.isFresh d w with
      | (x, s) => (if x = true then Library.ofWorld.allFresh ds else pure false : StateM World Bool) s) = _
    rw [asked]
    unfold MemorySources.current at ih ⊢
    rw [List.all_cons]
    cases d.stamp.isSome && decide (w.sources.modified d.identity = d.stamp) with
    | false => rfl
    | true => exact ih

theorem Part.within_eq {W S α : Type} (part : Part W S) {act : StateM S α} {w : W} {a : α} {s : S}
    (run : act (part.get w) = (a, s)) : part.within act w = (a, part.set s w) := by
  unfold Part.within
  rw [run]

theorem World.getD_set {w : World} {n : Nat} (there : n < w.shelves.length) (shelf : Shelf) :
    (w.shelves.set n shelf).getD n [] = shelf := by
  rw [List.getD_eq_getElem?_getD, List.getElem?_set_self there]
  rfl

/-- What a cache holds for the names, told by an invariant. Of an artifact that is no program it keeps nothing. A
cache that does not last never calls fresh what it holds. -/
structure Cache.Holding (names : String → Prop) (cache : Cache World) (lasting : Bool)
    (inv : (String → Option CacheEntry) → World → Prop) : Prop where
  edited : ∀ {held w}, inv held w → ∀ sources, inv held { w with sources := sources }
  asked : ∀ {held w name}, inv held w → names name → cache.isFresh Library.ofWorld name w =
    (lasting && (held name).any fun entry => w.sources.current entry.dependencies, w)
  refused : ∀ {held w name artifact dependencies e}, inv held w →
    CacheEntry.make name artifact dependencies = .error e →
    ∃ w', cache.store name artifact dependencies w = (.error e, w') ∧ inv held w' ∧ w'.sources = w.sources
  stored : ∀ {held w name artifact dependencies entry}, inv held w → names name → CacheInfo.Fits dependencies →
    CacheEntry.make name artifact dependencies = .ok entry →
    ∃ w', cache.store name artifact dependencies w = (.ok (), w') ∧
      inv (Function.update held name (some entry)) w' ∧ w'.sources = w.sources
  loaded : ∀ {held w name entry}, inv held w → names name → held name = some entry →
    ∃ w', cache.load name w = (.ok entry.program, w') ∧ inv held w' ∧ w'.sources = w.sources
  removed : ∀ {held w name}, inv held w → names name →
    ∃ w', cache.remove name w = ((), w') ∧ inv (Function.update held name none) w' ∧ w'.sources = w.sources

variable {names : String → Prop} {held : String → Option CacheEntry} {n : Nat} {w : World} {name : String}

/-! #### Caches in memory -/

/-- There is a shelf of this number, and this is on it. -/
structure World.OnShelf (names : String → Prop) (n : Nat) (held : String → Option CacheEntry) (w : World) : Prop where
  there : n < w.shelves.length
  holds : ∀ name, names name → Keyed.get? name (w.shelves.getD n []) = held name

/-- Something else is put on the shelf. -/
theorem World.OnShelf.change (on : w.OnShelf names n held) {shelf : Shelf} {held' : String → Option CacheEntry}
    (holds : ∀ name, names name → Keyed.get? name shelf = held' name) :
    ((World.shelfPart n).set shelf w).OnShelf names n held' := by
  constructor
  · show n < (w.shelves.set n shelf).length
    rw [List.length_set]
    exact on.there
  · intro name known
    show Keyed.get? name ((w.shelves.set n shelf).getD n []) = held' name
    rw [World.getD_set on.there]
    exact holds name known

namespace Cache

/-- A cache on a shelf holds what is on it if it calls the right entries fresh. -/
theorem holding_of_shelf {cache : Cache World} {lasting : Bool}
    (loads : cache.load = fun name => (World.shelfPart n).within fun s => (s.load name, s))
    (stores : cache.store = fun name artifact dependencies =>
      (World.shelfPart n).within (Shelf.store name artifact dependencies))
    (removes : cache.remove = fun name => (World.shelfPart n).within fun s => ((), Keyed.erase name s))
    (asked : ∀ name w, cache.isFresh Library.ofWorld name w =
      (lasting && (Keyed.get? name (w.shelves.getD n [])).any fun entry =>
        w.sources.current entry.dependencies, w)) :
    cache.Holding names lasting (World.OnShelf names n) := by
  constructor
  case edited =>
    intro held w on sources
    exact ⟨on.there, on.holds⟩
  case asked =>
    intro held w name on known
    rw [asked, on.holds name known]
  case refused =>
    intro held w name artifact dependencies e on bad
    have run : Shelf.store name artifact dependencies (w.shelves.getD n []) =
        (.error e, w.shelves.getD n []) := by
      unfold Shelf.store
      rw [bad]
    refine ⟨_, ?_, on.change on.holds, rfl⟩
    rw [stores]
    exact Part.within_eq (World.shelfPart n) run
  case stored =>
    intro held w name artifact dependencies entry on known _ made
    have run : Shelf.store name artifact dependencies (w.shelves.getD n []) =
        (.ok (), Keyed.put name entry (w.shelves.getD n [])) := by
      unfold Shelf.store
      rw [made]
    refine ⟨(World.shelfPart n).set (Keyed.put name entry (w.shelves.getD n [])) w, ?_,
      on.change fun other known' => ?_, rfl⟩
    · rw [stores]
      exact Part.within_eq (World.shelfPart n) run
    · by_cases same : other = name
      · subst same
        rw [Keyed.get?_put_self, Function.update_self]
      · rw [Keyed.get?_put_of_ne (Ne.symm same), Function.update_of_ne same]
        exact on.holds other known'
  case loaded =>
    intro held w name entry on known found
    have run : Shelf.load name (w.shelves.getD n []) = .ok entry.program := by
      unfold Shelf.load
      rw [on.holds name known, found]
    refine ⟨(World.shelfPart n).set (w.shelves.getD n []) w, ?_, on.change on.holds, rfl⟩
    rw [loads]
    show (Shelf.load name (w.shelves.getD n []), _) = _
    rw [run]
    rfl
  case removed =>
    intro held w name on known
    refine ⟨_, by rw [removes]; rfl, on.change fun other known' => ?_, rfl⟩
    by_cases same : other = name
    · subst same
      rw [Function.update_self]
      exact Keyed.get?_erase_self other _
    · rw [Function.update_of_ne same]
      exact (Keyed.get?_erase_of_ne (Ne.symm same) _).trans (on.holds other known')

theorem holding_transient (n : Nat) :
    (Cache.transient (World.shelfPart n)).Holding names false (World.OnShelf names n) :=
  holding_of_shelf rfl rfl rfl fun _ _ => rfl

theorem memory_isFresh {W : Type} {shelf : Part W Shelf} {lib : Library W} {name : String} {w : W}
    {entry : CacheEntry} (found : Keyed.get? name (shelf.get w) = some entry) :
    (Cache.memory shelf).isFresh lib name w = lib.allFresh entry.dependencies w := by
  unfold Cache.memory
  simp only [bind, StateT.bind, get, getThe, MonadStateOf.get, StateT.get, pure, found]

theorem memory_isFresh_none {W : Type} {shelf : Part W Shelf} {lib : Library W} {name : String} {w : W}
    (found : Keyed.get? name (shelf.get w) = none) : (Cache.memory shelf).isFresh lib name w = (false, w) := by
  unfold Cache.memory
  simp only [bind, StateT.bind, get, getThe, MonadStateOf.get, StateT.get, pure, found]
  rfl

theorem holding_memory (n : Nat) :
    (Cache.memory (World.shelfPart n)).Holding names true (World.OnShelf names n) := by
  refine holding_of_shelf rfl rfl rfl fun name w => ?_
  cases found : Keyed.get? name (w.shelves.getD n []) with
  | none => exact memory_isFresh_none found
  | some entry => exact (memory_isFresh found).trans (Library.allFresh_ofWorld entry.dependencies w)

end Cache

/-! #### The cache in a folder -/

namespace FolderCache

variable {c : FolderCache} {s s' : FolderCacheState}

/-- The cache has nothing for a name, or it has this entry on disk and no copy of another. -/
def Holds (c : FolderCache) (name : String) (s : FolderCacheState) : Option CacheEntry → Prop
  | none => c.readInfo name s.disk = none ∧ Keyed.get? name s.copies = none
  | some entry => CacheEntry.make name entry.artifact entry.dependencies = .ok entry ∧
      c.Shows s.disk name (some entry.artifact) (some ⟨compilerVersion, entry.dependencies⟩) ∧
      ∀ copy, Keyed.get? name s.copies = some copy → copy = entry

/-- Something is done for another name. -/
theorem Holds.other {found : Option CacheEntry} (holds : c.Holds name s found)
    (shown : ∀ a i, c.Shows s.disk name a i → c.Shows s'.disk name a i)
    (copies : Keyed.get? name s'.copies = Keyed.get? name s.copies) : c.Holds name s' found := by
  cases found with
  | none => exact ⟨(shown _ _ ⟨rfl, holds.1⟩).info, copies.trans holds.2⟩
  | some entry =>
    obtain ⟨made, shows, same⟩ := holds
    exact ⟨made, shown _ _ shows, fun copy found => same copy (copies.symm.trans found)⟩

/-- What is held is handed out, and a copy of it is kept. -/
theorem Holds.load {entry : CacheEntry} (holds : c.Holds name s (some entry)) :
    ∃ s', c.load name s = (.ok entry.program, s') ∧ s'.disk = s.disk ∧ c.Holds name s' (some entry) ∧
      ∀ other, other ≠ name → Keyed.get? other s'.copies = Keyed.get? other s.copies := by
  obtain ⟨made, shows, same⟩ := holds
  cases copy : Keyed.get? name s.copies with
  | some e =>
    cases same e copy
    have kept : c.copy? name s = (some entry, s) := by
      unfold FolderCache.copy?
      rw [copy]
      dsimp only
      rw [shows.info]
      exact if_pos rfl
    refine ⟨s, ?_, rfl, ⟨made, shows, same⟩, fun _ _ => rfl⟩
    unfold FolderCache.load
    rw [kept]
  | none =>
    have absent : c.copy? name s = (none, s) := by
      unfold FolderCache.copy?
      rw [copy]
    have again : CacheEntry.make name entry.artifact (((c.readInfo name s.disk).map (·.dependencies)).getD []) =
        .ok entry := by
      rw [shows.info]
      exact made
    refine ⟨{ s with copies := Keyed.put name entry s.copies }, ?_, rfl, ⟨made, shows, ?_⟩, ?_⟩
    · unfold FolderCache.load
      rw [absent]
      dsimp only
      unfold FolderCache.loadFromDisk
      rw [shows.artifact]
      dsimp only
      rw [again]
    · intro e found
      rw [Keyed.get?_put_self] at found
      exact (Option.some.inj found).symm
    · intro other different
      exact Keyed.get?_put_of_ne (Ne.symm different) entry _

end FolderCache

/-- The shelf of a cache in a folder is there, the folder works, and this is in it. -/
structure World.InFolder (names : String → Prop) (c : FolderCache) (n : Nat) (held : String → Option CacheEntry)
    (w : World) : Prop where
  there : n < w.shelves.length
  usable : c.Usable w.disk
  holds : ∀ name, names name → c.Holds name ((World.folderCachePart n).get w) (held name)

variable {c : FolderCache} {s : FolderCacheState}

/-- The disk and the copies are changed. -/
theorem World.InFolder.change (within : w.InFolder names c n held) (usable : c.Usable s.disk)
    {held' : String → Option CacheEntry} (holds : ∀ name, names name → c.Holds name s (held' name)) :
    ((World.folderCachePart n).set s w).InFolder names c n held' := by
  refine ⟨?_, usable, fun name known => ?_⟩
  · show n < (w.shelves.set n s.copies).length
    rw [List.length_set]
    exact within.there
  · have here : (World.folderCachePart n).get ((World.folderCachePart n).set s w) = s := by
      show FolderCacheState.mk s.disk ((w.shelves.set n s.copies).getD n []) = s
      rw [World.getD_set within.there]
    rw [here]
    exact holds name known

namespace Cache

theorem folder_isFresh {W : Type} {part : Part W FolderCacheState} {lib : Library W} {name : String} {w : W}
    {info : CacheInfo} (found : c.readInfo name (part.get w).disk = some info)
    (usable : c.isUsable name info (part.get w).disk = true) :
    (Cache.folder c part).isFresh lib name w = lib.allFresh info.dependencies w := by
  unfold Cache.folder
  simp only [bind, StateT.bind, get, getThe, MonadStateOf.get, StateT.get, pure, found, usable, if_pos]

theorem folder_isFresh_none {W : Type} {part : Part W FolderCacheState} {lib : Library W} {name : String} {w : W}
    (found : c.readInfo name (part.get w).disk = none) : (Cache.folder c part).isFresh lib name w = (false, w) := by
  unfold Cache.folder
  simp only [bind, StateT.bind, get, getThe, MonadStateOf.get, StateT.get, pure, found]
  rfl

theorem holding_folder (fits : ∀ name, names name → c.Fits name) (n : Nat) :
    (Cache.folder c (World.folderCachePart n)).Holding names true (World.InFolder names c n) := by
  constructor
  case edited =>
    intro held w within sources
    exact ⟨within.there, within.usable, within.holds⟩
  case asked =>
    intro held w name within known
    have holds := within.holds name known
    cases found : held name with
    | none =>
      rw [found] at holds
      exact folder_isFresh_none holds.1
    | some entry =>
      rw [found] at holds
      obtain ⟨-, shows, -⟩ := holds
      let part := World.folderCachePart n
      have info : c.readInfo name (part.get w).disk = some ⟨compilerVersion, entry.dependencies⟩ := shows.info
      have usable : c.isUsable name ⟨compilerVersion, entry.dependencies⟩ (part.get w).disk = true :=
        decide_eq_true ⟨rfl, FolderCache.isFile_of_readArtifact shows.artifact⟩
      exact (folder_isFresh info usable).trans (Library.allFresh_ofWorld entry.dependencies w)
  case refused =>
    intro held w name artifact dependencies e within bad
    have run : c.store name artifact dependencies ((World.folderCachePart n).get w) =
        (.error e, (World.folderCachePart n).get w) := by
      unfold FolderCache.store
      rw [bad]
    exact ⟨_, Part.within_eq _ run, within.change within.usable within.holds, rfl⟩
  case stored =>
    intro held w name artifact dependencies entry within known stamps made
    obtain ⟨text, listed, -⟩ := CacheEntry.make_ok made
    obtain ⟨disk, persisted, usable, shows, others⟩ := within.usable.persist (fits name known) artifact stamps
    let here := (World.folderCachePart n).get w
    have run : c.store name artifact dependencies here = (.ok (), ⟨disk, Keyed.put name entry here.copies⟩) := by
      have persisted' : c.persist name artifact dependencies here.disk = (.ok (), disk) := persisted
      unfold FolderCache.store
      rw [made]
      dsimp only
      rw [persisted']
    refine ⟨_, Part.within_eq _ run, within.change usable fun other known' => ?_, rfl⟩
    by_cases same : other = name
    · subst same
      rw [Function.update_self, FolderCache.Holds, text, listed]
      refine ⟨made, shows, fun copy found => ?_⟩
      rw [Keyed.get?_put_self] at found
      exact (Option.some.inj found).symm
    · rw [Function.update_of_ne same]
      exact (within.holds other known').other (others other (fits other known') same)
        (Keyed.get?_put_of_ne (Ne.symm same) entry _)
  case loaded =>
    intro held w name entry within known found
    have holds := within.holds name known
    rw [found] at holds
    obtain ⟨s', run, disk, holds', others⟩ := holds.load
    have usable : c.Usable s'.disk := by
      rw [disk]
      exact within.usable
    refine ⟨_, Part.within_eq _ run, within.change usable fun other known' => ?_, rfl⟩
    by_cases same : other = name
    · subst same
      rw [found]
      exact holds'
    · refine (within.holds other known').other (fun a i shows => ?_) (others other same)
      rw [disk]
      exact shows
  case removed =>
    intro held w name within known
    obtain ⟨usable, gone, others⟩ := within.usable.remove (fits name known)
    let after := c.remove name ((World.folderCachePart n).get w)
    have changed : ((World.folderCachePart n).set after w).InFolder names c n (Function.update held name none) := by
      refine within.change (s := after) usable fun other known' => ?_
      by_cases same : other = name
      · subst same
        rw [Function.update_self]
        exact ⟨gone, Keyed.get?_erase_self other _⟩
      · rw [Function.update_of_ne same]
        exact (within.holds other known').other (others other (fits other known') same)
          (Keyed.get?_erase_of_ne (Ne.symm same) _)
    exact ⟨_, rfl, changed, rfl⟩

end Cache

end Stencil
