import Stencil.Renderer

/-!
What the renderers of one process share: sources in memory, the disk, and the shelves on which caches hold
artifacts in memory.
-/
namespace Stencil

structure World where
  sources : MemorySources
  disk : Disk
  shelves : List Shelf

namespace World

def ofDisk (disk : Disk) : World := ⟨MemorySources.empty, disk, []⟩

def sourcesPart : Part World MemorySources where
  get w := w.sources
  set s w := { w with sources := s }

def diskPart : Part World Disk where
  get w := w.disk
  set d w := { w with disk := d }

/-- The shelf of a number. -/
def shelfPart (n : Nat) : Part World Shelf where
  get w := w.shelves.getD n []
  set s w := { w with shelves := w.shelves.set n s }

/-- The disk and the shelf of a number. -/
def folderCachePart (n : Nat) : Part World FolderCacheState where
  get w := ⟨w.disk, w.shelves.getD n []⟩
  set s w := { w with disk := s.disk, shelves := w.shelves.set n s.copies }

/-- A new shelf and its number. -/
def addShelf (w : World) : Nat × World := (w.shelves.length, { w with shelves := w.shelves ++ [[]] })

end World

/-- Where the sources of a renderer are. -/
inductive LibraryPlace where
  | memory
  | folder (sources : FolderSources)

def LibraryPlace.library : LibraryPlace → Library World
  | memory => Library.memory.onPart World.sourcesPart
  | folder sources => (Library.folder sources).onPart World.diskPart

/-- Where the artifacts of a renderer are. -/
inductive CachePlace where
  | transient
  | memory
  | folder (dir : String)

/-- The cache of a place, with a shelf of its own. -/
def CachePlace.cache (place : CachePlace) (shelf : Nat) : Cache World :=
  match place with
  | transient => Cache.transient (World.shelfPart shelf)
  | memory => Cache.memory (World.shelfPart shelf)
  | folder dir => Cache.folder ⟨dir⟩ (World.folderCachePart shelf)

namespace Renderer

/-- A renderer with a new cache. -/
def openWith (library : LibraryPlace) (cache : CachePlace) (w : World) : Renderer World × World :=
  let (shelf, w) := w.addShelf
  (make library.library (cache.cache shelf), w)

/-- A renderer of the files of a folder. Its artifacts are kept on disk if the settings name a folder for
them, and in memory otherwise. -/
def ofSettings (settings : Settings) (w : World) : Except TemplateError (FolderSources × Renderer World × World) :=
  match FolderSources.open? w.disk settings.root settings.extension with
  | .error e => .error e
  | .ok sources =>
    let place := match settings.cacheDir with
      | some dir => CachePlace.folder dir
      | none => .memory
    let (r, w) := openWith (.folder sources) place w
    .ok (sources, { r with strip := settings.strip, singleFlight := settings.singleFlight }, w)

end Renderer

end Stencil
