import Stencil.Cache.Info
import Stencil.Cache.Memory
import Stencil.Disk.Basic

/-!
A cache in a folder. Every artifact is a file, with a second file that tells the sources it was made from.
Artifacts that were stored or read are also held in memory, and that copy is used as long as the file on disk
does not tell of other sources, which it does when another process has compiled anew.

Writing is done in single steps on the disk, and each may fail; the copy in memory is made first.
-/
namespace Stencil

structure FolderCache where
  /-- The path of the folder. -/
  dir : String

/-- The disk and the copies in memory. -/
structure FolderCacheState where
  disk : Disk
  copies : Shelf

namespace FolderCache

def hexDigits (n : Nat) : List Char :=
  [n / 16, n % 16].map fun d => if d < 10 then Char.ofNat (48 + d) else Char.ofNat (55 + d)

/-- A byte of a name: letters, digits, dashes and underscores stand for themselves. -/
def encodeByte (b : UInt8) : List Char :=
  let c := Char.ofNat b.toNat
  if c.isAlphanum || c == '-' || c == '_' then [c] else '%' :: hexDigits b.toNat

/-- A name as the first part of a file name. -/
def encodeName (name : String) : String := String.ofList (name.toUTF8.toList.flatMap encodeByte)

def artifactPath (c : FolderCache) (name : String) : String := Path.join c.dir (encodeName name ++ ".cache")

def infoPath (c : FolderCache) (name : String) : String := Path.join c.dir (encodeName name ++ ".cache.info")

/-! #### Single steps on the disk -/

/-- The information beside an artifact, if it can be read. -/
def readInfo (c : FolderCache) (name : String) (d : Disk) : Option CacheInfo :=
  match d.read (c.infoPath name) with
  | .ok s => CacheInfo.parse? s
  | .error _ => none

def readArtifact (c : FolderCache) (name : String) (d : Disk) : Option String :=
  (d.read (c.artifactPath name)).toOption

def makeDir (c : FolderCache) (d : Disk) : Except DiskFault Disk := d.makeFolders c.dir

def writeArtifact (c : FolderCache) (name artifact : String) (d : Disk) : Except DiskFault Disk :=
  d.write (c.artifactPath name) (.text artifact)

def writeInfo (c : FolderCache) (name : String) (dependencies : List Dependency) (d : Disk) :
    Except DiskFault Disk :=
  d.write (c.infoPath name) (.text (CacheInfo.write ⟨compilerVersion, dependencies⟩))

/-- Does one step after the other until one fails; what was done before stays. -/
def inTurn : List (Disk → Except DiskFault Disk) → Disk → Except TemplateError Unit × Disk
  | [], d => (.ok (), d)
  | step :: steps, d =>
    match step d with
    | .ok d => inTurn steps d
    | .error e => (.error (.io e), d)

/-- Writes an artifact and the information about it. -/
def persist (c : FolderCache) (name artifact : String) (dependencies : List Dependency) :
    Disk → Except TemplateError Unit × Disk :=
  inTurn [c.makeDir, c.writeArtifact name artifact, c.writeInfo name dependencies]

/-! #### Operations of the cache -/

/-- The copy in memory, unless the information on disk tells of other sources; then it is dropped. -/
def copy? (c : FolderCache) (name : String) (s : FolderCacheState) : Option CacheEntry × FolderCacheState :=
  match Keyed.get? name s.copies with
  | none => (none, s)
  | some entry =>
    match c.readInfo name s.disk with
    | some info =>
      if info.dependencies = entry.dependencies then (some entry, s)
      else (none, { s with copies := Keyed.erase name s.copies })
    | none => (some entry, s)

def store (c : FolderCache) (name artifact : String) (dependencies : List Dependency) (s : FolderCacheState) :
    Except TemplateError Unit × FolderCacheState :=
  match CacheEntry.make name artifact dependencies with
  | .error e => (.error e, s)
  | .ok entry =>
    let (r, disk) := c.persist name artifact dependencies s.disk
    (r, ⟨disk, Keyed.put name entry s.copies⟩)

/-- Reads an artifact from the disk and keeps a copy. -/
def loadFromDisk (c : FolderCache) (name : String) (s : FolderCacheState) :
    Except TemplateError Program × FolderCacheState :=
  match c.readArtifact name s.disk with
  | none => (.error (.artifactMissing name), s)
  | some artifact =>
    let dependencies := ((c.readInfo name s.disk).map (·.dependencies)).getD []
    match CacheEntry.make name artifact dependencies with
    | .error e => (.error e, s)
    | .ok entry => (.ok entry.program, { s with copies := Keyed.put name entry s.copies })

def load (c : FolderCache) (name : String) (s : FolderCacheState) :
    Except TemplateError Program × FolderCacheState :=
  match c.copy? name s with
  | (some entry, s) => (.ok entry.program, s)
  | (none, s) => c.loadFromDisk name s

def artifact (c : FolderCache) (name : String) (s : FolderCacheState) : Option String × FolderCacheState :=
  match c.copy? name s with
  | (some entry, s) => (some entry.artifact, s)
  | (none, s) => (c.readArtifact name s.disk, s)

def remove (c : FolderCache) (name : String) (s : FolderCacheState) : FolderCacheState :=
  { disk := (s.disk.removeFile (c.artifactPath name)).removeFile (c.infoPath name)
    copies := Keyed.erase name s.copies }

/-- What the information on disk must say for an artifact to be good, its sources apart. -/
def isUsable (c : FolderCache) (name : String) (info : CacheInfo) (d : Disk) : Bool :=
  info.version = compilerVersion ∧ d.isFile (c.artifactPath name)

end FolderCache

namespace Cache

variable {W : Type}

/-- The cache of a folder. -/
def folder (c : FolderCache) (part : Part W FolderCacheState) : Cache W where
  isFresh lib name := do
    let s ← get
    let disk := (part.get s).disk
    match c.readInfo name disk with
    | none => pure false
    | some info => if c.isUsable name info disk then lib.allFresh info.dependencies else pure false
  store name artifact dependencies := part.within (c.store name artifact dependencies)
  load name := part.within (c.load name)
  artifact name := part.within (c.artifact name)
  remove name := part.within fun s => ((), c.remove name s)

end Cache

end Stencil
