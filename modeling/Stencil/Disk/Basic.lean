import Stencil.Disk.Path
import Stencil.Error

/-!
A file system of folders and files, with the operations that a library of files and a cache on disk need. Every
path is followed step by step: each part but the last must be a folder that exists. A folder changes when
something comes into it or goes from it.
-/
namespace Stencil

/-- What a file holds: text, or bytes that are no text. -/
inductive FileContent where
  | text (s : String)
  | raw (bytes : List UInt8)
  deriving DecidableEq

/-- What a file with these bytes holds. -/
def FileContent.ofBytes (bytes : List UInt8) : FileContent :=
  match String.fromUTF8? ⟨bytes.toArray⟩ with
  | some s => .text s
  | none => .raw bytes

/-- What is at a place, with the time of its last change in nanoseconds. -/
inductive DiskEntry where
  | file (content : FileContent) (changed : Int)
  | folder (changed : Int)
  deriving DecidableEq

def DiskEntry.changed : DiskEntry → Int
  | file _ t => t
  | folder t => t

def DiskEntry.withChanged (time : Int) : DiskEntry → DiskEntry
  | file content _ => .file content time
  | folder _ => .folder time

structure Disk where
  entries : List (Location × DiskEntry)
  /-- Where relative paths start. -/
  current : Location
  /-- The time of the next change. -/
  clock : Int

namespace Disk

def empty (current : Location) : Disk := ⟨[], current, 0⟩

/-- What is at a location. The top is always a folder. -/
def find? (d : Disk) (l : Location) : Option DiskEntry :=
  match l with
  | [] => some (.folder 0)
  | l => d.entries.lookup l

/-- Puts something at a location, in place of what was there. -/
def place (d : Disk) (l : Location) (e : DiskEntry) : Disk :=
  { d with entries := d.entries.filter (·.1 ≠ l) ++ [(l, e)] }

/-- Sets the time of the last change of what is at a location. -/
def setChangedAt (d : Disk) (l : Location) (time : Int) : Disk :=
  { d with entries := d.entries.map fun (m, e) => if m = l then (m, e.withChanged time) else (m, e) }

/-- The folder of a location changes now. -/
def changeAbove (d : Disk) (l : Location) : Disk := d.setChangedAt l.dropLast d.clock

/-- Puts something new at a location. -/
def add (d : Disk) (l : Location) (e : DiskEntry) : Disk := (d.place l e).changeAbove l

/-- Removes a location and everything below it. -/
def removeTree (d : Disk) (l : Location) : Disk :=
  { d with entries := d.entries.filter fun (m, _) => !l.isPrefixOf m }.changeAbove l

/-- The longest name, in bytes, that a file or folder may have. -/
def longestName : Nat := 255

/-- The longest path, in bytes, that may be used as it is. -/
def longestPath : Nat := 4095

/-- One step from a folder to what a part of a path names. -/
def step (d : Disk) (l : Location) (part : String) : Except DiskFault Location :=
  match d.find? l with
  | some (.folder _) =>
    if part = "" ∨ part = "." then .ok l
    else if part = ".." then .ok l.dropLast
    else if longestName < part.utf8ByteSize then .error .nameTooLong
    else if (d.find? (l ++ [part])).isSome then .ok (l ++ [part])
    else .error .missing
  | some (.file ..) => .error .notDirectory
  | none => .error .missing

def walk (d : Disk) (l : Location) : List String → Except DiskFault Location
  | [] => .ok l
  | part :: parts =>
    match d.step l part with
    | .ok l => d.walk l parts
    | .error e => .error e

/-- Where a path begins. -/
def start (d : Disk) (path : String) : Location := if Path.isAbsolute path then [] else d.current

/-- The place that a path of any length leads to. -/
def resolve (d : Disk) (path : String) : Except DiskFault Location :=
  if path.isEmpty then .error .missing
  else if path.toList.contains '\x00' then .error .invalidName
  else d.walk (d.start path) (Path.segments path)

/-- The place that a path leads to. -/
def locate (d : Disk) (path : String) : Except DiskFault Location :=
  if longestPath < path.utf8ByteSize then .error .nameTooLong else d.resolve path

def readAt (d : Disk) (l : Location) : Except DiskFault String :=
  match d.find? l with
  | some (.file (.text s) _) => .ok s
  | some (.file (.raw _) _) => .error .notText
  | some (.folder _) => .error .isDirectory
  | none => .error .missing

/-- The text of a file. -/
def read (d : Disk) (path : String) : Except DiskFault String :=
  match d.locate path with
  | .ok l => d.readAt l
  | .error e => .error e

def isFile (d : Disk) (path : String) : Bool :=
  match d.locate path with
  | .ok l =>
    match d.find? l with
    | some (.file ..) => true
    | _ => false
  | .error _ => false

/-- When the file or folder at the end of a path was last changed. -/
def changed? (d : Disk) (path : String) : Option Int :=
  match d.locate path with
  | .ok l => (d.find? l).map (·.changed)
  | .error _ => none

/-- The folder in which a path's last part stands, and that part. -/
def parent (d : Disk) (path : String) : Except DiskFault (Location × String) :=
  if longestPath < path.utf8ByteSize then .error .nameTooLong
  else if path.isEmpty then .error .missing
  else if path.toList.contains '\x00' then .error .invalidName
  else
    let parts := Path.segments path
    match d.walk (d.start path) parts.dropLast with
    | .ok l => .ok (l, parts.getLastD "")
    | .error e => .error e

/-- The disk after a moment has passed. -/
def tick (d : Disk) : Disk := { d with clock := d.clock + 1 }

/-- Writes a file, new or in place of the one that is there. No two writes are at the same time. -/
def write (d : Disk) (path : String) (content : FileContent) : Except DiskFault Disk :=
  match d.parent path with
  | .error e => .error e
  | .ok (folder, name) =>
    match d.find? folder with
    | some (.folder _) =>
      if name = "" ∨ name = "." ∨ name = ".." then .error .isDirectory
      else if longestName < name.utf8ByteSize then .error .nameTooLong
      else match d.find? (folder ++ [name]) with
        | some (.folder _) => .error .isDirectory
        | some (.file ..) => .ok (d.place (folder ++ [name]) (.file content d.clock)).tick
        | none => .ok (d.add (folder ++ [name]) (.file content d.clock)).tick
    | some (.file ..) => .error .notDirectory
    | none => .error .missing

/-- Sets the time of the last change of the file or folder at the end of a path. -/
def setChanged (d : Disk) (path : String) (time : Int) : Disk :=
  match d.locate path with
  | .ok l => d.setChangedAt l time
  | .error _ => d

/-- Makes one folder on the way of a path, unless it is there. -/
def makeStep (d : Disk) (l : Location) (part : String) : Except DiskFault (Disk × Location) :=
  match d.step l part with
  | .ok l =>
    match d.find? l with
    | some (.folder _) => .ok (d, l)
    | _ => .error .alreadyThere
  | .error .missing => .ok ((d.add (l ++ [part]) (.folder d.clock)).tick, l ++ [part])
  | .error e => .error e

def makeWalk (d : Disk) (l : Location) : List String → Except DiskFault Disk
  | [] => .ok d
  | part :: parts =>
    match d.makeStep l part with
    | .ok (d, l) => d.makeWalk l parts
    | .error e => .error e

/-- Makes a folder and all folders on the way to it. -/
def makeFolders (d : Disk) (path : String) : Except DiskFault Disk :=
  if path.toList.contains '\x00' then .error .invalidName
  else if longestPath < path.utf8ByteSize then .error .nameTooLong
  else if path.isEmpty then .ok d
  else d.makeWalk (d.start path) (Path.segments path)

/-- Removes a file, if it is one. -/
def removeFile (d : Disk) (path : String) : Disk :=
  match d.locate path with
  | .ok l =>
    match d.find? l with
    | some (.file ..) => { d with entries := d.entries.filter (·.1 ≠ l) }.changeAbove l
    | _ => d
  | .error _ => d

/-- The locations of all files below a location, that itself included. -/
def filesWithin (d : Disk) (l : Location) : List Location :=
  d.entries.filterMap fun (m, e) =>
    match e with
    | .file .. => if l.isPrefixOf m then some m else none
    | .folder _ => none

/-- The names in a folder. -/
def namesIn (d : Disk) (l : Location) : List String :=
  d.entries.filterMap fun (m, _) => if m ≠ [] ∧ m.dropLast = l then m.getLast? else none

end Disk

end Stencil
