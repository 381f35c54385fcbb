import Stencil.Cli.Command

/-!
The command line on a real disk. What a call may read is taken from the disk first, the call is a function of
it, and then the files that it has written go to the disk. Files that cannot be written are passed over, as the
page has been made without them.
-/
namespace Stencil.Cli

def nanoseconds (t : IO.FS.SystemTime) : Int := t.sec * 1000000000 + t.nsec.toNat

/-- Takes a file, if it can be read. -/
def takeFile (l : Location) (d : Disk) : IO Disk := do
  let path := Path.ofLocation l
  try
    let bytes ← IO.FS.readBinFile path
    let about ← (← IO.FS.realPath path).metadata
    pure (d.place l (.file (FileContent.ofBytes bytes.toList) (nanoseconds about.modified)))
  catch _ => pure d

/-- When a folder was last changed, if there is one. -/
def folderChanged? (l : Location) : IO (Option Int) := do
  try
    let about ← (← IO.FS.realPath (Path.ofLocation l)).metadata
    pure (if about.type == .dir then some (nanoseconds about.modified) else none)
  catch _ => pure none

/-- The names in a folder, if it can be read. -/
def namesAt (l : Location) : IO (List String) := do
  try
    let entries ← (← IO.FS.realPath (Path.ofLocation l)).readDir
    pure (entries.toList.map (·.fileName))
  catch _ => pure []

/-- Takes a file, or a folder without what is in it. -/
def takeOne (l : Location) (d : Disk) : IO Disk := do
  match ← folderChanged? l with
  | some time => pure (d.place l (.folder time))
  | none => takeFile l d

/-- Takes a file, or a folder with all that is in it. -/
partial def takeTree (l : Location) (d : Disk) : IO Disk := do
  let d ← takeOne l d
  (← namesAt l).foldlM (fun d name => takeTree (l ++ [name]) d) d

/-- Takes what a path meets on its way and all that is at its end. -/
def takeAlong (l : Location) : List String → Disk → IO Disk
  | [], d => takeTree l d
  | part :: parts, d => do
    let d ← takeOne l d
    if part = "" ∨ part = "." then takeAlong l parts d
    else if part = ".." then takeAlong l.dropLast parts d
    else takeAlong (l ++ [part]) parts d

def takePath (path : String) (d : Disk) : IO Disk :=
  takeAlong [] (Path.segments (Path.join (Path.ofLocation d.current) path)) d

/-- All that a call with these arguments may read. -/
def takeFor (args : List String) (d : Disk) : IO Disk := do
  let settings := settingsOf args
  let d ← takePath settings.root d
  let d ← takePath (Path.join settings.root (args.getD 1 "index" ++ "." ++ settings.extension)) d
  match settings.cacheDir with
  | some dir => takePath dir d
  | none => pure d

/-- Puts what is at a location on the disk, if the disk allows it. -/
def putBack (l : Location) (e : DiskEntry) : IO Unit := do
  let path := Path.ofLocation l
  try
    match e with
    | .folder _ => IO.FS.createDirAll path
    | .file (.text s) _ => IO.FS.writeFile path s
    | .file (.raw bytes) _ => IO.FS.writeBinFile path ⟨bytes.toArray⟩
  catch _ => pure ()

/-- Puts all that has changed on the disk. -/
def putChanges (before after : Disk) : IO Unit :=
  after.entries.forM fun (l, e) =>
    if before.find? l = some e then pure () else putBack l e

end Stencil.Cli

open Stencil Stencil.Cli in
/-- Renders a template: the arguments are its folder, its name, its parameters and a folder for artifacts. -/
def main (args : List String) : IO UInt32 := do
  let current ← IO.currentDir
  let before ← takeFor args (Disk.empty ((Path.segments current.toString).filter (· ≠ "")))
  let (outcome, after) := run args before
  putChanges before after
  IO.print outcome.output
  IO.eprint outcome.errors
  pure outcome.code.toUInt32
