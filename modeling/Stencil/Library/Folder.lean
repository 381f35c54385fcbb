import Stencil.Disk.Basic
import Stencil.Library.Basic

/-!
Sources in the files below a folder. The source of a name is the file of that name with the library's
extension; its identity is the file's own absolute path, so two spellings of one path are one source. A name
that leads out of the folder is refused.
-/
namespace Stencil

structure FolderSources where
  root : Location
  /-- Without the dot; empty if files have no extension. -/
  extension : String

namespace FolderSources

/-- Opens the library of a folder, which must exist. Dots in front of the extension do not count. -/
def open? (d : Disk) (root extension : String) : Except TemplateError FolderSources :=
  match d.resolve root with
  | .ok l => .ok ⟨l, String.ofList (extension.toList.dropWhile (· == '.'))⟩
  | .error e => .error (.io e)

def fileName (f : FolderSources) (name : String) : String :=
  if f.extension.isEmpty then name else name ++ "." ++ f.extension

/-- The path of a name, wherever it leads. -/
def path (f : FolderSources) (name : String) : String := Path.join (Path.ofLocation f.root) (f.fileName name)

def locate (f : FolderSources) (name : String) (d : Disk) : Except TemplateError String :=
  match d.resolve (f.path name) with
  | .error _ => .error (.templateNotFound name (f.path name))
  | .ok l =>
    if !f.root.isPrefixOf l then .error (.pathEscape name (Path.ofLocation f.root))
    else match d.find? l with
      | some (.file ..) => .ok (Path.ofLocation l)
      | _ => .error (.templateNotFound name (Path.ofLocation l))

/-- The time of a file's last change; a time before the beginning of the count is its beginning. -/
def modified (identity : String) (d : Disk) : Option Stamp := (d.changed? identity).map fun t => ⟨t.toNat⟩

def read (f : FolderSources) (name : String) (d : Disk) : Except TemplateError String :=
  match f.locate name d with
  | .error e => .error e
  | .ok identity =>
    match d.read identity with
    | .ok s => .ok s
    | .error e => .error (.io e)

/-- The file name without its extension, if it has the right one. -/
def stem? (f : FolderSources) (file : String) : Option String :=
  if f.extension.isEmpty then some file
  else match Path.splitExtension file with
    | (stem, some extension) => if extension = f.extension then some stem else none
    | (_, none) => none

/-- The last part of a name. A stem that is a single dot would mean the folder itself, so the dot of the
extension stays with it. -/
def lastPart (stem : String) : String := if stem = "." then ".." else stem

/-- The name of a file as it is listed. -/
def nameOf? (f : FolderSources) (l : Location) : Option String :=
  let relative := l.drop f.root.length
  match relative.getLast? with
  | none => ((l.getLast?).bind f.stem?).map fun _ => ""
  | some file =>
    (f.stem? file).map fun stem => "/".intercalate (relative.dropLast ++ [lastPart stem])

def names (f : FolderSources) (d : Disk) : List String :=
  ((d.filesWithin f.root).filterMap f.nameOf?).mergeSort fun a b => !(b < a)

end FolderSources

namespace Library

/-- The library of the files below a folder. -/
def folder (f : FolderSources) : Library Disk where
  locate name := fun d => (f.locate name d, d)
  modified identity := fun d => (FolderSources.modified identity d, d)
  read name := fun d => (f.read name d, d)
  names := fun d => (.ok (f.names d), d)
  reach d := d.entries.length

end Library

end Stencil
