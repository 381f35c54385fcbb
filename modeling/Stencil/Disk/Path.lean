/-!
Names of files. A path as written is text and may go anywhere; a location is the list of folder names that lead
from the top of the disk to one place.
-/
namespace Stencil

/-- The folders on the way from the top, the last part being the file or folder itself. -/
abbrev Location := List String

namespace Path

/-- The location as an absolute path. -/
def ofLocation (l : Location) : String := "/" ++ "/".intercalate l

def isAbsolute (path : String) : Bool := path.toList.head? == some '/'

/-- A path continued by another one, which replaces it if it is absolute. -/
def join (base more : String) : String :=
  if isAbsolute more || base.isEmpty then more
  else if base.toList.getLast? == some '/' then base ++ more
  else base ++ "/" ++ more

/-- The text between the slashes. -/
def segmentsFrom (current : List Char) : List Char → List String
  | [] => [String.ofList current.reverse]
  | c :: s =>
    if c = '/' then String.ofList current.reverse :: segmentsFrom [] s
    else segmentsFrom (c :: current) s

def segments (path : String) : List String := segmentsFrom [] path.toList

/-- The stem and the extension of a file name, which is what follows the last dot unless that is in front. -/
def splitExtension (name : String) : String × Option String :=
  let (after, before) := name.toList.reverse.span (· ≠ '.')
  match before with
  | _ :: stem =>
    if stem.isEmpty || name == ".." then (name, none)
    else (String.ofList stem.reverse, some (String.ofList after.reverse))
  | [] => (name, none)

end Path

end Stencil
