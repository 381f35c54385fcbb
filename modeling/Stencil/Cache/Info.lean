import Stencil.Json.Reader
import Stencil.Json.Writer
import Stencil.Library.Basic

/-!
What is written down beside an artifact on disk: the version of the compiler that made it and the sources it
was made from, as a JSON object.

Reading accepts the members in any order and passes over others; a member must not come twice, and objects may
also be written as lists of their members. A missing stamp is none.
-/
namespace Stencil

/-- The version of the compiler. Artifacts of another version are not used. -/
def compilerVersion : String := "0.1.0"

structure CacheInfo where
  version : String
  dependencies : List Dependency
  deriving DecidableEq

namespace CacheInfo

def stampJson : Option Stamp → Json
  | some stamp => .number (.ofInt stamp.value)
  | none => .null

def dependencyJson (d : Dependency) : Json :=
  .obj [("identity", .str d.identity), ("modified", stampJson d.stamp)]

def toJson (info : CacheInfo) : Json :=
  .obj [("version", .str info.version), ("dependencies", .arr (info.dependencies.map dependencyJson))]

def write (info : CacheInfo) : String := Json.write info.toJson

def readText? : Json → Option String
  | .str s => some s
  | _ => none

/-- A stamp is a whole number of at most 128 bits. -/
def readStamp? : Json → Option (Option Stamp)
  | .null => some none
  | .number n =>
    match n.negative, n.toInt? with
    | false, some i => if i.toNat < 0x100000000000000000000000000000000 then some (some ⟨i.toNat⟩) else none
    | _, _ => none
  | _ => none

/-- The members of an object under a key. -/
def membersOf (key : String) (members : List (String × Json)) : List Json :=
  (members.filter (·.1 = key)).map (·.2)

def readDependency? : Json → Option Dependency
  | .obj members =>
    match membersOf "identity" members, membersOf "modified" members with
    | [identity], [] => (readText? identity).map fun s => ⟨s, none⟩
    | [identity], [modified] =>
      match readText? identity, readStamp? modified with
      | some s, some stamp => some ⟨s, stamp⟩
      | _, _ => none
    | _, _ => none
  | .arr [identity, modified] =>
    match readText? identity, readStamp? modified with
    | some s, some stamp => some ⟨s, stamp⟩
    | _, _ => none
  | _ => none

def readDependencies? : Json → Option (List Dependency)
  | .arr items => items.mapM readDependency?
  | _ => none

def readParts? (version dependencies : Json) : Option CacheInfo :=
  match readText? version, readDependencies? dependencies with
  | some version, some dependencies => some ⟨version, dependencies⟩
  | _, _ => none

def ofJson? : Json → Option CacheInfo
  | .obj members =>
    match membersOf "version" members, membersOf "dependencies" members with
    | [version], [dependencies] => readParts? version dependencies
    | _, _ => none
  | .arr [version, dependencies] => readParts? version dependencies
  | _ => none

def parse? (s : String) : Option CacheInfo := (Json.parse? s).bind ofJson?

end CacheInfo

end Stencil
