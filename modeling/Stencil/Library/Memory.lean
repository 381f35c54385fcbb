import Stencil.Keyed
import Stencil.Library.Basic

/-!
Sources held in memory. Every change takes the next stamp of one counter, so a stamp stands for one content.
An edit may be laid up for a source; it is made right after the source has been read the next time, as another
author might do while a template is being compiled.
-/
namespace Stencil

structure MemorySources where
  entries : Keyed (String × Stamp)
  /-- How many stamps have been given out. -/
  revision : Nat
  /-- Edits that wait for their source to be read. -/
  laidUp : Keyed String

namespace MemorySources

def empty : MemorySources := ⟨[], 0, []⟩

def nextStamp (s : MemorySources) : Stamp := ⟨s.revision + 1⟩

def add (name source : String) (s : MemorySources) : MemorySources :=
  { s with entries := Keyed.put name (source, s.nextStamp) s.entries, revision := s.revision + 1 }

/-- A new stamp for a source that stays as it is. -/
def touch (name : String) (s : MemorySources) : MemorySources :=
  let s' := { s with revision := s.revision + 1 }
  match Keyed.get? name s.entries with
  | some (source, _) => { s' with entries := Keyed.put name (source, s.nextStamp) s.entries }
  | none => s'

def remove (name : String) (s : MemorySources) : MemorySources :=
  { s with entries := Keyed.erase name s.entries }

/-- Lays up an edit of a source. -/
def editOnRead (name source : String) (s : MemorySources) : MemorySources :=
  { s with laidUp := Keyed.put name source s.laidUp }

def ofList (sources : List (String × String)) : MemorySources :=
  sources.foldl (fun s (name, source) => s.add name source) empty

def notFound (name : String) : TemplateError := .templateNotFound name ("memory:" ++ name)

def locate (name : String) (s : MemorySources) : Except TemplateError String :=
  if Keyed.has name s.entries then .ok name else .error (notFound name)

def modified (identity : String) (s : MemorySources) : Option Stamp :=
  (Keyed.get? identity s.entries).map (·.2)

/-- Makes the edit that waits for a source, if there is one. -/
def makeEdit (name : String) (s : MemorySources) : MemorySources :=
  match Keyed.get? name s.laidUp with
  | some source => { s with laidUp := Keyed.erase name s.laidUp }.add name source
  | none => s

def read (name : String) (s : MemorySources) : Except TemplateError String × MemorySources :=
  match Keyed.get? name s.entries with
  | some (source, _) => (.ok source, s.makeEdit name)
  | none => (.error (notFound name), s)

def names (s : MemorySources) : List String := (Keyed.keys s.entries).mergeSort fun a b => !(b < a)

end MemorySources

namespace Library

/-- The library of the sources in memory. A source's identity is its name. -/
def memory : Library MemorySources where
  locate name := fun s => (s.locate name, s)
  modified identity := fun s => (s.modified identity, s)
  read := MemorySources.read
  names := fun s => (.ok s.names, s)
  reach s := s.entries.length + s.laidUp.length

end Library

end Stencil
