import Stencil.Keyed
import Stencil.Library.Basic

/-!
Libraries under watch. Every question that a library is asked is written down with its answer, so that what a
compilation has read can be told from the log, whatever the library does.
-/
namespace Stencil

namespace Keyed

variable {α : Type}

/-- Puts things one after the other. -/
def putAll (things table : Keyed α) : Keyed α := things.foldl (fun table d => put d.1 d.2 table) table

theorem putAll_append (first second table : Keyed α) :
    putAll (first ++ second) table = putAll second (putAll first table) := List.foldl_append

theorem mem_putAll {things table : Keyed α} {d : String × α} (h : d ∈ putAll things table) :
    d ∈ things ∨ d ∈ table := by
  induction things generalizing table with
  | nil => exact .inr h
  | cons first others ih =>
    rcases ih h with later | now
    · exact .inl (List.mem_cons_of_mem _ later)
    · rcases mem_put now with rfl | before
      · exact .inl List.mem_cons_self
      · exact .inr before

theorem mem_keys_putAll {things table : Keyed α} {key : String} (h : key ∈ keys things ∨ key ∈ keys table) :
    key ∈ keys (putAll things table) := by
  induction things generalizing table with
  | nil => exact h.resolve_left List.not_mem_nil
  | cons first others ih =>
    refine ih ?_
    rcases h with put | before
    · rcases List.mem_cons.mp put with rfl | later
      · exact .inr (mem_keys_put.mpr (.inl rfl))
      · exact .inl later
    · exact .inr (mem_keys_put.mpr (.inr before))

theorem nodup_keys_put {key : String} {a : α} {table : Keyed α} (apart : (keys table).Nodup) :
    (keys (put key a table)).Nodup := by
  rw [keys_put]
  split
  · exact apart
  · rename_i new
    rw [List.nodup_append]
    exact ⟨apart, List.pairwise_singleton .., fun k mem k' last same =>
      new (List.mem_singleton.mp last ▸ same ▸ mem)⟩

theorem nodup_keys_putAll {things table : Keyed α} (apart : (keys table).Nodup) :
    (keys (putAll things table)).Nodup := by
  induction things generalizing table with
  | nil => exact apart
  | cons first others ih => exact ih (nodup_keys_put apart)

theorem exists_get?_of_mem_keys {table : Keyed α} {key : String} (h : key ∈ keys table) :
    ∃ a, get? key table = some a := by
  induction table with
  | nil => cases h
  | cons first table ih =>
    obtain ⟨k, b⟩ := first
    by_cases same : k = key
    · exact ⟨b, by simp [get?, same]⟩
    · obtain ⟨a, found⟩ := ih ((List.mem_cons.mp h).resolve_left fun here => same here.symm)
      exact ⟨a, by simp [get?, same, found]⟩

end Keyed

/-- A question to a library, with its answer. -/
inductive Query where
  | located (name : String) (answer : Except TemplateError String)
  | stamped (identity : String) (answer : Option Stamp)
  | given (name : String) (answer : Except TemplateError String)

/-- A world, and what its library was asked so far. -/
structure Watched (W : Type) where
  world : W
  log : List Query

namespace Library

variable {W : Type}

/-- Lets a library answer and writes the question down. -/
def note {α : Type} (query : α → Query) (act : StateM W α) : StateM (Watched W) α := fun s =>
  let (a, world) := act s.world
  (a, ⟨world, s.log ++ [query a]⟩)

theorem note_apply {α : Type} {query : α → Query} {act : StateM W α} {s : Watched W} {a : α} {w : W}
    (acted : act s.world = (a, w)) : note query act s = (a, ⟨w, s.log ++ [query a]⟩) := by
  unfold note
  rw [acted]

/-- A library that answers as before, under watch. -/
def watched (lib : Library W) : Library (Watched W) where
  locate name := note (.located name) (lib.locate name)
  modified identity := note (.stamped identity) (lib.modified identity)
  read name := note (.given name) (lib.read name)
  names := fun s => ((lib.names s.world).1, ⟨(lib.names s.world).2, s.log⟩)
  reach s := lib.reach s.world

end Library

/-- What is asked on behalf of one template. -/
inductive Inquiry where
  /-- There is no such template. -/
  | unknown (name : String) (e : TemplateError)
  /-- The template is being read, or has been read. -/
  | known (name identity : String)
  /-- The text is not given out. -/
  | missing (name identity : String) (stamp : Option Stamp) (e : TemplateError)
  | reading (name identity : String) (stamp : Option Stamp) (text : String)

namespace Inquiry

/-- The questions of an inquiry, in order. A stamp is taken before the text. -/
def questions : Inquiry → List Query
  | unknown name e => [.located name (.error e)]
  | known name identity => [.located name (.ok identity)]
  | missing name identity stamp e =>
    [.located name (.ok identity), .stamped identity stamp, .given name (.error e)]
  | reading name identity stamp text =>
    [.located name (.ok identity), .stamped identity stamp, .given name (.ok text)]

/-- The source that an inquiry has read, with the stamp taken before. -/
def source? : Inquiry → Option (String × Option Stamp)
  | reading _ identity stamp _ => some (identity, stamp)
  | _ => none

/-- The sources that inquiries have read, in order. -/
def sources (inquiries : List Inquiry) : Keyed (Option Stamp) := inquiries.filterMap source?

theorem sources_append (first second : List Inquiry) : sources (first ++ second) = sources first ++ sources second :=
  List.filterMap_append

end Inquiry

end Stencil
