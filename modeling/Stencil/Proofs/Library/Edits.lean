import Stencil.Proofs.Compile.Echo
import Stencil.World

/-!
Edits of the sources in memory. A stamp is given out once, so that a source which still has its stamp still has
its content, whatever has been edited since.
-/
namespace Stencil

inductive Edit where
  | add (name source : String)
  | touch (name : String)
  | remove (name : String)

namespace Edit

def make : Edit → MemorySources → MemorySources
  | add name source, s => s.add name source
  | touch name, s => s.touch name
  | remove name, s => s.remove name

def name : Edit → String
  | add name _ => name
  | touch name => name
  | remove name => name

end Edit

namespace MemorySources

/-- No stamp is in use that has not been given out, and no edit waits. -/
structure Sound (s : MemorySources) : Prop where
  stamps : ∀ name entry, Keyed.get? name s.entries = some entry → entry.2.value ≤ s.revision
  settled : s.laidUp = []

/-- Sources that have come from others by edits: what is new has a stamp that was not given out before. -/
structure Later (before now : MemorySources) : Prop where
  revision : before.revision ≤ now.revision
  entries : ∀ name entry, Keyed.get? name now.entries = some entry →
    Keyed.get? name before.entries = some entry ∨ before.revision < entry.2.value

variable {s before middle now : MemorySources}

theorem sound_empty : Sound empty := ⟨fun _ _ found => (by cases found), rfl⟩

theorem Later.refl (s : MemorySources) : Later s s := ⟨Nat.le_refl _, fun _ _ found => Or.inl found⟩

theorem Later.trans (first : Later before middle) (second : Later middle now) : Later before now := by
  have grown := first.revision
  refine ⟨Nat.le_trans grown second.revision, fun name entry found => ?_⟩
  rcases second.entries name entry found with kept | new
  · exact first.entries name entry kept
  · exact Or.inr (by omega)

/-- A source with a stamp that it had before has the content that it had then. -/
theorem Later.same_of_stamp (later : Later before now) (sound : Sound before) {identity source : String}
    {stamp : Stamp} (then' : Keyed.get? identity before.entries = some (source, stamp))
    (still : now.modified identity = some stamp) : Keyed.get? identity now.entries = some (source, stamp) := by
  obtain ⟨entry, found, same⟩ := Option.map_eq_some_iff.mp still
  subst same
  rcases later.entries identity entry found with kept | new
  · rw [found, ← kept, then']
  · have old := sound.stamps identity _ then'
    exact absurd new (by simpa using old)

/-- The changes that an edit makes. -/
theorem edit_cases (e : Edit) (s : MemorySources) :
    (e.make s).laidUp = s.laidUp ∧
    (s.revision ≤ (e.make s).revision ∧ (e.make s).revision ≤ s.revision + 1) ∧
    ∀ name entry, Keyed.get? name (e.make s).entries = some entry →
      Keyed.get? name s.entries = some entry ∨
      entry.2 = s.nextStamp ∧ (e.make s).revision = s.revision + 1 := by
  have put : ∀ (name : String) (new : String × Stamp), new.2 = s.nextStamp → ∀ other entry,
      Keyed.get? other (Keyed.put name new s.entries) = some entry →
        Keyed.get? other s.entries = some entry ∨ entry.2 = s.nextStamp := by
    intro name new stamped other entry found
    rcases Keyed.get?_put found with ⟨-, same⟩ | ⟨-, kept⟩
    · exact Or.inr (by rw [same, stamped])
    · exact Or.inl kept
  cases e with
  | add name source =>
    refine ⟨rfl, ⟨Nat.le_succ _, Nat.le_refl _⟩, fun other entry found => ?_⟩
    exact (put name (source, s.nextStamp) rfl other entry found).imp_right fun h => ⟨h, rfl⟩
  | touch name =>
    unfold Edit.make touch
    dsimp only
    cases known : Keyed.get? name s.entries with
    | none => exact ⟨rfl, ⟨Nat.le_succ _, Nat.le_refl _⟩, fun other entry found => Or.inl found⟩
    | some old =>
      refine ⟨rfl, ⟨Nat.le_succ _, Nat.le_refl _⟩, fun other entry found => ?_⟩
      exact (put name (old.1, s.nextStamp) rfl other entry found).imp_right fun h => ⟨h, rfl⟩
  | remove name =>
    refine ⟨rfl, ⟨Nat.le_refl _, Nat.le_succ _⟩, fun other entry found => ?_⟩
    exact Or.inl (Keyed.get?_erase found).2

theorem Sound.edit (sound : Sound s) (e : Edit) : Sound (e.make s) := by
  obtain ⟨settled, ⟨low, -⟩, entries⟩ := edit_cases e s
  refine ⟨fun name entry found => ?_, settled.trans sound.settled⟩
  rcases entries name entry found with kept | ⟨stamped, counted⟩
  · exact Nat.le_trans (sound.stamps name entry kept) low
  · rw [stamped, counted]
    exact Nat.le_refl _

theorem later_edit (e : Edit) (s : MemorySources) : Later s (e.make s) := by
  obtain ⟨-, ⟨low, -⟩, entries⟩ := edit_cases e s
  refine ⟨low, fun name entry found => ?_⟩
  rcases entries name entry found with kept | ⟨stamped, -⟩
  · exact Or.inl kept
  · exact Or.inr (by rw [stamped]; exact Nat.lt_succ_self _)

/-- Only an edit's own name comes to the sources. -/
theorem known_edit (e : Edit) (s : MemorySources) {name : String} (h : name ∈ Keyed.keys (e.make s).entries) :
    name = e.name ∨ name ∈ Keyed.keys s.entries := by
  cases e with
  | add other source => exact Keyed.mem_keys_put.mp h
  | touch other =>
    unfold Edit.make touch at h
    dsimp only at h
    cases known : Keyed.get? other s.entries with
    | none =>
      rw [known] at h
      exact Or.inr h
    | some old =>
      rw [known] at h
      exact Keyed.mem_keys_put.mp h
  | remove other =>
    obtain ⟨entry, mem, same⟩ := List.mem_map.mp h
    exact Or.inr (List.mem_map.mpr ⟨entry, (List.mem_filter.mp mem).1, same⟩)

end MemorySources

/-- Sources in memory for which no edit waits are left alone by the library. -/
theorem Library.memory_holds {w : World} (settled : w.sources.laidUp = []) :
    (Library.memory.onPart World.sourcesPart).Holds w w.sources.entries := by
  constructor
  case locate =>
    intro name
    rfl
  case modified =>
    intro identity
    rfl
  case read =>
    intro name
    show ((w.sources.read name).1, { w with sources := (w.sources.read name).2 }) = _
    unfold MemorySources.read
    cases Keyed.get? name w.sources.entries with
    | none => rfl
    | some entry =>
      dsimp only
      unfold MemorySources.makeEdit
      rw [settled]
      rfl
  case reach => exact Nat.le_add_right _ _

end Stencil
