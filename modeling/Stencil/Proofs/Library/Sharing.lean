import Stencil.Proofs.Library.Edits

/-!
Sources in memory that others edit while they are in use. The library may be asked several times for one template,
for its identity, its stamp and its text, and edits may come before each of these questions.
-/
namespace Stencil

/-- Makes edits one after the other. -/
def Edit.makeAll (edits : List Edit) (s : MemorySources) : MemorySources := edits.foldl (fun s e => e.make s) s

structure SharedSources where
  now : MemorySources
  /-- The edits that others make before each of the next questions. -/
  coming : List (List Edit)

namespace SharedSources

/-- The sources as they are by the time of the next question. -/
def turn (s : SharedSources) : SharedSources :=
  match s.coming with
  | [] => s
  | edits :: coming => ⟨Edit.makeAll edits s.now, coming⟩

end SharedSources

namespace Library

/-- The library of sources that others edit. -/
def shared : Library SharedSources where
  locate name := fun s => (s.turn.now.locate name, s.turn)
  modified identity := fun s => (s.turn.now.modified identity, s.turn)
  read name := fun s => ((s.turn.now.read name).1, { s.turn with now := (s.turn.now.read name).2 })
  names := fun s => (.ok s.turn.now.names, s.turn)
  reach s := s.now.entries.length + s.now.laidUp.length + s.coming.flatten.length

end Library

namespace MemorySources

variable {s : MemorySources}

theorem later_makeAll (edits : List Edit) (s : MemorySources) : Later s (Edit.makeAll edits s) := by
  induction edits generalizing s with
  | nil => exact Later.refl s
  | cons e edits ih => exact (later_edit e s).trans (ih (e.make s))

theorem Sound.makeAll (sound : Sound s) (edits : List Edit) : Sound (Edit.makeAll edits s) := by
  induction edits generalizing s with
  | nil => exact sound
  | cons e edits ih => exact ih (sound.edit e)

/-- A content that is there later under a stamp given out before was there all the time. -/
theorem Later.same_of_old {before now : MemorySources} (later : Later before now) {identity source source' : String}
    {stamp stamp' : Stamp} (then' : Keyed.get? identity before.entries = some (source', stamp'))
    (still : Keyed.get? identity now.entries = some (source, stamp)) (old : stamp.value ≤ before.revision) :
    source = source' := by
  rcases later.entries identity _ still with kept | new
  · rw [then'] at kept
    cases kept
    rfl
  · exact absurd new (Nat.not_lt.mpr old)

end MemorySources

namespace SharedSources

variable {s s' : SharedSources}

theorem later_turn (s : SharedSources) : s.now.Later s.turn.now := by
  unfold turn
  cases s.coming with
  | nil => exact .refl s.now
  | cons edits coming => exact MemorySources.later_makeAll edits s.now

theorem sound_turn (sound : s.now.Sound) : s.turn.now.Sound := by
  unfold turn
  cases s.coming with
  | nil => exact sound
  | cons edits coming => exact sound.makeAll edits

theorem locate_ok {name identity : String} (located : Library.shared.locate name s = (.ok identity, s')) :
    identity = name ∧ s' = s.turn := by
  obtain ⟨answer, rfl⟩ := Prod.mk.inj located
  unfold MemorySources.locate at answer
  split at answer
  · exact ⟨(Except.ok.inj answer).symm, rfl⟩
  · cases answer

theorem read_ok (sound : s.now.Sound) {name text : String} (read : Library.shared.read name s = (.ok text, s')) :
    s' = s.turn ∧ ∃ stamp, Keyed.get? name s.turn.now.entries = some (text, stamp) := by
  obtain ⟨answer, rfl⟩ := Prod.mk.inj read
  have settled := (sound_turn sound).settled
  unfold MemorySources.read at answer ⊢
  cases found : Keyed.get? name s.turn.now.entries with
  | none =>
    rw [found] at answer
    cases answer
  | some entry =>
    rw [found] at answer
    cases answer
    refine ⟨?_, entry.2, rfl⟩
    unfold MemorySources.makeEdit
    rw [settled]
    rfl

end SharedSources

end Stencil
