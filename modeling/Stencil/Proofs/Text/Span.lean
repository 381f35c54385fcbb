import Mathlib.Data.List.TakeDrop
import Mathlib.Data.List.TakeWhile
import Stencil.Main

/-!
The longest front of a text that is made of characters of one kind.
-/
namespace Stencil

/-- The text does not go on with a character of this kind. -/
def Bars (p : Char → Bool) (s : List Char) : Prop := ∀ c ∈ s.head?, p c = false

theorem Bars.cons {p : Char → Bool} {c : Char} (h : p c = false) (s : List Char) : Bars p (c :: s) := by
  intro d hd
  simp at hd
  rwa [← hd]

theorem span_parts {p : Char → Bool} {s used rest : List Char} (h : s.span p = (used, rest)) :
    s = used ++ rest ∧ (∀ c ∈ used, p c = true) ∧ Bars p rest := by
  rw [List.span_eq_takeWhile_dropWhile] at h
  obtain ⟨rfl, rfl⟩ := Prod.mk.inj h
  refine ⟨(List.takeWhile_append_dropWhile).symm, ?_, ?_⟩
  · intro c hc
    exact List.mem_takeWhile_imp hc
  · intro c hc
    have := List.head?_dropWhile_not p s
    simp_all

theorem span_append {p : Char → Bool} {used : List Char} (h : ∀ c ∈ used, p c = true) {rest : List Char}
    (bar : Bars p rest) : (used ++ rest).span p = (used, rest) := by
  rw [List.span_eq_takeWhile_dropWhile, List.takeWhile_append_of_pos h, List.dropWhile_append_of_pos h]
  cases rest with
  | nil => simp
  | cons c rest =>
    have hc : p c = false := bar c (by simp)
    simp [hc]

end Stencil
