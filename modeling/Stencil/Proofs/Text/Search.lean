import Mathlib.Data.List.Infix
import Stencil.Text.Search

/-!
What is found when a text is searched for a mark: the first place where the mark stands, if it stands anywhere.
-/
namespace Stencil.Text

variable {mark s before rest : List Char}

theorem after?_isSome_iff (mark s : List Char) : (after? mark s).isSome ↔ ∃ rest, s = mark ++ rest := by
  constructor
  · intro h
    obtain ⟨rest, hr⟩ := Option.isSome_iff_exists.mp h
    exact ⟨rest, eq_append_of_after? hr⟩
  · rintro ⟨rest, rfl⟩
    simp [after?_append]

theorem no_infix_tail {c : Char} (h : ¬ mark <:+: c :: s) : ¬ mark <:+: s :=
  fun inner => h (inner.trans (List.suffix_cons c s).isInfix)

theorem after?_none_of_no_infix (h : ¬ mark <:+: s) : after? mark s = none := by
  cases found : after? mark s with
  | none => rfl
  | some rest =>
    rw [eq_append_of_after? found] at h
    exact absurd (List.prefix_append _ _).isInfix h

theorem splitAt?_none_of_no_infix (h : ¬ mark <:+: s) : splitAt? mark s = none := by
  induction s with
  | nil => rw [splitAt?, after?_none_of_no_infix h, Option.map_none]
  | cons c s ih => simp [splitAt?, after?_none_of_no_infix h, ih (no_infix_tail h)]

theorem no_infix_of_splitAt?_none (h : splitAt? mark s = none) : ¬ mark <:+: s := by
  induction s with
  | nil =>
    intro inner
    rw [List.infix_nil.mp inner] at h
    cases h
  | cons c s ih =>
    simp only [splitAt?] at h
    split at h
    · simp at h
    · rename_i none
      rintro ⟨before, rest, same⟩
      cases before with
      | nil =>
        have found := (after?_isSome_iff mark (c :: s)).mpr ⟨rest, by simpa using same.symm⟩
        simp [none] at found
      | cons d before =>
        have inner : mark <:+: s := ⟨before, rest, by simpa using (List.cons.inj same).2⟩
        exact ih (by simpa using h) inner

/-- The mark stands behind `before`, and at no place before that. -/
def FirstAt (mark s before rest : List Char) : Prop :=
  s = before ++ mark ++ rest ∧ ∀ front back, s = front ++ mark ++ back → before.length ≤ front.length

theorem firstAt_of_splitAt? (found : splitAt? mark s = some (before, rest)) : FirstAt mark s before rest := by
  refine ⟨eq_append_of_splitAt? found, fun front back there => ?_⟩
  induction s generalizing before front with
  | nil =>
    have whole := (eq_append_of_splitAt? found).symm
    simp only [List.append_eq_nil_iff] at whole
    rw [whole.1.1]
    exact Nat.zero_le _
  | cons c s ih =>
    rw [splitAt?] at found
    split at found
    · cases found
      exact Nat.zero_le _
    · rename_i missed
      obtain ⟨⟨before', rest'⟩, found', same⟩ := Option.map_eq_some_iff.mp found
      cases same
      cases front with
      | nil =>
        have here := (after?_isSome_iff mark (c :: s)).mpr ⟨back, by simpa using there⟩
        rw [missed] at here
        cases here
      | cons d front =>
        exact Nat.succ_le_succ (ih found' front (List.cons.inj there).2)

/-- The mark does not stand in the text before its first place. -/
theorem no_infix_before (written : mark ≠ []) (found : splitAt? mark s = some (before, rest)) : ¬ mark <:+: before := by
  rintro ⟨front, back, same⟩
  obtain ⟨whole, least⟩ := firstAt_of_splitAt? found
  have earlier : s = front ++ mark ++ (back ++ mark ++ rest) := by
    rw [whole, ← same]
    simp
  have long := congrArg List.length same
  have short := least front _ earlier
  have some' := List.length_pos_of_ne_nil written
  simp only [List.length_append] at long
  omega

theorem splitAt?_of_firstAt (first : FirstAt mark s before rest) : splitAt? mark s = some (before, rest) := by
  obtain ⟨whole, least⟩ := first
  cases found : splitAt? mark s with
  | none => exact absurd ⟨before, rest, whole.symm⟩ (no_infix_of_splitAt?_none found)
  | some parts =>
    obtain ⟨before', rest'⟩ := parts
    obtain ⟨whole', least'⟩ := firstAt_of_splitAt? found
    have long := Nat.le_antisymm (least before' rest' whole') (least' before rest whole)
    rw [whole, List.append_assoc, List.append_assoc] at whole'
    obtain ⟨rfl, same⟩ := List.append_inj whole' long
    rw [List.append_cancel_left same]

end Stencil.Text
