/-!
Finding a fixed text inside another.
-/
namespace Stencil.Text

/-- What follows `start` at the front of a text. -/
def after? : (start text : List Char) → Option (List Char)
  | [], text => some text
  | _ :: _, [] => none
  | a :: start, b :: text => if a = b then after? start text else none

/-- The text before and after the first place where `mark` stands. -/
def splitAt? (mark : List Char) : List Char → Option (List Char × List Char)
  | [] => (after? mark []).map (([], ·))
  | c :: text =>
    match after? mark (c :: text) with
    | some rest => some ([], rest)
    | none => (splitAt? mark text).map fun (before, rest) => (c :: before, rest)

theorem eq_append_of_after? {start text rest : List Char} (h : after? start text = some rest) :
    text = start ++ rest := by
  fun_induction after? start text with
  | case1 => simp_all
  | case2 => simp at h
  | case3 _ _ _ ih => simp [ih h]
  | case4 => simp at h

theorem after?_append (start rest : List Char) : after? start (start ++ rest) = some rest := by
  induction start with
  | nil => cases rest <;> rfl
  | cons a start ih => simp [after?, ih]

theorem eq_append_of_splitAt? {mark text before rest : List Char}
    (h : splitAt? mark text = some (before, rest)) : text = before ++ mark ++ rest := by
  induction text generalizing before with
  | nil =>
    simp only [splitAt?, Option.map_eq_some_iff] at h
    obtain ⟨r, hr, he⟩ := h
    cases he
    simpa using eq_append_of_after? hr
  | cons c text ih =>
    simp only [splitAt?] at h
    split at h
    · rename_i r hr
      cases h
      simpa using eq_append_of_after? hr
    · simp only [Option.map_eq_some_iff] at h
      obtain ⟨⟨b, r⟩, hr, he⟩ := h
      cases he
      simp [ih hr]

/-- Every non-overlapping occurrence of `mark`, from the left, gives way to `value`. The count bounds the
occurrences that are replaced. -/
def replaceFrom (mark value : List Char) : Nat → List Char → List Char
  | 0, text => text
  | n + 1, text =>
    match splitAt? mark text with
    | none => text
    | some (before, rest) => before ++ value ++ replaceFrom mark value n rest

/-- Every non-overlapping occurrence of the non-empty `mark` gives way to `value`. -/
def replace (mark value text : List Char) : List Char :=
  replaceFrom mark value text.length text

end Stencil.Text
