import Mathlib.Data.List.Induction
import Stencil.Proofs.Text.Stripping

/-!
How much stripping takes off. At either end it takes blanks, then byte order marks, then blanks again, and no more; so
a text in which blanks and marks alternate further keeps some of them, and loses them only when it is stripped again.
-/
namespace Stencil.Text

/-- Neither end is a blank or a byte order mark. -/
structure Bare (s : List Char) : Prop where
  first : ∀ c ∈ s.head?, isOuter c = false
  last : ∀ c ∈ s.getLast?, isOuter c = false

/-- Blanks, then byte order marks, then blanks; any of them may be missing. -/
def Layered (s : List Char) : Prop :=
  ∃ blanks marks inner, s = blanks ++ (marks ++ inner) ∧ (∀ c ∈ blanks, isBlank c = true) ∧
    (∀ c ∈ marks, (c == byteOrderMark) = true) ∧ ∀ c ∈ inner, isBlank c = true

/-- What stripping does at the front. -/
def stripStart (s : List Char) : List Char := trimStart ((trimStart s).dropWhile (· == byteOrderMark))

/-- What stripping does at the back. -/
def stripEnd (s : List Char) : List Char := (stripStart s.reverse).reverse

variable {p : Char → Bool} {s t run front core back : List Char}

/-! #### The two ends -/

theorem dropWhileEnd_concat (p : Char → Bool) (s : List Char) (c : Char) :
    dropWhileEnd p (s ++ [c]) = if p c = true then dropWhileEnd p s else s ++ [c] := by
  unfold dropWhileEnd
  rw [List.reverse_append, List.reverse_singleton, List.singleton_append, List.dropWhile_cons]
  split
  · rfl
  · rw [List.reverse_cons, List.reverse_reverse]

/-- It does not matter at which end one begins. -/
theorem dropWhileEnd_dropWhile (p q : Char → Bool) (s : List Char) :
    dropWhileEnd q (s.dropWhile p) = (dropWhileEnd q s).dropWhile p := by
  induction s using List.reverseRecOn with
  | nil => rfl
  | append_singleton s c ih =>
    rw [dropWhileEnd_concat, List.dropWhile_append]
    by_cases ends : q c = true
    · rw [if_pos ends, ← ih]
      split
      · rename_i empty
        rw [List.isEmpty_iff.mp empty]
        rcases Bool.eq_false_or_eq_true (p c) with starts | starts
        · simp [dropWhileEnd, starts]
        · simp [dropWhileEnd, starts, ends]
      · rw [dropWhileEnd_concat, if_pos ends]
    · rw [if_neg ends, List.dropWhile_append]
      split
      · rcases Bool.eq_false_or_eq_true (p c) with starts | starts
        · simp [dropWhileEnd, starts]
        · simp [dropWhileEnd, starts, ends]
      · rw [dropWhileEnd_concat, if_neg ends]

theorem strip_eq (s : List Char) : strip s = stripEnd (stripStart s) := by
  have ends : ∀ s, stripEnd s = trimEnd (dropWhileEnd (· == byteOrderMark) (trimEnd s)) := by
    intro s
    simp [stripEnd, stripStart, trimEnd, trimStart, dropWhileEnd]
  unfold strip trim
  rw [ends]
  unfold stripStart trimEnd trimStart
  rw [← dropWhileEnd_dropWhile, ← dropWhileEnd_dropWhile, ← dropWhileEnd_dropWhile]

/-! #### Layers -/

theorem Layered.outer (layered : Layered run) : ∀ c ∈ run, isOuter c = true := by
  obtain ⟨blanks, marks, inner, rfl, first, middle, last⟩ := layered
  refine List.forall_mem_append.mpr ⟨fun c mem => isOuter_of_isBlank c (first c mem), ?_⟩
  exact List.forall_mem_append.mpr
    ⟨fun c mem => isOuter_of_mark c (middle c mem), fun c mem => isOuter_of_isBlank c (last c mem)⟩

theorem Layered.reverse (layered : Layered run) : Layered run.reverse := by
  obtain ⟨blanks, marks, inner, rfl, first, middle, last⟩ := layered
  refine ⟨inner.reverse, marks.reverse, blanks.reverse, by simp, ?_, ?_, ?_⟩
  · exact fun c mem => last c (List.mem_reverse.mp mem)
  · exact fun c mem => middle c (List.mem_reverse.mp mem)
  · exact fun c mem => first c (List.mem_reverse.mp mem)

/-- What is taken off at the front is layered. -/
theorem exists_layered_stripStart (s : List Char) : ∃ run, Layered run ∧ s = run ++ stripStart s := by
  let blank := trimStart s
  let unmarked := blank.dropWhile (· == byteOrderMark)
  refine ⟨s.takeWhile isBlank ++ (blank.takeWhile (· == byteOrderMark) ++ unmarked.takeWhile isBlank),
    ⟨_, _, _, rfl, ?_, ?_, ?_⟩, ?_⟩
  · exact fun c mem => List.mem_takeWhile_imp mem
  · exact fun c mem => List.mem_takeWhile_imp (p := (· == byteOrderMark)) mem
  · exact fun c mem => List.mem_takeWhile_imp mem
  · have inner : unmarked = unmarked.takeWhile isBlank ++ stripStart s := List.takeWhile_append_dropWhile.symm
    have marks : blank = blank.takeWhile (· == byteOrderMark) ++ unmarked := List.takeWhile_append_dropWhile.symm
    have blanks : s = s.takeWhile isBlank ++ blank := List.takeWhile_append_dropWhile.symm
    rw [List.append_assoc, List.append_assoc, ← inner, ← marks, ← blanks]

theorem dropWhile_suffix_dropWhile (h : s <:+ t) : s.dropWhile p <:+ t.dropWhile p := by
  obtain ⟨front, rfl⟩ := h
  rw [List.dropWhile_append]
  split
  · exact List.suffix_rfl
  · exact (List.dropWhile_suffix p).trans (List.suffix_append _ _)

/-- All layers at the front are taken off, and perhaps more. -/
theorem Layered.stripStart_suffix (layered : Layered run) (t : List Char) : stripStart (run ++ t) <:+ t := by
  obtain ⟨blanks, marks, inner, rfl, first, middle, last⟩ := layered
  unfold stripStart trimStart
  rw [List.append_assoc, List.append_assoc, List.dropWhile_append_of_pos first]
  have unblanked : (marks ++ (inner ++ t)).dropWhile isBlank <:+ marks ++ (inner ++ t) := List.dropWhile_suffix _
  have unmarked := dropWhile_suffix_dropWhile (p := (· == byteOrderMark)) unblanked
  rw [List.dropWhile_append_of_pos middle] at unmarked
  have stripped := dropWhile_suffix_dropWhile (p := isBlank) (unmarked.trans (List.dropWhile_suffix _))
  rw [List.dropWhile_append_of_pos last] at stripped
  exact stripped.trans (List.dropWhile_suffix _)

/-- Where something else follows the layers, no more is taken off. -/
theorem Layered.stripStart_append (layered : Layered run) (bare : ∀ c ∈ t.head?, isOuter c = false) :
    stripStart (run ++ t) = t := by
  obtain ⟨more, whole⟩ := layered.stripStart_suffix t
  cases more with
  | nil => exact whole
  | cons c more =>
    -- Whatever has been taken off is a blank or a mark, and the next character is not.
    obtain ⟨taken, layers, same⟩ := exists_layered_stripStart (run ++ t)
    have stays : isOuter c = false := bare c (by rw [← whole]; rfl)
    have goes : isOuter c = true := by
      refine layers.outer c ?_
      have longer : run ++ c :: more = taken := by
        have both : (run ++ c :: more) ++ stripStart (run ++ t) = taken ++ stripStart (run ++ t) := by
          rw [← same, List.append_assoc, whole]
        exact List.append_cancel_right both
      rw [← longer]
      exact List.mem_append_right _ List.mem_cons_self
    rw [stays] at goes
    cases goes

theorem Layered.append_stripEnd (layered : Layered run) (bare : ∀ c ∈ t.getLast?, isOuter c = false) :
    stripEnd (t ++ run) = t := by
  unfold stripEnd
  rw [List.reverse_append, layered.reverse.stripStart_append, List.reverse_reverse]
  rwa [List.head?_reverse]

/-! #### Stripping once, and twice -/

/-- The text is a bare one with layers at both ends. -/
def Wrapped (s core : List Char) : Prop :=
  Bare core ∧ ∃ front back, s = front ++ (core ++ back) ∧ Layered front ∧ Layered back

theorem Layered.nil : Layered [] := ⟨[], [], [], rfl, nofun, nofun, nofun⟩

theorem layered_singleton {c : Char} (outer : isOuter c = true) : Layered [c] := by
  rcases Bool.or_eq_true_iff.mp outer with blank | mark
  · exact ⟨[c], [], [], rfl, fun d mem => List.mem_singleton.mp mem ▸ blank, nofun, nofun⟩
  · exact ⟨[], [c], [], rfl, nofun, fun d mem => List.mem_singleton.mp mem ▸ mark, nofun⟩

theorem Layered.of_append (layered : Layered (front ++ back)) : Layered back := by
  obtain ⟨blanks, marks, inner, whole, first, middle, last⟩ := layered
  rcases List.append_eq_append_iff.mp whole with ⟨later, rfl, rfl⟩ | ⟨earlier, rfl, same⟩
  · exact ⟨later, marks, inner, rfl, fun c mem => first c (List.mem_append_right _ mem), middle, last⟩
  · rcases List.append_eq_append_iff.mp same with ⟨later, rfl, rfl⟩ | ⟨earlier, rfl, rfl⟩
    · exact ⟨[], [], back, rfl, nofun, nofun, fun c mem => last c (List.mem_append_right _ mem)⟩
    · exact ⟨[], earlier, inner, rfl, nofun, fun c mem => middle c (List.mem_append_right _ mem), last⟩

/-- What is taken off is layered at both ends. -/
theorem exists_layered_strip (s : List Char) :
    ∃ front back, s = front ++ (strip s ++ back) ∧ Layered front ∧ Layered back := by
  obtain ⟨front, first, whole⟩ := exists_layered_stripStart s
  obtain ⟨back, last, rest⟩ := exists_layered_stripStart (stripStart s).reverse
  refine ⟨front, back.reverse, ?_, first, last.reverse⟩
  have inner : stripStart s = strip s ++ back.reverse := by
    rw [strip_eq]
    simpa [stripEnd] using congrArg List.reverse rest
  rw [← inner, ← whole]

theorem Wrapped.strip_eq (wrapped : Wrapped s core) : strip s = core := by
  obtain ⟨bare, front, back, rfl, first, last⟩ := wrapped
  rw [Text.strip_eq]
  cases core with
  | nil =>
    -- The layers of the back may be taken off from both sides.
    obtain ⟨taken, whole⟩ := first.stripStart_suffix back
    rw [← whole] at last
    have left : Layered (stripStart (front ++ back)) := last.of_append
    exact left.append_stripEnd (t := []) (by simp)
  | cons c core =>
    rw [first.stripStart_append (t := c :: core ++ back) bare.first]
    exact last.append_stripEnd bare.last

theorem wrapped_strip_iff (s : List Char) : (∃ core, Wrapped s core) ↔ Bare (strip s) := by
  constructor
  · rintro ⟨core, wrapped⟩
    rw [wrapped.strip_eq]
    exact wrapped.1
  · exact fun bare => ⟨strip s, bare, exists_layered_strip s⟩

/-- A text that keeps its front does not begin with a blank or a mark. -/
theorem bare_of_stripStart (same : stripStart s = s) : ∀ c ∈ s.head?, isOuter c = false := by
  intro c head
  obtain ⟨t, rfl⟩ := List.head?_eq_some_iff.mp head
  refine Bool.eq_false_iff.mpr fun outer => ?_
  have shorter := ((layered_singleton outer).stripStart_suffix t).length_le
  rw [List.singleton_append, same, List.length_cons] at shorter
  omega

theorem bare_of_strip (same : strip s = s) : Bare s := by
  obtain ⟨front, first, whole⟩ := exists_layered_stripStart s
  obtain ⟨back, last, rest⟩ := exists_layered_stripStart (stripStart s).reverse
  have long := congrArg List.length whole
  have long' := congrArg List.length rest
  have long'' := congrArg List.length ((strip_eq s).symm.trans same)
  simp only [stripEnd, List.length_append, List.length_reverse] at long long' long''
  have kept : stripStart s = s := by
    have none : front = [] := List.length_eq_zero_iff.mp (by omega)
    rw [none] at whole
    exact whole.symm
  refine ⟨bare_of_stripStart kept, ?_⟩
  rw [← List.head?_reverse]
  refine bare_of_stripStart ?_
  rw [strip_eq, kept] at same
  exact List.reverse_eq_iff.mp same

/-- Stripping takes nothing but blanks and byte order marks off the ends of a text, at either end blanks, then marks,
then blanks. So it leaves a text that begins or ends with neither of them, and that is not changed when it is stripped
again, just in case no more than these layers stand around such a text. -/
theorem stripping_takes_three_layers (s : List Char) :
    (∃ front back, Core s front (strip s) back ∧ Layered front ∧ Layered back) ∧
      (Bare (strip s) ↔ ∃ core, Wrapped s core) ∧ (strip (strip s) = strip s ↔ ∃ core, Wrapped s core) := by
  obtain ⟨front, back, whole, first, last⟩ := exists_layered_strip s
  refine ⟨⟨front, back, ⟨whole, first.outer, last.outer⟩, first, last⟩, (wrapped_strip_iff s).symm, ?_⟩
  rw [wrapped_strip_iff]
  constructor
  · exact bare_of_strip
  · exact fun bare => Wrapped.strip_eq ⟨bare, [], [], by simp, .nil, .nil⟩

/-- A blank between two marks keeps the second one, until the text is stripped again. -/
example : strip "\uFEFF \uFEFFx".toList = "\uFEFFx".toList ∧ strip "\uFEFFx".toList = "x".toList := by decide

end Stencil.Text
