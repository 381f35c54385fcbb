import Mathlib.Data.List.TakeWhile
import Stencil.Text.Blank

/-!
What stripping takes off the ends of a text. Texts that differ only between characters that stay lose the same.
-/
namespace Stencil.Text

/-- What may be taken off the ends of a text. -/
def isOuter (c : Char) : Bool := isBlank c || c == byteOrderMark

theorem isOuter_of_isBlank (c : Char) (blank : isBlank c = true) : isOuter c = true :=
  Bool.or_eq_true_iff.mpr (.inl blank)

theorem isOuter_of_mark (c : Char) (mark : (c == byteOrderMark) = true) : isOuter c = true :=
  Bool.or_eq_true_iff.mpr (.inr mark)

/-- What is left of a text when something was taken off its ends. -/
structure Core (s front core back : List Char) : Prop where
  whole : s = front ++ (core ++ back)
  front : ∀ c ∈ front, isOuter c = true
  back : ∀ c ∈ back, isOuter c = true

/-- What may have been taken off the ends of a text: nothing, unless it was stripped. -/
structure Ends (strip : Bool) (front back : String) : Prop where
  outer : ∀ c ∈ front.toList ++ back.toList, isOuter c = true
  kept : strip = false → front = "" ∧ back = ""

section Core

variable {s core inner front back front' back' : List Char}

theorem Core.trans (outer : Core s front core back) (further : Core core front' inner back') :
    Core s (front ++ front') inner (back' ++ back) where
  whole := by rw [outer.whole, further.whole]; simp
  front := List.forall_mem_append.mpr ⟨outer.front, further.front⟩
  back := List.forall_mem_append.mpr ⟨further.back, outer.back⟩

theorem Core.reverse (outer : Core s front core back) :
    Core s.reverse back.reverse core.reverse front.reverse where
  whole := by rw [outer.whole]; simp
  front c mem := outer.back c (List.mem_reverse.mp mem)
  back c mem := outer.front c (List.mem_reverse.mp mem)

theorem core_dropWhile {p : Char → Bool} (outer : ∀ c, p c = true → isOuter c = true) (s : List Char) :
    Core s (s.takeWhile p) (s.dropWhile p) [] where
  whole := by rw [List.append_nil, List.takeWhile_append_dropWhile]
  front c mem := outer c (List.mem_takeWhile_imp mem)
  back c mem := by cases mem

end Core

/-! #### Texts that differ only inside -/

/-- A text at both ends of which there is a character that stays. -/
structure Solid (m : List Char) : Prop where
  first : ∃ c ∈ m.head?, isOuter c = false
  last : ∃ c ∈ m.getLast?, isOuter c = false

/-- Texts that differ only between characters that stay. -/
def EndAlike (s t : List Char) : Prop :=
  s = t ∨ ∃ front inner inner' back, Solid inner ∧ Solid inner' ∧
    s = front ++ (inner ++ back) ∧ t = front ++ (inner' ++ back)

section Ends

variable {m m' s t between : List Char}

theorem Solid.reverse (solid : Solid m) : Solid m.reverse where
  first := by rw [List.head?_reverse]; exact solid.last
  last := by rw [List.getLast?_reverse]; exact solid.first

theorem Solid.enclose (before : Solid m) (after : Solid m') : Solid (m ++ (between ++ m')) where
  first := by
    obtain ⟨c, head, stays⟩ := before.first
    exact ⟨c, by rw [List.head?_append, Option.mem_def.mp head]; rfl, stays⟩
  last := by
    obtain ⟨c, last, stays⟩ := after.last
    exact ⟨c, by rw [List.getLast?_append, List.getLast?_append, Option.mem_def.mp last]; rfl, stays⟩

theorem Solid.append (before : Solid m) (after : Solid m') : Solid (m ++ m') :=
  show Solid (m ++ ([] ++ m')) from before.enclose after

theorem EndAlike.reverse (alike : EndAlike s t) : EndAlike s.reverse t.reverse := by
  rcases alike with rfl | ⟨front, inner, inner', back, solid, solid', rfl, rfl⟩
  · exact .inl rfl
  · exact .inr ⟨back.reverse, inner.reverse, inner'.reverse, front.reverse, solid.reverse, solid'.reverse, by simp,
      by simp⟩

theorem EndAlike.append_left (alike : EndAlike s t) (before : List Char) : EndAlike (before ++ s) (before ++ t) := by
  rcases alike with rfl | ⟨front, inner, inner', back, solid, solid', rfl, rfl⟩
  · exact .inl rfl
  · exact .inr ⟨before ++ front, inner, inner', back, solid, solid', by simp, by simp⟩

theorem EndAlike.behind (alike : EndAlike s t) (solid : Solid m) (solid' : Solid m') :
    EndAlike (m ++ s) (m' ++ t) := by
  rcases alike with rfl | ⟨front, inner, inner', back, solid₁, solid₁', rfl, rfl⟩
  · exact .inr ⟨[], m, m', s, solid, solid', rfl, rfl⟩
  · exact .inr ⟨[], m ++ (front ++ inner), m' ++ (front ++ inner'), back, solid.enclose solid₁,
      solid'.enclose solid₁', by simp, by simp⟩

/-! #### What both lose -/

/-- From texts that differ only inside, the same is taken off, and what is left differs only inside. -/
structure Shortens (cut : List Char → List Char) : Prop where
  loses : ∀ {s t}, EndAlike s t → ∃ front back, Core s front (cut s) back ∧ Core t front (cut t) back
  keeps : ∀ {s t}, EndAlike s t → EndAlike (cut s) (cut t)

variable {cut cut' : List Char → List Char} {p : Char → Bool}

theorem Shortens.comp (first : Shortens cut) (further : Shortens cut') : Shortens fun s => cut' (cut s) where
  loses alike := by
    obtain ⟨front, back, core, core'⟩ := first.loses alike
    obtain ⟨front', back', inner, inner'⟩ := further.loses (first.keeps alike)
    exact ⟨_, _, core.trans inner, core'.trans inner'⟩
  keeps alike := further.keeps (first.keeps alike)

theorem Solid.stops (outer : ∀ c, p c = true → isOuter c = true) (solid : Solid m) (front back : List Char) :
    (front ++ (m ++ back)).dropWhile p = front.dropWhile p ++ (m ++ back) ∧
      (front ++ (m ++ back)).takeWhile p = front.takeWhile p := by
  obtain ⟨c, head, stays⟩ := solid.first
  obtain ⟨rest, rfl⟩ := List.head?_eq_some_iff.mp head
  have stops : ¬p c = true := fun drops => by
    rw [outer c drops] at stays
    cases stays
  induction front with
  | nil => simp [stops]
  | cons d front ih =>
    by_cases drops : p d = true
    · simp only [List.cons_append, List.dropWhile_cons, List.takeWhile_cons, drops, if_true] at ih ⊢
      exact ⟨ih.1, congrArg (d :: ·) ih.2⟩
    · simp only [List.cons_append, List.dropWhile_cons, List.takeWhile_cons, drops]
      exact ⟨rfl, rfl⟩

theorem shortens_dropWhile (outer : ∀ c, p c = true → isOuter c = true) : Shortens fun s => s.dropWhile p where
  loses {s t} alike := by
    refine ⟨s.takeWhile p, [], core_dropWhile outer s, ?_⟩
    have same : s.takeWhile p = t.takeWhile p := by
      rcases alike with rfl | ⟨front, inner, inner', back, solid, solid', rfl, rfl⟩
      · rfl
      · rw [(solid.stops outer front back).2, (solid'.stops outer front back).2]
    rw [same]
    exact core_dropWhile outer t
  keeps alike := by
    rcases alike with rfl | ⟨front, inner, inner', back, solid, solid', rfl, rfl⟩
    · exact .inl rfl
    · exact .inr ⟨front.dropWhile p, inner, inner', back, solid, solid', (solid.stops outer front back).1,
        (solid'.stops outer front back).1⟩

theorem Shortens.reverse (shortens : Shortens cut) : Shortens fun s => (cut s.reverse).reverse where
  loses {s t} alike := by
    obtain ⟨front, back, core, core'⟩ := shortens.loses alike.reverse
    have turned := core.reverse
    have turned' := core'.reverse
    rw [List.reverse_reverse] at turned turned'
    exact ⟨_, _, turned, turned'⟩
  keeps alike := (shortens.keeps alike.reverse).reverse

theorem shortens_dropWhileEnd (outer : ∀ c, p c = true → isOuter c = true) : Shortens (dropWhileEnd p) :=
  (shortens_dropWhile outer).reverse

/-- Texts that differ only inside lose the same when they are stripped. -/
theorem shortens_strip : Shortens strip := by
  have trims : Shortens trim := (shortens_dropWhile isOuter_of_isBlank).comp (shortens_dropWhileEnd isOuter_of_isBlank)
  exact ((trims.comp (shortens_dropWhile isOuter_of_mark)).comp (shortens_dropWhileEnd isOuter_of_mark)).comp trims

theorem core_strip (s : List Char) : ∃ front back, Core s front (strip s) back := by
  obtain ⟨front, back, core, -⟩ := shortens_strip.loses (.inl rfl : EndAlike s s)
  exact ⟨front, back, core⟩

end Ends

end Stencil.Text
