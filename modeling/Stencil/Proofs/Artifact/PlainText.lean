import Stencil.Proofs.Artifact.Stripping

/-!
Artifacts of texts alone. Stripping takes as much off such an artifact as off the text itself: where the artifact and
its text part, there is code on one side and on the other a character that stripping stops at. So the program of the
stripped artifact writes the stripped text.
-/
namespace Stencil.Artifact

open Written (opener closer printOpener printMark charsFrom)
open Text (EndAlike Solid)

section Spelling

variable {text a b : List Char} {ts : List Token}

theorem Spells.front (spells : Spells text (textToken (a ++ b) ++ ts)) :
    ∃ rest, text = a ++ rest ∧ Spells rest (textToken b ++ ts) := by
  by_cases empty : a ++ b = []
  · obtain ⟨rfl, rfl⟩ := List.append_eq_nil_iff.mp empty
    exact ⟨text, rfl, spells⟩
  · have one : textToken (a ++ b) = [.text (String.ofList (a ++ b))] := if_neg (by simpa using empty)
    rw [one, List.singleton_append] at spells
    generalize same : String.ofList (a ++ b) = whole at spells
    cases spells with
    | text s tail =>
      cases String.ofList_injective same
      exact ⟨b ++ _, List.append_assoc .., (spells_textToken b).append tail⟩

theorem Spells.of_last_text {s : String} (spells : Spells text (ts ++ [.text s])) :
    ∃ rest, text = rest ++ s.toList ∧ Spells rest ts := by
  generalize whole : ts ++ [Token.text s] = tokens at spells
  induction spells generalizing ts with
  | nil => simp at whole
  | @text t us a tail ih =>
    cases ts with
    | nil =>
      obtain ⟨same, rfl⟩ := List.cons.inj whole
      cases same
      cases tail
      exact ⟨[], by simp, .nil⟩
    | cons first ts =>
      obtain ⟨rfl, more⟩ := List.cons.inj whole
      obtain ⟨rest, rfl, spells⟩ := ih more
      exact ⟨a ++ rest, by simp, .text a spells⟩
  | @echo t us a tail ih =>
    rcases ts with _ | ⟨first, _ | ⟨second, _ | ⟨third, ts⟩⟩⟩
    · simp at whole
    · simp at whole
    · simp at whole
    · simp only [List.cons_append, List.cons.injEq] at whole
      obtain ⟨rfl, rfl, rfl, more⟩ := whole
      obtain ⟨rest, rfl, spells⟩ := ih more
      exact ⟨a ++ rest, by simp, .echo a spells⟩
  | fragmentEnd tail ih =>
    cases ts with
    | nil => simp at whole
    | cons first ts =>
      obtain ⟨rfl, more⟩ := List.cons.inj whole
      obtain ⟨rest, same, spells⟩ := ih more
      exact ⟨rest, same, .fragmentEnd spells⟩

theorem Spells.back (spells : Spells text (ts ++ textToken (a ++ b))) :
    ∃ rest, text = rest ++ b ∧ Spells rest (ts ++ textToken a) := by
  by_cases empty : a ++ b = []
  · obtain ⟨rfl, rfl⟩ := List.append_eq_nil_iff.mp empty
    exact ⟨text, (List.append_nil text).symm, spells⟩
  · have one : textToken (a ++ b) = [.text (String.ofList (a ++ b))] := if_neg (by simpa using empty)
    rw [one] at spells
    obtain ⟨rest, rfl, before⟩ := spells.of_last_text
    exact ⟨rest ++ a, by simp, before.append (spells_textToken a)⟩

theorem Spells.core {artifact front core back : List Char} (spells : Spells text ts) (cuts : Cuts artifact ts)
    (outer : Text.Core artifact front core back) :
    ∃ us inner, Cuts core us ∧ Spells inner us ∧ text = front ++ (inner ++ back) := by
  obtain ⟨rfl, outerFront, outerBack⟩ := outer
  obtain ⟨before, us, rfl, behind⟩ := cuts.front outerFront
  obtain ⟨rest, rfl, left⟩ := spells.front
  obtain ⟨vs, after, same, middle⟩ := behind.back outerBack
  rw [same] at left
  obtain ⟨inner, rfl, spelled⟩ := left.back
  exact ⟨_, inner, middle, spelled, rfl⟩

end Spelling

/-! ### Texts and their artifacts -/

section Writing

variable {text : List Char} {ps out : List Segment}

/-- A text and what is written for it, outside of code and behind code. In code, a text that stays has been written. -/
theorem endAlike_of_breaks (breaks : Breaks text out) : EndAlike text (charsFrom false out) ∧
    ∀ {said code}, Solid said → Solid code → EndAlike (said ++ text) (code ++ charsFrom true out) := by
  have solidCloser : Solid closer := ⟨⟨'?', rfl, by decide⟩, ⟨'>', rfl, by decide⟩⟩
  have solidOpener : Solid opener := ⟨⟨'<', rfl, by decide⟩, ⟨'?', rfl, by decide⟩⟩
  have solidMark : Solid ['?'] := ⟨⟨'?', rfl, by decide⟩, ⟨'?', rfl, by decide⟩⟩
  have solidPrintOpener : Solid printOpener := ⟨⟨'e', rfl, by decide⟩, ⟨';', by decide, by decide⟩⟩
  have solidPrintMark : Solid printMark := ⟨⟨'e', rfl, by decide⟩, ⟨';', by decide, by decide⟩⟩
  -- printed marks open code behind which the text goes on, so both halves are carried along
  induction breaks with
  | nil =>
    -- the closer comes last, and what was said ends with a character that stays
    refine ⟨.inl rfl, fun {said code} solid solid' => .inr ⟨[], said, code ++ closer, [], solid,
      solid'.append solidCloser, by simp, ?_⟩⟩
    simp [charsFrom]
  | @text t out s _ ih =>
    refine ⟨ih.1.append_left s, fun {said code} solid solid' => ?_⟩
    have written : code ++ charsFrom true (.text s :: out) = (code ++ closer) ++ (s ++ charsFrom false out) := by
      simp [charsFrom]
    rw [written]
    exact (ih.1.append_left s).behind solid (solid'.append solidCloser)
  | @opener t out _ ih =>
    refine ⟨?_, fun {said code} solid solid' => ?_⟩
    · have written : charsFrom false (.code printOpener :: out) = (opener ++ printOpener) ++ charsFrom true out := rfl
      rw [written]
      exact ih.2 solidOpener (solidOpener.append solidPrintOpener)
    · have written : code ++ charsFrom true (.code printOpener :: out) = (code ++ printOpener) ++ charsFrom true out := by
        simp [charsFrom]
      rw [written, ← List.append_assoc]
      exact ih.2 (solid.append solidOpener) (solid'.append solidPrintOpener)
  | @mark t out _ ih =>
    refine ⟨?_, fun {said code} solid solid' => ?_⟩
    · have written : charsFrom false (.code printMark :: out) = (opener ++ printMark) ++ charsFrom true out := rfl
      rw [written]
      exact ih.2 solidMark (solidOpener.append solidPrintMark)
    · have written : code ++ charsFrom true (.code printMark :: out) = (code ++ printMark) ++ charsFrom true out := by
        simp [charsFrom]
      rw [written, List.append_cons]
      exact ih.2 (solid.append solidMark) (solid'.append solidPrintMark)

theorem breaks_of_renders (renders : Renders ps out) (plain : runText? ps = some text) : Breaks text out := by
  induction renders generalizing text with
  | nil =>
    cases plain
    exact .nil
  | text breaks _ ih =>
    obtain ⟨rest, more, rfl⟩ := Option.map_eq_some_iff.mp plain
    exact breaks.append (ih more)
  | empty _ ih => exact ih plain
  | code full _ _ =>
    rw [runText?, if_neg (by simpa using full)] at plain
    cases plain

/-- Text and what is written for it differ only inside. -/
theorem endAlike_chars (plain : runText? ps = some text) : EndAlike text (Written.ofPieces ps).chars := by
  obtain ⟨out, written, -, renders⟩ := ofPieces_renders ps
  rw [written, Written.chars, List.reverse_reverse]
  exact (endAlike_of_breaks (breaks_of_renders renders plain)).1

theorem allPieces_of_runText? (plain : runText? ps = some text) : ∀ c, .code c ∈ ps → c = [] ∨ ∃ own, Piece c own := by
  intro c mem
  obtain ⟨run, rest, rfl⟩ := List.append_of_mem mem
  refine .inl (Classical.not_not.mp fun some => ?_)
  rw [runText?_code some] at plain
  cases plain

/-- The artifact of a text, stripped or not, is read as statements that write the text, stripped or not. -/
theorem exists_parse_of_texts (plain : runText? ps = some text) (strip : Bool) :
    ∃ stmts, parseStatements ((Written.ofPieces ps).finish strip) = .ok stmts ∧
      ∀ fs, execAll fs stmts = Run.write (String.ofList (if strip then Text.strip text else text)) := by
  obtain ⟨ts, scanned, conveys⟩ := scan_ofPieces (allPieces_of_runText? plain)
  have spells := conveys.spelled plain
  cases strip with
  | false =>
    obtain ⟨stmts, lays, writes⟩ := spells.lays
    exact ⟨stmts, parseStatements_of_lays scanned lays, writes⟩
  | true =>
    -- text and artifact lose the same ends, so what is left of the one spells what is left of the other
    obtain ⟨front, back, core, core'⟩ := Text.shortens_strip.loses (endAlike_chars plain)
    have cuts := (scan_iff _ ts).mp scanned
    unfold Written.finish at cuts
    rw [if_neg Bool.false_ne_true, String.toList_ofList] at cuts
    obtain ⟨us, inner, cuts', spells', whole⟩ := spells.core cuts core'
    have same : inner = Text.strip text := by
      have parts := List.append_cancel_left (whole.symm.trans core.whole)
      exact List.append_cancel_right parts
    subst same
    obtain ⟨stmts, lays, writes⟩ := spells'.lays
    refine ⟨stmts, parseStatements_of_lays ((scan_iff _ us).mpr ?_) lays, writes⟩
    unfold Written.finish
    rw [if_pos rfl, String.toList_ofList]
    exact cuts'

end Writing

end Stencil.Artifact
