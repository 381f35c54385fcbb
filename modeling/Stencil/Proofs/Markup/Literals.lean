import Stencil.Markup.Token
import Stencil.Proofs.Text.Span

/-!
Sources without tags. Outside of literal tags and between them everything is text, and the texts of such a source in
order are the source without its literal tags.
-/
namespace Stencil.Markup

/-- A text without its literal tags: an opening one goes with the next closing one. At most `count` pairs are taken
away. -/
def withoutLiteralsWithin : (count : Nat) → List Char → List Char
  | 0, s => s
  | count + 1, s =>
    match Text.splitAt? literalOpener s with
    | none => s
    | some (before, rest) =>
      match Text.splitAt? literalCloser rest with
      | none => s
      | some (inside, rest) => before ++ inside ++ withoutLiteralsWithin count rest

def withoutLiterals (source : String) : String :=
  String.ofList (withoutLiteralsWithin source.toList.length source.toList)

/-- All pieces of a source are text. -/
def Tagless (file source : String) : Prop := ∃ pieces, scan file source = .ok pieces ∧ ∀ t ∈ pieces, t.kind = .text

variable {s before rest : List Char} {c : Char}

theorem opensTag_of_literal (starts : Text.after? literalOpener (c :: s) = some rest) :
    (c = '\x7b' ∧ opensTag s = true) ∧ '\x7d' ∈ s := by
  have shape : c :: s = '\x7b' :: ("literal\x7d".toList ++ rest) := Text.eq_append_of_after? starts
  obtain ⟨rfl, rfl⟩ := List.cons.inj shape
  exact ⟨⟨rfl, by rfl⟩, List.mem_append_left _ (by decide)⟩

theorem splitAt?_of_not_opens (closed : ¬(c = '\x7b' ∧ opensTag s = true)) :
    Text.splitAt? literalOpener (c :: s) =
      (Text.splitAt? literalOpener s).map fun (before, rest) => (c :: before, rest) := by
  rw [Text.splitAt?]
  cases starts : Text.after? literalOpener (c :: s) with
  | none => rfl
  | some rest => exact absurd (opensTag_of_literal starts).1 closed

theorem splitAt?_of_not_mem (unclosed : '\x7d' ∉ s) : Text.splitAt? literalOpener s = none := by
  cases found : Text.splitAt? literalOpener s with
  | none => rfl
  | some parts =>
    rw [Text.eq_append_of_splitAt? found] at unclosed
    exact absurd (List.mem_append_left _ (List.mem_append_right _ (by decide))) unclosed

theorem nextTag?_of_not_opens (closed : ¬(c = '\x7b' ∧ opensTag s = true)) :
    nextTag? (c :: s) = (nextTag? s).map fun (before, tag, rest) => (c :: before, tag, rest) := by
  rw [nextTag?, if_neg closed]

/-- A tag ends at the first closing brace; without one there is none. -/
theorem nextTag?_of_opens (opens : opensTag s = true) :
    (∃ inside rest, s = inside ++ '\x7d' :: rest ∧
      nextTag? ('\x7b' :: s) = some ([], '\x7b' :: inside ++ ['\x7d'], rest)) ∨
    '\x7d' ∉ s ∧ nextTag? ('\x7b' :: s) = none := by
  rw [nextTag?, if_pos ⟨rfl, opens⟩]
  rcases parts : s.span (· ≠ '\x7d') with ⟨inside, rest⟩
  obtain ⟨whole, open', bar⟩ := span_parts parts
  cases rest with
  | nil =>
    refine .inr ⟨fun mem => ?_, rfl⟩
    rw [whole, List.append_nil] at mem
    exact absurd (open' _ mem) (by decide)
  | cons close rest =>
    have here : close = '\x7d' := by simpa using bar close (by simp)
    subst here
    exact .inl ⟨inside, rest, whole, rfl⟩

theorem splitAt?_of_nextTag?_none (tagless : nextTag? s = none) : Text.splitAt? literalOpener s = none := by
  induction s with
  | nil => rfl
  | cons c s ih =>
    by_cases opens : c = '\x7b' ∧ opensTag s = true
    · obtain ⟨rfl, opens⟩ := opens
      rcases nextTag?_of_opens opens with ⟨inside, rest, -, found⟩ | ⟨unclosed, -⟩
      · rw [found] at tagless
        cases tagless
      · refine splitAt?_of_not_mem fun mem => ?_
        rcases List.mem_cons.mp mem with same | mem
        · exact absurd same (by decide)
        · exact unclosed mem
    · rw [nextTag?_of_not_opens opens, Option.map_eq_none_iff] at tagless
      rw [splitAt?_of_not_opens opens, ih tagless]
      rfl

/-- If the first tag is a literal one, then it is the first place where a literal tag stands. -/
theorem splitAt?_of_nextTag? (found : nextTag? s = some (before, literalOpener, rest)) :
    Text.splitAt? literalOpener s = some (before, rest) := by
  induction s generalizing before with
  | nil => cases found
  | cons c s ih =>
    by_cases opens : c = '\x7b' ∧ opensTag s = true
    · obtain ⟨rfl, opens⟩ := opens
      rcases nextTag?_of_opens opens with ⟨inside, rest', whole, found'⟩ | ⟨-, missing⟩
      · obtain ⟨rfl, tag, rfl⟩ : [] = before ∧ '\x7b' :: inside ++ ['\x7d'] = literalOpener ∧ rest' = rest := by
          simpa using found'.symm.trans found
        have whole' : '\x7b' :: s = literalOpener ++ rest' := by
          rw [← tag, whole]
          simp
        rw [Text.splitAt?, whole', Text.after?_append]
      · cases missing.symm.trans found
    · rw [nextTag?_of_not_opens opens] at found
      obtain ⟨⟨before', tag, rest'⟩, found', same⟩ := Option.map_eq_some_iff.mp found
      cases same
      rw [splitAt?_of_not_opens opens, ih found']
      rfl

/-! #### The texts of a source -/

theorem kindOf_ne_text (tag : List Char) : kindOf tag ≠ .text := by
  unfold kindOf
  split <;> decide

theorem contents_textToken (s : List Char) (line : Nat) : (textToken s line).flatMap Token.content = s := by
  unfold textToken
  cases s with
  | nil => rfl
  | cons c s => simp [Token.content]

/-- If all pieces are text, they are what is left without the literal tags. -/
theorem contents_of_scanFrom {file : String} {count line : Nat} {pieces : List Token}
    (scanned : scanFrom file count line s = .ok pieces) (texts : ∀ t ∈ pieces, t.kind = .text) :
    pieces.flatMap Token.content = withoutLiteralsWithin count s := by
  induction count generalizing line s pieces with
  | zero =>
    cases scanned
    exact contents_textToken s line
  | succ count ih =>
    unfold scanFrom at scanned
    unfold withoutLiteralsWithin
    cases next : nextTag? s with
    | none =>
      rw [next] at scanned
      cases scanned
      rw [splitAt?_of_nextTag?_none next]
      exact contents_textToken s line
    | some parts =>
      obtain ⟨before, tag, rest⟩ := parts
      rw [next] at scanned
      dsimp only at scanned
      by_cases literal : tag = literalOpener
      · subst literal
        rw [if_pos rfl] at scanned
        rw [splitAt?_of_nextTag? next]
        dsimp only
        cases closing : Text.splitAt? literalCloser rest with
        | none =>
          rw [closing] at scanned
          cases scanned
        | some parts =>
          obtain ⟨inside, rest⟩ := parts
          rw [closing] at scanned
          dsimp only at scanned
          cases later : scanFrom file count (line + newlines before + newlines inside) rest with
          | error e =>
            rw [later] at scanned
            cases scanned
          | ok more =>
            rw [later] at scanned
            cases scanned
            have left := ih later fun t mem => texts t (List.mem_append_right _ mem)
            rw [List.flatMap_append, List.flatMap_append, contents_textToken, contents_textToken, left]
      · rw [if_neg literal] at scanned
        cases later : scanFrom file count (line + newlines before + newlines tag) rest with
        | error e =>
          rw [later] at scanned
          cases scanned
        | ok more =>
          rw [later] at scanned
          cases scanned
          -- any other tag is a piece that is not text
          exact absurd (texts _ (List.mem_append_right _ List.mem_cons_self)) (kindOf_ne_text tag)

/-- The texts of a source without tags are the source without its literal tags. -/
theorem contents_of_scan {file source : String} {pieces : List Token} (scanned : scan file source = .ok pieces)
    (texts : ∀ t ∈ pieces, t.kind = .text) :
    String.ofList (pieces.flatMap Token.content) = withoutLiterals source :=
  congrArg String.ofList (contents_of_scanFrom scanned texts)

end Stencil.Markup
