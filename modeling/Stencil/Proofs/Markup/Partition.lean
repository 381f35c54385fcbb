import Stencil.Proofs.Markup.Literals
import Stencil.Proofs.Text.Search

/-!
How a source is cut. It consists of plain text, of tags and of literal texts between their tags, one after the other
and without a gap, and its pieces are these stretches in order, each with the line on which it begins. A source
cannot be cut only if a literal tag is never closed.
-/
namespace Stencil.Markup

/-- A stretch of a source. -/
inductive Stretch where
  | plain (s : List Char)
  | tag (s : List Char)
  /-- A text between two literal tags. -/
  | literal (s : List Char)

/-- An opening brace, a character that is neither blank nor a closing brace, and all up to the next closing brace. -/
def IsTag (s : List Char) : Prop :=
  ∃ c inside, s = '\x7b' :: c :: inside ++ ['\x7d'] ∧ Text.isBlank c = false ∧ '\x7d' ∉ c :: inside

/-- Where `rest` follows, no opening brace of the text has a character behind it that is neither blank nor a closing
brace, and a closing brace anywhere after that. -/
def Tagfree (s rest : List Char) : Prop :=
  ∀ before after, s = before ++ '\x7b' :: after → opensTag (after ++ rest) = true → '\x7d' ∉ after ++ rest

namespace Stretch

/-- What stands in the source. -/
def written : Stretch → List Char
  | plain s => s
  | tag s => s
  | literal s => literalOpener ++ s ++ literalCloser

/-- What the stretch must be where `rest` follows it. -/
def Stands (rest : List Char) : Stretch → Prop
  | plain s => s ≠ [] ∧ Tagfree s rest
  | tag s => IsTag s ∧ s ≠ literalOpener
  | literal s => Text.FirstAt literalCloser (s ++ literalCloser ++ rest) s rest

def IsPlain : Stretch → Prop
  | plain _ => True
  | _ => False

/-- The piece that comes of a stretch, if `front` is all that stands before it. -/
def pieces (front : List Char) : Stretch → List Token
  | plain s => [⟨.text, s, 1 + newlines front⟩]
  | tag s => [⟨kindOf s, s, 1 + newlines front⟩]
  | literal s => if s.isEmpty then [] else [⟨.text, s, 1 + newlines (front ++ literalOpener)⟩]

end Stretch

def written (stretches : List Stretch) : List Char := stretches.flatMap Stretch.written

/-- The pieces of stretches one after the other, if `front` is all that stands before them. -/
def piecesFrom (front : List Char) : List Stretch → List Token
  | [] => []
  | st :: more => st.pieces front ++ piecesFrom (front ++ st.written) more

/-- The front of a source is cut into stretches, up to a place where the rest begins. -/
inductive Cuts : List Char → List Stretch → List Char → Prop where
  | done (rest : List Char) : Cuts rest [] rest
  | next {st : Stretch} {tail rest : List Char} {more : List Stretch} (stands : st.Stands tail)
      (cuts : Cuts tail more rest) : Cuts (st.written ++ tail) (st :: more) rest

/-- No plain text stands next to another. -/
def Apart (stretches : List Stretch) : Prop := stretches.IsChain fun a b => ¬ (a.IsPlain ∧ b.IsPlain)

/-- Behind `front`, where the next stretch can begin, stands a literal tag that opens. -/
def OpensLiteral (source front rest : List Char) : Prop :=
  ∃ stretches, Cuts source stretches (literalOpener ++ rest) ∧ front = written stretches

/-- What scanning a text comes to, if `front` is all that stands before it. -/
def Partitioned (file : String) (front s : List Char) : Except TemplateError (List Token) → Prop
  | .ok tokens => ∃ stretches, Cuts s stretches [] ∧ Apart stretches ∧ tokens = piecesFrom front stretches
  | .error e => ∃ before rest, OpensLiteral s before rest ∧ ¬ literalCloser <:+: rest ∧
      e = .unclosedTag ⟨"literal", file, 1 + newlines (front ++ before)⟩

variable {s before rest tag front : List Char} {c : Char} {st : Stretch} {stretches : List Stretch} {file : String}

theorem newlines_append (s t : List Char) : newlines (s ++ t) = newlines s + newlines t := List.count_append

theorem Cuts.whole (cuts : Cuts s stretches rest) : s = written stretches ++ rest := by
  induction cuts with
  | done rest => rfl
  | next stands cuts ih =>
    rw [ih]
    exact (List.append_assoc ..).symm

/-! #### The next tag -/

theorem Tagfree.nil (rest : List Char) : Tagfree [] rest := by
  intro before after same
  cases before <;> cases same

theorem Tagfree.cons (closed : c = '\x7b' → opensTag (s ++ rest) = true → '\x7d' ∉ s ++ rest)
    (free : Tagfree s rest) : Tagfree (c :: s) rest := by
  intro before after same
  cases before with
  | nil =>
    obtain ⟨rfl, rfl⟩ := List.cons.inj same
    exact closed rfl
  | cons d before => exact free before after (List.cons.inj same).2

theorem Tagfree.tail (free : Tagfree (c :: s) rest) : Tagfree s rest :=
  fun before after same => free (c :: before) after (congrArg (c :: ·) same)

theorem tagfree_of_not_mem (unclosed : '\x7d' ∉ s) : Tagfree s [] := by
  intro before after same _ there
  rw [List.append_nil] at there
  exact unclosed (same ▸ List.mem_append_right _ (List.mem_cons_of_mem _ there))

theorem opensTag_cons : opensTag (c :: s) = true ↔ Text.isBlank c = false ∧ c ≠ '\x7d' := by
  simp [opensTag]

theorem nextTag?_of_not_mem (unclosed : '\x7d' ∉ s) : nextTag? s = none := by
  induction s with
  | nil => rfl
  | cons c s ih =>
    obtain ⟨-, later⟩ := not_or.mp (List.mem_cons.not.mp unclosed)
    by_cases opens : c = '\x7b' ∧ opensTag s = true
    · obtain ⟨rfl, opens⟩ := opens
      rcases nextTag?_of_opens opens with ⟨inside, rest, rfl, -⟩ | ⟨-, none⟩
      · exact absurd (List.mem_append_right _ List.mem_cons_self) later
      · exact none
    · rw [nextTag?_of_not_opens opens, ih later, Option.map_none]

/-- A tag is found where it stands. -/
theorem IsTag.next (is : IsTag tag) (rest : List Char) : nextTag? (tag ++ rest) = some ([], tag, rest) := by
  obtain ⟨c, inside, rfl, ink, closed⟩ := is
  have apart : c ≠ '\x7d' := fun same => closed (same ▸ List.mem_cons_self)
  have up : ∀ d ∈ c :: inside, decide (d ≠ '\x7d') = true := fun d mem =>
    decide_eq_true fun same => closed (same ▸ mem)
  have ends : (c :: inside ++ '\x7d' :: rest).span (· ≠ '\x7d') = (c :: inside, '\x7d' :: rest) :=
    span_append up (.cons (by decide) rest)
  have opens : opensTag (c :: inside ++ '\x7d' :: rest) = true := opensTag_cons.mpr ⟨ink, apart⟩
  have whole : '\x7b' :: c :: inside ++ ['\x7d'] ++ rest = '\x7b' :: (c :: inside ++ '\x7d' :: rest) := by simp
  rw [whole, nextTag?, if_pos ⟨rfl, opens⟩, ends]

theorem literal_isTag : IsTag literalOpener := ⟨'l', "iteral".toList, by decide, by decide, by decide⟩

/-- Text in which no tag opens is passed over. -/
theorem Tagfree.next (free : Tagfree s rest) :
    nextTag? (s ++ rest) = (nextTag? rest).map fun (before, tag, later) => (s ++ before, tag, later) := by
  induction s with
  | nil =>
    rw [List.nil_append]
    cases nextTag? rest <;> rfl
  | cons c s ih =>
    by_cases opens : c = '\x7b' ∧ opensTag (s ++ rest) = true
    · -- such a brace has no closing one behind it, and then there is no tag at all
      have unclosed := free [] s (congrArg (· :: s) opens.1) opens.2
      have later : '\x7d' ∉ rest := fun mem => unclosed (List.mem_append_right _ mem)
      have none : '\x7d' ∉ c :: (s ++ rest) := by
        rw [opens.1]
        exact fun mem => (List.mem_cons.mp mem).elim (by decide) unclosed
      rw [List.cons_append, nextTag?_of_not_mem none, nextTag?_of_not_mem later, Option.map_none]
    · rw [List.cons_append, nextTag?_of_not_opens opens, ih free.tail, Option.map_map]
      rfl

theorem tagfree_of_nextTag?_none (none : nextTag? s = none) : Tagfree s [] := by
  induction s with
  | nil => exact .nil []
  | cons c s ih =>
    by_cases opens : c = '\x7b' ∧ opensTag s = true
    · obtain ⟨rfl, opens⟩ := opens
      rcases nextTag?_of_opens opens with ⟨inside, rest, -, found⟩ | ⟨unclosed, -⟩
      · cases none.symm.trans found
      · exact .cons (fun _ _ => by rwa [List.append_nil]) (tagfree_of_not_mem unclosed)
    · rw [nextTag?_of_not_opens opens, Option.map_eq_none_iff] at none
      refine .cons (fun brace there => ?_) (ih none)
      rw [List.append_nil] at there
      exact absurd ⟨brace, there⟩ opens

/-- The first tag, with the text before it. -/
theorem tag_of_nextTag? (found : nextTag? s = some (before, tag, rest)) :
    s = before ++ (tag ++ rest) ∧ IsTag tag ∧ Tagfree before (tag ++ rest) := by
  induction s generalizing before with
  | nil => cases found
  | cons c s ih =>
    by_cases opens : c = '\x7b' ∧ opensTag s = true
    · obtain ⟨rfl, opens⟩ := opens
      unfold nextTag? at found
      rw [if_pos ⟨rfl, opens⟩] at found
      rcases parts : s.span (· ≠ '\x7d') with ⟨inside, later⟩
      rw [parts] at found
      obtain ⟨whole, open', bar⟩ := span_parts parts
      cases later with
      | nil => cases found
      | cons close later =>
        cases found
        have last : close = '\x7d' := by simpa using bar close (by simp)
        have closed : '\x7d' ∉ inside := fun mem => absurd (open' _ mem) (by decide)
        subst whole last
        cases inside with
        | nil => cases opens
        | cons d inside => exact ⟨by simp, ⟨d, inside, rfl, (opensTag_cons.mp opens).1, closed⟩, .nil _⟩
    · rw [nextTag?_of_not_opens opens] at found
      obtain ⟨⟨before', tag', rest'⟩, found', same⟩ := Option.map_eq_some_iff.mp found
      cases same
      obtain ⟨rfl, is, free⟩ := ih found'
      exact ⟨rfl, is, .cons (fun brace there => absurd ⟨brace, there⟩ opens) free⟩

/-! #### Scanning cuts -/

theorem Cuts.append {middle : List Char} {more : List Stretch} (first : Cuts s stretches middle)
    (last : Cuts middle more rest) : Cuts s (stretches ++ more) rest := by
  induction first with
  | done rest => exact last
  | next stands _ ih => exact .next stands (ih last)

theorem written_append (stretches more : List Stretch) :
    written (stretches ++ more) = written stretches ++ written more := List.flatMap_append

theorem piecesFrom_append (front : List Char) (stretches more : List Stretch) :
    piecesFrom front (stretches ++ more) =
      piecesFrom front stretches ++ piecesFrom (front ++ written stretches) more := by
  induction stretches generalizing front with
  | nil =>
    show piecesFrom front more = piecesFrom (front ++ []) more
    rw [List.append_nil]
  | cons st stretches ih =>
    show st.pieces front ++ piecesFrom (front ++ st.written) (stretches ++ more) =
      st.pieces front ++ piecesFrom (front ++ st.written) stretches ++
        piecesFrom (front ++ (st.written ++ written stretches)) more
    rw [ih, List.append_assoc, List.append_assoc]

/-- The stretch of a plain text, if there is any. -/
def plainStretch (s : List Char) : List Stretch := if s.isEmpty then [] else [.plain s]

theorem Tagfree.cuts (free : Tagfree s rest) : Cuts (s ++ rest) (plainStretch s) rest := by
  cases s with
  | nil => exact .done rest
  | cons c s =>
    have stands : (Stretch.plain (c :: s)).Stands rest := ⟨List.cons_ne_nil _ _, free⟩
    exact .next stands (.done rest)

theorem written_plainStretch (s : List Char) : written (plainStretch s) = s := by
  cases s with
  | nil => rfl
  | cons c s => exact List.append_nil _

theorem piecesFrom_plainStretch (front s : List Char) :
    piecesFrom front (plainStretch s) = textToken s (1 + newlines front) := by
  cases s <;> rfl

theorem Apart.mark {more : List Stretch} (mark : ¬ st.IsPlain) (apart : Apart more) : Apart (st :: more) := by
  cases more with
  | nil => exact .singleton st
  | cons _ _ => exact .cons_cons (fun both => mark both.1) apart

theorem Apart.behind_plain {more : List Stretch} (mark : ¬ st.IsPlain) (apart : Apart (st :: more)) (s : List Char) :
    Apart (plainStretch s ++ st :: more) := by
  cases s with
  | nil => exact apart
  | cons c s => exact .cons_cons (fun both => mark both.2) apart

/-- A tag or a literal text stands in front of what was scanned, and plain text before that. -/
theorem Partitioned.behind {r : Except TemplateError (List Token)} (mark : ¬ st.IsPlain) (stands : st.Stands s)
    (free : Tagfree before (st.written ++ s)) (scanned : Partitioned file (front ++ before ++ st.written) s r) :
    Partitioned file front (before ++ (st.written ++ s))
      (r.map fun more => textToken before (1 + newlines front) ++ (st.pieces (front ++ before) ++ more)) := by
  cases r with
  | ok tokens =>
    obtain ⟨stretches, cuts, apart, rfl⟩ := scanned
    refine ⟨plainStretch before ++ st :: stretches, free.cuts.append (.next stands cuts),
      (apart.mark mark).behind_plain mark before, ?_⟩
    rw [piecesFrom_append, piecesFrom_plainStretch, written_plainStretch]
    rfl
  | error e =>
    obtain ⟨_, rest, ⟨stretches, cuts, rfl⟩, never, rfl⟩ := scanned
    refine ⟨_, rest, ⟨plainStretch before ++ st :: stretches, free.cuts.append (.next stands cuts), rfl⟩, never, ?_⟩
    rw [written_append, written_plainStretch]
    simp only [written, List.flatMap_cons, List.append_assoc]

theorem newlines_literal (s : List Char) : newlines (Stretch.literal s).written = newlines s := by
  rw [Stretch.written, newlines_append, newlines_append]
  exact Nat.zero_add _

theorem textToken_literal (s : List Char) {line : Nat} (begins : line = 1 + newlines front) :
    textToken s line = (Stretch.literal s).pieces front := by
  rw [Stretch.pieces, textToken, newlines_append, begins]
  rfl

theorem scanFrom_partitioned {count line : Nat} (enough : s.length ≤ count) (begins : line = 1 + newlines front) :
    Partitioned file front s (scanFrom file count line s) := by
  induction count generalizing line front s with
  | zero =>
    rw [List.length_eq_zero_iff.mp (Nat.le_zero.mp enough)]
    exact ⟨[], .done [], .nil, rfl⟩
  | succ count ih =>
    unfold scanFrom
    cases found : nextTag? s with
    | none =>
      have cuts := (tagfree_of_nextTag?_none found).cuts
      rw [List.append_nil] at cuts
      refine ⟨plainStretch s, cuts, ?_, ?_⟩
      · cases s with
        | nil => exact .nil
        | cons c s => exact .singleton _
      · rw [piecesFrom_plainStretch, begins]
    | some parts =>
      obtain ⟨before, tag, later⟩ := parts
      obtain ⟨rfl, is, free⟩ := tag_of_nextTag? found
      have tagLine : line + newlines before = 1 + newlines (front ++ before) := by
        rw [newlines_append, begins, Nat.add_assoc]
      have long : 0 < tag.length := by
        obtain ⟨c, inside, rfl, -⟩ := is
        exact Nat.succ_pos _
      simp only [List.length_append] at enough
      dsimp only
      split
      · rename_i literal
        subst literal
        cases closing : Text.splitAt? literalCloser later with
        | none =>
          refine ⟨before, later, ⟨plainStretch before, free.cuts, (written_plainStretch before).symm⟩,
            Text.no_infix_of_splitAt?_none closing, ?_⟩
          rw [tagLine]
        | some parts =>
          obtain ⟨inside, rest⟩ := parts
          have first := Text.firstAt_of_splitAt? closing
          obtain rfl := first.1
          let st := Stretch.literal inside
          have stands : st.Stands rest := first
          have next : Partitioned file (front ++ before ++ st.written) rest
              (scanFrom file count (line + newlines before + newlines inside) rest) := by
            refine ih ?_ ?_
            · simp only [List.length_append] at enough
              omega
            · rw [newlines_append, newlines_literal, tagLine, Nat.add_assoc]
          have same : literalOpener ++ (inside ++ literalCloser ++ rest) = st.written ++ rest := by
            simp only [st, Stretch.written, List.append_assoc]
          rw [same] at free ⊢
          have behind := next.behind id stands free
          rw [← begins, ← textToken_literal inside tagLine] at behind
          simpa only [List.append_assoc] using behind
      · rename_i other
        let st := Stretch.tag tag
        have stands : st.Stands later := ⟨is, other⟩
        have next : Partitioned file (front ++ before ++ st.written) later
            (scanFrom file count (line + newlines before + newlines tag) later) := by
          refine ih (by omega) ?_
          rw [newlines_append, tagLine, Nat.add_assoc]
          rfl
        have behind := next.behind id stands free
        rw [← begins, Stretch.pieces, ← tagLine] at behind
        exact behind

/-! #### What is cut is scanned -/

theorem map_eq_error {ε α β : Type} {f : α → β} {r : Except ε α} {e : ε} : r.map f = .error e ↔ r = .error e := by
  cases r with
  | ok a => exact ⟨nofun, nofun⟩
  | error e' => constructor <;> rintro ⟨⟩ <;> rfl

theorem scanFrom_behind_plain {count line : Nat} {e : TemplateError} (free : Tagfree before s)
    (failed : scanFrom file count (line + newlines before) s = .error e) :
    scanFrom file count line (before ++ s) = .error e := by
  cases count with
  | zero => cases failed
  | succ count =>
    unfold scanFrom at failed ⊢
    rw [free.next]
    cases found : nextTag? s with
    | none =>
      rw [found] at failed
      cases failed
    | some parts =>
      obtain ⟨between, tag, later⟩ := parts
      rw [found] at failed
      dsimp only [Option.map_some] at failed ⊢
      rw [newlines_append, ← Nat.add_assoc]
      split
      · rename_i literal
        rw [if_pos literal] at failed
        cases closing : Text.splitAt? literalCloser later with
        | none =>
          rw [closing] at failed
          exact failed
        | some parts =>
          rw [closing] at failed
          exact map_eq_error.mpr (map_eq_error.mp failed)
      · rename_i other
        rw [if_neg other] at failed
        exact map_eq_error.mpr (map_eq_error.mp failed)

/-- A literal tag that opens where the next stretch can begin, and is never closed, is an error. -/
theorem Cuts.unclosed (cuts : Cuts s stretches (literalOpener ++ rest)) (never : ¬ literalCloser <:+: rest)
    {count line : Nat} (enough : s.length ≤ count) :
    scanFrom file count line s = .error (.unclosedTag ⟨"literal", file, line + newlines (written stretches)⟩) := by
  generalize whole : literalOpener ++ rest = last at cuts
  induction cuts generalizing count line with
  | done last =>
    subst whole
    cases count with
    | zero => cases enough
    | succ count =>
      rw [scanFrom, literal_isTag.next]
      dsimp only
      rw [if_pos rfl, Text.splitAt?_none_of_no_infix never]
      rfl
  | @next st tail last more stands _ ih =>
    rw [List.length_append] at enough
    have later : written (st :: more) = st.written ++ written more := rfl
    rw [later, newlines_append, ← Nat.add_assoc]
    cases st with
    | plain s => exact scanFrom_behind_plain stands.2 (ih (by omega) whole)
    | tag s =>
      obtain ⟨is, other⟩ := stands
      have long : 0 < s.length := by
        obtain ⟨c, inside, rfl, -⟩ := is
        exact Nat.succ_pos _
      cases count with
      | zero =>
        rw [Stretch.written] at enough
        omega
      | succ count =>
        rw [Stretch.written] at enough ⊢
        rw [scanFrom, is.next]
        dsimp only
        rw [if_neg other]
        exact map_eq_error.mpr (ih (by omega) whole)
    | literal s =>
      have same : (Stretch.literal s).written ++ tail = literalOpener ++ (s ++ literalCloser ++ tail) := by
        simp only [Stretch.written, List.append_assoc]
      have long : 0 < (Stretch.literal s).written.length := Nat.succ_pos _
      cases count with
      | zero => omega
      | succ count =>
        rw [newlines_literal, same, scanFrom, literal_isTag.next]
        dsimp only
        rw [if_pos rfl, Text.splitAt?_of_firstAt stands]
        exact map_eq_error.mpr (ih (by omega) whole)

theorem raw_ne_nil {t : Token} (cuts : Cuts s stretches rest) (mem : t ∈ piecesFrom front stretches) : t.raw ≠ [] := by
  induction cuts generalizing front with
  | done rest => cases mem
  | @next st tail rest more stands cuts ih =>
    rcases List.mem_append.mp mem with here | later
    · cases st with
      | plain s =>
        rw [List.mem_singleton.mp here]
        exact stands.1
      | tag s =>
        obtain ⟨c, inside, rfl, -⟩ := stands.1
        rw [List.mem_singleton.mp here]
        exact List.cons_ne_nil _ _
      | literal s =>
        cases s with
        | nil => cases here
        | cons c s =>
          rw [List.mem_singleton.mp here]
          exact List.cons_ne_nil _ _
    · exact ih later

/-- Every source is cut into plain text, tags and literal texts that follow each other without a gap, and its pieces are
these in order, none of them empty, each with the line of its first character. The only sources without pieces are
those with a literal tag that opens where a stretch can begin and is never closed, and the error is at this tag. -/
theorem sources_are_partitioned (file source : String) :
    ((∃ tokens, scan file source = .ok tokens) ↔
      ∀ front rest, OpensLiteral source.toList front rest → literalCloser <:+: rest) ∧
    match scan file source with
    | .ok tokens => (∀ t ∈ tokens, t.raw ≠ []) ∧ ∃ stretches, source.toList = written stretches ∧
        Cuts source.toList stretches [] ∧ Apart stretches ∧ tokens = piecesFrom [] stretches
    | .error e => ∃ front rest, OpensLiteral source.toList front rest ∧ ¬ literalCloser <:+: rest ∧
        e = .unclosedTag ⟨"literal", file, 1 + newlines front⟩ := by
  have scanned : Partitioned file [] source.toList (scan file source) := scanFrom_partitioned (Nat.le_refl _) rfl
  cases result : scan file source with
  | ok tokens =>
    rw [result] at scanned
    obtain ⟨stretches, cuts, apart, rfl⟩ := scanned
    refine ⟨⟨fun _ front rest opens => ?_, fun _ => ⟨_, rfl⟩⟩, fun t mem => raw_ne_nil cuts mem, stretches, ?_, cuts,
      apart, rfl⟩
    · obtain ⟨others, cuts', -⟩ := opens
      by_contra never
      have failed : scan file source = _ := cuts'.unclosed never (Nat.le_refl _)
      cases result.symm.trans failed
    · exact cuts.whole.trans (List.append_nil _)
  | error e =>
    rw [result] at scanned
    obtain ⟨before, rest, opens, never, same⟩ := scanned
    refine ⟨⟨fun found => ?_, fun closed => absurd (closed before rest opens) never⟩, before, rest, opens, never, same⟩
    obtain ⟨tokens, found⟩ := found
    cases found

end Stencil.Markup
