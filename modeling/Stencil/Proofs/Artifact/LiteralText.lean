import Stencil.Main
import Stencil.Proofs.Artifact.Scanning

/-!
Text that is written to an artifact never becomes code. The writer breaks text up wherever an opener would arise,
also across pieces, so that no run of text that it writes has an opener inside; and then the scanner finds exactly
the fragments that the writer began. Scanning a finished artifact gives the tokens of the pieces of code in order,
and between them tokens that spell the text.
-/
namespace Stencil.Artifact

open Written (opener closer printOpener printMark charsFrom)

/-! #### What tokens say about pieces -/

/-- These tokens spell a text: as text, or as statements that print it. Ends of fragments spell nothing. -/
inductive Spells : List Char → List Token → Prop where
  | nil : Spells [] []
  | text {t : List Char} {ts : List Token} (s : List Char) (tail : Spells t ts) :
      Spells (s ++ t) (.text (String.ofList s) :: ts)
  | echo {t : List Char} {ts : List Token} (s : List Char) (tail : Spells t ts) :
      Spells (s ++ t) (.ident "echo" :: .str (String.ofList s) :: .punct .semicolon :: ts)
  | fragmentEnd {t : List Char} {ts : List Token} (tail : Spells t ts) : Spells t (.fragmentEnd :: ts)

/-- The text of pieces among which there is no code. -/
def runText? : List Segment → Option (List Char)
  | [] => some []
  | .text s :: pieces => (runText? pieces).map (s ++ ·)
  | .code c :: pieces => if c.isEmpty then runText? pieces else none

/-- Tokens convey pieces: each piece of code gives its own tokens, and what lies between two pieces of code, before
the first and behind the last is spelled. -/
inductive Conveys : List Segment → List Token → Prop where
  | run {pieces : List Segment} {s : List Char} {ts : List Token} (text : runText? pieces = some s)
      (spelled : Spells s ts) : Conveys pieces ts
  | code {run pieces : List Segment} {s code : List Char} {ts own more : List Token}
      (text : runText? run = some s) (spelled : Spells s ts) (piece : Piece code own)
      (rest : Conveys pieces more) : Conveys (run ++ .code code :: pieces) (ts ++ (own ++ more))

theorem Spells.append {s t : List Char} {ts us : List Token} (first : Spells s ts) (last : Spells t us) :
    Spells (s ++ t) (ts ++ us) := by
  induction first with
  | nil => exact last
  | text s _ ih => simpa using Spells.text s ih
  | echo s _ ih => simpa using Spells.echo s ih
  | fragmentEnd _ ih => exact .fragmentEnd ih

theorem spells_textToken (u : List Char) : Spells u (textToken u) := by
  unfold textToken
  split
  · rename_i empty
    simp only [List.isEmpty_iff] at empty
    subst empty
    exact .nil
  · simpa using Spells.text u .nil

theorem runText?_append {run more : List Segment} {s t : List Char} (first : runText? run = some s)
    (last : runText? more = some t) : runText? (run ++ more) = some (s ++ t) := by
  induction run generalizing s with
  | nil =>
    cases first
    exact last
  | cons piece run ih =>
    cases piece with
    | text a =>
      obtain ⟨b, hb, rfl⟩ := Option.map_eq_some_iff.mp first
      simp [runText?, ih hb]
    | code c =>
      simp only [runText?] at first
      split at first
      · rename_i empty
        simp [runText?, empty, ih first]
      · cases first

/-! #### Ends of fragments -/

def Token.isFragmentEnd : Token → Bool
  | .fragmentEnd => true
  | _ => false

/-- The tokens without the ends of fragments. -/
def withoutEnds (tokens : List Token) : List Token := tokens.filter fun t => !t.isFragmentEnd

theorem scanNumber_no_end {s rest : List Char} {t : Token} (h : scanNumber s = .ok (t, rest)) :
    t.isFragmentEnd = false := by
  unfold scanNumber at h
  cases parts : Decimal.spanDigits s with
  | mk whole after =>
  rw [parts] at h
  dsimp only at h
  generalize Decimal.int64? (Decimal.value whole) = read at h
  split at h
  · split at h
    · cases h
      rfl
    · split at h <;> cases h
      rfl
  · split at h <;> cases h
    rfl

theorem scanToken_no_end {c : Char} {s rest : List Char} {t : Token} (h : scanToken c s = .ok (t, rest)) :
    t.isFragmentEnd = false := by
  unfold scanToken at h
  split at h
  · split at h <;> cases h
    rfl
  · split at h
    · cases h
      rfl
    · split at h
      · exact scanNumber_no_end h
      · split at h
        · split at h <;> cases h
          rfl
        · split at h <;> cases h
          rfl

theorem Scans.withoutEnds_eq {s rest : List Char} {ts : List Token} (h : Scans s ts rest) : withoutEnds ts = ts := by
  induction h with
  | done => rfl
  | blank _ _ ih => exact ih
  | token _ first _ ih => simpa [withoutEnds, scanToken_no_end first] using ih

theorem Spells.drop_ends {s : List Char} {ts : List Token} (h : Spells s ts) : Spells s (withoutEnds ts) := by
  induction h with
  | nil => exact .nil
  | text s _ ih => exact .text s ih
  | echo s _ ih => exact .echo s ih
  | fragmentEnd _ ih => exact ih

theorem Conveys.drop_ends {pieces : List Segment} {ts : List Token} (h : Conveys pieces ts) :
    Conveys pieces (withoutEnds ts) := by
  induction h with
  | run text spelled => exact .run text spelled.drop_ends
  | code text spelled piece _ ih =>
    have own := piece.scans.withoutEnds_eq
    simp only [withoutEnds, List.filter_append] at own ⊢
    rw [own]
    exact .code text spelled.drop_ends piece ih

/-! #### What the writer writes -/

/-- The text of the last run of texts, `u` in front of the first. -/
def lastRun : (u : List Char) → List Segment → List Char
  | u, [] => u
  | u, .text s :: segments => lastRun (u ++ s) segments
  | _, .code _ :: segments => lastRun [] segments

/-- No run of texts has an opener inside, `u` in front of the first. -/
def Unopened : (u : List Char) → List Segment → Prop
  | u, [] => ¬ opener <:+: u
  | u, .text s :: segments => Unopened (u ++ s) segments
  | u, .code _ :: segments => ¬ opener <:+: u ∧ Unopened [] segments

theorem lastRun_text (u s : List Char) (segments : List Segment) :
    lastRun u (segments ++ [.text s]) = lastRun u segments ++ s := by
  induction segments generalizing u with
  | nil => rfl
  | cons segment segments ih => cases segment <;> exact ih _

theorem lastRun_code (u c : List Char) (segments : List Segment) : lastRun u (segments ++ [.code c]) = [] := by
  induction segments generalizing u with
  | nil => rfl
  | cons segment segments ih => cases segment <;> exact ih _

theorem unopened_text {u s : List Char} {segments : List Segment} (h : Unopened u segments)
    (plain : ¬ opener <:+: lastRun u segments ++ s) : Unopened u (segments ++ [.text s]) := by
  induction segments generalizing u with
  | nil => exact plain
  | cons segment segments ih =>
    cases segment with
    | text a => exact ih h plain
    | code c => exact ⟨h.1, ih h.2 plain⟩

theorem unopened_code {u c : List Char} {segments : List Segment} (h : Unopened u segments) :
    Unopened u (segments ++ [.code c]) := by
  induction segments generalizing u with
  | nil => exact ⟨h, by simp [Unopened, opener]⟩
  | cons segment segments ih =>
    cases segment with
    | text a => exact ih h
    | code d => exact ⟨h.1, ih h.2⟩

theorem no_infix_lastRun {u : List Char} {segments : List Segment} (h : Unopened u segments) :
    ¬ opener <:+: lastRun u segments := by
  induction segments generalizing u with
  | nil => exact h
  | cons segment segments ih =>
    cases segment with
    | text a => exact ih h
    | code c => exact ih h.2

/-- Two texts without an opener may have one between them only where it is cut in two. -/
theorem no_infix_append {a b : List Char} (first : ¬ opener <:+: a) (last : ¬ opener <:+: b)
    (cut : ¬ (a.getLast? = some '<' ∧ b.head? = some '?')) : ¬ opener <:+: a ++ b := by
  induction a with
  | nil => exact last
  | cons c a ih =>
    rintro ⟨front, back, same⟩
    have tail : ¬ opener <:+: a ++ b := by
      refine ih (Text.no_infix_tail first) ?_
      rintro ⟨ends, begins⟩
      cases a with
      | nil => simp at ends
      | cons d a => exact cut ⟨by simpa using ends, begins⟩
    cases front with
    | cons d front => exact tail ⟨front, back, (List.cons.inj same).2⟩
    | nil =>
      have here : opener ++ back = c :: (a ++ b) := same
      obtain ⟨rfl, next⟩ := List.cons.inj here
      cases a with
      | nil => exact cut ⟨rfl, by rw [← show _ = b from next]; rfl⟩
      | cons d a =>
        obtain ⟨rfl, -⟩ := List.cons.inj next
        exact first ⟨[], a, rfl⟩

/-- What holds of everything that is written: no text is empty, and no run of texts has an opener inside. -/
structure Broken (w : Written) : Prop where
  some : ∀ s, .text s ∈ w → s ≠ []
  unopened : Unopened [] w.reverse

theorem broken_nil : Broken [] := ⟨by simp, by simp [Unopened, opener]⟩

theorem endsOpen_iff {w : Written} (h : Broken w) :
    w.endsOpen = true ↔ (lastRun [] w.reverse).getLast? = some '<' := by
  cases w with
  | nil => simp [Written.endsOpen, lastRun]
  | cons segment w =>
    cases segment with
    | code c => simp [Written.endsOpen, lastRun_code]
    | text s =>
      have full : s ≠ [] := h.some s (by simp)
      rw [List.reverse_cons, lastRun_text, List.getLast?_append]
      simp [Written.endsOpen, full]

/-- A text as the writer breaks it up. -/
inductive Breaks : List Char → List Segment → Prop where
  | nil : Breaks [] []
  | text {t : List Char} {out : List Segment} (s : List Char) (tail : Breaks t out) :
      Breaks (s ++ t) (.text s :: out)
  | opener {t : List Char} {out : List Segment} (tail : Breaks t out) :
      Breaks (opener ++ t) (.code printOpener :: out)
  | mark {t : List Char} {out : List Segment} (tail : Breaks t out) :
      Breaks ('?' :: t) (.code printMark :: out)

theorem Breaks.append {s t : List Char} {out more : List Segment} (first : Breaks s out) (last : Breaks t more) :
    Breaks (s ++ t) (out ++ more) := by
  induction first with
  | nil => exact last
  | text s _ ih => simpa using Breaks.text s ih
  | opener _ ih => exact .opener ih
  | mark _ ih => exact .mark ih

/-- Something was written behind what stood there. -/
def Extends (w new : Written) (out : List Segment) : Prop := new = out.reverse ++ w

theorem Extends.trans {w mid new : Written} {out more : List Segment} (first : Extends w mid out)
    (last : Extends mid new more) : Extends w new (out ++ more) := by
  unfold Extends at first last ⊢
  rw [last, first]
  simp

theorem broken_addCode {w : Written} (h : Broken w) (code : List Char) : Broken (w.addCode code) := by
  unfold Written.addCode
  split
  · exact h
  · refine ⟨?_, ?_⟩
    · intro s hs
      exact h.some s (by simpa using hs)
    · rw [List.reverse_cons]
      exact unopened_code h.unopened

theorem broken_addPlain {w : Written} (h : Broken w) {s : List Char} (plain : ¬ opener <:+: s)
    (cut : w.endsOpen = true → s.head? ≠ some '?') : Broken (w.addPlain s) := by
  unfold Written.addPlain
  split
  · exact h
  · rename_i full
    refine ⟨?_, ?_⟩
    · intro t ht
      rcases List.mem_cons.mp ht with same | older
      · cases same
        simpa using full
      · exact h.some t older
    · rw [List.reverse_cons]
      refine unopened_text h.unopened (no_infix_append (no_infix_lastRun h.unopened) plain ?_)
      rintro ⟨ends, begins⟩
      exact cut ((endsOpen_iff h).mpr ends) begins

theorem extends_addCode {w : Written} {code : List Char} (full : code ≠ []) :
    Extends w (w.addCode code) [.code code] := by
  simp [Extends, Written.addCode, full]

theorem extends_addPlain (w : Written) (s : List Char) :
    ∃ out, Extends w (w.addPlain s) out ∧ Breaks s out := by
  unfold Written.addPlain
  split
  · rename_i empty
    simp only [List.isEmpty_iff] at empty
    subst empty
    exact ⟨[], rfl, .nil⟩
  · exact ⟨[.text s], rfl, by simpa using Breaks.text s .nil⟩

theorem endsOpen_addCode {w : Written} {code : List Char} (full : code ≠ []) :
    (w.addCode code).endsOpen = false := by
  simp [Written.addCode, full, Written.endsOpen]

/-- Text without an opener is broken up at most where it completes one. -/
theorem addPart_breaks {w : Written} (h : Broken w) {s : List Char} (plain : ¬ opener <:+: s) :
    Broken (w.addPart s) ∧ ∃ out, Extends w (w.addPart s) out ∧ Breaks s out := by
  unfold Written.addPart
  split
  · rename_i rest
    split
    · have full : printMark ≠ [] := by decide
      obtain ⟨out, extended, breaks⟩ := extends_addPlain (w.addCode printMark) rest
      refine ⟨broken_addPlain (broken_addCode h _) (Text.no_infix_tail plain) ?_, .code printMark :: out, ?_, .mark breaks⟩
      · simp [endsOpen_addCode full]
      · exact (extends_addCode full).trans extended
    · rename_i closed
      exact ⟨broken_addPlain h plain (fun ends => absurd ends closed), extends_addPlain w _⟩
  · rename_i other
    refine ⟨broken_addPlain h plain ?_, extends_addPlain w s⟩
    intro _ begins
    obtain ⟨rest, rfl⟩ := List.head?_eq_some_iff.mp begins
    exact other rest rfl

theorem addTextWithin_breaks {count : Nat} {w : Written} {s : List Char} (enough : s.length ≤ count) (h : Broken w) :
    Broken (w.addTextWithin count s) ∧ ∃ out, Extends w (w.addTextWithin count s) out ∧ Breaks s out := by
  induction count generalizing w s with
  | zero =>
    have empty : s = [] := List.length_eq_zero_iff.mp (by omega)
    subst empty
    exact addPart_breaks h (by simp [opener])
  | succ count ih =>
    simp only [Written.addTextWithin]
    split
    · rename_i none
      exact addPart_breaks h (Text.no_infix_of_splitAt?_none none)
    · rename_i before rest parts
      have same := Text.eq_append_of_splitAt? parts
      have long := congrArg List.length same
      simp only [opener, List.length_append, List.length_cons, List.length_nil] at long
      have full : printOpener ≠ [] := by decide
      have short : rest.length ≤ count := by omega
      obtain ⟨broken, front, extended, breaks⟩ := addPart_breaks h (Text.no_infix_before (by decide) parts)
      obtain ⟨final, back, further, others⟩ := ih short (broken_addCode broken printOpener)
      refine ⟨final, front ++ (.code printOpener :: back), ?_, ?_⟩
      · exact extended.trans ((extends_addCode full).trans further)
      · rw [same, List.append_assoc]
        exact breaks.append (.opener others)

/-- Writes pieces in order. -/
def Written.add : List Segment → Written → Written
  | [], w => w
  | .text s :: pieces, w => add pieces (w.addText s)
  | .code c :: pieces, w => add pieces (w.addCode c)

def Written.ofPieces (pieces : List Segment) : Written := Written.add pieces []

/-- Pieces as the writer writes them: texts broken up, code as it is, and nothing for empty code. -/
inductive Renders : List Segment → List Segment → Prop where
  | nil : Renders [] []
  | text {s : List Char} {out pieces segments : List Segment} (breaks : Breaks s out)
      (tail : Renders pieces segments) : Renders (.text s :: pieces) (out ++ segments)
  | empty {pieces segments : List Segment} (tail : Renders pieces segments) : Renders (.code [] :: pieces) segments
  | code {c : List Char} {pieces segments : List Segment} (full : c ≠ []) (tail : Renders pieces segments) :
      Renders (.code c :: pieces) (.code c :: segments)

theorem add_renders {w : Written} (h : Broken w) (pieces : List Segment) :
    Broken (w.add pieces) ∧ ∃ out, Extends w (w.add pieces) out ∧ Renders pieces out := by
  induction pieces generalizing w with
  | nil => exact ⟨h, [], rfl, .nil⟩
  | cons piece pieces ih =>
    cases piece with
    | text s =>
      obtain ⟨broken, front, extended, breaks⟩ := addTextWithin_breaks (le_refl s.length) h
      obtain ⟨final, back, further, renders⟩ := ih broken
      exact ⟨final, front ++ back, extended.trans further, .text breaks renders⟩
    | code c =>
      obtain ⟨final, back, further, renders⟩ := ih (broken_addCode h c)
      by_cases full : c = []
      · subst full
        exact ⟨final, back, further, .empty renders⟩
      · exact ⟨final, .code c :: back, (extends_addCode full).trans further, .code full renders⟩

theorem ofPieces_renders (pieces : List Segment) :
    ∃ out, Written.ofPieces pieces = out.reverse ∧ Broken (Written.ofPieces pieces) ∧ Renders pieces out := by
  obtain ⟨broken, out, extended, renders⟩ := add_renders broken_nil pieces
  unfold Extends at extended
  rw [List.append_nil] at extended
  exact ⟨out, extended, broken, renders⟩

/-! #### What the scanner finds -/

/-- The tokens that code has on its own. -/
def codeTokens (code : List Char) : List Token :=
  match scanFragment (code ++ closer) with
  | .ok (tokens, _) => tokens.dropLast
  | .error _ => []

theorem Piece.codeTokens_eq {code : List Char} {own : List Token} (h : Piece code own) : codeTokens code = own := by
  have whole : scanFragment (code ++ closer) = .ok (own ++ [.fragmentEnd], []) :=
    (scanFragment_iff _ _ _).mpr ⟨own, rfl, h.scans⟩
  simp [codeTokens, whole]

/-- The tokens of segments: `open` inside a fragment, and outside with the text `u` that came before. -/
def tokensFrom : (inside : Bool) → (u : List Char) → List Segment → List Token
  | false, u, [] => textToken u
  | true, _, [] => [.fragmentEnd]
  | false, u, .text s :: segments => tokensFrom false (u ++ s) segments
  | true, _, .text s :: segments => .fragmentEnd :: tokensFrom false s segments
  | false, u, .code c :: segments => textToken u ++ (codeTokens c ++ tokensFrom true [] segments)
  | true, _, .code c :: segments => codeTokens c ++ tokensFrom true [] segments

/-- All code among segments can stand in a fragment of its own. -/
def AllPieces (segments : List Segment) : Prop := ∀ c, .code c ∈ segments → ∃ own, Piece c own

theorem AllPieces.tail {segment : Segment} {segments : List Segment} (h : AllPieces (segment :: segments)) :
    AllPieces segments := fun c hc => h c (List.mem_cons_of_mem segment hc)

/-- Scanning follows the segments, outside and inside a fragment. -/
theorem scan_segments (segments : List Segment) (pieces : AllPieces segments) :
    (∀ u, Unopened u segments → ∀ count, (u ++ charsFrom false segments).length ≤ count →
      scanFrom count (u ++ charsFrom false segments) = .ok (tokensFrom false u segments)) ∧
    (Unopened [] segments → ∃ own rest more, Scans (charsFrom true segments) own ('?' :: '>' :: rest) ∧
      (∀ count, rest.length ≤ count → scanFrom count rest = .ok more) ∧
      own ++ [.fragmentEnd] ++ more = tokensFrom true [] segments) := by
  induction segments with
  | nil =>
    refine ⟨?_, ?_⟩
    · intro u plain count _
      simpa [charsFrom, tokensFrom] using scanFrom_text plain count
    · intro _
      refine ⟨[], [], [], .done _, ?_, rfl⟩
      intro count _
      exact scanFrom_text (by simp [fragmentOpener]) count
  | cons segment segments ih =>
    obtain ⟨outside, inside⟩ := ih pieces.tail
    cases segment with
    | text s =>
      refine ⟨?_, ?_⟩
      · intro u plain count enough
        have next := outside (u ++ s) plain count
        simp only [charsFrom, tokensFrom, List.append_assoc] at next enough ⊢
        exact next enough
      · intro plain
        refine ⟨[], s ++ charsFrom false segments, tokensFrom false s segments, .done _, ?_, rfl⟩
        intro count enough
        exact outside s plain count enough
    | code c =>
      obtain ⟨own, piece⟩ := pieces c (by simp)
      refine ⟨?_, ?_⟩
      · rintro u ⟨plain, others⟩ count enough
        obtain ⟨tokens, rest, more, scans, after, same⟩ := inside others
        have whole := (piece.scans_before (charsFrom true segments)).append scans
        simp only [charsFrom, tokensFrom, piece.codeTokens_eq, ← same, List.append_assoc] at enough ⊢
        exact (scanFrom_fragment plain whole enough after).trans (by simp)
      · rintro ⟨-, others⟩
        obtain ⟨tokens, rest, more, scans, after, same⟩ := inside others
        refine ⟨own ++ tokens, rest, more, (piece.scans_before _).append scans, after, ?_⟩
        simp only [tokensFrom, piece.codeTokens_eq, ← same]
        simp

theorem piece_of_scanFragment {code : List Char} (own : List Token) {t : Token}
    (h : scanFragment (code ++ closer) = .ok (own ++ [t] ++ [.fragmentEnd], [])) (closes : t.closesPiece = true) :
    Piece code (own ++ [t]) := by
  obtain ⟨tokens, same, scans⟩ := (scanFragment_iff _ _ _).mp h
  obtain ⟨rfl, -⟩ := List.append_inj' same rfl
  exact ⟨scans, t, by simp, closes⟩

theorem piece_printOpener : Piece printOpener [.ident "echo", .str (String.ofList opener), .punct .semicolon] :=
  piece_of_scanFragment [.ident "echo", .str (String.ofList opener)] rfl rfl

theorem piece_printMark : Piece printMark [.ident "echo", .str (String.ofList ['?']), .punct .semicolon] :=
  piece_of_scanFragment [.ident "echo", .str (String.ofList ['?'])] rfl rfl

theorem Breaks.allPieces {s : List Char} {out : List Segment} (h : Breaks s out) : AllPieces out := by
  induction h with
  | nil => intro c hc; simp at hc
  | text s _ ih =>
    intro c hc
    exact ih c (by simpa using hc)
  | opener _ ih =>
    intro c hc
    rcases List.mem_cons.mp hc with same | later
    · cases same
      exact ⟨_, piece_printOpener⟩
    · exact ih c later
  | mark _ ih =>
    intro c hc
    rcases List.mem_cons.mp hc with same | later
    · cases same
      exact ⟨_, piece_printMark⟩
    · exact ih c later

theorem Renders.allPieces {pieces segments : List Segment} (h : Renders pieces segments)
    (valid : ∀ c, .code c ∈ pieces → c = [] ∨ ∃ own, Piece c own) : AllPieces segments := by
  induction h with
  | nil => intro c hc; simp at hc
  | text breaks _ ih =>
    intro c hc
    rcases List.mem_append.mp hc with broken | later
    · exact breaks.allPieces c broken
    · exact ih (fun d hd => valid d (List.mem_cons_of_mem _ hd)) c later
  | empty _ ih => exact ih (fun d hd => valid d (List.mem_cons_of_mem _ hd))
  | code full _ ih =>
    intro c hc
    rcases List.mem_cons.mp hc with same | later
    · cases same
      exact (valid _ (by simp)).resolve_left full
    · exact ih (fun d hd => valid d (List.mem_cons_of_mem _ hd)) c later

/-- The tokens `ts` spell a text but for its end `u`, which is in no token yet. -/
def HalfSpelled (text : List Char) (ts : List Token) (inside : Bool) (u : List Char) : Prop :=
  ∃ s, text = s ++ u ∧ Spells s ts ∧ (inside = true → u = [])

theorem HalfSpelled.finish {text u : List Char} {ts : List Token} {inside : Bool} (h : HalfSpelled text ts inside u) :
    Spells text (ts ++ textToken u) := by
  obtain ⟨s, rfl, spells, -⟩ := h
  exact spells.append (spells_textToken u)

theorem HalfSpelled.text {text u : List Char} {ts : List Token} {inside : Bool} (h : HalfSpelled text ts inside u)
    (a : List Char) (segments : List Segment) :
    ∃ more v, tokensFrom inside u (.text a :: segments) = more ++ tokensFrom false v segments ∧
      HalfSpelled (text ++ a) (ts ++ more) false v := by
  obtain ⟨s, rfl, spells, none⟩ := h
  cases inside with
  | false => exact ⟨[], u ++ a, rfl, s, by simp, by simpa using spells, by simp⟩
  | true =>
    have empty := none rfl
    subst empty
    refine ⟨[.fragmentEnd], a, rfl, s, by simp, ?_, by simp⟩
    simpa using spells.append (.fragmentEnd .nil)

theorem HalfSpelled.code {text u : List Char} {ts : List Token} {inside : Bool} (h : HalfSpelled text ts inside u)
    (c : List Char) (segments : List Segment) :
    ∃ more, tokensFrom inside u (.code c :: segments) = more ++ (codeTokens c ++ tokensFrom true [] segments) ∧
      Spells text (ts ++ more) := by
  cases inside with
  | false => exact ⟨textToken u, rfl, h.finish⟩
  | true =>
    obtain ⟨s, rfl, spells, none⟩ := h
    have empty := none rfl
    subst empty
    exact ⟨[], rfl, by simpa using spells⟩

theorem HalfSpelled.echo {text u : List Char} {ts : List Token} {inside : Bool} (h : HalfSpelled text ts inside u)
    {c a : List Char} (echoes : Piece c [.ident "echo", .str (String.ofList a), .punct .semicolon])
    (segments : List Segment) :
    ∃ more, tokensFrom inside u (.code c :: segments) = more ++ tokensFrom true [] segments ∧
      HalfSpelled (text ++ a) (ts ++ more) true [] := by
  obtain ⟨more, same, spells⟩ := h.code c segments
  rw [same, echoes.codeTokens_eq]
  refine ⟨more ++ [.ident "echo", .str (String.ofList a), .punct .semicolon], by simp, text ++ a, by simp, ?_, by simp⟩
  simpa using spells.append (Spells.echo a .nil)

/-- A text is spelled by the tokens of the segments that it is broken up into. -/
theorem Breaks.spelled {s : List Char} {out : List Segment} (h : Breaks s out) {text u : List Char}
    {ts : List Token} {inside : Bool} (half : HalfSpelled text ts inside u) (segments : List Segment) :
    ∃ more inside' v, tokensFrom inside u (out ++ segments) = more ++ tokensFrom inside' v segments ∧
      HalfSpelled (text ++ s) (ts ++ more) inside' v := by
  induction h generalizing text u ts inside with
  | nil => exact ⟨[], inside, u, rfl, by simpa using half⟩
  | @text t out a _ ih =>
    obtain ⟨first, v, same, half⟩ := half.text a (out ++ segments)
    obtain ⟨more, inside', w, next, half⟩ := ih half
    refine ⟨first ++ more, inside', w, ?_, by simpa using half⟩
    rw [List.cons_append, same, next, List.append_assoc]
  | @opener t out _ ih =>
    obtain ⟨first, same, half⟩ := half.echo piece_printOpener (out ++ segments)
    obtain ⟨more, inside', w, next, half⟩ := ih half
    refine ⟨first ++ more, inside', w, ?_, by simpa using half⟩
    rw [List.cons_append, same, next, List.append_assoc]
  | @mark t out _ ih =>
    obtain ⟨first, same, half⟩ := half.echo piece_printMark (out ++ segments)
    obtain ⟨more, inside', w, next, half⟩ := ih half
    refine ⟨first ++ more, inside', w, ?_, by simpa using half⟩
    rw [List.cons_append, same, next, List.append_assoc]

/-- The tokens of what was written convey the pieces, those in `run` included that came before. -/
theorem Renders.conveyed {pieces segments : List Segment} (h : Renders pieces segments)
    (valid : ∀ c, .code c ∈ pieces → c = [] ∨ ∃ own, Piece c own) {run : List Segment} {text u : List Char}
    {ts : List Token} {inside : Bool} (known : runText? run = some text) (half : HalfSpelled text ts inside u) :
    Conveys (run ++ pieces) (ts ++ tokensFrom inside u segments) := by
  induction h generalizing run text u ts inside with
  | nil =>
    refine .run (by simpa using known) ?_
    cases inside with
    | false => exact half.finish
    | true =>
      obtain ⟨s, rfl, spells, none⟩ := half
      have empty := none rfl
      subst empty
      simpa [tokensFrom] using spells.append (.fragmentEnd .nil)
  | @text s out pieces segments breaks _ ih =>
    obtain ⟨more, inside', v, same, half⟩ := breaks.spelled half segments
    have longer : runText? (run ++ [.text s]) = some (text ++ s) := runText?_append known (by simp [runText?])
    have next := ih (fun d hd => valid d (List.mem_cons_of_mem _ hd)) longer half
    rw [same]
    simpa using next
  | @empty pieces segments _ ih =>
    have longer : runText? (run ++ [.code []]) = some (text ++ []) := runText?_append known rfl
    have next := ih (fun d hd => valid d (List.mem_cons_of_mem _ hd)) longer (by simpa using half)
    simpa using next
  | @code c pieces segments full _ ih =>
    obtain ⟨own, piece⟩ := (valid c (by simp)).resolve_left full
    obtain ⟨more, same, spells⟩ := half.code c segments
    have start : HalfSpelled [] [] true [] := ⟨[], rfl, .nil, fun _ => rfl⟩
    have rest : Conveys ([] ++ pieces) ([] ++ tokensFrom true [] segments) :=
      ih (fun d hd => valid d (List.mem_cons_of_mem _ hd)) rfl start
    rw [same, piece.codeTokens_eq, ← List.append_assoc]
    exact .code known spells piece rest

theorem scan_ofPieces {pieces : List Segment} (valid : ∀ c, .code c ∈ pieces → c = [] ∨ ∃ own, Piece c own) :
    ∃ tokens, scan ((Written.ofPieces pieces).finish false) = .ok tokens ∧ Conveys pieces tokens := by
  obtain ⟨out, written, broken, renders⟩ := ofPieces_renders pieces
  have plain : Unopened [] (Written.ofPieces pieces).reverse := broken.unopened
  rw [written, List.reverse_reverse] at plain
  have scanned := (scan_segments out (renders.allPieces valid)).1 [] plain _ (le_refl _)
  have none : HalfSpelled [] [] false [] := ⟨[], rfl, .nil, fun _ => rfl⟩
  have conveyed : Conveys ([] ++ pieces) ([] ++ tokensFrom false [] out) := renders.conveyed valid rfl none
  refine ⟨tokensFrom false [] out, ?_, conveyed⟩
  simpa [scan, Written.finish, Written.chars, written] using scanned

/-! #### Fragments that go on -/

/-- Whether the last thing written is code, so that its fragment can go on. -/
def Written.inCode : Written → Bool
  | .code _ :: _ => true
  | _ => false

theorem charsFrom_code (inside : Bool) (segments : List Segment) (code : List Char) :
    ∃ kept, ∀ more, charsFrom inside (segments ++ .code code :: more) = kept ++ charsFrom true more := by
  induction segments generalizing inside with
  | nil =>
    cases inside with
    | false => exact ⟨opener ++ code, fun more => rfl⟩
    | true => exact ⟨code, fun more => rfl⟩
  | cons segment segments ih =>
    cases segment with
    | text s =>
      obtain ⟨kept, same⟩ := ih false
      cases inside with
      | false => exact ⟨s ++ kept, fun more => by simp [charsFrom, same]⟩
      | true => exact ⟨closer ++ s ++ kept, fun more => by simp [charsFrom, same]⟩
    | code c =>
      obtain ⟨kept, same⟩ := ih true
      cases inside with
      | false => exact ⟨opener ++ c ++ kept, fun more => by simp [charsFrom, same]⟩
      | true => exact ⟨c ++ kept, fun more => by simp [charsFrom, same]⟩

/-- Code behind code takes the place of the closer, which is what was written last. -/
theorem addCode_inCode {w : Written} {code : List Char} (inside : w.inCode = true) (full : code ≠ []) :
    ∃ kept, w.chars = kept ++ closer ∧ (w.addCode code).chars = kept ++ (code ++ closer) := by
  cases w with
  | nil => cases inside
  | cons segment w =>
    cases segment with
    | text s => cases inside
    | code c =>
      obtain ⟨kept, same⟩ := charsFrom_code false w.reverse c
      refine ⟨kept, ?_, ?_⟩
      · simpa [Written.chars, charsFrom] using same []
      · simpa [Written.chars, Written.addCode, full, charsFrom] using same [.code code]

/-- Whatever text is written between pieces of code, the artifact can be scanned, and its tokens are those of the
code and tokens that spell the text. Where code is joined to code, exactly the closer is taken away. -/
theorem written_text_never_becomes_code (pieces : List Segment)
    (valid : ∀ c, .code c ∈ pieces → c = [] ∨ ∃ own, Piece c own) :
    (∃ tokens, scan ((Written.ofPieces pieces).finish false) = .ok tokens ∧ Conveys pieces (withoutEnds tokens)) ∧
    ∀ (w : Written) (code : List Char), w.inCode = true → code ≠ [] →
      let cut := w.chars.take (w.chars.length - closer.length)
      w.chars = cut ++ closer ∧ (w.addCode code).chars = cut ++ (code ++ closer) := by
  refine ⟨?_, ?_⟩
  · obtain ⟨tokens, scanned, conveyed⟩ := scan_ofPieces valid
    exact ⟨tokens, scanned, conveyed.drop_ends⟩
  · intro w code inside full
    obtain ⟨kept, before, after⟩ := addCode_inCode inside full
    rw [after, before]
    simp

/-- An opener cut in two, beside code and inside a condition. -/
theorem split_opener_never_becomes_code :
    let pieces : List Segment := [.text ['a', '<'], .text ['?', 'b'], .code "if ($x) \x7b".toList,
      .text ['<'], .code [], .text ['?', '>', '<', '?'], .code "\x7d".toList]
    (∀ c, .code c ∈ pieces → c = [] ∨ ∃ own, Piece c own) ∧
      ∃ tokens, scan ((Written.ofPieces pieces).finish false) = .ok tokens ∧ Conveys pieces (withoutEnds tokens) := by
  intro pieces
  have valid : ∀ c, .code c ∈ pieces → c = [] ∨ ∃ own, Piece c own := by
    intro c hc
    simp only [pieces, List.mem_cons, List.not_mem_nil, or_false, reduceCtorEq, false_or, Segment.code.injEq] at hc
    rcases hc with rfl | rfl | rfl
    · exact Or.inr ⟨_, piece_of_scanFragment [.ident "if", .punct .openParen, .var "x", .punct .closeParen] rfl rfl⟩
    · exact Or.inl rfl
    · exact Or.inr ⟨_, piece_of_scanFragment [] rfl rfl⟩
  exact ⟨valid, (written_text_never_becomes_code pieces valid).1⟩

end Stencil.Artifact
