import Stencil.Proofs.Artifact.TokenEnds
import Stencil.Proofs.Text.Search

/-!
How artifacts are cut into tokens, without the counts that bound the scanner. Code that was scanned on its own
gives the same tokens in front of any other text, if its last token can end anywhere; text without an opener is
one token.
-/
namespace Stencil.Artifact

open Text (splitAt? after?)

/-! #### Fragment openers in text -/

/-- The opener is found where it stands, if no other one begins before it. -/
theorem splitAt?_opener {s : List Char} (h : ¬ fragmentOpener <:+: s) (rest : List Char) :
    splitAt? fragmentOpener (s ++ (fragmentOpener ++ rest)) = some (s, rest) := by
  induction s with
  | nil => simp [fragmentOpener, splitAt?, after?]
  | cons c s ih =>
    have missed : after? fragmentOpener (c :: (s ++ (fragmentOpener ++ rest))) = none := by
      cases s with
      | nil => simp [fragmentOpener, after?]
      | cons d s =>
        have head : after? fragmentOpener (c :: d :: s) = none := Text.after?_none_of_no_infix h
        simpa [fragmentOpener, after?] using head
    simp [splitAt?, missed, ih (Text.no_infix_tail h)]

/-! #### Tokens of code -/

/-- Code is scanned as these tokens, up to a place at which the rest begins. -/
inductive Scans : List Char → List Token → List Char → Prop where
  | done (rest : List Char) : Scans rest [] rest
  | blank {c : Char} {s rest : List Char} {ts : List Token} (blank : Text.isBlank c = true)
      (tail : Scans s ts rest) : Scans (c :: s) ts rest
  | token {c : Char} {s mid rest : List Char} {t : Token} {ts : List Token} (ink : Text.isBlank c = false)
      (first : scanToken c s = .ok (t, mid)) (tail : Scans mid ts rest) : Scans (c :: s) (t :: ts) rest

namespace Scans

theorem append {s mid rest : List Char} {ts us : List Token} (first : Scans s ts mid) (last : Scans mid us rest) :
    Scans s (ts ++ us) rest := by
  induction first with
  | done => exact last
  | blank blank _ ih => exact .blank blank (ih last)
  | token ink first _ ih => exact .token ink first (ih last)

theorem suffix {s rest : List Char} {ts : List Token} (h : Scans s ts rest) : ∃ used, s = used ++ rest := by
  induction h with
  | done rest => exact ⟨[], rfl⟩
  | @blank c s rest ts _ _ ih =>
    obtain ⟨used, rfl⟩ := ih
    exact ⟨c :: used, rfl⟩
  | @token c s mid rest t ts _ first _ ih =>
    obtain ⟨used, rfl⟩ := ih
    obtain ⟨front, rfl, -, -⟩ := scanToken_local first
    exact ⟨c :: front ++ used, by simp⟩

theorem length_le {s rest : List Char} {ts : List Token} (h : Scans s ts rest) : rest.length ≤ s.length := by
  obtain ⟨used, rfl⟩ := h.suffix
  simp

/-- What stands behind code may be exchanged, if every token also ends before the new text. -/
theorem exchange {a b : List Char} {s : List Char} {ts : List Token} (h : Scans (s ++ a) ts a)
    (safe : ∀ t m us, t :: us <:+ ts → Scans (m ++ a) us a → t.EndsBefore (m ++ a) → t.EndsBefore (m ++ b)) :
    Scans (s ++ b) ts b := by
  generalize whole : s ++ a = text at h
  induction h generalizing s with
  | done rest =>
    have empty : s = [] := by simpa using congrArg List.length whole
    subst empty
    exact .done b
  | @blank c text rest ts blank tail ih =>
    cases s with
    | nil =>
      have short := tail.length_le
      have long := congrArg List.length whole
      simp only [List.nil_append, List.length_cons] at long
      omega
    | cons d s =>
      obtain ⟨rfl, rest⟩ := List.cons.inj whole
      exact .blank blank (ih safe rest)
  | @token c text mid rest t ts ink first tail ih =>
    cases s with
    | nil =>
      have short := tail.length_le
      obtain ⟨used, rfl, -, -⟩ := scanToken_local first
      have long := congrArg List.length whole
      simp only [List.nil_append, List.length_cons, List.length_append] at long
      omega
    | cons d s =>
      obtain ⟨rfl, same⟩ := List.cons.inj whole
      obtain ⟨m, rfl⟩ := tail.suffix
      obtain ⟨used, rfl, free, again⟩ := scanToken_local first
      have parts : s = used ++ m := by
        have : s ++ rest = (used ++ m) ++ rest := by simpa using same
        exact List.append_cancel_right this
      subst parts
      have ends := safe t m ts (List.suffix_refl _) tail free
      have next := again (m ++ b) ends
      rw [← List.append_assoc] at next
      refine .token ink next (ih ?_ rfl)
      intro u k us hs
      exact safe u k us (hs.trans (List.suffix_cons t ts))

theorem no_token_at_mark {c : Char} {s mid : List Char} {t : Token} (h : scanToken c s = .ok (t, mid)) : c ≠ '?' := by
  rintro rfl
  simp [scanToken, isLetter, Decimal.isDigit, scanPunct] at h

theorem of_trimStart {s rest : List Char} {ts : List Token} (h : Scans (Text.trimStart s) ts rest) :
    Scans s ts rest := by
  induction s with
  | nil => exact h
  | cons c s ih =>
    cases blank : Text.isBlank c with
    | true => exact .blank blank (ih (by simpa [Text.trimStart, blank] using h))
    | false => simpa [Text.trimStart, blank] using h

theorem trimStart {s rest : List Char} {x : Char} {ts : List Token} (h : Scans s ts (x :: rest))
    (ink : Text.isBlank x = false) : Scans (Text.trimStart s) ts (x :: rest) := by
  induction s with
  | nil => exact h
  | cons c s ih =>
    cases blank : Text.isBlank c with
    | true =>
      have inner : Scans s ts (x :: rest) := by
        cases h with
        | done => simp [ink] at blank
        | blank _ tail => exact tail
        | token ink' => simp [ink'] at blank
      simpa [Text.trimStart, blank] using ih inner
    | false => simpa [Text.trimStart, blank] using h

end Scans

theorem trimStart_head {s r : List Char} {c : Char} (h : Text.trimStart s = c :: r) : Text.isBlank c = false := by
  have := List.head?_dropWhile_not Text.isBlank s
  unfold Text.trimStart at h
  simpa [h] using this

theorem trimStart_length_le (s : List Char) : (Text.trimStart s).length ≤ s.length :=
  (List.dropWhile_sublist _).length_le

/-- A fragment is scanned successfully exactly if its code is, up to a closer. -/
theorem scanFragmentFrom_iff {count : Nat} {s : List Char} (enough : s.length < count) (tokens : List Token)
    (rest : List Char) : scanFragmentFrom count s = .ok (tokens, rest) ↔
      ∃ own, tokens = own ++ [.fragmentEnd] ∧ Scans s own ('?' :: '>' :: rest) := by
  induction count generalizing s tokens with
  | zero => omega
  | succ count ih =>
    have trimmed : ∀ own, Scans s own ('?' :: '>' :: rest) ↔
        Scans (Text.trimStart s) own ('?' :: '>' :: rest) :=
      fun own => ⟨fun h => h.trimStart (by decide), Scans.of_trimStart⟩
    simp only [trimmed, scanFragmentFrom]
    have short := trimStart_length_le s
    split
    · rename_i empty
      rw [empty]
      simp only [reduceCtorEq, false_iff, not_exists, not_and]
      intro own _ h
      have := h.length_le
      simp at this
    · rename_i after closer
      rw [closer]
      constructor
      · rintro h
        cases h
        exact ⟨[], rfl, .done _⟩
      · rintro ⟨own, rfl, h⟩
        cases h with
        | done => rfl
        | blank blank => exact absurd blank (by decide)
        | token _ first => exact absurd rfl (Scans.no_token_at_mark first)
    · rename_i c after code start
      rw [start] at short ⊢
      have ink := trimStart_head start
      simp only [List.length_cons] at short
      constructor
      · intro h
        split at h
        · cases h
        · rename_i t mid first
          obtain ⟨used, rfl, -, -⟩ := scanToken_local first
          simp only [List.length_append] at short
          cases inner : scanFragmentFrom count mid with
          | error e => simp [inner, Except.map] at h
          | ok r =>
            obtain ⟨more, rest'⟩ := r
            simp only [inner, Except.map, Except.ok.injEq, Prod.mk.injEq] at h
            obtain ⟨rfl, rfl⟩ := h
            obtain ⟨own, rfl, tail⟩ := (ih (by omega) more).mp inner
            exact ⟨t :: own, rfl, .token ink first tail⟩
      · rintro ⟨own, rfl, h⟩
        cases h with
        | done => exact (code rest rfl rfl).elim
        | blank blank => simp [ink] at blank
        | @token _ _ mid _ t ts _ first tail =>
          obtain ⟨used, rfl, -, -⟩ := scanToken_local first
          simp only [List.length_append] at short
          have inner := (ih (by omega) (ts ++ [.fragmentEnd])).mpr ⟨ts, rfl, tail⟩
          simp [first, inner, Except.map]

/-! #### Tokens of artifacts -/

/-- The tokens after which a piece of code may be joined to another. -/
def Token.closesPiece : Token → Bool
  | .punct .semicolon | .punct .openBrace | .punct .closeBrace => true
  | _ => false

theorem endsBefore_of_closesPiece {t : Token} (h : t.closesPiece = true) (s : List Char) : t.EndsBefore s := by
  unfold Token.closesPiece at h
  split at h
  · trivial
  · trivial
  · trivial
  · cases h

theorem Scans.nothing_at_mark {s rest : List Char} {ts : List Token} (h : Scans ('?' :: s) ts rest) :
    ts = [] := by
  cases h with
  | done => rfl
  | blank blank => exact absurd blank (by decide)
  | token _ first => exact absurd rfl (no_token_at_mark first)

/-- The text after which the last token of code has to end may be exchanged for one before which every token ends, and
for any one if that token ends anywhere. -/
theorem Scans.before {code tail : List Char} {own : List Token} (scans : Scans (code ++ ['?', '>']) own ['?', '>'])
    (safe : (∀ t ∈ own.getLast?, t ≠ .punct .dot ∧ ∀ s, t.EndsBefore s) ∨ ∃ c ∈ tail.head?, endsAll c = true) :
    Scans (code ++ tail) own tail := by
  refine scans.exchange ?_
  intro t m us last rest ends
  obtain ⟨front, rfl⟩ := last
  cases m with
  | nil =>
    have empty := rest.nothing_at_mark
    subst empty
    rcases safe with closes | ⟨c, first, closes⟩
    · exact (closes t (List.getLast?_concat ..)).2 _
    · obtain ⟨tail, rfl⟩ := List.head?_eq_some_iff.mp first
      exact endsBefore_of_endsAll t closes tail
  | cons d m =>
    refine endsBefore_exchange ends (List.cons_ne_nil d m) fun point => ?_
    rcases safe with closes | ⟨c, first, closes⟩
    · -- a point alone would be the last token
      exfalso
      cases point
      cases rest with
      | blank blank => exact absurd blank (by decide)
      | token _ first tail =>
        have dot : scanToken '.' ['?', '>'] = .ok (.punct .dot, ['?', '>']) := rfl
        cases dot.symm.trans first
        have empty := tail.nothing_at_mark
        subst empty
        exact (closes (.punct .dot) (by simp)).1 rfl
    · obtain ⟨tail, rfl⟩ := List.head?_eq_some_iff.mp first
      simp only [endsAll, Bool.not_eq_eq_eq_not, Bool.not_true, Bool.or_eq_false_iff] at closes
      exact Bars.cons closes.1.1.1.2 tail

/-- What stands behind a closer does not matter for the code in front of it. -/
theorem Scans.exchange_behind_closer {code a b : List Char} {own : List Token}
    (scans : Scans (code ++ '?' :: '>' :: a) own ('?' :: '>' :: a)) :
    Scans (code ++ '?' :: '>' :: b) own ('?' :: '>' :: b) := by
  refine scans.exchange fun t m _ _ _ ends => ?_
  have same : ∀ rest : List Char, m ++ '?' :: '>' :: rest = (m ++ ['?', '>']) ++ rest := fun _ => by simp
  rw [same] at ends ⊢
  refine endsBefore_exchange ends (by simp) fun point => ?_
  have long := congrArg List.length point
  simp at long

/-- Code that stands in a fragment of its own, its last token a semicolon or a brace. -/
structure Piece (code : List Char) (own : List Token) : Prop where
  scans : Scans (code ++ ['?', '>']) own ['?', '>']
  closes : ∃ t ∈ own.getLast?, t.closesPiece = true

/-- Such code gives the same tokens in front of any text. -/
theorem Piece.scans_before {code : List Char} {own : List Token} (h : Piece code own) (tail : List Char) :
    Scans (code ++ tail) own tail := by
  refine h.scans.before (Or.inl fun t last => ?_)
  obtain ⟨final, isLast, closes⟩ := h.closes
  cases Option.some.inj ((Option.mem_def.mp last).symm.trans isLast)
  refine ⟨?_, endsBefore_of_closesPiece closes⟩
  rintro rfl
  cases closes

theorem scanFragment_iff (s : List Char) (tokens : List Token) (rest : List Char) :
    scanFragment s = .ok (tokens, rest) ↔
      ∃ own, tokens = own ++ [.fragmentEnd] ∧ Scans s own ('?' :: '>' :: rest) :=
  scanFragmentFrom_iff (Nat.lt_succ_self _) tokens rest

theorem scanFrom_text {s : List Char} (h : ¬ fragmentOpener <:+: s) (count : Nat) :
    scanFrom count s = .ok (textToken s) := by
  cases count with
  | zero => rfl
  | succ count => simp [scanFrom, Text.splitAt?_none_of_no_infix h]

/-- The scanner goes from fragment to fragment; the count that bounds it does not matter if it is large enough. -/
theorem scanFrom_fragment {before code rest : List Char} {own tokens : List Token} {count : Nat}
    (plain : ¬ fragmentOpener <:+: before) (scans : Scans code own ('?' :: '>' :: rest))
    (enough : (before ++ (fragmentOpener ++ code)).length ≤ count)
    (more : ∀ count, rest.length ≤ count → scanFrom count rest = .ok tokens) :
    scanFrom count (before ++ (fragmentOpener ++ code)) =
      .ok (textToken before ++ (own ++ [.fragmentEnd]) ++ tokens) := by
  have short := scans.length_le
  simp only [fragmentOpener, List.length_append, List.length_cons, List.length_nil] at enough short
  cases count with
  | zero => omega
  | succ count =>
    have inner : scanFragmentFrom count code = .ok (own ++ [.fragmentEnd], rest) :=
      (scanFragmentFrom_iff (by omega) _ _).mpr ⟨own, rfl, scans⟩
    simp only [scanFrom, splitAt?_opener plain, inner]
    rw [more count (by omega)]
    rfl

end Stencil.Artifact
