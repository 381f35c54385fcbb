import Stencil.Main
import Stencil.Proofs.Text.Span

/-!
Where tokens end. A token ends where no character that follows could belong to it; up to there scanning looks at
nothing that comes later, and in front of any other text where the token ends it gives the same token.
-/
namespace Stencil.Artifact

/-- No digits follow, and no point with a digit behind it. -/
def BarsNumber (s : List Char) : Prop :=
  Bars Decimal.isDigit s ∧ ∀ rest, s = '.' :: rest → Bars Decimal.isDigit rest

/-- A token ends before this text: nothing in front of the text could belong to the token. -/
def Token.EndsBefore : Token → List Char → Prop
  | .var _, s | .ident _, s => Bars isWordChar s
  | .int _, s => BarsNumber s
  | .float _, s => Bars Decimal.isDigit s
  | .punct .less, s | .punct .greater, s | .punct .bang, s | .punct .plus, s | .punct .minus, s =>
    Bars (· == '=') s
  | .punct .assign, s => Bars (fun c => c == '=' || c == '>') s
  | _, _ => True

/-- In front of such a character every token ends. -/
def endsAll (c : Char) : Bool :=
  !(isWordChar c || Decimal.isDigit c || c == '.' || c == '=' || c == '>')

theorem endsBefore_of_endsAll (t : Token) {c : Char} (h : endsAll c = true) (s : List Char) :
    t.EndsBefore (c :: s) := by
  simp only [endsAll, Bool.not_eq_eq_eq_not, Bool.not_true, Bool.or_eq_false_iff] at h
  obtain ⟨⟨⟨⟨word, digit⟩, point⟩, assign⟩, greater⟩ := h
  have number : BarsNumber (c :: s) := by
    refine ⟨Bars.cons digit s, ?_⟩
    rintro rest same
    simp [(List.cons.inj same).1] at point
  cases t with
  | int i => exact number
  | float x => exact Bars.cons digit s
  | var name => exact Bars.cons word s
  | ident name => exact Bars.cons word s
  | punct p =>
    cases p with
    | less | greater | bang | plus | minus => exact Bars.cons (p := (· == '=')) assign s
    | assign => exact Bars.cons (by simp [assign, greater]) s
    | _ => trivial
  | _ => trivial

/-- Whether a token ends depends on two characters at most. -/
theorem endsBefore_exchange {t : Token} {m a b : List Char} (h : t.EndsBefore (m ++ a)) (some : m ≠ [])
    (point : m = ['.'] → Bars Decimal.isDigit b) : t.EndsBefore (m ++ b) := by
  cases m with
  | nil => contradiction
  | cons c m =>
    have head : ∀ {p}, Bars p (c :: m ++ a) → Bars p (c :: m ++ b) := fun bar => Bars.cons (bar c rfl) _
    have number : BarsNumber (c :: m ++ a) → BarsNumber (c :: m ++ b) := by
      rintro ⟨bar, behind⟩
      refine ⟨head bar, ?_⟩
      intro rest same
      obtain ⟨rfl, rfl⟩ := List.cons.inj same
      cases m with
      | nil => exact point rfl
      | cons d m => exact Bars.cons (behind _ rfl d rfl) _
    cases t with
    | int i => exact number h
    | float x => exact head h
    | var name => exact head h
    | ident name => exact head h
    | punct p =>
      cases p with
      | less | greater | bang | plus | minus | assign => exact head h
      | _ => trivial
    | _ => trivial

/-- What a scanner takes is a part `used` of the text, the token ends before the rest, and before any other text
where it ends the scanner takes the same part. -/
def Local (scanner : List Char → Except SyntaxError (Token × List Char)) (s : List Char) (t : Token)
    (rest : List Char) : Prop :=
  ∃ used, s = used ++ rest ∧ t.EndsBefore rest ∧
    ∀ other, t.EndsBefore other → scanner (used ++ other) = .ok (t, other)

theorem spanIdentifier_local {s name rest : List Char} (h : spanIdentifier s = (name, rest))
    (some : name ≠ []) : s = name ++ rest ∧ Bars isWordChar rest ∧
      ∀ other, Bars isWordChar other → spanIdentifier (name ++ other) = (name, other) := by
  unfold spanIdentifier at h
  split at h
  · cases h; contradiction
  · rename_i c tail
    split at h
    · rename_i letter
      obtain ⟨same, word, bar⟩ := span_parts h
      refine ⟨same, bar, ?_⟩
      intro other free
      cases name with
      | nil => contradiction
      | cons d name =>
        obtain ⟨rfl, -⟩ := List.cons.inj same
        have := span_append word free
        simpa [spanIdentifier, letter] using this
    · cases h; contradiction

theorem scanNumber_fraction {whole fraction other : List Char} {d : Char}
    (digits : ∀ c ∈ whole, Decimal.isDigit c = true)
    (places : ∀ c ∈ d :: fraction, Decimal.isDigit c = true) (bar : Bars Decimal.isDigit other) :
    scanNumber (whole ++ '.' :: d :: (fraction ++ other)) =
      .ok (.float (Decimal.nearestDecimal false (Decimal.value (whole ++ d :: fraction))
        (-((d :: fraction).length : Int))), other) := by
  have front : (whole ++ '.' :: d :: (fraction ++ other)).span Decimal.isDigit =
      (whole, '.' :: d :: (fraction ++ other)) := span_append digits (Bars.cons (by decide) _)
  have back := span_append places bar
  have hd : Decimal.isDigit d = true := places d (by simp)
  rw [List.cons_append] at back
  unfold scanNumber
  rw [Decimal.spanDigits, front]
  generalize Decimal.int64? (Decimal.value whole) = read
  simp only [hd, ↓reduceIte]
  rw [Decimal.spanDigits, back]

theorem scanNumber_whole {whole other : List Char} (digits : ∀ c ∈ whole, Decimal.isDigit c = true)
    (bar : BarsNumber other) :
    scanNumber (whole ++ other) =
      match Decimal.int64? (Decimal.value whole) with
      | some i => .ok (.int i, other)
      | none => .error (.numberTooLarge (String.ofList whole)) := by
  have front := span_append digits bar.1
  unfold scanNumber
  rw [Decimal.spanDigits, front]
  dsimp only
  generalize Decimal.int64? (Decimal.value whole) = read
  split
  · rename_i d more
    have plain : Decimal.isDigit d = false := bar.2 _ rfl d (by simp)
    cases read <;> simp only [plain, Bool.false_eq_true, ↓reduceIte]
  · cases read <;> rfl

theorem scanNumber_local {s : List Char} {t : Token} {rest : List Char}
    (h : scanNumber s = .ok (t, rest)) :
    Bars Decimal.isDigit rest ∧ Local scanNumber s t rest := by
  cases parts : s.span Decimal.isDigit with
  | mk whole after =>
    obtain ⟨rfl, digits, bar⟩ := span_parts parts
    by_cases point : ∃ d more, after = '.' :: d :: more ∧ Decimal.isDigit d = true
    · obtain ⟨d, more, rfl, hd⟩ := point
      cases behind : more.span Decimal.isDigit with
      | mk fraction left =>
        obtain ⟨rfl, places, stop⟩ := span_parts behind
        have all : ∀ c ∈ d :: fraction, Decimal.isDigit c = true := by
          intro c hc
          rcases List.mem_cons.mp hc with rfl | hc
          · exact hd
          · exact places c hc
        rw [scanNumber_fraction digits all stop] at h
        cases h
        refine ⟨stop, whole ++ '.' :: d :: fraction, by simp, stop, ?_⟩
        intro other free
        simpa using scanNumber_fraction digits all free
    · have free : BarsNumber after := by
        refine ⟨bar, ?_⟩
        rintro more rfl c hc
        cases more with
        | nil => simp at hc
        | cons d more =>
          cases hd : Decimal.isDigit d with
          | true => exact absurd ⟨d, more, rfl, hd⟩ point
          | false => simp_all
      rw [scanNumber_whole digits free] at h
      split at h
      · rename_i i exact
        cases h
        refine ⟨bar, whole, rfl, free, ?_⟩
        intro other free'
        rw [scanNumber_whole digits free', exact]
      · simp at h

theorem scanString_cons {quote c : Char} (s : List Char) (h : c ≠ '\\') :
    scanString quote (c :: s) = if c = quote then some ([], s)
      else (scanString quote s).map fun (text, rest) => (c :: text, rest) := by
  cases s <;> simp [scanString, h]

theorem scanString_local {quote : Char} {s text rest : List Char}
    (h : scanString quote s = some (text, rest)) :
    ∃ used, s = used ++ rest ∧ ∀ other, scanString quote (used ++ other) = some (text, other) := by
  fun_induction scanString quote s generalizing text with
  | case1 => simp at h
  | case2 => simp at h
  | case3 c s ih =>
    obtain ⟨⟨inner, r⟩, hr, he⟩ := Option.map_eq_some_iff.mp h
    cases he
    obtain ⟨used, rfl, same⟩ := ih hr
    refine ⟨'\\' :: c :: used, rfl, ?_⟩
    intro other
    simp [scanString, same]
  | case4 s single double =>
    cases h
    have plain : quote ≠ '\\' := by
      intro eq
      cases rest with
      | nil => exact single eq rfl
      | cons d rest => exact double d rest eq rfl
    refine ⟨[quote], rfl, ?_⟩
    intro other
    simp [scanString_cons other plain]
  | case5 c s single double differs ih =>
    have plain : c ≠ '\\' := by
      intro eq
      cases s with
      | nil => exact single eq rfl
      | cons d s => exact double d s eq rfl
    obtain ⟨⟨inner, r⟩, hr, he⟩ := Option.map_eq_some_iff.mp h
    cases he
    obtain ⟨used, rfl, same⟩ := ih hr
    refine ⟨c :: used, rfl, ?_⟩
    intro other
    simp [scanString_cons _ plain, differs, same]

/-- Punctuation is read where a longer one cannot begin. -/
theorem scanPunct_text {p : Punct} {other : List Char} (free : Token.EndsBefore (.punct p) other) :
    scanPunct (p.text.toList ++ other) = some (p, other) := by
  cases p
  all_goals try rfl
  all_goals
    cases other with
    | nil => rfl
    | cons d other =>
      have bar := free d (by simp)
      simp_all [scanPunct, Punct.text]

/-- Punctuation is read as its text, and a longer one does not begin there. -/
theorem eq_text_of_scanPunct {s rest : List Char} {p : Punct} (h : scanPunct s = some (p, rest)) :
    s = p.text.toList ++ rest ∧ Token.EndsBefore (.punct p) rest := by
  unfold scanPunct at h
  split at h <;> cases h <;> refine ⟨by rfl, ?_⟩
  all_goals try trivial
  all_goals
    intro c hc
    cases rest with
    | nil => simp at hc
    | cons d rest => simp_all

theorem scanPunct_local {s rest : List Char} {p : Punct} (h : scanPunct s = some (p, rest)) :
    ∃ used, s = used ++ rest ∧ used ≠ [] ∧ Token.EndsBefore (.punct p) rest ∧
      ∀ other, Token.EndsBefore (.punct p) other → scanPunct (used ++ other) = some (p, other) := by
  obtain ⟨text, ends⟩ := eq_text_of_scanPunct h
  exact ⟨p.text.toList, text, by cases p <;> simp [Punct.text], ends, fun _ free => scanPunct_text free⟩

theorem isWordChar_of_isLetter {c : Char} (h : isLetter c = true) : isWordChar c = true := by
  simp only [isLetter, isWordChar, Bool.or_eq_true, Char.isAlphanum] at h ⊢
  rcases h with alpha | underscore
  · exact Or.inl (Or.inl alpha)
  · exact Or.inr underscore

theorem spanIdentifier_ne_nil {c : Char} {s name rest : List Char} (letter : isLetter c = true)
    (h : spanIdentifier (c :: s) = (name, rest)) : name ≠ [] := by
  simp only [spanIdentifier, letter, ↓reduceIte] at h
  obtain ⟨same, -, bar⟩ := span_parts h
  rintro rfl
  subst same
  have stops : isWordChar c = false := bar c rfl
  simp [isWordChar_of_isLetter letter] at stops

theorem scanToken_variable {name other : List Char} (some : name ≠ [])
    (parts : spanIdentifier (name ++ other) = (name, other)) :
    scanToken '$' (name ++ other) = .ok (.var (String.ofList name), other) := by
  cases name with
  | nil => contradiction
  | cons d name =>
    unfold scanToken
    rw [if_pos rfl, parts]

theorem scanToken_word {c : Char} {name other : List Char} (letter : isLetter c = true) (dollar : c ≠ '$')
    (parts : spanIdentifier (c :: (name ++ other)) = (c :: name, other)) :
    scanToken c (name ++ other) = .ok (.ident (String.ofList (c :: name)), other) := by
  unfold scanToken
  rw [if_neg dollar, if_pos letter, parts]

theorem scanToken_number {c : Char} (dollar : c ≠ '$') (letter : ¬ isLetter c = true)
    (digit : Decimal.isDigit c = true) (s : List Char) : scanToken c s = scanNumber (c :: s) := by
  unfold scanToken
  rw [if_neg dollar, if_neg letter, if_pos digit]

theorem scanToken_quoted {c : Char} (dollar : c ≠ '$') (letter : ¬ isLetter c = true)
    (digit : ¬ Decimal.isDigit c = true) (quote : c = '\'' ∨ c = '"') (s : List Char) :
    scanToken c s =
      match scanString c s with
      | some (text, rest) => .ok (.str (String.ofList text), rest)
      | none => .error .unterminatedString := by
  unfold scanToken
  rw [if_neg dollar, if_neg letter, if_neg digit]
  exact if_pos quote

theorem scanToken_mark {c : Char} (dollar : c ≠ '$') (letter : ¬ isLetter c = true)
    (digit : ¬ Decimal.isDigit c = true) (quote : ¬ (c = '\'' ∨ c = '"')) (s : List Char) :
    scanToken c s =
      match scanPunct (c :: s) with
      | some (p, rest) => .ok (.punct p, rest)
      | none => .error (.unexpectedCharacter c) := by
  unfold scanToken
  rw [if_neg dollar, if_neg letter, if_neg digit]
  exact if_neg quote

/-- Scanning a token looks at nothing behind the place where it ends. -/
theorem scanToken_local {c : Char} {s : List Char} {t : Token} {rest : List Char}
    (h : scanToken c s = .ok (t, rest)) : Local (scanToken c) s t rest := by
  by_cases dollar : c = '$'
  · subst dollar
    cases parts : spanIdentifier s with
    | mk name after =>
      have some : name ≠ [] := by
        rintro rfl
        simp [scanToken, parts] at h
      obtain ⟨rfl, bar, again⟩ := spanIdentifier_local parts some
      rw [scanToken_variable some parts] at h
      cases h
      exact ⟨name, rfl, bar, fun other free => scanToken_variable some (again other free)⟩
  by_cases letter : isLetter c = true
  · cases parts : spanIdentifier (c :: s) with
    | mk name after =>
      have some := spanIdentifier_ne_nil letter parts
      obtain ⟨same, bar, again⟩ := spanIdentifier_local parts some
      cases name with
      | nil => contradiction
      | cons d name =>
        obtain ⟨rfl, back⟩ := List.cons.inj same
        change s = name ++ after at back
        subst back
        rw [scanToken_word letter dollar parts] at h
        cases h
        exact ⟨name, rfl, bar, fun other free => scanToken_word letter dollar (again other free)⟩
  by_cases digit : Decimal.isDigit c = true
  · rw [scanToken_number dollar letter digit] at h
    obtain ⟨bar, used, same, free, again⟩ := scanNumber_local h
    cases used with
    | nil =>
      subst same
      have stops : Decimal.isDigit c = false := bar c rfl
      simp [digit] at stops
    | cons d used =>
      obtain ⟨rfl, rfl⟩ := List.cons.inj same
      refine ⟨used, rfl, free, ?_⟩
      intro other ends
      rw [scanToken_number dollar letter digit]
      exact again other ends
  by_cases quote : c = '\'' ∨ c = '"'
  · rw [scanToken_quoted dollar letter digit quote] at h
    split at h
    · rename_i text after parts
      cases h
      obtain ⟨used, rfl, again⟩ := scanString_local parts
      refine ⟨used, rfl, trivial, ?_⟩
      intro other _
      rw [scanToken_quoted dollar letter digit quote, again]
    · cases h
  · rw [scanToken_mark dollar letter digit quote] at h
    split at h
    · rename_i p after parts
      cases h
      obtain ⟨used, same, some, free, again⟩ := scanPunct_local parts
      cases used with
      | nil => contradiction
      | cons d used =>
        obtain ⟨rfl, rfl⟩ := List.cons.inj same
        refine ⟨used, rfl, free, ?_⟩
        intro other ends
        simp only [List.cons_append] at again
        rw [scanToken_mark dollar letter digit quote, again other ends]
    · cases h

end Stencil.Artifact
