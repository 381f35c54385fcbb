import Stencil.Proofs.Artifact.Layout
import Stencil.Proofs.Artifact.Printing

/-!
The code that tags write around texts from the sources. An expression that can be read on its own gives the same
tokens inside such code, since the code goes on with characters that end every token; so do names and whole numbers.
-/
namespace Stencil.Artifact

/-! ### The ends of tokens -/

theorem not_blank_of_isWordChar {c : Char} (word : isWordChar c = true) : Text.isBlank c = false := by
  rw [isWordChar, Bool.or_eq_true] at word
  have cases : isLetter c = true ∨ Decimal.isDigit c = true := by
    rcases word with alphanumeric | underscore
    · rcases Bool.or_eq_true_iff.mp alphanumeric with alpha | digit
      · exact .inl (Bool.or_eq_true_iff.mpr (.inl alpha))
      · exact .inr digit
    · exact .inl (Bool.or_eq_true_iff.mpr (.inr underscore))
  rcases cases with letter | digit
  · obtain ⟨low, high⟩ := range_of_isLetter letter
    exact not_blank_of_range (by omega) high
  · obtain ⟨low, high⟩ := range_of_isDigit digit
    exact not_blank_of_range (by omega) (by omega)

theorem not_blank_of_isDigit {c : Char} (digit : Decimal.isDigit c = true) : Text.isBlank c = false := by
  obtain ⟨low, high⟩ := range_of_isDigit digit
  exact not_blank_of_range (by omega) (by omega)

/-- Between the beginning of a text and the rest something is read, and its last character is no blank. -/
def InkUpTo (rest s : List Char) : Prop := ∃ used c, s = used ++ c :: rest ∧ Text.isBlank c = false

theorem inkUpTo_of_all {used rest : List Char} (some : used ≠ []) (ink : ∀ c ∈ used, Text.isBlank c = false) :
    InkUpTo rest (used ++ rest) := by
  refine ⟨used.dropLast, used.getLast some, ?_, ink _ (List.getLast_mem some)⟩
  rw [← List.singleton_append, ← List.append_assoc, List.dropLast_concat_getLast some]

theorem InkUpTo.append {rest s : List Char} (ink : InkUpTo rest s) (front : List Char) : InkUpTo rest (front ++ s) := by
  obtain ⟨used, c, rfl, ends⟩ := ink
  exact ⟨front ++ used, c, by rw [List.append_assoc], ends⟩

theorem InkUpTo.cons {rest s : List Char} (ink : InkUpTo rest s) (c : Char) : InkUpTo rest (c :: s) :=
  ink.append [c]

theorem scanString_ink {quote : Char} (ink : Text.isBlank quote = false) {s text rest : List Char}
    (h : scanString quote s = some (text, rest)) : InkUpTo rest s := by
  fun_induction scanString quote s generalizing text with
  | case1 => simp at h
  | case2 => simp at h
  | case3 c s ih =>
    obtain ⟨⟨inner, r⟩, read, same⟩ := Option.map_eq_some_iff.mp h
    cases same
    exact ((ih read).cons c).cons '\\'
  | case4 s =>
    cases h
    exact ⟨[], quote, rfl, ink⟩
  | case5 c s _ _ _ ih =>
    obtain ⟨⟨inner, r⟩, read, same⟩ := Option.map_eq_some_iff.mp h
    cases same
    exact (ih read).cons c

theorem scanNumber_ink {c : Char} {s rest : List Char} {t : Token} (digit : Decimal.isDigit c = true)
    (h : scanNumber (c :: s) = .ok (t, rest)) : InkUpTo rest (c :: s) := by
  unfold scanNumber at h
  cases parts : Decimal.spanDigits (c :: s) with
  | mk whole after =>
    obtain ⟨same, digits, bar⟩ := span_parts parts
    have some : whole ≠ [] := by
      rintro rfl
      rw [List.nil_append] at same
      have stops := bar c (by rw [← same]; rfl)
      rw [digit] at stops
      cases stops
    have front : InkUpTo after (c :: s) := by
      rw [same]
      exact inkUpTo_of_all some fun d mem => not_blank_of_isDigit (digits d mem)
    rw [parts] at h
    dsimp only at h
    generalize Decimal.int64? (Decimal.value whole) = read at h
    split at h
    · rename_i d more
      split at h
      · rename_i hd
        cases behind : Decimal.spanDigits (d :: more) with
        | mk fraction left =>
          rw [behind] at h
          cases h
          obtain ⟨same', places, stop⟩ := span_parts behind
          have some' : fraction ≠ [] := by
            rintro rfl
            rw [List.nil_append] at same'
            have stops := stop d (by rw [← same']; rfl)
            rw [hd] at stops
            cases stops
          rw [same, same']
          have last : InkUpTo left (fraction ++ left) :=
            inkUpTo_of_all some' fun e mem => not_blank_of_isDigit (places e mem)
          exact (last.cons '.').append whole
      · split at h <;> cases h
        exact front
    · split at h <;> cases h
      exact front

/-- No token ends with a blank. -/
theorem scanToken_ink {c : Char} {s rest : List Char} {t : Token} (h : scanToken c s = .ok (t, rest))
    (ink : Text.isBlank c = false) : InkUpTo rest (c :: s) := by
  by_cases dollar : c = '$'
  · subst dollar
    cases parts : spanIdentifier s with
    | mk name after =>
      have some : name ≠ [] := by
        rintro rfl
        simp [scanToken, parts] at h
      obtain ⟨rfl, -, -⟩ := spanIdentifier_local parts some
      rw [scanToken_variable some parts] at h
      cases h
      have word : ∀ d ∈ name, isWordChar d = true := by
        unfold spanIdentifier at parts
        split at parts
        · cases parts
          exact absurd rfl some
        · split at parts
          · exact (span_parts parts).2.1
          · cases parts
            exact absurd rfl some
      exact (inkUpTo_of_all some fun d mem => not_blank_of_isWordChar (word d mem)).cons '$'
  by_cases letter : isLetter c = true
  · cases parts : spanIdentifier (c :: s) with
    | mk name after =>
      have some := spanIdentifier_ne_nil letter parts
      have word : c :: s = name ++ after ∧ ∀ d ∈ name, isWordChar d = true := by
        simp only [spanIdentifier, letter, ↓reduceIte] at parts
        obtain ⟨same, word, -⟩ := span_parts parts
        exact ⟨same, word⟩
      unfold scanToken at h
      rw [if_neg dollar, if_pos letter, parts] at h
      cases h
      rw [word.1]
      exact inkUpTo_of_all some fun d mem => not_blank_of_isWordChar (word.2 d mem)
  by_cases digit : Decimal.isDigit c = true
  · rw [scanToken_number dollar letter digit] at h
    exact scanNumber_ink digit h
  by_cases quote : c = '\'' ∨ c = '"'
  · rw [scanToken_quoted dollar letter digit quote] at h
    split at h
    · rename_i text after parts
      cases h
      exact (scanString_ink ink parts).cons c
    · cases h
  · rw [scanToken_mark dollar letter digit quote] at h
    split at h
    · rename_i p after parts
      cases h
      have some : p.text.toList ≠ [] := by cases p <;> decide
      have ink : p.text.toList.all (fun d => !Text.isBlank d) = true := by cases p <;> decide
      rw [(eq_text_of_scanPunct parts).1]
      exact inkUpTo_of_all some fun d mem => Bool.not_eq_true' _ |>.mp (List.all_eq_true.mp ink d mem)
    · cases h

/-! ### Texts in front of what ends every token -/

theorem Scans.eq_nil_of_self {s : List Char} {ts : List Token} (h : Scans s ts s) : ts = [] := by
  cases h with
  | done => rfl
  | blank _ tail =>
    have short := tail.length_le
    rw [List.length_cons] at short
    omega
  | token _ first tail =>
    have short := tail.length_le
    obtain ⟨used, rfl, -, -⟩ := scanToken_local first
    rw [List.length_cons, List.length_append] at short
    omega

/-- What is scanned up to behind a blank is scanned up to the blank. -/
theorem Scans.stops_at_blank {s rest : List Char} {c : Char} {ts : List Token} (blank : Text.isBlank c = true)
    (h : Scans (s ++ c :: rest) ts rest) : Scans (s ++ c :: rest) ts (c :: rest) := by
  generalize whole : s ++ c :: rest = text at h ⊢
  generalize here : rest = stop at h
  induction h generalizing s with
  | done =>
    subst here
    have long := congrArg List.length whole
    simp at long
    omega
  | @blank d text stop ts blank' tail ih =>
    subst here
    cases s with
    | nil =>
      obtain ⟨rfl, rfl⟩ := List.cons.inj whole
      cases tail.eq_nil_of_self
      exact .done _
    | cons e s =>
      obtain ⟨rfl, same⟩ := List.cons.inj whole
      exact .blank blank' (ih same rfl)
  | @token d text mid stop t ts ink first tail ih =>
    subst here
    obtain ⟨used, e, same, inked⟩ := scanToken_ink first ink
    obtain ⟨m, rfl⟩ := tail.suffix
    -- what is left behind the token still has the blank at its end
    have order : s ++ [c] = (used ++ [e]) ++ m := by
      have both : (s ++ [c]) ++ rest = ((used ++ [e]) ++ m) ++ rest := by
        simpa using whole.trans same
      exact List.append_cancel_right both
    rcases List.eq_nil_or_concat m with rfl | ⟨m, last, rfl⟩
    · rw [List.append_nil] at order
      obtain ⟨-, ends⟩ := List.append_inj' order rfl
      cases ends
      rw [blank] at inked
      cases inked
    · rw [List.concat_eq_append, ← List.append_assoc] at order
      obtain ⟨-, ends⟩ := List.append_inj' order rfl
      cases ends
      exact .token ink first (ih (s := m) (by simp) rfl)

/-- The text gives these tokens in front of every character that ends all tokens. -/
def Reads (s : List Char) (ts : List Token) : Prop :=
  ∀ c rest, endsAll c = true → Scans (s ++ c :: rest) ts (c :: rest)

theorem bars_digit_of_endsAll {c : Char} (ends : endsAll c = true) (rest : List Char) :
    Bars Decimal.isDigit (c :: rest) := by
  have number := endsBefore_of_endsAll (.float 0) ends rest
  exact number

/-- A text that is an expression is one inside code as well. -/
theorem reads_of_parse {text : String} {e : Expr} (parsed : Expr.parse text = .ok e) :
    ∃ ts, Denotes ts e ∧ Reads text.toList ts := by
  obtain ⟨⟨tokens, rest⟩, scanned, next⟩ := bind_eq_ok.mp parsed
  dsimp only at next
  split at next
  · rename_i nothing
    obtain ⟨⟨e', left⟩, read, last⟩ := bind_eq_ok.mp next
    obtain ⟨own, rfl, scans⟩ := (scanFragment_iff _ _ _).mp scanned
    rw [List.dropLast_concat] at read
    dsimp only at last
    split at last
    · cases last
      obtain ⟨ts, same, derives⟩ := expressionWithin_takes _ read
      rw [List.append_nil] at same
      subst same
      refine ⟨own, derives, fun c after ends => ?_⟩
      rw [List.isEmpty_iff] at nothing
      subst nothing
      have stopped := scans.stops_at_blank (by decide)
      refine stopped.exchange fun t m us _ _ free => ?_
      by_cases some : m = []
      · subst some
        exact endsBefore_of_endsAll t ends after
      · exact endsBefore_exchange free some fun _ => bars_digit_of_endsAll ends after
    · cases last
  · cases next

/-! ### Numbers and names -/

/-- The text of a bound: an optional minus, then digits of a number that fits into 64 bits without the minus. -/
def isBound (s : List Char) : Bool :=
  match s with
  | '-' :: digits => (Decimal.natural? digits).any (· < 0x8000000000000000)
  | digits => (Decimal.natural? digits).any (· < 0x8000000000000000)

theorem int64?_of_fits {n : Nat} (fits : n < 0x8000000000000000) :
    Decimal.int64? (n : Int) = some (Int64.ofInt n) := by
  unfold Decimal.int64?
  rw [if_pos (by omega)]

theorem reads_digits {s : List Char} {n : Nat} (read : Decimal.natural? s = some n)
    (fits : n < 0x8000000000000000) : Reads s [.int (Int64.ofInt n)] := by
  obtain ⟨some, digits, value⟩ := Decimal.digits_of_natural? read
  intro c rest ends
  have scanned := scanNumber_whole digits (endsBefore_of_endsAll (.int 0) ends rest)
  rw [value, int64?_of_fits fits] at scanned
  cases s with
  | nil => exact absurd rfl some
  | cons d s =>
    have digit := digits d List.mem_cons_self
    obtain ⟨low, high⟩ := range_of_isDigit digit
    have letter : ¬ isLetter d = true := fun letter => by
      have := (range_of_isLetter letter).1
      omega
    have dollar : d ≠ '$' := by
      rintro rfl
      exact absurd low (by decide)
    exact .token (not_blank_of_isDigit digit) ((scanToken_number dollar letter digit _).trans scanned) (.done _)

theorem exists_of_any {α : Type} {x : Option α} {p : α → Bool} (h : x.any p = true) : ∃ a, x = some a ∧ p a = true := by
  cases x with
  | none => cases h
  | some a => exact ⟨a, rfl, h⟩

theorem integer?_of_natural? {s : List Char} {n : Nat} (read : Decimal.natural? s = some n) :
    Decimal.integer? s = some (n : Int) := by
  obtain ⟨-, digits, -⟩ := Decimal.digits_of_natural? read
  unfold Decimal.integer?
  split
  · exact absurd (digits '-' List.mem_cons_self) (by decide)
  · exact absurd (digits '+' List.mem_cons_self) (by decide)
  · rw [read]
    rfl

/-- The text of a bound is an expression inside code that gives the number. -/
theorem reads_bound {s : List Char} {i : Int64} (bound : isBound s = true)
    (read : Decimal.readInt64? s = some i) :
    ∃ e ts, Denotes ts e ∧ Reads s ts ∧ ∀ fs : Functions, eval fs e = pure (.int i) := by
  obtain ⟨whole, wholeRead, number⟩ := Option.bind_eq_some_iff.mp read
  have literal : ∀ v : Int64, Derives (.unary (.lit (.int v))) [.int v] := fun v => .postfixed (.int v) (.accessEnd _)
  unfold isBound at bound
  split at bound
  · rename_i digits
    obtain ⟨n, natural, fits⟩ := exists_of_any bound
    have fits := of_decide_eq_true fits
    have value : whole = -(n : Int) := by
      have same : Decimal.integer? ('-' :: digits) = some (-(n : Int)) := by
        rw [Decimal.integer?_minus, natural]
        rfl
      exact Option.some.inj (wholeRead.symm.trans same)
    subst value
    refine ⟨.neg (.lit (.int (Int64.ofInt n))), [.punct .minus, .int (Int64.ofInt n)], ?_, ?_, fun fs => ?_⟩
    · exact Derives.loosen (.unary (.minus (literal _))) (List.nil_suffix)
    · intro c rest ends
      have after := reads_digits natural fits c rest ends
      obtain ⟨some, isDigits, -⟩ := Decimal.digits_of_natural? natural
      have minus : Token.EndsBefore (.punct .minus) (digits ++ c :: rest) := by
        cases digits with
        | nil => exact absurd rfl some
        | cons d digits =>
          obtain ⟨low, high⟩ := range_of_isDigit (isDigits d List.mem_cons_self)
          refine Bars.cons (p := (· == '=')) ?_ _
          rw [beq_eq_false_iff_ne]
          rintro rfl
          exact absurd high (by decide)
      exact (scans_written (t := .punct .minus) rfl minus).append after
    · have whole : (Int64.ofInt n).toInt = n := Decimal.toInt_of_int64? (int64?_of_fits fits)
      have negated : Value.negate (.int (Int64.ofInt n)) = .ok (.int i) := by
        show Value.ofExact (-(Int64.ofInt n).toInt) = _
        unfold Value.ofExact
        rw [whole, number]
      funext s
      exact congrArg (Except.map (·, s)) negated
  · obtain ⟨n, natural, fits⟩ := exists_of_any bound
    have fits := of_decide_eq_true fits
    have value : whole = (n : Int) := Option.some.inj (wholeRead.symm.trans (integer?_of_natural? natural))
    subst value
    rw [int64?_of_fits fits] at number
    cases number
    refine ⟨.lit (.int (Int64.ofInt n)), [.int (Int64.ofInt n)], ?_, reads_digits natural fits, fun fs => rfl⟩
    exact Derives.loosen (.unary (literal _)) (List.nil_suffix)

theorem natural?_toDigits (n : Nat) : Decimal.natural? (Nat.toDigits 10 n) = some n := by
  obtain ⟨c, s, same, digits⟩ := exists_toDigits n
  unfold Decimal.natural?
  rw [if_neg, Decimal.value_toDigits]
  rw [Bool.or_eq_true, not_or, List.isEmpty_iff, Bool.not_eq_true', Bool.not_eq_false, List.all_eq_true]
  rw [same]
  exact ⟨by simp, digits⟩

/-- All numbers but the least are written as bounds. -/
theorem isBound_ofInt64 {i : Int64} (least : i ≠ Int64.minValue) :
    isBound (Decimal.ofInt64 i) = true ∧ Decimal.readInt64? (Decimal.ofInt64 i) = some i := by
  have low := Int64.le_toInt i
  have high := Int64.toInt_lt i
  have above : i.toInt ≠ -0x8000000000000000 := by
    intro same
    exact least (Int64.toInt_inj.mp (same.trans (by decide)))
  have fits : i.toInt.natAbs < 0x8000000000000000 := by omega
  have natural := natural?_toDigits i.toInt.natAbs
  unfold Decimal.readInt64? Decimal.ofInt64
  split
  · rename_i negative
    constructor
    · show (Decimal.natural? (Nat.toDigits 10 i.toInt.natAbs)).any _ = true
      rw [natural]
      exact decide_eq_true fits
    · have minus : Decimal.integer? ('-' :: Nat.toDigits 10 i.toInt.natAbs) = some i.toInt := by
        have value : -(i.toInt.natAbs : Int) = i.toInt := by omega
        simp only [Decimal.integer?, natural]
        exact congrArg some value
      rw [minus]
      exact Decimal.int64?_toInt i
  · rename_i positive
    constructor
    · obtain ⟨c, s, same, digits⟩ := exists_toDigits i.toInt.natAbs
      rw [same] at natural ⊢
      have minus : c ≠ '-' := by
        rintro rfl
        exact absurd (digits '-' List.mem_cons_self) (by decide)
      unfold isBound
      split
      · rename_i same'
        exact absurd (List.cons.inj same').1 minus
      · rw [natural]
        exact decide_eq_true fits
    · rw [integer?_of_natural? natural, Int.natAbs_of_nonneg (by omega)]
      exact Decimal.int64?_toInt i

/-- The name of a variable that is written with its dollar sign. -/
def variableName (param : String) : String := String.ofList (param.toList.drop 1)

/-- What is checked as a variable is a dollar sign and an identifier. -/
theorem isVariable_iff_isIdentifier {param : String} : Tag.isVariable param.toList = true ↔
    isIdentifier (variableName param) = true ∧ param.toList = '$' :: (variableName param).toList := by
  unfold variableName
  rw [String.toList_ofList]
  unfold isIdentifier
  rw [String.toList_ofList]
  constructor
  · intro variable'
    unfold Tag.isVariable at variable'
    split at variable'
    · rename_i c name same
      rw [same]
      exact ⟨variable', rfl⟩
    · cases variable'
  · rintro ⟨named, same⟩
    rw [same]
    cases rest : param.toList.drop 1 with
    | nil =>
      rw [rest] at named
      cases named
    | cons c name =>
      rw [rest] at named
      exact named

theorem reads_variable {param : String} (variable' : Tag.isVariable param.toList = true) :
    Reads param.toList [.var (variableName param)] := by
  intro c rest ends
  obtain ⟨named, same⟩ := isVariable_iff_isIdentifier.mp variable'
  rw [same]
  exact scans_written (t := .var (variableName param)) named (endsBefore_of_endsAll _ ends rest)

/-! ### Pieces of code -/

theorem piece_of_scans {code : List Char} (own : List Token) {t : Token}
    (scans : ∀ rest, Scans (code ++ rest) (own ++ [t]) rest) (closes : t.closesPiece = true) :
    Piece code (own ++ [t]) :=
  ⟨scans ['?', '>'], t, by simp, closes⟩

theorem scans_echo (rest : List Char) : Scans ("echo ".toList ++ rest) [.ident "echo"] rest :=
  .token (by decide) rfl (.blank (by decide) (.done rest))

theorem scans_if (rest : List Char) :
    Scans ("if (".toList ++ rest) [.ident "if", .punct .openParen] rest :=
  .token (by decide) rfl (.blank (by decide) (.token (by decide) rfl (.done rest)))

theorem scans_elseIf (rest : List Char) :
    Scans ("\x7d else if (".toList ++ rest)
      [.punct .closeBrace, .ident "else", .ident "if", .punct .openParen] rest :=
  .token (by decide) rfl (.blank (by decide) (.token (by decide) rfl (.blank (by decide) (scans_if rest))))

theorem scans_bodyStart (rest : List Char) :
    Scans (')' :: ' ' :: '\x7b' :: rest) [.punct .closeParen, .punct .openBrace] rest :=
  .token (by decide) rfl (.blank (by decide) (.token (by decide) rfl (.done rest)))

theorem piece_echo {text : String} {ts : List Token} (reads : Reads text.toList ts) :
    Piece ("echo " ++ text ++ ";").toList (.ident "echo" :: (ts ++ [.punct .semicolon])) := by
  refine piece_of_scans (.ident "echo" :: ts) (fun rest => ?_) rfl
  have semicolon : Scans (';' :: rest) [.punct .semicolon] rest := .token (by decide) rfl (.done rest)
  have order : ("echo " ++ text ++ ";").toList ++ rest = "echo ".toList ++ (text.toList ++ ';' :: rest) := by
    simp
  rw [order]
  exact (scans_echo _).append ((reads ';' rest (by decide)).append semicolon)

theorem piece_if {text : String} {ts : List Token} (reads : Reads text.toList ts) :
    Piece ("if (" ++ text ++ ") \x7b").toList (.ident "if" :: (conditionTokens ts ++ [.punct .openBrace])) := by
  refine piece_of_scans (.ident "if" :: conditionTokens ts) (fun rest => ?_) rfl
  have order : ("if (" ++ text ++ ") \x7b").toList ++ rest =
      "if (".toList ++ (text.toList ++ ')' :: ' ' :: '\x7b' :: rest) := by
    simp
  have scans := (scans_if _).append ((reads ')' _ (by decide)).append (scans_bodyStart rest))
  rw [order]
  simpa [conditionTokens] using scans

theorem piece_elseIf {text : String} {ts : List Token} (reads : Reads text.toList ts) :
    Piece ("\x7d else if (" ++ text ++ ") \x7b").toList
      (.punct .closeBrace :: .ident "else" :: .ident "if" :: (conditionTokens ts ++ [.punct .openBrace])) := by
  refine piece_of_scans (.punct .closeBrace :: .ident "else" :: .ident "if" :: conditionTokens ts)
    (fun rest => ?_) rfl
  have order : ("\x7d else if (" ++ text ++ ") \x7b").toList ++ rest =
      "\x7d else if (".toList ++ (text.toList ++ ')' :: ' ' :: '\x7b' :: rest) := by
    simp
  have scans := (scans_elseIf _).append ((reads ')' _ (by decide)).append (scans_bodyStart rest))
  rw [order]
  simpa [conditionTokens] using scans

theorem piece_else : Piece "\x7d else \x7b".toList [.punct .closeBrace, .ident "else", .punct .openBrace] :=
  piece_of_scans [.punct .closeBrace, .ident "else"]
    (fun rest => .token (by decide) rfl (.blank (by decide) (.token (by decide) rfl (.blank (by decide)
      (.token (by decide) rfl (.done rest)))))) rfl

theorem piece_bodyEnd : Piece "\x7d".toList [.punct .closeBrace] :=
  piece_of_scans [] (fun rest => .token (by decide) rfl (.done rest)) rfl

section CountHead

variable {var : String} (variable' : Tag.isVariable var.toList = true) (rest : List Char)

include variable'

theorem scans_countStart :
    Scans ("for (".toList ++ (var.toList ++ (" = ".toList ++ rest)))
      [.ident "for", .punct .openParen, .var (variableName var), .punct .assign] rest := by
  have opens : ∀ rest, Scans ("for (".toList ++ rest) [.ident "for", .punct .openParen] rest := fun rest =>
    .token (by decide) rfl (.blank (by decide) (.token (by decide) rfl (.done rest)))
  have assign : Scans (' ' :: '=' :: ' ' :: rest) [.punct .assign] rest :=
    .blank (by decide) (.token (by decide) rfl (.blank (by decide) (.done rest)))
  exact (opens _).append ((reads_variable variable' ' ' _ (by decide)).append assign)

theorem scans_countBound (descending : Bool) :
    Scans (';' :: ' ' :: (var.toList ++ ' ' :: ((if descending then ">=" else "<=").toList ++ ' ' :: rest)))
      [.punct .semicolon, .var (variableName var), boundToken descending] rest := by
  have semicolon : ∀ rest, Scans (';' :: ' ' :: rest) [.punct .semicolon] rest := fun rest =>
    .token (by decide) rfl (.blank (by decide) (.done rest))
  have bound : Scans (' ' :: ((if descending then ">=" else "<=").toList ++ ' ' :: rest)) [boundToken descending] rest := by
    cases descending <;> exact .blank (by decide) (.token (by decide) rfl (.blank (by decide) (.done rest)))
  exact (semicolon _).append ((reads_variable variable' ' ' _ (by decide)).append bound)

theorem scans_countStep :
    Scans (';' :: ' ' :: (var.toList ++ (" += ".toList ++ rest)))
      [.punct .semicolon, .var (variableName var), .punct .plusAssign] rest := by
  have semicolon : ∀ rest, Scans (';' :: ' ' :: rest) [.punct .semicolon] rest := fun rest =>
    .token (by decide) rfl (.blank (by decide) (.done rest))
  have plus : Scans (' ' :: '+' :: '=' :: ' ' :: rest) [.punct .plusAssign] rest :=
    .blank (by decide) (.token (by decide) rfl (.blank (by decide) (.done rest)))
  exact (semicolon _).append ((reads_variable variable' ' ' _ (by decide)).append plus)

end CountHead

theorem piece_count {var first last step : String} {ts us vs : List Token} (descending : Bool)
    (variable' : Tag.isVariable var.toList = true) (firstReads : Reads first.toList ts)
    (lastReads : Reads last.toList us) (stepReads : Reads step.toList vs) :
    Piece ("for (" ++ var ++ " = " ++ first ++ "; " ++ var ++ " " ++ (if descending then ">=" else "<=") ++ " " ++
        last ++ "; " ++ var ++ " += " ++ step ++ ") \x7b").toList
      (.ident "for" :: (countTokens (variableName var) descending ts us vs ++ [.punct .openBrace])) := by
  refine piece_of_scans (.ident "for" :: countTokens (variableName var) descending ts us vs)
    (fun rest => ?_) rfl
  have scans := (scans_countStart variable' _).append ((firstReads ';' _ (by decide)).append
    ((scans_countBound variable' _ descending).append ((lastReads ';' _ (by decide)).append
      ((scans_countStep variable' _).append ((stepReads ')' _ (by decide)).append (scans_bodyStart rest))))))
  simpa [countTokens] using scans

theorem piece_each {list : String} (key : Option String) {value : String} {ts : List Token}
    (reads : Reads list.toList ts) (named : ∀ name ∈ key, Tag.isVariable name.toList = true)
    (variable' : Tag.isVariable value.toList = true) :
    Piece ("foreach (" ++ list ++ " as " ++ (key.elim value (· ++ " => " ++ value)) ++ ") \x7b").toList
      (.ident "foreach" ::
        (conditionTokens (ts ++ .ident "as" :: entryTokens (key.map variableName) (variableName value)) ++
          [.punct .openBrace])) := by
  refine piece_of_scans (.ident "foreach" ::
    conditionTokens (ts ++ .ident "as" :: entryTokens (key.map variableName) (variableName value)))
    (fun rest => ?_) rfl
  have opens : ∀ rest, Scans ("foreach (".toList ++ rest) [.ident "foreach", .punct .openParen] rest := fun rest =>
    .token (by decide) rfl (.blank (by decide) (.token (by decide) rfl (.done rest)))
  have word : ∀ rest, Scans (' ' :: 'a' :: 's' :: ' ' :: rest) [.ident "as"] rest := fun rest =>
    .blank (by decide) (.token (by decide) rfl (.blank (by decide) (.done rest)))
  have arrow : ∀ rest, Scans (' ' :: '=' :: '>' :: ' ' :: rest) [.punct .arrow] rest := fun rest =>
    .blank (by decide) (.token (by decide) rfl (.blank (by decide) (.done rest)))
  have last := (reads_variable variable' ')' _ (by decide)).append (scans_bodyStart rest)
  have front := fun rest => (opens _).append ((reads ' ' _ (by decide)).append (word rest))
  cases key with
  | none =>
    have scans := (front _).append last
    simpa [conditionTokens, entryTokens] using scans
  | some name =>
    have scans := (front _).append ((reads_variable (named name rfl) ' ' _ (by decide)).append ((arrow _).append last))
    simpa [conditionTokens, entryTokens] using scans

/-! #### Code for other languages -/

/-- The tokens of a call of `_`. -/
def localizedTokens (ts : List Token) : List Token :=
  .ident "_" :: .punct .openParen :: (ts ++ [.punct .closeParen])

/-- What stands on its own is an expression. -/
theorem denotes_of_primary {ts : List Token} {e : Expr} (primary : Derives (.primary e) ts) : Denotes ts e := by
  have operand := Derives.unary (.postfixed primary (.accessEnd e))
  rw [List.append_nil] at operand
  exact operand.loosen List.nil_suffix

theorem denotes_localized {ts : List Token} {e : Expr} (denotes : Denotes ts e) :
    Denotes (localizedTokens ts) (.call "_" [e]) :=
  denotes_of_primary (.call (by decide) (.lastArgument denotes))

theorem piece_localized (s : String) :
    Piece (Tag.localized s).toList (.ident "echo" :: (localizedTokens [.str s] ++ [.punct .semicolon])) := by
  refine piece_of_scans (.ident "echo" :: localizedTokens [.str s]) (fun rest => ?_) rfl
  have opens : ∀ rest, Scans ("_(".toList ++ rest) [.ident "_", .punct .openParen] rest := fun rest =>
    .token (by decide) rfl (.token (by decide) rfl (.done rest))
  have text : ∀ rest, Scans (Text.quoted s.toList ++ rest) [.str s] rest := fun rest =>
    scans_written (t := .str s) rfl trivial
  have closes : ∀ rest, Scans (')' :: ';' :: rest) [.punct .closeParen, .punct .semicolon] rest := fun rest =>
    .token (by decide) rfl (.token (by decide) rfl (.done rest))
  have scans := (scans_echo _).append ((opens _).append ((text _).append (closes rest)))
  simpa [Tag.localized, localizedTokens] using scans

theorem piece_startBuffer :
    Piece "ob_start();".toList [.ident "ob_start", .punct .openParen, .punct .closeParen, .punct .semicolon] :=
  piece_of_scans [.ident "ob_start", .punct .openParen, .punct .closeParen]
    (fun rest => .token (by decide) rfl (.token (by decide) rfl (.token (by decide) rfl (.token (by decide) rfl
      (.done rest))))) rfl

/-- The tokens of the call that ends a buffer. -/
def bufferTokens : List Token := [.ident bufferCall, .punct .openParen, .punct .closeParen]

theorem denotes_buffer : Denotes bufferTokens (.call bufferCall []) :=
  denotes_of_primary (.callNone (by decide))

theorem piece_gathered :
    Piece "echo _(ob_get_clean());".toList (.ident "echo" :: (localizedTokens bufferTokens ++ [.punct .semicolon])) := by
  refine piece_of_scans (.ident "echo" :: localizedTokens bufferTokens) (fun rest => ?_) rfl
  have call : Scans ("_(ob_get_clean());".toList ++ rest)
      (localizedTokens bufferTokens ++ [.punct .semicolon]) rest :=
    .token (by decide) rfl (.token (by decide) rfl (.token (by decide) rfl (.token (by decide) rfl
      (.token (by decide) rfl (.token (by decide) rfl (.token (by decide) rfl (.done rest)))))))
  exact (scans_echo _).append call

end Stencil.Artifact
