import Stencil.Proofs.Artifact.Composing
import Stencil.Proofs.Tree.Writing

/-!
The code of loops over numbers: which bounds can be written down, and that no program is read from the others. A plus
sign begins no expression, and the digits of the least number of 64 bits are too large without their minus.
-/
namespace Stencil

theorem Text.strip_eq_self {s middle : List Char} {first last : Char} (ends : s = first :: (middle ++ [last]))
    (firstInk : isBlank first = false ∧ first ≠ byteOrderMark) (lastInk : isBlank last = false ∧ last ≠ byteOrderMark) :
    strip s = s := by
  subst ends
  have start : ∀ p : Char → Bool, p first = false → (first :: (middle ++ [last])).dropWhile p = first :: (middle ++ [last]) :=
    fun p ink => List.dropWhile_cons_of_neg (by rw [ink]; exact Bool.false_ne_true)
  have finish : ∀ p : Char → Bool, p last = false →
      dropWhileEnd p (first :: (middle ++ [last])) = first :: (middle ++ [last]) := by
    intro p ink
    unfold dropWhileEnd
    rw [← List.cons_append, List.reverse_append, List.reverse_singleton, List.singleton_append,
      List.dropWhile_cons_of_neg (by rw [ink]; exact Bool.false_ne_true)]
    simp
  have trimmed : trim (first :: (middle ++ [last])) = first :: (middle ++ [last]) := by
    unfold trim trimStart trimEnd
    rw [start _ firstInk.1, finish _ lastInk.1]
  unfold strip
  rw [trimmed, start _ (by simpa using firstInk.2), finish _ (by simpa using lastInk.2), trimmed]

namespace Artifact

theorem exists_of_renders_concat {pieces out : List Segment} {last : List Char} (some : last ≠ [])
    (renders : Renders (pieces ++ [.code last]) out) : ∃ inner, out = inner ++ [.code last] := by
  induction pieces generalizing out with
  | nil =>
    cases renders with
    | empty => exact absurd rfl some
    | code _ tail =>
      cases tail
      exact ⟨[], rfl⟩
  | cons piece pieces ih =>
    cases renders with
    | text _ tail =>
      obtain ⟨inner, rfl⟩ := ih tail
      exact ⟨_, (List.append_assoc ..).symm⟩
    | empty tail => exact ih tail
    | code _ tail =>
      obtain ⟨inner, rfl⟩ := ih tail
      exact ⟨_, (List.cons_append ..).symm⟩

/-- An artifact that begins and ends with code has nothing at its ends that is taken off. -/
theorem finish_of_code_ends {first last : List Char} (some : first ≠ []) (some' : last ≠ []) (middle : List Segment) :
    ∃ inner, ∀ strip, (Written.ofPieces (.code first :: (middle ++ [.code last]))).finish strip =
      String.ofList ('<' :: '?' :: (first ++ (inner ++ ['?', '>']))) := by
  obtain ⟨-, out, extended, renders⟩ := add_renders broken_nil (.code first :: (middle ++ [.code last]))
  have written : Written.ofPieces (.code first :: (middle ++ [.code last])) = out.reverse := by
    unfold Extends at extended
    rw [List.append_nil] at extended
    exact extended
  obtain ⟨more, rfl⟩ : ∃ more, out = .code first :: (more ++ [.code last]) := by
    cases renders with
    | empty => exact absurd rfl some
    | code _ tail =>
      obtain ⟨more, rfl⟩ := exists_of_renders_concat some' tail
      exact ⟨more, rfl⟩
  obtain ⟨inner, same⟩ := charsFrom_code true more last
  have chars : Written.chars (Written.ofPieces (.code first :: (middle ++ [.code last]))) =
      '<' :: '?' :: (first ++ (inner ++ ['?', '>'])) := by
    rw [written]
    unfold Written.chars
    rw [List.reverse_reverse]
    show Written.opener ++ first ++ Written.charsFrom true (more ++ [.code last]) = _
    rw [same]
    simp [Written.opener, Written.charsFrom, Written.closer]
  refine ⟨inner, fun strip => ?_⟩
  have ends : '<' :: '?' :: (first ++ (inner ++ ['?', '>'])) = '<' :: (('?' :: (first ++ inner ++ ['?'])) ++ ['>']) := by
    simp
  unfold Written.finish
  rw [chars, Text.strip_eq_self ends (by decide) (by decide), ite_self]

/-- A number that is spelled without a plus sign is the text of a bound, unless it is the least of all. -/
theorem isBound_of_read {s : List Char} {i : Int64} (read : Decimal.readInt64? s = some i) (unsigned : s.head? ≠ some '+')
    (least : i ≠ Int64.minValue) : isBound s = true := by
  obtain ⟨whole, wholeRead, number⟩ := Option.bind_eq_some_iff.mp read
  have value := Decimal.toInt_of_int64? number
  have low := i.le_toInt
  have high := i.toInt_lt
  have above : i.toInt ≠ -0x8000000000000000 := fun same => least (Int64.toInt_inj.mp (same.trans (by decide)))
  by_cases minus : s.head? = some '-'
  · obtain ⟨digits, rfl⟩ := List.head?_eq_some_iff.mp minus
    rw [Decimal.integer?_minus] at wholeRead
    obtain ⟨n, natural, rfl⟩ := Option.map_eq_some_iff.mp wholeRead
    show (Decimal.natural? digits).any _ = true
    rw [natural]
    exact decide_eq_true (by omega)
  · have plain : Decimal.integer? s = (Decimal.natural? s).map Int.ofNat := by
      unfold Decimal.integer?
      split
      · exact absurd rfl minus
      · exact absurd rfl unsigned
      · rfl
    rw [plain] at wholeRead
    obtain ⟨n, natural, same⟩ := Option.map_eq_some_iff.mp wholeRead
    have same : (n : Int) = whole := same
    unfold isBound
    split
    · exact absurd rfl minus
    · rw [natural]
      exact decide_eq_true (by omega)

/-- The text of a bound has no plus sign, and is not that of the least number. -/
theorem of_isBound {s : List Char} {i : Int64} (read : Decimal.readInt64? s = some i) (bound : isBound s = true) :
    s.head? ≠ some '+' ∧ i ≠ Int64.minValue := by
  obtain ⟨whole, wholeRead, number⟩ := Option.bind_eq_some_iff.mp read
  have value := Decimal.toInt_of_int64? number
  have least : Int64.minValue.toInt = -0x8000000000000000 := by decide
  unfold isBound at bound
  split at bound
  · rename_i digits
    obtain ⟨n, natural, fits⟩ := exists_of_any bound
    have fits := of_decide_eq_true fits
    rw [Decimal.integer?_minus, natural] at wholeRead
    cases wholeRead
    have value : i.toInt = -(n : Int) := value
    refine ⟨by simp, ?_⟩
    rintro rfl
    omega
  · obtain ⟨n, natural, -⟩ := exists_of_any bound
    obtain ⟨-, digits, -⟩ := Decimal.digits_of_natural? natural
    rw [integer?_of_natural? natural] at wholeRead
    cases wholeRead
    constructor
    · intro plus
      obtain ⟨more, rfl⟩ := List.head?_eq_some_iff.mp plus
      exact absurd (digits '+' List.mem_cons_self) (by decide)
    · rintro rfl
      omega

/-- Texts are written in order. -/
theorem composes_texts (texts : List String) :
    ∃ stmts, Composes (.body stmts) (texts.flatMap Segment.ofText) ∧
      ∀ fs, execAll fs stmts = Run.write (String.join texts) := by
  induction texts with
  | nil =>
    refine ⟨[], .done, fun fs => ?_⟩
    rw [execAll]
    exact write_empty.symm
  | cons text texts ih =>
    obtain ⟨stmts, composes, same⟩ := ih
    rw [List.flatMap_cons, String.join_cons]
    by_cases empty : text.isEmpty = true
    · have nothing : Segment.ofText text = [] := if_pos empty
      rw [String.isEmpty_iff] at empty
      subst empty
      rw [nothing, String.empty_append]
      exact ⟨stmts, composes, same⟩
    · have one : Segment.ofText text = [.text text.toList] := if_neg empty
      rw [one]
      refine ⟨.text text :: stmts, .statement (.text text) composes, fun fs => ?_⟩
      rw [execAll, same, exec, write_append]

/-! ### Bounds that cannot be written down -/

/-- What stands in front of code is scanned first, whatever comes behind. -/
theorem Scans.split {s mid rest : List Char} {ts own : List Token} (first : Scans s ts mid)
    (whole : Scans s own ('?' :: '>' :: rest)) : ∃ us, own = ts ++ us ∧ Scans mid us ('?' :: '>' :: rest) := by
  induction first generalizing own with
  | done => exact ⟨own, rfl, whole⟩
  | blank blank _ ih =>
    cases whole with
    | done => exact absurd blank (by decide)
    | blank _ tail => exact ih tail
    | token ink => exact absurd blank (by rw [ink]; exact Bool.false_ne_true)
  | token ink scanned _ ih =>
    cases whole with
    | done => exact absurd rfl (Scans.no_token_at_mark scanned)
    | blank blank => exact absurd blank (by rw [ink]; exact Bool.false_ne_true)
    | token _ scanned' tail =>
      cases scanned.symm.trans scanned'
      obtain ⟨us, rfl, scans⟩ := ih tail
      exact ⟨us, rfl, scans⟩

/-- Digits of a number that does not fit are no token. -/
theorem not_scans_of_large {digits : List Char} {n : Nat} (natural : Decimal.natural? digits = some n)
    (large : 0x8000000000000000 ≤ n) {c : Char} (ends : endsAll c = true) (rest : List Char) {us : List Token}
    {after : List Char} : ¬ Scans (digits ++ c :: rest) us ('?' :: '>' :: after) := by
  obtain ⟨some, areDigits, value⟩ := Decimal.digits_of_natural? natural
  have scanned := scanNumber_whole areDigits (endsBefore_of_endsAll (.int 0) ends rest)
  have none : Decimal.int64? (n : Int) = none := by
    unfold Decimal.int64?
    rw [if_neg (by omega)]
  rw [value, none] at scanned
  cases digits with
  | nil => exact absurd rfl some
  | cons d digits =>
    have digit := areDigits d List.mem_cons_self
    obtain ⟨low, high⟩ := range_of_isDigit digit
    have letter : ¬ isLetter d = true := fun letter => by
      have := (range_of_isLetter letter).1
      omega
    have dollar : d ≠ '$' := by
      rintro rfl
      exact absurd low (by decide)
    intro scans
    generalize behind : digits ++ c :: rest = more at scans scanned
    have start : d :: digits ++ c :: rest = d :: more := by rw [List.cons_append, behind]
    rw [start] at scans
    cases scans with
    | done => exact absurd high (by decide)
    | blank blank => exact absurd blank (by rw [not_blank_of_isDigit digit]; exact Bool.false_ne_true)
    | token _ first =>
      rw [scanToken_number dollar letter digit, ← behind] at first
      have fails := scanned.symm.trans first
      cases fails

/-- A number that is no bound begins with a plus sign, or is not scanned at all. -/
theorem plus_of_not_isBound {s : List Char} {i : Int64} (read : Decimal.readInt64? s = some i)
    (bad : isBound s = false) {c : Char} (ends : endsAll c = true) {rest after : List Char} {us : List Token}
    (scans : Scans (s ++ c :: rest) us ('?' :: '>' :: after)) : ∃ vs, us = .punct .plus :: vs := by
  obtain ⟨whole, wholeRead, number⟩ := Option.bind_eq_some_iff.mp read
  have value := Decimal.toInt_of_int64? number
  have low := i.le_toInt
  have high := i.toInt_lt
  have numeral : ∀ digits n, Decimal.natural? digits = some n → ∃ d more, digits = d :: more ∧ d ≠ '=' := by
    intro digits n natural
    obtain ⟨some, areDigits, -⟩ := Decimal.digits_of_natural? natural
    cases digits with
    | nil => exact absurd rfl some
    | cons d more =>
      refine ⟨d, more, rfl, ?_⟩
      rintro rfl
      exact absurd (areDigits '=' List.mem_cons_self) (by decide)
  by_cases minus : s.head? = some '-'
  · obtain ⟨digits, rfl⟩ := List.head?_eq_some_iff.mp minus
    rw [Decimal.integer?_minus] at wholeRead
    obtain ⟨n, natural, rfl⟩ := Option.map_eq_some_iff.mp wholeRead
    have large : 0x8000000000000000 ≤ n := by
      have below : ¬ n < 0x8000000000000000 := by
        intro fits
        have bound : isBound ('-' :: digits) = true := by
          show (Decimal.natural? digits).any _ = true
          rw [natural]
          exact decide_eq_true fits
        exact absurd (bound.symm.trans bad) (by decide)
      omega
    obtain ⟨d, more, rfl, other⟩ := numeral digits n natural
    have first : Scans ('-' :: (d :: more ++ c :: rest)) [.punct .minus] (d :: more ++ c :: rest) :=
      scans_written (t := .punct .minus) rfl (Bars.cons (p := (· == '=')) (beq_eq_false_iff_ne.mpr other) _)
    obtain ⟨us', -, more⟩ := first.split scans
    exact absurd more (not_scans_of_large natural large ends rest)
  · by_cases plus : s.head? = some '+'
    · obtain ⟨digits, rfl⟩ := List.head?_eq_some_iff.mp plus
      have plain : Decimal.integer? ('+' :: digits) = (Decimal.natural? digits).map Int.ofNat := rfl
      rw [plain] at wholeRead
      obtain ⟨n, natural, -⟩ := Option.map_eq_some_iff.mp wholeRead
      obtain ⟨d, more, rfl, other⟩ := numeral digits n natural
      have first : Scans ('+' :: (d :: more ++ c :: rest)) [.punct .plus] (d :: more ++ c :: rest) :=
        scans_written (t := .punct .plus) rfl (Bars.cons (p := (· == '=')) (beq_eq_false_iff_ne.mpr other) _)
      obtain ⟨us', rfl, -⟩ := first.split scans
      exact ⟨us', rfl⟩
    · have least : i ≠ Int64.minValue := by
        rintro rfl
        have plain : Decimal.integer? s = (Decimal.natural? s).map Int.ofNat := by
          unfold Decimal.integer?
          split
          · exact absurd rfl minus
          · exact absurd rfl plus
          · rfl
        rw [plain] at wholeRead
        obtain ⟨n, natural, same⟩ := Option.map_eq_some_iff.mp wholeRead
        have same : (n : Int) = whole := same
        have least : Int64.minValue.toInt = -0x8000000000000000 := by decide
        omega
      exact absurd ((isBound_of_read read plus least).symm.trans bad) (by decide)

/-- No expression begins with a plus sign. -/
theorem expression_plus (rest : List Token) : ∃ e, expression (.punct .plus :: rest) = .error e :=
  ⟨_, binaryRows_error rfl operatorRows⟩

/-- What is read of an artifact that begins with a fragment begins with the tokens of the fragment. -/
theorem scans_of_scan {code : List Char} {tokens : List Token}
    (scanned : scan (String.ofList ('<' :: '?' :: code)) = .ok tokens) :
    ∃ own rest more, Scans code own ('?' :: '>' :: rest) ∧ tokens = own ++ more := by
  unfold scan at scanned
  rw [String.toList_ofList, List.length_cons, scanFrom] at scanned
  have split : Text.splitAt? fragmentOpener ('<' :: '?' :: code) = some ([], code) :=
    splitAt?_opener (s := []) (by decide) code
  rw [split] at scanned
  dsimp only at scanned
  split at scanned
  · cases scanned
  · rename_i ts rest fragment
    obtain ⟨own, rfl, scans⟩ := (scanFragmentFrom_iff (by simp) _ _).mp fragment
    generalize scanFrom _ rest = more at scanned
    cases more with
    | error e => cases scanned
    | ok more =>
      cases scanned
      exact ⟨own, rest, .fragmentEnd :: more, scans, by simp [textToken]⟩

/-- Statements that begin with a loop over numbers are read if the loop is. -/
theorem exists_countStatement {tokens : List Token} {r : List Stmt × List Token}
    (read : block (.ident "for" :: tokens) = .ok r) : ∃ inner s rest, countStatement inner tokens = .ok (s, rest) := by
  unfold block blockWithin statements at read
  obtain ⟨⟨s, rest⟩, first, -⟩ := bind_eq_ok.mp read
  exact ⟨_, s, rest, first⟩

/-- What a loop over numbers is read from: behind its first bound, which is an expression, the second one follows. -/
theorem bounds_of_countStatement {inner : Parser (List Stmt)} {var : String} {tokens rest : List Token} {s : Stmt}
    (read : countStatement inner (.punct .openParen :: .var var :: .punct .assign :: tokens) = .ok (s, rest)) :
    ∃ first behind, expression tokens = .ok (first, behind) ∧ ∀ descending after,
      behind = .punct .semicolon :: .var var :: boundToken descending :: after →
        ∃ last behind, expression after = .ok (last, behind) := by
  obtain ⟨_, opened, read⟩ := bind_eq_ok.mp read
  cases opened
  obtain ⟨_, named, read⟩ := bind_eq_ok.mp read
  cases named
  obtain ⟨_, assigned, read⟩ := bind_eq_ok.mp read
  cases assigned
  obtain ⟨⟨first, behind⟩, firstRead, read⟩ := bind_eq_ok.mp read
  refine ⟨first, behind, firstRead, fun descending after same => ?_⟩
  subst same
  obtain ⟨_, parted, read⟩ := bind_eq_ok.mp read
  cases parted
  obtain ⟨_, repeated, read⟩ := bind_eq_ok.mp read
  cases (sameVariable_self var _).symm.trans repeated
  obtain ⟨_, bound, read⟩ := bind_eq_ok.mp read
  cases (loopBound_boundToken descending _).symm.trans bound
  obtain ⟨⟨last, behind⟩, lastRead, -⟩ := bind_eq_ok.mp read
  exact ⟨last, behind, lastRead⟩

/-- No program is read from the code of a loop with a number that cannot be written down, whatever comes behind. -/
theorem not_parse_of_not_isBound {var first last step : String} {i j : Int64} (descending : Bool)
    (variable' : Tag.isVariable var.toList = true) (firstRead : Decimal.readInt64? first.toList = some i)
    (lastRead : Decimal.readInt64? last.toList = some j) (unwritable : isBound first.toList = false ∨
      isBound last.toList = false ∨ step = String.ofList (Decimal.ofInt64 Int64.minValue)) (more : List Char)
    (stmts : List Stmt) :
    parseStatements (String.ofList ('<' :: '?' ::
      (("for (" ++ var ++ " = " ++ first ++ "; " ++ var ++ " " ++ (if descending then ">=" else "<=") ++ " " ++
        last ++ "; " ++ var ++ " += " ++ step ++ ") \x7b").toList ++ more))) ≠ .ok stmts := by
  intro parsed
  obtain ⟨tokens, scanned, parsed⟩ := bind_eq_ok.mp parsed
  obtain ⟨r, read, -⟩ := bind_eq_ok.mp parsed
  obtain ⟨own, rest, behind, scans, rfl⟩ := scans_of_scan scanned
  have order : ("for (" ++ var ++ " = " ++ first ++ "; " ++ var ++ " " ++ (if descending then ">=" else "<=") ++ " " ++
        last ++ "; " ++ var ++ " += " ++ step ++ ") \x7b").toList ++ more =
      "for (".toList ++ (var.toList ++ (" = ".toList ++ (first.toList ++ ';' :: ' ' :: (var.toList ++ ' ' ::
        ((if descending then ">=" else "<=").toList ++ ' ' :: (last.toList ++ ';' :: ' ' :: (var.toList ++
          (" += ".toList ++ (step.toList ++ ')' :: ' ' :: '\x7b' :: more)))))))))  := by
    simp
  rw [order] at scans
  obtain ⟨us, rfl, firstScans⟩ := (scans_countStart variable' _).split scans
  obtain ⟨inner, s, tail, counted⟩ := exists_countStatement read
  obtain ⟨e, behind', firstExpression, onward⟩ := bounds_of_countStatement counted
  change expression (us ++ behind) = _ at firstExpression
  cases bound : isBound first.toList with
  | false =>
    obtain ⟨vs, rfl⟩ := plus_of_not_isBound firstRead bound (by decide) firstScans
    obtain ⟨fault, none⟩ := expression_plus (vs ++ behind)
    cases none.symm.trans firstExpression
  | true =>
    obtain ⟨_, ts, denotes, reads, -⟩ := reads_bound bound firstRead
    obtain ⟨us, rfl, boundScans⟩ := (reads ';' _ (by decide)).split firstScans
    obtain ⟨us, rfl, lastScans⟩ := (scans_countBound variable' _ descending).split boundScans
    have closed : expression (ts ++ .punct .semicolon :: .var (variableName var) :: boundToken descending ::
        (us ++ behind)) = _ := denotes.expression_closed rfl
    rw [List.append_assoc] at firstExpression
    cases closed.symm.trans firstExpression
    obtain ⟨e', behind'', lastExpression⟩ := onward descending (us ++ behind) rfl
    cases bound' : isBound last.toList with
    | false =>
      obtain ⟨vs, rfl⟩ := plus_of_not_isBound lastRead bound' (by decide) lastScans
      obtain ⟨fault, none⟩ := expression_plus (vs ++ behind)
      cases none.symm.trans lastExpression
    | true =>
      obtain ⟨_, ts, denotes, reads, -⟩ := reads_bound bound' lastRead
      obtain ⟨us, rfl, stepScans⟩ := (reads ';' _ (by decide)).split lastScans
      obtain ⟨us, rfl, numberScans⟩ := (scans_countStep variable' _).split stepScans
      rw [bound, bound'] at unwritable
      have least : step = String.ofList (Decimal.ofInt64 Int64.minValue) := by simpa using unwritable
      have digits : step.toList = '-' :: "9223372036854775808".toList := by
        rw [least]
        decide
      rw [digits] at numberScans
      have minus : ∀ rest, Scans ('-' :: "9223372036854775808".toList ++ rest) [.punct .minus]
          ("9223372036854775808".toList ++ rest) := fun rest => .token (by decide) rfl (.done _)
      obtain ⟨us, -, digitScans⟩ := (minus _).split numberScans
      exact not_scans_of_large (n := 9223372036854775808) (by decide) (by decide) (by decide) _ digitScans

end Artifact

end Stencil
