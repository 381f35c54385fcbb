import Mathlib
import Stencil.Proofs.Artifact.CountCode
import Stencil.Proofs.Artifact.Statements
import Stencil.Proofs.Artifact.Stripping

/-!
Pieces of code that share a fragment. The writer takes the fragment ends between neighbouring pieces away, and with
them what may have ended a statement. Where every piece ends its last statement itself, or the next one does, the
statements stay what they are when each piece stands in a fragment of its own.
-/
namespace Stencil

namespace Artifact

/-- A text that stands inside a fragment is cut into these tokens. -/
def Inside (s : List Char) (ts : List Token) : Prop :=
  ∃ own rest more, Scans s own ('?' :: '>' :: rest) ∧ Cuts rest more ∧ ts = own ++ .fragmentEnd :: more

/-- An artifact that starts with a fragment. -/
theorem cuts_opener_iff {s : List Char} {ts : List Token} : Cuts (fragmentOpener ++ s) ts ↔ Inside s ts := by
  constructor
  · intro cuts
    generalize whole : fragmentOpener ++ s = artifact at cuts
    cases cuts with
    | text plain =>
      subst whole
      exact absurd (List.prefix_append _ _).isInfix plain
    | @fragment before code rest own more plain scans cuts =>
      match before with
      | [] =>
        cases whole
        exact ⟨own, rest, more, scans, cuts, by simp [textToken]⟩
      | [c] => cases whole
      | c :: d :: before =>
        cases whole
        exact absurd ⟨[], before, rfl⟩ plain
  · rintro ⟨own, rest, more, scans, cuts, rfl⟩
    have plain : ¬ fragmentOpener <:+: [] := by simp [fragmentOpener]
    simpa [textToken] using Cuts.fragment plain scans cuts

/-- An artifact that ends with the end of a fragment ends with a fragment. -/
theorem Cuts.of_fragmentEnd {s : List Char} {ts : List Token} (cuts : Cuts s (ts ++ [.fragmentEnd])) :
    ∃ before code us, s = before ++ (fragmentOpener ++ code) ∧ ¬ fragmentOpener <:+: before ∧
      ts = textToken before ++ us ∧ Inside code (us ++ [.fragmentEnd]) := by
  generalize whole : ts ++ [Token.fragmentEnd] = tokens at cuts
  cases cuts with
  | text plain =>
    unfold textToken at whole
    split at whole
    · simp at whole
    · have same := List.append_inj' (whole.trans (List.nil_append _).symm) rfl
      cases same.2
  | @fragment before code rest own more plain scans cuts =>
    rcases more.eq_nil_or_concat with rfl | ⟨more, t, rfl⟩
    · rw [List.append_nil, ← List.append_assoc] at whole
      obtain ⟨rfl, -⟩ := List.append_inj' whole rfl
      exact ⟨before, code, own, rfl, plain, rfl, own, rest, [], scans, cuts, rfl⟩
    · rw [List.concat_eq_append, ← List.append_assoc] at whole
      obtain ⟨rfl, same⟩ := List.append_inj' whole rfl
      cases same
      refine ⟨before, code, own ++ .fragmentEnd :: more, rfl, plain, by simp, own, rest, _, scans, cuts, by simp⟩

/-- The last closer of an artifact is in the code of its last fragment. -/
theorem exists_of_closer {front code s : List Char} {ts : List Token} (inside : Inside code ts)
    (whole : s ++ Written.closer = front ++ code) : ∃ inner, code = inner ++ Written.closer ∧ s = front ++ inner := by
  obtain ⟨own, rest, more, scans, -, -⟩ := inside
  obtain ⟨used, rfl⟩ := scans.suffix
  have suffix : Written.closer <:+ used ++ '?' :: '>' :: rest :=
    List.suffix_of_suffix_length_le (whole ▸ List.suffix_append _ _) (List.suffix_append _ _)
      (by simp [Written.closer]; omega)
  obtain ⟨inner, same⟩ := suffix
  refine ⟨inner, same.symm, ?_⟩
  rw [← same, ← List.append_assoc] at whole
  exact List.append_cancel_right whole

theorem Token.endsBefore_of_endsStatement {t : Token} (ends : t.endsStatement = true) :
    t ≠ .punct .dot ∧ ∀ s, t.EndsBefore s := by
  unfold Token.endsStatement at ends
  split at ends
  · exact ⟨by simp, fun _ => trivial⟩
  · exact ⟨by simp, fun _ => trivial⟩
  · exact ⟨by simp, fun _ => trivial⟩
  · exact ⟨by simp, fun _ => trivial⟩
  · cases ends

/-- Code goes on where its last fragment ended, if its last token ends there. -/
theorem Inside.join {code next : List Char} {ts us : List Token}
    (inside : Inside (code ++ Written.closer) (ts ++ [.fragmentEnd])) (follow : Inside next us)
    (safe : (∀ t ∈ ts.getLast?, t.endsStatement = true) ∨ ∃ c ∈ next.head?, endsAll c = true) :
    Inside (code ++ next) (ts ++ us) := by
  induction size : code.length using Nat.strongRecOn generalizing code ts with
  | ind n ih =>
    subst size
    obtain ⟨own, rest, more, scans, cuts, same⟩ := inside
    rcases more.eq_nil_or_concat with rfl | ⟨more, t, rfl⟩
    · -- the closer behind the code is the first one
      obtain ⟨rfl, -⟩ := List.append_inj' same rfl
      have last : rest = [] := by
        generalize none : ([] : List Token) = none at cuts
        cases cuts with
        | text plain =>
          unfold textToken at none
          split at none
          · rename_i empty
            exact List.isEmpty_iff.mp empty
          · cases none
        | fragment => simp at none
      subst last
      have ended : Scans (code ++ next) ts next :=
        scans.before (safe.imp (fun ends t last => Token.endsBefore_of_endsStatement (ends t last)) id)
      obtain ⟨own', rest', more', scans', cuts', rfl⟩ := follow
      exact ⟨ts ++ own', rest', more', ended.append scans', cuts', by simp⟩
    · rw [List.concat_eq_append, ← List.cons_append, ← List.append_assoc] at same
      obtain ⟨rfl, last⟩ := List.append_inj' same rfl
      cases last
      rw [List.concat_eq_append] at cuts
      obtain ⟨before, inner, vs, rfl, plain, rfl, insideInner⟩ := cuts.of_fragmentEnd
      obtain ⟨used, whole⟩ := scans.suffix
      have parts : code ++ Written.closer = (used ++ '?' :: '>' :: (before ++ fragmentOpener)) ++ inner := by
        rw [whole]
        simp
      obtain ⟨inner, rfl, rfl⟩ := exists_of_closer insideInner parts
      have safeInner : (∀ t ∈ vs.getLast?, t.endsStatement = true) ∨ ∃ c ∈ next.head?, endsAll c = true := by
        refine safe.imp (fun ends t last => ends t ?_) id
        rw [← List.cons_append, ← List.append_assoc, List.getLast?_append, Option.mem_def.mp last]
        rfl
      have shorter : inner.length < (used ++ '?' :: '>' :: (before ++ fragmentOpener) ++ inner).length := by
        simp [fragmentOpener]
        omega
      have joined := ih _ shorter insideInner safeInner rfl
      have front : Scans (used ++ '?' :: '>' :: (before ++ (fragmentOpener ++ (inner ++ next)))) own
          ('?' :: '>' :: (before ++ (fragmentOpener ++ (inner ++ next)))) := by
        rw [whole] at scans
        exact scans.exchange_behind_closer
      obtain ⟨own', rest', more', scans', cuts', same'⟩ := joined
      refine ⟨own, _, _, by simpa using front, .fragment plain scans' cuts', ?_⟩
      simp [same']

/-! ### Pieces that share a fragment -/

/-- A piece of code in a fragment of its own. -/
def fragment (code : List Char) : String := String.ofList (Written.opener ++ code ++ Written.closer)

/-- The piece ends inside the fragment and not in text behind it. -/
def EndsInCode (code : List Char) : Prop := ∃ ts, scan (fragment code) = .ok (ts ++ [.fragmentEnd])

/-- The piece ends inside the fragment, and its last statement needs no end. -/
def EndsStatement (code : List Char) : Prop :=
  ∃ ts, scan (fragment code) = .ok (ts ++ [.fragmentEnd]) ∧ ∀ t ∈ ts.getLast?, t.endsStatement = true

/-- What follows a piece starts with the end of a statement: a semicolon, or the end of the fragment. -/
def StartsWithEnd (next : List Char) : Prop :=
  ∃ rest, Text.trimStart next = ';' :: rest ∨ Text.trimStart next = '?' :: '>' :: rest

/-- Every piece that is followed by another ends its last statement, or what follows it does. -/
def Joinable : List (List Char) → Prop
  | [] => True
  | code :: pieces =>
    (pieces.flatten = [] ∨ EndsStatement code ∨ EndsInCode code ∧ StartsWithEnd (pieces.flatten ++ Written.closer)) ∧
      Joinable pieces

theorem scan_fragment_iff {code : List Char} {ts : List Token} :
    scan (fragment code) = .ok ts ↔ Inside (code ++ Written.closer) ts := by
  rw [scan_iff, ← cuts_opener_iff, fragment, String.toList_ofList, List.append_assoc]
  rfl

theorem Inside.unique {s : List Char} {ts us : List Token} (first : Inside s ts) (second : Inside s us) : ts = us := by
  rw [← cuts_opener_iff, ← scanFrom_iff (Nat.le_refl _)] at first second
  exact Except.ok.inj (first.symm.trans second)

theorem inside_closer : Inside Written.closer [.fragmentEnd] :=
  ⟨[], [], [], .done _, .text (by simp [fragmentOpener]), rfl⟩

theorem endsAll_of_isBlank {c : Char} (blank : Text.isBlank c = true) : Artifact.endsAll c = true := by
  have word : isWordChar c = false := by
    by_contra word
    rw [Bool.not_eq_false] at word
    rw [not_blank_of_isWordChar word] at blank
    cases blank
  have digit : Decimal.isDigit c = false := by
    by_contra digit
    rw [Bool.not_eq_false] at digit
    rw [not_blank_of_isDigit digit] at blank
    cases blank
  have marks : (c == '.' || c == '=' || c == '>') = false := by
    by_contra mark
    simp only [Bool.not_eq_false, Bool.or_eq_true, beq_iff_eq] at mark
    rcases mark with (rfl | rfl) | rfl <;> exact absurd blank (by decide)
  simp only [Bool.or_eq_false_iff] at marks
  simp [Artifact.endsAll, word, digit, marks]

/-- Every token ends before what starts with an end. -/
theorem StartsWithEnd.endsAll {next : List Char} (starts : StartsWithEnd next) :
    ∃ c ∈ next.head?, Artifact.endsAll c = true := by
  obtain ⟨rest, starts⟩ := starts
  cases next with
  | nil => rcases starts with same | same <;> cases same
  | cons c next =>
    refine ⟨c, rfl, ?_⟩
    cases blank : Text.isBlank c with
    | true => exact endsAll_of_isBlank blank
    | false =>
      have trimmed : Text.trimStart (c :: next) = c :: next := List.dropWhile_cons_of_neg (by simp [blank])
      rw [trimmed] at starts
      rcases starts with same | same <;> cases same <;> rfl

/-- What starts with an end has it as its first token. -/
theorem StartsWithEnd.first {next : List Char} {ts : List Token} (starts : StartsWithEnd next)
    (inside : Inside next ts) : ∃ t ∈ ts.head?, t = .punct .semicolon ∨ t = .fragmentEnd := by
  obtain ⟨own, rest, more, scans, -, rfl⟩ := inside
  obtain ⟨after, starts⟩ := starts
  have trimmed := scans.trimStart (by decide)
  rcases starts with same | same
  · rw [same] at trimmed
    cases trimmed with
    | blank blank => exact absurd blank (by decide)
    | token _ first _ =>
      cases (show scanToken ';' after = .ok (.punct .semicolon, after) from rfl).symm.trans first
      exact ⟨_, rfl, Or.inl rfl⟩
  · rw [same] at trimmed
    have empty := trimmed.nothing_at_mark
    subst empty
    exact ⟨_, rfl, Or.inr rfl⟩

/-- The statements of pieces that may be joined are those of the pieces. -/
theorem joined_sequence {pieces : List (List Char)} {parsed : List (List Stmt)}
    (each : List.Forall₂ (fun code stmts => parseStatements (fragment code) = .ok stmts) pieces parsed)
    (joinable : Joinable pieces) :
    ∃ ts, Inside (pieces.flatten ++ Written.closer) ts ∧ Sequence parsed.flatten ts := by
  induction each with
  | nil => exact ⟨_, inside_closer, .skip (Or.inl rfl) .done⟩
  | @cons code stmts pieces parsed first _ ih =>
    obtain ⟨boundary, joinable⟩ := joinable
    obtain ⟨us, follow, more⟩ := ih joinable
    obtain ⟨ts, scanned, sequence⟩ := parseStatements_iff.mp first
    have inside := scan_fragment_iff.mp scanned
    rw [List.flatten_cons, List.flatten_cons, List.append_assoc]
    rcases boundary with nothing | ended | ⟨⟨own, known⟩, starts⟩
    · rw [nothing] at follow ⊢
      cases follow.unique inside_closer
      rw [more.of_fragmentEnd.of_nil, List.append_nil]
      exact ⟨ts, inside, sequence⟩
    · obtain ⟨own, known, last⟩ := ended
      cases Except.ok.inj (scanned.symm.trans known)
      exact ⟨own ++ us, inside.join follow (Or.inl last), sequence.join more (Or.inl last)⟩
    · cases Except.ok.inj (scanned.symm.trans known)
      exact ⟨own ++ us, inside.join follow (Or.inr starts.endsAll), sequence.join more (Or.inr (starts.first follow))⟩

/-! ### What the writer makes of them -/

theorem add_codes (pieces : List (List Char)) (w : Written) :
    Written.add (pieces.map .code) w = (pieces.filter (!·.isEmpty)).reverse.map .code ++ w := by
  induction pieces generalizing w with
  | nil => rfl
  | cons code pieces ih =>
    show Written.add (pieces.map .code) (Written.addCode code w) = _
    rw [ih]
    cases empty : code.isEmpty <;> simp [Written.addCode, empty]

theorem charsFrom_codes (pieces : List (List Char)) :
    Written.charsFrom true (pieces.map .code) = pieces.flatten ++ Written.closer := by
  induction pieces with
  | nil => rfl
  | cons code pieces ih =>
    show code ++ Written.charsFrom true (pieces.map .code) = _
    rw [ih, List.flatten_cons, List.append_assoc]

theorem flatten_filter_isEmpty (pieces : List (List Char)) :
    (pieces.filter (!·.isEmpty)).flatten = pieces.flatten := by
  induction pieces with
  | nil => rfl
  | cons code pieces ih =>
    cases code with
    | nil => simpa using ih
    | cons c code => simp [ih]

/-- Pieces of code are written one after the other into one fragment, and nothing is written for empty ones. -/
theorem finish_codes (pieces : List (List Char)) (strip : Bool) :
    (Written.ofPieces (pieces.map .code)).finish strip =
      if pieces.flatten = [] then "" else fragment pieces.flatten := by
  have chars : (Written.ofPieces (pieces.map .code)).chars =
      if pieces.flatten = [] then [] else Written.opener ++ pieces.flatten ++ Written.closer := by
    unfold Written.ofPieces Written.chars
    rw [add_codes, List.append_nil, ← List.map_reverse, List.reverse_reverse, ← flatten_filter_isEmpty]
    cases kept : pieces.filter (!·.isEmpty) with
    | nil => rfl
    | cons code more =>
      have full : code ≠ [] := by
        have mem : code ∈ pieces.filter (!·.isEmpty) := by simp [kept]
        simpa using (List.mem_filter.mp mem).2
      rw [if_neg (by simp [full])]
      show Written.opener ++ code ++ Written.charsFrom true (more.map .code) = _
      rw [charsFrom_codes]
      simp
  unfold Written.finish
  rw [chars]
  by_cases empty : pieces.flatten = []
  · rw [if_pos empty, if_pos empty]
    cases strip <;> rfl
  · have ends : Written.opener ++ pieces.flatten ++ Written.closer =
        '<' :: (('?' :: (pieces.flatten ++ ['?'])) ++ ['>']) := by
      simp [Written.opener, Written.closer]
    rw [if_neg empty, if_neg empty, Text.strip_eq_self ends (by decide) (by decide), ite_self, fragment]

end Artifact

open Artifact

/-- Neighbouring pieces of code keep their statements when they are joined: if each piece is read on its own, and
each ends its last statement before the next piece or what follows does, the artifact that is written for all of them
is read as the statements of the pieces one after the other. -/
theorem joined_pieces_keep_their_statements {pieces : List (List Char)} {parsed : List (List Stmt)} {name : String}
    (each : List.Forall₂ (fun code stmts => Program.parse name (fragment code) = .ok ⟨name, stmts⟩) pieces parsed)
    (joinable : Joinable pieces) (strip : Bool) :
    Program.parse name ((Written.ofPieces (pieces.map .code)).finish strip) = .ok ⟨name, parsed.flatten⟩ := by
  have read : List.Forall₂ (fun code stmts => parseStatements (fragment code) = .ok stmts) pieces parsed := by
    refine each.imp fun code stmts parse => ?_
    unfold Program.parse at parse
    split at parse
    · rename_i body read
      cases parse
      exact read
    · cases parse
  obtain ⟨ts, inside, sequence⟩ := joined_sequence read joinable
  have whole : parseStatements ((Written.ofPieces (pieces.map .code)).finish strip) = .ok parsed.flatten := by
    rw [finish_codes]
    split
    · rename_i empty
      rw [empty] at inside
      cases inside.unique inside_closer
      rw [sequence.of_fragmentEnd.of_nil]
      rfl
    · exact parseStatements_iff.mpr ⟨ts, scan_fragment_iff.mpr inside, sequence⟩
  unfold Program.parse
  rw [whole]

/-- A branch, a statement that the next piece ends, and a buffer that the end of its fragment starts. -/
theorem mixed_pieces_keep_their_statements :
    let pieces : List (List Char) := ["if ($x) \x7becho 1;\x7d".toList, "echo 2".toList, " ;".toList, [],
      "ob_start()".toList, "?>a<?".toList, "echo $x".toList]
    let parsed : List (List Stmt) := [[.branch (.var "x") [.echo (.lit (.int 1))] .nothing], [.echo (.lit (.int 2))],
      [], [], [.startBuffer], [.text "a"], [.echo (.var "x")]]
    Joinable pieces ∧
      Program.parse "page" ((Written.ofPieces (pieces.map .code)).finish true) = .ok ⟨"page", parsed.flatten⟩ := by
  intro pieces parsed
  have each : List.Forall₂ (fun code stmts => Program.parse "page" (fragment code) = .ok ⟨"page", stmts⟩)
      pieces parsed :=
    .cons (by cbv) (.cons (by cbv) (.cons (by cbv) (.cons (by cbv) (.cons (by cbv) (.cons (by cbv)
      (.cons (by cbv) .nil))))))
  have branch : EndsStatement "if ($x) \x7becho 1;\x7d".toList :=
    ⟨[.ident "if", .punct .openParen, .var "x", .punct .closeParen, .punct .openBrace, .ident "echo", .int 1,
      .punct .semicolon, .punct .closeBrace], by cbv, by simp [Token.endsStatement]⟩
  have echo : EndsInCode "echo 2".toList := ⟨[.ident "echo", .int 2], by cbv⟩
  have semicolon : EndsStatement " ;".toList := ⟨[.punct .semicolon], by cbv, by simp [Token.endsStatement]⟩
  have empty : EndsStatement [] := ⟨[], by cbv, by simp⟩
  have buffer : EndsInCode "ob_start()".toList := ⟨[.ident "ob_start", .punct .openParen, .punct .closeParen], by cbv⟩
  have text : EndsStatement "?>a<?".toList := ⟨[.fragmentEnd, .text "a"], by cbv, by simp [Token.endsStatement]⟩
  have joinable : Joinable pieces :=
    ⟨Or.inr (Or.inl branch), Or.inr (Or.inr ⟨echo, "ob_start()?>a<?echo $x?>".toList, Or.inl rfl⟩),
      Or.inr (Or.inl semicolon), Or.inr (Or.inl empty),
      Or.inr (Or.inr ⟨buffer, "a<?echo $x?>".toList, Or.inr rfl⟩), Or.inr (Or.inl text), Or.inl rfl, trivial⟩
  exact ⟨joinable, joined_pieces_keep_their_statements each joinable true⟩

/-- Pieces whose statements only the ends of their fragments end are not read as these statements when they are
joined. -/
theorem unended_pieces_lose_their_statements :
    ¬ ∀ (pieces : List (List Char)) (parsed : List (List Stmt)),
      List.Forall₂ (fun code stmts => Program.parse "page" (fragment code) = .ok ⟨"page", stmts⟩) pieces parsed →
      Program.parse "page" ((Written.ofPieces (pieces.map .code)).finish false) = .ok ⟨"page", parsed.flatten⟩ := by
  intro claimed
  have first : Program.parse "page" (fragment "echo 1".toList) = .ok ⟨"page", [.echo (.lit (.int 1))]⟩ := by cbv
  have second : Program.parse "page" (fragment "echo 2".toList) = .ok ⟨"page", [.echo (.lit (.int 2))]⟩ := by cbv
  have joined := claimed _ _ (.cons first (.cons second .nil))
  have lost : parseStatements ((Written.ofPieces (["echo 1".toList, "echo 2".toList].map .code)).finish false) =
      .error (.expectedSemicolon (some (.ident "echo"))) := by cbv
  unfold Program.parse at joined
  rw [lost] at joined
  cases joined

end Stencil
