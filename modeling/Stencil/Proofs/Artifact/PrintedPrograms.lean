import Stencil.Proofs.Artifact.Layout
import Stencil.Proofs.Artifact.Printing

/-!
Printing programs. Text is printed as it is, and every other statement as fragments of its own, with an empty one
between two neighbouring texts. Read back, the artifact gives the statements it was printed from.
-/
namespace Stencil.Artifact

/-! ### Statements as chunks -/

/-- Text, or the code of one fragment. -/
inductive Chunk where
  | text (s : String)
  | code (tokens : List Token)

namespace Chunk

def chars : Chunk → List Char
  | text s => s.toList
  | code tokens => fragmentOpener ++ (' ' :: (spaced tokens ++ [' ', '?', '>']))

def tokens : Chunk → List Token
  | text s => [.text s]
  | code tokens => tokens ++ [.fragmentEnd]

end Chunk

/-- An expression as a part of a fragment. -/
def Expr.whole (w : Wrapping) (e : Expr) : List Token := w.around 0 e (e.tokens w)

/-- Two texts in a row must be kept apart. -/
def between : Stmt → List Stmt → List Chunk
  | .text _, .text _ :: _ => [.code []]
  | _, _ => []

mutual

def Stmt.chunks (w : Wrapping) : Stmt → List Chunk
  | .text s => [.text s]
  | .echo e => [.code (.ident "echo" :: (e.whole w ++ [.punct .semicolon]))]
  | .branch test body otherwise =>
    .code (.ident "if" :: (conditionTokens (test.whole w) ++ [.punct .openBrace])) ::
      (stmtsChunks w body ++ otherwise.chunks w)
  | .count var first last step descending body =>
    .code (.ident "for" ::
        (countTokens var descending (first.whole w) (last.whole w) (step.whole w) ++ [.punct .openBrace])) ::
      (stmtsChunks w body ++ [.code [.punct .closeBrace]])
  | .each list key value body =>
    .code (.ident "foreach" ::
        (conditionTokens (list.whole w ++ .ident "as" :: entryTokens key value) ++ [.punct .openBrace])) ::
      (stmtsChunks w body ++ [.code [.punct .closeBrace]])
  | .startBuffer => [.code [.ident "ob_start", .punct .openParen, .punct .closeParen, .punct .semicolon]]

/-- The end of a body, and the alternatives behind it. -/
def Alternative.chunks (w : Wrapping) : Alternative → List Chunk
  | .nothing => [.code [.punct .closeBrace]]
  | .otherwise body =>
    .code [.punct .closeBrace, .ident "else", .punct .openBrace] ::
      (stmtsChunks w body ++ [.code [.punct .closeBrace]])
  | .branch test body rest =>
    .code (.punct .closeBrace :: .ident "else" :: .ident "if" ::
        (conditionTokens (test.whole w) ++ [.punct .openBrace])) ::
      (stmtsChunks w body ++ rest.chunks w)

def stmtsChunks (w : Wrapping) : List Stmt → List Chunk
  | [] => []
  | s :: stmts => s.chunks w ++ (between s stmts ++ stmtsChunks w stmts)

end

/-- Statements as an artifact. -/
def printed (w : Wrapping) (stmts : List Stmt) : String :=
  String.ofList ((stmtsChunks w stmts).flatMap Chunk.chars)

mutual

/-- A statement that can be written down: texts are not empty and have no opener in them, names are identifiers. -/
def Stmt.printable : Stmt → Bool
  | .text s => s != "" && (Text.splitAt? fragmentOpener s.toList).isNone
  | .echo e => e.printable
  | .branch test body otherwise => test.printable && stmtsPrintable body && otherwise.printable
  | .count var first last step _ body =>
    isIdentifier var && first.printable && last.printable && step.printable && stmtsPrintable body
  | .each list key value body =>
    list.printable && key.all isIdentifier && isIdentifier value && stmtsPrintable body
  | .startBuffer => true

def Alternative.printable : Alternative → Bool
  | .nothing => true
  | .otherwise body => stmtsPrintable body
  | .branch test body rest => test.printable && stmtsPrintable body && rest.printable

def stmtsPrintable : List Stmt → Bool
  | [] => true
  | s :: stmts => s.printable && stmtsPrintable stmts

end

/-! ### Scanning chunks -/

def startsWithText : List Chunk → Bool
  | .text _ :: _ => true
  | _ => false

/-- Chunks that are scanned one by one: texts have no opener in them and do not meet, tokens can be written. -/
inductive Legible : List Chunk → Prop where
  | nil : Legible []
  | code {ts : List Token} {chunks : List Chunk} (plain : ts.all Token.plain = true) (more : Legible chunks) :
      Legible (.code ts :: chunks)
  | text {s : String} {chunks : List Chunk} (some : s ≠ "") (free : ¬ fragmentOpener <:+: s.toList)
      (apart : startsWithText chunks = false) (more : Legible chunks) : Legible (.text s :: chunks)

theorem scans_code {ts : List Token} (plain : ts.all Token.plain = true) (rest : List Char) :
    Scans (' ' :: (spaced ts ++ [' ', '?', '>'] ++ rest)) ts ('?' :: '>' :: rest) := by
  have read := scans_spaced plain ('?' :: '>' :: rest)
  have ended : Scans (' ' :: '?' :: '>' :: rest) [] ('?' :: '>' :: rest) := .blank (by decide) (.done _)
  exact .blank (by decide) (by simpa using read.append ended)

/-- Legible chunks behind a text are scanned as what they are. -/
theorem Legible.scanFrom {chunks : List Chunk} (legible : Legible chunks) (before : List Char)
    (free : ¬ fragmentOpener <:+: before) (apart : before = [] ∨ startsWithText chunks = false) (count : Nat)
    (enough : (before ++ chunks.flatMap Chunk.chars).length ≤ count) :
    Artifact.scanFrom count (before ++ chunks.flatMap Chunk.chars) =
      .ok (textToken before ++ chunks.flatMap Chunk.tokens) := by
  induction legible generalizing before count with
  | nil => simpa using scanFrom_text free count
  | @code ts chunks plain more ih =>
    have order : before ++ (Chunk.code ts :: chunks).flatMap Chunk.chars =
        before ++ (fragmentOpener ++ (' ' :: (spaced ts ++ [' ', '?', '>'] ++ chunks.flatMap Chunk.chars))) := by
      simp [Chunk.chars]
    rw [order] at enough ⊢
    have rest := fun count room => ih [] (by simp [fragmentOpener]) (.inl rfl) count room
    have read := scanFrom_fragment free (scans_code plain _) enough rest
    simpa [textToken, Chunk.tokens] using read
  | @text s chunks some inner behind more ih =>
    rcases apart with rfl | meets
    · have read := ih s.toList inner (.inr behind) count enough
      have token : textToken s.toList = [.text s] := by simp [textToken, some]
      rw [token] at read
      simpa [textToken, Chunk.chars, Chunk.tokens] using read
    · cases meets

theorem Legible.scan {chunks : List Chunk} (legible : Legible chunks) :
    Artifact.scan (String.ofList (chunks.flatMap Chunk.chars)) = .ok (chunks.flatMap Chunk.tokens) := by
  have read := legible.scanFrom [] (by simp [fragmentOpener]) (.inl rfl) _ (Nat.le_refl _)
  simpa [Artifact.scan, textToken] using read

/-! ### The chunks of printed statements -/

theorem Expr.whole_plain (w : Wrapping) {e : Expr} (printable : e.printable = true) :
    (e.whole w).all Token.plain = true :=
  plain_around w 0 e (e.tokens_plain w printable)

theorem conditionTokens_plain {ts : List Token} (plain : ts.all Token.plain = true) :
    (conditionTokens ts).all Token.plain = true := by
  simp [conditionTokens, plain, Token.plain_punct]

theorem countTokens_plain {var : String} (descending : Bool) {first last step : List Token}
    (name : isIdentifier var = true) (firstPlain : first.all Token.plain = true) (lastPlain : last.all Token.plain = true)
    (stepPlain : step.all Token.plain = true) : (countTokens var descending first last step).all Token.plain = true := by
  have variable_plain : (Token.var var).plain = true := name
  have bound_plain : (boundToken descending).plain = true := rfl
  simp [countTokens, variable_plain, bound_plain, firstPlain, lastPlain, stepPlain, Token.plain_punct]

theorem entryTokens_plain {key : Option String} {value : String} (keyName : key.all isIdentifier = true)
    (valueName : isIdentifier value = true) : (entryTokens key value).all Token.plain = true := by
  have value_plain : (Token.var value).plain = true := valueName
  cases key with
  | none => simp [entryTokens, value_plain]
  | some key =>
    have key_plain : (Token.var key).plain = true := keyName
    simp [entryTokens, key_plain, value_plain, Token.plain_punct]

/-- What is printed of a statement starts with code unless the statement is a text. -/
theorem startsWithText_chunks (w : Wrapping) (s : Stmt) (more : List Chunk) :
    startsWithText (s.chunks w ++ more) = true → ∃ t, s = .text t := by
  cases s with
  | text t => exact fun _ => ⟨t, rfl⟩
  | _ => simp [Stmt.chunks, startsWithText]

theorem startsWithText_alternative (w : Wrapping) (a : Alternative) (more : List Chunk) :
    startsWithText (a.chunks w ++ more) = false := by
  cases a <;> simp [Alternative.chunks, startsWithText]

theorem Legible.between (s : Stmt) (stmts : List Stmt) {chunks : List Chunk} (legible : Legible chunks) :
    Legible (Artifact.between s stmts ++ chunks) := by
  unfold Artifact.between
  split
  · exact .code rfl legible
  · exact legible

/-- No text meets another one. -/
theorem startsWithText_between (w : Wrapping) (s : Stmt) (stmts : List Stmt) {more : List Chunk}
    (apart : startsWithText more = false) (text : ∃ t, s = .text t) :
    startsWithText (between s stmts ++ (stmtsChunks w stmts ++ more)) = false := by
  obtain ⟨t, rfl⟩ := text
  cases stmts with
  | nil => exact apart
  | cons next stmts =>
    by_cases meets : ∃ u, next = .text u
    · obtain ⟨u, rfl⟩ := meets
      rfl
    · have none : between (.text t) (next :: stmts) = [] := by
        cases next with
        | text u => exact absurd ⟨u, rfl⟩ meets
        | _ => rfl
      rw [none, List.nil_append, stmtsChunks, List.append_assoc, ← Bool.not_eq_true]
      exact fun starts => meets (startsWithText_chunks w next _ starts)

mutual

theorem Stmt.chunks_legible (w : Wrapping) (s : Stmt) (printable : s.printable = true) {more : List Chunk}
    (legible : Legible more) (apart : (∃ t, s = .text t) → startsWithText more = false) :
    Legible (s.chunks w ++ more) := by
  cases s with
  | text t =>
    simp only [Stmt.printable, Bool.and_eq_true, bne_iff_ne, Option.isNone_iff_eq_none] at printable
    exact .text printable.1 (Text.no_infix_of_splitAt?_none printable.2) (apart ⟨t, rfl⟩) legible
  | echo e =>
    have plain := e.whole_plain w printable
    exact .code (by simp [plain, Token.plain_punct]; decide) legible
  | branch test body otherwise =>
    simp only [Stmt.printable, Bool.and_eq_true] at printable
    obtain ⟨⟨testPrintable, bodyPrintable⟩, rest⟩ := printable
    have plain := conditionTokens_plain (test.whole_plain w testPrintable)
    have after := Alternative.chunks_legible w otherwise rest legible
    have inner := stmtsChunks_legible w body bodyPrintable after (startsWithText_alternative w otherwise more)
    rw [← List.append_assoc] at inner
    exact .code (by simp [plain, Token.plain_punct]; decide) inner
  | count var first last step descending body =>
    simp only [Stmt.printable, Bool.and_eq_true] at printable
    obtain ⟨⟨⟨⟨name, firstPrintable⟩, lastPrintable⟩, stepPrintable⟩, bodyPrintable⟩ := printable
    have plain := countTokens_plain descending name (first.whole_plain w firstPrintable)
      (last.whole_plain w lastPrintable) (step.whole_plain w stepPrintable)
    have after : Legible (.code [.punct .closeBrace] :: more) := .code rfl legible
    have inner := stmtsChunks_legible w body bodyPrintable after rfl
    rw [← List.singleton_append, ← List.append_assoc] at inner
    exact .code (by simp [plain, Token.plain_punct]; decide) inner
  | each list key value body =>
    simp only [Stmt.printable, Bool.and_eq_true] at printable
    obtain ⟨⟨⟨listPrintable, keyName⟩, valueName⟩, bodyPrintable⟩ := printable
    have names := entryTokens_plain keyName valueName
    have word : (Token.ident "as").plain = true := by decide
    have plain : (conditionTokens (list.whole w ++ .ident "as" :: entryTokens key value)).all Token.plain = true :=
      conditionTokens_plain (by simp [list.whole_plain w listPrintable, names, word])
    have after : Legible (.code [.punct .closeBrace] :: more) := .code rfl legible
    have inner := stmtsChunks_legible w body bodyPrintable after rfl
    rw [← List.singleton_append, ← List.append_assoc] at inner
    exact .code (by simp [plain, Token.plain_punct]; decide) inner
  | startBuffer => exact .code (by decide) legible

theorem Alternative.chunks_legible (w : Wrapping) (a : Alternative) (printable : a.printable = true)
    {more : List Chunk} (legible : Legible more) : Legible (a.chunks w ++ more) := by
  cases a with
  | nothing => exact .code rfl legible
  | otherwise body =>
    have after : Legible (.code [.punct .closeBrace] :: more) := .code rfl legible
    have inner := stmtsChunks_legible w body printable after rfl
    rw [← List.singleton_append, ← List.append_assoc] at inner
    exact .code (by decide) inner
  | branch test body rest =>
    simp only [Alternative.printable, Bool.and_eq_true] at printable
    obtain ⟨⟨testPrintable, bodyPrintable⟩, restPrintable⟩ := printable
    have plain := conditionTokens_plain (test.whole_plain w testPrintable)
    have after := Alternative.chunks_legible w rest restPrintable legible
    have inner := stmtsChunks_legible w body bodyPrintable after (startsWithText_alternative w rest more)
    rw [← List.append_assoc] at inner
    exact .code (by simp [plain, Token.plain_punct]; decide) inner

theorem stmtsChunks_legible (w : Wrapping) (stmts : List Stmt) (printable : stmtsPrintable stmts = true)
    {more : List Chunk} (legible : Legible more) (apart : startsWithText more = false) :
    Legible (stmtsChunks w stmts ++ more) := by
  cases stmts with
  | nil => exact legible
  | cons s stmts =>
    simp only [stmtsPrintable, Bool.and_eq_true] at printable
    have rest := stmtsChunks_legible w stmts printable.2 legible apart
    simp only [stmtsChunks, List.append_assoc]
    exact Stmt.chunks_legible w s printable.1 (rest.between s stmts) (startsWithText_between w s stmts apart)

end

/-! ### Reading printed statements -/

/-- The tokens of printed chunks. -/
def chunkTokens (chunks : List Chunk) : List Token := chunks.flatMap Chunk.tokens

theorem chunkTokens_nil : chunkTokens [] = [] := rfl

theorem chunkTokens_append (first last : List Chunk) :
    chunkTokens (first ++ last) = chunkTokens first ++ chunkTokens last :=
  List.flatMap_append

theorem chunkTokens_code (ts : List Token) (chunks : List Chunk) :
    chunkTokens (.code ts :: chunks) = ts ++ .fragmentEnd :: chunkTokens chunks := by
  simp [chunkTokens, Chunk.tokens]

theorem Lays.between (s : Stmt) (next : List Stmt) {stmts : List Stmt} {ts : List Token}
    (lays : Lays (.body stmts) ts) : Lays (.body stmts) (chunkTokens (Artifact.between s next) ++ ts) := by
  unfold Artifact.between
  split
  · exact .fragmentEnd lays
  · exact lays

mutual

theorem Stmt.chunks_lay (w : Wrapping) (s : Stmt) (printable : s.printable = true) {stmts : List Stmt}
    {us : List Token} (more : Lays (.body stmts) us) : Lays (.body (s :: stmts)) (chunkTokens (s.chunks w) ++ us) := by
  cases s with
  | text t => exact .text t more
  | echo e =>
    have first := Lays.echo (e.printed_denotes w printable)
    simpa [Stmt.chunks, chunkTokens, Chunk.tokens, Expr.whole] using Lays.statement first (.fragmentEnd more)
  | branch test body otherwise =>
    simp only [Stmt.printable, Bool.and_eq_true] at printable
    obtain ⟨⟨testPrintable, bodyPrintable⟩, rest⟩ := printable
    obtain ⟨vs, same, alternative⟩ := Alternative.chunks_lay w otherwise rest
    have inner := stmtsChunks_lay w body bodyPrintable
    have first := Lays.branch (test.printed_denotes w testPrintable) (.fragmentEnd inner) alternative
    have order : chunkTokens ((Stmt.branch test body otherwise).chunks w) ++ us =
        (.ident "if" :: (conditionTokens (test.whole w) ++
          (bracedTokens (.fragmentEnd :: chunkTokens (stmtsChunks w body)) ++ vs))) ++ .fragmentEnd :: us := by
      simp [Stmt.chunks, chunkTokens_code, chunkTokens_append, same, bracedTokens]
    rw [order]
    exact .statement first (.fragmentEnd more)
  | count var first last step descending body =>
    simp only [Stmt.printable, Bool.and_eq_true] at printable
    obtain ⟨⟨⟨⟨-, firstPrintable⟩, lastPrintable⟩, stepPrintable⟩, bodyPrintable⟩ := printable
    have inner := stmtsChunks_lay w body bodyPrintable
    have loop : Lays (.single (.count var first last step descending body)) _ :=
      .count (first.printed_denotes w firstPrintable) (last.printed_denotes w lastPrintable)
        (step.printed_denotes w stepPrintable) (.fragmentEnd inner)
    have order : chunkTokens ((Stmt.count var first last step descending body).chunks w) ++ us =
        (.ident "for" :: (countTokens var descending (first.whole w) (last.whole w) (step.whole w) ++
          bracedTokens (.fragmentEnd :: chunkTokens (stmtsChunks w body)))) ++ .fragmentEnd :: us := by
      simp [Stmt.chunks, chunkTokens_code, chunkTokens_append, chunkTokens_nil, bracedTokens]
    rw [order]
    exact .statement loop (.fragmentEnd more)
  | each list key value body =>
    simp only [Stmt.printable, Bool.and_eq_true] at printable
    obtain ⟨⟨⟨listPrintable, -⟩, -⟩, bodyPrintable⟩ := printable
    have inner := stmtsChunks_lay w body bodyPrintable
    have loop : Lays (.single (.each list key value body)) _ :=
      .each (list.printed_denotes w listPrintable) (.fragmentEnd inner)
    have order : chunkTokens ((Stmt.each list key value body).chunks w) ++ us =
        (.ident "foreach" :: (conditionTokens (list.whole w ++ .ident "as" :: entryTokens key value) ++
          bracedTokens (.fragmentEnd :: chunkTokens (stmtsChunks w body)))) ++ .fragmentEnd :: us := by
      simp [Stmt.chunks, chunkTokens_code, chunkTokens_append, chunkTokens_nil, bracedTokens]
    rw [order]
    exact .statement loop (.fragmentEnd more)
  | startBuffer =>
    simpa [Stmt.chunks, chunkTokens, Chunk.tokens] using Lays.statement .startBuffer (.fragmentEnd more)

theorem Alternative.chunks_lay (w : Wrapping) (a : Alternative) (printable : a.printable = true) :
    ∃ vs, chunkTokens (a.chunks w) = .punct .closeBrace :: (vs ++ [.fragmentEnd]) ∧ Lays (.otherwise a) vs := by
  cases a with
  | nothing => exact ⟨[], rfl, .nothing⟩
  | otherwise body =>
    have inner := stmtsChunks_lay w body printable
    refine ⟨_, ?_, .otherwise (.fragmentEnd inner)⟩
    simp [Alternative.chunks, chunkTokens_code, chunkTokens_append, chunkTokens_nil, bracedTokens]
  | branch test body rest =>
    simp only [Alternative.printable, Bool.and_eq_true] at printable
    obtain ⟨⟨testPrintable, bodyPrintable⟩, restPrintable⟩ := printable
    obtain ⟨vs, same, alternative⟩ := Alternative.chunks_lay w rest restPrintable
    have inner := stmtsChunks_lay w body bodyPrintable
    refine ⟨_, ?_, .elseIf (test.printed_denotes w testPrintable) (.fragmentEnd inner) alternative⟩
    simp [Alternative.chunks, chunkTokens_code, chunkTokens_append, same, bracedTokens, Expr.whole]

theorem stmtsChunks_lay (w : Wrapping) (stmts : List Stmt) (printable : stmtsPrintable stmts = true) :
    Lays (.body stmts) (chunkTokens (stmtsChunks w stmts)) := by
  cases stmts with
  | nil => exact .done
  | cons s stmts =>
    simp only [stmtsPrintable, Bool.and_eq_true] at printable
    have rest := stmtsChunks_lay w stmts printable.2
    rw [stmtsChunks, chunkTokens_append, chunkTokens_append]
    exact Stmt.chunks_lay w s printable.1 (rest.between s stmts)

end

/-- Printed statements are read back as they were, however many parentheses are printed. -/
theorem parseStatements_printed (w : Wrapping) (stmts : List Stmt) (printable : stmtsPrintable stmts = true) :
    parseStatements (printed w stmts) = .ok stmts := by
  have legible := stmtsChunks_legible w stmts printable .nil rfl
  rw [List.append_nil] at legible
  exact parseStatements_of_lays legible.scan (stmtsChunks_lay w stmts printable)

end Stencil.Artifact

namespace Stencil

open Artifact

/-- The artifact of printed statements is a program of exactly these statements. -/
theorem Program.parse_printed_statements (name : String) (w : Wrapping) (stmts : List Stmt)
    (printable : stmtsPrintable stmts = true) : Program.parse name (printed w stmts) = .ok ⟨name, stmts⟩ := by
  unfold Program.parse
  rw [parseStatements_printed w stmts printable]

/-- Neighbouring texts of which the first ends like an opener, all kinds of loops, and alternatives. -/
def mixedStatements : List Stmt :=
  [.text "a <", .text "? b",
    .branch (.binary .lt (.var "n") (.lit (.int 3))) [.text "few", .echo (.lit (.str "?>"))]
      (.branch (.not (.var "n")) [] (.otherwise [.text "many", .text "more"])),
    .each (.member (.var "page") "rows") (some "key") "row"
      [.count "i" (.lit (.int 9)) (.lit (.int 0)) (.neg (.lit (.int 1))) true [.echo (.index (.var "row") (.var "i"))]],
    .startBuffer]

theorem Program.mixed_statements_parse : stmtsPrintable mixedStatements = true ∧
    Program.parse "page" (printed .full mixedStatements) = .ok ⟨"page", mixedStatements⟩ :=
  ⟨by decide +kernel, Program.parse_printed_statements "page" .full mixedStatements (by decide +kernel)⟩

end Stencil
