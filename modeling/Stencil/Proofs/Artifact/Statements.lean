import Stencil.Proofs.Artifact.Layout

/-!
What the parser takes statements from. Every list of statements that is read comes from pieces of the tokens, one for
each statement, that are read the same in front of whatever sequence; only a statement that the end of its fragment
ends depends on what comes next, which has to be that end or a semicolon.
-/
namespace Stencil.Artifact

/-! ### Statements one after the other -/

/-- The tokens after which nothing has to come for a statement to end. -/
def Token.endsStatement : Token → Bool
  | .punct .semicolon | .punct .closeBrace | .text _ | .fragmentEnd => true
  | _ => false

/-- The tokens end with the end of a statement. -/
def Closes (ts : List Token) : Prop := ∃ t ∈ ts.getLast?, t = .punct .semicolon ∨ t = .punct .closeBrace

/-- A statement that ends with these tokens still has to be ended. -/
def EndsOpen (ts : List Token) : Prop := ∀ t ∈ ts.getLast?, t.endsStatement = false

/-- The tokens are a statement that still has to be ended, by a semicolon or with its fragment. -/
structure Unended (s : Stmt) (ts : List Token) : Prop where
  last : EndsOpen ts
  isRead : ∃ word rest, ts = .ident word :: rest ∧ ∀ block tail,
    statement block word (rest ++ .fragmentEnd :: tail) = .ok (s, .fragmentEnd :: tail) ∧
      statement block word (rest ++ .punct .semicolon :: tail) = .ok (s, tail)

/-- Statements, one after the other; a fragment may end where one of them ends, and may be what ends it. -/
inductive Sequence : List Stmt → List Token → Prop where
  | done : Sequence [] []
  | skip {stmts : List Stmt} {ts : List Token} {t : Token} (skipped : t = .fragmentEnd ∨ t = .punct .semicolon)
      (more : Sequence stmts ts) : Sequence stmts (t :: ts)
  | text {stmts : List Stmt} {ts : List Token} (s : String) (more : Sequence stmts ts) :
      Sequence (.text s :: stmts) (.text s :: ts)
  | statement {s : Stmt} {stmts : List Stmt} {ts us : List Token} (first : (Part.single s).IsRead ts)
      (closes : Closes ts) (more : Sequence stmts us) : Sequence (s :: stmts) (ts ++ us)
  | ended {s : Stmt} {stmts : List Stmt} {ts us : List Token} (first : Unended s ts) (more : Sequence stmts us) :
      Sequence (s :: stmts) (ts ++ .fragmentEnd :: us)

variable {s : Stmt} {a : Alternative} {e : Expr} {stmts more : List Stmt} {ts us tokens rest : List Token}

theorem Sequence.append (first : Sequence stmts ts) (last : Sequence more us) :
    Sequence (stmts ++ more) (ts ++ us) := by
  induction first with
  | done => exact last
  | skip skipped _ ih => exact .skip skipped ih
  | text s _ ih => exact .text s ih
  | statement head closes _ ih => simpa using Sequence.statement head closes ih
  | ended head _ ih => simpa using Sequence.ended head ih

/-- No statement starts with `else`. -/
theorem word_ne_else {block : Parser (List Stmt)} {word : String} {r : Stmt × List Token}
    (read : statement block word tokens = .ok r) : word ≠ "else" := by
  rintro rfl
  cases read

theorem Unended.noElse (unended : Unended s ts) (tail : List Token) : NoElse (ts ++ tail) := by
  obtain ⟨word, rest, rfl, read⟩ := unended.isRead
  intro t mem same
  cases mem
  cases same
  exact word_ne_else (read block []).1 rfl

theorem Sequence.noElse (sequence : Sequence stmts ts) {tail : List Token} (ends : Ends tail) :
    NoElse (ts ++ tail) := by
  cases sequence with
  | done => exact ends.noElse
  | skip skipped _ =>
    intro t mem same
    cases mem
    rcases skipped with rfl | rfl
    · cases same
    · cases same
  | text s _ =>
    intro t mem same
    cases mem
    cases same
  | @statement s stmts ts us first _ _ =>
    obtain ⟨word, rest, rfl, read⟩ := first ts [] (Nat.le_succ _) (by intro t mem; cases mem)
    intro t mem same
    cases mem
    cases same
    exact word_ne_else read rfl
  | ended first _ =>
    rw [List.append_assoc]
    exact first.noElse _

theorem isRead_ended (first : Unended s ts) (follow : (Part.body stmts).IsRead us) :
    (Part.body (s :: stmts)).IsRead (ts ++ .fragmentEnd :: us) := by
  obtain ⟨word, rest, rfl, read⟩ := first.isRead
  intro bound lim tail fits room ends
  simp only [List.length_append, List.length_cons] at fits room
  cases lim with
  | nil => simp at room
  | cons l lim =>
    have after := isRead_skip (Or.inl rfl) follow bound lim tail (by simp; omega) (by simp at room ⊢; omega) ends
    rw [List.cons_append, List.cons_append, List.append_assoc]
    refine bind_eq_ok.mpr ⟨_, (read _ _).1, ?_⟩
    exact bind_eq_ok.mpr ⟨_, after, rfl⟩

theorem Sequence.isRead (sequence : Sequence stmts ts) : (Part.body stmts).IsRead ts := by
  induction sequence with
  | done => exact isRead_done
  | skip skipped _ ih => exact isRead_skip skipped ih
  | text s _ ih => exact isRead_text s ih
  | statement first _ more ih => exact isRead_statement first ih fun _ ends => more.noElse ends
  | ended first _ ih => exact isRead_ended first ih

theorem Closes.behind (front : List Token) (closes : Closes ts) : Closes (front ++ ts) := by
  obtain ⟨t, last, ends⟩ := closes
  refine ⟨t, ?_, ends⟩
  rw [List.getLast?_append, Option.mem_def.mp last]
  rfl

theorem closes_semicolon (ts : List Token) : Closes (ts ++ [.punct .semicolon]) :=
  ⟨_, List.getLast?_concat .., Or.inl rfl⟩

theorem closes_braced (ts : List Token) : Closes (bracedTokens ts) :=
  ⟨_, List.getLast?_concat (l := _ :: ts), Or.inr rfl⟩

/-! ### What the parser takes -/

/-- A parser of blocks that takes statements that are read the same in front of any other end, from at most `n`
tokens. -/
def TakesBlocks (block : Parser (List Stmt)) (n : Nat) : Prop :=
  ∀ {tokens stmts rest}, tokens.length ≤ n → block tokens = .ok (stmts, rest) →
    ∃ ts, tokens = ts ++ rest ∧ (Part.body stmts).IsRead ts

variable {block : Parser (List Stmt)} {n : Nat}

theorem eq_cons_of_word {word : String} (next : word? word tokens = some rest) : tokens = .ident word :: rest := by
  unfold word? at next
  split at next
  · split at next
    · rename_i same
      cases next
      rw [same]
    · cases next
  · cases next

theorem eq_cons_of_varName {name : String} (run : varName tokens = .ok (name, rest)) : tokens = .var name :: rest := by
  unfold varName at run
  split at run
  · cases run
    rfl
  · cases run

theorem eq_cons_of_sameVariable {name : String} (run : sameVariable name tokens = .ok rest) :
    tokens = .var name :: rest := by
  obtain ⟨⟨found, after⟩, ran, next⟩ := bind_eq_ok.mp run
  rw [eq_cons_of_varName ran]
  dsimp only at next
  split at next
  · rename_i same
    cases next
    rw [same]
  · cases next

theorem eq_cons_of_loopBound {descending : Bool} (run : loopBound tokens = .ok (descending, rest)) :
    tokens = boundToken descending :: rest := by
  unfold loopBound at run
  split at run
  · cases run
    rfl
  · cases run
    rfl
  · cases run

theorem eq_append_of_entryVariables {key : Option String} {value : String}
    (run : entryVariables tokens = .ok ((key, value), rest)) : tokens = entryTokens key value ++ rest := by
  obtain ⟨⟨first, after⟩, ran, next⟩ := bind_eq_ok.mp run
  rw [eq_cons_of_varName ran]
  dsimp only at next
  split at next
  · obtain ⟨⟨second, behind⟩, ran, next⟩ := bind_eq_ok.mp next
    rw [eq_cons_of_varName ran]
    cases next
    rfl
  · cases next
    rfl

theorem expression_takes (run : expression tokens = .ok (e, rest)) : ∃ ts, tokens = ts ++ rest ∧ Denotes ts e :=
  expressionWithin_takes tokens run

theorem condition_takes (run : condition tokens = .ok (e, rest)) :
    ∃ ts, tokens = conditionTokens ts ++ rest ∧ Denotes ts e := by
  obtain ⟨inner, opened, run⟩ := bind_eq_ok.mp run
  obtain ⟨⟨test, after⟩, ran, run⟩ := bind_eq_ok.mp run
  obtain ⟨behind, closed, run⟩ := bind_eq_ok.mp run
  cases run
  obtain ⟨ts, rfl, denotes⟩ := expression_takes ran
  exact ⟨ts, by rw [eq_cons_of_expect opened, eq_cons_of_expect closed]; simp [conditionTokens], denotes⟩

theorem braced_takes (takes : TakesBlocks block n) (fits : tokens.length ≤ n + 1)
    (run : braced block tokens = .ok (stmts, rest)) :
    ∃ ts, tokens = bracedTokens ts ++ rest ∧ (Part.body stmts).IsRead ts := by
  obtain ⟨inner, opened, run⟩ := bind_eq_ok.mp run
  obtain ⟨⟨body, after⟩, ran, run⟩ := bind_eq_ok.mp run
  obtain ⟨behind, closed, run⟩ := bind_eq_ok.mp run
  cases run
  have start := eq_cons_of_expect opened
  subst start
  obtain ⟨ts, rfl, isRead⟩ := takes (Nat.le_of_succ_le_succ fits) ran
  exact ⟨ts, by rw [eq_cons_of_expect closed]; simp [bracedTokens], isRead⟩

/-- A branch ends with its last body. -/
theorem closes_branch (ts : List Token) (closes : us = [] ∨ Closes us) : Closes (bracedTokens ts ++ us) := by
  rcases closes with rfl | closes
  · rw [List.append_nil]
    exact closes_braced ts
  · exact closes.behind _

theorem alternatives_takes (takes : TakesBlocks block n) (lim : List Token) (fits : tokens.length ≤ n + 1)
    (run : alternatives block lim tokens = .ok (a, rest)) :
    ∃ ts, tokens = ts ++ rest ∧ (Part.otherwise a).IsRead ts ∧ (ts = [] ∨ Closes ts) := by
  induction lim generalizing tokens a with
  | nil =>
    cases run
    exact ⟨[], rfl, isRead_nothing, Or.inl rfl⟩
  | cons l lim ih =>
    unfold alternatives at run
    split at run
    · cases run
      exact ⟨[], rfl, isRead_nothing, Or.inl rfl⟩
    · rename_i behind other
      have start := eq_cons_of_word other
      subst start
      rw [List.length_cons] at fits
      split at run
      · obtain ⟨⟨body, after⟩, ran, run⟩ := bind_eq_ok.mp run
        cases run
        obtain ⟨us, rfl, isRead⟩ := braced_takes takes (by omega) ran
        exact ⟨_, List.cons_append.symm, isRead_otherwise isRead, Or.inr ((closes_braced us).behind [_])⟩
      · rename_i inner again
        have start := eq_cons_of_word again
        subst start
        obtain ⟨⟨test, behindTest⟩, ranTest, run⟩ := bind_eq_ok.mp run
        obtain ⟨⟨body, behindBody⟩, ranBody, run⟩ := bind_eq_ok.mp run
        obtain ⟨⟨more, behindMore⟩, ranMore, run⟩ := bind_eq_ok.mp run
        cases run
        obtain ⟨ts, rfl, denotes⟩ := condition_takes ranTest
        simp only [List.length_cons, List.length_append] at fits
        obtain ⟨us, rfl, isRead⟩ := braced_takes takes (by omega) ranBody
        rw [List.length_append] at fits
        obtain ⟨vs, rfl, isReadMore, closes⟩ := ih (by omega) ranMore
        exact ⟨_, by simp, isRead_elseIf denotes isRead isReadMore,
          Or.inr ((closes_branch us closes).behind (_ :: _ :: conditionTokens ts))⟩

theorem branchStatement_takes (takes : TakesBlocks block n) (fits : tokens.length ≤ n + 1)
    (run : branchStatement block tokens = .ok (s, rest)) :
    ∃ ts, tokens = ts ++ rest ∧ (Part.single s).IsRead (.ident "if" :: ts) ∧ Closes ts := by
  obtain ⟨⟨test, behindTest⟩, ranTest, run⟩ := bind_eq_ok.mp run
  obtain ⟨⟨body, behindBody⟩, ranBody, run⟩ := bind_eq_ok.mp run
  obtain ⟨⟨more, behindMore⟩, ranMore, run⟩ := bind_eq_ok.mp run
  cases run
  obtain ⟨ts, rfl, denotes⟩ := condition_takes ranTest
  rw [List.length_append] at fits
  obtain ⟨us, rfl, isRead⟩ := braced_takes takes (by omega) ranBody
  rw [List.length_append] at fits
  obtain ⟨vs, rfl, isReadMore, closes⟩ := alternatives_takes takes _ (by omega) ranMore
  exact ⟨_, by simp, isRead_branch denotes isRead isReadMore, (closes_branch us closes).behind _⟩

theorem countStatement_takes (takes : TakesBlocks block n) (fits : tokens.length ≤ n + 1)
    (run : countStatement block tokens = .ok (s, rest)) :
    ∃ ts, tokens = ts ++ rest ∧ (Part.single s).IsRead (.ident "for" :: ts) ∧ Closes ts := by
  obtain ⟨r₁, opened, run⟩ := bind_eq_ok.mp run
  obtain ⟨⟨var, r₂⟩, named, run⟩ := bind_eq_ok.mp run
  obtain ⟨r₃, assigned, run⟩ := bind_eq_ok.mp run
  obtain ⟨⟨first, r₄⟩, ranFirst, run⟩ := bind_eq_ok.mp run
  obtain ⟨r₅, parted, run⟩ := bind_eq_ok.mp run
  obtain ⟨r₆, compared, run⟩ := bind_eq_ok.mp run
  obtain ⟨⟨descending, r₇⟩, bounded, run⟩ := bind_eq_ok.mp run
  obtain ⟨⟨last, r₈⟩, ranLast, run⟩ := bind_eq_ok.mp run
  obtain ⟨r₉, partedAgain, run⟩ := bind_eq_ok.mp run
  obtain ⟨r₁₀, changed, run⟩ := bind_eq_ok.mp run
  obtain ⟨r₁₁, plus, run⟩ := bind_eq_ok.mp run
  obtain ⟨⟨step, r₁₂⟩, ranStep, run⟩ := bind_eq_ok.mp run
  obtain ⟨r₁₃, closed, run⟩ := bind_eq_ok.mp run
  obtain ⟨⟨body, r₁₄⟩, ranBody, run⟩ := bind_eq_ok.mp run
  cases run
  obtain ⟨ts, rfl, firstDenotes⟩ := expression_takes ranFirst
  obtain ⟨us, rfl, lastDenotes⟩ := expression_takes ranLast
  obtain ⟨vs, rfl, stepDenotes⟩ := expression_takes ranStep
  have whole : tokens = countTokens var descending ts us vs ++ r₁₃ := by
    rw [eq_cons_of_expect opened, eq_cons_of_varName named, eq_cons_of_expect assigned, eq_cons_of_expect parted,
      eq_cons_of_sameVariable compared, eq_cons_of_loopBound bounded, eq_cons_of_expect partedAgain,
      eq_cons_of_sameVariable changed, eq_cons_of_expect plus, eq_cons_of_expect closed]
    simp [countTokens]
  subst whole
  rw [List.length_append] at fits
  obtain ⟨ws, rfl, isRead⟩ := braced_takes takes (by omega) ranBody
  exact ⟨_, by simp, isRead_count firstDenotes lastDenotes stepDenotes isRead, (closes_braced ws).behind _⟩

theorem eachStatement_takes (takes : TakesBlocks block n) (fits : tokens.length ≤ n + 1)
    (run : eachStatement block tokens = .ok (s, rest)) :
    ∃ ts, tokens = ts ++ rest ∧ (Part.single s).IsRead (.ident "foreach" :: ts) ∧ Closes ts := by
  obtain ⟨r₁, opened, run⟩ := bind_eq_ok.mp run
  obtain ⟨⟨list, r₂⟩, ranList, run⟩ := bind_eq_ok.mp run
  dsimp only at run
  split at run
  · cases run
  rename_i r₃ named
  obtain ⟨⟨⟨key, value⟩, r₄⟩, entries, run⟩ := bind_eq_ok.mp run
  obtain ⟨r₅, closed, run⟩ := bind_eq_ok.mp run
  obtain ⟨⟨body, r₆⟩, ranBody, run⟩ := bind_eq_ok.mp run
  cases run
  dsimp only at closed
  obtain ⟨ts, rfl, denotes⟩ := expression_takes ranList
  have whole : tokens = conditionTokens (ts ++ .ident "as" :: entryTokens key value) ++ r₅ := by
    rw [eq_cons_of_expect opened, eq_cons_of_word named, eq_append_of_entryVariables entries,
      eq_cons_of_expect closed]
    simp [conditionTokens]
  subst whole
  rw [List.length_append] at fits
  obtain ⟨us, rfl, isRead⟩ := braced_takes takes (by omega) ranBody
  exact ⟨_, by simp, isRead_each denotes isRead, (closes_braced us).behind _⟩

/-! ### How expressions end -/

theorem EndsOpen.append (first : EndsOpen ts) (last : EndsOpen us) : EndsOpen (ts ++ us) := by
  intro t mem
  rw [List.getLast?_append] at mem
  cases final : us.getLast? with
  | none =>
    rw [final] at mem
    exact first t mem
  | some u =>
    rw [final] at mem
    exact last t (final ▸ mem)

theorem EndsOpen.concat (ts : List Token) {t : Token} (inside : t.endsStatement = false) : EndsOpen (ts ++ [t]) := by
  intro u mem
  rw [List.getLast?_concat] at mem
  cases mem
  exact inside

theorem EndsOpen.cons {t : Token} (inside : t.endsStatement = false) (last : EndsOpen ts) : EndsOpen (t :: ts) := by
  have alone : EndsOpen [t] := EndsOpen.concat [] inside
  exact alone.append last

theorem EndsOpen.behind (t : Token) (some : ts ≠ []) (last : EndsOpen ts) : EndsOpen (t :: ts) := by
  intro u mem
  rw [List.getLast?_cons_of_ne_nil some] at mem
  exact last u mem

/-- No expression ends with a token that could end a statement. -/
theorem Derives.endsOpen {phrase : Phrase} (derives : Derives phrase ts) : EndsOpen ts := by
  have nothing : EndsOpen [] := by
    intro t mem
    cases mem
  induction derives with
  | unary _ ih | lastArgument _ ih => exact ih
  | row _ _ ih ihMore | postfixed _ _ ih ihMore => exact ih.append ihMore
  | chainEnd | accessEnd => exact nothing
  | chainOnce _ _ operand ih =>
    obtain ⟨t, us, rfl, -⟩ := operand.starts rfl
    exact ih.behind _ (List.cons_ne_nil _ _)
  | chainOn _ _ operand _ ih ihMore =>
    obtain ⟨t, us, rfl, -⟩ := operand.starts rfl
    exact (ih.append ihMore).behind _ (List.cons_ne_nil _ _)
  | bang _ ih | notWord _ ih | minus _ ih => exact ih.cons rfl
  | var | int | float | str | trueWord | falseWord | nullWord => exact nothing.cons rfl
  | grouped => exact EndsOpen.concat (_ :: _) rfl
  | callNone => exact EndsOpen.concat [_, _] rfl
  | call => exact EndsOpen.concat (_ :: _ :: _) rfl
  | memberName _ ih | memberIndex _ ih => exact (ih.cons rfl).cons rfl
  | @index base key e ts us _ _ ih ihMore => exact (ih.append (ihMore.cons (t := .punct .closeBracket) rfl)).cons rfl
  | @argument e es ts us _ _ ih ihMore => exact ih.append (ihMore.cons (t := .punct .comma) rfl)

/-- No expression goes on behind the end of its fragment. -/
theorem stops_fragmentEnd (tail : List Token) : Stops operatorRows (.fragmentEnd :: tail) := by
  intro t mem
  cases mem
  exact ⟨by simp, by simp, by simp [operatorRows]; decide⟩

theorem unended_echo (denotes : Denotes ts e) : Unended (.echo e) (.ident "echo" :: ts) := by
  refine ⟨denotes.endsOpen.cons rfl, _, _, rfl, fun block tail => ⟨?_, ?_⟩⟩
  · refine bind_eq_ok.mpr ⟨_, denotes.expression (stops_fragmentEnd tail), ?_⟩
    exact bind_eq_ok.mpr ⟨_, rfl, rfl⟩
  · refine bind_eq_ok.mpr ⟨_, denotes.expression_closed rfl, ?_⟩
    exact bind_eq_ok.mpr ⟨_, rfl, rfl⟩

theorem unended_startBuffer : Unended .startBuffer [.ident "ob_start", .punct .openParen, .punct .closeParen] :=
  ⟨EndsOpen.concat [_, _] rfl, _, _, rfl, fun _ _ => ⟨rfl, rfl⟩⟩

/-! ### What the parser takes as statements -/

theorem endOfStatement_ok (run : endOfStatement tokens = .ok rest) :
    tokens = .punct .semicolon :: rest ∨ tokens = rest ∧ ∃ behind, rest = .fragmentEnd :: behind := by
  unfold endOfStatement at run
  split at run
  · cases run
    exact Or.inl rfl
  · cases run
    exact Or.inr ⟨rfl, _, rfl⟩
  · cases run

/-- A statement is taken from tokens that are read the same in front of anything, or that the end of their fragment
ended. -/
theorem statement_takes {word : String} (takes : TakesBlocks block n) (fits : tokens.length ≤ n + 1)
    (run : statement block word tokens = .ok (s, rest)) :
    ∃ ts, tokens = ts ++ rest ∧ ((Part.single s).IsRead (.ident word :: ts) ∧ Closes ts ∨
      Unended s (.ident word :: ts) ∧ ∃ behind, rest = .fragmentEnd :: behind) := by
  unfold statement at run
  split at run
  · rename_i same
    subst same
    obtain ⟨⟨e, after⟩, ran, run⟩ := bind_eq_ok.mp run
    obtain ⟨behind, ended, run⟩ := bind_eq_ok.mp run
    cases run
    obtain ⟨ts, rfl, denotes⟩ := expression_takes ran
    rcases endOfStatement_ok ended with rfl | ⟨rfl, ends⟩
    · exact ⟨ts ++ [.punct .semicolon], by simp, Or.inl ⟨isRead_echo denotes, closes_semicolon ts⟩⟩
    · exact ⟨ts, rfl, Or.inr ⟨unended_echo denotes, ends⟩⟩
  split at run
  · rename_i same
    subst same
    obtain ⟨ts, same, taken⟩ := branchStatement_takes takes fits run
    exact ⟨ts, same, Or.inl taken⟩
  split at run
  · rename_i same
    subst same
    obtain ⟨ts, same, taken⟩ := countStatement_takes takes fits run
    exact ⟨ts, same, Or.inl taken⟩
  split at run
  · rename_i same
    subst same
    obtain ⟨ts, same, taken⟩ := eachStatement_takes takes fits run
    exact ⟨ts, same, Or.inl taken⟩
  split at run
  · rename_i same
    subst same
    obtain ⟨inner, opened, run⟩ := bind_eq_ok.mp run
    obtain ⟨after, closed, run⟩ := bind_eq_ok.mp run
    obtain ⟨behind, ended, run⟩ := bind_eq_ok.mp run
    cases run
    have start := eq_cons_of_expect opened
    subst start
    have next := eq_cons_of_expect closed
    subst next
    rcases endOfStatement_ok ended with rfl | ⟨rfl, ends⟩
    · exact ⟨[.punct .openParen, .punct .closeParen, .punct .semicolon], rfl,
        Or.inl ⟨isRead_startBuffer, closes_semicolon [_, _]⟩⟩
    · exact ⟨[.punct .openParen, .punct .closeParen], rfl, Or.inr ⟨unended_startBuffer, ends⟩⟩
  · cases run

theorem exists_ident_of_isRead (isRead : (Part.single s).IsRead ts) : ∃ word rest, ts = .ident word :: rest := by
  obtain ⟨word, rest, same, -⟩ := isRead ts [] (Nat.le_succ _) (by intro t mem; cases mem)
  exact ⟨word, rest, same⟩

theorem Sequence.of_fragmentEnd (sequence : Sequence stmts (.fragmentEnd :: ts)) : Sequence stmts ts := by
  generalize whole : Token.fragmentEnd :: ts = tokens at sequence
  cases sequence with
  | done => cases whole
  | skip _ more =>
    cases whole
    exact more
  | text => cases whole
  | statement first _ _ =>
    obtain ⟨word, rest, rfl⟩ := exists_ident_of_isRead first
    cases whole
  | ended first _ =>
    obtain ⟨word, rest, rfl, -⟩ := first.isRead
    cases whole

/-- Statements are taken one after the other, up to where a body ends. -/
theorem statements_takes (takes : TakesBlocks block n) (lim : List Token) (fits : tokens.length ≤ n + 1)
    (room : tokens.length ≤ lim.length) (run : statements block lim tokens = .ok (stmts, rest)) :
    ∃ ts, tokens = ts ++ rest ∧ Sequence stmts ts ∧ Ends rest := by
  have nowhere : Ends [] := by
    intro t mem
    cases mem
  induction lim generalizing tokens stmts with
  | nil =>
    cases run
    have empty := List.length_eq_zero_iff.mp (Nat.le_zero.mp room)
    subst empty
    exact ⟨[], rfl, .done, nowhere⟩
  | cons l lim ih =>
    cases tokens with
    | nil =>
      cases run
      exact ⟨[], rfl, .done, nowhere⟩
    | cons t tokens =>
      simp only [List.length_cons] at fits room
      unfold statements at run
      dsimp only at run
      split at run
      · cases run
        exact ⟨[], rfl, .done, by intro t mem; cases mem; rfl⟩
      · obtain ⟨ts, rfl, sequence, ends⟩ := ih (by omega) (by omega) run
        exact ⟨_, rfl, .skip (Or.inl rfl) sequence, ends⟩
      · obtain ⟨ts, rfl, sequence, ends⟩ := ih (by omega) (by omega) run
        exact ⟨_, rfl, .skip (Or.inr rfl) sequence, ends⟩
      · obtain ⟨⟨more, after⟩, ran, run⟩ := bind_eq_ok.mp run
        cases run
        obtain ⟨ts, rfl, sequence, ends⟩ := ih (by omega) (by omega) ran
        exact ⟨_, rfl, .text _ sequence, ends⟩
      · obtain ⟨⟨first, after⟩, ranFirst, run⟩ := bind_eq_ok.mp run
        obtain ⟨⟨more, behind⟩, ranMore, run⟩ := bind_eq_ok.mp run
        cases run
        obtain ⟨ts, rfl, taken⟩ := statement_takes takes (by omega) ranFirst
        simp only [List.length_append] at fits room
        dsimp only at ranMore
        obtain ⟨us, rfl, sequence, ends⟩ := ih (by omega) (by omega) ranMore
        rcases taken with ⟨isRead, closes⟩ | ⟨unended, next, fragmentEnds⟩
        · exact ⟨_, by simp, .statement isRead (closes.behind [_]) sequence, ends⟩
        · cases us with
          | nil =>
            -- a body does not end at the end of a fragment
            subst fragmentEnds
            cases ends _ rfl
          | cons u us =>
            cases fragmentEnds
            exact ⟨_, by simp, .ended unended sequence.of_fragmentEnd, ends⟩
      · cases run

theorem blockWithin_takes (bound : List Token) : TakesBlocks (blockWithin bound) bound.length := by
  induction bound with
  | nil =>
    intro tokens stmts rest fits run
    cases run
    have empty := List.length_eq_zero_iff.mp (Nat.le_zero.mp fits)
    subst empty
    exact ⟨[], rfl, isRead_done⟩
  | cons b bound ih =>
    intro tokens stmts rest fits run
    obtain ⟨ts, same, sequence, -⟩ := statements_takes ih tokens fits (Nat.le_refl _) run
    exact ⟨ts, same, sequence.isRead⟩

/-- An artifact is read as these statements exactly if they stand in its tokens one after the other. -/
theorem parseStatements_iff {artifact : String} :
    parseStatements artifact = .ok stmts ↔ ∃ ts, scan artifact = .ok ts ∧ Sequence stmts ts := by
  constructor
  · intro run
    obtain ⟨tokens, scanned, run⟩ := bind_eq_ok.mp run
    obtain ⟨⟨body, rest⟩, ran, run⟩ := bind_eq_ok.mp run
    dsimp only at run
    split at run
    · cases run
      refine ⟨tokens, scanned, ?_⟩
      cases tokens with
      | nil =>
        cases ran
        exact .done
      | cons t tokens =>
        obtain ⟨ts, same, sequence, -⟩ :=
          statements_takes (blockWithin_takes tokens) (t :: tokens) (Nat.le_refl _) (Nat.le_refl _) ran
        rw [same, List.append_nil]
        exact sequence
    · cases run
  · rintro ⟨ts, scanned, sequence⟩
    exact parseStatements_of_isRead scanned sequence.isRead

/-! ### Joining -/

theorem Sequence.of_semicolon (sequence : Sequence stmts (.punct .semicolon :: ts)) : Sequence stmts ts := by
  generalize whole : Token.punct .semicolon :: ts = tokens at sequence
  cases sequence with
  | done => cases whole
  | skip _ more =>
    cases whole
    exact more
  | text => cases whole
  | statement first _ _ =>
    obtain ⟨word, rest, rfl⟩ := exists_ident_of_isRead first
    cases whole
  | ended first _ =>
    obtain ⟨word, rest, rfl, -⟩ := first.isRead
    cases whole

theorem Sequence.of_nil (sequence : Sequence stmts []) : stmts = [] := by
  generalize whole : ([] : List Token) = tokens at sequence
  cases sequence with
  | done => rfl
  | skip => cases whole
  | text => cases whole
  | statement first _ _ =>
    obtain ⟨word, rest, rfl⟩ := exists_ident_of_isRead first
    cases whole
  | ended first _ => simp at whole

/-- The last end of a fragment is either idle or what ends the last statement. -/
theorem Sequence.before_end (sequence : Sequence stmts (ts ++ [.fragmentEnd])) :
    Sequence stmts ts ∨
      ∃ before s us vs, stmts = before ++ [s] ∧ ts = us ++ vs ∧ Sequence before us ∧ Unended s vs := by
  generalize whole : ts ++ [Token.fragmentEnd] = tokens at sequence
  induction sequence generalizing ts with
  | done => simp at whole
  | @skip stmts us t skipped more ih =>
    cases ts with
    | nil =>
      cases whole
      exact Or.inl more
    | cons u ts =>
      cases whole
      rcases ih rfl with idle | ⟨before, s, us, vs, rfl, rfl, front, unended⟩
      · exact Or.inl (.skip skipped idle)
      · exact Or.inr ⟨before, s, t :: us, vs, rfl, rfl, .skip skipped front, unended⟩
  | @text stmts us text more ih =>
    cases ts with
    | nil => cases whole
    | cons u ts =>
      cases whole
      rcases ih rfl with idle | ⟨before, s, us, vs, rfl, rfl, front, unended⟩
      · exact Or.inl (.text text idle)
      · exact Or.inr ⟨.text text :: before, s, .text text :: us, vs, rfl, rfl, .text text front, unended⟩
  | @statement s stmts first us isRead closes more ih =>
    rcases us.eq_nil_or_concat with rfl | ⟨us, u, rfl⟩
    · obtain ⟨t, last, ends⟩ := closes
      rw [List.append_nil] at whole
      rw [← whole, List.getLast?_concat] at last
      cases last
      rcases ends with same | same <;> cases same
    · rw [List.concat_eq_append, ← List.append_assoc] at whole
      obtain ⟨rfl, same⟩ := List.append_inj' whole rfl
      cases same
      rcases ih (List.concat_eq_append ..).symm with idle | ⟨before, last, vs, ws, rfl, rfl, front, unended⟩
      · exact Or.inl (.statement isRead closes idle)
      · exact Or.inr ⟨s :: before, last, first ++ vs, ws, rfl, by simp, .statement isRead closes front, unended⟩
  | @ended s stmts first us unended more ih =>
    rcases us.eq_nil_or_concat with rfl | ⟨us, u, rfl⟩
    · obtain ⟨rfl, -⟩ := List.append_inj' whole rfl
      cases more.of_nil
      exact Or.inr ⟨[], s, [], ts, rfl, rfl, .done, unended⟩
    · rw [List.concat_eq_append, ← List.cons_append, ← List.append_assoc] at whole
      obtain ⟨rfl, same⟩ := List.append_inj' whole rfl
      cases same
      rcases ih (List.concat_eq_append ..).symm with idle | ⟨before, last, vs, ws, rfl, rfl, front, unendedLast⟩
      · exact Or.inl (.ended unended idle)
      · exact Or.inr ⟨s :: before, last, first ++ .fragmentEnd :: vs, ws, rfl, by simp, .ended unended front,
          unendedLast⟩

/-- Where the last statement is ended, the end of the fragment may be taken away. -/
theorem Sequence.without_end (sequence : Sequence stmts (ts ++ [.fragmentEnd]))
    (ended : ∀ t ∈ ts.getLast?, t.endsStatement = true) : Sequence stmts ts := by
  rcases sequence.before_end with idle | ⟨before, s, us, vs, rfl, rfl, -, unended⟩
  · exact idle
  · obtain ⟨word, rest, rfl, -⟩ := unended.isRead
    obtain ⟨t, last⟩ : ∃ t, (Token.ident word :: rest).getLast? = some t :=
      ⟨_, List.getLast?_eq_some_getLast (List.cons_ne_nil _ _)⟩
    have inside := unended.last t last
    have outside := ended t (by rw [List.getLast?_append, last]; rfl)
    rw [inside] at outside
    cases outside

/-- The end of a fragment may give way to a semicolon. -/
theorem Sequence.exchange_end (sequence : Sequence stmts (ts ++ [.fragmentEnd])) :
    Sequence stmts (ts ++ [.punct .semicolon]) := by
  rcases sequence.before_end with idle | ⟨before, s, us, vs, rfl, rfl, front, unended⟩
  · simpa using idle.append (.skip (Or.inr rfl) .done)
  · obtain ⟨word, rest, rfl, read⟩ := unended.isRead
    have isRead : (Part.single s).IsRead (.ident word :: rest ++ [.punct .semicolon]) := by
      intro bound tail _ _
      refine ⟨word, rest ++ [.punct .semicolon], rfl, ?_⟩
      rw [List.append_assoc]
      exact (read (blockWithin bound) tail).2
    have last := Sequence.statement isRead (closes_semicolon _) .done
    rw [List.append_nil] at last
    rw [List.append_assoc]
    exact front.append last

/-- What may follow the statements of a fragment when its end is taken away: a statement that was only ended by it
needs an end in what follows. -/
def Joins (ts next : List Token) : Prop :=
  (∀ t ∈ ts.getLast?, t.endsStatement = true) ∨ ∃ t ∈ next.head?, t = .punct .semicolon ∨ t = .fragmentEnd

theorem Sequence.join (first : Sequence stmts (ts ++ [.fragmentEnd])) (last : Sequence more us) (joins : Joins ts us) :
    Sequence (stmts ++ more) (ts ++ us) := by
  rcases joins with ended | ⟨t, next, ends⟩
  · exact (first.without_end ended).append last
  · obtain ⟨us, rfl⟩ := List.head?_eq_some_iff.mp next
    rcases ends with rfl | rfl
    · simpa using first.exchange_end.append last.of_semicolon
    · simpa using first.append last.of_fragmentEnd

end Stencil.Artifact
