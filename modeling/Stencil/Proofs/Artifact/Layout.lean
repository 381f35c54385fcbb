import Stencil.Proofs.Artifact.Grammar

/-!
How statements are laid out as tokens. Every layout is read as the statements it is of, wherever a body may end.
Ends of fragments and single semicolons may stand between statements, but not between a branch and its alternatives.
-/
namespace Stencil.Artifact

/-- What tokens may be laid out for. -/
inductive Part where
  | body (stmts : List Stmt)
  /-- A statement that is no text. -/
  | single (s : Stmt)
  | otherwise (a : Alternative)

/-- A body in braces. -/
def bracedTokens (ts : List Token) : List Token := .punct .openBrace :: (ts ++ [.punct .closeBrace])

/-- A condition in parentheses. -/
def conditionTokens (ts : List Token) : List Token := .punct .openParen :: (ts ++ [.punct .closeParen])

/-- The comparison that ends a loop over numbers. -/
def boundToken (descending : Bool) : Token := .punct (if descending then .greaterEqual else .lessEqual)

/-- What stands between the parentheses of a loop over numbers. -/
def countTokens (var : String) (descending : Bool) (first last step : List Token) : List Token :=
  .punct .openParen :: .var var :: .punct .assign :: (first ++
    .punct .semicolon :: .var var :: boundToken descending :: (last ++
      .punct .semicolon :: .var var :: .punct .plusAssign :: (step ++ [.punct .closeParen])))

/-- The variables of a loop over entries. -/
def entryTokens : Option String → String → List Token
  | none, value => [.var value]
  | some key, value => [.var key, .punct .arrow, .var value]

inductive Lays : Part → List Token → Prop where
  | done : Lays (.body []) []
  | fragmentEnd {stmts : List Stmt} {ts : List Token} (more : Lays (.body stmts) ts) :
      Lays (.body stmts) (.fragmentEnd :: ts)
  | semicolon {stmts : List Stmt} {ts : List Token} (more : Lays (.body stmts) ts) :
      Lays (.body stmts) (.punct .semicolon :: ts)
  | text {stmts : List Stmt} {ts : List Token} (s : String) (more : Lays (.body stmts) ts) :
      Lays (.body (.text s :: stmts)) (.text s :: ts)
  | statement {s : Stmt} {stmts : List Stmt} {ts us : List Token} (first : Lays (.single s) ts)
      (more : Lays (.body stmts) us) : Lays (.body (s :: stmts)) (ts ++ us)
  | echo {e : Expr} {ts : List Token} (denotes : Denotes ts e) :
      Lays (.single (.echo e)) (.ident "echo" :: (ts ++ [.punct .semicolon]))
  | branch {test : Expr} {stmts : List Stmt} {a : Alternative} {ts us vs : List Token} (denotes : Denotes ts test)
      (body : Lays (.body stmts) us) (more : Lays (.otherwise a) vs) :
      Lays (.single (.branch test stmts a)) (.ident "if" :: (conditionTokens ts ++ (bracedTokens us ++ vs)))
  | count {var : String} {first last step : Expr} {descending : Bool} {stmts : List Stmt} {ts us vs ws : List Token}
      (firstDenotes : Denotes ts first) (lastDenotes : Denotes us last) (stepDenotes : Denotes vs step)
      (body : Lays (.body stmts) ws) :
      Lays (.single (.count var first last step descending stmts))
        (.ident "for" :: (countTokens var descending ts us vs ++ bracedTokens ws))
  | each {list : Expr} {key : Option String} {value : String} {stmts : List Stmt} {ts us : List Token}
      (denotes : Denotes ts list) (body : Lays (.body stmts) us) :
      Lays (.single (.each list key value stmts))
        (.ident "foreach" :: (conditionTokens (ts ++ .ident "as" :: entryTokens key value) ++ bracedTokens us))
  | startBuffer :
      Lays (.single .startBuffer)
        [.ident "ob_start", .punct .openParen, .punct .closeParen, .punct .semicolon]
  | nothing : Lays (.otherwise .nothing) []
  | otherwise {stmts : List Stmt} {us : List Token} (body : Lays (.body stmts) us) :
      Lays (.otherwise (.otherwise stmts)) (.ident "else" :: bracedTokens us)
  | elseIf {test : Expr} {stmts : List Stmt} {a : Alternative} {ts us vs : List Token} (denotes : Denotes ts test)
      (body : Lays (.body stmts) us) (more : Lays (.otherwise a) vs) :
      Lays (.otherwise (.branch test stmts a))
        (.ident "else" :: .ident "if" :: (conditionTokens ts ++ (bracedTokens us ++ vs)))

theorem Lays.append {stmts more : List Stmt} {ts us : List Token} (first : Lays (.body stmts) ts)
    (last : Lays (.body more) us) : Lays (.body (stmts ++ more)) (ts ++ us) := by
  generalize same : Part.body stmts = part at first
  induction first generalizing stmts with
  | done =>
    cases same
    exact last
  | fragmentEnd _ ih =>
    cases same
    exact .fragmentEnd (ih rfl)
  | semicolon _ ih =>
    cases same
    exact .semicolon (ih rfl)
  | text s _ ih =>
    cases same
    exact .text s (ih rfl)
  | statement head _ _ ih =>
    cases same
    simpa using Lays.statement head (ih rfl)
  | _ => cases same

/-! ### Reading a layout -/

/-- A body ends here: at a closing brace, or at the end. -/
def Ends (tail : List Token) : Prop := ∀ t ∈ tail.head?, t = .punct .closeBrace

/-- No alternative of a branch follows. -/
def NoElse (tail : List Token) : Prop := ∀ t ∈ tail.head?, t ≠ .ident "else"

theorem Ends.noElse {tail : List Token} (ends : Ends tail) : NoElse tail := by
  intro t mem same
  have := (ends t mem).symm.trans same
  cases this

/-- No statement starts with `else`. -/
theorem noElse_of_body {stmts : List Stmt} {ts tail : List Token} (body : Lays (.body stmts) ts) (ends : Ends tail) :
    NoElse (ts ++ tail) := by
  cases body with
  | done => exact ends.noElse
  | statement first =>
    cases first <;>
      · intro t mem
        cases mem
        simp
  | _ =>
    intro t mem
    cases mem
    simp

theorem condition_of_denotes {e : Expr} {ts : List Token} (denotes : Denotes ts e) (tail : List Token) :
    condition (conditionTokens ts ++ tail) = .ok (e, tail) := by
  unfold condition conditionTokens
  rw [List.cons_append, List.append_assoc]
  refine bind_eq_ok.mpr ⟨_, expect_self .openParen _, ?_⟩
  refine bind_eq_ok.mpr ⟨_, denotes.expression_closed rfl, ?_⟩
  exact bind_eq_ok.mpr ⟨_, expect_self .closeParen tail, rfl⟩

theorem braced_of_block {block : Parser (List Stmt)} {stmts : List Stmt} {ts tail : List Token}
    (read : block (ts ++ .punct .closeBrace :: tail) = .ok (stmts, .punct .closeBrace :: tail)) :
    braced block (bracedTokens ts ++ tail) = .ok (stmts, tail) := by
  unfold braced bracedTokens
  rw [List.cons_append, List.append_assoc]
  refine bind_eq_ok.mpr ⟨_, expect_self .openBrace _, ?_⟩
  refine bind_eq_ok.mpr ⟨_, read, ?_⟩
  exact bind_eq_ok.mpr ⟨_, expect_self .closeBrace tail, rfl⟩

theorem sameVariable_self (name : String) (tail : List Token) : sameVariable name (.var name :: tail) = .ok tail :=
  if_pos rfl

theorem loopBound_boundToken (descending : Bool) (tail : List Token) :
    loopBound (boundToken descending :: tail) = .ok (descending, tail) := by
  cases descending <;> rfl

theorem entryVariables_entryTokens (key : Option String) (value : String) (tail : List Token) :
    entryVariables (entryTokens key value ++ .punct .closeParen :: tail) =
      .ok ((key, value), .punct .closeParen :: tail) := by
  cases key <;> rfl

theorem countStatement_countTokens {block : Parser (List Stmt)} {var : String} {first last step : Expr}
    {ts us vs rest tail : List Token} {stmts : List Stmt} (descending : Bool) (firstDenotes : Denotes ts first)
    (lastDenotes : Denotes us last) (stepDenotes : Denotes vs step) (body : braced block rest = .ok (stmts, tail)) :
    countStatement block (countTokens var descending ts us vs ++ rest) =
      .ok (.count var first last step descending stmts, tail) := by
  have order : countTokens var descending ts us vs ++ rest =
      .punct .openParen :: .var var :: .punct .assign :: (ts ++
        .punct .semicolon :: .var var :: boundToken descending :: (us ++
          .punct .semicolon :: .var var :: .punct .plusAssign :: (vs ++ .punct .closeParen :: rest))) := by
    simp [countTokens]
  rw [order]
  refine bind_eq_ok.mpr ⟨_, expect_self .openParen _, ?_⟩
  refine bind_eq_ok.mpr ⟨(var, _), rfl, ?_⟩
  refine bind_eq_ok.mpr ⟨_, expect_self .assign _, ?_⟩
  refine bind_eq_ok.mpr ⟨_, firstDenotes.expression_closed rfl, ?_⟩
  refine bind_eq_ok.mpr ⟨_, expect_self .semicolon _, ?_⟩
  refine bind_eq_ok.mpr ⟨_, sameVariable_self var _, ?_⟩
  refine bind_eq_ok.mpr ⟨_, loopBound_boundToken descending _, ?_⟩
  refine bind_eq_ok.mpr ⟨_, lastDenotes.expression_closed rfl, ?_⟩
  refine bind_eq_ok.mpr ⟨_, expect_self .semicolon _, ?_⟩
  refine bind_eq_ok.mpr ⟨_, sameVariable_self var _, ?_⟩
  refine bind_eq_ok.mpr ⟨_, expect_self .plusAssign _, ?_⟩
  refine bind_eq_ok.mpr ⟨_, stepDenotes.expression_closed rfl, ?_⟩
  refine bind_eq_ok.mpr ⟨_, expect_self .closeParen rest, ?_⟩
  exact bind_eq_ok.mpr ⟨_, body, rfl⟩

/-- No expression goes on with `as`. -/
theorem stops_as (tail : List Token) : Stops operatorRows (.ident "as" :: tail) := by
  intro t mem
  cases mem
  exact ⟨by simp, by simp, by simp [operatorRows]; decide⟩

theorem eachStatement_entryTokens {block : Parser (List Stmt)} {list : Expr} {ts rest tail : List Token}
    {stmts : List Stmt} (key : Option String) (value : String) (denotes : Denotes ts list)
    (body : braced block rest = .ok (stmts, tail)) :
    eachStatement block (conditionTokens (ts ++ .ident "as" :: entryTokens key value) ++ rest) =
      .ok (.each list key value stmts, tail) := by
  have order : conditionTokens (ts ++ .ident "as" :: entryTokens key value) ++ rest =
      .punct .openParen :: (ts ++ .ident "as" :: (entryTokens key value ++ .punct .closeParen :: rest)) := by
    simp [conditionTokens]
  rw [order]
  refine bind_eq_ok.mpr ⟨_, expect_self .openParen _, ?_⟩
  refine bind_eq_ok.mpr ⟨_, denotes.expression (stops_as _), ?_⟩
  refine bind_eq_ok.mpr ⟨_, entryVariables_entryTokens key value rest, ?_⟩
  refine bind_eq_ok.mpr ⟨_, expect_self .closeParen rest, ?_⟩
  exact bind_eq_ok.mpr ⟨_, body, rfl⟩

theorem alternatives_of_noElse {block : Parser (List Stmt)} {tail : List Token} (noElse : NoElse tail)
    (lim : List Token) : alternatives block lim tail = .ok (.nothing, tail) := by
  have word : word? "else" tail = none := by
    unfold word?
    split
    · exact if_neg fun same => noElse _ rfl (congrArg Token.ident same)
    · rfl
  cases lim with
  | nil => rfl
  | cons l lim =>
    unfold alternatives
    rw [word]

/-- In front of which rests, and with which bounds, the tokens are read. -/
def Part.IsRead (ts : List Token) : Part → Prop
  | .body stmts => ∀ bound lim tail, ts.length ≤ bound.length + 1 → ts.length ≤ lim.length → Ends tail →
      statements (blockWithin bound) lim (ts ++ tail) = .ok (stmts, tail)
  | .single s => ∀ bound tail, ts.length ≤ bound.length + 1 → NoElse tail →
      ∃ word rest, ts = .ident word :: rest ∧ statement (blockWithin bound) word (rest ++ tail) = .ok (s, tail)
  | .otherwise a => ∀ bound lim tail, ts.length ≤ bound.length + 1 → ts.length ≤ lim.length → NoElse tail →
      alternatives (blockWithin bound) lim (ts ++ tail) = .ok (a, tail)

/-- A nested body has room where there is a bound for one token more. -/
theorem braced_of_isRead {stmts : List Stmt} {ts : List Token} (bound : List Token) (read : (Part.body stmts).IsRead ts)
    (fits : ts.length + 1 ≤ bound.length) (tail : List Token) :
    braced (blockWithin bound) (bracedTokens ts ++ tail) = .ok (stmts, tail) := by
  refine braced_of_block ?_
  cases bound with
  | nil => cases fits
  | cons b bound =>
    have ends : Ends (.punct .closeBrace :: tail) := by
      intro t mem
      cases mem
      rfl
    rw [List.length_cons] at fits
    exact read bound _ _ (by omega) (by simp) ends

section IsRead

variable {s : Stmt} {a : Alternative} {e test : Expr} {stmts : List Stmt} {ts us vs ws : List Token}

theorem isRead_done : (Part.body []).IsRead [] := by
  intro bound lim tail fits room ends
  cases lim with
  | nil => rfl
  | cons l lim =>
    cases tail with
    | nil => rfl
    | cons t tail =>
      cases ends t rfl
      rfl

theorem isRead_skip {t : Token} (skipped : t = .fragmentEnd ∨ t = .punct .semicolon) (more : (Part.body stmts).IsRead ts) :
    (Part.body stmts).IsRead (t :: ts) := by
  intro bound lim tail fits room ends
  rw [List.length_cons] at fits room
  cases lim with
  | nil => cases room
  | cons l lim =>
    have rest := more bound lim tail (by omega) (Nat.le_of_succ_le_succ room) ends
    rcases skipped with rfl | rfl
    · exact rest
    · exact rest

theorem isRead_text (text : String) (more : (Part.body stmts).IsRead ts) :
    (Part.body (.text text :: stmts)).IsRead (.text text :: ts) := by
  intro bound lim tail fits room ends
  rw [List.length_cons] at fits room
  cases lim with
  | nil => cases room
  | cons l lim =>
    have rest := more bound lim tail (by omega) (Nat.le_of_succ_le_succ room) ends
    exact bind_eq_ok.mpr ⟨_, rest, rfl⟩

theorem isRead_statement (first : (Part.single s).IsRead ts) (more : (Part.body stmts).IsRead us)
    (noElse : ∀ tail, Ends tail → NoElse (us ++ tail)) : (Part.body (s :: stmts)).IsRead (ts ++ us) := by
  intro bound lim tail fits room ends
  rw [List.length_append] at fits room
  obtain ⟨word, rest, rfl, read⟩ := first bound (us ++ tail) (by omega) (noElse tail ends)
  rw [List.length_cons] at fits room
  cases lim with
  | nil => simp at room
  | cons l lim =>
    rw [List.length_cons] at room
    have after := more bound lim tail (by omega) (by omega) ends
    rw [List.cons_append, List.cons_append, List.append_assoc]
    refine bind_eq_ok.mpr ⟨_, read, ?_⟩
    exact bind_eq_ok.mpr ⟨_, after, rfl⟩

theorem isRead_echo (denotes : Denotes ts e) :
    (Part.single (.echo e)).IsRead (.ident "echo" :: (ts ++ [.punct .semicolon])) := by
  intro bound tail fits noElse
  refine ⟨_, _, rfl, ?_⟩
  rw [List.append_assoc]
  refine bind_eq_ok.mpr ⟨_, denotes.expression_closed rfl, ?_⟩
  exact bind_eq_ok.mpr ⟨tail, rfl, rfl⟩

theorem isRead_branch (denotes : Denotes ts test) (body : (Part.body stmts).IsRead us)
    (more : (Part.otherwise a).IsRead vs) :
    (Part.single (.branch test stmts a)).IsRead (.ident "if" :: (conditionTokens ts ++ (bracedTokens us ++ vs))) := by
  intro bound tail fits noElse
  refine ⟨_, _, rfl, ?_⟩
  simp only [conditionTokens, bracedTokens, List.length_cons, List.length_append, List.length_nil] at fits
  have block := braced_of_isRead bound body (by omega) (vs ++ tail)
  have rest := more bound (vs ++ tail) tail (by omega) (by simp) noElse
  rw [List.append_assoc, List.append_assoc]
  refine bind_eq_ok.mpr ⟨_, condition_of_denotes denotes _, ?_⟩
  refine bind_eq_ok.mpr ⟨_, block, ?_⟩
  exact bind_eq_ok.mpr ⟨_, rest, rfl⟩

theorem isRead_count {var : String} {first last step : Expr} {descending : Bool} (firstDenotes : Denotes ts first)
    (lastDenotes : Denotes us last) (stepDenotes : Denotes vs step) (body : (Part.body stmts).IsRead ws) :
    (Part.single (.count var first last step descending stmts)).IsRead
      (.ident "for" :: (countTokens var descending ts us vs ++ bracedTokens ws)) := by
  intro bound tail fits noElse
  refine ⟨_, _, rfl, ?_⟩
  simp only [countTokens, bracedTokens, List.length_cons, List.length_append, List.length_nil] at fits
  have block := braced_of_isRead bound body (by omega) tail
  rw [List.append_assoc]
  exact countStatement_countTokens descending firstDenotes lastDenotes stepDenotes block

theorem isRead_each {list : Expr} {key : Option String} {value : String} (denotes : Denotes ts list)
    (body : (Part.body stmts).IsRead us) :
    (Part.single (.each list key value stmts)).IsRead
      (.ident "foreach" :: (conditionTokens (ts ++ .ident "as" :: entryTokens key value) ++ bracedTokens us)) := by
  intro bound tail fits noElse
  refine ⟨_, _, rfl, ?_⟩
  simp only [conditionTokens, bracedTokens, List.length_cons, List.length_append, List.length_nil] at fits
  have block := braced_of_isRead bound body (by omega) tail
  rw [List.append_assoc]
  exact eachStatement_entryTokens key value denotes block

theorem isRead_startBuffer :
    (Part.single .startBuffer).IsRead [.ident "ob_start", .punct .openParen, .punct .closeParen, .punct .semicolon] := by
  intro bound tail fits noElse
  exact ⟨_, _, rfl, rfl⟩

theorem isRead_nothing : (Part.otherwise .nothing).IsRead [] := by
  intro bound lim tail fits room noElse
  exact alternatives_of_noElse noElse lim

theorem isRead_otherwise (body : (Part.body stmts).IsRead us) :
    (Part.otherwise (.otherwise stmts)).IsRead (.ident "else" :: bracedTokens us) := by
  intro bound lim tail fits room noElse
  simp only [bracedTokens, List.length_cons, List.length_append, List.length_nil] at fits
  have block := braced_of_isRead bound body (by omega) tail
  cases lim with
  | nil => cases room
  | cons l lim => exact bind_eq_ok.mpr ⟨_, block, rfl⟩

theorem isRead_elseIf (denotes : Denotes ts test) (body : (Part.body stmts).IsRead us)
    (more : (Part.otherwise a).IsRead vs) :
    (Part.otherwise (.branch test stmts a)).IsRead
      (.ident "else" :: .ident "if" :: (conditionTokens ts ++ (bracedTokens us ++ vs))) := by
  intro bound lim tail fits room noElse
  simp only [conditionTokens, bracedTokens, List.length_cons, List.length_append, List.length_nil] at fits room
  have block := braced_of_isRead bound body (by omega) (vs ++ tail)
  cases lim with
  | nil => cases room
  | cons l lim =>
    rw [List.length_cons] at room
    have rest := more bound lim tail (by omega) (by omega) noElse
    rw [List.cons_append, List.cons_append, List.append_assoc, List.append_assoc]
    refine bind_eq_ok.mpr ⟨_, condition_of_denotes denotes _, ?_⟩
    refine bind_eq_ok.mpr ⟨_, block, ?_⟩
    exact bind_eq_ok.mpr ⟨_, rest, rfl⟩

end IsRead

theorem Lays.isRead {part : Part} {ts : List Token} (lays : Lays part ts) : part.IsRead ts := by
  induction lays with
  | done => exact isRead_done
  | fragmentEnd _ ih => exact isRead_skip (Or.inl rfl) ih
  | semicolon _ ih => exact isRead_skip (Or.inr rfl) ih
  | text s _ ih => exact isRead_text s ih
  | statement _ more ih ihMore => exact isRead_statement ih ihMore fun _ ends => noElse_of_body more ends
  | echo denotes => exact isRead_echo denotes
  | branch denotes _ _ ih ihMore => exact isRead_branch denotes ih ihMore
  | count firstDenotes lastDenotes stepDenotes _ ih => exact isRead_count firstDenotes lastDenotes stepDenotes ih
  | each denotes _ ih => exact isRead_each denotes ih
  | startBuffer => exact isRead_startBuffer
  | nothing => exact isRead_nothing
  | otherwise _ ih => exact isRead_otherwise ih
  | elseIf denotes _ _ ih ihMore => exact isRead_elseIf denotes ih ihMore

/-- An artifact is read as statements if its tokens are. -/
theorem parseStatements_of_isRead {artifact : String} {stmts : List Stmt} {ts : List Token}
    (scanned : scan artifact = .ok ts) (isRead : (Part.body stmts).IsRead ts) : parseStatements artifact = .ok stmts := by
  have read : block ts = .ok (stmts, []) := by
    have ends : Ends [] := by
      intro t mem
      cases mem
    cases ts with
    | nil => exact isRead [] [] [] (Nat.zero_le _) (Nat.zero_le _) ends
    | cons t ts =>
      have read := isRead ts (t :: ts) [] (Nat.le_refl _) (Nat.le_refl _) ends
      rwa [List.append_nil] at read
  refine bind_eq_ok.mpr ⟨ts, scanned, ?_⟩
  exact bind_eq_ok.mpr ⟨_, read, rfl⟩

/-- An artifact is read as the statements that its tokens are a layout of. -/
theorem parseStatements_of_lays {artifact : String} {stmts : List Stmt} {ts : List Token}
    (scanned : scan artifact = .ok ts) (lays : Lays (.body stmts) ts) : parseStatements artifact = .ok stmts :=
  parseStatements_of_isRead scanned lays.isRead

end Stencil.Artifact
