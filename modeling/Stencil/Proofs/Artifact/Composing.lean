import Stencil.Proofs.Artifact.LiteralText
import Stencil.Proofs.Artifact.TagCode

/-!
Statements written as pieces of text and code. Text is written as it is, and every other statement as code that may
hold other pieces. The writer breaks the text up, so the statements that are read from the artifact are not the same;
but they do the same when they are run.
-/
namespace Stencil.Artifact

open Written (opener closer)

/-- These pieces are written for statements. The brace that ends the body of a branch stands in front of its
alternative. -/
inductive Composes : Part → List Segment → Prop where
  | done : Composes (.body []) []
  | statement {s : Stmt} {stmts : List Stmt} {ps qs : List Segment} (first : Composes (.single s) ps)
      (more : Composes (.body stmts) qs) : Composes (.body (s :: stmts)) (ps ++ qs)
  | text (s : String) : Composes (.single (.text s)) [.text s.toList]
  | echo {e : Expr} {ts : List Token} {code : List Char} (denotes : Denotes ts e)
      (piece : Piece code (.ident "echo" :: (ts ++ [.punct .semicolon]))) : Composes (.single (.echo e)) [.code code]
  | startBuffer {code : List Char}
      (piece : Piece code [.ident "ob_start", .punct .openParen, .punct .closeParen, .punct .semicolon]) :
      Composes (.single .startBuffer) [.code code]
  | branch {test : Expr} {stmts : List Stmt} {a : Alternative} {ts : List Token} {code : List Char}
      {ps qs : List Segment} (denotes : Denotes ts test)
      (piece : Piece code (.ident "if" :: (conditionTokens ts ++ [.punct .openBrace])))
      (body : Composes (.body stmts) ps) (more : Composes (.otherwise a) qs) :
      Composes (.single (.branch test stmts a)) (.code code :: (ps ++ qs))
  | count {var : String} {first last step : Expr} {descending : Bool} {stmts : List Stmt} {ts us vs : List Token}
      {code ending : List Char} {ps : List Segment} (firstDenotes : Denotes ts first) (lastDenotes : Denotes us last)
      (stepDenotes : Denotes vs step)
      (piece : Piece code (.ident "for" :: (countTokens var descending ts us vs ++ [.punct .openBrace])))
      (body : Composes (.body stmts) ps) (ends : Piece ending [.punct .closeBrace]) :
      Composes (.single (.count var first last step descending stmts)) (.code code :: (ps ++ [.code ending]))
  | each {list : Expr} {key : Option String} {value : String} {stmts : List Stmt} {ts : List Token}
      {code ending : List Char} {ps : List Segment} (denotes : Denotes ts list)
      (piece : Piece code (.ident "foreach" ::
        (conditionTokens (ts ++ .ident "as" :: entryTokens key value) ++ [.punct .openBrace])))
      (body : Composes (.body stmts) ps) (ends : Piece ending [.punct .closeBrace]) :
      Composes (.single (.each list key value stmts)) (.code code :: (ps ++ [.code ending]))
  | nothing {ending : List Char} (ends : Piece ending [.punct .closeBrace]) :
      Composes (.otherwise .nothing) [.code ending]
  | otherwise {stmts : List Stmt} {code ending : List Char} {ps : List Segment}
      (piece : Piece code [.punct .closeBrace, .ident "else", .punct .openBrace]) (body : Composes (.body stmts) ps)
      (ends : Piece ending [.punct .closeBrace]) :
      Composes (.otherwise (.otherwise stmts)) (.code code :: (ps ++ [.code ending]))
  | elseIf {test : Expr} {stmts : List Stmt} {a : Alternative} {ts : List Token} {code : List Char}
      {ps qs : List Segment} (denotes : Denotes ts test)
      (piece : Piece code
        (.punct .closeBrace :: .ident "else" :: .ident "if" :: (conditionTokens ts ++ [.punct .openBrace])))
      (body : Composes (.body stmts) ps) (more : Composes (.otherwise a) qs) :
      Composes (.otherwise (.branch test stmts a)) (.code code :: (ps ++ qs))

theorem Composes.append {stmts more : List Stmt} {ps qs : List Segment} (first : Composes (.body stmts) ps)
    (last : Composes (.body more) qs) : Composes (.body (stmts ++ more)) (ps ++ qs) := by
  generalize same : Part.body stmts = part at first
  induction first generalizing stmts with
  | done =>
    cases same
    exact last
  | statement head _ _ ih =>
    cases same
    rw [List.append_assoc]
    exact .statement head (ih rfl)
  | _ => cases same

theorem Composes.single {s : Stmt} {ps : List Segment} (one : Composes (.single s) ps) : Composes (.body [s]) ps := by
  have body := Composes.statement one .done
  rwa [List.append_nil] at body

/-- All code that is written for statements can stand in a fragment of its own. -/
theorem Composes.allPieces {part : Part} {ps : List Segment} (composes : Composes part ps) : AllPieces ps := by
  have own : ∀ {c c' : List Char} {own : List Token}, Piece c own → (Segment.code c' = .code c) →
      ∃ own, Piece c' own := by
    intro c c' own piece same
    cases same
    exact ⟨own, piece⟩
  induction composes with
  | done =>
    intro c mem
    cases mem
  | statement first more ih ihMore =>
    intro c mem
    exact (List.mem_append.mp mem).elim (ih c) (ihMore c)
  | text s =>
    intro c mem
    cases List.mem_singleton.mp mem
  | echo _ piece | startBuffer piece =>
    intro c mem
    exact own piece (List.mem_singleton.mp mem)
  | branch denotes piece body more ih ihMore | elseIf denotes piece body more ih ihMore =>
    intro c mem
    rcases List.mem_cons.mp mem with same | mem
    · exact own piece same
    · exact (List.mem_append.mp mem).elim (ih c) (ihMore c)
  | count _ _ _ piece body ends ih | each _ piece body ends ih | otherwise piece body ends ih =>
    intro c mem
    rcases List.mem_cons.mp mem with same | mem
    · exact own piece same
    · rcases List.mem_append.mp mem with mem | mem
      · exact ih c mem
      · exact own ends (List.mem_singleton.mp mem)
  | nothing ends =>
    intro c mem
    exact own ends (List.mem_singleton.mp mem)

/-! ### Tokens that convey pieces -/

theorem Piece.ne_nil {code : List Char} {own : List Token} (piece : Piece code own) : code ≠ [] := by
  rintro rfl
  obtain ⟨t, last, -⟩ := piece.closes
  have none := piece.scans.eq_nil_of_self
  subst none
  cases last

theorem runText?_code {run rest : List Segment} {code : List Char} (some : code ≠ []) :
    runText? (run ++ .code code :: rest) = none := by
  induction run with
  | nil =>
    rw [List.nil_append]
    unfold runText?
    rw [if_neg (by rwa [List.isEmpty_iff])]
  | cons piece run ih =>
    rw [List.cons_append]
    cases piece with
    | text a =>
      unfold runText?
      rw [ih]
      rfl
    | code c =>
      unfold runText?
      split
      · exact ih
      · rfl

/-- The first piece of code ends the first run of texts. -/
theorem run_unique {run run' rest rest' : List Segment} {code code' : List Char} {u u' : List Char}
    (text : runText? run = some u) (text' : runText? run' = some u') (some : code ≠ []) (some' : code' ≠ [])
    (same : run ++ .code code :: rest = run' ++ .code code' :: rest') :
    run = run' ∧ code = code' ∧ rest = rest' := by
  rcases List.append_eq_append_iff.mp same with ⟨middle, rfl, parts⟩ | ⟨middle, rfl, parts⟩
  · cases middle with
    | nil =>
      cases parts
      exact ⟨(List.append_nil run).symm, rfl, rfl⟩
    | cons piece middle =>
      obtain ⟨rfl, -⟩ := List.cons.inj parts
      rw [runText?_code some] at text'
      cases text'
  · cases middle with
    | nil =>
      cases parts
      exact ⟨List.append_nil run', rfl, rfl⟩
    | cons piece middle =>
      obtain ⟨rfl, -⟩ := List.cons.inj parts
      rw [runText?_code some'] at text
      cases text

/-- Tokens of texts and of code behind them. -/
theorem Conveys.parts {run rest : List Segment} {u code : List Char} {own ts : List Token}
    (conveys : Conveys (run ++ .code code :: rest) ts) (text : runText? run = some u) (piece : Piece code own) :
    ∃ us vs, ts = us ++ (own ++ vs) ∧ Spells u us ∧ Conveys rest vs := by
  generalize whole : run ++ .code code :: rest = pieces at conveys
  cases conveys with
  | run text' =>
    rw [← whole, runText?_code piece.ne_nil] at text'
    cases text'
  | code text' spelled piece' more =>
    obtain ⟨rfl, rfl, rfl⟩ := run_unique text text' piece.ne_nil piece'.ne_nil whole
    cases text.symm.trans text'
    rw [piece.codeTokens_eq.symm.trans piece'.codeTokens_eq]
    exact ⟨_, _, rfl, spelled, more⟩

/-- Tokens of texts alone. -/
theorem Conveys.spelled {run : List Segment} {u : List Char} {ts : List Token} (conveys : Conveys run ts)
    (text : runText? run = some u) : Spells u ts := by
  cases conveys with
  | run text' spelled =>
    cases text.symm.trans text'
    exact spelled
  | code _ _ piece =>
    rw [runText?_code piece.ne_nil] at text
    cases text

/-! ### Statements that are read back -/

theorem write_append (s t : String) : (do Run.write s; Run.write t) = Run.write (s ++ t) := by
  funext state
  show Except.ok ((), { state with output := state.output ++ s ++ t }) = _
  rw [String.append_assoc]
  rfl

theorem write_empty : Run.write "" = pure () := by
  funext state
  show Except.ok ((), { state with output := state.output ++ "" }) = _
  rw [String.append_empty]
  rfl

theorem execAll_append (fs : Functions) (stmts more : List Stmt) :
    execAll fs (stmts ++ more) = (do execAll fs stmts; execAll fs more) := by
  induction stmts with
  | nil =>
    rw [List.nil_append, execAll, pure_bind]
  | cons s stmts ih =>
    rw [List.cons_append, execAll, execAll, ih, bind_assoc]

/-- Tokens that spell a text are statements that write it. -/
theorem Spells.lays {u : List Char} {ts : List Token} (spells : Spells u ts) :
    ∃ stmts, Lays (.body stmts) ts ∧ ∀ fs, execAll fs stmts = Run.write (String.ofList u) := by
  induction spells with
  | nil => exact ⟨[], .done, fun fs => by rw [execAll]; exact write_empty.symm⟩
  | text s _ ih =>
    obtain ⟨stmts, lays, same⟩ := ih
    refine ⟨.text (String.ofList s) :: stmts, .text _ lays, fun fs => ?_⟩
    rw [execAll, same, exec, write_append, String.ofList_append]
  | echo s _ ih =>
    obtain ⟨stmts, lays, same⟩ := ih
    have literal : Denotes [.str (String.ofList s)] (.lit (.str (String.ofList s))) :=
      Derives.loosen (.unary (.postfixed (.str _) (.accessEnd _))) List.nil_suffix
    refine ⟨.echo (.lit (.str (String.ofList s))) :: stmts, .statement (.echo literal) lays, fun fs => ?_⟩
    have first : exec fs (.echo (.lit (.str (String.ofList s)))) = Run.write (String.ofList s) := rfl
    rw [execAll, same, first, write_append, String.ofList_append]
  | fragmentEnd _ ih =>
    obtain ⟨stmts, lays, same⟩ := ih
    exact ⟨stmts, .fragmentEnd lays, same⟩

/-- Which tokens convey the pieces, in front of any others, and what they are read as. Text that comes before, or
that the pieces end with, belongs to no token until code follows. -/
def Part.IsConveyed (ps : List Segment) : Part → Prop
  | .body stmts => ∀ run u after ts, runText? run = some u → Conveys (run ++ (ps ++ after)) ts →
      ∃ us vs run' u' stmts', ts = us ++ vs ∧ runText? run' = some u' ∧ Conveys (run' ++ after) vs ∧
        Lays (.body stmts') us ∧ ∀ fs, (do Run.write (String.ofList u); execAll fs stmts) =
          (do execAll fs stmts'; Run.write (String.ofList u'))
  | .single s => ∀ run u after ts, runText? run = some u → Conveys (run ++ (ps ++ after)) ts →
      ∃ us vs run' u' stmts', ts = us ++ vs ∧ runText? run' = some u' ∧ Conveys (run' ++ after) vs ∧
        Lays (.body stmts') us ∧ ∀ fs, (do Run.write (String.ofList u); exec fs s) =
          (do execAll fs stmts'; Run.write (String.ofList u'))
  | .otherwise a => ∃ code own rest, ps = .code code :: rest ∧ Piece code (.punct .closeBrace :: own) ∧
      ∀ after ts, Conveys (rest ++ after) ts → ∃ us vs a', own ++ ts = us ++ vs ∧ Conveys after vs ∧
        Lays (.otherwise a') us ∧ ∀ fs, execAlternative fs a' = execAlternative fs a

section Conveyed

variable {stmts : List Stmt} {a : Alternative} {ps qs after : List Segment} {code : List Char} {own ts : List Token}

/-- A body that ends at a piece of code. -/
theorem body_before_code (body : (Part.body stmts).IsConveyed ps) (piece : Piece code own)
    (conveys : Conveys (ps ++ .code code :: after) ts) :
    ∃ us vs stmts', ts = us ++ (own ++ vs) ∧ Conveys after vs ∧ Lays (.body stmts') us ∧
      ∀ fs, execAll fs stmts' = execAll fs stmts := by
  obtain ⟨us, vs, run, u, stmts', rfl, text, rest, lays, same⟩ := body [] [] _ ts rfl conveys
  obtain ⟨us', vs, rfl, spelled, rest⟩ := rest.parts text piece
  obtain ⟨spelling, laysText, writes⟩ := spelled.lays
  refine ⟨us ++ us', vs, stmts' ++ spelling, by simp, rest, lays.append laysText, fun fs => ?_⟩
  have start : (do Run.write (String.ofList []); execAll fs stmts) = execAll fs stmts := by
    show (do Run.write ""; execAll fs stmts) = _
    rw [write_empty, pure_bind]
  rw [execAll_append, writes, ← same, start]

/-- A body and the alternative behind it. -/
theorem body_before_alternative (body : (Part.body stmts).IsConveyed ps) (more : (Part.otherwise a).IsConveyed qs)
    (conveys : Conveys (ps ++ (qs ++ after)) ts) :
    ∃ us vs ws stmts' a', ts = us ++ .punct .closeBrace :: (vs ++ ws) ∧ Conveys after ws ∧
      Lays (.body stmts') us ∧ Lays (.otherwise a') vs ∧ (∀ fs, execAll fs stmts' = execAll fs stmts) ∧
      ∀ fs, execAlternative fs a' = execAlternative fs a := by
  obtain ⟨code, own, rest, rfl, piece, onward⟩ := more
  rw [List.cons_append] at conveys
  obtain ⟨us, vs, stmts', rfl, conveys, lays, same⟩ := body_before_code body piece conveys
  obtain ⟨us', ws, a', order, conveys, alternative, same'⟩ := onward after vs conveys
  refine ⟨us, us', ws, stmts', a', ?_, conveys, lays, alternative, same, same'⟩
  rw [List.cons_append, order]

/-- A statement that starts with code behind texts. -/
theorem single_of_code {s : Stmt} (onward : ∀ after ts, Conveys (ps ++ after) ts → ∃ us vs s', ts = us ++ vs ∧
      Conveys after vs ∧ Lays (.single s') (own ++ us) ∧ ∀ fs, exec fs s' = exec fs s)
    (piece : Piece code own) : (Part.single s).IsConveyed (.code code :: ps) := by
  intro run u after ts text conveys
  obtain ⟨us, vs, rfl, spelled, rest⟩ := conveys.parts text piece
  obtain ⟨spelling, laysText, writes⟩ := spelled.lays
  obtain ⟨us', vs, s', rfl, rest, lays, same⟩ := onward after vs rest
  refine ⟨us ++ (own ++ us'), vs, [], [], spelling ++ [s'], by simp, rfl, rest, ?_, fun fs => ?_⟩
  · have last := Lays.statement lays .done
    rw [List.append_nil] at last
    exact laysText.append last
  · have nothing : Run.write (String.ofList []) = pure () := write_empty
    rw [nothing, execAll_append, writes, execAll, execAll, same]
    simp only [bind_assoc, bind_pure_unit]

end Conveyed

theorem Composes.isConveyed {part : Part} {ps : List Segment} (composes : Composes part ps) : part.IsConveyed ps := by
  induction composes with
  | done =>
    intro run u after ts text conveys
    refine ⟨[], ts, run, u, [], rfl, text, conveys, .done, fun fs => ?_⟩
    rw [execAll, pure_bind, bind_pure_unit]
  | @statement s stmts ps qs first more ih ihMore =>
    intro run u after ts text conveys
    rw [List.append_assoc] at conveys
    obtain ⟨us, vs, run', u', stmts', rfl, text', conveys', lays, same⟩ := ih run u (qs ++ after) ts text conveys
    obtain ⟨us', vs', run'', u'', stmts'', rfl, text'', conveys'', lays', same'⟩ := ihMore run' u' after vs text' conveys'
    refine ⟨us ++ us', vs', run'', u'', stmts' ++ stmts'', by simp, text'', conveys'', lays.append lays', fun fs => ?_⟩
    have next := same fs
    rw [execAll, execAll_append, bind_assoc, ← same' fs, ← bind_assoc, ← bind_assoc, next]
  | text s =>
    intro run u after ts text conveys
    rw [← List.append_assoc] at conveys
    refine ⟨[], ts, run ++ [.text s.toList], u ++ s.toList, [], rfl, ?_, conveys, .done, fun fs => ?_⟩
    · exact runText?_append text (by simp [runText?])
    · rw [execAll, exec, pure_bind, write_append, String.ofList_append, String.ofList_toList]
  | @echo e us code denotes piece =>
    refine single_of_code (fun after ts conveys => ?_) piece
    refine ⟨[], ts, .echo e, rfl, conveys, ?_, fun fs => rfl⟩
    rw [List.append_nil]
    exact .echo denotes
  | startBuffer piece =>
    refine single_of_code (fun after ts conveys => ?_) piece
    refine ⟨[], ts, .startBuffer, rfl, conveys, ?_, fun fs => rfl⟩
    rw [List.append_nil]
    exact .startBuffer
  | @branch test stmts a us code ps qs denotes piece body more ih ihMore =>
    refine single_of_code (fun after ts conveys => ?_) piece
    rw [List.append_assoc] at conveys
    obtain ⟨us', vs, ws, stmts', a', rfl, conveys, lays, alternative, same, same'⟩ :=
      body_before_alternative ih ihMore conveys
    refine ⟨us' ++ .punct .closeBrace :: vs, ws, .branch test stmts' a', by simp, conveys, ?_, fun fs => ?_⟩
    · simpa [bracedTokens] using Lays.branch denotes lays alternative
    · rw [exec, exec, same, same']
  | @count var first last step descending stmts us vs ws code ending ps hf hl hs piece body ends ih =>
    refine single_of_code (fun after ts conveys => ?_) piece
    rw [List.append_assoc] at conveys
    obtain ⟨us', vs', stmts', rfl, conveys, lays, same⟩ := body_before_code ih ends conveys
    refine ⟨us' ++ [.punct .closeBrace], vs', .count var first last step descending stmts', by simp, conveys, ?_,
      fun fs => ?_⟩
    · simpa [bracedTokens] using Lays.count hf hl hs lays
    · rw [exec, exec, same]
  | @each list key value stmts us code ending ps denotes piece body ends ih =>
    refine single_of_code (fun after ts conveys => ?_) piece
    rw [List.append_assoc] at conveys
    obtain ⟨us', vs', stmts', rfl, conveys, lays, same⟩ := body_before_code ih ends conveys
    refine ⟨us' ++ [.punct .closeBrace], vs', .each list key value stmts', by simp, conveys, ?_, fun fs => ?_⟩
    · simpa [bracedTokens] using Lays.each denotes lays
    · rw [exec, exec, same]
  | @nothing ending ends =>
    refine ⟨ending, [], [], rfl, ends, fun after ts conveys => ?_⟩
    exact ⟨[], ts, .nothing, rfl, conveys, .nothing, fun fs => rfl⟩
  | @otherwise stmts code ending ps piece body ends ih =>
    refine ⟨code, _, _, rfl, piece, fun after ts conveys => ?_⟩
    rw [List.append_assoc] at conveys
    obtain ⟨us, vs, stmts', rfl, conveys, lays, same⟩ := body_before_code ih ends conveys
    refine ⟨.ident "else" :: bracedTokens us, vs, .otherwise stmts', by simp [bracedTokens], conveys, .otherwise lays,
      fun fs => ?_⟩
    rw [execAlternative, execAlternative, same]
  | @elseIf test stmts a us code ps qs denotes piece body more ih ihMore =>
    refine ⟨code, _, _, rfl, piece, fun after ts conveys => ?_⟩
    rw [List.append_assoc] at conveys
    obtain ⟨us', vs, ws, stmts', a', rfl, conveys, lays, alternative, same, same'⟩ :=
      body_before_alternative ih ihMore conveys
    refine ⟨.ident "else" :: .ident "if" :: (conditionTokens us ++ (bracedTokens us' ++ vs)), ws,
      .branch test stmts' a', by simp [bracedTokens], conveys, .elseIf denotes lays alternative, fun fs => ?_⟩
    rw [execAlternative, execAlternative, same, same']

/-- The artifact of statements is a layout of statements that do the same. -/
theorem Composes.exists_lays {stmts : List Stmt} {ps : List Segment} (composes : Composes (.body stmts) ps) :
    ∃ ts stmts', scan ((Written.ofPieces ps).finish false) = .ok ts ∧ Lays (.body stmts') ts ∧
      ∀ fs, execAll fs stmts' = execAll fs stmts := by
  obtain ⟨ts, scanned, conveys⟩ := scan_ofPieces fun c mem => .inr (composes.allPieces c mem)
  rw [← List.append_nil ps] at conveys
  obtain ⟨us, vs, run, u, stmts', rfl, text, rest, lays, same⟩ := composes.isConveyed [] [] [] ts rfl conveys
  rw [List.append_nil] at rest
  obtain ⟨spelling, laysText, writes⟩ := (rest.spelled text).lays
  refine ⟨_, stmts' ++ spelling, scanned, lays.append laysText, fun fs => ?_⟩
  have start : (do Run.write (String.ofList []); execAll fs stmts) = execAll fs stmts := by
    show (do Run.write ""; execAll fs stmts) = _
    rw [write_empty, pure_bind]
  rw [execAll_append, writes, ← same, start]

/-- The artifact of statements is read as statements that do the same. -/
theorem exists_parse_of_composes {stmts : List Stmt} {ps : List Segment} (composes : Composes (.body stmts) ps) :
    ∃ stmts', parseStatements ((Written.ofPieces ps).finish false) = .ok stmts' ∧
      ∀ fs, execAll fs stmts' = execAll fs stmts := by
  obtain ⟨ts, stmts', scanned, lays, same⟩ := composes.exists_lays
  exact ⟨stmts', parseStatements_of_lays scanned lays, same⟩

end Stencil.Artifact
