import Stencil.Proofs.Artifact.Stripping
import Stencil.Proofs.Tree.Legibility
import Stencil.Proofs.Tree.Localization

/-!
The pieces that a legible tree writes are those of statements that do what the tree means, so its artifact is read
as a program that makes the page which the tree means.
-/
namespace Stencil

open Artifact (Expr Stmt Alternative Segment)

/-! ### Single pieces -/

theorem Artifact.reads_of_isExpression {text : String} (h : isExpression text = true) :
    (∃ ts, Artifact.Denotes ts (exprOf text) ∧ Artifact.Reads text.toList ts) ∧ (exprOf text).bufferless = true := by
  unfold isExpression at h
  unfold exprOf
  cases parsed : Expr.parse text with
  | error e =>
    rw [parsed] at h
    cases h
  | ok e =>
    rw [parsed] at h
    exact ⟨Artifact.reads_of_parse parsed, h⟩

theorem Node.expression_eq {n : Node} {text : String} (opening : n.opening = "echo " ++ text ++ ";") :
    n.expression = text := by
  unfold Node.expression
  have front : ("echo ".toList ++ (text ++ ";").toList).drop 5 = (text ++ ";").toList := rfl
  have last : (text ++ ";").toList = text.toList ++ [';'] := String.toList_append
  rw [opening, String.append_assoc, String.toList_append, front, last, List.dropLast_concat, String.ofList_toList]

theorem Artifact.Piece.ofCode_eq {code : String} {own : List Artifact.Token} (piece : Artifact.Piece code.toList own) :
    Segment.ofCode code = [.code code.toList] := by
  unfold Segment.ofCode
  rw [if_neg]
  intro empty
  rw [String.isEmpty_iff] at empty
  subst empty
  exact piece.ne_nil rfl

theorem evalInt_of_eval {fs : Functions} {e : Expr} {i : Int64} (gives : eval fs e = pure (.int i)) (what : String) :
    evalInt fs what e = pure i := by
  unfold evalInt
  rw [gives, pure_bind]
  rfl

/-- The comparison of a loop is told by the sign of its step. -/
theorem comparison_eq {step : Int64} (nonzero : step ≠ 0) :
    (if 0 < step then "<=" else ">=") = if decide (step < 0) = true then ">=" else "<=" := by
  have value : step.toInt ≠ 0 := fun zero => nonzero (Int64.toInt_inj.mp zero)
  have zero : (0 : Int64).toInt = 0 := rfl
  simp only [decide_eq_true_eq, Int64.lt_iff_toInt_lt, zero]
  split
  · rw [if_neg (by omega)]
  · rw [if_pos (by omega)]

section Loops

variable {n : Node} {ps : List Segment}

/-- The code in front of a loop over numbers, whose bounds are expressions. -/
theorem Node.piece_countHead {ts us vs : List Artifact.Token} (nonzero : n.number "step" ≠ 0)
    (variable' : Tag.isVariable (n.param "var").toList = true) (firstReads : Artifact.Reads (n.param "from").toList ts)
    (lastReads : Artifact.Reads (n.param "to").toList us)
    (stepReads : Artifact.Reads (String.ofList (Decimal.ofInt64 (n.number "step"))).toList vs) :
    Artifact.Piece (Tag.countHead n (n.number "step")).toList
      (.ident "for" :: (Artifact.countTokens (Artifact.variableName (n.param "var")) (decide (n.number "step" < 0))
        ts us vs ++ [.punct .openBrace])) := by
  have piece := Artifact.piece_count (decide (n.number "step" < 0)) variable' firstReads lastReads stepReads
  rw [← comparison_eq nonzero] at piece
  exact piece

/-- The code in front of a loop over the entries of an expression. -/
theorem Node.piece_eachHead {ts : List Artifact.Token} (reads : Artifact.Reads (n.param "list").toList ts)
    (variable' : Tag.isVariable (n.param "var").toList = true)
    (named : n.param "key" = "" ∨ Tag.isVariable (n.param "key").toList = true) :
    Artifact.Piece (Tag.eachHead n).toList
      (.ident "foreach" :: (Artifact.conditionTokens (ts ++ .ident "as" ::
        Artifact.entryTokens (n.loopVariable? "key") (Artifact.variableName (n.param "var"))) ++
          [.punct .openBrace])) := by
  let key := if (n.param "key").isEmpty then none else some (n.param "key")
  have named' : ∀ name ∈ key, Tag.isVariable name.toList = true := by
    intro name mem
    dsimp only [key] at mem
    split at mem
    · cases mem
    · rename_i some
      cases mem
      refine named.resolve_left fun empty => some ?_
      rw [empty]
      rfl
  have piece := Artifact.piece_each key reads named' variable'
  have code : Tag.eachHead n =
      "foreach (" ++ n.param "list" ++ " as " ++ (key.elim (n.param "var") (· ++ " => " ++ n.param "var")) ++
        ") \x7b" := by
    dsimp only [Tag.eachHead, key]
    split <;> rfl
  have loopVariable : key.map Artifact.variableName = n.loopVariable? "key" := by
    dsimp only [Node.loopVariable?, key]
    split <;> rfl
  rw [← code, loopVariable] at piece
  exact piece

theorem Node.Counts.composes (counts : n.Counts) (framed : (n.opening, n.closing) = (Tag.countHead n (n.number "step"), "\x7d"))
    {stmts : List Stmt} (body : Artifact.Composes (.body stmts) ps) :
    ∃ s, Artifact.Composes (.single s) (Segment.ofCode n.opening ++ ps ++ Segment.ofCode n.closing) ∧
      ∀ fs, exec fs s = inLoopScope (countLoop (Artifact.variableName (n.param "var")) (n.number "step")
        (execAll fs stmts) (progressionLength (n.number "from").toInt (n.number "to").toInt (n.number "step").toInt)
        (n.number "from")) := by
  obtain ⟨opening, closing⟩ := Prod.mk.inj framed
  have bound : ∀ key ∈ ["from", "to"], ∃ e ts, Artifact.Denotes ts e ∧ Artifact.Reads (n.param key).toList ts ∧
      ∀ fs : Functions, eval fs e = pure (.int (n.number key)) := by
    intro key mem
    obtain ⟨isBound, isNumber⟩ := counts.bounds key mem
    obtain ⟨i, read⟩ := Option.isSome_iff_exists.mp isNumber
    have value : n.number key = i := by
      unfold Node.number
      rw [read]
      rfl
    rw [value]
    exact Artifact.reads_bound isBound read
  obtain ⟨first, ts, firstDenotes, firstReads, firstGives⟩ := bound "from" (by decide)
  obtain ⟨last, us, lastDenotes, lastReads, lastGives⟩ := bound "to" (by decide)
  obtain ⟨nonzero, least⟩ := counts.step
  obtain ⟨isBound, read⟩ := Artifact.isBound_ofInt64 least
  rw [← String.toList_ofList (l := Decimal.ofInt64 (n.number "step"))] at isBound read
  obtain ⟨step, vs, stepDenotes, stepReads, stepGives⟩ := Artifact.reads_bound isBound read
  have piece := Node.piece_countHead nonzero counts.var firstReads lastReads stepReads
  refine ⟨.count (Artifact.variableName (n.param "var")) first last step (decide (n.number "step" < 0)) stmts, ?_,
    fun fs => ?_⟩
  · rw [opening, closing, piece.ofCode_eq, Artifact.piece_bodyEnd.ofCode_eq]
    exact .count firstDenotes lastDenotes stepDenotes piece body Artifact.piece_bodyEnd
  · rw [exec, evalInt_of_eval (firstGives fs), evalInt_of_eval (lastGives fs), evalInt_of_eval (stepGives fs)]
    simp only [pure_bind]
    rw [if_neg (by simp [nonzero])]

theorem Node.Iterates.composes (iterates : n.Iterates) (framed : (n.opening, n.closing) = (Tag.eachHead n, "\x7d"))
    {stmts : List Stmt} (body : Artifact.Composes (.body stmts) ps) :
    ∃ s, Artifact.Composes (.single s) (Segment.ofCode n.opening ++ ps ++ Segment.ofCode n.closing) ∧
      ∀ fs, exec fs s = (do
        let v ← eval fs (Artifact.exprOf (n.param "list"))
        let items ← Run.lift (entries v)
        inLoopScope (eachLoop (n.loopVariable? "key") (Artifact.variableName (n.param "var")) (execAll fs stmts)
          items)) := by
  obtain ⟨opening, closing⟩ := Prod.mk.inj framed
  obtain ⟨⟨ts, denotes, reads⟩, -⟩ := Artifact.reads_of_isExpression iterates.list
  have piece := Node.piece_eachHead reads iterates.var iterates.key
  refine ⟨.each (Artifact.exprOf (n.param "list")) (n.loopVariable? "key") (Artifact.variableName (n.param "var"))
    stmts, ?_, fun fs => rfl⟩
  rw [opening, closing, piece.ofCode_eq, Artifact.piece_bodyEnd.ofCode_eq]
  exact .each denotes piece body Artifact.piece_bodyEnd

end Loops

namespace Tree

variable {tags : String → Prop} {t : Tree} {n : Node} {inner : Functions → NodeId → Run Unit} {ps : List Segment}

theorem segment_eq_self {body : List Element} (whole : ∀ e ∈ body, t.separator? e = none) : t.segment body = body := by
  unfold segment
  induction body with
  | nil => rfl
  | cons e body ih =>
    rw [List.takeWhile_cons_of_pos (by rw [whole e List.mem_cons_self]; rfl),
      ih fun e' mem => whole e' (List.mem_cons_of_mem _ mem)]

/-- Pieces of elements are those of statements up to the first separator, and of an alternative from there on, with
the nodes among them run by `inner`. -/
def Composed (t : Tree) (inner : Functions → NodeId → Run Unit) (body : List Element) (ps : List Segment) : Prop :=
  ∃ stmts a qs rs, ps = qs ++ rs ∧ Artifact.Composes (.body stmts) qs ∧
    (∀ ending, Artifact.Piece ending [.punct .closeBrace] →
      Artifact.Composes (.otherwise a) (rs ++ [.code ending])) ∧
    ((∀ e ∈ body, t.separator? e = none) → rs = []) ∧
    ∀ fs, execAll fs stmts = runElements (inner fs) (t.segment body) ∧
      execAlternative fs a = t.runAlternatives fs (inner fs) body

/-- Elements that nothing parts are statements. -/
theorem Composed.whole {body : List Element} (composed : t.Composed inner body ps)
    (whole : ∀ e ∈ body, t.separator? e = none) : ∃ stmts, Artifact.Composes (.body stmts) ps ∧
      ∀ fs, execAll fs stmts = runElements (inner fs) body := by
  obtain ⟨stmts, a, qs, rs, rfl, composes, -, none, same⟩ := composed
  rw [none whole, List.append_nil]
  refine ⟨stmts, composes, fun fs => ?_⟩
  rw [(same fs).1, segment_eq_self whole]

/-- A node that parts nothing is written as statements. -/
theorem Legible.composes (legible : t.Legible tags) (fine : n.Legible) (parted : t.Parted n)
    (composed : t.Composed inner n.body ps) (tag : n.tag ∉ Node.separators) :
    ∃ stmts, Artifact.Composes (.body stmts) (Segment.ofCode n.opening ++ ps ++ Segment.ofCode n.closing) ∧
      ∀ fs, execAll fs stmts = t.runContent fs (inner fs) n := by
  by_cases prints : n.name = none ∧ n.isRoot = false
  · obtain ⟨closing, body, text, opening, isExpression⟩ := fine.printing prints.1 prints.2
    obtain ⟨⟨ts, denotes, reads⟩, -⟩ := Artifact.reads_of_isExpression isExpression
    have piece := Artifact.piece_echo reads
    rw [body] at composed
    obtain ⟨stmts, composes, same⟩ := composed.whole fun e mem => by cases mem
    refine ⟨.echo (Artifact.exprOf text) :: stmts, ?_, fun fs => ?_⟩
    · rw [opening, closing, piece.ofCode_eq]
      show Artifact.Composes _ ([.code _] ++ ps ++ [])
      rw [List.append_nil]
      exact .statement (.echo denotes piece) composes
    · rw [execAll, same, runElements, bind_pure_unit, exec]
      unfold runContent
      rw [if_pos prints, Node.expression_eq opening]
  have coded : n.name ≠ none ∨ n.isRoot = true := by
    rcases Classical.em (n.name = none) with none | some
    · exact .inr ((Bool.not_eq_false _).mp fun inner => prints ⟨none, inner⟩)
    · exact .inl some
  have framed := fine.framed coded
  have whole : n.tag ≠ "if" → ∀ e ∈ n.body, t.separator? e = none := fun other e mem =>
    legible.separator?_none.mpr fun parts => other (parted.inside e mem parts)
  by_cases isIf : n.tag = "if"
  · rw [Node.framing_if isIf] at framed
    obtain ⟨opening, closing⟩ := Prod.mk.inj framed
    obtain ⟨⟨ts, denotes, reads⟩, -⟩ := Artifact.reads_of_isExpression (fine.conditional (.inl isIf))
    obtain ⟨stmts, a, qs, rs, rfl, body, alternative, -, same⟩ := composed
    have piece := Artifact.piece_if reads
    have composes := Artifact.Composes.branch denotes piece body (alternative _ Artifact.piece_bodyEnd)
    refine ⟨[.branch (Artifact.exprOf (n.param "cond")) stmts a], ?_, fun fs => ?_⟩
    · rw [opening, closing, piece.ofCode_eq, Artifact.piece_bodyEnd.ofCode_eq]
      simpa using composes.single
    · rw [execAll, execAll, bind_pure_unit, exec, (same fs).1, (same fs).2]
      unfold runContent
      rw [if_neg prints, if_pos isIf]
  obtain ⟨stmts, body, same⟩ := composed.whole (whole isIf)
  by_cases isFor : n.tag = "for"
  · rw [Node.framing_for isFor] at framed
    obtain ⟨s, composes, runs⟩ := (fine.counts isFor).composes framed body
    refine ⟨[s], composes.single, fun fs => ?_⟩
    rw [execAll, execAll, bind_pure_unit, runs, same]
    unfold runContent
    rw [if_neg prints, if_neg isIf, if_pos isFor]
  by_cases isEach : n.tag = "foreach"
  · rw [Node.framing_foreach isEach] at framed
    obtain ⟨s, composes, runs⟩ := (fine.iterates isEach).composes framed body
    refine ⟨[s], composes.single, fun fs => ?_⟩
    rw [execAll, execAll, bind_pure_unit, runs, same]
    unfold runContent
    rw [if_neg prints, if_neg isIf, if_neg isFor, if_pos isEach]
  have plain : n.tag ∉ Node.coded := by
    simp only [Node.separators, Node.coded, List.mem_cons, List.not_mem_nil, or_false, not_or] at tag ⊢
    exact ⟨isIf, tag.1, tag.2, isFor, isEach⟩
  rw [Node.framing_plain plain] at framed
  obtain ⟨opening, closing⟩ := Prod.mk.inj framed
  refine ⟨stmts, ?_, fun fs => ?_⟩
  · rw [opening, closing]
    show Artifact.Composes _ ([] ++ ps ++ [])
    rwa [List.nil_append, List.append_nil]
  · rw [same]
    unfold runContent
    rw [if_neg prints, if_neg isIf, if_neg isFor, if_neg isEach]

theorem segment_cons_none {e : Element} (none : t.separator? e = none) (rest : List Element) :
    t.segment (e :: rest) = e :: t.segment rest :=
  List.takeWhile_cons_of_pos (by rw [none]; rfl)

theorem segment_cons_some {e : Element} {test : Option String} (some : t.separator? e = some test)
    (rest : List Element) : t.segment (e :: rest) = [] :=
  List.takeWhile_cons_of_neg (by rw [some]; exact Bool.false_ne_true)

theorem runAlternatives_cons_none {e : Element} (none : t.separator? e = none) (fs : Functions)
    (run : NodeId → Run Unit) (rest : List Element) :
    t.runAlternatives fs run (e :: rest) = t.runAlternatives fs run rest := by
  rw [runAlternatives, none]

/-- More statements in front of elements. -/
theorem Composed.cons {e : Element} {rest : List Element} {qs : List Segment} (composed : t.Composed inner rest qs)
    (none : t.separator? e = none) {stmts : List Stmt} (first : Artifact.Composes (.body stmts) ps)
    (runs : ∀ fs body, runElements (inner fs) (e :: body) =
      (do execAll fs stmts; runElements (inner fs) body)) :
    t.Composed inner (e :: rest) (ps ++ qs) := by
  obtain ⟨stmts', a, front, back, rfl, composes, alternative, whole, same⟩ := composed
  refine ⟨stmts ++ stmts', a, ps ++ front, back, (List.append_assoc ..).symm, first.append composes, alternative,
    fun none => whole fun e mem => none e (List.mem_cons_of_mem _ mem), fun fs => ⟨?_, ?_⟩⟩
  · rw [Artifact.execAll_append, segment_cons_none none, runs, (same fs).1]
  · rw [runAlternatives_cons_none none, (same fs).2]

theorem Composed.text {rest : List Element} (composed : t.Composed inner rest ps) (s : String) :
    t.Composed inner (.text s :: rest) (Segment.ofText s ++ ps) := by
  by_cases empty : s.isEmpty = true
  · have nothing : Segment.ofText s = [] := if_pos empty
    rw [String.isEmpty_iff] at empty
    subst empty
    rw [nothing]
    refine composed.cons rfl .done fun fs body => ?_
    rw [runElements, execAll, Artifact.write_empty]
  · have one : Segment.ofText s = [.text s.toList] := if_neg empty
    rw [one]
    refine composed.cons rfl (Artifact.Composes.text s).single fun fs body => ?_
    rw [runElements, execAll, execAll, bind_pure_unit, exec]

/-- An `elseif` or an `else` and what comes behind it are an alternative. -/
theorem composed_separator {id : NodeId} {rest : List Element} (fine : (t.content id).Legible)
    (parts : t.separator? (.node id) ≠ none)
    (last : t.separator? (.node id) = some none → ∀ e ∈ rest, t.separator? e = none)
    (composed : t.Composed inner rest ps) :
    t.Composed inner (.node id :: rest)
      (Segment.ofCode (t.content id).opening ++ [] ++ Segment.ofCode (t.content id).closing ++ ps) := by
  have parted : (∀ e ∈ Element.node id :: rest, t.separator? e = none) → ∀ {rs : List Segment}, rs = [] :=
    fun whole => absurd (whole _ List.mem_cons_self) parts
  have named : ∀ {tag : String}, (t.content id).tag = tag → tag ≠ "" → (t.content id).name ≠ none := by
    intro tag same some none
    refine some (same.symm.trans ?_)
    unfold Node.tag
    rw [none]
    rfl
  by_cases isElseIf : (t.content id).tag = "elseif"
  · have framed := fine.framed (.inl (named isElseIf (by decide)))
    rw [Node.framing_elseif isElseIf] at framed
    obtain ⟨opening, closing⟩ := Prod.mk.inj framed
    obtain ⟨⟨ts, denotes, reads⟩, -⟩ := Artifact.reads_of_isExpression (fine.conditional (.inr isElseIf))
    have piece := Artifact.piece_elseIf reads
    have here : t.separator? (.node id) = some (some ((t.content id).param "cond")) := if_pos isElseIf
    obtain ⟨stmts, a, qs, rs, rfl, body, alternative, -, same⟩ := composed
    refine ⟨[], .branch (Artifact.exprOf ((t.content id).param "cond")) stmts a, [], _, (List.nil_append _).symm, .done,
      fun ending ends => ?_, fun whole => parted whole, fun fs => ⟨?_, ?_⟩⟩
    · rw [opening, closing, piece.ofCode_eq]
      simpa [Segment.ofCode] using Artifact.Composes.elseIf denotes piece body (alternative ending ends)
    · rw [execAll, segment_cons_some here, runElements]
    · rw [execAlternative, runAlternatives, here]
      dsimp only
      rw [(same fs).1, (same fs).2]
  · have isElse : (t.content id).tag = "else" := by
      have tag := Classical.not_not.mp fun other => parts ((t.content id).separator?_none.mpr other)
      simp only [Node.separators, List.mem_cons, List.not_mem_nil, or_false] at tag
      exact tag.resolve_left isElseIf
    have framed := fine.framed (.inl (named isElse (by decide)))
    rw [Node.framing_else isElse] at framed
    obtain ⟨opening, closing⟩ := Prod.mk.inj framed
    have here : t.separator? (.node id) = some none := (if_neg isElseIf).trans (if_pos isElse)
    obtain ⟨stmts, body, runs⟩ := composed.whole (last here)
    refine ⟨[], .otherwise stmts, [], _, (List.nil_append _).symm, .done, fun ending ends => ?_,
      fun whole => parted whole, fun fs => ⟨?_, ?_⟩⟩
    · rw [opening, closing, Artifact.piece_else.ofCode_eq]
      simpa [Segment.ofCode] using Artifact.Composes.otherwise Artifact.piece_else body ends
    · rw [execAll, segment_cons_some here, runElements]
    · rw [execAlternative, runAlternatives, here, runs]
      dsimp only
      rw [segment_eq_self (last here)]

/-! ### Buffers -/

section Steps

variable {fs : Functions} {P : (α : Type) → Run α → Prop} (steps : Run.Steps fs P) {run : NodeId → Run Unit}

include steps

theorem eval_exprOf_steps {text : String} (h : Artifact.isExpression text = true) :
    P Value (eval fs (Artifact.exprOf text)) :=
  steps.eval _ (.inl (Artifact.reads_of_isExpression h).2)

section Elements

variable (nodes : ∀ id, id.index < t.size → P Unit (run id)) {body : List Element} (admits : ∀ e ∈ body, t.Admits e)

include nodes admits

theorem runElements_steps : P Unit (runElements run body) := by
  induction body with
  | nil => exact steps.pure ()
  | cons e body ih =>
    have rest := ih fun e mem => admits e (List.mem_cons_of_mem _ mem)
    cases admits e List.mem_cons_self with
    | text s => exact steps.bind (steps.write s) fun _ => rest
    | node old => exact steps.bind (nodes _ old) fun _ => rest

theorem segment_steps : P Unit (runElements run (t.segment body)) :=
  runElements_steps steps nodes fun e mem => admits e ((List.takeWhile_sublist _).subset mem)

theorem Legible.runAlternatives_steps (legible : t.Legible tags) : P Unit (t.runAlternatives fs run body) := by
  induction body with
  | nil => exact steps.pure ()
  | cons e body ih =>
    have admitsRest : ∀ e ∈ body, t.Admits e := fun e mem => admits e (List.mem_cons_of_mem _ mem)
    have rest := ih admitsRest
    have here := segment_steps steps nodes admitsRest
    unfold runAlternatives
    split
    · exact rest
    · exact here
    · rename_i test parts
      have isExpression : Artifact.isExpression test = true := by
        cases admits e List.mem_cons_self with
        | text s => cases parts
        | node old =>
          have parts' : Node.separator? _ = _ := parts
          unfold Node.separator? at parts'
          split at parts'
          · rename_i isElseIf
            cases parts'
            exact (legible.content old).1.conditional (.inr isElseIf)
          · split at parts' <;> cases parts'
      refine steps.bind (eval_exprOf_steps steps isExpression) fun v => ?_
      split
      · exact here
      · exact rest

end Elements

/-- A legible node is run by steps if the nodes in it are. -/
theorem Legible.runContent_steps (legible : t.Legible tags) (nodes : ∀ id, id.index < t.size → P Unit (run id))
    (fine : n.Legible) (parted : t.Parted n) : P Unit (t.runContent fs run n) := by
  have whole := runElements_steps steps nodes parted.admits
  unfold runContent
  split
  · rename_i prints
    obtain ⟨-, -, text, opening, isExpression⟩ := fine.printing prints.1 prints.2
    rw [Node.expression_eq opening]
    exact steps.bind (eval_exprOf_steps steps isExpression) fun v => steps.print v
  split
  · rename_i isIf
    refine steps.bind (eval_exprOf_steps steps (fine.conditional (.inl isIf))) fun v => ?_
    split
    · exact segment_steps steps nodes parted.admits
    · exact legible.runAlternatives_steps steps nodes parted.admits
  split
  · exact steps.inScope (steps.countLoop whole _ _ _ _)
  split
  · rename_i isEach
    refine steps.bind (eval_exprOf_steps steps (fine.iterates isEach).list) fun v => ?_
    exact steps.bind (steps.lift (entries_calm v)) fun items => steps.inScope (steps.eachLoop whole _ _ items)
  · exact whole

/-- A legible tree is run by steps, if what gathers the output of steps is one. -/
theorem Legible.localizedNode_steps (legible : t.Legible tags)
    (gathers : ∀ {body : Run Unit}, P Unit body → P String (Run.gather body)) (depth : Nat) (id : NodeId)
    (old : id.index < t.size) : P Unit (t.localizedNode fs depth id) := by
  induction depth generalizing id with
  | zero => exact steps.pure ()
  | succ depth ih =>
    obtain ⟨fine, parted⟩ := legible.content old
    rw [localizedNode]
    unfold localizedContent
    split
    · exact localize_steps steps (gathers (runElements_steps steps ih parted.admits))
    · exact legible.runContent_steps steps ih fine parted

end Steps

theorem Legible.localizedNode_framed (legible : t.Legible tags) (fs : Functions) (depth : Nat) (id : NodeId)
    (old : id.index < t.size) : Run.Framed (t.localizedNode fs depth id) :=
  legible.localizedNode_steps (Run.framed_steps fs) Run.Framed.gather depth id old

theorem Legible.localizedNode_unbuffered (legible : t.Legible tags) (fs : Functions) (depth : Nat) (id : NodeId)
    (old : id.index < t.size) : Run.Unbuffered fs (t.localizedNode fs depth id) :=
  legible.localizedNode_steps (Run.unbuffered_steps fs) Run.Unbuffered.gather depth id old

/-! ### Nodes in other languages -/

/-- A body that is text alone writes that text. -/
theorem runElements_of_bodyText (run : NodeId → Run Unit) {body : List Element} {s : String}
    (plain : bodyText? body = some s) : runElements run body = Run.write s := by
  induction body generalizing s with
  | nil =>
    cases plain
    exact Artifact.write_empty.symm
  | cons e body ih =>
    cases e with
    | text first =>
      obtain ⟨rest, plain', rfl⟩ := Option.map_eq_some_iff.mp plain
      rw [runElements, ih plain', Artifact.write_append]
    | node id => cases plain
    | code c => cases plain

theorem WritesInside.eq_of_code {active : List NodeId} {c : String} (writes : t.WritesInside active [.code c] ps) :
    ps = Segment.ofCode c := by
  cases writes with
  | code rest =>
    cases rest
    exact List.append_nil _

/-- A node is written as statements, also when it is put into the reader's language. -/
theorem Legible.rendered_composes (legible : t.Legible tags) (fine : n.Legible) (parted : t.Parted n)
    (framed : ∀ fs id, id.index < t.size → Run.Framed (inner fs id)) {active : List NodeId}
    (writes : t.WritesInside active n.rendered.body ps)
    (composed : n.rendered.body = n.body → t.Composed inner n.body ps) (tag : n.tag ∉ Node.separators) :
    ∃ stmts, Artifact.Composes (.body stmts)
        (Segment.ofCode n.rendered.opening ++ ps ++ Segment.ofCode n.rendered.closing) ∧
      ∀ fs, execAll fs stmts = t.localizedContent fs (inner fs) n := by
  unfold localizedContent
  by_cases localizes : n.name = some "t" ∧ n.isRoot = false
  · simp only [if_pos localizes]
    have isT : n.tag = "t" := Node.tag_of_name localizes.1
    cases plain : bodyText? n.body with
    | some s =>
      have folded : n.rendered = { n with opening := "", body := [.code (Tag.localized s)], closing := "" } := by
        unfold Node.rendered
        rw [if_pos localizes, plain]
      rw [folded] at writes ⊢
      have piece := Artifact.piece_localized s
      have text : Artifact.Denotes [.str s] (.lit (.str s)) :=
        .loosen (.unary (.postfixed (.str _) (.accessEnd _))) List.nil_suffix
      refine ⟨[.echo (.call "_" [.lit (.str s)])], ?_, fun fs => ?_⟩
      · rw [writes.eq_of_code, piece.ofCode_eq]
        exact (Artifact.Composes.echo (Artifact.denotes_localized text) piece).single
      · rw [execAll, execAll, bind_pure_unit, exec_localized, runElements_of_bodyText _ plain]
    | none =>
      have wrapped : n.rendered = { n with opening := "ob_start();", closing := "echo _(ob_get_clean());" } := by
        unfold Node.rendered
        rw [if_pos localizes, plain]
      rw [wrapped] at composed ⊢
      have whole : ∀ e ∈ n.body, t.separator? e = none := fun e mem =>
        legible.separator?_none.mpr fun parts => absurd (isT.symm.trans (parted.inside e mem parts)) (by decide)
      obtain ⟨stmts, body, same⟩ := (composed rfl).whole whole
      have last := Artifact.Composes.echo (Artifact.denotes_localized Artifact.denotes_buffer) Artifact.piece_gathered
      have composes := Artifact.Composes.statement (.startBuffer Artifact.piece_startBuffer) (body.append last.single)
      refine ⟨.startBuffer :: (stmts ++ [.echo (.call "_" [.call bufferCall []])]), ?_, fun fs => ?_⟩
      · rw [Artifact.piece_startBuffer.ofCode_eq, Artifact.piece_gathered.ofCode_eq, List.append_assoc]
        exact composes
      · rw [execAll, Artifact.execAll_append, same, execAll, execAll, bind_pure_unit, exec]
        exact exec_gathered (runElements_steps (Run.framed_steps fs) (framed fs) parted.admits)
  · have same : n.rendered = n := if_neg localizes
    simp only [if_neg localizes]
    rw [same] at composed ⊢
    exact legible.composes fine parted (composed rfl) tag

/-- The pieces of elements inside of active nodes are those of statements that do what the elements mean. -/
theorem Legible.composed (legible : t.Legible tags) {active : List NodeId} {body : List Element}
    (writes : t.WritesInside active body ps) (admits : ∀ e ∈ body, t.Admits e)
    (ordered : body.Pairwise fun e e' => t.tagAt e = "else" → t.tagAt e' ∉ Node.separators) (apart : active.Nodup)
    (old : ∀ id ∈ active, id.index < t.size) {depth : Nat} (deep : t.size ≤ active.length + depth) :
    t.Composed (fun fs => t.localizedNode fs depth) body ps := by
  induction writes generalizing depth with
  | nil =>
    refine ⟨[], .nothing, [], [], rfl, .done, fun ending ends => .nothing ends, fun _ => rfl, fun fs => ⟨?_, ?_⟩⟩
    · rw [execAll]
      rfl
    · rw [execAlternative]
      rfl
  | text _ ih =>
    exact (ih (fun e mem => admits e (List.mem_cons_of_mem _ mem)) ordered.of_cons apart old deep).text _
  | code =>
    cases admits _ List.mem_cons_self
  | @node active id rest inner ps fresh body more ih ihMore =>
    have old' : id.index < t.size := by
      cases admits _ List.mem_cons_self with
      | node old => exact old
    have composed := ihMore (fun e mem => admits e (List.mem_cons_of_mem _ mem)) ordered.of_cons apart old deep
    obtain ⟨fine, parted⟩ := legible.content old'
    have separates := (t.content id).separator?_none
    by_cases parts : t.separator? (.node id) = none
    · -- Nodes that are written inside each other all differ, so one more may be nested.
      have nodup : (t.target id :: active).Nodup := List.nodup_cons.mpr ⟨fresh, apart⟩
      have small : ∀ a ∈ t.target id :: active, a.index < t.size :=
        List.forall_mem_cons.mpr ⟨legible.sound.target_lt_size old', old⟩
      have few := length_le_size nodup small
      rw [List.length_cons] at few
      obtain ⟨depth, rfl⟩ : ∃ d, depth = d + 1 := ⟨depth - 1, by omega⟩
      have deep' : t.size ≤ (t.target id :: active).length + depth := by
        rw [List.length_cons]
        omega
      have content (same : (t.shown id).body = (t.content id).body) :
          t.Composed (fun fs => t.localizedNode fs depth) (t.content id).body inner := by
        rw [same] at ih
        exact ih parted.admits parted.ordered nodup small deep'
      obtain ⟨stmts, composes, runs⟩ := legible.rendered_composes fine parted
        (fun fs id old => legible.localizedNode_framed fs depth id old) body content (separates.mp parts)
      exact composed.cons parts composes fun fs body => by rw [runElements, runs, localizedNode]
    · have tag : (t.content id).tag ∈ Node.separators := Classical.not_not.mp fun other => parts (separates.mpr other)
      have same : t.shown id = t.content id := Node.rendered_of_ne fun named => by
        rw [Node.tag_of_name named] at tag
        exact absurd tag (by decide)
      rw [same] at body ⊢
      have nothing : inner = [] := by
        rw [fine.bare (by simpa [Node.separators] using tag)] at body
        cases body
        rfl
      subst nothing
      refine composed_separator fine parts (fun last e mem => ?_) composed
      rw [legible.separator?_eq] at last
      unfold Node.separator? at last
      split at last
      · cases last
      · split at last
        · rename_i isElse
          exact legible.separator?_none.mpr ((List.pairwise_cons.mp ordered).1 e mem isElse)
        · cases last

/-! ### The page -/

/-- An artifact that a legible tree writes is read as a program that does what the tree means, but for what was
stripped off the ends. -/
theorem Legible.exists_program (legible : t.Legible tags) {root : NodeId} (old : root.index < t.size)
    (whole : (t.own root).tag ∉ Node.separators) (writes : t.WritesInside [] [.node root] ps) (name : String)
    (strip : Bool) :
    ∃ p front back, Program.parse name ((Artifact.Written.ofPieces ps).finish strip) = .ok p ∧ p.name = name ∧
      Text.Ends strip front back ∧ ∀ fs, t.localizedNode fs t.size root =
        (do Run.write front; execAll fs p.body; Run.write back) := by
  have admits : ∀ e ∈ [Element.node root], t.Admits e := fun e mem => by
    cases List.mem_singleton.mp mem
    exact .node old
  have composed : t.Composed (fun fs => t.localizedNode fs t.size) [.node root] ps :=
    legible.composed writes admits (List.pairwise_singleton _ _) List.nodup_nil (fun id mem => by cases mem)
      (Nat.le_add_left _ _)
  obtain ⟨stmts, composes, runs⟩ := composed.whole fun e mem => by
    cases List.mem_singleton.mp mem
    exact legible.separator?_none.mpr whole
  obtain ⟨inner, front, back, parsed, ends, same⟩ := composes.exists_parse strip
  refine ⟨⟨name, inner⟩, front, back, ?_, rfl, ends, fun fs => ?_⟩
  · unfold Program.parse
    rw [parsed]
  · rw [← same, runs, runElements, runElements, bind_pure_unit]

end Tree

end Stencil
