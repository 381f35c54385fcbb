import Stencil.Proofs.Artifact.Fragments
import Stencil.Proofs.Compile.CountedText
import Stencil.Proofs.Tag.Checking

/-!
Variables in the parameters of tags. What the check of a parameter takes for a variable is exactly what the scanner
reads as one variable and nothing else. So the loops that tags write are read back with the variables that their
parameters name, around whatever statements stand in them.
-/
namespace Stencil

namespace Artifact

/-! ### What is scanned as one variable -/

variable {s rest : List Char} {name : String}

theorem isIdentifier_of_spanIdentifier {word : List Char} (parts : spanIdentifier s = (word, rest)) (some : word ≠ []) :
    isIdentifier (String.ofList word) = true := by
  unfold spanIdentifier at parts
  split at parts
  · cases parts
    exact absurd rfl some
  · rename_i c more
    split at parts
    · rename_i letter
      obtain ⟨same, words, -⟩ := span_parts parts
      cases word with
      | nil => exact absurd rfl some
      | cons d word =>
        obtain ⟨rfl, -⟩ := List.cons.inj same
        unfold isIdentifier
        rw [String.toList_ofList, Bool.and_eq_true, List.all_eq_true]
        exact ⟨letter, fun e mem => words e (List.mem_cons_of_mem _ mem)⟩
    · cases parts
      exact absurd rfl some

theorem scanNumber_ne_variable : scanNumber s ≠ .ok (.var name, rest) := by
  intro h
  unfold scanNumber at h
  cases parts : Decimal.spanDigits s with
  | mk whole after =>
    rw [parts] at h
    dsimp only at h
    generalize Decimal.int64? (Decimal.value whole) = read at h
    split at h
    · split at h
      · cases h
      · split at h <;> cases h
    · split at h <;> cases h

/-- Only a dollar sign and an identifier are scanned as a variable. -/
theorem eq_of_scanToken_variable {c : Char} (h : scanToken c s = .ok (.var name, rest)) :
    c = '$' ∧ s = name.toList ++ rest ∧ isIdentifier name = true := by
  by_cases dollar : c = '$'
  · subst dollar
    cases parts : spanIdentifier s with
    | mk word after =>
      have some : word ≠ [] := by
        rintro rfl
        simp [scanToken, parts] at h
      obtain ⟨rfl, -, -⟩ := spanIdentifier_local parts some
      rw [scanToken_variable some parts] at h
      cases h
      exact ⟨rfl, by rw [String.toList_ofList], isIdentifier_of_spanIdentifier parts some⟩
  by_cases letter : isLetter c = true
  · unfold scanToken at h
    rw [if_neg dollar, if_pos letter] at h
    cases h
  by_cases digit : Decimal.isDigit c = true
  · rw [scanToken_number dollar letter digit] at h
    exact absurd h scanNumber_ne_variable
  by_cases quote : c = '\'' ∨ c = '"'
  · rw [scanToken_quoted dollar letter digit quote] at h
    split at h <;> cases h
  · rw [scanToken_mark dollar letter digit quote] at h
    split at h <;> cases h

theorem scans_nil_iff : Scans s [] rest ↔ ∃ blanks, s = blanks ++ rest ∧ ∀ c ∈ blanks, Text.isBlank c = true := by
  constructor
  · intro scans
    generalize none : ([] : List Token) = ts at scans
    induction scans with
    | done => exact ⟨[], rfl, by simp⟩
    | @blank c s rest ts blank _ ih =>
      obtain ⟨blanks, rfl, all⟩ := ih none
      exact ⟨c :: blanks, rfl, List.forall_mem_cons.mpr ⟨blank, all⟩⟩
    | token => cases none
  · rintro ⟨blanks, rfl, all⟩
    induction blanks with
    | nil => exact .done rest
    | cons c blanks ih =>
      obtain ⟨blank, all⟩ := List.forall_mem_cons.mp all
      exact .blank blank (ih all)

/-- What is scanned as one variable is a dollar sign and an identifier, with blanks around it. -/
theorem exists_of_scans_variable (scans : Scans s [.var name] rest) :
    ∃ before behind, s = before ++ '$' :: (name.toList ++ (behind ++ rest)) ∧ isIdentifier name = true ∧
      ∀ c ∈ before ++ behind, Text.isBlank c = true := by
  generalize only : [Token.var name] = ts at scans
  induction scans with
  | done => cases only
  | @blank c s rest ts blank _ ih =>
    obtain ⟨before, behind, rfl, named, all⟩ := ih only
    exact ⟨c :: before, behind, rfl, named, List.forall_mem_cons.mpr ⟨blank, all⟩⟩
  | @token c s mid rest t ts _ first tail _ =>
    cases only
    obtain ⟨rfl, rfl, named⟩ := eq_of_scanToken_variable first
    obtain ⟨behind, rfl, all⟩ := scans_nil_iff.mp tail
    exact ⟨[], behind, rfl, named, all⟩

/-- In a fragment of its own the text is scanned as one variable and nothing else, which is named like the text
without its first character. -/
def IsOneVariable (text : String) : Prop :=
  scanFragment (text.toList ++ Written.closer) = .ok ([.var (variableName text), .fragmentEnd], [])

/-- The check of a variable and the scanner agree on every text. Blanks around a variable are not scanned, but they
are not part of its name either. -/
theorem isVariable_iff_isOneVariable (text : String) : Tag.isVariable text.toList = true ↔ IsOneVariable text := by
  unfold IsOneVariable
  rw [scanFragment_iff]
  constructor
  · intro variable'
    exact ⟨[.var (variableName text)], rfl, reads_variable variable' '?' ['>'] (by decide)⟩
  · rintro ⟨own, tokens, scans⟩
    have ends : [Token.var (variableName text)] ++ [.fragmentEnd] = own ++ [.fragmentEnd] := tokens
    obtain rfl := List.append_cancel_right ends
    obtain ⟨before, behind, whole, named, -⟩ := exists_of_scans_variable scans
    have same : text.toList = before ++ '$' :: ((variableName text).toList ++ behind) := by
      have both : text.toList ++ Written.closer =
          (before ++ '$' :: ((variableName text).toList ++ behind)) ++ Written.closer := by
        rw [whole]
        simp [Written.closer]
      exact List.append_cancel_right both
    have length : (variableName text).toList.length = text.toList.length - 1 := by
      unfold variableName
      rw [String.toList_ofList, List.length_drop]
    have long := congrArg List.length same
    simp only [List.length_append, List.length_cons] at long
    have none : before = [] := List.length_eq_zero_iff.mp (by omega)
    have none' : behind = [] := List.length_eq_zero_iff.mp (by omega)
    rw [none, none', List.nil_append, List.append_nil] at same
    exact isVariable_iff_isIdentifier.mpr ⟨named, same⟩

/-! ### Loops around statements -/

theorem Piece.inside {code next : List Char} {own us : List Token} (piece : Piece code own) (follow : Inside next us) :
    Inside (code ++ next) (own ++ us) := by
  obtain ⟨own', rest, more, scans, cuts, rfl⟩ := follow
  exact ⟨own ++ own', rest, more, (piece.scans_before next).append scans, cuts, by simp⟩

/-- Code that opens a body is read, with statements from a fragment of their own behind it and a closing brace, as the
statement with that body. -/
theorem parse_around {code inner : List Char} {front : List Token} {outer : Stmt} {body : List Stmt}
    (piece : Piece code (front ++ [.punct .openBrace]))
    (isRead : ∀ us, (Part.body body).IsRead us → (Part.single outer).IsRead (front ++ bracedTokens us))
    (parsed : parseStatements (fragment inner) = .ok body) (ended : EndsStatement inner) :
    parseStatements (fragment (code ++ (inner ++ "\x7d".toList))) = .ok [outer] := by
  obtain ⟨ts, scanned, sequence⟩ := parseStatements_iff.mp parsed
  obtain ⟨own, known, last⟩ := ended
  cases Except.ok.inj (scanned.symm.trans known)
  have brace : Inside ("\x7d".toList ++ Written.closer) [.punct .closeBrace, .fragmentEnd] :=
    piece_bodyEnd.inside inside_closer
  have bodyInside := (scan_fragment_iff.mp scanned).join brace (Or.inl last)
  have whole := piece.inside bodyInside
  have order : code ++ (inner ++ "\x7d".toList) ++ Written.closer =
      code ++ (inner ++ ("\x7d".toList ++ Written.closer)) := by
    simp
  rw [← order] at whole
  refine parseStatements_iff.mpr ⟨_, scan_fragment_iff.mpr whole, ?_⟩
  have single := Sequence.statement (isRead own (sequence.without_end last).isRead)
    ((closes_braced own).behind front) (.skip (Or.inl rfl) .done)
  simpa [bracedTokens] using single

end Artifact

open Artifact

/-- The code of a node is read as a loop around any statements that stand in a fragment of their own and end there. -/
def Node.IsReadAs (n : Node) (loop : List Stmt → Stmt) : Prop :=
  ∀ name inner body, Program.parse name (fragment inner) = .ok ⟨name, body⟩ → EndsStatement inner →
    Program.parse name (fragment (n.opening.toList ++ (inner ++ n.closing.toList))) = .ok ⟨name, [loop body]⟩

theorem Node.isReadAs_of_piece {n : Node} {loop : List Stmt → Stmt} (front : List Token)
    (piece : Piece n.opening.toList (front ++ [.punct .openBrace])) (closing : n.closing = "\x7d")
    (isRead : ∀ body us, (Part.body body).IsRead us → (Part.single (loop body)).IsRead (front ++ bracedTokens us)) :
    n.IsReadAs loop := by
  intro name inner body parsed ended
  have inside : parseStatements (fragment inner) = .ok body := by
    unfold Program.parse at parsed
    split at parsed
    · rename_i read
      cases parsed
      exact read
    · cases parsed
  unfold Program.parse
  rw [closing, parse_around piece (isRead body) inside ended]

/-- The variable that was written for a loop over numbers is scanned as one, and the node is read as a loop with it
where its numbers can be read. -/
def Node.CountsWith (n : Node) (written : Keyed String) : Prop :=
  ∃ var, Keyed.get? "var" written = some var ∧ IsOneVariable var ∧
    ∀ first last step, Expr.parse (n.param "from") = .ok first → Expr.parse (n.param "to") = .ok last →
      Expr.parse (String.ofList (Decimal.ofInt64 (n.number "step"))) = .ok step →
      n.IsReadAs (.count (variableName var) first last step (decide (n.number "step" < 0)))

/-- The variables that were written for a loop over entries are scanned as such, with or without one for the keys, and
the node is read as a loop with them where its list can be read. -/
def Node.IteratesWith (n : Node) (written : Keyed String) : Prop :=
  ∃ var, Keyed.get? "var" written = some var ∧ IsOneVariable var ∧
    (∀ key ∈ Keyed.get? "key" written, IsOneVariable key) ∧
    ∀ list, Expr.parse (n.param "list") = .ok list →
      n.IsReadAs (.each list ((Keyed.get? "key" written).map variableName) (variableName var))

/-! ### Parameters that pass the check -/

namespace Tag

variable {site : Site} {specs : List ParamSpec} {params params' : Keyed String} {spec : ParamSpec} {value : String}

/-- Where the check succeeds every demand is met. -/
theorem met_of_applyAll (names : (specs.map (·.name)).Nodup) (run : applyAll site specs params = .ok params') :
    ∀ spec ∈ specs, spec.Met params := by
  by_contra unmet
  obtain ⟨e, complaint⟩ := exists_firstComplaint site unmet
  cases run.symm.trans (applyAll_of_firstComplaint names complaint)

/-- What is written for a variable is one. -/
theorem isOneVariable_of_applyAll (names : (specs.map (·.name)).Nodup)
    (run : applyAll site specs params = .ok params') (mem : spec ∈ specs) (kind : spec.kind = .var)
    (written : Keyed.get? spec.name params = some value) : IsOneVariable value := by
  rcases met_of_applyAll names run spec mem with ⟨value', found, isValue⟩ | ⟨absent, -⟩
  · cases written.symm.trans found
    rw [kind] at isValue
    exact (isVariable_iff_isOneVariable value).mp ((admits_iff .var value).mpr isValue)
  · exact absurd (Keyed.mem_keys_of_get? written) absent

theorem param_of_written {n n' : Node} {key : String} (run : applyAll site specs n.params = .ok n'.params)
    (written : Keyed.get? key n.params = some value) : n'.param key = value := by
  unfold Node.param
  rw [get?_applyAll run written]
  rfl

/-- What has no default is written. -/
theorem exists_written_of_applyAll (names : (specs.map (·.name)).Nodup)
    (run : applyAll site specs params = .ok params') (mem : spec ∈ specs) (required : spec.default? = none) :
    ∃ value, Keyed.get? spec.name params = some value := by
  rcases met_of_applyAll names run spec mem with ⟨value, found, -⟩ | ⟨-, value, default⟩
  · exact ⟨value, found⟩
  · cases required.symm.trans default

end Tag

namespace Compile

open Tag

variable {W : Type} {load : Loader W} {s s' : CompileState W} {id : NodeId}

/-- A node at which a loop over entries has opened. -/
theorem openForeach_sets (old : id.index < s.tree.size) (run : carryOut load (openForeach id) s = (.ok (), s')) :
    let n := s'.tree.own id
    checkParams (s.tree.site id) false (demands "foreach") (s.tree.own id).params = .ok n.params ∧
      n.opening = eachHead n ∧ n.closing = "\x7d" := by
  obtain ⟨_, t, demanded, run⟩ := carryOut_bind_ok run
  obtain ⟨params, checked, rfl⟩ := demand_ok demanded
  rw [carryOut_update] at run
  cases run
  have large : id.index < (s.tree.update id fun n => { n with params := params }).size := by
    rw [Tree.size_update]
    exact old
  dsimp only
  rw [Tree.own_update_self large, Tree.own_update_self old]
  exact ⟨checked, rfl, rfl⟩

theorem openFor_countsWith (old : id.index < s.tree.size) (run : carryOut load (openFor id) s = (.ok (), s')) :
    (s'.tree.own id).CountsWith (s.tree.own id).params := by
  obtain ⟨checked, nonzero, opening, closing⟩ := openFor_sets old run
  generalize s'.tree.own id = n at checked nonzero opening closing ⊢
  have applied := applyAll_of_checkParams checked
  have names : ((demands "for").map (·.name)).Nodup := by decide
  have demanded : ParamSpec.required "var" .var ∈ demands "for" := List.mem_cons_self
  obtain ⟨var, written⟩ := exists_written_of_applyAll names applied demanded rfl
  have one := isOneVariable_of_applyAll names applied demanded rfl written
  have kept : n.param "var" = var := param_of_written applied written
  refine ⟨var, written, one, fun first last step firstRead lastRead stepRead => ?_⟩
  obtain ⟨ts, firstDenotes, firstReads⟩ := reads_of_parse firstRead
  obtain ⟨us, lastDenotes, lastReads⟩ := reads_of_parse lastRead
  obtain ⟨vs, stepDenotes, stepReads⟩ := reads_of_parse stepRead
  have variable' : isVariable (n.param "var").toList = true := kept ▸ (isVariable_iff_isOneVariable var).mpr one
  have piece := Node.piece_countHead nonzero variable' firstReads lastReads stepReads
  rw [← opening, kept] at piece
  exact Node.isReadAs_of_piece (.ident "for" :: countTokens _ _ ts us vs) piece closing
    fun body ws isRead => isRead_count firstDenotes lastDenotes stepDenotes isRead

/-- A loop has a variable for the keys where one is written, and none where not. -/
theorem loopVariable?_of_written {n : Node} {written : Option String} (kept : n.param "key" = written.getD "")
    (one : ∀ key ∈ written, IsOneVariable key) : n.loopVariable? "key" = written.map variableName ∧
      (n.param "key" = "" ∨ isVariable (n.param "key").toList = true) := by
  unfold Node.loopVariable?
  rw [kept]
  cases written with
  | none => exact ⟨rfl, .inl rfl⟩
  | some key =>
    have variable' := (isVariable_iff_isOneVariable key).mpr (one key rfl)
    refine ⟨if_neg fun empty => ?_, .inr variable'⟩
    cases String.isEmpty_iff.mp empty
    cases variable'

theorem openForeach_iteratesWith (old : id.index < s.tree.size)
    (run : carryOut load (openForeach id) s = (.ok (), s')) :
    (s'.tree.own id).IteratesWith (s.tree.own id).params := by
  obtain ⟨checked, opening, closing⟩ := openForeach_sets old run
  generalize s'.tree.own id = n at checked opening closing ⊢
  have applied := applyAll_of_checkParams checked
  have names : ((demands "foreach").map (·.name)).Nodup := by decide
  have demanded : ParamSpec.required "var" .var ∈ demands "foreach" := by simp [demands]
  have demandedKey : ParamSpec.optional "key" .var "" ∈ demands "foreach" := by simp [demands]
  obtain ⟨var, written⟩ := exists_written_of_applyAll names applied demanded rfl
  have one := isOneVariable_of_applyAll names applied demanded rfl written
  have oneKey : ∀ key ∈ Keyed.get? "key" (s.tree.own id).params, IsOneVariable key :=
    fun key mem => isOneVariable_of_applyAll names applied demandedKey rfl mem
  have kept : n.param "var" = var := param_of_written applied written
  let head : Markup.Head := ⟨"foreach", (s.tree.own id).params⟩
  have applied' : applyAll (s.tree.site id) (demands "foreach") head.params = .ok n.params := applied
  have keptKey : n.param "key" = head.value "key" "" := value_of_applyAll applied' demandedKey (by decide)
  obtain ⟨loopVariable, variableKey⟩ := loopVariable?_of_written keptKey oneKey
  refine ⟨var, written, one, oneKey, fun list listRead => ?_⟩
  obtain ⟨ts, denotes, reads⟩ := reads_of_parse listRead
  have variable' : isVariable (n.param "var").toList = true := kept ▸ (isVariable_iff_isOneVariable var).mpr one
  have piece := Node.piece_eachHead reads variable' variableKey
  rw [← opening, kept, loopVariable] at piece
  exact Node.isReadAs_of_piece (.ident "foreach" :: conditionTokens _) piece closing
    fun body us isRead => isRead_each denotes isRead

/-- What the check takes for a variable is exactly what is scanned as one variable and nothing else, whose name is the
text without its first character. A loop that opens was given such variables only, and it is read back with them around
whatever statements stand in it, if the expressions in its head can be read. -/
theorem checked_variables_are_read_back (old : id.index < s.tree.size) :
    (∀ text : String, isVariable text.toList = true ↔ IsOneVariable text) ∧
      (carryOut load (openFor id) s = (.ok (), s') → (s'.tree.own id).CountsWith (s.tree.own id).params) ∧
      (carryOut load (openForeach id) s = (.ok (), s') → (s'.tree.own id).IteratesWith (s.tree.own id).params) :=
  ⟨isVariable_iff_isOneVariable, openFor_countsWith old, openForeach_iteratesWith old⟩

/-- A loop over numbers and one over the entries of a map. Digits in front, other letters and blanks are no part of a
variable. -/
theorem keyed_rows_are_read_back :
    let counting : Node := { Node.fresh "page" 1 with params := [("var", "$i"), ("to", "3")] }
    let rows : Node := { Node.fresh "page" 2 with params := [("list", "$rows"), ("key", "$_k1"), ("var", "$row")] }
    let s : CompileState Unit := ⟨(), ⟨#[counting, rows]⟩, [], [], [], [], []⟩
    (carryOut noLoad (openFor ⟨0⟩) s).1 = .ok () ∧ (carryOut noLoad (openForeach ⟨1⟩) s).1 = .ok () ∧
      IsOneVariable "$_k1" ∧ (∀ text ∈ ["", "$", "$1k", "$ä", "$row ", " $row", "row"], ¬ IsOneVariable text) ∧
      Program.parse "page" (fragment "for ($i = 0; $i <= 3; $i += 1) \x7becho $i;\x7d".toList) =
        .ok ⟨"page", [.count "i" (.lit (.int 0)) (.lit (.int 3)) (.lit (.int 1)) false [.echo (.var "i")]]⟩ ∧
      Program.parse "page" (fragment "foreach ($rows as $_k1 => $row) \x7becho $row;\x7d".toList) =
        .ok ⟨"page", [.each (.var "rows") (some "_k1") "row" [.echo (.var "row")]]⟩ := by
  intro counting rows s
  have opened : (carryOut noLoad (openFor ⟨0⟩) s).1 = .ok () := by decide +kernel
  have opened' : (carryOut noLoad (openForeach ⟨1⟩) s).1 = .ok () := by decide +kernel
  obtain ⟨agree, counts, -⟩ :=
    @checked_variables_are_read_back Unit noLoad s (carryOut noLoad (openFor ⟨0⟩) s).2 ⟨0⟩ (by decide)
  obtain ⟨-, -, iterates⟩ :=
    @checked_variables_are_read_back Unit noLoad s (carryOut noLoad (openForeach ⟨1⟩) s).2 ⟨1⟩ (by decide)
  obtain ⟨var, written, -, loop⟩ := counts (Prod.ext opened rfl)
  obtain ⟨var', written', -, oneKey, loop'⟩ := iterates (Prod.ext opened' rfl)
  cases written
  cases written'
  have ended : EndsStatement "echo $i;".toList :=
    ⟨[.ident "echo", .var "i", .punct .semicolon], by cbv, by simp [Token.endsStatement]⟩
  have ended' : EndsStatement "echo $row;".toList :=
    ⟨[.ident "echo", .var "row", .punct .semicolon], by cbv, by simp [Token.endsStatement]⟩
  -- What the nodes hold now.
  have code : let n := (carryOut noLoad (openFor ⟨0⟩) s).2.tree.own ⟨0⟩
      n.param "from" = "0" ∧ n.param "to" = "3" ∧ n.number "step" = 1 ∧
        n.opening = "for ($i = 0; $i <= 3; $i += 1) \x7b" ∧ n.closing = "\x7d" := by decide +kernel
  have code' : let n := (carryOut noLoad (openForeach ⟨1⟩) s).2.tree.own ⟨1⟩
      n.param "list" = "$rows" ∧ n.opening = "foreach ($rows as $_k1 => $row) \x7b" ∧ n.closing = "\x7d" := by
    decide +kernel
  generalize (carryOut noLoad (openFor ⟨0⟩) s).2.tree.own ⟨0⟩ = n at loop code
  generalize (carryOut noLoad (openForeach ⟨1⟩) s).2.tree.own ⟨1⟩ = n' at loop' code'
  obtain ⟨first, last, step, opening, closing⟩ := code
  obtain ⟨list, opening', closing'⟩ := code'
  rw [first, last, step] at loop
  rw [list] at loop'
  have read := loop (.lit (.int 0)) (.lit (.int 3)) (.lit (.int 1)) (by cbv) (by cbv) (by cbv)
    "page" "echo $i;".toList [.echo (.var "i")] (by cbv) ended
  have read' := loop' (.var "rows") (by cbv) "page" "echo $row;".toList [.echo (.var "row")] (by cbv) ended'
  rw [opening, closing] at read
  rw [opening', closing'] at read'
  refine ⟨opened, opened', oneKey _ rfl, fun text mem one => ?_, read, read'⟩
  have refused : ∀ text ∈ ["", "$", "$1k", "$ä", "$row ", " $row", "row"], isVariable text.toList = false := by
    decide +kernel
  cases (refused text mem).symm.trans ((agree text).mpr one)

end Compile

end Stencil
