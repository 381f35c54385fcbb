import Stencil.Main

/-!
The grammar of expressions, stated apart from the parser: which lists of tokens are an expression of a row of
operators, an operand, and so on. The parser reads exactly these. It takes what it reads from the grammar, and what
the grammar derives it reads in front of every rest with which the expression could not go on.
-/
namespace Stencil.Artifact

/-! ### Derivations -/

/-- The words that stand for something else where a function could be called. -/
def reserved : List String := ["true", "false", "null", "not"]

/-- What a list of tokens may be read as. -/
inductive Phrase where
  /-- An expression of the first of these rows, or tighter. -/
  | within (rows : List OperatorRow) (e : Expr)
  /-- What makes an expression of a row out of its left operand. -/
  | chain (row : OperatorRow) (tighter : List OperatorRow) (left e : Expr)
  | unary (e : Expr)
  | primary (e : Expr)
  /-- What makes an expression out of the one in front of it by accesses. -/
  | accesses (base e : Expr)
  | arguments (es : List Expr)

inductive Derives : Phrase → List Token → Prop where
  | unary {e : Expr} {ts : List Token} (operand : Derives (.unary e) ts) : Derives (.within [] e) ts
  | row {row : OperatorRow} {tighter : List OperatorRow} {left e : Expr} {ts us : List Token}
      (operand : Derives (.within tighter left) ts) (more : Derives (.chain row tighter left e) us) :
      Derives (.within (row :: tighter) e) (ts ++ us)
  | chainEnd {row : OperatorRow} {tighter : List OperatorRow} (left : Expr) :
      Derives (.chain row tighter left left) []
  | chainOnce {row : OperatorRow} {tighter : List OperatorRow} {left right : Expr} {t : Token} {ts : List Token}
      {build : Expr → Expr → Expr} (operator : row.build? t = some build) (once : row.chains = false)
      (operand : Derives (.within tighter right) ts) : Derives (.chain row tighter left (build left right)) (t :: ts)
  | chainOn {row : OperatorRow} {tighter : List OperatorRow} {left right e : Expr} {t : Token} {ts us : List Token}
      {build : Expr → Expr → Expr} (operator : row.build? t = some build) (chains : row.chains = true)
      (operand : Derives (.within tighter right) ts) (more : Derives (.chain row tighter (build left right) e) us) :
      Derives (.chain row tighter left e) (t :: (ts ++ us))
  | bang {e : Expr} {ts : List Token} (operand : Derives (.unary e) ts) :
      Derives (.unary (.not e)) (.punct .bang :: ts)
  | notWord {e : Expr} {ts : List Token} (operand : Derives (.unary e) ts) :
      Derives (.unary (.not e)) (.ident "not" :: ts)
  | minus {e : Expr} {ts : List Token} (operand : Derives (.unary e) ts) :
      Derives (.unary (.neg e)) (.punct .minus :: ts)
  | postfixed {base e : Expr} {ts us : List Token} (head : Derives (.primary base) ts)
      (more : Derives (.accesses base e) us) : Derives (.unary e) (ts ++ us)
  | var (name : String) : Derives (.primary (.var name)) [.var name]
  | int (i : Int64) : Derives (.primary (.lit (.int i))) [.int i]
  | float (x : Float) : Derives (.primary (.lit (.float x))) [.float x]
  | str (s : String) : Derives (.primary (.lit (.str s))) [.str s]
  | trueWord : Derives (.primary (.lit (.bool true))) [.ident "true"]
  | falseWord : Derives (.primary (.lit (.bool false))) [.ident "false"]
  | nullWord : Derives (.primary (.lit .null)) [.ident "null"]
  | grouped {e : Expr} {ts : List Token} (inner : Derives (.within operatorRows e) ts) :
      Derives (.primary e) (.punct .openParen :: (ts ++ [.punct .closeParen]))
  | callNone {function : String} (free : function ∉ reserved) :
      Derives (.primary (.call function [])) [.ident function, .punct .openParen, .punct .closeParen]
  | call {function : String} {es : List Expr} {ts : List Token} (free : function ∉ reserved)
      (args : Derives (.arguments es) ts) :
      Derives (.primary (.call function es))
        (.ident function :: .punct .openParen :: (ts ++ [.punct .closeParen]))
  | accessEnd (base : Expr) : Derives (.accesses base base) []
  | memberName {base e : Expr} {key : String} {ts : List Token} (more : Derives (.accesses (.member base key) e) ts) :
      Derives (.accesses base e) (.punct .dot :: .ident key :: ts)
  | memberIndex {base e : Expr} {i : Int64} {ts : List Token}
      (more : Derives (.accesses (.member base (String.ofList (Decimal.ofInt64 i))) e) ts) :
      Derives (.accesses base e) (.punct .dot :: .int i :: ts)
  | index {base key e : Expr} {ts us : List Token} (inner : Derives (.within operatorRows key) ts)
      (more : Derives (.accesses (.index base key) e) us) :
      Derives (.accesses base e) (.punct .openBracket :: (ts ++ .punct .closeBracket :: us))
  | lastArgument {e : Expr} {ts : List Token} (inner : Derives (.within operatorRows e) ts) :
      Derives (.arguments [e]) ts
  | argument {e : Expr} {es : List Expr} {ts us : List Token} (inner : Derives (.within operatorRows e) ts)
      (more : Derives (.arguments es) us) : Derives (.arguments (e :: es)) (ts ++ .punct .comma :: us)

/-- The tokens are an expression. -/
def Denotes (ts : List Token) (e : Expr) : Prop := Derives (.within operatorRows e) ts

namespace Derives

/-- An expression of tighter rows is one of looser rows. -/
theorem loosen {rows more : List OperatorRow} {e : Expr} {ts : List Token} (derives : Derives (.within rows e) ts)
    (suffix : rows <:+ more) : Derives (.within more e) ts := by
  obtain ⟨front, rfl⟩ := suffix
  induction front with
  | nil => exact derives
  | cons row front ih => simpa using Derives.row ih (.chainEnd e)

theorem chain_append {row : OperatorRow} {tighter : List OperatorRow} {left mid e : Expr} {ts us : List Token}
    (chains : row.chains = true) (first : Derives (.chain row tighter left mid) ts)
    (last : Derives (.chain row tighter mid e) us) : Derives (.chain row tighter left e) (ts ++ us) := by
  generalize same : Phrase.chain row tighter left mid = phrase at first
  induction first generalizing left with
  | chainEnd =>
    cases same
    exact last
  | chainOnce _ once =>
    cases same
    exact absurd (chains.symm.trans once) (by decide)
  | chainOn operator _ operand _ _ ih =>
    cases same
    rw [List.cons_append, List.append_assoc]
    exact .chainOn operator chains operand (ih rfl)
  | _ => cases same

/-- An operator that chains takes an expression of its own row as the left operand. -/
theorem chainLeft {row : OperatorRow} {tighter : List OperatorRow} {left right : Expr} {t : Token} {ts us : List Token}
    {build : Expr → Expr → Expr} (first : Derives (.within (row :: tighter) left) ts)
    (operator : row.build? t = some build) (chains : row.chains = true) (operand : Derives (.within tighter right) us) :
    Derives (.within (row :: tighter) (build left right)) (ts ++ t :: us) := by
  cases first with
  | @row _ _ _ _ head more first rest =>
    have last := Derives.chainOn operator chains operand (.chainEnd (build left right))
    rw [List.append_nil] at last
    rw [List.append_assoc]
    exact .row first (rest.chain_append chains last)

theorem accesses_append {base mid e : Expr} {ts us : List Token} (first : Derives (.accesses base mid) ts)
    (last : Derives (.accesses mid e) us) : Derives (.accesses base e) (ts ++ us) := by
  generalize same : Phrase.accesses base mid = phrase at first
  induction first generalizing base with
  | accessEnd =>
    cases same
    exact last
  | memberName _ ih =>
    cases same
    exact .memberName (ih rfl)
  | memberIndex _ ih =>
    cases same
    exact .memberIndex (ih rfl)
  | index inner _ _ ih =>
    cases same
    simpa using Derives.index inner (ih rfl)
  | _ => cases same

end Derives

/-! ### What the parser takes is derived -/

section Soundness

variable {inner : Parser Expr}

theorem bind_eq_ok {ε α β : Type} {x : Except ε α} {f : α → Except ε β} {b : β} :
    (x >>= f) = .ok b ↔ ∃ a, x = .ok a ∧ f a = .ok b := by
  cases x with
  | error e =>
    constructor
    · intro h
      cases h
    · rintro ⟨a, h, -⟩
      cases h
  | ok a =>
    constructor
    · intro h
      exact ⟨a, rfl, h⟩
    · rintro ⟨b, same, h⟩
      cases same
      exact h

theorem eq_cons_of_expect {p : Punct} {tokens rest : List Token} (run : expect p tokens = .ok rest) :
    tokens = .punct p :: rest := by
  unfold expect at run
  split at run
  · split at run
    · rename_i same
      cases run
      rw [same]
    · cases run
  · cases run

/-- A parser of expressions takes only what a phrase derives. -/
def Takes (parser : Parser Expr) (phrase : Expr → Phrase) : Prop :=
  ∀ {tokens e rest}, parser tokens = .ok (e, rest) → ∃ ts, tokens = ts ++ rest ∧ Derives (phrase e) ts

theorem extend_takes {row : OperatorRow} {tighter : List OperatorRow} {operand : Parser Expr}
    (takes : Takes operand (.within tighter)) (bound : List Token) (left : Expr) :
    Takes (row.extend operand bound left) (.chain row tighter left) := by
  induction bound generalizing left with
  | nil =>
    intro tokens e rest run
    cases run
    exact ⟨[], rfl, .chainEnd _⟩
  | cons b bound ih =>
    intro tokens e rest run
    cases tokens with
    | nil =>
      cases run
      exact ⟨[], rfl, .chainEnd _⟩
    | cons t tokens =>
      unfold OperatorRow.extend at run
      cases operator : row.build? t with
      | none =>
        rw [operator] at run
        cases run
        exact ⟨[], rfl, .chainEnd _⟩
      | some build =>
        rw [operator] at run
        dsimp only at run
        obtain ⟨⟨right, after⟩, ran, next⟩ := bind_eq_ok.mp run
        obtain ⟨ts, same, derives⟩ := takes ran
        subst same
        dsimp only at next
        split at next
        · rename_i chains
          obtain ⟨us, rfl, more⟩ := ih _ next
          exact ⟨t :: (ts ++ us), by simp, .chainOn operator chains derives more⟩
        · rename_i once
          cases next
          exact ⟨t :: ts, rfl, .chainOnce operator (Bool.eq_false_iff.mpr once) derives⟩

theorem binaryRows_takes {operand : Parser Expr} (takes : Takes operand .unary) (rows : List OperatorRow) :
    Takes (binaryRows operand rows) (.within rows) := by
  induction rows with
  | nil =>
    intro tokens e rest run
    obtain ⟨ts, same, derives⟩ := takes run
    exact ⟨ts, same, .unary derives⟩
  | cons row rows ih =>
    intro tokens e rest run
    obtain ⟨⟨left, after⟩, ran, next⟩ := bind_eq_ok.mp run
    obtain ⟨ts, rfl, derives⟩ := ih ran
    obtain ⟨us, rfl, more⟩ := extend_takes ih _ _ next
    exact ⟨ts ++ us, by simp, .row derives more⟩

/-- What stops the reading of an operand stops the reading of the expressions that begin with it. -/
theorem binaryRows_error {operand : Parser Expr} {tokens : List Token} {e : SyntaxError}
    (fails : operand tokens = .error e) (rows : List OperatorRow) : binaryRows operand rows tokens = .error e := by
  induction rows with
  | nil => exact fails
  | cons row rows ih =>
    unfold binaryRows OperatorRow.parse
    rw [ih]
    rfl

theorem arguments_takes (takes : Takes inner (.within operatorRows)) (bound : List Token) {tokens rest : List Token}
    {es : List Expr} (run : arguments inner bound tokens = .ok (es, rest)) :
    ∃ ts, tokens = ts ++ .punct .closeParen :: rest ∧ Derives (.arguments es) ts := by
  induction bound generalizing tokens es rest with
  | nil => cases run
  | cons b bound ih =>
    unfold arguments at run
    obtain ⟨⟨e, after⟩, ran, next⟩ := bind_eq_ok.mp run
    obtain ⟨ts, rfl, derives⟩ := takes ran
    dsimp only at next
    split at next
    · cases next
      exact ⟨ts, rfl, .lastArgument derives⟩
    · obtain ⟨more, comma, next₁⟩ := bind_eq_ok.mp next
      obtain ⟨⟨es', rest'⟩, ran₁, next₂⟩ := bind_eq_ok.mp next₁
      obtain ⟨us, rfl, args⟩ := ih ran₁
      cases eq_cons_of_expect comma
      cases next₂
      exact ⟨ts ++ .punct .comma :: us, by simp, .argument derives args⟩

theorem primary_takes (takes : Takes inner (.within operatorRows)) {tokens rest : List Token} {e : Expr}
    (run : primary inner tokens = .ok (e, rest)) (word : tokens.head? ≠ some (.ident "not")) :
    ∃ ts, tokens = ts ++ rest ∧ Derives (.primary e) ts := by
  unfold primary at run
  split at run
  · cases run
    exact ⟨_, List.singleton_append.symm, .var _⟩
  · cases run
    exact ⟨_, List.singleton_append.symm, .int _⟩
  · cases run
    exact ⟨_, List.singleton_append.symm, .float _⟩
  · cases run
    exact ⟨_, List.singleton_append.symm, .str _⟩
  · obtain ⟨⟨e', after⟩, ran, next⟩ := bind_eq_ok.mp run
    obtain ⟨ts, rfl, derives⟩ := takes ran
    obtain ⟨after', closes, next₁⟩ := bind_eq_ok.mp next
    cases eq_cons_of_expect closes
    cases next₁
    exact ⟨_, by simp, .grouped derives⟩
  · rename_i name tokens
    split at run
    · rename_i same
      cases run
      exact ⟨_, List.singleton_append.symm, same ▸ .trueWord⟩
    rename_i notTrue
    split at run
    · rename_i same
      cases run
      exact ⟨_, List.singleton_append.symm, same ▸ .falseWord⟩
    rename_i notFalse
    split at run
    · rename_i same
      cases run
      exact ⟨_, List.singleton_append.symm, same ▸ .nullWord⟩
    rename_i notNull
    have notNot : name ≠ "not" := fun same => word (by rw [same]; rfl)
    have free : name ∉ reserved := by simp [reserved, notTrue, notFalse, notNull, notNot]
    obtain ⟨after, opens, next⟩ := bind_eq_ok.mp run
    cases eq_cons_of_expect opens
    split at next
    · cases next
      exact ⟨_, rfl, .callNone free⟩
    · obtain ⟨⟨es, rest'⟩, ran, next₁⟩ := bind_eq_ok.mp next
      obtain ⟨ts, rfl, args⟩ := arguments_takes takes _ ran
      cases next₁
      exact ⟨_, by simp, .call free args⟩
  · cases run

theorem accesses_takes (takes : Takes inner (.within operatorRows)) (bound : List Token) (base : Expr) :
    Takes (accesses inner bound base) (.accesses base) := by
  induction bound generalizing base with
  | nil =>
    intro tokens e rest run
    unfold accesses at run
    cases run
    exact ⟨[], rfl, .accessEnd _⟩
  | cons b bound ih =>
    intro tokens e rest run
    unfold accesses at run
    split at run
    · rename_i same
      cases same
      split at run
      · obtain ⟨ts, rfl, more⟩ := ih _ run
        exact ⟨_, rfl, .memberName more⟩
      · obtain ⟨ts, rfl, more⟩ := ih _ run
        exact ⟨_, rfl, .memberIndex more⟩
      · cases run
    · rename_i same
      cases same
      obtain ⟨⟨key, after⟩, ran, next⟩ := bind_eq_ok.mp run
      obtain ⟨ts, rfl, derives⟩ := takes ran
      obtain ⟨after', closes, next₁⟩ := bind_eq_ok.mp next
      obtain ⟨us, rfl, more⟩ := ih _ next₁
      cases eq_cons_of_expect closes
      exact ⟨_, by simp, .index derives more⟩
    · cases run
      exact ⟨[], rfl, .accessEnd _⟩

theorem postfixed_takes (takes : Takes inner (.within operatorRows)) {tokens rest : List Token} {e : Expr}
    (run : postfixed inner tokens = .ok (e, rest)) (word : tokens.head? ≠ some (.ident "not")) :
    ∃ ts, tokens = ts ++ rest ∧ Derives (.unary e) ts := by
  obtain ⟨⟨base, after⟩, ran, next⟩ := bind_eq_ok.mp run
  obtain ⟨ts, rfl, head⟩ := primary_takes takes ran word
  obtain ⟨us, rfl, more⟩ := accesses_takes takes _ _ next
  exact ⟨ts ++ us, by simp, .postfixed head more⟩

theorem unary_takes (takes : Takes inner (.within operatorRows)) : Takes (unary inner) .unary := by
  intro tokens
  induction tokens with
  | nil =>
    intro e rest run
    exact postfixed_takes takes run (by simp)
  | cons t tokens ih =>
    intro e rest run
    unfold unary at run
    split at run
    · rename_i same
      cases same
      obtain ⟨⟨e', after⟩, ran, next⟩ := bind_eq_ok.mp run
      obtain ⟨ts, rfl, derives⟩ := ih ran
      cases next
      exact ⟨_, rfl, .bang derives⟩
    · rename_i same
      cases same
      obtain ⟨⟨e', after⟩, ran, next⟩ := bind_eq_ok.mp run
      obtain ⟨ts, rfl, derives⟩ := ih ran
      cases next
      exact ⟨_, rfl, .minus derives⟩
    · rename_i same
      cases same
      split at run
      · rename_i same
        subst same
        obtain ⟨⟨e', after⟩, ran, next⟩ := bind_eq_ok.mp run
        obtain ⟨ts, rfl, derives⟩ := ih ran
        cases next
        exact ⟨_, rfl, .notWord derives⟩
      · rename_i other
        exact postfixed_takes takes run (by simpa using other)
    · rename_i notBang notMinus notWord
      apply postfixed_takes takes run
      intro same
      exact notWord "not" tokens (by simpa using same)

theorem expressionWithin_takes (bound : List Token) : Takes (expressionWithin bound) (.within operatorRows) := by
  induction bound with
  | nil =>
    intro tokens e rest run
    cases run
  | cons b bound ih => exact binaryRows_takes (unary_takes ih) operatorRows

end Soundness

/-! ### What is derived, the parser takes -/

section Completeness

/-- An expression whose operators are of these rows cannot go on here. -/
def Stops (rows : List OperatorRow) (tail : List Token) : Prop :=
  ∀ t ∈ tail.head?, t ≠ .punct .dot ∧ t ≠ .punct .openBracket ∧ ∀ row ∈ rows, row.build? t = none

theorem Stops.nil (rows : List OperatorRow) : Stops rows [] := by
  intro t mem
  cases mem

theorem Stops.mono {rows fewer : List OperatorRow} {tail : List Token} (stops : Stops rows tail)
    (sub : fewer ⊆ rows) : Stops fewer tail := by
  intro t mem
  obtain ⟨dot, bracket, none⟩ := stops t mem
  exact ⟨dot, bracket, fun row of => none row (sub of)⟩

/-- Punctuation that is no operator and starts no access. -/
def closing (p : Punct) : Bool :=
  p ∈ [.arrow, .plusAssign, .minusAssign, .assign, .bang, .comma, .openParen, .closeParen, .closeBracket, .openBrace,
    .closeBrace, .semicolon]

theorem stops_of_closing {p : Punct} (closes : closing p = true) (rows : List OperatorRow)
    (among : rows ⊆ operatorRows) (tail : List Token) : Stops rows (.punct p :: tail) := by
  refine Stops.mono ?_ among
  intro t mem
  cases mem
  cases p <;> first | (exact absurd closes (by decide)) | (simp [operatorRows]; decide)

/-- No token is an operator of two rows. -/
theorem operatorRows_pairwise :
    operatorRows.Pairwise fun row tighter => ∀ t, (row.build? t).isSome → tighter.build? t = none := by
  simp only [operatorRows, List.pairwise_cons, List.forall_mem_cons, List.not_mem_nil,
    false_implies, implies_true, List.Pairwise.nil, and_true]
  refine ⟨⟨?_, ?_, ?_, ?_, ?_⟩, ⟨?_, ?_, ?_, ?_⟩, ⟨?_, ?_, ?_⟩, ⟨?_, ?_⟩, ?_⟩ <;> intro t operator <;> cases t with
    | punct p => cases p <;> first | rfl | cases operator
    | ident w => first | rfl | cases operator | grind [orRow, andRow]
    | _ => rfl

theorem not_access_of_operator {row : OperatorRow} (of : row ∈ operatorRows) {t : Token} {build : Expr → Expr → Expr}
    (operator : row.build? t = some build) : t ≠ .punct .dot ∧ t ≠ .punct .openBracket := by
  constructor <;> rintro rfl <;> simp only [operatorRows, List.mem_cons, List.not_mem_nil, or_false] at of <;>
    rcases of with rfl | rfl | rfl | rfl | rfl | rfl <;> cases operator

/-- An operator is one of a single row, so the operands of that row end in front of it. -/
theorem stops_of_operator {row : OperatorRow} {tighter : List OperatorRow} (rows : row :: tighter <:+ operatorRows)
    {t : Token} {build : Expr → Expr → Expr} (operator : row.build? t = some build) (tail : List Token) :
    Stops tighter (t :: tail) := by
  intro t mem
  cases mem
  have apart := List.pairwise_cons.mp (operatorRows_pairwise.sublist rows.sublist)
  obtain ⟨dot, bracket⟩ := not_access_of_operator (rows.subset List.mem_cons_self) operator
  exact ⟨dot, bracket, fun other mem => apart.1 other mem t (by simp [operator])⟩

/-- All phrases but the continuations start with a token of their own, and none that closes a call. -/
def Phrase.starts : Phrase → Bool
  | .chain .. | .accesses .. => false
  | _ => true

theorem Derives.starts {phrase : Phrase} {ts : List Token} (derives : Derives phrase ts)
    (starts : phrase.starts = true) : ∃ t us, ts = t :: us ∧ t ≠ .punct .closeParen := by
  induction derives with
  | unary _ ih => exact ih rfl
  | row _ _ ih _ | postfixed _ _ ih _ | argument _ _ ih _ =>
    obtain ⟨t, us, rfl, other⟩ := ih rfl
    exact ⟨t, _, rfl, other⟩
  | lastArgument _ ih => exact ih rfl
  | chainEnd | chainOnce | chainOn | accessEnd | memberName | memberIndex | index => cases starts
  | _ => exact ⟨_, _, rfl, by simp⟩

/-- What goes on a chain starts with an operator of its row, which ends the tighter expression in front of it. -/
theorem stops_of_chain {row : OperatorRow} {tighter : List OperatorRow} {left e : Expr} {ts tail : List Token}
    (rows : row :: tighter <:+ operatorRows) (more : Derives (.chain row tighter left e) ts)
    (stops : Stops (row :: tighter) tail) : Stops tighter (ts ++ tail) := by
  cases more with
  | chainEnd => exact stops.mono (List.subset_cons_self ..)
  | chainOnce operator => exact stops_of_operator rows operator _
  | chainOn operator => exact stops_of_operator rows operator _

/-- In front of which rests, and with which bounds, the parser takes the tokens of a phrase. -/
def Phrase.IsTaken (ts : List Token) : Phrase → Prop
  | .within rows e => ∀ bound tail, rows <:+ operatorRows → ts.length ≤ bound.length + 1 → Stops rows tail →
      binaryRows (Artifact.unary (expressionWithin bound)) rows (ts ++ tail) = .ok (e, tail)
  | .chain row tighter left e => ∀ bound lim tail, row :: tighter <:+ operatorRows → ts.length ≤ bound.length + 1 →
      ts.length ≤ lim.length → Stops (row :: tighter) tail →
      row.extend (binaryRows (Artifact.unary (expressionWithin bound)) tighter) lim left (ts ++ tail) = .ok (e, tail)
  | .unary e => ∀ bound tail, ts.length ≤ bound.length + 1 → Stops [] tail →
      Artifact.unary (expressionWithin bound) (ts ++ tail) = .ok (e, tail)
  | .primary e => ∀ bound tail, ts.length ≤ bound.length + 1 →
      Artifact.primary (expressionWithin bound) (ts ++ tail) = .ok (e, tail) ∧
        Artifact.unary (expressionWithin bound) (ts ++ tail) = postfixed (expressionWithin bound) (ts ++ tail)
  | .accesses base e => ∀ bound lim tail, ts.length ≤ bound.length + 1 → ts.length ≤ lim.length → Stops [] tail →
      Artifact.accesses (expressionWithin bound) lim base (ts ++ tail) = .ok (e, tail)
  | .arguments es => ∀ bound lim tail, ts.length ≤ bound.length → ts.length ≤ lim.length →
      Artifact.arguments (expressionWithin bound) lim (ts ++ .punct .closeParen :: tail) = .ok (es, tail)

/-- A nested expression has room where there is a bound for each of its tokens. -/
theorem expressionWithin_of_isTaken {e : Expr} {ts : List Token} (bound : List Token) {tail : List Token}
    (derives : Derives (.within operatorRows e) ts) (taken : (Phrase.within operatorRows e).IsTaken ts)
    (fits : ts.length ≤ bound.length) (stops : Stops operatorRows tail) :
    expressionWithin bound (ts ++ tail) = .ok (e, tail) := by
  cases bound with
  | nil =>
    obtain ⟨t, us, rfl, -⟩ := derives.starts rfl
    cases fits
  | cons b bound => exact taken bound tail List.suffix_rfl fits stops

theorem expect_self (p : Punct) (tail : List Token) : expect p (.punct p :: tail) = .ok tail := by
  simp [expect]

theorem primary_of_free {function : String} (free : function ∉ reserved) (inner : Parser Expr) (tokens : List Token) :
    Artifact.primary inner (.ident function :: tokens) = callOf inner function tokens := by
  simp only [reserved, List.mem_cons, not_or] at free
  simp [Artifact.primary, free]

theorem unary_of_free {function : String} (free : function ∉ reserved) (inner : Parser Expr) (tokens : List Token) :
    Artifact.unary inner (.ident function :: tokens) = postfixed inner (.ident function :: tokens) := by
  simp only [reserved, List.mem_cons, not_or] at free
  simp [Artifact.unary, free]

/-- What is closed by this punctuation is read up to it. -/
theorem expressionWithin_closed {e : Expr} {ts : List Token} (bound tail : List Token) {p : Punct}
    (derives : Derives (.within operatorRows e) ts) (taken : (Phrase.within operatorRows e).IsTaken ts)
    (fits : ts.length ≤ bound.length) (closes : closing p = true) :
    expressionWithin bound (ts ++ .punct p :: tail) = .ok (e, .punct p :: tail) :=
  expressionWithin_of_isTaken bound derives taken fits (stops_of_closing closes operatorRows (List.Subset.refl _) tail)

theorem Derives.isTaken {phrase : Phrase} {ts : List Token} (derives : Derives phrase ts) : phrase.IsTaken ts := by
  induction derives with
  | unary operand ih =>
    intro bound tail rows fits stops
    exact ih bound tail fits stops
  | @row row tighter left e ts us operand more ih ihMore =>
    intro bound tail rows fits stops
    rw [List.length_append] at fits
    have tighterRows := (List.suffix_cons row tighter).trans rows
    have first := ih bound (us ++ tail) tighterRows (by omega) (stops_of_chain rows more stops)
    rw [List.append_assoc]
    refine bind_eq_ok.mpr ⟨(left, us ++ tail), first, ?_⟩
    exact ihMore bound (us ++ tail) tail rows (by omega) (by simp) stops
  | @chainEnd row tighter left =>
    intro bound lim tail rows fits room stops
    cases lim with
    | nil => rfl
    | cons l lim =>
      cases tail with
      | nil => rfl
      | cons t tail =>
        obtain ⟨-, -, none⟩ := stops t rfl
        simp [OperatorRow.extend, none row List.mem_cons_self]
  | @chainOnce row tighter left right t ts build operator once operand ih =>
    intro bound lim tail rows fits room stops
    cases lim with
    | nil => cases room
    | cons l lim =>
      have tighterRows := (List.suffix_cons row tighter).trans rows
      rw [List.length_cons] at fits
      have taken := ih bound tail tighterRows (by omega) (stops.mono (List.subset_cons_self ..))
      rw [List.cons_append]
      unfold OperatorRow.extend
      rw [operator]
      exact bind_eq_ok.mpr ⟨(right, tail), taken, by simp [once]⟩
  | @chainOn row tighter left right e t ts us build operator chains operand more ih ihMore =>
    intro bound lim tail rows fits room stops
    cases lim with
    | nil => cases room
    | cons l lim =>
      simp only [List.length_cons, List.length_append] at fits room
      have tighterRows := (List.suffix_cons row tighter).trans rows
      have taken := ih bound (us ++ tail) tighterRows (by omega) (stops_of_chain rows more stops)
      have rest := ihMore bound lim tail rows (by omega) (by omega) stops
      rw [List.cons_append, List.append_assoc]
      unfold OperatorRow.extend
      rw [operator]
      exact bind_eq_ok.mpr ⟨(right, us ++ tail), taken, by simpa [chains] using rest⟩
  | @bang e ts operand ih | @minus e ts operand ih =>
    intro bound tail fits stops
    rw [List.length_cons] at fits
    exact bind_eq_ok.mpr ⟨(e, tail), ih bound tail (by omega) stops, rfl⟩
  | @notWord e ts operand ih =>
    intro bound tail fits stops
    rw [List.length_cons] at fits
    exact bind_eq_ok.mpr ⟨(e, tail), ih bound tail (by omega) stops, rfl⟩
  | @postfixed base e ts us head more ih ihMore =>
    intro bound tail fits stops
    rw [List.length_append] at fits
    obtain ⟨taken, same⟩ := ih bound (us ++ tail) (by omega)
    rw [List.append_assoc, same]
    refine bind_eq_ok.mpr ⟨(base, us ++ tail), taken, ?_⟩
    exact ihMore bound (us ++ tail) tail (by omega) (by simp) stops
  | var | int | float | str | trueWord | falseWord | nullWord =>
    intro bound tail fits
    exact ⟨rfl, rfl⟩
  | @grouped e ts inner ih =>
    intro bound tail fits
    simp only [List.length_cons, List.length_append, List.length_nil] at fits
    have stops := stops_of_closing (p := .closeParen) rfl operatorRows (List.Subset.refl _) tail
    have taken := expressionWithin_of_isTaken bound inner ih (by omega) stops
    refine ⟨?_, rfl⟩
    rw [List.cons_append, List.append_assoc]
    exact bind_eq_ok.mpr ⟨_, taken, by simp [expect_self]; rfl⟩
  | @callNone function free =>
    intro bound tail fits
    exact ⟨primary_of_free free _ _, unary_of_free free _ _⟩
  | @call function es ts free args ih =>
    intro bound tail fits
    simp only [List.length_cons, List.length_append, List.length_nil] at fits
    have taken := ih bound (ts ++ .punct .closeParen :: tail) tail (by omega) (by simp)
    obtain ⟨t, us, rfl, other⟩ := args.starts rfl
    have order : (.ident function :: .punct .openParen :: (t :: us ++ [.punct .closeParen])) ++ tail =
        .ident function :: .punct .openParen :: t :: (us ++ .punct .closeParen :: tail) := by simp
    rw [order]
    refine ⟨(primary_of_free free _ _).trans ?_, unary_of_free free _ _⟩
    refine bind_eq_ok.mpr ⟨_, expect_self .openParen _, ?_⟩
    split
    · rename_i same
      cases same
      exact absurd rfl other
    · exact bind_eq_ok.mpr ⟨(es, tail), taken, rfl⟩
  | accessEnd =>
    intro bound lim tail fits room stops
    unfold accesses
    split
    · rename_i same
      cases same
      exact absurd rfl (stops _ rfl).1
    · rename_i same
      cases same
      exact absurd rfl (stops _ rfl).2.1
    · rfl
  | @memberName base e key ts more ih =>
    intro bound lim tail fits room stops
    rw [List.length_cons, List.length_cons] at fits room
    cases lim with
    | nil => cases room
    | cons l lim => exact ih bound lim tail (by omega) (by simp at room; omega) stops
  | @memberIndex base e i ts more ih =>
    intro bound lim tail fits room stops
    rw [List.length_cons, List.length_cons] at fits room
    cases lim with
    | nil => cases room
    | cons l lim => exact ih bound lim tail (by omega) (by simp at room; omega) stops
  | @index base key e ts us inner more ih ihMore =>
    intro bound lim tail fits room stops
    simp only [List.length_cons, List.length_append] at fits room
    cases lim with
    | nil => cases room
    | cons l lim =>
      simp only [List.length_cons] at room
      have taken := expressionWithin_closed bound (us ++ tail) inner ih (by omega) (p := .closeBracket) rfl
      have rest := ihMore bound lim tail (by omega) (by omega) stops
      rw [List.cons_append, List.append_assoc]
      refine bind_eq_ok.mpr ⟨_, taken, ?_⟩
      exact bind_eq_ok.mpr ⟨_, expect_self .closeBracket _, rest⟩
  | @lastArgument e ts inner ih =>
    intro bound lim tail fits room
    obtain ⟨t, us, rfl, -⟩ := inner.starts rfl
    cases lim with
    | nil => cases room
    | cons l lim =>
      exact bind_eq_ok.mpr ⟨_, expressionWithin_closed bound tail inner ih fits (p := .closeParen) rfl, rfl⟩
  | @argument e es ts us inner more ih ihMore =>
    intro bound lim tail fits room
    simp only [List.length_cons, List.length_append] at fits room
    cases lim with
    | nil =>
      rw [List.length_nil] at room
      omega
    | cons l lim =>
      simp only [List.length_cons] at room
      have taken := expressionWithin_closed bound (us ++ .punct .closeParen :: tail) inner ih (by omega)
        (p := .comma) rfl
      have rest := ihMore bound lim tail (by omega) (by omega)
      rw [List.append_assoc]
      refine bind_eq_ok.mpr ⟨_, taken, ?_⟩
      refine bind_eq_ok.mpr ⟨_, expect_self .comma _, ?_⟩
      exact bind_eq_ok.mpr ⟨(es, tail), rest, rfl⟩

/-- Tokens that are an expression are read as that expression, whatever follows them that does not go on with it. -/
theorem Denotes.expressionWithin {e : Expr} {ts bound tail : List Token} (denotes : Denotes ts e)
    (fits : ts.length ≤ bound.length) (stops : Stops operatorRows tail) :
    Artifact.expressionWithin bound (ts ++ tail) = .ok (e, tail) :=
  expressionWithin_of_isTaken bound denotes denotes.isTaken fits stops

theorem Denotes.expression {e : Expr} {ts tail : List Token} (denotes : Denotes ts e)
    (stops : Stops operatorRows tail) : Artifact.expression (ts ++ tail) = .ok (e, tail) :=
  denotes.expressionWithin (by simp) stops

/-- Punctuation that cannot go on with it ends an expression. -/
theorem Denotes.expression_closed {e : Expr} {ts tail : List Token} {p : Punct} (denotes : Denotes ts e)
    (closes : closing p = true) : Artifact.expression (ts ++ .punct p :: tail) = .ok (e, .punct p :: tail) :=
  denotes.expression (stops_of_closing closes operatorRows (List.Subset.refl _) tail)

end Completeness

end Stencil.Artifact
