import Stencil.Proofs.Artifact.Grammar
import Stencil.Proofs.Artifact.Scanning
import Stencil.Proofs.Decimal.Digits

/-!
Printing expressions. An expression is printed as tokens with single spaces between them; an operand stands in
parentheses at least where it binds less tightly than its place asks for. Whatever other parentheses are printed,
the parser reads the same expression back.
-/
namespace Stencil.Artifact

/-! ### Tokens as text -/

/-- A letter, then letters and digits; the underscore counts as a letter. -/
def isIdentifier (name : String) : Bool :=
  match name.toList with
  | [] => false
  | c :: rest => isLetter c && rest.all isWordChar

/-- The text that is read as this token. Numbers with a point have none here. -/
def Token.written : Token → List Char
  | .var name => '$' :: name.toList
  | .ident name => name.toList
  | .int i => Decimal.ofInt64 i
  | .str s => Text.quoted s.toList
  | .punct p => p.text.toList
  | .float _ | .text _ | .fragmentEnd => []

/-- Tokens inside a fragment whose text stands for them. -/
def Token.plain : Token → Bool
  | .var name | .ident name => isIdentifier name
  | .int i => 0 ≤ i
  | .str _ | .punct _ => true
  | .float _ | .text _ | .fragmentEnd => false

/-- Tokens with single spaces between them. -/
def spaced (tokens : List Token) : List Char := [' '].intercalate (tokens.map Token.written)

theorem exists_of_isIdentifier {name : String} (h : isIdentifier name = true) :
    ∃ c rest, name.toList = c :: rest ∧ isLetter c = true ∧ ∀ d ∈ c :: rest, isWordChar d = true := by
  unfold isIdentifier at h
  split at h
  · cases h
  · rename_i c rest same
    rw [Bool.and_eq_true, List.all_eq_true] at h
    refine ⟨c, rest, same, h.1, ?_⟩
    intro d mem
    rcases List.mem_cons.mp mem with rfl | mem
    · exact isWordChar_of_isLetter h.1
    · exact h.2 d mem

theorem spanIdentifier_of_isIdentifier {name : String} (h : isIdentifier name = true) {rest : List Char}
    (bar : Bars isWordChar rest) : spanIdentifier (name.toList ++ rest) = (name.toList, rest) := by
  obtain ⟨c, more, same, letter, word⟩ := exists_of_isIdentifier h
  rw [same]
  have parts := span_append word bar
  simpa [spanIdentifier, letter] using parts

theorem scanString_quoted (s rest : List Char) :
    scanString '\'' (s.flatMap Text.quotedChar ++ '\'' :: rest) = some (s, rest) := by
  induction s with
  | nil => simp [scanString_cons]
  | cons c s ih =>
    by_cases special : c = '\'' ∨ c = '\\'
    · have same : unescaped c = c := by rcases special with rfl | rfl <;> rfl
      simp [Text.quotedChar, special, scanString, ih, same]
    · have escapes : Text.quotedChar c = [c] := if_neg special
      simp only [not_or] at special
      simp [escapes, scanString_cons _ special.2, special.1, ih]

theorem exists_toDigits (n : Nat) :
    ∃ c s, Nat.toDigits 10 n = c :: s ∧ ∀ d ∈ c :: s, Decimal.isDigit d = true := by
  have digits := fun d => Decimal.isDigit_of_mem_toDigits (n := n) (c := d)
  cases parts : Nat.toDigits 10 n with
  | nil =>
    have some := Nat.length_toDigits_pos (b := 10) (n := n)
    simp [parts] at some
  | cons c s => exact ⟨c, s, rfl, parts ▸ digits⟩

/-- Visible characters of ASCII. -/
theorem not_blank_of_range {c : Char} (low : 32 < c.toNat) (high : c.toNat < 127) : Text.isBlank c = false := by
  simp only [Text.isBlank, Bool.or_eq_false_iff, Bool.and_eq_false_iff, decide_eq_false_iff_not, beq_eq_false_iff_ne]
  omega

theorem range_of_isLetter {c : Char} (letter : isLetter c = true) : 64 < c.toNat ∧ c.toNat < 127 := by
  rw [isLetter, Bool.or_eq_true, beq_iff_eq] at letter
  rcases letter with alpha | rfl
  · rcases Bool.or_eq_true_iff.mp alpha with upper | lower
    · have range : 65 ≤ c.toNat ∧ c.toNat ≤ 90 := of_decide_eq_true upper
      omega
    · have split : (decide (97 ≤ c.toNat) && decide (c.toNat ≤ 122)) = true := lower
      rw [Bool.and_eq_true, decide_eq_true_eq, decide_eq_true_eq] at split
      omega
  · decide

theorem range_of_isDigit {c : Char} (digit : Decimal.isDigit c = true) : 47 < c.toNat ∧ c.toNat < 58 := by
  unfold Decimal.isDigit at digit
  rw [Bool.and_eq_true, decide_eq_true_eq, decide_eq_true_eq] at digit
  have low : 48 ≤ c.toNat := digit.1
  have high : c.toNat ≤ 57 := digit.2
  omega

/-- No other kind of token starts like punctuation. -/
theorem exists_punct_text (p : Punct) : ∃ c more, p.text.toList = c :: more ∧ Text.isBlank c = false ∧ c ≠ '$' ∧
    ¬ isLetter c = true ∧ ¬ Decimal.isDigit c = true ∧ ¬ (c = '\'' ∨ c = '"') := by
  cases p <;> exact ⟨_, _, rfl, by decide, by decide, by decide, by decide, by decide⟩

/-- The text of a token is scanned as the token where it may end. -/
theorem scans_written {t : Token} (plain : t.plain = true) {rest : List Char} (ends : t.EndsBefore rest) :
    Scans (t.written ++ rest) [t] rest := by
  cases t with
  | var name =>
    obtain ⟨c, more, same, -, -⟩ := exists_of_isIdentifier plain
    have parts := spanIdentifier_of_isIdentifier plain ends
    have read := scanToken_variable (by simp [same]) parts
    rw [String.ofList_toList] at read
    exact .token (by decide) read (.done rest)
  | ident name =>
    obtain ⟨c, more, same, letter, -⟩ := exists_of_isIdentifier plain
    obtain ⟨low, high⟩ := range_of_isLetter letter
    have parts := spanIdentifier_of_isIdentifier plain ends
    rw [same] at parts
    have dollar : c ≠ '$' := by
      rintro rfl
      exact absurd low (by decide)
    have read := scanToken_word letter dollar parts
    rw [← same, String.ofList_toList] at read
    change Scans (name.toList ++ rest) _ _
    rw [same]
    exact .token (not_blank_of_range (by omega) high) read (.done rest)
  | int i =>
    have positive : ¬ i.toInt < 0 := by
      have := Int64.le_iff_toInt_le.mp (of_decide_eq_true plain)
      exact Int.not_lt.mpr this
    obtain ⟨c, more, same, digits⟩ := exists_toDigits i.toInt.natAbs
    have digit := digits c List.mem_cons_self
    obtain ⟨low, high⟩ := range_of_isDigit digit
    have letter : ¬ isLetter c = true := fun letter => by
      have := (range_of_isLetter letter).1
      omega
    have dollar : c ≠ '$' := by
      rintro rfl
      exact absurd low (by decide)
    have read := scanNumber_whole digits ends
    rw [← same, Decimal.value_toDigits, Int.natAbs_of_nonneg (by omega), Decimal.int64?_toInt, same] at read
    change Scans (Decimal.ofInt64 i ++ rest) _ _
    rw [Decimal.ofInt64, if_neg positive, same]
    exact .token (not_blank_of_range (by omega) (by omega)) ((scanToken_number dollar letter digit _).trans read)
      (.done rest)
  | str s =>
    have read := scanToken_quoted (c := '\'') (by decide) (by decide) (by decide) (by decide)
      (s.toList.flatMap Text.quotedChar ++ '\'' :: rest)
    rw [scanString_quoted] at read
    simp only [String.ofList_toList] at read
    have order : Text.quoted s.toList ++ rest = '\'' :: (s.toList.flatMap Text.quotedChar ++ '\'' :: rest) := by
      simp [Text.quoted]
    change Scans (Text.quoted s.toList ++ rest) _ _
    rw [order]
    exact .token (by decide) read (.done rest)
  | punct p =>
    obtain ⟨c, more, same, ink, dollar, letter, digit, quote⟩ := exists_punct_text p
    have found := scanPunct_text ends
    have read := scanToken_mark dollar letter digit quote (more ++ rest)
    rw [same, List.cons_append] at found
    rw [found] at read
    change Scans (p.text.toList ++ rest) _ _
    rw [same]
    exact .token ink read (.done rest)
  | float | text | fragmentEnd => cases plain

theorem scans_spaced {tokens : List Token} (plain : tokens.all Token.plain = true) (rest : List Char) :
    Scans (spaced tokens ++ ' ' :: rest) tokens (' ' :: rest) := by
  have ends : ∀ t : Token, t.EndsBefore (' ' :: rest) := fun t => endsBefore_of_endsAll t (by decide) rest
  induction tokens with
  | nil => exact .done _
  | cons t tokens ih =>
    rw [List.all_cons, Bool.and_eq_true] at plain
    obtain ⟨first, later⟩ := plain
    cases tokens with
    | nil => simpa [spaced] using scans_written first (ends t)
    | cons u tokens =>
      have order : spaced (t :: u :: tokens) ++ ' ' :: rest =
          t.written ++ ' ' :: (spaced (u :: tokens) ++ ' ' :: rest) := by
        simp [spaced, List.intercalate]
      rw [order]
      have read := scans_written first (endsBefore_of_endsAll t (by decide : endsAll ' ' = true)
        (spaced (u :: tokens) ++ ' ' :: rest))
      exact read.append (.blank (by decide) (ih later))

/-! ### Expressions as tokens -/

def BinaryOp.punct : BinaryOp → Punct
  | .add => .plus
  | .sub => .minus
  | .mul => .star
  | .div => .slash
  | .mod => .percent
  | .concat => .tilde
  | .eq => .equal
  | .ne => .notEqual
  | .lt => .less
  | .le => .lessEqual
  | .gt => .greater
  | .ge => .greaterEqual

/-- The rows of operators are numbered from the loosest on. -/
def BinaryOp.level : BinaryOp → Nat
  | .eq | .ne | .lt | .le | .gt | .ge => 2
  | .concat => 3
  | .add | .sub => 4
  | .mul | .div | .mod => 5

/-- How tightly the left operand must bind: as tightly as the operator itself, and more so for comparisons. -/
def BinaryOp.leftLevel (op : BinaryOp) : Nat := if op.level = 2 then 3 else op.level

/-- How tightly an expression binds: its row, or beyond all rows 6 for a unary operator, 7 for everything else. -/
def Expr.level : Expr → Nat
  | .or .. => 0
  | .and .. => 1
  | .binary op .. => op.level
  | .not _ | .neg _ => 6
  | _ => 7

/-- Which operands are printed in parentheses: at least those that bind too loosely for their place. -/
structure Wrapping where
  wraps : (level : Nat) → Expr → Bool
  enough : ∀ level e, e.level < level → wraps level e = true

namespace Wrapping

/-- Parentheses where they are needed and nowhere else. -/
def least : Wrapping where
  wraps level e := e.level < level
  enough _ _ looser := decide_eq_true looser

/-- Parentheses around every operand. -/
def full : Wrapping where
  wraps _ _ := true
  enough _ _ _ := rfl

/-- The tokens of an operand, given those of the expression. -/
def around (w : Wrapping) (level : Nat) (e : Expr) (tokens : List Token) : List Token :=
  if w.wraps level e then .punct .openParen :: (tokens ++ [.punct .closeParen]) else tokens

end Wrapping

/-- The number that a member is named by. -/
def keyNumber (key : String) : Int64 := (Decimal.int64? (Decimal.value key.toList)).getD 0

def memberToken (key : String) : Token := if isIdentifier key then .ident key else .int (keyNumber key)

mutual

def Expr.tokens (w : Wrapping) : Expr → List Token
  | .lit .null => [.ident "null"]
  | .lit (.bool b) => [.ident (if b then "true" else "false")]
  | .lit (.int i) => [.int i]
  | .lit (.float x) => [.float x]
  | .lit (.str s) => [.str s]
  | .lit (.list _) | .lit (.map _) => []
  | .var name => [.var name]
  | .member base key => w.around 7 base (base.tokens w) ++ [.punct .dot, memberToken key]
  | .index base key =>
    w.around 7 base (base.tokens w) ++
      .punct .openBracket :: (w.around 0 key (key.tokens w) ++ [.punct .closeBracket])
  | .not e => .punct .bang :: w.around 6 e (e.tokens w)
  | .neg e => .punct .minus :: w.around 6 e (e.tokens w)
  | .binary op left right =>
    w.around op.leftLevel left (left.tokens w) ++
      .punct op.punct :: w.around (op.level + 1) right (right.tokens w)
  | .and left right => w.around 1 left (left.tokens w) ++ .punct .andAnd :: w.around 2 right (right.tokens w)
  | .or left right => w.around 0 left (left.tokens w) ++ .punct .orOr :: w.around 1 right (right.tokens w)
  | .call function args =>
    .ident function :: .punct .openParen :: (argumentTokens w args ++ [.punct .closeParen])

def argumentTokens (w : Wrapping) : List Expr → List Token
  | [] => []
  | [e] => w.around 0 e (e.tokens w)
  | e :: es => w.around 0 e (e.tokens w) ++ .punct .comma :: argumentTokens w es

end

/-- An expression as text. -/
def Expr.printed (w : Wrapping) (e : Expr) : String := String.ofList (spaced (w.around 0 e (e.tokens w)))

mutual

/-- An expression of the artifact language that can be written down. A negative number is the negation of another
one, numbers with a point are left out, and lists and maps have no literals. -/
def Expr.printable : Expr → Bool
  | .lit .null | .lit (.bool _) | .lit (.str _) => true
  | .lit (.int i) => 0 ≤ i
  | .lit (.float _) | .lit (.list _) | .lit (.map _) => false
  | .var name => isIdentifier name
  | .member base key =>
    base.printable && (isIdentifier key || (0 ≤ keyNumber key && key.toList == Decimal.ofInt64 (keyNumber key)))
  | .index base key => base.printable && key.printable
  | .not e | .neg e => e.printable
  | .binary _ left right | .and left right | .or left right => left.printable && right.printable
  | .call function args => isIdentifier function && function ∉ reserved && listPrintable args

def listPrintable : List Expr → Bool
  | [] => true
  | e :: es => e.printable && listPrintable es

end

/-! ### What is printed is derived -/

/-- The tokens are an operand with accesses behind it. -/
def Postfixed (e : Expr) (ts : List Token) : Prop :=
  ∃ base us vs, ts = us ++ vs ∧ Derives (.primary base) us ∧ Derives (.accesses base e) vs

/-- The tokens may stand where an expression must bind that tightly. -/
def Stands (level : Nat) (e : Expr) (ts : List Token) : Prop :=
  if level < 7 then Derives (.within (operatorRows.drop level) e) ts else Postfixed e ts

theorem Postfixed.of_primary {e : Expr} {ts : List Token} (head : Derives (.primary e) ts) : Postfixed e ts :=
  ⟨e, ts, [], by simp, head, .accessEnd e⟩

theorem Postfixed.access {base e : Expr} {ts us : List Token} (first : Postfixed base ts)
    (more : Derives (.accesses base e) us) : Postfixed e (ts ++ us) := by
  obtain ⟨head, vs, ws, rfl, derives, rest⟩ := first
  exact ⟨head, vs, ws ++ us, by simp, derives, rest.accesses_append more⟩

theorem Stands.lower {level lower : Nat} {e : Expr} {ts : List Token} (stands : Stands level e ts)
    (le : lower ≤ level) : Stands lower e ts := by
  unfold Stands at stands ⊢
  by_cases postfixed : lower < 7
  · rw [if_pos postfixed]
    split at stands
    · exact stands.loosen (List.drop_suffix_drop_left operatorRows le)
    · obtain ⟨head, us, vs, rfl, derives, rest⟩ := stands
      exact (Derives.unary (.postfixed derives rest)).loosen (List.nil_suffix)
  · rw [if_neg (by omega)] at stands
    rw [if_neg postfixed]
    exact stands

theorem stands_unary_iff {e : Expr} {ts : List Token} : Stands 6 e ts ↔ Derives (.unary e) ts := by
  constructor
  · intro stands
    have within : Derives (.within [] e) ts := stands
    cases within with
    | unary operand => exact operand
  · intro operand
    exact Derives.unary operand

theorem Stands.around {e : Expr} {ts : List Token} (w : Wrapping) (level : Nat) (stands : Stands e.level e ts)
    (le : level ≤ 7) : Stands level e (w.around level e ts) := by
  unfold Wrapping.around
  split
  · have inner : Stands 0 e ts := stands.lower (Nat.zero_le _)
    have grouped : Stands 7 e (.punct .openParen :: (ts ++ [.punct .closeParen])) := .of_primary (.grouped inner)
    exact grouped.lower le
  · rename_i bare
    have tight : ¬ e.level < level := fun looser => bare (w.enough level e looser)
    exact stands.lower (Nat.not_lt.mp tight)

/-- The operators of a row with a number. -/
theorem BinaryOp.build? (op : BinaryOp) : ∃ row tighter, operatorRows.drop op.level = row :: tighter ∧
    operatorRows.drop (op.level + 1) = tighter ∧ row.build? (.punct op.punct) = some (.binary op) ∧
    (row.chains = true ∧ op.leftLevel = op.level ∨ row.chains = false ∧ op.leftLevel = op.level + 1) := by
  cases op <;> exact ⟨_, _, rfl, rfl, rfl, by decide⟩

theorem Stands.binary {op : BinaryOp} {left right : Expr} {ts us : List Token} (first : Stands op.leftLevel left ts)
    (last : Stands (op.level + 1) right us) :
    Stands op.level (.binary op left right) (ts ++ .punct op.punct :: us) := by
  have small : op.level < 6 := by cases op <;> decide
  have left_small : op.leftLevel < 7 := by cases op <;> decide
  obtain ⟨row, tighter, rows, rest, operator, kind⟩ := op.build?
  unfold Stands at *
  rw [if_pos (by omega)] at *
  rw [rows]
  rw [rest] at last
  rcases kind with ⟨chains, same⟩ | ⟨once, same⟩
  · rw [same, rows] at first
    exact first.chainLeft operator chains last
  · rw [same, rest] at first
    exact .row first (.chainOnce operator once last)

theorem memberToken_accesses (base : Expr) {key : String}
    (names : (isIdentifier key || (0 ≤ keyNumber key && key.toList == Decimal.ofInt64 (keyNumber key))) = true) :
    Derives (.accesses base (.member base key)) [.punct .dot, memberToken key] := by
  unfold memberToken
  split
  · exact .memberName (.accessEnd _)
  · rename_i word
    have same : key = String.ofList (Decimal.ofInt64 (keyNumber key)) := by
      simp only [word, Bool.false_or, Bool.and_eq_true, beq_iff_eq] at names
      rw [← names.2, String.ofList_toList]
    have more : Derives (.accesses base (.member base (String.ofList (Decimal.ofInt64 (keyNumber key)))))
        [.punct .dot, .int (keyNumber key)] := .memberIndex (.accessEnd _)
    rwa [← same] at more

mutual

theorem Expr.tokens_stand (w : Wrapping) (e : Expr) (printable : e.printable = true) :
    Stands e.level e (e.tokens w) := by
  cases e with
  | lit v =>
    cases v with
    | null => exact .of_primary .nullWord
    | bool b =>
      cases b with
      | true => exact .of_primary .trueWord
      | false => exact .of_primary .falseWord
    | int i => exact .of_primary (.int i)
    | str s => exact .of_primary (.str s)
    | float | list | map => simp [Expr.printable] at printable
  | var name => exact .of_primary (.var name)
  | member base key =>
    simp only [Expr.printable, Bool.and_eq_true] at printable
    have first := (Expr.tokens_stand w base printable.1).around w 7 (by omega)
    exact Postfixed.access first (memberToken_accesses base printable.2)
  | index base key =>
    simp only [Expr.printable, Bool.and_eq_true] at printable
    have first := (Expr.tokens_stand w base printable.1).around w 7 (by omega)
    have inner := (Expr.tokens_stand w key printable.2).around w 0 (by omega)
    exact Postfixed.access first (.index inner (.accessEnd _))
  | not e =>
    have operand := (Expr.tokens_stand w e printable).around w 6 (by omega)
    exact stands_unary_iff.mpr (.bang (stands_unary_iff.mp operand))
  | neg e =>
    have operand := (Expr.tokens_stand w e printable).around w 6 (by omega)
    exact stands_unary_iff.mpr (.minus (stands_unary_iff.mp operand))
  | binary op left right =>
    simp only [Expr.printable, Bool.and_eq_true] at printable
    have small : op.leftLevel ≤ 7 ∧ op.level + 1 ≤ 7 := by cases op <;> decide
    have first := (Expr.tokens_stand w left printable.1).around w _ small.1
    have last := (Expr.tokens_stand w right printable.2).around w _ small.2
    exact first.binary last
  | and left right =>
    simp only [Expr.printable, Bool.and_eq_true] at printable
    have first := (Expr.tokens_stand w left printable.1).around w 1 (by omega)
    have last := (Expr.tokens_stand w right printable.2).around w 2 (by omega)
    have operator : andRow.build? (.punct .andAnd) = some .and := rfl
    exact Derives.chainLeft first operator rfl last
  | or left right =>
    simp only [Expr.printable, Bool.and_eq_true] at printable
    have first := (Expr.tokens_stand w left printable.1).around w 0 (by omega)
    have last := (Expr.tokens_stand w right printable.2).around w 1 (by omega)
    have operator : orRow.build? (.punct .orOr) = some .or := rfl
    exact Derives.chainLeft first operator rfl last
  | call function args =>
    simp only [Expr.printable, Bool.and_eq_true, decide_eq_true_eq] at printable
    obtain ⟨⟨-, free⟩, each⟩ := printable
    have derived := argumentTokens_derived w args each
    cases args with
    | nil => exact .of_primary (.callNone free)
    | cons arg args => exact .of_primary (.call free (derived (List.cons_ne_nil _ _)))

theorem argumentTokens_derived (w : Wrapping) (es : List Expr) (printable : listPrintable es = true)
    (some : es ≠ []) : Derives (.arguments es) (argumentTokens w es) := by
  cases es with
  | nil => exact absurd rfl some
  | cons e es =>
    simp only [listPrintable, Bool.and_eq_true] at printable
    have first := (Expr.tokens_stand w e printable.1).around w 0 (by omega)
    have derived := argumentTokens_derived w es printable.2
    cases es with
    | nil => exact .lastArgument first
    | cons e' es => exact .argument first (derived (List.cons_ne_nil _ _))

end

theorem Token.plain_punct (p : Punct) : (Token.punct p).plain = true := rfl

theorem plain_around (w : Wrapping) (level : Nat) (e : Expr) {tokens : List Token}
    (plain : tokens.all Token.plain = true) : (w.around level e tokens).all Token.plain = true := by
  unfold Wrapping.around
  split
  · simp [plain, Token.plain_punct]
  · exact plain

theorem memberToken_plain {key : String}
    (names : (isIdentifier key || (0 ≤ keyNumber key && key.toList == Decimal.ofInt64 (keyNumber key))) = true) :
    (memberToken key).plain = true := by
  unfold memberToken
  split
  · assumption
  · rename_i word
    simp only [word, Bool.false_or, Bool.and_eq_true] at names
    exact names.1

mutual

theorem Expr.tokens_plain (w : Wrapping) (e : Expr) (printable : e.printable = true) :
    (e.tokens w).all Token.plain = true := by
  cases e with
  | lit v =>
    cases v with
    | null =>
      change [Token.ident "null"].all _ = true
      decide
    | bool b =>
      change [Token.ident (if b then "true" else "false")].all _ = true
      cases b <;> decide
    | int i => simpa [Expr.tokens, Token.plain, Expr.printable] using printable
    | str s => rfl
    | float | list | map => simp [Expr.printable] at printable
  | var name => simpa [Expr.tokens, Token.plain, Expr.printable] using printable
  | member base key =>
    simp only [Expr.printable, Bool.and_eq_true] at printable
    have first := plain_around w 7 base (Expr.tokens_plain w base printable.1)
    simp [Expr.tokens, first, Token.plain_punct, memberToken_plain printable.2]
  | index base key =>
    simp only [Expr.printable, Bool.and_eq_true] at printable
    have first := plain_around w 7 base (Expr.tokens_plain w base printable.1)
    have inner := plain_around w 0 key (Expr.tokens_plain w key printable.2)
    simp [Expr.tokens, first, inner, Token.plain_punct]
  | not e | neg e =>
    have operand := plain_around w 6 e (Expr.tokens_plain w e printable)
    simp [Expr.tokens, operand, Token.plain_punct]
  | binary op left right | and left right | or left right =>
    simp only [Expr.printable, Bool.and_eq_true] at printable
    have first := Expr.tokens_plain w left printable.1
    have last := Expr.tokens_plain w right printable.2
    simp [Expr.tokens, plain_around, first, last, Token.plain_punct]
  | call function args =>
    simp only [Expr.printable, Bool.and_eq_true, decide_eq_true_eq] at printable
    obtain ⟨⟨word, -⟩, each⟩ := printable
    have name : (Token.ident function).plain = true := word
    simp [Expr.tokens, name, argumentTokens_plain w args each, Token.plain_punct]

theorem argumentTokens_plain (w : Wrapping) (es : List Expr) (printable : listPrintable es = true) :
    (argumentTokens w es).all Token.plain = true := by
  cases es with
  | nil => rfl
  | cons e es =>
    simp only [listPrintable, Bool.and_eq_true] at printable
    have first := plain_around w 0 e (Expr.tokens_plain w e printable.1)
    have rest := argumentTokens_plain w es printable.2
    cases es with
    | nil => exact first
    | cons e' es => simp [argumentTokens, first, rest, Token.plain_punct]

end

/-! ### Reading back what is printed -/

theorem Expr.printed_denotes (w : Wrapping) {e : Expr} (printable : e.printable = true) :
    Denotes (w.around 0 e (e.tokens w)) e :=
  (e.tokens_stand w printable).around w 0 (Nat.zero_le _)

/-- A text that is scanned as an expression is read as that expression. -/
theorem Expr.parse_of_denotes {s : String} {ts : List Token} {e : Expr}
    (scans : Scans (s.toList ++ [' ', '?', '>']) ts ['?', '>']) (denotes : Denotes ts e) : Expr.parse s = .ok e := by
  have scanned := (scanFragment_iff _ (ts ++ [.fragmentEnd]) []).mpr ⟨ts, rfl, scans⟩
  have read := denotes.expression (Stops.nil operatorRows)
  rw [List.append_nil] at read
  unfold Expr.parse
  rw [scanned]
  simp [bind, Except.bind, read]

theorem Expr.scans_printed (w : Wrapping) {e : Expr} (printable : e.printable = true) :
    Scans ((e.printed w).toList ++ [' ', '?', '>']) (w.around 0 e (e.tokens w)) ['?', '>'] := by
  have read := scans_spaced (plain_around w 0 e (e.tokens_plain w printable)) ['?', '>']
  have ended : Scans (' ' :: ['?', '>']) [] ['?', '>'] := .blank (by decide) (.done _)
  simpa [Expr.printed] using read.append ended

/-- Printed with parentheses only where the order of the operators requires them, an expression is read back as
it was. -/
theorem Expr.parse_printed (e : Expr) (printable : e.printable = true) : Expr.parse (e.printed .least) = .ok e :=
  Expr.parse_of_denotes (e.scans_printed .least printable) (e.printed_denotes .least printable)

/-- Operators of all kinds, some of them where they need parentheses. -/
def mixedExpr : Expr :=
  .and
    (.binary .eq (.neg (.index (.member (.var "row") "3") (.lit (.str "it's"))))
      (.binary .sub (.lit (.int 1)) (.binary .sub (.lit (.int 2)) (.call "and" [.lit .null, .not (.var "b")]))))
    (.not (.or (.member (.var "a") "or") (.lit (.bool true))))

theorem Expr.parse_printed_mixed : mixedExpr.printable = true ∧
    mixedExpr.printed .least = "- $row . 3 [ 'it\\'s' ] == 1 - ( 2 - and ( null , ! $b ) ) && ! ( $a . or || true )" ∧
    Expr.parse (mixedExpr.printed .least) = .ok mixedExpr :=
  ⟨by decide +kernel, by decide +kernel, mixedExpr.parse_printed (by decide +kernel)⟩

end Stencil.Artifact
