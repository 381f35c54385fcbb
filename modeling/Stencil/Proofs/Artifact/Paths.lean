import Stencil.Proofs.Artifact.Printing

/-!
Member paths: a variable and the keys of members nested in each other, each key behind a point and nothing else
between them. A path is read as the nested accesses, unless two places of lists follow each other: their digits and
the point between them are a number with a fraction, which is no key.
-/
namespace Stencil.Artifact

/-- The key of a member as it may stand behind a point: a name, or a place in a list. -/
inductive MemberKey where
  | name (word : String) (isName : isIdentifier word = true)
  | place (i : Int64) (natural : 0 ≤ i)

structure MemberPath where
  root : String
  isName : isIdentifier root = true
  keys : List MemberKey

namespace MemberKey

def text : MemberKey → String
  | name word _ => word
  | place i _ => String.ofList (Decimal.ofInt64 i)

def token : MemberKey → Token
  | name word _ => .ident word
  | place i _ => .int i

end MemberKey

/-- Points and keys, without a blank. -/
def dotted (keys : List MemberKey) : List Char := keys.flatMap fun key => '.' :: key.text.toList

/-- The members under the keys, one nested in the other. -/
def nested (base : Expr) (keys : List MemberKey) : Expr := keys.foldl (fun e key => .member e key.text) base

/-- The first two places that follow each other. -/
def adjacent? : List MemberKey → Option (Int64 × Int64)
  | .place i _ :: .place j _ :: _ => some (i, j)
  | _ :: keys => adjacent? keys
  | [] => none

namespace MemberPath

def text (p : MemberPath) : String := String.ofList ('$' :: p.root.toList ++ dotted p.keys)

def expr (p : MemberPath) : Expr := nested (.var p.root) p.keys

end MemberPath

/-- The number that two places and the point between them are read as. -/
def pointed (i j : Int64) : Float :=
  Decimal.nearestDecimal false (Decimal.value (Decimal.ofInt64 i ++ Decimal.ofInt64 j))
    (-((Decimal.ofInt64 j).length : Int))

/-- What is scanned for points and keys. -/
def dottedTokens : List MemberKey → List Token
  | .place i _ :: .place j _ :: keys => .punct .dot :: .float (pointed i j) :: dottedTokens keys
  | key :: keys => .punct .dot :: key.token :: dottedTokens keys
  | [] => []

/-! ### Scanning -/

theorem digits_of_natural {i : Int64} (natural : 0 ≤ i) :
    ∃ c s, Decimal.ofInt64 i = c :: s ∧ ∀ d ∈ c :: s, Decimal.isDigit d = true := by
  have positive : ¬ i.toInt < 0 := Int.not_lt.mpr (Int64.le_iff_toInt_le.mp natural)
  unfold Decimal.ofInt64
  rw [if_neg positive]
  exact exists_toDigits i.toInt.natAbs

theorem MemberKey.token_plain (key : MemberKey) : key.token.plain = true := by
  cases key with
  | name word isName => exact isName
  | place i natural => exact decide_eq_true natural

theorem MemberKey.token_written (key : MemberKey) : key.token.written = key.text.toList := by
  cases key with
  | name word isName => rfl
  | place i natural => exact (String.toList_ofList).symm

/-- Behind a key stands a point, or the end. -/
theorem bars_dotted {p : Char → Bool} (point : p '.' = false) (blank : p ' ' = false) (keys : List MemberKey) :
    Bars p (dotted keys ++ [' ', '?', '>']) := by
  cases keys with
  | nil => exact Bars.cons blank _
  | cons key keys => exact Bars.cons point _

/-- A key ends before the ones that follow it, unless a place follows a place. -/
theorem MemberKey.endsBefore (key : MemberKey) {keys : List MemberKey}
    (apart : ∀ i hi j hj rest, key = .place i hi → keys = .place j hj :: rest → False) :
    key.token.EndsBefore (dotted keys ++ [' ', '?', '>']) := by
  cases key with
  | name word isName => exact bars_dotted (by decide) (by decide) keys
  | place i natural =>
    refine ⟨bars_dotted (by decide) (by decide) keys, ?_⟩
    intro rest same
    cases keys with
    | nil => simp [dotted] at same
    | cons next keys =>
      cases next with
      | place j hj => exact absurd rfl (apart i natural j hj keys rfl)
      | name word isName =>
        obtain ⟨c, more, letters, letter, -⟩ := exists_of_isIdentifier isName
        simp only [dotted, List.flatMap_cons, text, letters, List.cons_append, List.cons.injEq, true_and] at same
        rw [← same]
        refine Bars.cons ?_ _
        cases digit : Decimal.isDigit c with
        | false => rfl
        | true =>
          have := range_of_isLetter letter
          have := range_of_isDigit digit
          omega

theorem scans_dot (s : List Char) : Scans ('.' :: s) [.punct .dot] s :=
  scans_written (t := .punct .dot) rfl trivial

/-- Digits, a point and digits are one number. -/
theorem scans_fraction {i j : Int64} (left : 0 ≤ i) (right : 0 ≤ j) {rest : List Char}
    (ends : Bars Decimal.isDigit rest) :
    Scans (Decimal.ofInt64 i ++ '.' :: (Decimal.ofInt64 j ++ rest)) [.float (pointed i j)] rest := by
  obtain ⟨c, s, whole, digits⟩ := digits_of_natural left
  obtain ⟨d, t, places, more⟩ := digits_of_natural right
  have digit := digits c List.mem_cons_self
  have range := range_of_isDigit digit
  have dollar : c ≠ '$' := by
    rintro rfl
    revert range
    decide
  have letter : ¬ isLetter c = true := by
    intro letter
    have := range_of_isLetter letter
    omega
  have read := scanNumber_fraction digits more ends
  unfold pointed
  rw [whole, places]
  exact .token (not_blank_of_range (by omega) (by omega))
    ((scanToken_number dollar letter digit _).trans read) (.done rest)

theorem scans_dotted (keys : List MemberKey) :
    Scans (dotted keys ++ [' ', '?', '>']) (dottedTokens keys) ['?', '>'] := by
  fun_induction dottedTokens keys with
  | case1 i left j right keys ih =>
    have number := scans_fraction left right (bars_dotted (by decide) (by decide) keys)
    have order : dotted (.place i left :: .place j right :: keys) ++ [' ', '?', '>'] =
        '.' :: (Decimal.ofInt64 i ++ '.' :: (Decimal.ofInt64 j ++ (dotted keys ++ [' ', '?', '>']))) := by
      simp [dotted, MemberKey.text]
    rw [order]
    exact (scans_dot _).append (number.append ih)
  | case2 key keys apart ih =>
    have first := scans_written key.token_plain (key.endsBefore apart)
    have order : dotted (key :: keys) ++ [' ', '?', '>'] =
        '.' :: (key.token.written ++ (dotted keys ++ [' ', '?', '>'])) := by
      simp [dotted, key.token_written]
    rw [order]
    exact (scans_dot _).append (first.append ih)
  | case3 => exact .blank (by decide) (.done _)

theorem MemberPath.scans_text (p : MemberPath) :
    Scans (p.text.toList ++ [' ', '?', '>']) (.var p.root :: dottedTokens p.keys) ['?', '>'] := by
  have first := scans_written (t := .var p.root) p.isName (bars_dotted (by decide) (by decide) p.keys)
  simpa [MemberPath.text, Token.written] using first.append (scans_dotted p.keys)

/-! ### Reading -/

/-- Without two places in a row, the tokens are the accesses. -/
theorem derives_dotted (base : Expr) {keys : List MemberKey} (apart : adjacent? keys = none) :
    Derives (.accesses base (nested base keys)) (dottedTokens keys) := by
  fun_induction dottedTokens keys generalizing base with
  | case1 => simp [adjacent?] at apart
  | case2 key keys alone ih =>
    rw [adjacent?.eq_2 key keys alone] at apart
    cases key with
    | name word isName => exact .memberName (ih _ apart)
    | place i natural => exact .memberIndex (ih _ apart)
  | case3 => exact .accessEnd base

theorem MemberPath.denotes {p : MemberPath} (apart : adjacent? p.keys = none) :
    Denotes (.var p.root :: dottedTokens p.keys) p.expr :=
  (Derives.unary (.postfixed (.var p.root) (derives_dotted _ apart))).loosen List.nil_suffix

/-- The first two places in a row stop the reading of accesses. -/
theorem accesses_stopped (inner : Parser Expr) {bound : List Token} (base : Expr) {keys : List MemberKey} {i j : Int64}
    (next : adjacent? keys = some (i, j)) (room : (dottedTokens keys).length ≤ bound.length) :
    accesses inner bound base (dottedTokens keys) = .error (.expectedMember (some (.float (pointed i j)))) := by
  fun_induction dottedTokens keys generalizing base bound with
  | case1 i' left j' right keys ih =>
    cases next
    cases bound with
    | nil => simp at room
    | cons b bound => rfl
  | case2 key keys alone ih =>
    rw [adjacent?.eq_2 key keys alone] at next
    cases bound with
    | nil => simp at room
    | cons b bound =>
      have less : (dottedTokens keys).length ≤ bound.length := by
        simp only [List.length_cons] at room
        omega
      cases key with
      | name word isName => exact ih _ next less
      | place i natural => exact ih _ next less
  | case3 => cases next

/-- Where the reading of an expression stops, so does that of a text which is scanned as its tokens. -/
theorem Expr.parse_error {s : String} {ts : List Token} {e : SyntaxError}
    (scans : Scans (s.toList ++ [' ', '?', '>']) ts ['?', '>']) (stopped : expression ts = .error e) :
    Expr.parse s = .error e := by
  have scanned := (scanFragment_iff _ (ts ++ [Token.fragmentEnd]) []).mpr ⟨ts, rfl, scans⟩
  unfold Expr.parse
  rw [scanned]
  show (expression (ts ++ [Token.fragmentEnd]).dropLast >>= _) = _
  rw [List.dropLast_concat, stopped]
  rfl

theorem MemberPath.expression_error {p : MemberPath} {i j : Int64} (next : adjacent? p.keys = some (i, j)) :
    expression (.var p.root :: dottedTokens p.keys) = .error (.expectedMember (some (.float (pointed i j)))) := by
  have stopped := accesses_stopped (expressionWithin (dottedTokens p.keys)) (.var p.root) next (Nat.le_refl _)
  generalize SyntaxError.expectedMember (some (.float (pointed i j))) = e at stopped ⊢
  have operand : unary (expressionWithin (dottedTokens p.keys)) (.var p.root :: dottedTokens p.keys) = .error e :=
    stopped
  exact binaryRows_error operand operatorRows

/-- A path is read as its nested members exactly if no two places follow each other. The first two that do are read
as one number, and the reading stops there. -/
theorem MemberPath.parse_text (p : MemberPath) :
    (Expr.parse p.text = .ok p.expr ↔ adjacent? p.keys = none) ∧
      ∀ i j, adjacent? p.keys = some (i, j) →
        Expr.parse p.text = .error (.expectedMember (some (.float (pointed i j)))) := by
  have stops : ∀ i j, adjacent? p.keys = some (i, j) →
      Expr.parse p.text = .error (.expectedMember (some (.float (pointed i j)))) := by
    intro i j next
    exact Expr.parse_error p.scans_text (MemberPath.expression_error next)
  refine ⟨⟨?_, ?_⟩, stops⟩
  · intro read
    cases next : adjacent? p.keys with
    | none => rfl
    | some pair =>
      rw [stops pair.1 pair.2 next] at read
      cases read
  · intro apart
    exact Expr.parse_of_denotes p.scans_text (MemberPath.denotes apart)

/-- An item of a list in a member of an item. -/
def cellPath : MemberPath :=
  ⟨"rows", by decide, [.place 3 (by decide), .name "cells" (by decide), .place 0 (by decide)]⟩

/-- An item of a list in a list. -/
def gridPath : MemberPath := ⟨"grid", by decide, [.place 0 (by decide), .place 1 (by decide)]⟩

theorem MemberPath.cell_parsed : cellPath.text = "$rows.3.cells.0" ∧ Expr.parse cellPath.text = .ok cellPath.expr ∧
    gridPath.text = "$grid.0.1" ∧
      Expr.parse gridPath.text = .error (.expectedMember (some (.float (pointed 0 1)))) :=
  ⟨by decide +kernel, cellPath.parse_text.1.mpr rfl, by decide +kernel, gridPath.parse_text.2 0 1 rfl⟩

end Stencil.Artifact
