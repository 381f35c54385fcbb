import Stencil.Proofs.Decimal.Digits
import Stencil.Proofs.Decimal.Range
import Stencil.Proofs.Text.Span

/-!
How numbers are written: whole numbers as digits with or without a sign, other numbers with a point among the digits
and an exponent behind them. The texts that are read as whole numbers of 64 bits, and those that are read as finite
floating-point numbers, are these, as far as their numbers are not too large.
-/
namespace Stencil.Decimal

/-- One or more digits and the number that they write. -/
inductive Digits : List Char → Nat → Prop where
  | intro {s : List Char} (full : s ≠ []) (digits : ∀ c ∈ s, c.isDigit = true) : Digits s (Nat.ofDigitChars 10 s 0)

/-- A whole number with or without a sign. -/
inductive WholeNumeral : List Char → ℤ → Prop where
  | plain {s : List Char} {n : Nat} (digits : Digits s n) : WholeNumeral s n
  | plus {s : List Char} {n : Nat} (digits : Digits s n) : WholeNumeral ('+' :: s) n
  | minus {s : List Char} {n : Nat} (digits : Digits s n) : WholeNumeral ('-' :: s) (-n)

/-- What may stand behind the digits of a number: nothing, or an exponent. -/
inductive ExponentPart : List Char → ℤ → Prop where
  | absent : ExponentPart [] 0
  | present {mark : Char} {s : List Char} {e : ℤ} (letter : mark = 'e' ∨ mark = 'E') (whole : WholeNumeral s e) :
      ExponentPart (mark :: s) e

/-- A number without a sign, `digits * 10 ^ exponent`: digits with at most one point among them or at their ends, and
an exponent. -/
inductive UnsignedNumeral : List Char → Nat → ℤ → Prop where
  | whole {s t : List Char} {n : Nat} {e : ℤ} (digits : Digits s n) (exponent : ExponentPart t e) :
      UnsignedNumeral (s ++ t) n e
  | pointed {s fraction t : List Char} {n : Nat} {e : ℤ} (front : ∀ c ∈ s, c.isDigit = true)
      (back : ∀ c ∈ fraction, c.isDigit = true) (digits : Digits (s ++ fraction) n) (exponent : ExponentPart t e) :
      UnsignedNumeral (s ++ '.' :: (fraction ++ t)) n (e - fraction.length)

/-- A number with or without a sign. -/
inductive DecimalNumeral : List Char → ℚ → Prop where
  | plain {s : List Char} {n : Nat} {e : ℤ} (number : UnsignedNumeral s n e) : DecimalNumeral s (n * 10 ^ e)
  | plus {s : List Char} {n : Nat} {e : ℤ} (number : UnsignedNumeral s n e) : DecimalNumeral ('+' :: s) (n * 10 ^ e)
  | minus {s : List Char} {n : Nat} {e : ℤ} (number : UnsignedNumeral s n e) :
      DecimalNumeral ('-' :: s) (-(n * 10 ^ e))

variable {s t : List Char} {n : Nat} {i e : ℤ}

/-! #### Digits -/

theorem valueFrom_eq_ofDigitChars (digits : ∀ c ∈ s, c.isDigit = true) (n : Nat) :
    valueFrom n s = Nat.ofDigitChars 10 s n := by
  induction s generalizing n with
  | nil => rfl
  | cons c s ih =>
    obtain ⟨d, small, rfl⟩ := exists_digitChar_of_isDigit (digits c List.mem_cons_self)
    rw [valueFrom, digitValue_digitChar d small, ih fun c mem => digits c (List.mem_cons_of_mem _ mem),
      Nat.ofDigitChars_cons_digitChar_of_lt_ten small]

theorem value_eq_ofDigitChars (digits : ∀ c ∈ s, c.isDigit = true) : value s = Nat.ofDigitChars 10 s 0 := by
  rw [value_eq_valueFrom, valueFrom_eq_ofDigitChars digits]

theorem natural?_eq_some_iff : natural? s = some n ↔ Digits s n := by
  constructor
  · intro read
    obtain ⟨full, digits, rfl⟩ := digits_of_natural? read
    rw [value_eq_ofDigitChars digits]
    exact .intro full digits
  · rintro ⟨full, digits⟩
    have all : s.all isDigit = true := List.all_eq_true.mpr digits
    rw [natural?, if_neg (by simp [full, all]), value_eq_ofDigitChars digits]

theorem Digits.exists_head (digits : Digits s n) : ∃ c t, s = c :: t ∧ c.isDigit = true := by
  obtain ⟨full, digits⟩ := digits
  obtain ⟨c, t, rfl⟩ := List.exists_cons_of_ne_nil full
  exact ⟨c, t, rfl, digits c List.mem_cons_self⟩

/-! #### Whole numbers -/

theorem integer?_eq_some_iff : integer? s = some i ↔ WholeNumeral s i := by
  constructor
  · intro read
    by_cases negative : s.head? = some '-'
    · obtain ⟨t, rfl⟩ := List.head?_eq_some_iff.mp negative
      rw [integer?_minus] at read
      obtain ⟨n, digits, rfl⟩ := Option.map_eq_some_iff.mp read
      exact .minus (natural?_eq_some_iff.mp digits)
    unfold integer? at read
    split at read
    · exact absurd rfl negative
    · obtain ⟨n, digits, rfl⟩ := Option.map_eq_some_iff.mp read
      exact .plus (natural?_eq_some_iff.mp digits)
    · obtain ⟨n, digits, rfl⟩ := Option.map_eq_some_iff.mp read
      exact .plain (natural?_eq_some_iff.mp digits)
  · intro numeral
    cases numeral with
    | plus digits => exact congrArg (Option.map Int.ofNat) (natural?_eq_some_iff.mpr digits)
    | minus digits =>
      rw [integer?_minus, natural?_eq_some_iff.mpr digits]
      rfl
    | plain digits =>
      obtain ⟨c, t, rfl, digit⟩ := digits.exists_head
      unfold integer?
      split
      · rename_i same
        obtain ⟨rfl, -⟩ := List.cons.inj same
        cases digit
      · rename_i same
        obtain ⟨rfl, -⟩ := List.cons.inj same
        cases digit
      · rw [natural?_eq_some_iff.mpr digits]
        rfl

/-- The texts that are read as numbers of 64 bits. -/
theorem readInt64?_isSome_iff :
    (readInt64? s).isSome = true ↔ ∃ i, WholeNumeral s i ∧ -2 ^ 63 ≤ i ∧ i < 2 ^ 63 := by
  constructor
  · intro read
    obtain ⟨v, read⟩ := Option.isSome_iff_exists.mp read
    obtain ⟨i, whole, fits⟩ := Option.bind_eq_some_iff.mp read
    refine ⟨i, integer?_eq_some_iff.mp whole, ?_⟩
    have same := toInt_of_int64? fits
    have := Int64.le_toInt v
    have := Int64.toInt_lt v
    omega
  · rintro ⟨i, numeral, low, high⟩
    rw [readInt64?, integer?_eq_some_iff.mpr numeral, Option.bind_some, int64?, if_pos (by omega)]
    rfl

/-! #### Decimal numbers -/

theorem exponentEnd?_cons (c : Char) (s : List Char) :
    exponentEnd? (c :: s) = if c = 'e' ∨ c = 'E' then integer? s else none := by
  unfold exponentEnd? integer?
  split
  · rename_i same
    cases same
  · rename_i same
    obtain ⟨rfl, rfl⟩ := List.cons.inj same
    rfl
  · rename_i same
    obtain ⟨rfl, rfl⟩ := List.cons.inj same
    rfl
  · rename_i plus minus same
    obtain ⟨rfl, rfl⟩ := List.cons.inj same
    split
    · split
      · exact absurd rfl (plus _)
      · exact absurd rfl (minus _)
      · rfl
    · rfl

theorem exponentEnd?_eq_some_iff : exponentEnd? s = some e ↔ ExponentPart s e := by
  constructor
  · intro read
    cases s with
    | nil =>
      cases read
      exact .absent
    | cons c s =>
      rw [exponentEnd?_cons] at read
      split at read
      · rename_i letter
        exact .present letter (integer?_eq_some_iff.mp read)
      · cases read
  · intro part
    cases part with
    | absent => rfl
    | present letter whole => rw [exponentEnd?_cons, if_pos letter, integer?_eq_some_iff.mpr whole]

/-- An exponent does not begin like more digits, or with a point. -/
theorem ExponentPart.stops (part : ExponentPart t e) : Bars isDigit t ∧ t.head? ≠ some '.' := by
  cases part with
  | absent => exact ⟨fun _ mem => (by cases mem), by simp⟩
  | present letter whole =>
    rcases letter with rfl | rfl
    · exact ⟨Bars.cons (by decide) _, by simp⟩
    · exact ⟨Bars.cons (by decide) _, by simp⟩

theorem digits_of_full {whole : List Char} (front : ∀ c ∈ whole, isDigit c = true) (full : whole ≠ []) :
    Digits whole (value whole) := by
  rw [value_eq_ofDigitChars front]
  exact .intro full front

theorem decimal?_pointed (negative : Bool) {whole : List Char} (front : ∀ c ∈ whole, isDigit c = true)
    (rest : List Char) :
    decimal? negative (whole ++ '.' :: rest) =
      if whole.isEmpty && (rest.span isDigit).1.isEmpty then none
      else (exponentEnd? (rest.span isDigit).2).map fun e =>
        nearestDecimal negative (value (whole ++ (rest.span isDigit).1)) (e - (rest.span isDigit).1.length) := by
  unfold decimal? spanDigits
  rw [span_append front (Bars.cons (by decide) _)]
  rfl

theorem decimal?_whole (negative : Bool) {whole rest : List Char} (front : ∀ c ∈ whole, isDigit c = true)
    (ends : Bars isDigit rest) (noPoint : rest.head? ≠ some '.') :
    decimal? negative (whole ++ rest) =
      if whole.isEmpty then none
      else (exponentEnd? rest).map fun e => nearestDecimal negative (value whole) e := by
  unfold decimal? spanDigits
  rw [span_append front ends]
  cases rest with
  | nil => simp
  | cons c rest =>
    have other : c ≠ '.' := fun same => noPoint (congrArg some same)
    dsimp only
    split
    · rename_i same
      exact absurd (List.cons.inj same).1 other
    · simp

/-- What is read as a number without a sign. -/
theorem decimal?_eq_some_iff (negative : Bool) {x : Float} :
    decimal? negative s = some x ↔ ∃ n e, UnsignedNumeral s n e ∧ x = nearestDecimal negative n e := by
  constructor
  · intro read
    obtain ⟨shape, front, ends⟩ := span_parts (Prod.mk.eta (p := s.span isDigit)).symm
    generalize (s.span isDigit).1 = whole at *
    generalize (s.span isDigit).2 = rest at *
    subst shape
    by_cases point : rest.head? = some '.'
    · obtain ⟨rest, rfl⟩ := List.head?_eq_some_iff.mp point
      rw [decimal?_pointed negative front] at read
      obtain ⟨shape, back, -⟩ := span_parts (Prod.mk.eta (p := rest.span isDigit)).symm
      generalize (rest.span isDigit).1 = fraction at *
      generalize (rest.span isDigit).2 = tail at *
      subst shape
      split at read
      · cases read
      · rename_i full
        obtain ⟨e, exponent, rfl⟩ := Option.map_eq_some_iff.mp read
        have both : ∀ c ∈ whole ++ fraction, isDigit c = true := by
          intro c mem
          exact (List.mem_append.mp mem).elim (front c) (back c)
        exact ⟨_, _, .pointed front back (digits_of_full both (by simpa using full))
          (exponentEnd?_eq_some_iff.mp exponent), rfl⟩
    · rw [decimal?_whole negative front ends point] at read
      split at read
      · cases read
      · rename_i full
        obtain ⟨e, exponent, rfl⟩ := Option.map_eq_some_iff.mp read
        exact ⟨_, _, .whole (digits_of_full front (by simpa using full)) (exponentEnd?_eq_some_iff.mp exponent), rfl⟩
  · rintro ⟨n, e, numeral, rfl⟩
    cases numeral with
    | whole digits exponent =>
      obtain ⟨full, digits⟩ := digits
      rw [decimal?_whole negative digits exponent.stops.1 exponent.stops.2, if_neg (by simpa using full),
        exponentEnd?_eq_some_iff.mpr exponent, value_eq_ofDigitChars digits]
      rfl
    | @pointed whole fraction tail _ _ front back digits exponent =>
      obtain ⟨full, digits⟩ := digits
      have parts : (fraction ++ tail).span isDigit = (fraction, tail) := span_append back exponent.stops.1
      rw [decimal?_pointed negative front, parts, if_neg (by simpa using full), exponentEnd?_eq_some_iff.mpr exponent,
        value_eq_ofDigitChars digits]
      rfl

/-- The words are read as no finite numbers. -/
theorem isFinite_word {negative : Bool} {x : Float} (read : word? negative s = some x) : x.isFinite = false := by
  have infinite : (floatOfBits negative infinityBits).isFinite = false :=
    Bool.eq_false_iff.mpr fun finite => lt_irrefl _ ((isFinite_floatOfBits negative le_rfl).mp finite)
  unfold word? at read
  dsimp only at read
  split at read
  · cases read
    decide
  · split at read
    · cases read
      exact infinite
    · cases read

/-- What is read behind the sign as a finite number. -/
theorem finite_magnitude_iff (negative : Bool) :
    Option.any Float.isFinite (match decimal? negative s with
      | some x => some x
      | none => word? negative s) = true ↔
      ∃ n e, UnsignedNumeral s n e ∧ (n * 10 ^ e : ℚ) < infinityBound := by
  constructor
  · intro finite
    cases read : decimal? negative s with
    | some x =>
      obtain ⟨n, e, numeral, rfl⟩ := (decimal?_eq_some_iff negative).mp read
      rw [read] at finite
      exact ⟨n, e, numeral, (isFinite_nearestDecimal negative n e).mp finite⟩
    | none =>
      rw [read] at finite
      cases word : word? negative s with
      | none =>
        rw [word] at finite
        cases finite
      | some x =>
        rw [word] at finite
        exact absurd finite (by simp [isFinite_word word])
  · rintro ⟨n, e, numeral, bounded⟩
    rw [(decimal?_eq_some_iff negative).mpr ⟨n, e, numeral, rfl⟩]
    exact (isFinite_nearestDecimal negative n e).mpr bounded

/-- A number without a sign begins with a digit or a point. -/
theorem UnsignedNumeral.unsigned (numeral : UnsignedNumeral s n e) : s.head? ≠ some '-' ∧ s.head? ≠ some '+' := by
  have other (c : Char) (t : List Char) (digit : c.isDigit = true) :
      (c :: t).head? ≠ some '-' ∧ (c :: t).head? ≠ some '+' := by
    constructor <;> rintro ⟨⟩ <;> cases digit
  cases numeral with
  | whole digits exponent =>
    obtain ⟨c, s, rfl, digit⟩ := digits.exists_head
    exact other c _ digit
  | @pointed whole fraction tail _ _ front back digits exponent =>
    cases whole with
    | nil => exact ⟨by simp, by simp⟩
    | cons c whole => exact other c _ (front c List.mem_cons_self)

theorem readFloat?_unsigned (noMinus : s.head? ≠ some '-') (noPlus : s.head? ≠ some '+') :
    readFloat? s = match decimal? false s with
      | some x => some x
      | none => word? false s := by
  cases s with
  | nil => rfl
  | cons c s =>
    have minus : c ≠ '-' := fun same => noMinus (congrArg some same)
    have plus : c ≠ '+' := fun same => noPlus (congrArg some same)
    unfold readFloat?
    split
    rename_i parts
    split at parts
    · rename_i same
      exact absurd (List.cons.inj same).1 minus
    · rename_i same
      exact absurd (List.cons.inj same).1 plus
    · obtain ⟨rfl, rfl⟩ := Prod.mk.inj parts
      rfl

theorem abs_decimal (n : Nat) (e : ℤ) : |(n * 10 ^ e : ℚ)| = n * 10 ^ e := abs_of_nonneg (by positivity)

/-- The texts that are read as finite floating-point numbers. -/
theorem readFloat?_finite_iff :
    (readFloat? s).any Float.isFinite = true ↔ ∃ v, DecimalNumeral s v ∧ |v| < infinityBound := by
  constructor
  · intro finite
    by_cases negative : s.head? = some '-'
    · obtain ⟨t, rfl⟩ := List.head?_eq_some_iff.mp negative
      obtain ⟨n, e, numeral, bounded⟩ := (finite_magnitude_iff true).mp finite
      refine ⟨_, .minus numeral, ?_⟩
      rwa [abs_neg, abs_decimal]
    by_cases plus : s.head? = some '+'
    · obtain ⟨t, rfl⟩ := List.head?_eq_some_iff.mp plus
      obtain ⟨n, e, numeral, bounded⟩ := (finite_magnitude_iff false).mp finite
      refine ⟨_, .plus numeral, ?_⟩
      rwa [abs_decimal]
    rw [readFloat?_unsigned negative plus] at finite
    obtain ⟨n, e, numeral, bounded⟩ := (finite_magnitude_iff false).mp finite
    refine ⟨_, .plain numeral, ?_⟩
    rwa [abs_decimal]
  · rintro ⟨v, numeral, bounded⟩
    cases numeral with
    | minus number =>
      rw [abs_neg, abs_decimal] at bounded
      exact (finite_magnitude_iff true).mpr ⟨_, _, number, bounded⟩
    | plus number =>
      rw [abs_decimal] at bounded
      exact (finite_magnitude_iff false).mpr ⟨_, _, number, bounded⟩
    | plain number =>
      rw [abs_decimal] at bounded
      rw [readFloat?_unsigned number.unsigned.1 number.unsigned.2]
      exact (finite_magnitude_iff false).mpr ⟨_, _, number, bounded⟩

end Stencil.Decimal
