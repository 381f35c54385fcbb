import Stencil.Main
import Stencil.Proofs.Decimal.Digits
import Stencil.Proofs.Text.Span

/-!
JSON text is read back as the value it was written from, for values without halves of characters, whose numbers are
whole.
-/
namespace Stencil.Json

theorem ok_bind {ε α β : Type} (a : α) (f : α → Except ε β) : (Except.ok a >>= f) = f a := rfl

/-! #### Texts -/

theorem hexValue?_hexDigit : ∀ n, n < 16 → hexValue? (hexDigit n) = some n := by decide

theorem utf8Size_hexDigit : ∀ n, n < 16 → (hexDigit n).utf8Size = 1 := by decide

theorem readChars_plain (rules : Rules) {c : Char} (quote : c ≠ '"') (slash : c ≠ '\\') (visible : ¬ c.toNat < 0x20)
    (b : Char) (bound s : List Char) :
    readChars rules (b :: bound) (c :: s) = (do
      let (more, s) ← readChars rules bound s
      .ok (some c :: more, s)) := by
  rw [readChars]
  · rw [if_neg visible]
  · exact quote
  · exact slash

/-- A control character is written by its number. -/
theorem readEscape_control (rules : Rules) {c : Char} (control : c.toNat < 0x20) (s : List Char) :
    readEscape rules ('u' :: '0' :: '0' :: hexDigit (c.toNat / 16) :: hexDigit (c.toNat % 16) :: s) =
      .ok (some c, s) := by
  have four : byteCount (List.take 4 ('0' :: '0' :: hexDigit (c.toNat / 16) :: hexDigit (c.toNat % 16) :: s)) = 4 := by
    simp only [List.take, byteCount, List.foldl]
    rw [utf8Size_hexDigit _ (by omega), utf8Size_hexDigit _ (by omega)]
    rfl
  have zero : hexValue? '0' = some 0 := by decide
  have hex : readHex ('0' :: '0' :: hexDigit (c.toNat / 16) :: hexDigit (c.toNat % 16) :: s) = .ok (c.toNat, s) := by
    unfold readHex
    rw [if_neg (by omega)]
    dsimp only
    rw [zero, hexValue?_hexDigit _ (by omega), hexValue?_hexDigit _ (by omega)]
    dsimp only
    have value : ((0 * 16 + 0) * 16 + c.toNat / 16) * 16 + c.toNat % 16 = c.toNat := by omega
    rw [value]
  rw [readEscape, readUnicode, hex]
  show (if 0xDC00 ≤ c.toNat ∧ c.toNat ≤ 0xDFFF then _ else _) = _
  rw [if_neg (by omega), if_neg (by omega), Char.ofNat_toNat]

/-- A character is read as it was written. -/
theorem readChars_escapedChar (rules : Rules) (c b : Char) (bound s : List Char) :
    readChars rules (b :: bound) (escapedChar c ++ s) = (do
      let (more, s) ← readChars rules bound s
      .ok (some c :: more, s)) := by
  unfold escapedChar
  split
  · rfl
  · rfl
  · rfl
  · rfl
  · rfl
  · rfl
  · rfl
  · rename_i quote slash _ _ _ _ _
    split
    · rename_i control
      show readChars rules (b :: bound) ('\\' :: 'u' :: '0' :: '0' :: _ :: _ :: s) = _
      rw [readChars, readEscape_control rules control]
      rfl
    · rename_i visible
      exact readChars_plain rules quote slash visible b bound s

theorem readChars_text (rules : Rules) (chars bound s : List Char) (room : chars.length < bound.length) :
    readChars rules bound (chars.flatMap escapedChar ++ '"' :: s) = .ok (chars.map some, s) := by
  induction chars generalizing bound with
  | nil =>
    cases bound with
    | nil => cases room
    | cons b bound => rfl
  | cons c chars ih =>
    cases bound with
    | nil => cases room
    | cons b bound =>
      rw [List.flatMap_cons, List.append_assoc, readChars_escapedChar, ih bound (Nat.lt_of_succ_lt_succ room)]
      rfl

theorem length_le_flatMap_escapedChar (chars : List Char) : chars.length ≤ (chars.flatMap escapedChar).length := by
  induction chars with
  | nil => exact Nat.le_refl _
  | cons c chars ih =>
    have one : 1 ≤ (escapedChar c).length := by
      unfold escapedChar
      split <;> (try split) <;> simp
    rw [List.flatMap_cons, List.length_append, List.length_cons]
    omega

theorem readText_text (rules : Rules) (text : String) (s : List Char) :
    readText rules (text.toList.flatMap escapedChar ++ '"' :: s) = .ok (some text, s) := by
  unfold readText
  have enough := length_le_flatMap_escapedChar text.toList
  rw [readChars_text rules text.toList _ s (by simp only [List.length_append, List.length_cons]; omega)]
  show Except.ok (wholeText? (text.toList.map some), s) = _
  simp [wholeText?, List.filterMap_map]

/-! #### Numbers -/

/-- What can stand behind a number without being taken for part of it. -/
def Ends (s : List Char) : Prop :=
  ∀ c ∈ s.head?, Decimal.isDigit c = false ∧ c ≠ '.' ∧ c ≠ 'e' ∧ c ≠ 'E'

theorem Ends.bars {s : List Char} (ends : Ends s) : Bars Decimal.isDigit s := fun c h => (ends c h).1

theorem readWhole_toDigits (n : Nat) {s : List Char} (ends : Ends s) :
    readWhole (Nat.toDigits 10 n ++ s) = .ok (Nat.toDigits 10 n, s) := by
  by_cases positive : 0 < n
  · obtain ⟨c, digits, same, other, digit⟩ := Decimal.toDigits_head_ne_zero positive
    have all : ∀ d ∈ Nat.toDigits 10 n, Decimal.isDigit d = true := fun d h => Decimal.isDigit_of_mem_toDigits h
    have span := span_append all ends.bars
    rw [same] at span ⊢
    have first : readWhole (c :: (digits ++ s)) =
        if Decimal.isDigit c then .ok ((c :: (digits ++ s)).span Decimal.isDigit)
        else failOn .invalidNumber (c :: (digits ++ s)) := by
      rw [readWhole]
      · intro d rest h
        exact absurd h other
      · intro h
        exact absurd h other
    rw [List.cons_append, first, if_pos digit]
    exact congrArg Except.ok span
  · have zero : n = 0 := by omega
    rw [zero, Nat.toDigits_zero]
    cases s with
    | nil => rfl
    | cons c s =>
      have stop : Decimal.isDigit c = false := (ends c rfl).1
      simp [readWhole, stop]

theorem readNumber_ofInt (i : Int) {s : List Char} (ends : Ends s) :
    readNumber Rules.free (decide (i < 0)) (Nat.toDigits 10 i.natAbs ++ s) = .ok (.number (.ofInt i), s) := by
  have fraction : readFraction s = .ok (none, s) := by
    unfold readFraction
    split
    · rename_i h
      exact absurd rfl (ends '.' rfl).2.1
    · rfl
  have exponent : ∀ limit, readExponent limit s = .ok (none, s) := by
    intro limit
    unfold readExponent
    cases s with
    | nil => rfl
    | cons c s =>
      have other := (ends c rfl).2.2
      exact if_neg (by simp [other.1, other.2])
  unfold readNumber
  rw [readWhole_toDigits _ ends, ok_bind]
  dsimp only
  rw [fraction, ok_bind]
  dsimp only
  rw [exponent, ok_bind]
  rfl

/-! #### Values -/

/-- A value without halves of characters whose numbers are whole, nested at most `depth` deep. -/
inductive Plain : (depth : Nat) → Json → Prop where
  | null (depth : Nat) : Plain depth .null
  | bool (depth : Nat) (b : Bool) : Plain depth (.bool b)
  | int (depth : Nat) (i : Int) : Plain depth (.number (.ofInt i))
  | str (depth : Nat) (s : String) : Plain depth (.str s)
  | arr {depth : Nat} {items : List Json} (plain : ∀ v ∈ items, Plain depth v) : Plain (depth + 1) (.arr items)
  | obj {depth : Nat} {members : List (String × Json)} (plain : ∀ m ∈ members, Plain depth m.2) :
      Plain (depth + 1) (.obj members)

/-- What starts no value and is no space: the text of a value starts otherwise. -/
def Starts (s : List Char) : Prop := ∃ c rest, s = c :: rest ∧ isSpace c = false ∧ c ≠ ']'

theorem Starts.append {s : List Char} (starts : Starts s) (t : List Char) : Starts (s ++ t) := by
  obtain ⟨c, rest, rfl, space, other⟩ := starts
  exact ⟨c, rest ++ t, rfl, space, other⟩

theorem noSpace_digitChar : ∀ d, d < 10 → isSpace (Nat.digitChar d) = false := by decide

theorem starts_pretty {depth : Nat} {v : Json} (plain : Plain depth v) (level : Nat) : Starts (pretty level v) := by
  cases plain with
  | null => exact ⟨'n', ['u', 'l', 'l'], by rfl, by decide, by decide⟩
  | bool _ b =>
    cases b with
    | true => exact ⟨'t', ['r', 'u', 'e'], by rfl, by decide, by decide⟩
    | false => exact ⟨'f', ['a', 'l', 's', 'e'], by rfl, by decide, by decide⟩
  | int _ i =>
    show Starts ((if decide (i < 0) then ['-'] else []) ++ Nat.toDigits 10 i.natAbs ++ [] ++ [])
    cases decide (i < 0) with
    | true => exact ⟨'-', _, rfl, by decide, by decide⟩
    | false =>
      cases digits : Nat.toDigits 10 i.natAbs with
      | nil => exact absurd digits Nat.toDigits_ne_nil
      | cons c rest =>
        have digit : Decimal.isDigit c = true := Decimal.isDigit_of_mem_toDigits (n := i.natAbs) (by rw [digits]; simp)
        obtain ⟨d, small, rfl⟩ := Decimal.exists_digitChar_of_isDigit digit
        refine ⟨d.digitChar, rest ++ [] ++ [], rfl, ?_, ?_⟩
        · exact noSpace_digitChar d small
        · intro same
          rw [same] at digit
          exact absurd digit (by decide)
  | str _ s => exact ⟨'"', _, rfl, by decide, by decide⟩
  | @arr _ items _ =>
    cases items with
    | nil => exact ⟨'[', _, rfl, by decide, by decide⟩
    | cons item items => exact ⟨'[', _, rfl, by decide, by decide⟩
  | @obj _ members _ =>
    cases members with
    | nil => exact ⟨'\x7b', _, rfl, by decide, by decide⟩
    | cons member members => exact ⟨'\x7b', _, rfl, by decide, by decide⟩

theorem skipSpace_cons {c : Char} (other : isSpace c = false) (s : List Char) : skipSpace (c :: s) = c :: s := by
  simp [skipSpace, other]

theorem Starts.skipSpace {s : List Char} (starts : Starts s) : skipSpace s = s := by
  obtain ⟨c, rest, rfl, space, -⟩ := starts
  exact skipSpace_cons space rest

theorem skipSpace_newLine (level : Nat) {s : List Char} (stays : skipSpace s = s) :
    skipSpace (newLine level ++ s) = s := by
  have blanks : ∀ n, skipSpace (List.replicate n ' ' ++ s) = s := by
    intro n
    induction n with
    | zero => exact stays
    | succ n ih => exact ih
  exact blanks (2 * level)

theorem ends_cons {c : Char} (other : Decimal.isDigit c = false ∧ c ≠ '.' ∧ c ≠ 'e' ∧ c ≠ 'E') (s : List Char) :
    Ends (c :: s) := by
  intro d h
  cases h
  exact other

theorem ends_prettyItems (level : Nat) (items : List Json) (tail : List Char) :
    Ends (prettyItems level items ++ tail) := by
  cases items <;> exact ends_cons (by decide) _

theorem ends_prettyMembers (level : Nat) (members : List (String × Json)) (tail : List Char) :
    Ends (prettyMembers level members ++ tail) := by
  cases members <;> exact ends_cons (by decide) _

theorem length_le_prettyItems (level : Nat) (items : List Json) : items.length ≤ (prettyItems level items).length := by
  induction items with
  | nil => exact Nat.zero_le _
  | cons item items ih =>
    simp only [prettyItems, List.length_append, List.length_cons]
    omega

theorem length_le_prettyMembers (level : Nat) (members : List (String × Json)) :
    members.length ≤ (prettyMembers level members).length := by
  induction members with
  | nil => exact Nat.zero_le _
  | cons member members ih =>
    obtain ⟨key, v⟩ := member
    simp only [prettyMembers, List.length_append, List.length_cons]
    omega

/-- The reader gives this value back wherever its text stands, spaces in front of it or not. -/
def Reads (inner : Reader Json) (level : Nat) (v : Json) : Prop :=
  ∀ s tail, skipSpace s = pretty level v ++ tail → Ends tail → inner s = .ok (v, tail)

section Reading

variable {inner : Reader Json} {level : Nat}

/-- A value is read behind a line break and in front of a comma or another line break. -/
theorem Reads.inLine {v : Json} (reads : Reads inner level v) (starts : Starts (pretty level v)) {more : List Char}
    (ends : Ends more) :
    ∃ c s, skipSpace (newLine level ++ (pretty level v ++ more)) = c :: s ∧ c ≠ ']' ∧
      inner (c :: s) = .ok (v, more) := by
  have first : Starts (pretty level v ++ more) := starts.append more
  have skipped := skipSpace_newLine level first.skipSpace
  obtain ⟨c, s, same, -, other⟩ := first
  refine ⟨c, s, skipped.trans same, other, ?_⟩
  refine reads (c :: s) more ?_ ends
  rw [← same]
  exact (starts.append more).skipSpace

theorem readItems_close {b : Char} {bound s rest : List Char} {first : Bool} (close : skipSpace s = ']' :: rest) :
    readItems inner (b :: bound) first s = .ok ([], rest) := by
  rw [readItems, close]
  rfl

theorem readItems_first {b : Char} {bound s rest more : List Char} {c : Char} {v : Json}
    (skipped : skipSpace s = c :: rest) (other : c ≠ ']') (read : inner (c :: rest) = .ok (v, more)) :
    readItems inner (b :: bound) true s = (readItems inner bound false more).map fun p => (v :: p.1, p.2) := by
  rw [readItems, skipped]
  split
  · rename_i h
    cases h
  · rename_i h
    cases h
    exact absurd rfl other
  · rename_i h
    cases h
    rw [if_pos rfl, read, ok_bind]
    dsimp only
    cases readItems inner bound false more <;> rfl

theorem readItems_more {b : Char} {bound s rest more : List Char} {c : Char} {v : Json}
    (skipped : skipSpace s = c :: rest) (other : c ≠ ']') (read : inner (c :: rest) = .ok (v, more)) :
    readItems inner (b :: bound) false (',' :: s) =
      (readItems inner bound false more).map fun p => (v :: p.1, p.2) := by
  rw [readItems, skipSpace_cons (by decide)]
  show (if false = true then _ else if (',' : Char) = ',' then _ else _) = _
  rw [if_neg (by decide), if_pos rfl, skipped]
  split
  · rename_i h
    cases h
  · rename_i h
    cases h
    exact absurd rfl other
  · rw [read, ok_bind]
    dsimp only
    cases readItems inner bound false more <;> rfl

theorem readItems_prettyItems {items : List Json} (reads : ∀ v ∈ items, Reads inner (level + 1) v)
    (starts : ∀ v ∈ items, Starts (pretty (level + 1) v)) {bound : List Char} (room : items.length < bound.length)
    (tail : List Char) :
    readItems inner bound false (prettyItems level items ++ tail) = .ok (items, tail) := by
  induction items generalizing bound with
  | nil =>
    cases bound with
    | nil => cases room
    | cons b bound =>
      rw [prettyItems, List.append_assoc]
      exact readItems_close (skipSpace_newLine level (skipSpace_cons (by decide) tail))
  | cons item items ih =>
    cases bound with
    | nil => cases room
    | cons b bound =>
      have later := ih (fun v h => reads v (List.mem_cons_of_mem _ h))
        (fun v h => starts v (List.mem_cons_of_mem _ h)) (Nat.lt_of_succ_lt_succ room)
      obtain ⟨c, s, skipped, other, read⟩ := (reads item (by simp)).inLine (starts item (by simp))
        (ends_prettyItems level items tail)
      have shape : prettyItems level (item :: items) ++ tail =
          ',' :: (newLine (level + 1) ++ (pretty (level + 1) item ++ (prettyItems level items ++ tail))) := by
        simp [prettyItems]
      rw [shape, readItems_more skipped other read, later]
      rfl

/-- A member is read with its key, of which the opening quote has been read. -/
theorem readMember_pretty (key : String) {v : Json} (reads : Reads inner (level + 1) v)
    (starts : Starts (pretty (level + 1) v)) {more : List Char} (ends : Ends more) :
    readMember Rules.free inner
        (key.toList.flatMap escapedChar ++ '"' :: ':' :: ' ' :: (pretty (level + 1) v ++ more)) =
      .ok ((some key, v), more) := by
  unfold readMember
  rw [readText_text, ok_bind]
  have first : Starts (pretty (level + 1) v ++ more) := starts.append more
  have colon := skipSpace_cons (c := ':') (by decide) (' ' :: (pretty (level + 1) v ++ more))
  simp only [colon]
  change (inner (' ' :: (pretty (level + 1) v ++ more)) >>= fun p => .ok ((some key, p.1), p.2)) = _
  rw [reads (' ' :: (pretty (level + 1) v ++ more)) more first.skipSpace ends]
  rfl

theorem readMembers_prettyMembers {members : List (String × Json)} (reads : ∀ m ∈ members, Reads inner (level + 1) m.2)
    (starts : ∀ m ∈ members, Starts (pretty (level + 1) m.2)) {bound : List Char}
    (room : members.length < bound.length) (tail : List Char) :
    readMembers Rules.free inner bound false (prettyMembers level members ++ tail) =
      .ok (members.map fun m => (some m.1, m.2), tail) := by
  induction members generalizing bound with
  | nil =>
    cases bound with
    | nil => cases room
    | cons b bound =>
      have close : skipSpace (newLine level ++ '\x7d' :: tail) = '\x7d' :: tail :=
        skipSpace_newLine level (skipSpace_cons (by decide) tail)
      rw [prettyMembers, List.append_assoc]
      show readMembers _ _ _ _ (newLine level ++ '\x7d' :: tail) = _
      rw [readMembers, close]
      rfl
  | cons member members ih =>
    obtain ⟨key, v⟩ := member
    cases bound with
    | nil => cases room
    | cons b bound =>
      have later := ih (fun m h => reads m (List.mem_cons_of_mem _ h))
        (fun m h => starts m (List.mem_cons_of_mem _ h)) (Nat.lt_of_succ_lt_succ room)
      have read := readMember_pretty key (reads (key, v) (by simp)) (starts (key, v) (by simp))
        (ends_prettyMembers level members tail)
      have shape : prettyMembers level ((key, v) :: members) ++ tail =
          ',' :: (newLine (level + 1) ++ '"' :: (key.toList.flatMap escapedChar ++
            '"' :: ':' :: ' ' :: (pretty (level + 1) v ++ (prettyMembers level members ++ tail)))) := by
        simp [prettyMembers, writeText]
      have comma := skipSpace_cons (c := ',') (by decide) (newLine (level + 1) ++ '"' ::
        (key.toList.flatMap escapedChar ++
          '"' :: ':' :: ' ' :: (pretty (level + 1) v ++ (prettyMembers level members ++ tail))))
      have quote := skipSpace_newLine (level + 1) (skipSpace_cons (c := '"') (by decide)
        (key.toList.flatMap escapedChar ++
          '"' :: ':' :: ' ' :: (pretty (level + 1) v ++ (prettyMembers level members ++ tail))))
      rw [shape, readMembers, comma]
      show (if false = true then _ else if (',' : Char) = ',' then _ else _) = _
      rw [if_neg (by decide), if_pos rfl, quote]
      change (readMember Rules.free inner _ >>= fun p => readMembers Rules.free inner bound false p.2 >>= fun q =>
        .ok (p.1 :: q.1, q.2)) = _
      rw [read, ok_bind, later]
      rfl

end Reading

theorem ofMembers_some (members : List (String × Json)) :
    ofMembers (members.map fun m => (some m.1, m.2)) = .obj members := by
  have texts : (members.map fun m => ((some m.1, m.2) : Option String × Json)).all (·.1.isSome) = true := by
    simp
  unfold ofMembers
  rw [if_pos texts, List.filterMap_map]
  exact congrArg Json.obj List.filterMap_some

theorem readItems_list {inner : Reader Json} {level : Nat} {items : List Json}
    (reads : ∀ v ∈ items, Reads inner (level + 1) v) (starts : ∀ v ∈ items, Starts (pretty (level + 1) v))
    {body tail : List Char} (text : pretty level (.arr items) ++ tail = '[' :: body) :
    readItems inner body true body = .ok (items, tail) := by
  cases items with
  | nil =>
    have same : body = ']' :: tail := (List.cons.inj text).2.symm
    rw [same]
    exact readItems_close (skipSpace_cons (by decide) tail)
  | cons item items =>
    have same : body =
        newLine (level + 1) ++ (pretty (level + 1) item ++ (prettyItems level items ++ tail)) := by
      have inside := (List.cons.inj text).2.symm
      simpa using inside
    obtain ⟨c, s, skipped, other, read⟩ := (reads item (by simp)).inLine (starts item (by simp))
      (ends_prettyItems level items tail)
    rw [← same] at skipped
    have enough := length_le_prettyItems level items
    cases bound : body with
    | nil =>
      rw [bound] at same
      cases same
    | cons b bound' =>
      rw [bound] at skipped
      have long : items.length < bound'.length := by
        have lengths := congrArg List.length (bound.symm.trans same)
        simp only [newLine, List.length_append, List.length_cons] at lengths
        obtain ⟨d, rest, start, -⟩ := starts item (by simp)
        rw [start, List.length_cons] at lengths
        omega
      rw [readItems_first skipped other read]
      rw [readItems_prettyItems (fun v h => reads v (List.mem_cons_of_mem _ h))
        (fun v h => starts v (List.mem_cons_of_mem _ h)) long tail]
      rfl

theorem readMembers_object {inner : Reader Json} {level : Nat} {members : List (String × Json)}
    (reads : ∀ m ∈ members, Reads inner (level + 1) m.2) (starts : ∀ m ∈ members, Starts (pretty (level + 1) m.2))
    {body tail : List Char} (text : pretty level (.obj members) ++ tail = '\x7b' :: body) :
    readMembers Rules.free inner body true body = .ok (members.map fun m => (some m.1, m.2), tail) := by
  cases members with
  | nil =>
    have same : body = '\x7d' :: tail := (List.cons.inj text).2.symm
    rw [same, readMembers, skipSpace_cons (by decide)]
    rfl
  | cons member members =>
    obtain ⟨key, v⟩ := member
    have same : body = newLine (level + 1) ++ '"' :: (key.toList.flatMap escapedChar ++
        '"' :: ':' :: ' ' :: (pretty (level + 1) v ++ (prettyMembers level members ++ tail))) := by
      have inside := (List.cons.inj text).2.symm
      simpa [writeText] using inside
    have quote := skipSpace_newLine (level + 1) (skipSpace_cons (c := '"') (by decide)
      (key.toList.flatMap escapedChar ++
        '"' :: ':' :: ' ' :: (pretty (level + 1) v ++ (prettyMembers level members ++ tail))))
    rw [← same] at quote
    have read := readMember_pretty key (reads (key, v) (by simp)) (starts (key, v) (by simp))
      (ends_prettyMembers level members tail)
    have enough := length_le_prettyMembers level members
    cases bound : body with
    | nil =>
      rw [bound] at same
      cases same
    | cons b bound' =>
      rw [bound] at quote
      have long : members.length < bound'.length := by
        have lengths := congrArg List.length (bound.symm.trans same)
        simp only [newLine, List.length_append, List.length_cons] at lengths
        omega
      rw [readMembers, quote]
      show (if true = true then (if ('"' : Char) = '"' then _ else _) else _) = _
      rw [if_pos rfl, if_pos rfl]
      change (readMember Rules.free inner _ >>= fun p => readMembers Rules.free inner bound' false p.2 >>= fun q =>
        .ok (p.1 :: q.1, q.2)) = _
      rw [read, ok_bind]
      rw [readMembers_prettyMembers (fun m h => reads m (List.mem_cons_of_mem _ h))
        (fun m h => starts m (List.mem_cons_of_mem _ h)) long tail]
      rfl

theorem readValue_digit (depth : Nat) {d : Nat} (small : d < 10) {s rest : List Char}
    (text : skipSpace s = d.digitChar :: rest) :
    readValue Rules.free depth s = readNumber Rules.free false (d.digitChar :: rest) := by
  have ten : d = 0 ∨ d = 1 ∨ d = 2 ∨ d = 3 ∨ d = 4 ∨ d = 5 ∨ d = 6 ∨ d = 7 ∨ d = 8 ∨ d = 9 := by omega
  rw [readValue, text]
  rcases ten with rfl | rfl | rfl | rfl | rfl | rfl | rfl | rfl | rfl | rfl <;> rfl

/-- A value is read back if the nesting stays below the limit. -/
theorem readValue_pretty {n : Nat} {v : Json} (plain : Plain n v) (depth : Nat) (room : n < depth) (level : Nat) :
    Reads (readValue Rules.free depth) level v := by
  induction plain generalizing depth level with
  | null n =>
    intro s tail text ends
    rw [readValue, text]
    rfl
  | bool n b =>
    intro s tail text ends
    rw [readValue, text]
    cases b <;> rfl
  | int n i =>
    intro s tail text ends
    have number := readNumber_ofInt i ends
    by_cases negative : i < 0
    · have shape : pretty level (.number (.ofInt i)) ++ tail = '-' :: (Nat.toDigits 10 i.natAbs ++ tail) := by
        simp [pretty, writeNumber, Number.ofInt, negative]
      rw [decide_eq_true negative] at number
      rw [readValue, text, shape]
      exact number
    · have shape : pretty level (.number (.ofInt i)) ++ tail = Nat.toDigits 10 i.natAbs ++ tail := by
        simp [pretty, writeNumber, Number.ofInt, negative]
      rw [decide_eq_false negative] at number
      cases digits : Nat.toDigits 10 i.natAbs with
      | nil => exact absurd digits Nat.toDigits_ne_nil
      | cons c rest =>
        have digit : Decimal.isDigit c = true := Decimal.isDigit_of_mem_toDigits (n := i.natAbs) (by rw [digits]; simp)
        obtain ⟨d, small, rfl⟩ := Decimal.exists_digitChar_of_isDigit digit
        rw [digits] at number shape
        rw [readValue_digit depth small (text.trans shape)]
        exact number
  | str n t =>
    intro s tail text ends
    have shape : pretty level (.str t) ++ tail = '"' :: (t.toList.flatMap escapedChar ++ '"' :: tail) := by
      simp [pretty, writeText]
    rw [readValue, text, shape]
    show (readText Rules.free _).map _ = _
    rw [readText_text]
    rfl
  | @arr n items plain ih =>
    intro s tail text ends
    obtain ⟨k, rfl⟩ : ∃ k, depth = k + 2 := ⟨depth - 2, by omega⟩
    obtain ⟨body, shape⟩ : ∃ body, pretty level (.arr items) ++ tail = '[' :: body := by
      cases items <;> exact ⟨_, rfl⟩
    have read := readItems_list (fun v h => ih v h (k + 1) (by omega) (level + 1))
      (fun v h => starts_pretty (plain v h) (level + 1)) shape
    rw [readValue, text, shape]
    show (readItems (readValue Rules.free (k + 1)) body true body).map _ = _
    rw [read]
    rfl
  | @obj n members plain ih =>
    intro s tail text ends
    obtain ⟨k, rfl⟩ : ∃ k, depth = k + 2 := ⟨depth - 2, by omega⟩
    obtain ⟨body, shape⟩ : ∃ body, pretty level (.obj members) ++ tail = '\x7b' :: body := by
      cases members <;> exact ⟨_, rfl⟩
    have read := readMembers_object (fun m h => ih m h (k + 1) (by omega) (level + 1))
      (fun m h => starts_pretty (plain m h) (level + 1)) shape
    rw [readValue, text, shape]
    show (readMembers Rules.free (readValue Rules.free (k + 1)) body true body).map _ = _
    rw [read]
    show Except.ok (ofMembers _, tail) = _
    rw [ofMembers_some]

theorem parse?_write {n : Nat} {v : Json} (plain : Plain n v) (room : n ≤ (write v).length + 1) :
    parse? (write v) = some v := by
  have read := readValue_pretty plain ((write v).length + 2) (by omega) 0 (pretty 0 v) []
    (by rw [List.append_nil]; exact (starts_pretty plain 0).skipSpace) (fun c h => by cases h)
  have text : (write v).toList = pretty 0 v := String.toList_ofList
  unfold parse? readAll
  rw [text, read]
  rfl

end Stencil.Json
