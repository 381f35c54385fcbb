import Mathlib.Data.List.Dedup
import Mathlib.Data.List.Induction
import Stencil.Proofs.Text.Span

/-!
Heads of tags as they may be written: a name and parameters, each after some blanks, with its value as it is or
between quotes. Such a head is read as its name and its parameters; of those with one key the last one counts, also
for the order.
-/
namespace Stencil

namespace Keyed

variable {α : Type}

/-- A table with things put at its end one after the other. -/
def putAllLast (things table : Keyed α) : Keyed α := things.foldl (fun table (key, a) => putLast key a table) table

theorem putAllLast_concat (things table : Keyed α) (key : String) (a : α) :
    putAllLast (things ++ [(key, a)]) table = putLast key a (putAllLast things table) := by
  unfold putAllLast
  rw [List.foldl_append]
  rfl

theorem dedup_concat (keys : List String) (key : String) :
    (keys ++ [key]).dedup = keys.dedup.filter (· ≠ key) ++ [key] := by
  induction keys with
  | nil => rfl
  | cons first keys ih =>
    by_cases later : first ∈ keys
    · rw [List.cons_append, List.dedup_cons_of_mem (List.mem_append_left _ later), List.dedup_cons_of_mem later, ih]
    · rw [List.dedup_cons_of_notMem later]
      by_cases same : first = key
      · subst same
        rw [List.cons_append, List.dedup_cons_of_mem (by simp), ih, List.filter_cons_of_neg (by simp)]
      · rw [List.cons_append, List.dedup_cons_of_notMem (by simp [later, same]), ih,
          List.filter_cons_of_pos (by simpa using same), List.cons_append]

/-- The keys stand where they came last. -/
theorem keys_putAllLast (things : Keyed α) : keys (putAllLast things []) = (keys things).dedup := by
  induction things using List.reverseRecOn with
  | nil => rfl
  | append_singleton things thing ih =>
    obtain ⟨key, a⟩ := thing
    rw [putAllLast_concat, keys_putLast, ih, keys, keys, List.map_append]
    exact (dedup_concat _ key).symm

/-- Of the things with one key the last is found. -/
theorem get?_putAllLast (things : Keyed α) (key : String) :
    get? key (putAllLast things []) = get? key things.reverse := by
  induction things using List.reverseRecOn with
  | nil => rfl
  | append_singleton things thing ih =>
    obtain ⟨other, a⟩ := thing
    rw [putAllLast_concat, get?_putLast, ih, List.reverse_append]
    rfl

end Keyed

namespace Markup

/-! #### Written heads -/

/-- How a value stands in a head. -/
inductive ValueForm where
  | bare
  | single
  | double

/-- A character between quotes: the quote itself and the backslash get a backslash. -/
def escapedChar (quote c : Char) : List Char := if c = quote ∨ c = '\\' then ['\\', c] else [c]

def enquoted (quote : Char) (value : List Char) : List Char := quote :: value.flatMap (escapedChar quote) ++ [quote]

def ValueForm.write : ValueForm → List Char → List Char
  | bare, value => value
  | single, value => enquoted '\'' value
  | double, value => enquoted '"' value

/-- Whether a value may be written in this form. Without quotes it must not have blanks or begin with a quote. -/
def ValueForm.Suits : ValueForm → List Char → Prop
  | bare, value => (∀ c ∈ value, Text.isBlank c = false) ∧ value.head? ≠ some '"' ∧ value.head? ≠ some '\''
  | _, _ => True

/-- A parameter as it stands in a head, with the blanks in front of it. -/
structure Setting where
  gap : List Char
  key : String
  value : String
  form : ValueForm
  gap_blank : gap ≠ [] ∧ ∀ c ∈ gap, Text.isBlank c = true
  key_plain : key ≠ "" ∧ ∀ c ∈ key.toList, isKeyChar c = true
  suits : form.Suits value.toList

namespace Setting

def written (p : Setting) : List Char := p.gap ++ (p.key.toList ++ '=' :: p.form.write p.value.toList)

def pair (p : Setting) : String × String := (p.key, p.value)

end Setting

def Head.written (name : String) (settings : List Setting) : List Char :=
  name.toList ++ settings.flatMap Setting.written

variable {quote c : Char} {value rest s : List Char} {form : ValueForm} {p : Setting} {settings : List Setting}

/-! #### Reading values -/

theorem readQuoted_escapedChar (quote c : Char) (s : List Char) :
    readQuoted quote (escapedChar quote c ++ s) = (readQuoted quote s).map fun (value, rest) => (c :: value, rest) := by
  unfold escapedChar
  split
  · rfl
  · rename_i plain
    obtain ⟨other, noBackslash⟩ := not_or.mp plain
    rw [List.singleton_append, readQuoted.eq_4 quote c s (fun h => absurd h noBackslash)
      (fun _ _ h => absurd h noBackslash), if_neg other]

theorem readQuoted_enquoted (proper : quote ≠ '\\') (value rest : List Char) :
    readQuoted quote (value.flatMap (escapedChar quote) ++ quote :: rest) = some (value, rest) := by
  induction value with
  | nil => simp [readQuoted, proper]
  | cons c value ih =>
    rw [List.flatMap_cons, List.append_assoc, readQuoted_escapedChar, ih]
    rfl

theorem readValue_bare (plain : ∀ c ∈ value, Text.isBlank c = false) (noDouble : value.head? ≠ some '"')
    (noSingle : value.head? ≠ some '\'') (ends : Bars notBlank rest) :
    readValue (value ++ rest) = some (value, rest) := by
  have first (quote : Char) (other : value.head? ≠ some quote) (solid : notBlank quote = true) (s : List Char) :
      value ++ rest ≠ quote :: s := by
    intro same
    cases value with
    | nil =>
      rw [List.nil_append] at same
      have blank := ends quote (by rw [same]; rfl)
      rw [solid] at blank
      cases blank
    | cons c value => exact other (congrArg some (List.cons.inj same).1)
  unfold readValue
  split
  · rename_i s same
    exact absurd same (first '"' noDouble (by decide) s)
  · rename_i s same
    exact absurd same (first '\'' noSingle (by decide) s)
  · rw [span_append (fun c mem => by simp [notBlank, plain c mem]) ends]

/-- A value is read back in whichever form it was written. -/
theorem readValue_write (suits : form.Suits value) (ends : Bars notBlank rest) :
    readValue (form.write value ++ rest) = some (value, rest) := by
  cases form with
  | bare => exact readValue_bare suits.1 suits.2.1 suits.2.2 ends
  | single =>
    rw [ValueForm.write, enquoted, List.append_assoc, List.cons_append]
    exact readQuoted_enquoted (by decide) value rest
  | double =>
    rw [ValueForm.write, enquoted, List.append_assoc, List.cons_append]
    exact readQuoted_enquoted (by decide) value rest

/-! #### Reading parameters -/

/-- The characters of keys are not blank. -/
theorem isKeyChar_of_isBlank (blank : Text.isBlank c = true) : isKeyChar c = false := by
  have points : c.toNat ∈ List.range' 9 5 ++ [0x20, 0x85, 0xA0, 0x1680] ++ List.range' 0x2000 11 ++
      [0x2028, 0x2029, 0x202F, 0x205F, 0x3000] := by
    simp only [Text.isBlank, Bool.or_eq_true, Bool.and_eq_true, decide_eq_true_eq, beq_iff_eq] at blank
    simp only [List.mem_append, List.mem_range'_1, List.mem_cons, List.not_mem_nil]
    omega
  have none : (List.range' 9 5 ++ [0x20, 0x85, 0xA0, 0x1680] ++ List.range' 0x2000 11 ++
      [0x2028, 0x2029, 0x202F, 0x205F, 0x3000]).all (fun n => !isKeyChar (Char.ofNat n)) = true := by
    decide +kernel
  have here := List.all_eq_true.mp none _ points
  rw [Char.ofNat_toNat] at here
  simpa using here

theorem trimStart_solid (solid : Bars Text.isBlank s) : Text.trimStart s = s := by
  cases s with
  | nil => rfl
  | cons c s =>
    have first : Text.isBlank c = false := solid c rfl
    rw [Text.trimStart, List.dropWhile_cons_of_neg (by simp [first])]

theorem trimStart_gap {gap : List Char} (blank : ∀ c ∈ gap, Text.isBlank c = true) (solid : Bars Text.isBlank s) :
    Text.trimStart (gap ++ s) = s := by
  rw [Text.trimStart, List.dropWhile_append_of_pos blank]
  exact trimStart_solid solid

theorem readParams_written (p : Setting) (ends : Bars notBlank rest) (count : Nat) (params : Keyed String) :
    readParams (count + 1) params (p.written ++ rest) = readParams count (Keyed.putLast p.key p.value params) rest := by
  obtain ⟨full, plain⟩ := p.key_plain
  obtain ⟨c, letters, key⟩ := List.exists_cons_of_ne_nil (fun h => full (String.toList_eq_nil_iff.mp h))
  have solid : Bars Text.isBlank (p.key.toList ++ '=' :: (p.form.write p.value.toList ++ rest)) := by
    rw [key]
    refine Bars.cons (Bool.eq_false_iff.mpr fun blank => ?_) _
    have other := isKeyChar_of_isBlank blank
    rw [plain c (by rw [key]; exact List.mem_cons_self)] at other
    cases other
  have start : Text.trimStart (p.written ++ rest) =
      p.key.toList ++ '=' :: (p.form.write p.value.toList ++ rest) := by
    rw [Setting.written, List.append_assoc, List.append_assoc, List.cons_append]
    exact trimStart_gap p.gap_blank.2 solid
  have parts : (p.key.toList ++ '=' :: (p.form.write p.value.toList ++ rest)).span isKeyChar =
      (c :: letters, '=' :: (p.form.write p.value.toList ++ rest)) := by
    rw [span_append plain (Bars.cons (by decide) _), key]
  rw [readParams, start, if_neg (by simp [key]), parts]
  split
  · rename_i same
    cases same
    rw [readValue_write p.suits ends, ← key, String.ofList_toList]
    dsimp only
    rw [String.ofList_toList]
  · rename_i other
    exact absurd rfl (other c letters _)

theorem bars_settings (settings : List Setting) : Bars notBlank (settings.flatMap Setting.written) := by
  cases settings with
  | nil =>
    intro c mem
    cases mem
  | cons p settings =>
    obtain ⟨full, blank⟩ := p.gap_blank
    obtain ⟨c, gap, first⟩ := List.exists_cons_of_ne_nil full
    rw [List.flatMap_cons, Setting.written, first]
    exact Bars.cons (by simp [notBlank, blank c (by simp [first])]) _

theorem readParams_settings {count : Nat} (enough : settings.length < count) (params : Keyed String) :
    readParams count params (settings.flatMap Setting.written) =
      .ok (Keyed.putAllLast (settings.map Setting.pair) params) := by
  induction settings generalizing count params with
  | nil =>
    obtain ⟨count, rfl⟩ := Nat.exists_eq_succ_of_ne_zero (Nat.ne_of_gt enough)
    rfl
  | cons p settings ih =>
    obtain ⟨count, rfl⟩ := Nat.exists_eq_succ_of_ne_zero (Nat.ne_of_gt (Nat.zero_lt_of_lt enough))
    rw [List.flatMap_cons, readParams_written p (bars_settings settings), ih (Nat.lt_of_succ_lt_succ enough)]
    rfl

theorem length_settings (settings : List Setting) : settings.length ≤ (settings.flatMap Setting.written).length := by
  induction settings with
  | nil => exact Nat.le_refl 0
  | cons p settings ih =>
    rw [List.flatMap_cons, List.length_append, List.length_cons, Setting.written, List.length_append,
      List.length_append, List.length_cons]
    omega

/-! #### The ends of a head -/

theorem trim_solid (front : Bars Text.isBlank s) (back : Bars Text.isBlank s.reverse) : Text.trim s = s := by
  rw [Text.trim, trimStart_solid front, Text.trimEnd, Text.dropWhileEnd]
  exact (congrArg List.reverse (trimStart_solid back)).trans s.reverse_reverse

theorem bars_append {kind : Char → Bool} {t : List Char} (here : Bars kind s) (further : Bars kind t) :
    Bars kind (s ++ t) := by
  cases s with
  | nil => exact further
  | cons c s => exact Bars.cons (here c rfl) _

theorem bars_of_forall {kind : Char → Bool} (none : ∀ c ∈ s, kind c = false) : Bars kind s :=
  fun c first => none c (List.mem_of_head? first)

/-- A value does not end with a blank. -/
theorem bars_write (suits : form.Suits value) : Bars Text.isBlank (form.write value).reverse := by
  cases form with
  | bare => exact bars_of_forall fun c mem => suits.1 c (List.mem_reverse.mp mem)
  | single =>
    rw [ValueForm.write, enquoted, List.reverse_append]
    exact Bars.cons (by decide) _
  | double =>
    rw [ValueForm.write, enquoted, List.reverse_append]
    exact Bars.cons (by decide) _

theorem bars_written (p : Setting) : Bars Text.isBlank p.written.reverse := by
  rw [Setting.written, List.reverse_append, List.reverse_append, List.reverse_cons, List.append_assoc,
    List.append_assoc, List.singleton_append]
  exact bars_append (bars_write p.suits) (Bars.cons (by decide) _)

theorem bars_reverse_settings (settings : List Setting) :
    Bars Text.isBlank (settings.flatMap Setting.written).reverse := by
  induction settings with
  | nil =>
    intro c mem
    cases mem
  | cons p settings ih =>
    rw [List.flatMap_cons, List.reverse_append]
    exact bars_append ih (bars_written p)

/-! #### Heads -/

/-- A written head is read as its name and its parameters: each key once, where it came last, with its last
value. -/
theorem written_heads_are_read (name : String) (settings : List Setting) (full : name ≠ "")
    (solid : ∀ c ∈ name.toList, Text.isBlank c = false) :
    ∃ head, Head.parse (Head.written name settings) = .ok head ∧ head.name = name ∧
      Keyed.keys head.params = (settings.map (·.key)).dedup ∧
      ∀ key, Keyed.get? key head.params = Keyed.get? key (settings.map Setting.pair).reverse := by
  obtain ⟨c, letters, first⟩ := List.exists_cons_of_ne_nil (fun h => full (String.toList_eq_nil_iff.mp h))
  have front : Bars Text.isBlank (Head.written name settings) := by
    rw [Head.written, first]
    exact Bars.cons (solid c (by rw [first]; exact List.mem_cons_self)) _
  have back : Bars Text.isBlank (Head.written name settings).reverse := by
    rw [Head.written, List.reverse_append]
    exact bars_append (bars_reverse_settings settings)
      (bars_of_forall fun c mem => solid c (List.mem_reverse.mp mem))
  have parts : (Text.trim (Head.written name settings)).span notBlank =
      (name.toList, settings.flatMap Setting.written) := by
    rw [trim_solid front back, Head.written]
    exact span_append (fun c mem => by simp [notBlank, solid c mem]) (bars_settings settings)
  refine ⟨⟨name, Keyed.putAllLast (settings.map Setting.pair) []⟩, ?_, rfl, ?_, Keyed.get?_putAllLast _⟩
  · rw [Head.parse, parts]
    dsimp only
    rw [readParams_settings (Nat.lt_succ_of_le (length_settings settings)), String.ofList_toList]
    rfl
  · rw [Keyed.keys_putAllLast, Keyed.keys, List.map_map]
    rfl

theorem solid_of_all {s : List Char} (solid : s.all (fun c => !Text.isBlank c) = true) :
    ∀ c ∈ s, Text.isBlank c = false := by
  simpa using solid

/-- A key that comes twice, and values in all three forms with quotes, backslashes and an equals sign in them. -/
def titledBlock : List Setting := [
  ⟨[' '], "id", "a=\"b\"", .bare, ⟨by decide, List.all_eq_true.mp rfl⟩, ⟨by decide, List.all_eq_true.mp rfl⟩,
    ⟨solid_of_all rfl, by decide, by decide⟩⟩,
  ⟨['\t', ' '], "title", "it's \\", .single, ⟨by decide, List.all_eq_true.mp rfl⟩,
    ⟨by decide, List.all_eq_true.mp rfl⟩, trivial⟩,
  ⟨[' '], "id", "c \"d\"", .double, ⟨by decide, List.all_eq_true.mp rfl⟩, ⟨by decide, List.all_eq_true.mp rfl⟩,
    trivial⟩]

theorem titled_block_is_read :
    String.ofList (Head.written "block" titledBlock) =
        "block id=a=\"b\"\t title='it\\'s \\\\' id=\"c \\\"d\\\"\"" ∧
      "block" ≠ "" ∧ (∀ c ∈ "block".toList, Text.isBlank c = false) ∧
      ∃ head, Head.parse (Head.written "block" titledBlock) = .ok head ∧ head.name = "block" ∧
        Keyed.keys head.params = ["title", "id"] ∧
        ∀ key, Keyed.get? key head.params = Keyed.get? key
          [("id", "c \"d\""), ("title", "it's \\"), ("id", "a=\"b\"")] := by
  have full : "block" ≠ "" := by decide
  have solid : ∀ c ∈ "block".toList, Text.isBlank c = false := solid_of_all rfl
  exact ⟨by decide +kernel, full, solid, written_heads_are_read "block" titledBlock full solid⟩

end Markup

end Stencil
