import Mathlib.Data.List.Forall2
import Mathlib.Data.List.Induction
import Mathlib.Logic.Relation
import Stencil.Proofs.Library.Watching
import Stencil.Value.Datum

/-!
What becomes of the data that a caller hands over. A datum has a value just in case nothing in it is unfit, and then the
value mirrors it: whole numbers are exact, lists have the same items in the same order, and of the entries of a map with
one key the last one counts, in the place of the first.
-/
namespace Stencil

/-! ### Tables -/

namespace Keyed

variable {α : Type}

/-- The table has every key once, where it came first, and what came under it last. -/
structure Tabulates (entries table : Keyed α) : Prop where
  keys : Keyed.keys table = (Keyed.keys entries).eraseDups
  values : ∀ key, get? key table = get? key entries.reverse

theorem get?_concat (entries : Keyed α) (key other : String) (a : α) :
    get? key (entries ++ [(other, a)]).reverse = if other = key then some a else get? key entries.reverse := by
  rw [List.reverse_append]
  rfl

theorem tabulates_putAll (entries : Keyed α) : Tabulates entries (putAll entries []) := by
  induction entries using List.reverseRecOn with
  | nil => exact ⟨rfl, fun _ => rfl⟩
  | append_singleton entries entry ih =>
    obtain ⟨key, a⟩ := entry
    rw [putAll_append]
    constructor
    · show Keyed.keys (put key a (putAll entries [])) = _
      rw [keys_put, ih.keys, Keyed.keys, Keyed.keys, List.map_append, List.eraseDups_append]
      by_cases known : key ∈ entries.map (·.1)
      · rw [if_pos (List.mem_eraseDups.mpr known)]
        simp [List.removeAll, known]
      · rw [if_neg fun mem => known (List.mem_eraseDups.mp mem)]
        simp [List.removeAll, known, List.eraseDups_cons]
    · intro other
      rw [get?_concat, ← ih.values]
      show get? other (put key a (putAll entries [])) = _
      by_cases same : key = other
      · rw [same, get?_put_self, if_pos rfl]
      · rw [get?_put_of_ne same, if_neg same]

/-- A table whose keys differ is known by its keys and what is found under them. -/
theorem eq_of_get? {table other : Keyed α} (apart : (keys table).Nodup) (same : keys table = keys other)
    (found : ∀ key, get? key table = get? key other) : table = other := by
  induction table generalizing other with
  | nil => exact (List.map_eq_nil_iff.mp same.symm).symm
  | cons first table ih =>
    obtain ⟨key, a⟩ := first
    cases other with
    | nil => cases same
    | cons first' other =>
      obtain ⟨key', b⟩ := first'
      obtain ⟨rfl, later⟩ := List.cons.inj same
      obtain ⟨new, apart⟩ := List.nodup_cons.mp apart
      have here := found key
      simp only [get?, if_true, Option.some.injEq] at here
      subst here
      refine congrArg _ (ih apart later fun k => ?_)
      by_cases itself : key = k
      · subst itself
        have absent : key ∉ keys other := fun mem => new (List.mem_map.mpr (List.mem_map.mp (later ▸ mem)))
        rw [get?_eq_none_iff.mpr new, get?_eq_none_iff.mpr absent]
      · have there := found k
        rwa [get?, get?, if_neg itself, if_neg itself] at there

theorem tabulates_iff {entries table : Keyed α} : Tabulates entries table ↔ table = putAll entries [] := by
  have made := tabulates_putAll entries
  refine ⟨fun tabulates => ?_, fun same => same ▸ made⟩
  have found (key : String) : get? key table = get? key (putAll entries []) :=
    (tabulates.values key).trans (made.values key).symm
  refine eq_of_get? ?_ (tabulates.keys.trans made.keys.symm) found
  rw [tabulates.keys, ← made.keys]
  exact nodup_keys_putAll List.nodup_nil

end Keyed

/-! ### Data -/

/-- The text of a value that can be a key. -/
inductive Value.Names : Value → String → Prop where
  | str (s : String) : Names (.str s) s
  | int (i : Int64) : Names (.int i) (String.ofList (Decimal.ofInt64 i))
  | bool (b : Bool) : Names (.bool b) (if b then "true" else "false")

namespace MapStep

def datum : MapStep → Datum
  | key d => d
  | value d => d

def isKey : MapStep → Bool
  | key _ => true
  | value _ => false

end MapStep

namespace Datum

/-- The whole number that a datum is, if it has no more than 64 bits. -/
def whole? : Datum → Option Int
  | int8 i => Option.some i.toInt
  | int16 i => Option.some i.toInt
  | int32 i => Option.some i.toInt
  | int64 i => Option.some i.toInt
  | uint8 n => Option.some n.toNat
  | uint16 n => Option.some n.toNat
  | uint32 n => Option.some n.toNat
  | uint64 n => Option.some n.toNat
  | _ => Option.none

/-- What stands directly in a datum. -/
def parts : Datum → List Datum
  | some d | newtypeStruct d | newtypeVariant _ d => [d]
  | seq items | tuple items | tupleStruct items | tupleVariant _ items => items
  | told steps => steps.map MapStep.datum
  | struct fields | structVariant _ fields => fields.map (·.2)
  | _ => []

/-- The part is the datum itself, or stands in it at any depth. -/
def Holds : Datum → Datum → Prop := Relation.ReflTransGen fun outer inner => inner ∈ outer.parts

/-- A text, a truth value or a whole number, as it is or in options and wrappers. -/
def IsKey : Datum → Prop
  | some d | newtypeStruct d => d.IsKey
  | str _ | char _ | unitVariant _ | bool _ => True
  | d => d.whole?.isSome = true

/-- Why a datum cannot become a value, whatever stands in it. -/
inductive Unfit : Datum → Prop where
  | large {n : UInt64} (above : Int64.maxValue.toInt < n.toNat) : Unfit (uint64 n)
  | int128 (i : Int) : Unfit (int128 i)
  | uint128 (n : Nat) : Unfit (uint128 n)
  | key {steps : List MapStep} {d : Datum} (mem : .key d ∈ steps) (other : ¬ d.IsKey) : Unfit (told steps)
  /-- A value before which no key was told. -/
  | keyless {before after : List MapStep} {d : Datum} (alone : ∀ k, before.getLast? ≠ Option.some (.key k)) :
    Unfit (told (before ++ .value d :: after))
  /-- It refuses itself, whatever would stand in it. -/
  | refused (reason : String) : Unfit (refused reason)

mutual

/-- The value says what the datum says. -/
inductive Mirrors : Datum → Value → Prop where
  | bool (b : Bool) : Mirrors (bool b) (.bool b)
  | whole {d : Datum} {n : Int} {i : Int64} (is : d.whole? = Option.some n) (exact : i.toInt = n) : Mirrors d (.int i)
  | float32 (x : Float32) : Mirrors (float32 x) (.float x.toFloat)
  | float64 (x : Float) : Mirrors (float64 x) (.float x)
  | char (c : Char) : Mirrors (char c) (.str (String.ofList [c]))
  | str (s : String) : Mirrors (str s) (.str s)
  | bytes {bs : List UInt8} {is : List Int64} (exact : is.map Int64.toInt = bs.map fun b => (b.toNat : Int)) :
    Mirrors (bytes bs) (.list (is.map .int))
  | none : Mirrors none .null
  | some {d : Datum} {v : Value} (inner : Mirrors d v) : Mirrors (some d) v
  | unit : Mirrors unit .null
  | unitStruct : Mirrors unitStruct .null
  | unitVariant (variant : String) : Mirrors (unitVariant variant) (.str variant)
  | newtypeStruct {d : Datum} {v : Value} (inner : Mirrors d v) : Mirrors (newtypeStruct d) v
  | newtypeVariant {d : Datum} {v : Value} (variant : String) (inner : Mirrors d v) :
    Mirrors (newtypeVariant variant d) (.map [(variant, v)])
  | seq {items : List Datum} {vs : List Value} (each : List.Forall₂ Mirrors items vs) : Mirrors (seq items) (.list vs)
  | tuple {items : List Datum} {vs : List Value} (each : List.Forall₂ Mirrors items vs) :
    Mirrors (tuple items) (.list vs)
  | tupleStruct {items : List Datum} {vs : List Value} (each : List.Forall₂ Mirrors items vs) :
    Mirrors (tupleStruct items) (.list vs)
  | tupleVariant {items : List Datum} {vs : List Value} (variant : String) (each : List.Forall₂ Mirrors items vs) :
    Mirrors (tupleVariant variant items) (.map [(variant, .list vs)])
  | told {steps : List MapStep} {entries table : Keyed Value} (tells : Tells Option.none steps entries)
    (made : Keyed.Tabulates entries table) : Mirrors (told steps) (.map table)
  | struct {fields : List (String × Datum)} {entries table : Keyed Value}
    (named : fields.map (·.1) = entries.map (·.1))
    (each : List.Forall₂ Mirrors (fields.map (·.2)) (entries.map (·.2)))
    (made : Keyed.Tabulates entries table) : Mirrors (struct fields) (.map table)
  | structVariant {fields : List (String × Datum)} {entries table : Keyed Value} (variant : String)
    (named : fields.map (·.1) = entries.map (·.1))
    (each : List.Forall₂ Mirrors (fields.map (·.2)) (entries.map (·.2)))
    (made : Keyed.Tabulates entries table) : Mirrors (structVariant variant fields) (.map [(variant, .map table)])

/-- What is told of a map are these entries, if `waiting` is the key that was told right before. -/
inductive Tells : Option String → List MapStep → Keyed Value → Prop where
  | done (waiting : Option String) : Tells waiting [] []
  | key {waiting : Option String} {d : Datum} {v : Value} {name : String} {steps : List MapStep}
    {entries : Keyed Value} (inner : Mirrors d v) (names : v.Names name)
    (rest : Tells (Option.some name) steps entries) : Tells waiting (.key d :: steps) entries
  | value {d : Datum} {v : Value} {name : String} {steps : List MapStep} {entries : Keyed Value}
    (inner : Mirrors d v) (rest : Tells Option.none steps entries) :
    Tells (Option.some name) (.value d :: steps) ((name, v) :: entries)

end

/-- Conversion gives what mirrors the datum, and nothing else. -/
def Faithful (d : Datum) : Prop := ∀ v, d.toValue = .ok v ↔ d.Mirrors v

def Converts (d : Datum) : Prop := ∃ v, d.toValue = .ok v

/-- A value before which no key was told, if a key `waits` at the start or does not. -/
def Keyless (waits : Bool) (steps : List MapStep) : Prop :=
  ∃ before d after, steps = before ++ .value d :: after ∧ (before.getLast?.map MapStep.isKey).getD waits = false

variable {d : Datum} {items : List Datum} {fields : List (String × Datum)} {steps : List MapStep}
  {waiting : Option String} {table made : Keyed Value} {v : Value} {vs : List Value}

/-! #### Inside a datum -/

theorem sizeOf_part {part : Datum} (mem : part ∈ d.parts) : sizeOf part < sizeOf d := by
  have field : ∀ {fields : List (String × Datum)}, part ∈ fields.map (·.2) → sizeOf part < sizeOf fields := by
    intro fields mem
    obtain ⟨field, fieldMem, rfl⟩ := List.mem_map.mp mem
    have smaller := List.sizeOf_lt_of_mem fieldMem
    have inner : sizeOf field = 1 + sizeOf field.1 + sizeOf field.2 := rfl
    omega
  have step : ∀ {steps : List MapStep}, part ∈ steps.map MapStep.datum → sizeOf part < sizeOf steps := by
    intro steps mem
    obtain ⟨step, stepMem, rfl⟩ := List.mem_map.mp mem
    have smaller := List.sizeOf_lt_of_mem stepMem
    have inner : sizeOf step = 1 + sizeOf step.datum := by cases step <;> rfl
    omega
  cases d with
  | some d | newtypeStruct d | newtypeVariant _ d =>
    rw [List.mem_singleton.mp mem]
    simp +arith
  | seq items | tuple items | tupleStruct items | tupleVariant _ items =>
    have smaller : sizeOf part < sizeOf items := List.sizeOf_lt_of_mem mem
    simp +arith
    omega
  | told steps =>
    have smaller := step mem
    simp +arith
    omega
  | struct fields | structVariant _ fields =>
    have smaller := field mem
    simp +arith
    omega
  | _ => cases mem

/-- What holds of a datum if it holds of what stands directly in it, holds of every datum. -/
theorem induction_on_parts {motive : Datum → Prop} (step : ∀ d, (∀ part ∈ d.parts, motive part) → motive d)
    (d : Datum) : motive d :=
  step d fun part _ => induction_on_parts step part
termination_by sizeOf d
decreasing_by exact sizeOf_part ‹_›

/-! #### One step of each conversion -/

theorem map_ok_iff {α β : Type} {f : α → β} {x : Except TemplateError α} {b : β} :
    x.map f = .ok b ↔ ∃ a, x = .ok a ∧ f a = b := by
  cases x <;> simp [Except.map]

theorem exists_map_ok_iff {α β : Type} (f : α → β) {x : Except TemplateError α} :
    (∃ b, x.map f = .ok b) ↔ ∃ a, x = .ok a := by
  simp [map_ok_iff]

theorem keyText_ok_iff {name : String} : keyText v = .ok name ↔ v.Names name := by
  constructor
  · intro ok
    cases v <;> cases ok
    · exact .bool _
    · exact .int _
    · exact .str _
  · rintro ⟨⟩ <;> rfl

theorem toValues_cons_ok_iff :
    toValues (d :: items) = .ok vs ↔ ∃ v rest, d.toValue = .ok v ∧ toValues items = .ok rest ∧ vs = v :: rest := by
  rw [toValues]
  cases d.toValue with
  | error e => simp
  | ok v => simp [map_ok_iff, @eq_comm _ vs]

theorem addFields_cons_ok_iff {name : String} :
    addFields table ((name, d) :: fields) = .ok made ↔
      ∃ v, d.toValue = .ok v ∧ addFields (Keyed.put name v table) fields = .ok made := by
  rw [addFields]
  cases d.toValue <;> simp

theorem addTold_key_ok_iff :
    addTold waiting table (.key d :: steps) = .ok made ↔
      ∃ v name, d.toValue = .ok v ∧ v.Names name ∧ addTold (Option.some name) table steps = .ok made := by
  simp only [← keyText_ok_iff, addTold]
  cases d.toValue with
  | error e => simp
  | ok v => cases named : keyText v <;> simp [named]

theorem addTold_value_ok_iff :
    addTold waiting table (.value d :: steps) = .ok made ↔
      ∃ name v, waiting = Option.some name ∧ d.toValue = .ok v ∧
        addTold Option.none (Keyed.put name v table) steps = .ok made := by
  cases waiting with
  | none => simp [addTold]
  | some name => cases converted : d.toValue <;> simp [addTold, converted]

/-! #### What is converted mirrors the data -/

theorem toValues_ok_iff (each : ∀ d ∈ items, d.Faithful) :
    toValues items = .ok vs ↔ List.Forall₂ Mirrors items vs := by
  induction items generalizing vs with
  | nil => simp [toValues, eq_comm]
  | cons d items ih =>
    obtain ⟨first, later⟩ := List.forall_mem_cons.mp each
    have first : ∀ v, d.toValue = .ok v ↔ d.Mirrors v := first
    rw [toValues_cons_ok_iff, List.forall₂_cons_left_iff]
    simp only [first, ih later]

theorem addFields_ok_iff (each : ∀ d ∈ fields.map (·.2), d.Faithful) :
    addFields table fields = .ok made ↔
      ∃ entries, fields.map (·.1) = entries.map (·.1) ∧
        List.Forall₂ Mirrors (fields.map (·.2)) (entries.map (·.2)) ∧ made = Keyed.putAll entries table := by
  induction fields generalizing table with
  | nil =>
    constructor
    · rintro ⟨⟩
      exact ⟨[], rfl, .nil, rfl⟩
    · rintro ⟨entries, named, -, rfl⟩
      rw [List.map_eq_nil_iff.mp named.symm]
      rfl
  | cons field fields ih =>
    obtain ⟨name, d⟩ := field
    obtain ⟨first, later⟩ := List.forall_mem_cons.mp each
    have first : ∀ v, d.toValue = .ok v ↔ d.Mirrors v := first
    simp only [addFields_cons_ok_iff, first, ih later]
    constructor
    · rintro ⟨v, mirrors, entries, named, rest, rfl⟩
      exact ⟨(name, v) :: entries, congrArg _ named, .cons mirrors rest, rfl⟩
    · rintro ⟨entries, named, mirrors, rfl⟩
      cases entries with
      | nil => cases named
      | cons entry entries =>
        obtain ⟨name', v⟩ := entry
        obtain ⟨rfl, others⟩ := List.cons.inj named
        obtain ⟨here, rest⟩ := List.forall₂_cons.mp mirrors
        exact ⟨v, here, entries, others, rest, rfl⟩

theorem addTold_ok_iff (each : ∀ d ∈ steps.map MapStep.datum, d.Faithful) :
    addTold waiting table steps = .ok made ↔
      ∃ entries, Tells waiting steps entries ∧ made = Keyed.putAll entries table := by
  induction steps generalizing waiting table with
  | nil =>
    constructor
    · rintro ⟨⟩
      exact ⟨[], .done waiting, rfl⟩
    · rintro ⟨entries, ⟨⟩, rfl⟩
      rfl
  | cons step steps ih =>
    obtain ⟨first, later⟩ := List.forall_mem_cons.mp each
    cases step with
    | key d =>
      have first : ∀ v, d.toValue = .ok v ↔ d.Mirrors v := first
      simp only [addTold_key_ok_iff, first, ih later]
      constructor
      · rintro ⟨v, name, mirrors, names, entries, rest, rfl⟩
        exact ⟨entries, .key mirrors names rest, rfl⟩
      · rintro ⟨entries, ⟨⟩, rfl⟩
        exact ⟨_, _, ‹_›, ‹_›, entries, ‹_›, rfl⟩
    | value d =>
      have first : ∀ v, d.toValue = .ok v ↔ d.Mirrors v := first
      simp only [addTold_value_ok_iff, first, ih later]
      constructor
      · rintro ⟨name, v, rfl, mirrors, entries, rest, rfl⟩
        exact ⟨(name, v) :: entries, .value mirrors rest, rfl⟩
      · rintro ⟨entries, ⟨⟩, rfl⟩
        exact ⟨_, _, rfl, ‹_›, _, ‹_›, rfl⟩

theorem mirrors_whole {n : Int} (is : d.whole? = Option.some n) (mirrors : d.Mirrors v) :
    ∃ i, v = .int i ∧ i.toInt = n := by
  cases mirrors with
  | whole is' exact =>
    rw [is] at is'
    exact ⟨_, rfl, exact.trans (Option.some.inj is').symm⟩
  | _ => cases is

theorem faithful_of_whole {n : Int} {i : Int64} (is : d.whole? = Option.some n) (exact : i.toInt = n)
    (converted : d.toValue = .ok (.int i)) : d.Faithful := by
  intro v
  rw [converted]
  constructor
  · rintro ⟨⟩
    exact .whole is exact
  · intro mirrors
    obtain ⟨i', rfl, exact'⟩ := mirrors_whole is mirrors
    rw [Int64.toInt_inj.mp (exact.trans exact'.symm)]

theorem faithful_uint64 (n : UInt64) : (uint64 n).Faithful := by
  by_cases small : n.toNat < 0x8000000000000000
  · exact faithful_of_whole rfl (Int64.toInt_ofNat_of_lt small) (if_pos small)
  · refine fun v => iff_of_false (fun ok => ?_) fun mirrors => ?_
    · simp [toValue, small] at ok
    · obtain ⟨i, -, exact⟩ := mirrors_whole rfl mirrors
      have := i.toInt_lt
      omega

theorem faithful_bytes (bs : List UInt8) : (bytes bs).Faithful := by
  have exact (b : UInt8) : (Int64.ofNat b.toNat).toInt = b.toNat :=
    Int64.toInt_ofNat_of_lt (by have := b.toNat_lt; omega)
  have numbers (is : List Int64) :
      is.map Int64.toInt = bs.map (fun b => (b.toNat : Int)) ↔ is = bs.map fun b => Int64.ofNat b.toNat := by
    simp only [← exact]
    rw [← List.map_inj_right fun _ _ => Int64.toInt_inj.mp, List.map_map]
    rfl
  have converted : (bytes bs).toValue = .ok (.list ((bs.map fun b => Int64.ofNat b.toNat).map .int)) := by
    rw [List.map_map]
    rfl
  intro v
  rw [converted]
  constructor
  · rintro ⟨⟩
    exact .bytes ((numbers _).mpr rfl)
  · intro mirrors
    cases mirrors with
    | whole is => cases is
    | bytes same => rw [(numbers _).mp same]

theorem faithful (d : Datum) : d.Faithful := by
  induction d using induction_on_parts with
  | step d ih =>
    cases d with
    | int8 i => exact faithful_of_whole rfl (Int8.toInt_toInt64 i) rfl
    | int16 i => exact faithful_of_whole rfl (Int16.toInt_toInt64 i) rfl
    | int32 i => exact faithful_of_whole rfl (Int32.toInt_toInt64 i) rfl
    | int64 i => exact faithful_of_whole rfl rfl rfl
    | uint8 n => exact faithful_of_whole rfl (Int64.toInt_ofNat_of_lt (by have := n.toNat_lt; omega)) rfl
    | uint16 n => exact faithful_of_whole rfl (Int64.toInt_ofNat_of_lt (by have := n.toNat_lt; omega)) rfl
    | uint32 n => exact faithful_of_whole rfl (Int64.toInt_ofNat_of_lt (by have := n.toNat_lt; omega)) rfl
    | uint64 n => exact faithful_uint64 n
    | bytes bs => exact faithful_bytes bs
    | int128 _ | uint128 _ | refused _ =>
      refine fun v => iff_of_false (fun ok => by cases ok) fun mirrors => ?_
      cases mirrors with | whole is => cases is
    | bool _ | float32 _ | float64 _ | char _ | str _ | none | unit | unitStruct | unitVariant _ =>
      refine fun v => ⟨fun ok => ?_, fun mirrors => ?_⟩
      · cases ok
        constructor
      · cases mirrors with
        | whole is => cases is
        | _ => rfl
    | some d =>
      refine fun v => (ih d (List.mem_singleton_self d) v).trans ⟨.some, fun mirrors => ?_⟩
      cases mirrors with
      | whole is => cases is
      | some inner => exact inner
    | newtypeStruct d =>
      refine fun v => (ih d (List.mem_singleton_self d) v).trans ⟨.newtypeStruct, fun mirrors => ?_⟩
      cases mirrors with
      | whole is => cases is
      | newtypeStruct inner => exact inner
    | newtypeVariant variant d =>
      have inner : ∀ v, d.toValue = .ok v ↔ d.Mirrors v := ih d (List.mem_singleton_self d)
      intro v
      simp only [toValue, map_ok_iff, inner]
      constructor
      · rintro ⟨v, mirrors, rfl⟩
        exact .newtypeVariant variant mirrors
      · intro mirrors
        cases mirrors with
        | whole is => cases is
        | newtypeVariant _ mirrors => exact ⟨_, mirrors, rfl⟩
    | seq items | tuple items | tupleStruct items =>
      intro v
      have items_ok : ∀ vs, toValues items = .ok vs ↔ List.Forall₂ Mirrors items vs := fun _ => toValues_ok_iff ih
      simp only [toValue, map_ok_iff, items_ok]
      constructor
      · rintro ⟨vs, each, rfl⟩
        constructor
        exact each
      · intro mirrors
        cases mirrors with
        | whole is => cases is
        | _ => exact ⟨_, ‹_›, rfl⟩
    | tupleVariant variant items =>
      intro v
      have items_ok : ∀ vs, toValues items = .ok vs ↔ List.Forall₂ Mirrors items vs := fun _ => toValues_ok_iff ih
      simp only [toValue, map_ok_iff, items_ok]
      constructor
      · rintro ⟨vs, each, rfl⟩
        exact .tupleVariant variant each
      · intro mirrors
        cases mirrors with
        | whole is => cases is
        | tupleVariant _ each => exact ⟨_, each, rfl⟩
    | told steps =>
      intro v
      simp only [toValue, map_ok_iff, addTold_ok_iff ih]
      constructor
      · rintro ⟨_, ⟨entries, tells, rfl⟩, rfl⟩
        exact .told tells (Keyed.tabulates_putAll entries)
      · intro mirrors
        cases mirrors with
        | whole is => cases is
        | told tells made => exact ⟨_, ⟨_, tells, Keyed.tabulates_iff.mp made⟩, rfl⟩
    | struct fields =>
      intro v
      simp only [toValue, map_ok_iff, addFields_ok_iff ih]
      constructor
      · rintro ⟨_, ⟨entries, named, each, rfl⟩, rfl⟩
        exact .struct named each (Keyed.tabulates_putAll entries)
      · intro mirrors
        cases mirrors with
        | whole is => cases is
        | struct named each made => exact ⟨_, ⟨_, named, each, Keyed.tabulates_iff.mp made⟩, rfl⟩
    | structVariant variant fields =>
      intro v
      simp only [toValue, map_ok_iff, addFields_ok_iff ih]
      constructor
      · rintro ⟨_, ⟨entries, named, each, rfl⟩, rfl⟩
        exact .structVariant variant named each (Keyed.tabulates_putAll entries)
      · intro mirrors
        cases mirrors with
        | whole is => cases is
        | structVariant _ named each made => exact ⟨_, ⟨_, named, each, Keyed.tabulates_iff.mp made⟩, rfl⟩

/-! #### What cannot be converted -/

/-- A datum that has a value can be a key just in case its value can. -/
theorem isKey_iff (d : Datum) : ∀ {v : Value}, d.toValue = .ok v → (d.IsKey ↔ ∃ name, v.Names name) := by
  induction d using induction_on_parts with
  | step d ih =>
    intro v ok
    have text : ∀ s, ∃ name, (Value.str s).Names name := fun s => ⟨s, .str s⟩
    have whole : ∀ i, ∃ name, (Value.int i).Names name := fun i => ⟨_, .int i⟩
    have truth : ∀ b, ∃ name, (Value.bool b).Names name := fun b => ⟨_, .bool b⟩
    cases d with
    | some d | newtypeStruct d => exact ih d (List.mem_singleton_self d) ok
    | str s | char s | unitVariant s => cases ok; exact iff_of_true trivial (text _)
    | bool b => cases ok; exact iff_of_true trivial (truth b)
    | int8 i | int16 i | int32 i | int64 i | uint8 i | uint16 i | uint32 i => cases ok; exact iff_of_true rfl (whole _)
    | uint64 n =>
      obtain ⟨i, rfl, -⟩ := mirrors_whole rfl ((faithful _ _).mp ok)
      exact iff_of_true rfl (whole i)
    | _ =>
      refine iff_of_false Bool.false_ne_true ?_
      rintro ⟨name, names⟩
      cases names <;> simp [toValue, map_ok_iff, tagged] at ok

theorem toValues_converts_iff : (∃ vs, toValues items = .ok vs) ↔ ∀ d ∈ items, d.Converts := by
  induction items with
  | nil => exact iff_of_true ⟨[], rfl⟩ (List.forall_mem_nil _)
  | cons d items ih =>
    rw [List.forall_mem_cons, ← ih]
    simp only [toValues_cons_ok_iff]
    constructor
    · rintro ⟨_, v, rest, ok, later, rfl⟩
      exact ⟨⟨v, ok⟩, rest, later⟩
    · rintro ⟨⟨v, ok⟩, rest, later⟩
      exact ⟨_, v, rest, ok, later, rfl⟩

theorem addFields_converts_iff :
    (∃ made, addFields table fields = .ok made) ↔ ∀ d ∈ fields.map (·.2), d.Converts := by
  induction fields generalizing table with
  | nil => exact iff_of_true ⟨table, rfl⟩ (List.forall_mem_nil _)
  | cons field fields ih =>
    obtain ⟨name, d⟩ := field
    rw [List.map_cons, List.forall_mem_cons]
    simp only [addFields_cons_ok_iff]
    constructor
    · rintro ⟨made, v, ok, later⟩
      exact ⟨⟨v, ok⟩, ih.mp ⟨made, later⟩⟩
    · rintro ⟨⟨v, ok⟩, later⟩
      obtain ⟨made, later⟩ := ih.mpr later
      exact ⟨made, v, ok, later⟩

theorem not_keyless_nil (waits : Bool) : ¬ Keyless waits [] := by
  rintro ⟨before, d, after, told, -⟩
  simp at told

theorem keyless_cons_iff {waits : Bool} {step : MapStep} :
    Keyless waits (step :: steps) ↔ (waits = false ∧ step.isKey = false) ∨ Keyless step.isKey steps := by
  constructor
  · rintro ⟨before, d, after, told, alone⟩
    cases before with
    | nil =>
      obtain ⟨rfl, -⟩ := List.cons.inj told
      exact .inl ⟨alone, rfl⟩
    | cons first before =>
      obtain ⟨rfl, rfl⟩ := List.cons.inj told
      refine .inr ⟨before, d, after, rfl, ?_⟩
      rw [List.getLast?_cons] at alone
      cases last : before.getLast? <;> simpa [last] using alone
  · rintro (⟨rfl, isValue⟩ | ⟨before, d, after, rfl, alone⟩)
    · cases step with
      | key d => cases isValue
      | value d => exact ⟨[], d, steps, rfl, rfl⟩
    · refine ⟨step :: before, d, after, rfl, ?_⟩
      rw [List.getLast?_cons]
      cases last : before.getLast? <;> simpa [last] using alone

theorem addTold_converts_iff :
    (∃ made, addTold waiting table steps = .ok made) ↔
      (∀ d ∈ steps.map MapStep.datum, d.Converts) ∧ (∀ d, .key d ∈ steps → d.IsKey) ∧
        ¬ Keyless waiting.isSome steps := by
  induction steps generalizing waiting table with
  | nil =>
    refine iff_of_true ⟨table, rfl⟩ ⟨List.forall_mem_nil _, ?_, not_keyless_nil _⟩
    intro d mem
    cases mem
  | cons step steps ih =>
    rw [List.map_cons, List.forall_mem_cons, keyless_cons_iff]
    have others (keys : ∀ d, MapStep.key d ∈ step :: steps → d.IsKey) : ∀ d, .key d ∈ steps → d.IsKey :=
      fun d mem => keys d (List.mem_cons_of_mem _ mem)
    cases step with
    | key d =>
      simp only [addTold_key_ok_iff]
      constructor
      · rintro ⟨made, v, name, ok, names, later⟩
        obtain ⟨converts, keys, keyed⟩ := ih.mp ⟨made, later⟩
        refine ⟨⟨⟨v, ok⟩, converts⟩, fun k mem => ?_, ?_⟩
        · rcases List.mem_cons.mp mem with here | mem
          · obtain rfl := MapStep.key.inj here
            exact (isKey_iff k ok).mpr ⟨name, names⟩
          · exact keys k mem
        · rintro (⟨-, ⟨⟩⟩ | keyless)
          exact keyed keyless
      · rintro ⟨⟨⟨v, ok⟩, converts⟩, keys, keyed⟩
        obtain ⟨name, names⟩ := (isKey_iff d ok).mp (keys d List.mem_cons_self)
        obtain ⟨made, later⟩ : ∃ made, addTold (Option.some name) table steps = .ok made :=
          ih.mpr ⟨converts, others keys, (not_or.mp keyed).2⟩
        exact ⟨made, v, name, ok, names, later⟩
    | value d =>
      simp only [addTold_value_ok_iff]
      constructor
      · rintro ⟨made, name, v, rfl, ok, later⟩
        obtain ⟨converts, keys, keyed⟩ := ih.mp ⟨made, later⟩
        refine ⟨⟨⟨v, ok⟩, converts⟩, fun k mem => ?_, ?_⟩
        · exact keys k ((List.mem_cons.mp mem).resolve_left nofun)
        · rintro (⟨⟨⟩, -⟩ | keyless)
          exact keyed keyless
      · rintro ⟨⟨⟨v, ok⟩, converts⟩, keys, keyed⟩
        cases waiting with
        | none => exact absurd (.inl ⟨rfl, rfl⟩) keyed
        | some name =>
          obtain ⟨made, later⟩ : ∃ made, addTold Option.none (Keyed.put name v table) steps = .ok made :=
            ih.mpr ⟨converts, others keys, (not_or.mp keyed).2⟩
          exact ⟨made, name, v, rfl, ok, later⟩

theorem unfit_told_iff : (told steps).Unfit ↔ (∃ d, .key d ∈ steps ∧ ¬ d.IsKey) ∨ Keyless false steps := by
  have alone_iff (before : List MapStep) :
      (∀ k, before.getLast? ≠ Option.some (.key k)) ↔ (before.getLast?.map MapStep.isKey).getD false = false := by
    rcases before.getLast? with _ | ⟨k | v⟩ <;> simp [MapStep.isKey]
  constructor
  · rintro (_ | _ | _ | ⟨mem, other⟩ | alone | _)
    · exact .inl ⟨_, mem, other⟩
    · exact .inr ⟨_, _, _, rfl, (alone_iff _).mp alone⟩
  · rintro (⟨d, mem, other⟩ | ⟨before, d, after, rfl, alone⟩)
    · exact .key mem other
    · exact .keyless ((alone_iff _).mpr alone)

/-- A datum has a value if it is fit and what stands directly in it has values. -/
theorem converts_iff (d : Datum) : d.Converts ↔ ¬ d.Unfit ∧ ∀ part ∈ d.parts, part.Converts := by
  unfold Converts
  cases d with
  | uint64 n =>
    rw [toValue]
    split
    · rename_i small
      refine iff_of_true ⟨_, rfl⟩ ⟨?_, nofun⟩
      rintro (above | _)
      rw [Int64.toInt_maxValue] at above
      omega
    · rename_i large
      refine iff_of_false (by rintro ⟨v, ⟨⟩⟩) fun ⟨fit, _⟩ => fit (.large ?_)
      rw [Int64.toInt_maxValue]
      omega
  | int128 i => exact iff_of_false (by rintro ⟨v, ⟨⟩⟩) fun ⟨fit, _⟩ => fit (.int128 i)
  | uint128 n => exact iff_of_false (by rintro ⟨v, ⟨⟩⟩) fun ⟨fit, _⟩ => fit (.uint128 n)
  | refused reason => exact iff_of_false (by rintro ⟨v, ⟨⟩⟩) fun ⟨fit, _⟩ => fit (.refused reason)
  | told steps =>
    rw [toValue, exists_map_ok_iff, addTold_converts_iff, unfit_told_iff]
    simp only [not_or, not_exists, not_and, not_not]
    exact And.comm
  | some d | newtypeStruct d =>
    rw [toValue, ← Converts, parts, List.forall_mem_singleton]
    exact ⟨fun converts => ⟨nofun, converts⟩, And.right⟩
  | newtypeVariant _ d =>
    rw [toValue, exists_map_ok_iff, ← Converts, parts, List.forall_mem_singleton]
    exact ⟨fun converts => ⟨nofun, converts⟩, And.right⟩
  | seq items | tuple items | tupleStruct items | tupleVariant _ items =>
    rw [toValue, exists_map_ok_iff, toValues_converts_iff]
    exact ⟨fun converts => ⟨nofun, converts⟩, And.right⟩
  | struct fields | structVariant _ fields =>
    rw [toValue, exists_map_ok_iff, addFields_converts_iff]
    exact ⟨fun converts => ⟨nofun, converts⟩, And.right⟩
  | _ => exact iff_of_true ⟨_, rfl⟩ ⟨nofun, nofun⟩

theorem converts_iff_holds (d : Datum) : d.Converts ↔ ∀ part, d.Holds part → ¬ part.Unfit := by
  induction d using induction_on_parts with
  | step d ih =>
    rw [converts_iff]
    constructor
    · rintro ⟨fit, converts⟩ part holds
      rcases Relation.ReflTransGen.cases_head holds with rfl | ⟨inner, mem, holds⟩
      · exact fit
      · exact (ih inner mem).mp (converts inner mem) part holds
    · intro fit
      exact ⟨fit d .refl, fun inner mem => (ih inner mem).mpr fun part holds => fit part (.head mem holds)⟩

/-- A datum fails to become a value just in case something unfit stands somewhere in it; and the value that it becomes
is the one that mirrors it. -/
theorem data_become_values (d : Datum) :
    ((∃ e, d.toValue = .error e) ↔ ∃ part, d.Holds part ∧ part.Unfit) ∧
    ∀ v, d.toValue = .ok v ↔ d.Mirrors v := by
  refine ⟨?_, faithful d⟩
  have converts := converts_iff_holds d
  unfold Converts at converts
  cases converted : d.toValue with
  | ok v =>
    refine iff_of_false (by rintro ⟨e, ⟨⟩⟩) ?_
    rintro ⟨part, holds, unfit⟩
    exact converts.mp ⟨v, converted⟩ part holds unfit
  | error e =>
    refine iff_of_true ⟨e, rfl⟩ ?_
    by_contra fit
    obtain ⟨v, ok⟩ := converts.mpr fun part holds unfit => fit ⟨part, holds, unfit⟩
    rw [converted] at ok
    cases ok

end Datum

end Stencil
