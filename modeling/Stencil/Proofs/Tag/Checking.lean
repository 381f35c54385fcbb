import Stencil.Proofs.Decimal.Numerals
import Stencil.Proofs.Tag.Demands

/-!
What the check of a tag's parameters decides: every demand is met by the parameters as they were written, and unless
others are allowed there are no others. The parameters are then as they were, with the defaults of the missing ones
behind them. Otherwise the first demand that is not met is what is complained about.
-/
namespace Stencil

namespace Tag

/-! #### Kinds -/

/-- A letter of the Latin alphabet, a digit or an underscore. -/
def IsNameChar (c : Char) : Prop := c.isAlpha = true ∨ c.isDigit = true ∨ c = '_'

/-- What the values of a kind are. -/
def ParamKind.IsValue : ParamKind → String → Prop
  | var, value => ∃ c name, value.toList = '$' :: c :: name ∧ (∀ d ∈ c :: name, IsNameChar d) ∧ c.isDigit = false
  | int, value => ∃ i, Decimal.WholeNumeral value.toList i ∧ -2 ^ 63 ≤ i ∧ i < 2 ^ 63
  | number, value => ∃ x, Decimal.DecimalNumeral value.toList x ∧ |x| < Decimal.infinityBound
  | id, value => value ≠ ""
  | expr, _ | text, _ => True

theorem isNameChar_iff (c : Char) : IsNameChar c ↔ (c.isAlphanum || c == '_') = true := by
  simp [IsNameChar, Char.isAlphanum, or_assoc]

theorem isDigit_of_isAlpha {c : Char} (letter : c.isAlpha = true) : c.isDigit = false := by
  simp only [Char.isAlpha, Char.isUpper, Char.isLower, Char.isDigit, Bool.or_eq_true, Bool.and_eq_true,
    decide_eq_true_eq, Bool.and_eq_false_iff, decide_eq_false_iff_not, ge_iff_le, UInt32.le_iff_toNat_le] at *
  simp at *
  omega

/-- A name begins with what is no digit. -/
theorem first_iff (c : Char) : (c.isAlpha || c == '_') = true ↔ IsNameChar c ∧ c.isDigit = false := by
  constructor
  · intro first
    rcases Bool.or_eq_true _ _ ▸ first with letter | underscore
    · exact ⟨.inl letter, isDigit_of_isAlpha letter⟩
    · rw [eq_of_beq underscore]
      exact ⟨.inr (.inr rfl), rfl⟩
  · rintro ⟨letter | digit | rfl, other⟩
    · rw [letter]
      rfl
    · rw [digit] at other
      cases other
    · rfl

theorem isVariable_iff {s : List Char} :
    isVariable s = true ↔ ∃ c name, s = '$' :: c :: name ∧ (∀ d ∈ c :: name, IsNameChar d) ∧ c.isDigit = false := by
  have parts (c : Char) (name : List Char) : isVariable ('$' :: c :: name) = true ↔
      (∀ d ∈ c :: name, IsNameChar d) ∧ c.isDigit = false := by
    rw [isVariable, Bool.and_eq_true, first_iff, List.all_eq_true, List.forall_mem_cons]
    simp only [isNameChar_iff]
    tauto
  constructor
  · intro isName
    unfold isVariable at isName
    split at isName
    · exact ⟨_, _, rfl, (parts _ _).mp isName⟩
    · cases isName
  · rintro ⟨c, name, rfl, fine⟩
    exact (parts c name).mpr fine

theorem admits_iff (kind : ParamKind) (value : String) : kind.admits value = true ↔ kind.IsValue value := by
  cases kind with
  | var => exact isVariable_iff
  | int => exact Decimal.readInt64?_isSome_iff
  | number => exact Decimal.readFloat?_finite_iff
  | id => simp [ParamKind.admits, ParamKind.IsValue]
  | expr => exact iff_of_true rfl trivial
  | text => exact iff_of_true rfl trivial

/-! #### Demands -/

variable {site : Site} {spec : ParamSpec} {specs : List ParamSpec} {params params' : Keyed String} {e : TemplateError}

/-- A demand is met: the parameter is there and of its kind, or it is missing and there is a default. -/
def ParamSpec.Met (spec : ParamSpec) (params : Keyed String) : Prop :=
  (∃ value, Keyed.get? spec.name params = some value ∧ spec.kind.IsValue value) ∨
    spec.name ∉ Keyed.keys params ∧ ∃ value, spec.default? = some value

theorem met_iff (spec : ParamSpec) (params : Keyed String) : spec.Met params ↔
    ((Keyed.get? spec.name params).map spec.kind.admits).getD spec.default?.isSome = true := by
  unfold ParamSpec.Met
  cases found : Keyed.get? spec.name params with
  | none => simp [Keyed.get?_eq_none_iff.mp found, Option.isSome_iff_exists]
  | some value => simp [Keyed.mem_keys_of_get? found, admits_iff]

instance : Decidable (spec.Met params) := decidable_of_iff' _ (met_iff spec params)

/-- What is complained about if a demand is not met. -/
inductive ParamSpec.Complains (spec : ParamSpec) (site : Site) (params : Keyed String) : TemplateError → Prop where
  | missing (absent : spec.name ∉ Keyed.keys params) (required : spec.default? = none) :
      Complains spec site params (.missingParameter site spec.complaint)
  | mismatch {value : String} (found : Keyed.get? spec.name params = some value) (other : ¬ spec.kind.IsValue value) :
      Complains spec site params (.parameterType site (spec.mismatch value))

/-- The defaults of the missing parameters. -/
def defaults (specs : List ParamSpec) (params : Keyed String) : Keyed String :=
  specs.filterMap fun spec =>
    if spec.name ∈ Keyed.keys params then none else spec.default?.map fun value => (spec.name, value)

/-- The parameters that nothing demands, in their order. -/
def others (specs : List ParamSpec) (params : Keyed String) : List String :=
  (Keyed.keys params).filter (· ∉ specs.map (·.name))

variable {filled : Keyed String}

/-- Defaults of other demands do not matter to a demand. -/
theorem get?_filled (untouched : spec.name ∉ Keyed.keys filled) :
    Keyed.get? spec.name (params ++ filled) = Keyed.get? spec.name params := by
  rw [Keyed.get?_append, Keyed.get?_eq_none_iff.mpr untouched, Option.or_none]

/-- A demand that is met adds the default of a missing parameter. -/
theorem apply_of_met (met : spec.Met params) (untouched : spec.name ∉ Keyed.keys filled) :
    spec.apply site (params ++ filled) = .ok (params ++ (filled ++ defaults [spec] params)) := by
  unfold ParamSpec.apply defaults
  rw [get?_filled untouched]
  rcases met with ⟨value, found, isValue⟩ | ⟨absent, value, default⟩
  · have present := Keyed.mem_keys_of_get? found
    rw [found]
    simp [present, (admits_iff spec.kind value).mpr isValue]
  · have new : spec.name ∉ Keyed.keys (params ++ filled) := by
      rw [Keyed.keys, List.map_append, List.mem_append, not_or]
      exact ⟨absent, untouched⟩
    rw [Keyed.get?_eq_none_iff.mpr absent, default]
    simp [absent, default, Keyed.put_of_not_mem new]

/-- A demand that is not met is complained about. -/
theorem exists_complains (site : Site) (unmet : ¬ spec.Met params) : ∃ e, spec.Complains site params e := by
  obtain ⟨bad, undefaulted⟩ := not_or.mp unmet
  cases found : Keyed.get? spec.name params with
  | none =>
    have absent := Keyed.get?_eq_none_iff.mp found
    cases default : spec.default? with
    | none => exact ⟨_, .missing absent default⟩
    | some value => exact absurd ⟨absent, value, default⟩ undefaulted
  | some value => exact ⟨_, .mismatch found fun isValue => bad ⟨value, found, isValue⟩⟩

theorem apply_of_complains (complains : spec.Complains site params e) (untouched : spec.name ∉ Keyed.keys filled) :
    spec.apply site (params ++ filled) = .error e := by
  unfold ParamSpec.apply
  rw [get?_filled untouched]
  cases complains with
  | missing absent required => rw [Keyed.get?_eq_none_iff.mpr absent, required]
  | mismatch found other =>
    rw [found]
    exact if_neg fun admits => other ((admits_iff _ _).mp admits)

theorem ParamSpec.Complains.not_met (complains : spec.Complains site params e) : ¬ spec.Met params := by
  rintro (⟨value, found, isValue⟩ | ⟨absent, value, default⟩)
  · cases complains with
    | missing absent _ => exact absent (Keyed.mem_keys_of_get? found)
    | mismatch other mismatch =>
      cases found.symm.trans other
      exact mismatch isValue
  · cases complains with
    | missing _ required => cases required.symm.trans default
    | mismatch found _ => exact absent (Keyed.mem_keys_of_get? found)

/-! #### All demands -/

/-- What is complained about: the first demand that is not met. -/
def FirstComplaint (site : Site) (specs : List ParamSpec) (params : Keyed String) (e : TemplateError) : Prop :=
  ∃ before spec after, specs = before ++ spec :: after ∧ (∀ earlier ∈ before, earlier.Met params) ∧
    spec.Complains site params e

theorem FirstComplaint.not_all_met (complaint : FirstComplaint site specs params e) :
    ¬ ∀ spec ∈ specs, spec.Met params := by
  obtain ⟨before, spec, after, rfl, -, complains⟩ := complaint
  intro met
  exact complains.not_met (met spec (List.mem_append_right _ List.mem_cons_self))

theorem exists_firstComplaint (site : Site) (unmet : ¬ ∀ spec ∈ specs, spec.Met params) :
    ∃ e, FirstComplaint site specs params e := by
  induction specs with
  | nil => simp at unmet
  | cons spec specs ih =>
    by_cases met : spec.Met params
    · obtain ⟨e, before, first, after, rfl, earlier, complains⟩ :=
        ih fun all => unmet (List.forall_mem_cons.mpr ⟨met, all⟩)
      exact ⟨e, spec :: before, first, after, rfl, List.forall_mem_cons.mpr ⟨met, earlier⟩, complains⟩
    · obtain ⟨e, complains⟩ := exists_complains site met
      exact ⟨e, [], spec, specs, rfl, by simp, complains⟩

theorem defaults_cons (spec : ParamSpec) (specs : List ParamSpec) (params : Keyed String) :
    defaults (spec :: specs) params = defaults [spec] params ++ defaults specs params :=
  List.filterMap_append (l := [spec])

theorem keys_defaults_subset {key : String} (mem : key ∈ Keyed.keys (defaults specs params)) :
    key ∈ specs.map (·.name) := by
  obtain ⟨entry, added, rfl⟩ := List.mem_map.mp mem
  obtain ⟨spec, demanded, default⟩ := List.mem_filterMap.mp added
  split at default
  · cases default
  · obtain ⟨value, -, rfl⟩ := Option.map_eq_some_iff.mp default
    exact List.mem_map_of_mem demanded

/-- What one demand adds touches none of those that follow. -/
theorem untouched_of_nodup (params : Keyed String) (names : ((spec :: specs).map (·.name)).Nodup)
    (untouched : ∀ other ∈ spec :: specs, other.name ∉ Keyed.keys filled) :
    ∀ other ∈ specs, other.name ∉ Keyed.keys (filled ++ defaults [spec] params) := by
  intro other mem
  rw [Keyed.keys, List.map_append, List.mem_append, not_or]
  refine ⟨untouched other (List.mem_cons_of_mem _ mem), fun added => ?_⟩
  have same : other.name = spec.name := List.mem_singleton.mp (keys_defaults_subset added)
  have named : other.name ∈ specs.map (·.name) := List.mem_map_of_mem mem
  rw [same] at named
  exact (List.nodup_cons.mp names).1 named

/-- Demands that are met add their defaults, and leave those that follow as they are. -/
theorem applyAll_append_of_met (site : Site) (before after : List ParamSpec) (filled : Keyed String)
    (names : ((before ++ after).map (·.name)).Nodup)
    (untouched : ∀ spec ∈ before ++ after, spec.name ∉ Keyed.keys filled) (met : ∀ spec ∈ before, spec.Met params) :
    (∀ spec ∈ after, spec.name ∉ Keyed.keys (filled ++ defaults before params)) ∧
      applyAll site (before ++ after) (params ++ filled) =
        applyAll site after (params ++ (filled ++ defaults before params)) := by
  induction before generalizing filled with
  | nil =>
    rw [defaults, List.filterMap_nil, List.append_nil]
    exact ⟨untouched, rfl⟩
  | cons spec before ih =>
    obtain ⟨first, met⟩ := List.forall_mem_cons.mp met
    have later := ih _ (List.nodup_cons.mp names).2 (untouched_of_nodup params names untouched) met
    rw [List.append_assoc, ← defaults_cons] at later
    refine ⟨later.1, ?_⟩
    rw [List.cons_append, applyAll, apply_of_met first (untouched spec List.mem_cons_self)]
    exact later.2

theorem applyAll_of_met (site : Site) (names : (specs.map (·.name)).Nodup) (met : ∀ spec ∈ specs, spec.Met params) :
    applyAll site specs params = .ok (params ++ defaults specs params) := by
  have run := (applyAll_append_of_met site specs [] [] (by simpa using names) (by simp [Keyed.keys]) met).2
  simpa [applyAll] using run

theorem applyAll_of_firstComplaint (names : (specs.map (·.name)).Nodup)
    (complaint : FirstComplaint site specs params e) : applyAll site specs params = .error e := by
  obtain ⟨before, spec, after, rfl, met, complains⟩ := complaint
  obtain ⟨untouched, run⟩ := applyAll_append_of_met site before _ [] names (by simp [Keyed.keys]) met
  rw [List.append_nil] at run
  rw [run, applyAll, apply_of_complains complains (untouched spec List.mem_cons_self)]

/-- Defaults are demanded. -/
theorem undeclared_filled : undeclared specs (params ++ defaults specs params) = others specs params := by
  have demanded (key : String) : (!specs.any (·.name = key)) = decide (key ∉ specs.map (·.name)) := by
    rw [decide_not, Bool.not_inj_iff, Bool.eq_iff_iff]
    simp
  have none : (Keyed.keys (defaults specs params)).filter (fun key => key ∉ specs.map (·.name)) = [] :=
    List.filter_eq_nil_iff.mpr fun key mem => by simpa using keys_defaults_subset mem
  unfold undeclared others
  rw [List.filter_congr fun key _ => demanded key]
  rw [Keyed.keys, List.map_append, List.filter_append]
  exact (congrArg _ none).trans (List.append_nil _)

/-- What is said of parameters that nothing demands. -/
def unknown (specs : List ParamSpec) (params : Keyed String) : String :=
  "One or more unknown parameters: '" ++ ",".intercalate (others specs params) ++ "'"

/-- Once all demands are met, only the others matter. -/
theorem checkParams_of_met (allowOthers : Bool) (names : (specs.map (·.name)).Nodup)
    (met : ∀ spec ∈ specs, spec.Met params) :
    checkParams site allowOthers specs params =
      if allowOthers = true ∨ others specs params = [] then .ok (params ++ defaults specs params)
      else .error (.parameterType site (unknown specs params)) := by
  unfold checkParams unknown
  rw [applyAll_of_met site names met]
  dsimp only
  rw [undeclared_filled]
  cases allowOthers
  · cases others specs params <;> simp
  · simp

/-- Parameters pass the check exactly where all demands are met by what was written and there are no others unless
these are allowed; then the defaults of the missing ones stand behind what was written. The complaint is about the
first demand that is not met, and about the others only where all are met. -/
theorem checks_decide_the_demands (site : Site) (allowOthers : Bool) (specs : List ParamSpec) (params : Keyed String)
    (names : (specs.map (·.name)).Nodup) :
    (∀ checked, checkParams site allowOthers specs params = .ok checked ↔
      (∀ spec ∈ specs, spec.Met params) ∧ (allowOthers = true ∨ others specs params = []) ∧
        checked = params ++ defaults specs params) ∧
    ∀ e, checkParams site allowOthers specs params = .error e ↔
      FirstComplaint site specs params e ∨
        (∀ spec ∈ specs, spec.Met params) ∧ ¬ (allowOthers = true ∨ others specs params = []) ∧
          e = .parameterType site (unknown specs params) := by
  by_cases met : ∀ spec ∈ specs, spec.Met params
  · have content (e : TemplateError) : ¬ FirstComplaint site specs params e := fun h => h.not_all_met met
    rw [checkParams_of_met allowOthers names met]
    by_cases fine : allowOthers = true ∨ others specs params = []
    · rw [if_pos fine]
      refine ⟨fun checked => ?_, fun e => by simp [fine, content]⟩
      rw [Except.ok.injEq]
      exact ⟨fun same => ⟨met, fine, same.symm⟩, fun all => all.2.2.symm⟩
    · rw [if_neg fine]
      refine ⟨fun checked => by simp [fine], fun e => ?_⟩
      rw [Except.error.injEq]
      exact ⟨fun same => .inr ⟨met, fine, same.symm⟩, fun h => (h.resolve_left (content e)).2.2.symm⟩
  · obtain ⟨found, complaint⟩ := exists_firstComplaint site met
    have run : checkParams site allowOthers specs params = .error found := by
      unfold checkParams
      rw [applyAll_of_firstComplaint names complaint]
    rw [run]
    refine ⟨fun checked => by simp [met], fun e => ?_⟩
    have only : FirstComplaint site specs params e ↔ found = e :=
      ⟨fun other => Except.error.inj
          ((applyAll_of_firstComplaint names complaint).symm.trans (applyAll_of_firstComplaint names other)),
        fun same => same ▸ complaint⟩
    simp [met, only]

/-- The demands of a counting loop. A missing start stands behind what was written; a step in words is what is
complained about, although there is another parameter. -/
theorem loop_parameters_are_checked :
    let specs : List ParamSpec :=
      [.required "var" .var, .required "to" .int, .optional "from" .int "0", .optional "step" .int "1"]
    let site : Site := ⟨"for", "page", 3⟩
    (specs.map (·.name)).Nodup ∧
      checkParams site false specs [("to", "+3"), ("step", "-1"), ("var", "$i")] =
        .ok [("to", "+3"), ("step", "-1"), ("var", "$i"), ("from", "0")] ∧
      checkParams site false specs [("to", "+3"), ("step", "one"), ("var", "$i"), ("by", "2")] =
        .error (.parameterType site "Parameter 'step' must be an integer, got 'one'") := by
  intro specs site
  have names : (specs.map (·.name)).Nodup := by decide
  refine ⟨names, ?_, ?_⟩
  · exact ((checks_decide_the_demands site false specs _ names).1 _).mpr ⟨by decide, .inr (by decide), by decide⟩
  · refine ((checks_decide_the_demands site false specs _ names).2 _).mpr (.inl ?_)
    refine ⟨specs.take 3, .optional "step" .int "1", [], rfl, by decide, ?_⟩
    have word : ¬ ParamKind.int.IsValue "one" := fun isValue => absurd ((admits_iff _ _).mpr isValue) (by decide)
    exact @ParamSpec.Complains.mismatch _ site _ "one" rfl word

end Tag

end Stencil
