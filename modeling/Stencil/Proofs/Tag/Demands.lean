import Stencil.Proofs.Compile.TagEffects

/-!
What is known of parameters that have been checked: each is as it was written or has a default, and what is demanded
is there and of its kind.
-/
namespace Stencil

namespace Tag

variable {site : Site} {spec : ParamSpec} {specs : List ParamSpec} {params params' : Keyed String} {key value : String}

theorem apply_of_ok (run : spec.apply site params = .ok params') :
    (∃ value, Keyed.get? spec.name params = some value ∧ spec.kind.admits value = true ∧ params' = params) ∨
      ∃ value, Keyed.get? spec.name params = none ∧ spec.default? = some value ∧
        params' = Keyed.put spec.name value params := by
  unfold ParamSpec.apply at run
  split at run
  · rename_i missing
    split at run
    · rename_i value default
      cases run
      exact .inr ⟨value, missing, default, rfl⟩
    · cases run
  · rename_i value found
    split at run
    · rename_i admits
      cases run
      exact .inl ⟨value, found, admits, rfl⟩
    · cases run

/-- What is there stays. -/
theorem get?_apply (run : spec.apply site params = .ok params') (found : Keyed.get? key params = some value) :
    Keyed.get? key params' = some value := by
  rcases apply_of_ok run with ⟨-, -, -, rfl⟩ | ⟨_, missing, -, rfl⟩
  · exact found
  · rw [Keyed.get?_put_of_ne, found]
    intro same
    subst same
    rw [missing] at found
    cases found

theorem get?_applyAll (run : applyAll site specs params = .ok params') (found : Keyed.get? key params = some value) :
    Keyed.get? key params' = some value := by
  induction specs generalizing params with
  | nil =>
    cases run
    exact found
  | cons spec specs ih =>
    unfold applyAll at run
    cases first : spec.apply site params with
    | error e =>
      rw [first] at run
      cases run
    | ok params₁ =>
      rw [first] at run
      exact ih run (get?_apply first found)

/-- What is there was written, or is a default. -/
theorem written_or_default (run : applyAll site specs params = .ok params')
    (found : Keyed.get? key params' = some value) :
    Keyed.get? key params = some value ∨ ∃ spec ∈ specs, spec.name = key ∧ spec.default? = some value := by
  induction specs generalizing params with
  | nil =>
    cases run
    exact .inl found
  | cons spec specs ih =>
    unfold applyAll at run
    cases first : spec.apply site params with
    | error e =>
      rw [first] at run
      cases run
    | ok params₁ =>
      rw [first] at run
      rcases ih run with here | ⟨other, mem, same, default⟩
      · rcases apply_of_ok first with ⟨-, -, -, rfl⟩ | ⟨filled, -, default, rfl⟩
        · exact .inl here
        · rcases Keyed.get?_put here with ⟨same, rfl⟩ | ⟨-, before⟩
          · exact .inr ⟨spec, List.mem_cons_self, same, default⟩
          · exact .inl before
      · exact .inr ⟨other, List.mem_cons_of_mem _ mem, same, default⟩

/-- What is demanded is there: of its kind, or by default. -/
theorem exists_of_demanded (run : applyAll site specs params = .ok params') (mem : spec ∈ specs) :
    ∃ value, Keyed.get? spec.name params' = some value ∧
      (spec.kind.admits value = true ∨ spec.default? = some value) := by
  induction specs generalizing params with
  | nil => cases mem
  | cons first specs ih =>
    unfold applyAll at run
    cases applied : first.apply site params with
    | error e =>
      rw [applied] at run
      cases run
    | ok params₁ =>
      rw [applied] at run
      rcases List.mem_cons.mp mem with rfl | mem
      · rcases apply_of_ok applied with ⟨value, found, admits, rfl⟩ | ⟨value, -, default, rfl⟩
        · exact ⟨value, get?_applyAll run found, .inl admits⟩
        · exact ⟨value, get?_applyAll run (Keyed.get?_put_self _ _ _), .inr default⟩
      · exact ih run mem

theorem applyAll_of_checkParams {allowOthers : Bool}
    (run : checkParams site allowOthers specs params = .ok params') : applyAll site specs params = .ok params' := by
  unfold checkParams at run
  cases applied : applyAll site specs params with
  | error e =>
    rw [applied] at run
    cases run
  | ok params₁ =>
    rw [applied] at run
    dsimp only at run
    generalize (if allowOthers = true then [] else undeclared specs params₁) = others at run
    cases others with
    | nil =>
      cases run
      rfl
    | cons key others => cases run

end Tag

namespace Compile

variable {n : Node} {allowOthers : Bool} {specs : List Tag.ParamSpec} {params : Keyed String}

/-- A demanded parameter with its value, which was written or is the default. -/
theorem Checked.param (checked : Checked n allowOthers specs params) (spec : Tag.ParamSpec) (mem : spec ∈ specs) :
    ∃ value, (n.withParams params).param spec.name = value ∧
      (spec.kind.admits value = true ∨ spec.default? = some value) ∧
      (Keyed.get? spec.name n.params = some value ∨
        ∃ other ∈ specs, other.name = spec.name ∧ other.default? = some value) := by
  have applied := Tag.applyAll_of_checkParams checked
  obtain ⟨value, found, kind⟩ := Tag.exists_of_demanded applied mem
  refine ⟨value, ?_, kind, Tag.written_or_default applied found⟩
  show (Keyed.get? spec.name params).getD "" = value
  rw [found]
  rfl

end Compile

end Stencil
