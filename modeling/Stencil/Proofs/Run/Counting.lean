import Stencil.Run.Program

/-!
Loops over numbers: which numbers they go through, and that they go through each once and in order.
-/
namespace Stencil

/-- A number does not pass the last one, counted in the direction of the step. -/
def Reached (step last i : Int) : Prop := if 0 < step then i ≤ last else last ≤ i

/-- The numbers `first`, `first + step`, … that do not pass `last`, each once and in order. -/
structure IsProgression (first last step : Int) (numbers : List Int64) : Prop where
  term : ∀ k (small : k < numbers.length), numbers[k].toInt = first + k * step
  reach : ∀ k : Nat, k < numbers.length ↔ Reached step last (first + k * step)

/-- So many numbers from `i` on. -/
def terms (step : Int64) : (count : Nat) → (i : Int64) → List Int64
  | 0, _ => []
  | count + 1, i => i :: terms step count (i + step)

theorem terms_length (step : Int64) (count : Nat) (i : Int64) : (terms step count i).length = count := by
  induction count generalizing i with
  | zero => rfl
  | succ count ih => rw [terms, List.length_cons, ih]

/-- No addition wraps as long as the sums are numbers of 64 bits. -/
theorem terms_get {step : Int64} {count : Nat} {i : Int64}
    (fits : ∀ k, k < count → -9223372036854775808 ≤ i.toInt + k * step.toInt ∧
      i.toInt + k * step.toInt < 9223372036854775808)
    (k : Nat) (small : k < (terms step count i).length) :
    (terms step count i)[k].toInt = i.toInt + k * step.toInt := by
  induction count generalizing i k with
  | zero => cases small
  | succ count ih =>
    cases k with
    | zero => simp [terms]
    | succ k =>
      have small' : k < (terms step count (i + step)).length := Nat.lt_of_succ_lt_succ small
      have more : 0 < count := by
        rw [terms_length] at small'
        omega
      have next : (i + step).toInt = i.toInt + step.toInt := by
        have sum := fits 1 (by omega)
        rw [Int64.toInt_add]
        exact Int.bmod_eq_of_le (by omega) (by omega)
      have distribute : ∀ k : Nat, (i + step).toInt + k * step.toInt = i.toInt + ((k + 1 : Nat) : Int) * step.toInt := by
        intro k
        rw [next, Int.natCast_add, Int.add_mul]
        omega
      have tail := ih (i := i + step) (fun k less => by
        rw [distribute]
        exact fits (k + 1) (by omega)) k small'
      rw [distribute] at tail
      exact tail

theorem lt_progressionLength {first last step : Int} (nonzero : step ≠ 0) (k : Nat) :
    k < progressionLength first last step ↔ Reached step last (first + k * step) := by
  unfold progressionLength Reached
  by_cases up : 0 < step
  · rw [if_pos up, if_pos up]
    have ahead : 0 ≤ k * step := Int.mul_nonneg (Int.natCast_nonneg k) (Int.le_of_lt up)
    by_cases empty : last < first
    · rw [if_pos empty]
      omega
    · rw [if_neg empty]
      have quotient := Int.ediv_nonneg (a := last - first) (b := step) (by omega) (by omega)
      have fits := Int.le_ediv_iff_mul_le (a := k) (b := last - first) up
      omega
  · rw [if_neg up, if_neg up]
    have down : 0 < -step := by omega
    have ahead : 0 ≤ k * -step := Int.mul_nonneg (Int.natCast_nonneg k) (Int.le_of_lt down)
    rw [Int.mul_neg] at ahead
    by_cases empty : first < last
    · rw [if_pos empty]
      omega
    · rw [if_neg empty]
      have quotient := Int.ediv_nonneg (a := first - last) (b := -step) (by omega) (by omega)
      have fits := Int.le_ediv_iff_mul_le (a := k) (b := first - last) down
      rw [Int.mul_neg] at fits
      omega

/-- The numbers that a loop goes through are the progression from its first number, up to both ends of 64 bits. -/
theorem isProgression_terms {first last step : Int64} (nonzero : step ≠ 0) :
    IsProgression first.toInt last.toInt step.toInt
      (terms step (progressionLength first.toInt last.toInt step.toInt) first) := by
  have nonzero' : step.toInt ≠ 0 := fun zero => nonzero (Int64.toInt_inj.mp zero)
  have reach : ∀ k, k < progressionLength first.toInt last.toInt step.toInt ↔ _ := lt_progressionLength nonzero'
  have fits : ∀ k, k < progressionLength first.toInt last.toInt step.toInt →
      -9223372036854775808 ≤ first.toInt + k * step.toInt ∧ first.toInt + k * step.toInt < 9223372036854775808 := by
    intro k less
    have reached := (reach k).mp less
    have firstLow := first.le_toInt
    have firstHigh := first.toInt_lt
    have lastLow := last.le_toInt
    have lastHigh := last.toInt_lt
    unfold Reached at reached
    split at reached
    · rename_i up
      have ahead : 0 ≤ k * step.toInt := Int.mul_nonneg (Int.natCast_nonneg k) (Int.le_of_lt up)
      omega
    · rename_i up
      have behind : k * step.toInt ≤ 0 := Int.mul_nonpos_of_nonneg_of_nonpos (Int.natCast_nonneg k) (by omega)
      omega
  constructor
  · exact fun k small => terms_get fits k small
  · intro k
    rw [terms_length]
    exact reach k

/-- Runs a body for each of the numbers in turn, with the variable at the number. -/
def runForEach (var : String) (body : Run Unit) : List Int64 → Run Unit
  | [] => pure ()
  | i :: rest => do
    Run.setVar var (.int i)
    body
    runForEach var body rest

theorem countLoop_eq_runForEach (var : String) (step : Int64) (body : Run Unit) (count : Nat) (i : Int64) :
    countLoop var step body count i = runForEach var body (terms step count i) := by
  induction count generalizing i with
  | zero => rfl
  | succ count ih => rw [countLoop, terms, runForEach, ih]

theorem runForEach_write (var text : String) (numbers : List Int64) (s : RunState) :
    ∃ scope, runForEach var (Run.write text) numbers s =
      .ok ((), { s with scope := scope, output := s.output ++ String.join (List.replicate numbers.length text) }) := by
  induction numbers generalizing s with
  | nil =>
    refine ⟨s.scope, ?_⟩
    show Except.ok ((), s) = .ok ((), { s with output := s.output ++ "" })
    rw [String.append_empty]
  | cons i numbers ih =>
    obtain ⟨scope, rest⟩ := ih { s with scope := s.scope.set var (.int i), output := s.output ++ text }
    refine ⟨scope, rest.trans ?_⟩
    rw [List.length_cons, List.replicate_succ, String.join_cons, String.append_assoc]

/-- A program that only does that makes a page of so many copies of the text. -/
theorem Program.execute_of_runForEach {p : Program} {fs : Functions} {var text : String} {numbers : List Int64}
    (runs : execAll fs p.body = inLoopScope (runForEach var (Run.write text) numbers)) (params : Value) :
    p.execute params fs = .ok (String.join (List.replicate numbers.length text)) := by
  obtain ⟨scope, wrote⟩ := runForEach_write var text numbers (RunState.initial params)
  have whole : inLoopScope (runForEach var (Run.write text) numbers) (RunState.initial params) =
      .ok ((), { RunState.initial params with
        scope := scope.truncate (RunState.initial params).scope.depth
        output := "" ++ String.join (List.replicate numbers.length text) }) := by
    show (runForEach var (Run.write text) numbers >>= fun _ => _) (RunState.initial params) = _
    change Except.bind (runForEach var (Run.write text) numbers (RunState.initial params)) _ = _
    rw [wrote]
    rfl
  unfold Program.execute Program.trace Program.run
  rw [runs, whole, String.empty_append]
  rfl

end Stencil
