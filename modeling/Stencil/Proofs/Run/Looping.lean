import Stencil.Proofs.Run.Counting

/-!
Loops over numbers, whatever their bodies do. The numbers come from the counter of the loop and not from its variable,
so a body may write to the variable: every round begins with the variable at the next number of the progression. The
counter stops where the next number has more than 64 bits.
-/
namespace Stencil

open Artifact (Expr Stmt)

theorem Scope.lookup_set (name : String) (v : Value) (s : Scope) : (s.set name v).lookup name = v := by
  unfold Scope.set
  split
  · simp [Scope.lookup]
  · simp [Scope.lookup, Scope.push, Keyed.get?]

/-! ### The counter -/

/-- A progression goes on from its second number. -/
theorem progressionLength_of_reached {first last step : Int} (nonzero : step ≠ 0) (reached : Reached step last first) :
    progressionLength first last step = progressionLength (first + step) last step + 1 := by
  have whole (k : Nat) : k < progressionLength first last step ↔ Reached step last (first + k * step) :=
    lt_progressionLength nonzero k
  have rest (k : Nat) :
      k < progressionLength (first + step) last step ↔ Reached step last (first + step + k * step) :=
    lt_progressionLength nonzero k
  have shift : ∀ k : Nat, k + 1 < progressionLength first last step ↔ k < progressionLength (first + step) last step := by
    intro k
    rw [whole, rest]
    have : first + ((k + 1 : Nat) : Int) * step = first + step + k * step := by
      rw [Int.natCast_add, Int.add_mul]
      omega
    rw [this]
  have some : 0 < progressionLength first last step := by
    rw [whole]
    simpa using reached
  have := shift (progressionLength first last step - 1)
  have := shift (progressionLength (first + step) last step)
  omega

theorem progressionLength_of_passed {first last step : Int} (nonzero : step ≠ 0) (passed : ¬ Reached step last first) :
    progressionLength first last step = 0 := by
  have none : 0 < progressionLength first last step ↔ Reached step last (first + (0 : Nat) * step) :=
    lt_progressionLength nonzero 0
  simp only [Int.natCast_zero, Int.zero_mul, Int.add_zero] at none
  have : ¬ 0 < progressionLength first last step := by
    rw [none]
    exact passed
  omega

/-- A number that does not pass the last one has 64 bits if the last one and the one before it have. -/
theorem fits_of_reached {first last step : Int64} (reached : Reached step.toInt last.toInt (first.toInt + step.toInt)) :
    ∃ next, Decimal.int64? (first.toInt + step.toInt) = some next := by
  have := first.le_toInt
  have := first.toInt_lt
  have := last.le_toInt
  have := last.toInt_lt
  unfold Reached at reached
  refine ⟨Int64.ofInt (first.toInt + step.toInt), if_pos ?_⟩
  split at reached <;> omega

/-- A loop whose number has not passed the last one runs its body with the variable at the number and goes on from the
next number, if that has 64 bits. -/
theorem countLoop_of_reached {first last step : Int64} (nonzero : step ≠ 0) (var : String) (body : Run Unit)
    (reached : Reached step.toInt last.toInt first.toInt) :
    countLoop var step body (progressionLength first.toInt last.toInt step.toInt) first = (do
      Run.setVar var (.int first)
      body
      match Decimal.int64? (first.toInt + step.toInt) with
      | some next => countLoop var step body (progressionLength next.toInt last.toInt step.toInt) next
      | none => pure ()) := by
  have nonzero' : step.toInt ≠ 0 := fun zero => nonzero (Int64.toInt_inj.mp zero)
  rw [progressionLength_of_reached nonzero' reached, countLoop]
  cases fits : Decimal.int64? (first.toInt + step.toInt) with
  | some next =>
    have same : next.toInt = first.toInt + step.toInt := Decimal.toInt_of_int64? fits
    have sum : first + step = next := by
      apply Int64.toInt_inj.mp
      have := next.le_toInt
      have := next.toInt_lt
      rw [Int64.toInt_add, ← same]
      exact Int.bmod_eq_of_le (by omega) (by omega)
    rw [← same, sum]
  | none =>
    have passed : ¬ Reached step.toInt last.toInt (first.toInt + step.toInt) := by
      intro reached
      obtain ⟨next, some⟩ := fits_of_reached reached
      cases fits.symm.trans some
    rw [progressionLength_of_passed nonzero' passed, countLoop]

/-- A loop whose number has passed the last one is over. -/
theorem countLoop_of_passed {first last step : Int64} (nonzero : step ≠ 0) (var : String) (body : Run Unit)
    (passed : ¬ Reached step.toInt last.toInt first.toInt) :
    countLoop var step body (progressionLength first.toInt last.toInt step.toInt) first = pure () := by
  have nonzero' : step.toInt ≠ 0 := fun zero => nonzero (Int64.toInt_inj.mp zero)
  rw [progressionLength_of_passed nonzero' passed, countLoop]

/-! ### Rounds -/

/-- The state with a variable at a number. -/
def RunState.counting (s : RunState) (var : String) (i : Int64) : RunState :=
  { s with scope := s.scope.set var (.int i) }

/-- The runs of a body for some numbers, one after the other. Each begins in the state that the one before it has left
but for the variable, which is seen to be at the number. -/
inductive Rounds (fs : Functions) (var : String) (body : List Stmt) : RunState → List Int64 → RunState → Prop where
  | none (s : RunState) : Rounds fs var body s [] s
  | next {s start after t : RunState} {i : Int64} {rest : List Int64} (begins : start = s.counting var i)
      (sees : start.scope.lookup var = .int i) (runs : execAll fs body start = .ok ((), after))
      (more : Rounds fs var body after rest t) : Rounds fs var body s (i :: rest) t

section Rounds

variable {fs : Functions} {var : String} {body : List Stmt}

theorem runForEach_cons (body : Run Unit) (i : Int64) (rest : List Int64) (s : RunState) :
    runForEach var body (i :: rest) s = (body (s.counting var i)).bind fun r => runForEach var body rest r.2 :=
  rfl

theorem runForEach_iff (numbers : List Int64) (s t : RunState) :
    runForEach var (execAll fs body) numbers s = .ok ((), t) ↔ Rounds fs var body s numbers t := by
  induction numbers generalizing s with
  | nil =>
    constructor
    · intro ran
      cases ran
      exact .none _
    · intro rounds
      cases rounds
      rfl
  | cons i rest ih =>
    rw [runForEach_cons]
    constructor
    · intro ran
      cases one : execAll fs body (s.counting var i) with
      | error e =>
        rw [one] at ran
        cases ran
      | ok r =>
        rw [one] at ran
        exact .next rfl (Scope.lookup_set ..) one ((ih r.2).mp ran)
    · intro rounds
      cases rounds with
      | next begins _ runs more =>
        subst begins
        rw [runs]
        exact (ih _).mpr more

/-- What stops the rounds stops one of them. -/
theorem runForEach_error {numbers : List Int64} {s : RunState} {e : EvalError}
    (stopped : runForEach var (execAll fs body) numbers s = .error e) :
    ∃ front i rest t, numbers = front ++ i :: rest ∧ Rounds fs var body s front t ∧
      execAll fs body (t.counting var i) = .error e := by
  induction numbers generalizing s with
  | nil => cases stopped
  | cons i rest ih =>
    rw [runForEach_cons] at stopped
    cases one : execAll fs body (s.counting var i) with
    | error e' =>
      rw [one] at stopped
      cases stopped
      exact ⟨[], i, rest, s, rfl, .none s, one⟩
    | ok r =>
      rw [one] at stopped
      obtain ⟨front, j, last, t, rfl, rounds, failed⟩ := ih stopped
      exact ⟨i :: front, j, last, t, rfl, .next rfl (Scope.lookup_set ..) one rounds, failed⟩

/-- A loop that goes through these numbers ends after their rounds, unless one of them stops. -/
theorem inLoopScope_runForEach (numbers : List Int64) (s : RunState) :
    (∃ t, Rounds fs var body s numbers t ∧ inLoopScope (runForEach var (execAll fs body) numbers) s =
      .ok ((), { t with scope := t.scope.truncate s.scope.depth })) ∨
    ∃ front i rest t e, numbers = front ++ i :: rest ∧ Rounds fs var body s front t ∧
      execAll fs body (t.counting var i) = .error e ∧
      inLoopScope (runForEach var (execAll fs body) numbers) s = .error e := by
  have around : inLoopScope (runForEach var (execAll fs body) numbers) s =
      (runForEach var (execAll fs body) numbers s).bind fun r =>
        .ok ((), { r.2 with scope := r.2.scope.truncate s.scope.depth }) := rfl
  rw [around]
  cases ran : runForEach var (execAll fs body) numbers s with
  | ok r => exact .inl ⟨r.2, (runForEach_iff numbers s r.2).mp ran, rfl⟩
  | error e =>
    obtain ⟨front, i, rest, t, parts, rounds, failed⟩ := runForEach_error ran
    exact .inr ⟨front, i, rest, t, e, parts, rounds, failed, rfl⟩

end Rounds

/-- Every run of the body for one of the numbers, if it comes to it, succeeds. -/
def RoundsSucceed (fs : Functions) (var : String) (body : List Stmt) (s : RunState) (numbers : List Int64) : Prop :=
  ∀ front i rest t, numbers = front ++ i :: rest → Rounds fs var body s front t →
    ∃ u, execAll fs body (t.counting var i) = .ok ((), u)

/-- A loop with a step of zero or of the wrong sign stops before its body runs. Any other one goes through the
progression of its first number, each number once and in order: if the runs of the body succeed, it ends after them,
and if it stops, one of them has stopped it. -/
theorem loops_run_their_progressions (fs : Functions) (var : String) (first last step : Expr) (descending : Bool)
    (body : List Stmt) {a b c : Int64} {s₀ s₁ s₂ s : RunState} (begins : evalInt fs "from" first s₀ = .ok (a, s₁))
    (ends : evalInt fs "to" last s₁ = .ok (b, s₂)) (goes : evalInt fs "step" step s₂ = .ok (c, s)) :
    (c = 0 ∨ decide (c < 0) ≠ descending →
      exec fs (.count var first last step descending body) s₀ = .error (.badStep c.toInt)) ∧
    (c ≠ 0 → decide (c < 0) = descending → ∃ numbers, IsProgression a.toInt b.toInt c.toInt numbers ∧
      (RoundsSucceed fs var body s numbers → ∃ t, Rounds fs var body s numbers t ∧
        exec fs (.count var first last step descending body) s₀ =
          .ok ((), { t with scope := t.scope.truncate s.scope.depth })) ∧
      ∀ e, exec fs (.count var first last step descending body) s₀ = .error e →
        ∃ front i rest t, numbers = front ++ i :: rest ∧ Rounds fs var body s front t ∧
          execAll fs body (t.counting var i) = .error e) := by
  have runs : exec fs (.count var first last step descending body) s₀ =
      (if c = 0 ∨ decide (c < 0) ≠ descending then Run.fail (.badStep c.toInt)
        else inLoopScope (countLoop var c (execAll fs body) (progressionLength a.toInt b.toInt c.toInt) a)) s := by
    show (evalInt fs "from" first s₀).bind _ = _
    rw [begins]
    show (evalInt fs "to" last s₁).bind _ = _
    rw [ends]
    show (evalInt fs "step" step s₂).bind _ = _
    rw [goes]
    rfl
  constructor
  · intro wrong
    rw [runs, if_pos wrong]
    rfl
  · intro nonzero sign
    rw [if_neg (by simp [nonzero, sign]), countLoop_eq_runForEach] at runs
    refine ⟨_, isProgression_terms nonzero, ?_, ?_⟩
    · intro succeeds
      rcases inLoopScope_runForEach _ s with ⟨t, rounds, ended⟩ | ⟨front, i, rest, t, e, parts, rounds, failed, -⟩
      · exact ⟨t, rounds, runs.trans ended⟩
      · obtain ⟨u, succeeded⟩ := succeeds front i rest t parts rounds
        cases failed.symm.trans succeeded
    · intro e stopped
      rcases inLoopScope_runForEach _ s with ⟨t, -, ended⟩ | ⟨front, i, rest, t, e', parts, rounds, failed, same⟩
      · cases stopped.symm.trans (runs.trans ended)
      · cases stopped.symm.trans (runs.trans same)
        exact ⟨front, i, rest, t, parts, rounds, failed⟩

/-- The variable is written to by a loop in the body, and the last number is the last one of 64 bits but one. -/
theorem last_rounds_are_run :
    let body : List Stmt :=
      [.count "i" (.lit (.int 5)) (.lit (.int 6)) (.lit (.int 1)) false [], .text "."]
    let loop (step : Int64) : Stmt :=
      .count "i" (.lit (.int 9223372036854775804)) (.lit (.int 9223372036854775807)) (.lit (.int step)) false body
    exec default (loop 0) (.initial .null) = .error (.badStep 0) ∧
    ∃ numbers, IsProgression 9223372036854775804 9223372036854775807 2 numbers ∧
      ∃ t, Rounds default "i" body (.initial .null) numbers t ∧
        exec default (loop 2) (.initial .null) = .ok ((), { t with scope := t.scope.truncate 0 }) := by
  intro body loop
  have reads (what : String) (i : Int64) :
      evalInt default what (.lit (.int i)) (.initial .null) = .ok (i, .initial .null) := rfl
  have stopped := loops_run_their_progressions default "i" _ _ _ false body (reads "from" 9223372036854775804)
    (reads "to" 9223372036854775807) (reads "step" 0)
  have runs := loops_run_their_progressions default "i" _ _ _ false body (reads "from" 9223372036854775804)
    (reads "to" 9223372036854775807) (reads "step" 2)
  obtain ⟨numbers, progression, ends, -⟩ := runs.2 (by decide) (by decide)
  refine ⟨stopped.1 (.inl rfl), numbers, progression, ends ?_⟩
  intro front i rest t parts rounds
  exact ⟨_, rfl⟩

end Stencil
