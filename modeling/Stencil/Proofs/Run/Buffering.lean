import Stencil.Proofs.Run.Steps
import Stencil.Run.Program

/-!
What runs have to do with buffers. Buffers are opened by a statement of their own and closed by one call. A run without
these neither sees nor changes the outputs around it, so a buffer around it gathers exactly what it writes; and it
stops with no error about buffers, unless a function of the host does. Every run adds to what was written before.
-/
namespace Stencil

namespace Run

variable {α β : Type} {fs : Functions}

theorem bind_apply (m : Run α) (f : α → Run β) (s : RunState) :
    (m >>= f) s = (m s).bind fun r => f r.1 r.2 :=
  rfl

end Run

/-! ### Runs inside of others -/

/-- The state with other outputs around it: a text written before, and outputs held back. -/
def RunState.above (s : RunState) (front : String) (held : List String) : RunState :=
  { s with
    output := front ++ s.output
    held := held }

namespace Run

variable {α β : Type} {fs : Functions} {m : Run α} {body : Run Unit}

/-- A run neither sees nor changes what was written before and what is held back. -/
def Framed (run : Run α) : Prop :=
  ∀ s front held, run (s.above front held) = (run s).map fun r => (r.1, r.2.above front held)

theorem Framed.bind {f : α → Run β} (first : Framed m) (second : ∀ a, Framed (f a)) : Framed (m >>= f) := by
  intro s front held
  rw [bind_apply, bind_apply, first]
  cases m s with
  | error e => rfl
  | ok r => exact second r.1 r.2 front held

theorem Framed.lift (x : Except EvalError α) : Framed (Run.lift x) := by
  intro s front held
  cases x <;> rfl

theorem framed_steps (fs : Functions) : Run.Steps fs fun _ => Framed where
  pure _ := fun _ _ _ => rfl
  bind := Framed.bind
  lift _ := Framed.lift _
  lookup _ := fun _ _ _ => rfl
  write text := by
    intro s front held
    show Except.ok ((), { s with output := front ++ s.output ++ text, held := held }) =
      .ok ((), { s with output := front ++ (s.output ++ text), held := held })
    rw [String.append_assoc]
  setVar _ _ := fun _ _ _ => rfl
  call name args := Framed.bind (fun _ _ _ => rfl) fun _ => Framed.lift _
  inScope := by
    intro loop framed s front held
    have depth : (s.above front held).scope.depth = s.scope.depth := rfl
    show (loop (s.above front held)).bind _ = ((loop s).bind _).map _
    rw [framed, depth]
    cases loop s <;> rfl

/-- After a run the same outputs are held back as before. -/
theorem Framed.held_eq (framed : Framed m) {s t : RunState} {a : α} (ran : m s = .ok (a, t)) : t.held = s.held := by
  have around := framed s "" s.held
  have same : s.above "" s.held = s := by
    unfold RunState.above
    rw [String.empty_append]
  rw [same, ran] at around
  have last : t = t.above "" s.held := (Prod.mk.inj (Except.ok.inj around)).2
  rw [last]
  rfl

/-! ### Gathering -/

/-- Runs a body and gives what it writes. -/
def gather (body : Run Unit) : Run String := fun s =>
  (body { s with output := "" }).map fun r => (r.2.output, { r.2 with output := s.output })

theorem Framed.gather (framed : Framed body) : Framed (gather body) := by
  intro s front held
  have inner := framed { s with output := "" } "" held
  have start : { s.above front held with output := "" } = { s with output := "" }.above "" held := by
    unfold RunState.above
    rw [String.empty_append]
  show (body { s.above front held with output := "" }).map _ = ((body { s with output := "" }).map _).map _
  rw [start, inner]
  cases body { s with output := "" } with
  | error e => rfl
  | ok r =>
    obtain ⟨⟨⟩, t⟩ := r
    show Except.ok ("" ++ t.output, _) = .ok (t.output, _)
    rw [String.empty_append]
    rfl

/-- What is written while a buffer is open is what the body writes. -/
theorem buffered_eq (framed : Framed body) : (do openBuffer; body; closeBuffer) = gather body := by
  funext s
  have inner := framed { s with output := "" } "" (s.output :: s.held)
  have start : { s with output := "", held := s.output :: s.held } =
      { s with output := "" }.above "" (s.output :: s.held) := by
    unfold RunState.above
    rw [String.empty_append]
  show (body { s with output := "", held := s.output :: s.held }).bind _ = (body { s with output := "" }).map _
  rw [start, inner]
  cases ran : body { s with output := "" } with
  | error e => rfl
  | ok r =>
    obtain ⟨⟨⟩, t⟩ := r
    have held : t.held = s.held := framed.held_eq (s := { s with output := "" }) ran
    show Except.ok ("" ++ t.output, _) = .ok (t.output, _)
    rw [String.empty_append]
    show Except.ok (t.output, { t with output := s.output, held := s.held }) = _
    rw [← held]

/-- A text is gathered as it is. -/
theorem gather_write (text : String) : gather (write text) = pure text := by
  funext s
  show Except.ok ("" ++ text, s) = .ok (text, s)
  rw [String.empty_append]

/-! ### Errors about buffers -/

/-- A run that stops with an error about buffers only if a function of the host does. -/
def Unbuffered (fs : Functions) (run : Run α) : Prop :=
  ∀ s e, run s = .error e → e.Unbuffered ∨ ∃ name args, fs.call name args = .error e

theorem Unbuffered.of_calm (calm : ∀ s, Calm (m s)) : Unbuffered fs m := fun s e failed => .inl (calm s e failed)

theorem Unbuffered.bind {f : α → Run β} (first : Unbuffered fs m) (second : ∀ a, Unbuffered fs (f a)) :
    Unbuffered fs (m >>= f) := by
  intro s e failed
  rw [bind_apply] at failed
  cases ran : m s with
  | error e' =>
    rw [ran] at failed
    cases failed
    exact first s _ ran
  | ok r =>
    rw [ran] at failed
    exact second r.1 r.2 e failed

theorem unbuffered_steps (fs : Functions) : Run.Steps fs fun _ => Unbuffered fs where
  pure _ := .of_calm fun _ => .ok _
  bind := Unbuffered.bind
  lift calm := .of_calm fun _ => calm.map _
  lookup _ := .of_calm fun _ => .ok _
  write _ := .of_calm fun _ => .ok _
  setVar _ _ := .of_calm fun _ => .ok _
  call name args := by
    refine Unbuffered.bind (.of_calm fun _ => .ok _) fun _ s e failed => .inr ⟨name, args, ?_⟩
    unfold Run.lift at failed
    cases answer : fs.call name args with
    | error e' =>
      rw [answer] at failed
      cases failed
      rfl
    | ok v =>
      rw [answer] at failed
      cases failed
  inScope inner := Unbuffered.bind (.of_calm fun _ => .ok _) fun _ => inner.bind fun _ => .of_calm fun _ => .ok _

theorem Unbuffered.gather (unbuffered : Unbuffered fs body) : Unbuffered fs (gather body) := by
  intro s e failed
  refine unbuffered { s with output := "" } e ?_
  unfold Run.gather at failed
  cases ran : body { s with output := "" } with
  | error e' =>
    rw [ran] at failed
    cases failed
    rfl
  | ok r =>
    rw [ran] at failed
    cases failed

end Run

/-! ### Texts written before -/

/-- The outermost of some outputs with a text before it. -/
def prependLast (front : String) : List String → List String
  | [] => []
  | [output] => [front ++ output]
  | output :: outer :: held => output :: prependLast front (outer :: held)

/-- The state with a text before all that was written, also if that is held back. -/
def RunState.prepend (s : RunState) (front : String) : RunState :=
  match s.held with
  | [] => { s with output := front ++ s.output }
  | outer :: held => { s with held := prependLast front (outer :: held) }

theorem RunState.prepend_of_nil {s : RunState} (none : s.held = []) (front : String) :
    s.prepend front = { s with output := front ++ s.output } := by
  unfold RunState.prepend
  rw [none]

theorem RunState.prepend_held_nil {s : RunState} {front : String} (none : (s.prepend front).held = []) :
    s.held = [] := by
  unfold RunState.prepend at none
  split at none
  · assumption
  · rename_i outer held _
    cases held <;> cases none

theorem RunState.prepend_scope (s : RunState) (front : String) : (s.prepend front).scope = s.scope := by
  unfold RunState.prepend
  split <;> rfl

/-- Scopes change in the same way, whatever is written. -/
theorem RunState.prepend_change (s : RunState) (front : String) (f : Scope → Scope) :
    { s.prepend front with scope := f (s.prepend front).scope } =
      RunState.prepend { s with scope := f s.scope } front := by
  unfold RunState.prepend
  cases s.held <;> rfl

namespace Run

variable {α β : Type} {front : String} {m : Run α}

/-- A run does not see what was written before. -/
def Adds (front : String) (run : Run α) : Prop :=
  ∀ s, run (s.prepend front) = (run s).map fun r => (r.1, r.2.prepend front)

theorem Adds.bind {f : α → Run β} (first : Adds front m) (second : ∀ a, Adds front (f a)) : Adds front (m >>= f) := by
  intro s
  rw [bind_apply, bind_apply, first]
  cases m s with
  | error e => rfl
  | ok r => exact second r.1 r.2

theorem Adds.lift (x : Except EvalError α) : Adds front (Run.lift x) := fun s => by cases x <;> rfl

theorem Adds.modify {f : RunState → RunState} (same : ∀ s, f (s.prepend front) = (f s).prepend front) :
    Adds front (modify f : Run Unit) := fun s => congrArg (fun s => Except.ok ((), s)) (same s)

/-- Whatever buffers statements open and close, they do not see what was written before. -/
theorem adds_steps (fs : Functions) (front : String) : Run.AllSteps fs fun _ => Adds front where
  pure _ := fun _ => rfl
  bind := Adds.bind
  lift _ := Adds.lift _
  lookup name := fun s =>
    congrArg (fun scope => Except.ok (Scope.lookup name scope, s.prepend front)) (s.prepend_scope front)
  write text := by
    refine Adds.modify fun s => ?_
    unfold RunState.prepend
    cases s.held with
    | nil => exact congrArg (fun output => RunState.mk s.scope output [] s.calls) (String.append_assoc ..)
    | cons outer held => rfl
  setVar name v := Adds.modify fun s => s.prepend_change front (Scope.set name v)
  call name args := by
    refine Adds.bind (Adds.modify fun s => ?_) fun _ => Adds.lift _
    unfold RunState.prepend
    cases s.held <;> rfl
  inScope {loop} inner := by
    intro s
    have depth : (s.prepend front).scope.depth = s.scope.depth := congrArg Scope.depth (s.prepend_scope front)
    show (loop >>= fun _ => modify fun t => { t with scope := t.scope.truncate (s.prepend front).scope.depth }) _ = _
    rw [depth]
    exact Adds.bind inner (fun _ => Adds.modify fun t => t.prepend_change front (Scope.truncate s.scope.depth)) s
  openBuffer := by
    refine Adds.modify fun s => ?_
    unfold RunState.prepend
    cases s.held <;> rfl
  closeBuffer := by
    rintro ⟨scope, output, held, calls⟩
    cases held with
    | nil => rfl
    | cons outer held => cases held <;> rfl

end Run

/-- A page that is made between two texts, none of its output held back, is what the program makes between them. -/
theorem Program.run_between {p : Program} {fs : Functions} {front back : String} {page : Run Unit}
    (framed : Run.Framed page) (same : page = (do Run.write front; execAll fs p.body; Run.write back))
    (params : Value) : page (RunState.initial params) =
      (p.run params fs).map fun s => ((), { s with output := front ++ s.output ++ back }) := by
  have start : (RunState.initial params).prepend front = { RunState.initial params with output := "" ++ front } := by
    rw [RunState.prepend_of_nil rfl, String.empty_append]
    exact congrArg (fun output => { RunState.initial params with output := output }) String.append_empty
  have made : page (RunState.initial params) = ((execAll fs p.body (RunState.initial params)).map
      fun r => (r.1, r.2.prepend front)).bind fun r => Run.write back r.2 := by
    rw [← (Run.adds_steps fs front).execAll p.body, start, same]
    rfl
  unfold Program.run
  cases ran : execAll fs p.body (RunState.initial params) with
  | error e =>
    rw [made, ran]
    rfl
  | ok r =>
    obtain ⟨⟨⟩, s⟩ := r
    rw [ran] at made
    have none : s.held = [] := RunState.prepend_held_nil (framed.held_eq made)
    rw [made]
    dsimp only
    rw [if_pos (by rw [none]; rfl)]
    show Run.write back (s.prepend front) = _
    rw [RunState.prepend_of_nil none]
    rfl

end Stencil
