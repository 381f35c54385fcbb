import Stencil.Main

/-!
What running does to the variables. A statement leaves the variables around it in their places, and only those that
have the name of a variable of one of its loops can get another value: a loop writes to the innermost variable of
the name, so that an enclosing loop which uses the same name is written to as well. The main statement says that
every other lookup gives after a loop what it gave before.
-/
namespace Stencil

open Artifact (Expr Stmt Alternative)

/-! ### Names of loop variables -/

namespace Artifact

mutual

/-- The variables of all loops in a statement, itself included. -/
def Stmt.loopNames : Stmt → List String
  | .branch _ body otherwise => blockLoopNames body ++ otherwise.loopNames
  | .count var _ _ _ _ body => var :: blockLoopNames body
  | .each _ key value body => key.toList ++ value :: blockLoopNames body
  | _ => []

def blockLoopNames : List Stmt → List String
  | [] => []
  | s :: rest => s.loopNames ++ blockLoopNames rest

def Alternative.loopNames : Alternative → List String
  | .nothing => []
  | .otherwise body => blockLoopNames body
  | .branch _ body rest => blockLoopNames body ++ rest.loopNames

end

end Artifact

/-! ### Scopes before and after -/

namespace Scope

/-- The same variables in the same places, and new values at most for those with one of the names. -/
def Kept (names : List String) (s t : Scope) : Prop :=
  t.root = s.root ∧ Keyed.keys t.locals = Keyed.keys s.locals ∧
    ∀ name, name ∉ names → Keyed.get? name t.locals = Keyed.get? name s.locals

/-- The same, but for variables with one of the names that have come inside of all others. -/
def Grown (names : List String) (s t : Scope) : Prop :=
  ∃ fresh kept, t.locals = fresh ++ kept ∧ Kept names s { t with locals := kept } ∧
    ∀ name ∈ Keyed.keys fresh, name ∈ names

variable {names more : List String} {s t u : Scope}

theorem get?_append {α : Type} {name : String} {first : Keyed α} (absent : name ∉ Keyed.keys first)
    (second : Keyed α) : Keyed.get? name (first ++ second) = Keyed.get? name second := by
  rw [Keyed.get?_append, Keyed.get?_eq_none_iff.mpr absent, Option.none_or]

theorem Kept.refl (names : List String) (s : Scope) : Kept names s s := ⟨rfl, rfl, fun _ _ => rfl⟩

theorem Kept.trans (first : Kept names s t) (second : Kept names t u) : Kept names s u :=
  ⟨second.1.trans first.1, second.2.1.trans first.2.1,
    fun name other => (second.2.2 name other).trans (first.2.2 name other)⟩

theorem Kept.mono (kept : Kept names s t) (subset : names ⊆ more) : Kept more s t :=
  ⟨kept.1, kept.2.1, fun name other => kept.2.2 name fun mem => other (subset mem)⟩

theorem Kept.grown (kept : Kept names s t) : Grown names s t :=
  ⟨[], t.locals, rfl, kept, by simp [Keyed.keys]⟩

theorem Kept.depth (kept : Kept names s t) : t.depth = s.depth := by
  have same := congrArg List.length kept.2.1
  simpa [Keyed.keys, Scope.depth] using same

/-- A lookup changes only for a name of a loop that an enclosing loop uses already. -/
theorem Kept.lookup (kept : Kept names s t) {name : String}
    (apart : ¬ (name ∈ names ∧ name ∈ Keyed.keys s.locals)) : t.lookup name = s.lookup name := by
  have same : Keyed.get? name t.locals = Keyed.get? name s.locals := by
    by_cases mem : name ∈ names
    · have absent : name ∉ Keyed.keys s.locals := fun present => apart ⟨mem, present⟩
      rw [Keyed.get?_eq_none_iff.mpr absent, Keyed.get?_eq_none_iff.mpr (by rw [kept.2.1]; exact absent)]
    · exact kept.2.2 name mem
  unfold Scope.lookup
  rw [same, kept.1]

theorem Grown.trans (first : Grown names s t) (second : Grown names t u) : Grown names s u := by
  obtain ⟨fresh, kept, parts, keptFirst, named⟩ := first
  obtain ⟨fresh', kept', parts', keptSecond, named'⟩ := second
  -- what had come by `t` lies in `u` between what came later and what `s` had
  have keys : Keyed.keys kept' = Keyed.keys fresh ++ Keyed.keys kept := by
    have all := keptSecond.2.1
    rw [parts] at all
    simpa [Keyed.keys] using all
  obtain ⟨inner, outer, split, innerKeys, outerKeys⟩ := List.map_eq_append_iff.mp keys
  have unnamed : ∀ name, name ∉ names → Keyed.get? name outer = Keyed.get? name kept := by
    intro name other
    have here := keptSecond.2.2 name other
    simp only [parts, split] at here
    rw [get?_append (fun mem => other (named name mem)),
      get?_append (fun mem => other (named name (by rw [← innerKeys]; exact mem)))] at here
    exact here
  have between : Kept names s { u with locals := outer } :=
    ⟨keptSecond.1.trans keptFirst.1, (Eq.trans outerKeys keptFirst.2.1 : _),
      fun name other => (unnamed name other).trans (keptFirst.2.2 name other)⟩
  apply Exists.intro (fresh' ++ inner)
  apply Exists.intro outer
  constructor
  · rw [parts', split, List.append_assoc]
  constructor
  · exact between
  · intro name mem
    simp only [Keyed.keys, List.map_append, List.mem_append] at mem
    rcases mem with mem | mem
    · exact named' name mem
    · exact named name (by rw [← innerKeys]; exact mem)

theorem Grown.set {name : String} (mem : name ∈ names) (v : Value) (s : Scope) :
    Grown names s (s.set name v) := by
  unfold Scope.set
  split
  · rename_i has
    obtain ⟨old, found⟩ := Option.isSome_iff_exists.mp has
    apply Kept.grown
    constructor
    · rfl
    constructor
    · exact (Keyed.keys_put name v s.locals).trans (if_pos (Keyed.mem_keys_of_get? found))
    · intro other unnamed
      have apart : name ≠ other := fun same => unnamed (same ▸ mem)
      exact Keyed.get?_put_of_ne apart v s.locals
  · exact ⟨[(name, v)], s.locals, rfl, Kept.refl names s, by simp [Keyed.keys, mem]⟩

/-- Dropping what is deeper than before leaves what was there before. -/
theorem Grown.truncate (grown : Grown names s t) : Kept names s (t.truncate s.depth) := by
  obtain ⟨fresh, kept, parts, keptAll, -⟩ := grown
  have same : kept.length = s.depth := keptAll.depth
  have rest : (t.truncate s.depth).locals = kept := by
    simp [Scope.truncate, parts, ← same]
  have whole : t.truncate s.depth = { t with locals := kept } := by
    rw [← rest]; rfl
  rw [whole]
  exact keptAll

end Scope

/-! ### Runs -/

namespace Run

variable {α β : Type} {names : List String} {R : Scope → Scope → Prop}

theorem bind_ok {m : Run α} {f : α → Run β} {s t : RunState} {b : β} :
    (m >>= f) s = .ok (b, t) ↔ ∃ a u, m s = .ok (a, u) ∧ f a u = .ok (b, t) := by
  change Except.bind (m s) (fun r => f r.1 r.2) = _ ↔ _
  cases m s with
  | error e => simp [Except.bind]
  | ok r =>
    simp only [Except.bind]
    constructor
    · intro ran
      exact ⟨r.1, r.2, rfl, ran⟩
    · rintro ⟨a, u, same, ran⟩
      cases same
      exact ran

/-- The variables before and after every run that succeeds are so related. -/
def Moves (R : Scope → Scope → Prop) (run : Run α) : Prop :=
  ∀ s a t, run s = .ok (a, t) → R s.scope t.scope

theorem Moves.bind (trans : ∀ s t u, R s t → R t u → R s u) {m : Run α} {f : α → Run β}
    (first : Moves R m) (second : ∀ a, Moves R (f a)) : Moves R (m >>= f) := by
  intro s b u ran
  obtain ⟨a, t, ranFirst, ranSecond⟩ := bind_ok.mp ran
  exact trans _ _ _ (first s a t ranFirst) (second a t b u ranSecond)

theorem Moves.imp {Q : Scope → Scope → Prop} {m : Run α} (moves : Moves R m)
    (weaker : ∀ s t, R s t → Q s t) : Moves Q m :=
  fun s a t ran => weaker _ _ (moves s a t ran)

theorem Moves.fail (e : EvalError) : Moves R (Run.fail e : Run α) := by
  intro s a t ran
  cases ran

/-- The run leaves all variables alone. -/
abbrev Still (run : Run α) : Prop := Moves (· = ·) run

theorem Still.bind {m : Run α} {f : α → Run β} (first : Still m) (second : ∀ a, Still (f a)) :
    Still (m >>= f) := Moves.bind (R := (· = ·)) (fun _ _ _ => Eq.trans) first second

theorem Still.pure (a : α) : Still (pure a : Run α) := by
  intro s b t ran
  cases ran
  rfl

theorem Still.lift (x : Except EvalError α) : Still (Run.lift x) := by
  intro s a t ran
  cases x with
  | error e => cases ran
  | ok b => cases ran; rfl

theorem Still.write (text : String) : Still (Run.write text) := by
  intro s a t ran
  cases ran
  rfl

theorem Still.openBuffer : Still Run.openBuffer := by
  intro s a t ran
  cases ran
  rfl

theorem Still.closeBuffer : Still Run.closeBuffer := by
  intro s a t ran
  unfold Run.closeBuffer at ran
  split at ran
  · cases ran
  · cases ran; rfl

theorem Still.call (fs : Functions) (name : String) (args : List Value) : Still (Run.call fs name args) := by
  apply Still.bind
  · intro s a t ran
    cases ran
    rfl
  · intro _
    exact Still.lift _

theorem Still.kept {m : Run α} (still : Still m) : Moves (Scope.Kept names) m :=
  still.imp fun s _ same => same ▸ Scope.Kept.refl names s

theorem kept_bind {m : Run α} {f : α → Run β} (first : Moves (Scope.Kept names) m)
    (second : ∀ a, Moves (Scope.Kept names) (f a)) : Moves (Scope.Kept names) (m >>= f) :=
  Moves.bind (R := Scope.Kept names) (fun _ _ _ => Scope.Kept.trans) first second

theorem grown_bind {m : Run α} {f : α → Run β} (first : Moves (Scope.Grown names) m)
    (second : ∀ a, Moves (Scope.Grown names) (f a)) : Moves (Scope.Grown names) (m >>= f) :=
  Moves.bind (R := Scope.Grown names) (fun _ _ _ => Scope.Grown.trans) first second

theorem grown_setVar {name : String} (mem : name ∈ names) (v : Value) :
    Moves (Scope.Grown names) (Run.setVar name v) := by
  intro s a t ran
  cases ran
  exact Scope.Grown.set mem v s.scope

end Run

/-! ### Expressions -/

open Run (Still Moves)

mutual

theorem eval_still (fs : Functions) (e : Expr) : Still (eval fs e) := by
  cases e with
  | lit v => exact Still.pure v
  | var name =>
    intro s a t ran
    cases ran
    rfl
  | member base key =>
    apply (eval_still fs base).bind
    intro _
    exact Still.pure _
  | index base key =>
    apply (eval_still fs base).bind
    intro _
    apply (eval_still fs key).bind
    intro _
    exact Still.pure _
  | not e =>
    apply (eval_still fs e).bind
    intro _
    exact Still.pure _
  | neg e =>
    apply (eval_still fs e).bind
    intro _
    exact Still.lift _
  | binary op l r =>
    apply (eval_still fs l).bind
    intro _
    apply (eval_still fs r).bind
    intro _
    exact Still.lift _
  | and l r =>
    apply (eval_still fs l).bind
    intro v
    split
    · apply (eval_still fs r).bind
      intro _
      exact Still.pure _
    · exact Still.pure _
  | or l r =>
    apply (eval_still fs l).bind
    intro v
    split
    · exact Still.pure _
    · apply (eval_still fs r).bind
      intro _
      exact Still.pure _
  | call name args =>
    unfold eval
    split
    · apply Still.closeBuffer.bind
      intro _
      exact Still.pure _
    · apply (evalAll_still fs args).bind
      intro _
      exact Still.call fs name _

theorem evalAll_still (fs : Functions) (es : List Expr) : Still (evalAll fs es) := by
  cases es with
  | nil => exact Still.pure _
  | cons e es =>
    apply (eval_still fs e).bind
    intro _
    apply (evalAll_still fs es).bind
    intro _
    exact Still.pure _

end

theorem evalInt_still (fs : Functions) (what : String) (e : Expr) : Still (evalInt fs what e) := by
  apply (eval_still fs e).bind
  intro v
  split
  · exact Still.pure _
  · exact Moves.fail _

/-! ### Loops -/

section Loops

variable {names : List String} {body : Run Unit} (bodyKept : Moves (Scope.Kept names) body)
include bodyKept

theorem countLoop_grown {var : String} (mem : var ∈ names) (step : Int64) (n : Nat) (i : Int64) :
    Moves (Scope.Grown names) (countLoop var step body n i) := by
  induction n generalizing i with
  | zero => exact (Still.pure ()).kept.imp fun _ _ => Scope.Kept.grown
  | succ n ih =>
    apply Run.grown_bind (Run.grown_setVar mem _)
    intro _
    apply Run.grown_bind (bodyKept.imp fun _ _ => Scope.Kept.grown)
    intro _
    exact ih (i + step)

theorem eachLoop_grown {key : Option String} {value : String} (keyMem : ∀ name ∈ key, name ∈ names)
    (mem : value ∈ names) (items : List (Value × Value)) :
    Moves (Scope.Grown names) (eachLoop key value body items) := by
  induction items with
  | nil => exact (Still.pure ()).kept.imp fun _ _ => Scope.Kept.grown
  | cons item items ih =>
    have setsKey : Moves (Scope.Grown names) (setKey key item.1) := by
      cases key with
      | none => exact (Still.pure ()).kept.imp fun _ _ => Scope.Kept.grown
      | some name => exact Run.grown_setVar (keyMem name rfl) _
    apply Run.grown_bind setsKey
    intro _
    apply Run.grown_bind (Run.grown_setVar mem _)
    intro _
    apply Run.grown_bind (bodyKept.imp fun _ _ => Scope.Kept.grown)
    intro _
    exact ih

end Loops

theorem inLoopScope_kept {names : List String} {loop : Run Unit} (grown : Moves (Scope.Grown names) loop) :
    Moves (Scope.Kept names) (inLoopScope loop) := by
  intro s a t ran
  obtain ⟨b, u, got, ran⟩ := Run.bind_ok.mp ran
  cases got
  obtain ⟨c, u, looped, ended⟩ := Run.bind_ok.mp ran
  cases ended
  exact (grown s c u looped).truncate

/-! ### Statements -/

mutual

theorem exec_kept (fs : Functions) (stmt : Stmt) : Moves (Scope.Kept stmt.loopNames) (exec fs stmt) := by
  cases stmt with
  | text s => exact (Still.write s).kept
  | echo e =>
    apply Still.kept
    apply (eval_still fs e).bind
    intro _
    apply (Still.lift _).bind
    intro _
    exact Still.write _
  | startBuffer => exact Still.openBuffer.kept
  | branch test body otherwise =>
    apply Run.kept_bind (eval_still fs test).kept
    intro v
    split
    · exact (execAll_kept fs body).imp fun _ _ kept => kept.mono (by simp [Stmt.loopNames])
    · exact (execAlternative_kept fs otherwise).imp fun _ _ kept => kept.mono (by simp [Stmt.loopNames])
  | count var first last step descending body =>
    apply Run.kept_bind (evalInt_still fs "from" first).kept
    intro first
    apply Run.kept_bind (evalInt_still fs "to" last).kept
    intro last
    apply Run.kept_bind (evalInt_still fs "step" step).kept
    intro step
    split
    · exact Moves.fail _
    · apply inLoopScope_kept
      apply countLoop_grown
      · exact (execAll_kept fs body).imp fun _ _ kept => kept.mono (by simp [Stmt.loopNames])
      · simp [Stmt.loopNames]
  | each list key value body =>
    apply Run.kept_bind (eval_still fs list).kept
    intro v
    apply Run.kept_bind (Still.lift _).kept
    intro items
    apply inLoopScope_kept
    apply eachLoop_grown
    · exact (execAll_kept fs body).imp fun _ _ kept => kept.mono (by simp [Stmt.loopNames])
    · intro name mem
      simp [Stmt.loopNames, Option.mem_toList.mpr mem]
    · simp [Stmt.loopNames]

theorem execAll_kept (fs : Functions) (stmts : List Stmt) :
    Moves (Scope.Kept (Artifact.blockLoopNames stmts)) (execAll fs stmts) := by
  cases stmts with
  | nil => exact (Still.pure ()).kept
  | cons stmt rest =>
    apply Run.kept_bind
    · exact (exec_kept fs stmt).imp fun _ _ kept => kept.mono (by simp [Artifact.blockLoopNames])
    · intro _
      exact (execAll_kept fs rest).imp fun _ _ kept => kept.mono (by simp [Artifact.blockLoopNames])

theorem execAlternative_kept (fs : Functions) (other : Alternative) :
    Moves (Scope.Kept other.loopNames) (execAlternative fs other) := by
  cases other with
  | nothing => exact (Still.pure ()).kept
  | otherwise body => exact execAll_kept fs body
  | branch test body rest =>
    apply Run.kept_bind (eval_still fs test).kept
    intro v
    split
    · exact (execAll_kept fs body).imp fun _ _ kept => kept.mono (by simp [Alternative.loopNames])
    · exact (execAlternative_kept fs rest).imp fun _ _ kept => kept.mono (by simp [Alternative.loopNames])

end

/-- After a loop, or any other statement, there are as many variables as before, and every name is looked up to what
it was before, unless an enclosing loop and a loop of the statement both use it for a variable. -/
theorem loops_leave_no_variables (fs : Functions) (stmt : Stmt) (s t : RunState)
    (ran : exec fs stmt s = .ok ((), t)) :
    t.scope.depth = s.scope.depth ∧
      ∀ name, ¬ (name ∈ stmt.loopNames ∧ name ∈ Keyed.keys s.scope.locals) →
        t.scope.lookup name = s.scope.lookup name := by
  have kept := exec_kept fs stmt s () t ran
  constructor
  · exact kept.depth
  · intro name apart
    exact kept.lookup apart

/-- A loop around another one, run inside a loop over `i`, leaves `i`, a parameter and its own names as they were. -/
theorem nested_loops_leave_no_variables :
    let s : RunState := ⟨⟨.map [("title", .str "news"), ("j", .str "parameter")], [("i", .int 7)]⟩, "", [], []⟩
    let items : Expr := .lit (.list [.str "a", .str "b"])
    let stmt : Stmt := .count "j" (.lit (.int 0)) (.lit (.int 1)) (.lit (.int 1)) false
      [.each items (some "k") "v" [.echo (.var "v"), .echo (.var "j"), .echo (.var "i")]]
    ∃ t, exec [] stmt s = .ok ((), t) ∧ t.output = "a07b07a17b17" ∧ t.scope.depth = 1 ∧
      t.scope.lookup "i" = .int 7 ∧ t.scope.lookup "title" = .str "news" ∧
      t.scope.lookup "j" = .str "parameter" ∧ t.scope.lookup "v" = .null := by
  intro s items stmt
  have output : (exec [] stmt s).toOption.map (·.2.output) = some "a07b07a17b17" := by decide +kernel
  cases ran : exec [] stmt s with
  | error e =>
    rw [ran] at output
    cases output
  | ok r =>
    obtain ⟨⟨⟩, t⟩ := r
    rw [ran] at output
    obtain ⟨depth, same⟩ := loops_leave_no_variables [] stmt s t ran
    apply Exists.intro t
    constructor
    · rfl
    constructor
    · exact Option.some.inj output
    constructor
    · exact depth
    constructor
    · exact same "i" (by decide)
    constructor
    · exact same "title" (by decide)
    constructor
    · exact same "j" (by decide)
    · exact same "v" (by decide)

/-- An inner loop over the variable of the loop around it leaves its own last number there. -/
example :
    let inner : Stmt := .count "i" (.lit (.int 5)) (.lit (.int 6)) (.lit (.int 1)) false []
    let outer : Stmt := .count "i" (.lit (.int 0)) (.lit (.int 1)) (.lit (.int 1)) false [inner, .echo (.var "i")]
    (exec [] outer (.initial .null)).toOption.map (·.2.output) = some "66" := by
  decide +kernel

end Stencil
