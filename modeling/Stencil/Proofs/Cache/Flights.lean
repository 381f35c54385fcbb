import Mathlib.Algebra.GroupWithZero.Nat
import Stencil.Proofs.Cache.Faithful

/-!
Calls that render one template at the same time. Between any two steps of a call the others may go on as they like; a
call that is left alone does what a rendering does.
-/
namespace Stencil

/-! ### Steps -/

namespace Flight

/-- What a call that has its parameters has come to. Without single flight there is no lock. -/
inductive Stage where
  | asking
  /-- The lock of the template is looked up, and made if there is none. -/
  | fetching
  | waiting (lock : Nat)
  | rechecking (lock : Nat)
  | compiling (lock : Option Nat)
  | keeping (lock : Option Nat) (c : Compiled)
  | leaving (lock : Option Nat) (result : Except TemplateError Unit)
  | running

inductive Call where
  | starting (params : Datum)
  | going (params : Value) (stage : Stage)
  | answered (page : Except TemplateError String)

/-- What calls share: the renderer's workbench, the locks by template, and who has which lock. -/
structure Shared (W : Type) where
  bench : Workbench W
  locks : Keyed Nat
  owner : Nat → Option Nat

namespace Shared

variable {W : Type}

def setBench (s : Shared W) (bench : Workbench W) : Shared W := { s with bench := bench }

def setWorld (s : Shared W) (w : W) : Shared W := s.setBench { s.bench with world := w }

def setOwner (s : Shared W) (lock : Nat) (owner : Option Nat) : Shared W :=
  { s with owner := Function.update s.owner lock owner }

def release (s : Shared W) : Option Nat → Shared W
  | some lock => s.setOwner lock none
  | none => s

/-- The lock of a template, a new one if it has none. -/
def lockOf (s : Shared W) (name : String) : Nat × Shared W :=
  match Keyed.get? name s.locks with
  | some lock => (lock, s)
  | none => (s.locks.length, { s with locks := Keyed.put name s.locks.length s.locks })

end Shared

section Steps

variable {W : Type} (r : Renderer W) (name : String) (k : Nat)

/-- One step of the call of number `k`. A call that waits stays where it is while another has the lock. -/
def Stage.step (params : Value) : Stage → Shared W → Call × Shared W
  | asking, s =>
    let (good, w) := r.cache.isFresh r.library name s.bench.world
    (.going params (if good then running else if r.singleFlight then fetching else compiling none), s.setWorld w)
  | fetching, s =>
    let (lock, s) := s.lockOf name
    (.going params (waiting lock), s)
  | waiting lock, s =>
    match s.owner lock with
    | none => (.going params (rechecking lock), s.setOwner lock (some k))
    | some _ => (.going params (waiting lock), s)
  | rechecking lock, s =>
    let (good, w) := r.cache.isFresh r.library name s.bench.world
    (.going params (if good then leaving (some lock) (.ok ()) else compiling (some lock)), s.setWorld w)
  | compiling lock, s =>
    match r.compile name s.bench with
    | (.ok c, bench) => (.going params (keeping lock c), s.setBench bench)
    | (.error e, bench) => (.going params (leaving lock (.error e)), s.setBench bench)
  | keeping lock c, s =>
    let (result, bench) := r.keep name c s.bench
    (.going params (leaving lock result), s.setBench bench)
  | leaving lock (.ok ()), s => (.going params running, s.release lock)
  | leaving lock (.error e), s => (.answered (.error e), s.release lock)
  | running, s =>
    let (page, bench) := Renderer.onWorldExcept (r.cache.execute name params r.functions) s.bench
    (.answered page, s.setBench bench)

def Call.step : Call → Shared W → Call × Shared W
  | starting params, s =>
    match params.toValue with
    | .ok v => (.going v .asking, s)
    | .error e => (.answered (.error e), s)
  | going params stage, s => stage.step r name k params s
  | answered page, s => (.answered page, s)

end Steps

end Flight

/-- Calls with what they share. -/
structure Flight (W : Type) where
  shared : Flight.Shared W
  calls : List Flight.Call

namespace Flight

section Runs

variable {W : Type} (r : Renderer W) (name : String)

/-- Calls begin. Nobody has a lock; earlier calls may have left some. -/
def initial (bench : Workbench W) (locks : Keyed Nat) (params : List Datum) : Flight W :=
  ⟨⟨bench, locks, fun _ => none⟩, params.map .starting⟩

/-- The call of a number makes a step. -/
def advance (f : Flight W) (k : Nat) : Flight W :=
  match f.calls[k]? with
  | none => f
  | some call =>
    let (call, shared) := call.step r name k f.shared
    ⟨shared, f.calls.set k call⟩

/-- Calls make steps in this order. -/
def run (f : Flight W) (schedule : List Nat) : Flight W := schedule.foldl (fun f k => f.advance r name k) f

end Runs

/-! #### Single steps -/

section Equations

variable {W : Type} {r : Renderer W} {name : String} {k : Nat} {s : Shared W} {params : Value} {w : W} {good : Bool}
  {lock : Nat} {held : Option Nat} {bench : Workbench W} {c : Compiled}

theorem step_asking (asked : r.cache.isFresh r.library name s.bench.world = (good, w)) :
    Stage.asking.step r name k params s =
      (.going params (if good then .running else if r.singleFlight then .fetching else .compiling none),
        s.setWorld w) := by
  unfold Stage.step
  dsimp only
  rw [asked]

theorem step_waiting_free (free : s.owner lock = none) :
    (Stage.waiting lock).step r name k params s = (.going params (.rechecking lock), s.setOwner lock (some k)) := by
  unfold Stage.step
  dsimp only
  rw [free]

theorem step_waiting_taken {other : Nat} (taken : s.owner lock = some other) :
    (Stage.waiting lock).step r name k params s = (.going params (.waiting lock), s) := by
  unfold Stage.step
  dsimp only
  rw [taken]

theorem step_rechecking (asked : r.cache.isFresh r.library name s.bench.world = (good, w)) :
    (Stage.rechecking lock).step r name k params s =
      (.going params (if good then .leaving (some lock) (.ok ()) else .compiling (some lock)), s.setWorld w) := by
  unfold Stage.step
  dsimp only
  rw [asked]

theorem step_compiling_ok (compiled : r.compile name s.bench = (.ok c, bench)) :
    (Stage.compiling held).step r name k params s = (.going params (.keeping held c), s.setBench bench) := by
  unfold Stage.step
  dsimp only
  rw [compiled]

theorem step_compiling_error {e : TemplateError} (compiled : r.compile name s.bench = (.error e, bench)) :
    (Stage.compiling held).step r name k params s =
      (.going params (.leaving held (.error e)), s.setBench bench) := by
  unfold Stage.step
  dsimp only
  rw [compiled]

theorem step_keeping {result : Except TemplateError Unit} (kept : r.keep name c s.bench = (result, bench)) :
    (Stage.keeping held c).step r name k params s = (.going params (.leaving held result), s.setBench bench) := by
  unfold Stage.step
  dsimp only
  rw [kept]

theorem step_running {page : Except TemplateError String}
    (run : Renderer.onWorldExcept (r.cache.execute name params r.functions) s.bench = (page, bench)) :
    Stage.running.step r name k params s = (.answered page, s.setBench bench) := by
  unfold Stage.step
  dsimp only
  rw [run]

end Equations

section Advancing

variable {W : Type} {r : Renderer W} {name : String} {f : Flight W} {k : Nat} {call call' : Call} {s' : Shared W}

theorem advance_eq (here : f.calls[k]? = some call) (step : call.step r name k f.shared = (call', s')) :
    f.advance r name k = ⟨s', f.calls.set k call'⟩ := by
  unfold advance
  rw [here]
  dsimp only
  rw [step]

theorem advance_stage {v : Value} {stage : Stage} (here : f.calls[k]? = some (.going v stage))
    (step : stage.step r name k v f.shared = (call', s')) : f.advance r name k = ⟨s', f.calls.set k call'⟩ :=
  have going : (Call.going v stage).step r name k f.shared = (call', s') := step
  advance_eq here going

theorem advance_of_none (none : f.calls[k]? = none) : f.advance r name k = f := by
  unfold advance
  rw [none]

theorem advance_of_same (here : f.calls[k]? = some call) (step : call.step r name k f.shared = (call, f.shared)) :
    f.advance r name k = f := by
  rw [advance_eq here step]
  obtain ⟨small, same⟩ := List.getElem?_eq_some_iff.mp here
  rw [← same, List.set_getElem_self]

end Advancing

/-! #### A call that is left alone -/

section Alone

variable {W : Type} {r : Renderer W} {name : String} {k : Nat} {s s' : Shared W} {params : Value}
  {page : Except TemplateError String} {bench : Workbench W}

/-- With no other step in between, a call comes to a page and leaves the bench so. -/
def Call.Reaches (r : Renderer W) (name : String) (k : Nat) (call : Call) (s : Shared W)
    (result : Except TemplateError String × Workbench W) : Prop :=
  ∃ steps s', (fun p : Call × Shared W => p.1.step r name k p.2)^[steps] (call, s) = (.answered result.1, s') ∧
    s'.bench = result.2

theorem Call.Reaches.after {call call' : Call} {result : Except TemplateError String × Workbench W}
    (reaches : call'.Reaches r name k s' result) (step : call.step r name k s = (call', s')) :
    call.Reaches r name k s result := by
  obtain ⟨steps, s'', run, same⟩ := reaches
  refine ⟨steps + 1, s'', ?_, same⟩
  rw [Function.iterate_succ_apply]
  dsimp only
  rw [step]
  exact run

theorem Call.Reaches.stage {stage : Stage} {call' : Call} {result : Except TemplateError String × Workbench W}
    (reaches : call'.Reaches r name k s' result) (step : stage.step r name k params s = (call', s')) :
    (Call.going params stage).Reaches r name k s result :=
  have going : (Call.going params stage).step r name k s = (call', s') := step
  reaches.after going

theorem reaches_running :
    (Call.going params .running).Reaches r name k s
      (Renderer.onWorldExcept (r.cache.execute name params r.functions) s.bench) :=
  ⟨1, _, rfl, rfl⟩

theorem bench_release (s : Shared W) (lock : Option Nat) : (s.release lock).bench = s.bench := by
  cases lock <;> rfl

/-- What is still to be done after the artifact was kept. -/
theorem reaches_leaving {lock : Option Nat} {kept : Except TemplateError Unit} :
    (Call.going params (.leaving lock kept)).Reaches r name k s
      ((Renderer.liftExcept kept >>= fun _ =>
        Renderer.onWorldExcept (r.cache.execute name params r.functions)) s.bench) := by
  rw [Rendering.bind_apply]
  cases kept with
  | error e => exact ⟨1, _, rfl, bench_release s lock⟩
  | ok u =>
    have running : (Call.going params .running).Reaches r name k (s.release lock) _ := reaches_running
    rw [bench_release] at running
    exact running.stage rfl

theorem reaches_compiling {lock : Option Nat} :
    (Call.going params (.compiling lock)).Reaches r name k s
      ((r.compileAndKeep name >>= fun _ =>
        Renderer.onWorldExcept (r.cache.execute name params r.functions)) s.bench) := by
  unfold Renderer.compileAndKeep
  rw [Rendering.bind_apply, Rendering.bind_apply]
  rcases compiled : r.compile name s.bench with ⟨e | c, bench⟩
  · exact reaches_leaving.stage (step_compiling_error compiled)
  · dsimp only
    rcases kept : r.keep name c bench with ⟨result, bench'⟩
    have left : (Call.going params (.leaving lock result)).Reaches r name k ((s.setBench bench).setBench bench') _ :=
      reaches_leaving
    rw [Rendering.bind_apply] at left
    refine (Call.Reaches.stage (k := k) ?_ (step_keeping (s := s.setBench bench) kept)).stage (step_compiling_ok compiled)
    cases result <;> exact left

/-- A call whose steps are left alone is a rendering. -/
theorem render_eq_steps (r : Renderer W) (name : String) (k : Nat) (params : Datum) (s : Shared W)
    (free : ∀ lock, s.owner lock = none) :
    (Call.starting params).Reaches r name k s (r.render name params s.bench) := by
  unfold Renderer.render
  cases value : params.toValue with
  | error e =>
    refine ⟨1, s, ?_, rfl⟩
    show (Call.starting params).step r name k s = _
    unfold Call.step
    dsimp only
    rw [value]
    rfl
  | ok v =>
    have begun : (Call.starting params).step r name k s = (.going v .asking, s) := by
      unfold Call.step
      dsimp only
      rw [value]
    refine Call.Reaches.after ?_ begun
    dsimp only
    unfold Renderer.renderValue Renderer.ensure
    rw [Rendering.bind_apply, Rendering.bind_apply]
    rcases asked : r.cache.isFresh r.library name s.bench.world with ⟨good, w⟩
    rw [Renderer.isFresh_apply asked]
    dsimp only
    refine Call.Reaches.stage ?_ (step_asking asked)
    cases good with
    | true => exact reaches_running
    | false =>
      rw [if_neg Bool.false_ne_true, if_neg Bool.false_ne_true]
      cases single : r.singleFlight with
      | false =>
        rw [if_neg Bool.false_ne_true, if_neg Bool.false_ne_true]
        have compiled : (Call.going v (.compiling none)).Reaches r name k (s.setWorld w) _ := reaches_compiling
        rw [Rendering.bind_apply] at compiled
        exact compiled
      | true =>
        rw [if_pos rfl, if_pos rfl]
        -- nobody has a lock, so this call gets the one of its template
        rcases fetched : (s.setWorld w).lockOf name with ⟨lock, s₁⟩
        have same : s₁.bench = (s.setWorld w).bench ∧ s₁.owner lock = none := by
          unfold Shared.lockOf at fetched
          split at fetched <;> cases fetched <;> exact ⟨rfl, free _⟩
        have waits : Stage.fetching.step r name k v (s.setWorld w) = (.going v (.waiting lock), s₁) := by
          unfold Stage.step
          dsimp only
          rw [fetched]
        refine Call.Reaches.stage (Call.Reaches.stage ?_ (step_waiting_free same.2)) waits
        rw [Rendering.bind_apply]
        rcases asked' : r.cache.isFresh r.library name w with ⟨good', w'⟩
        have again : r.cache.isFresh r.library name (s₁.setOwner lock (some k)).bench.world = (good', w') := by
          show r.cache.isFresh r.library name s₁.bench.world = _
          rw [same.1]
          exact asked'
        rw [Renderer.isFresh_apply (by exact asked')]
        dsimp only
        refine Call.Reaches.stage ?_ (step_rechecking again)
        have bench : ((s₁.setOwner lock (some k)).setWorld w').bench = { s.bench with world := w' } := by
          show { s₁.bench with world := w' } = _
          rw [same.1]
          rfl
        cases good' with
        | true =>
          have left : (Call.going v (.leaving (some lock) (.ok ()))).Reaches r name k
              ((s₁.setOwner lock (some k)).setWorld w') _ := reaches_leaving
          rw [bench] at left
          exact left
        | false =>
          have compiled : (Call.going v (.compiling (some lock))).Reaches r name k
              ((s₁.setOwner lock (some k)).setWorld w') _ := reaches_compiling
          rw [bench, Rendering.bind_apply] at compiled
          exact compiled

end Alone

/-! ### Work -/

/-- How many steps a call may still make, waiting apart. -/
def Stage.rank : Stage → Nat
  | asking => 8
  | fetching => 7
  | waiting _ => 6
  | rechecking _ => 5
  | compiling _ => 4
  | keeping _ _ => 3
  | leaving _ _ => 2
  | running => 1

def Call.rank : Call → Nat
  | starting _ => 9
  | going _ stage => stage.rank
  | answered _ => 0

variable {W : Type}

def work (f : Flight W) : Nat := (f.calls.map Call.rank).sum

section Work

variable (r : Renderer W) (name : String) {f : Flight W} {k : Nat} {call : Call}

/-- A call comes nearer to its end with every step, unless it waits for a lock that another has. -/
theorem rank_stage_step (k : Nat) (s : Shared W) (v : Value) (stage : Stage) :
    (stage.step r name k v s).1.rank < stage.rank ∨
    ∃ lock other, stage = .waiting lock ∧ s.owner lock = some other := by
  cases stage with
  | asking =>
    left
    rcases asked : r.cache.isFresh r.library name s.bench.world with ⟨good, w⟩
    rw [step_asking asked]
    cases good <;> cases single : r.singleFlight <;> simp [Call.rank, Stage.rank]
  | fetching => exact .inl (Nat.lt_succ_self 6)
  | waiting lock =>
    cases owner : s.owner lock with
    | none =>
      left
      rw [step_waiting_free owner]
      exact Nat.lt_succ_self 5
    | some other => exact .inr ⟨lock, other, rfl, owner⟩
  | rechecking lock =>
    left
    rcases asked : r.cache.isFresh r.library name s.bench.world with ⟨good, w⟩
    rw [step_rechecking asked]
    cases good <;> simp [Call.rank, Stage.rank]
  | compiling held =>
    left
    rcases compiled : r.compile name s.bench with ⟨e | c, bench⟩
    · rw [step_compiling_error compiled]
      exact Nat.lt_of_lt_of_le (Nat.lt_succ_self 2) (Nat.le_succ 3)
    · rw [step_compiling_ok compiled]
      exact Nat.lt_succ_self 3
  | keeping held c => exact .inl (Nat.lt_succ_self 2)
  | leaving held result =>
    left
    cases result with
    | error e => exact Nat.succ_pos 1
    | ok u => exact Nat.lt_succ_self 1
  | running => exact .inl (Nat.succ_pos 0)

theorem rank_step (k : Nat) (s : Shared W) (here : call.rank ≠ 0) : (call.step r name k s).1.rank < call.rank ∨
    ∃ v lock other, call = .going v (.waiting lock) ∧ s.owner lock = some other := by
  cases call with
  | starting params =>
    left
    unfold Call.step
    dsimp only
    cases params.toValue with
    | error e => exact Nat.succ_pos 8
    | ok v => exact Nat.lt_succ_self 8
  | answered page => exact absurd rfl here
  | going v stage =>
    rcases rank_stage_step r name k s v stage with less | ⟨lock, other, rfl, owner⟩
    · exact .inl less
    · exact .inr ⟨v, lock, other, rfl, owner⟩

theorem work_set (s' : Shared W) (call' : Call) (here : f.calls[k]? = some call) :
    work ⟨s', f.calls.set k call'⟩ + call.rank = work f + call'.rank := by
  obtain ⟨shared, calls⟩ := f
  unfold work
  dsimp only at here ⊢
  clear s' shared
  induction calls generalizing k with
  | nil => cases here
  | cons first rest ih =>
    cases k with
    | zero =>
      cases here
      rw [List.set_cons_zero, List.map_cons, List.map_cons, List.sum_cons, List.sum_cons]
      omega
    | succ k =>
      rw [List.getElem?_cons_succ] at here
      have rest' := ih here
      rw [List.set_cons_succ, List.map_cons, List.map_cons, List.sum_cons, List.sum_cons]
      omega

/-- A call that comes nearer to its end does some of the work. -/
theorem work_advance (here : f.calls[k]? = some call)
    (nearer : (call.step r name k f.shared).1.rank < call.rank) : (f.advance r name k).work < f.work := by
  rcases step : call.step r name k f.shared with ⟨call', s'⟩
  rw [step] at nearer
  dsimp only at nearer
  rw [advance_eq here step]
  have same := work_set s' call' here
  omega

/-- A step leaves everything as it is or is some of the work. -/
theorem advance_cases (f : Flight W) (k : Nat) :
    f.advance r name k = f ∨ (f.advance r name k).work < f.work := by
  cases here : f.calls[k]? with
  | none => exact .inl (advance_of_none here)
  | some call =>
    by_cases ended : call.rank = 0
    · cases call with
      | answered page => exact .inl (advance_of_same here rfl)
      | starting params => cases ended
      | going v stage => cases stage <;> cases ended
    · rcases rank_step r name k f.shared ended with less | ⟨v, lock, other, rfl, owner⟩
      · exact .inr (work_advance r name here less)
      · have waits : (Stage.waiting lock).step r name k v f.shared = _ := step_waiting_taken owner
        exact .inl (advance_of_same here waits)

/-- The run of a schedule that goes on for ever, up to a time. -/
def upTo (f : Flight W) (schedule : Nat → Nat) (time : Nat) : Flight W :=
  f.run r name ((List.range time).map schedule)

theorem upTo_succ (f : Flight W) (schedule : Nat → Nat) (time : Nat) :
    f.upTo r name schedule (time + 1) = (f.upTo r name schedule time).advance r name (schedule time) := by
  unfold upTo run
  rw [List.range_succ, List.map_append, List.foldl_append]
  rfl

/-- From one time to another nothing has happened, or there is less work. -/
theorem upTo_cases (f : Flight W) (schedule : Nat → Nat) (time more : Nat) :
    f.upTo r name schedule (time + more) = f.upTo r name schedule time ∨
      (f.upTo r name schedule (time + more)).work < (f.upTo r name schedule time).work := by
  induction more with
  | zero => exact .inl rfl
  | succ more ih =>
    rw [← Nat.add_assoc, upTo_succ]
    rcases advance_cases r name (f.upTo r name schedule (time + more)) (schedule (time + more)) with same | less
    · rw [same]
      exact ih
    · right
      rcases ih with same | before
      · rw [same] at less ⊢
        exact less
      · exact Nat.lt_trans less before

end Work

/-- A schedule to which every one of so many calls comes again and again. -/
def Fair (count : Nat) (schedule : Nat → Nat) : Prop := ∀ k < count, ∀ time, ∃ later, schedule (time + later) = k

end Flight

end Stencil
