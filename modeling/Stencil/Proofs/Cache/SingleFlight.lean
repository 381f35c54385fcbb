import Mathlib.Algebra.BigOperators.Group.List.Basic
import Stencil.Proofs.Cache.Flights
import Stencil.Proofs.Cache.Team

/-!
Calls that render one template at the same time, with single flight and a cache in memory. A call that has found
nothing good takes the lock of the template, asks the cache once more, and keeps what it compiles before it lets the
lock go. So the template is compiled once at most, all calls run the same artifact, and every call comes to its end.
-/
namespace Stencil

/-- What is on a shelf for a template, if all its sources are as they were. -/
def World.good (w : World) (shelf : Nat) (name : String) : Option CacheEntry :=
  (Keyed.get? name (w.shelves.getD shelf [])).filter fun entry => w.sources.current entry.dependencies

namespace Flight

/-! ### What the calls find -/

/-- What there is when the calls begin, and what a compilation of their template gives. -/
structure Course where
  q : Equipment
  shelf : Nat
  name : String
  world : World
  count : Nat
  entry : CacheEntry

namespace Course

def renderer (c : Course) : Renderer World := c.q.renderer (CachePlace.memory.cache c.shelf)

/-- The artifact that is run: what is good when the calls begin, and what is compiled otherwise. -/
def served (c : Course) : CacheEntry := (c.world.good c.shelf c.name).getD c.entry

/-- How often the template has to be compiled. -/
def needed (c : Course) : Nat := if (c.world.good c.shelf c.name).isSome then 0 else 1

/-- The page of a call. -/
def page (c : Course) (params : Datum) : Except TemplateError String :=
  params.toValue.bind fun v => c.served.program.execute v c.q.functions

/-- The renderer has single flight and a shelf, and the template compiles. -/
structure Fine (c : Course) : Prop where
  single : c.q.singleFlight = true
  sound : c.world.sources.Sound
  there : c.shelf < c.world.shelves.length
  compiles : c.q.entry c.world.sources c.name = .ok c.entry

/-- The sources are those of the beginning, and the shelf is there. -/
structure Bench (c : Course) (b : Workbench World) : Prop where
  sources : b.world.sources = c.world.sources
  there : c.shelf < b.world.shelves.length

/-- The artifact is on the shelf. -/
def Ready (c : Course) (b : Workbench World) : Prop := b.world.good c.shelf c.name = some c.served

/-- There is nothing good on the shelf, and there was nothing. -/
def Empty (c : Course) (b : Workbench World) : Prop :=
  b.world.good c.shelf c.name = none ∧ c.world.good c.shelf c.name = none

variable {c : Course} {b : Workbench World}

theorem isFresh_eq (w : World) :
    c.renderer.cache.isFresh c.renderer.library c.name w = ((w.good c.shelf c.name).isSome, w) := by
  show (Cache.memory (World.shelfPart c.shelf)).isFresh Library.ofWorld c.name w = _
  unfold World.good
  cases found : Keyed.get? c.name (w.shelves.getD c.shelf []) with
  | none => exact Cache.memory_isFresh_none found
  | some entry =>
    rw [Cache.memory_isFresh found, Library.allFresh_ofWorld, Option.filter_some]
    cases w.sources.current entry.dependencies <;> rfl

theorem compile_eq (fine : c.Fine) (bench : c.Bench b) :
    ∃ compiled, c.renderer.compile c.name b = (.ok compiled, ⟨b.world, b.compilations + 1⟩) ∧
      CacheEntry.make c.name compiled.artifact compiled.template.dependencies = .ok c.entry := by
  obtain ⟨compiled, run, made⟩ := Equipment.entry_ok fine.compiles
  rw [← bench.sources] at run
  exact ⟨compiled, Equipment.compile_of_ok (by rw [bench.sources]; exact fine.sound) run _, made⟩

/-- What was compiled is good when it is kept. -/
theorem keep_eq (fine : c.Fine) (bench : c.Bench b) {compiled : Compiled}
    (made : CacheEntry.make c.name compiled.artifact compiled.template.dependencies = .ok c.entry) :
    ∃ w, c.renderer.keep c.name compiled b = (.ok (), { b with world := w }) ∧
      c.Bench { b with world := w } ∧ w.good c.shelf c.name = some c.entry := by
  have stored : Shelf.store c.name compiled.artifact compiled.template.dependencies
      (b.world.shelves.getD c.shelf []) = (.ok (), Keyed.put c.name c.entry (b.world.shelves.getD c.shelf [])) := by
    unfold Shelf.store
    rw [made]
  have run := Part.within_eq (World.shelfPart c.shelf) stored
  refine ⟨(World.shelfPart c.shelf).set (Keyed.put c.name c.entry (b.world.shelves.getD c.shelf [])) b.world, ?_,
    ⟨bench.sources, ?_⟩, ?_⟩
  · unfold Renderer.keep Renderer.onWorldExcept
    show (Renderer.tolerated ((Cache.memory (World.shelfPart c.shelf)).store _ _ _ b.world).1, _) = _
    exact Prod.ext (congrArg (fun p : Except TemplateError Unit × World => Renderer.tolerated p.1) run)
      (congrArg (fun p : Except TemplateError Unit × World => ({ b with world := p.2 } : Workbench World)) run)
  · show c.shelf < (b.world.shelves.set c.shelf _).length
    rw [List.length_set]
    exact bench.there
  · obtain ⟨-, listed, -⟩ := CacheEntry.make_ok made
    obtain ⟨compiled', run', made'⟩ := Equipment.entry_ok fine.compiles
    obtain ⟨-, listed', -⟩ := CacheEntry.make_ok made'
    have current : b.world.sources.current c.entry.dependencies = true := by
      rw [bench.sources, listed']
      exact Equipment.compiled_current fine.sound run'
    unfold World.good
    show (Keyed.get? c.name ((b.world.shelves.set c.shelf _).getD c.shelf [])).filter _ = _
    rw [World.getD_set bench.there, Keyed.get?_put_self, Option.filter_some]
    exact if_pos current

theorem execute_eq (bench : c.Bench b) (ready : c.Ready b) (v : Value) :
    Renderer.onWorldExcept (c.renderer.cache.execute c.name v c.renderer.functions) b =
      (c.served.program.execute v c.q.functions, b) := by
  have found : Keyed.get? c.name (b.world.shelves.getD c.shelf []) = some c.served :=
    (Option.filter_eq_some_iff.mp ready).1
  have same : (World.shelfPart c.shelf).set ((World.shelfPart c.shelf).get b.world) b.world = b.world := by
    have kept : b.world.shelves.set c.shelf (b.world.shelves.getD c.shelf []) = b.world.shelves := by
      rw [List.getD_eq_getElem?_getD, List.getElem?_eq_getElem bench.there, Option.getD_some, List.set_getElem_self]
    show { b.world with shelves := b.world.shelves.set c.shelf (b.world.shelves.getD c.shelf []) } = b.world
    rw [kept]
  have loaded : c.renderer.cache.load c.name b.world = (.ok c.served.program, b.world) := by
    show (Shelf.load c.name (b.world.shelves.getD c.shelf []),
      (World.shelfPart c.shelf).set ((World.shelfPart c.shelf).get b.world) b.world) = _
    rw [same]
    unfold Shelf.load
    rw [found]
  unfold Renderer.onWorldExcept
  rw [Cache.execute_of_load loaded]
  rfl

/-! ### What holds at every moment -/

/-- The call of number `k` has this lock, and it is that of the template. -/
structure Has (c : Course) (k : Nat) (s : Shared World) (lock : Nat) : Prop where
  looked : Keyed.get? c.name s.locks = some lock
  owns : s.owner lock = some k

/-- What a stage of the call of number `k` relies on. From the second asking to the end it has the lock. -/
def StageRight (c : Course) (k : Nat) (s : Shared World) : Stage → Prop
  | .asking | .fetching => True
  | .waiting lock => Keyed.get? c.name s.locks = some lock
  | .rechecking lock => c.Has k s lock
  | .compiling held => ∃ lock, held = some lock ∧ c.Has k s lock ∧ c.Empty s.bench ∧ s.bench.compilations = c.count
  | .keeping held compiled => ∃ lock, held = some lock ∧ c.Has k s lock ∧ c.Empty s.bench ∧
      s.bench.compilations = c.count + 1 ∧
      CacheEntry.make c.name compiled.artifact compiled.template.dependencies = .ok c.entry
  | .leaving held result => ∃ lock, held = some lock ∧ c.Has k s lock ∧ c.Ready s.bench ∧ result = .ok ()
  | .running => c.Ready s.bench

def CallRight (c : Course) (k : Nat) (params : Datum) (s : Shared World) : Call → Prop
  | .starting params' => params' = params
  | .going v stage => params.toValue = .ok v ∧ c.StageRight k s stage
  | .answered page => page = c.page params

end Course

/-- The lock that a call has at a stage. -/
def Stage.held : Stage → Option Nat
  | rechecking lock => some lock
  | compiling held | keeping held _ | leaving held _ => held
  | _ => none

/-- The call has compiled, and not kept it yet. -/
def Call.Keeping : Call → Prop
  | going _ (.keeping _ _) => True
  | _ => False

namespace Course

/-- What holds at every moment of the calls with these parameters. -/
structure Holds (c : Course) (params : List Datum) (f : Flight World) : Prop where
  bench : c.Bench f.shared.bench
  status : c.Ready f.shared.bench ∧ f.shared.bench.compilations = c.count + c.needed ∨ c.Empty f.shared.bench
  /-- Where nothing is on the shelf, only the call that is about to keep something has compiled. -/
  idle : c.Empty f.shared.bench → (∀ (k : Nat) (call : Call), f.calls[k]? = some call → ¬ call.Keeping) →
    f.shared.bench.compilations = c.count
  length : f.calls.length = params.length
  calls : ∀ (k : Nat) (p : Datum) (call : Call), params[k]? = some p → f.calls[k]? = some call → c.CallRight k p f.shared call
  owned : ∀ lock k, f.shared.owner lock = some k →
    ∃ v stage, f.calls[k]? = some (.going v stage) ∧ stage.held = some lock

variable {c : Course} {params : List Datum} {f : Flight World} {k : Nat} {call call' : Call} {p : Datum}
  {s s' : Shared World}

theorem not_ready_of_empty {b : Workbench World} (empty : c.Empty b) : ¬ c.Ready b := by
  intro ready
  exact nomatch empty.1.symm.trans ready

theorem needed_of_empty {b : Workbench World} (empty : c.Empty b) : c.needed = 1 := by
  unfold needed
  rw [empty.2]
  rfl

/-- A call that is about to keep what it has compiled has the lock, and only it has compiled. -/
theorem CallRight.of_keeping (right : c.CallRight k p s call) (keeping : call.Keeping) :
    ∃ v lock compiled, call = .going v (.keeping (some lock) compiled) ∧ c.Has k s lock ∧
      s.bench.compilations = c.count + 1 := by
  unfold Call.Keeping at keeping
  split at keeping
  · obtain ⟨-, lock, rfl, has, -, ahead, -⟩ := right
    exact ⟨_, lock, _, rfl, has, ahead⟩
  · exact absurd keeping id

theorem Holds.asked (holds : c.Holds params f) (here : f.calls[k]? = some call) : ∃ p, params[k]? = some p := by
  have small := (List.getElem?_eq_some_iff.mp here).1
  rw [holds.length] at small
  exact ⟨_, List.getElem?_eq_getElem small⟩

/-- Only one call has the lock of the template. -/
theorem Has.unique {j lock other : Nat} (first : c.Has k s lock) (second : c.Has j s other) : j = k := by
  have same : lock = other := Option.some.inj (first.looked.symm.trans second.looked)
  subst same
  exact Option.some.inj (second.owns.symm.trans first.owns)

/-- What another call relies on stays so when the call of number `k` makes a step: it may look up a lock, take one that
nobody has or let its own go, and it works on the bench only while it has the lock. -/
theorem CallRight.other {j : Nat} (apart : j ≠ k)
    (locks : ∀ lock, Keyed.get? c.name s.locks = some lock → Keyed.get? c.name s'.locks = some lock)
    (owner : ∀ lock, s.owner lock = some j → s'.owner lock = some j)
    (bench : s'.bench = s.bench ∨ (∃ lock, c.Has k s lock) ∧ (c.Ready s.bench → c.Ready s'.bench))
    (right : c.CallRight j p s call) : c.CallRight j p s' call := by
  have has : ∀ lock, c.Has j s lock → c.Has j s' lock := fun lock h => ⟨locks lock h.looked, owner lock h.owns⟩
  have ready : c.Ready s.bench → c.Ready s'.bench := by
    intro ready
    rcases bench with same | ⟨-, kept⟩
    · rw [same]
      exact ready
    · exact kept ready
  have same : ∀ lock, c.Has j s lock → s'.bench = s.bench := by
    intro lock h
    rcases bench with same | ⟨⟨other, h'⟩, -⟩
    · exact same
    · exact absurd (h'.unique h) apart
  cases call with
  | starting params => exact right
  | answered page => exact right
  | going v stage =>
    refine ⟨right.1, ?_⟩
    obtain ⟨-, right⟩ := right
    cases stage with
    | asking => trivial
    | fetching => trivial
    | waiting lock => exact locks lock right
    | rechecking lock => exact has lock right
    | compiling held =>
      obtain ⟨lock, held, h, rest⟩ := right
      refine ⟨lock, held, has lock h, ?_⟩
      rw [same lock h]
      exact rest
    | keeping held compiled =>
      obtain ⟨lock, held, h, rest⟩ := right
      refine ⟨lock, held, has lock h, ?_⟩
      rw [same lock h]
      exact rest
    | leaving held result =>
      obtain ⟨lock, held, h, there, fine⟩ := right
      exact ⟨lock, held, has lock h, ready there, fine⟩
    | running => exact ready right

/-- The call of number `k` has made a step. -/
theorem Holds.set (holds : c.Holds params f) (here : f.calls[k]? = some call) (asked : params[k]? = some p)
    (locks : ∀ lock, Keyed.get? c.name f.shared.locks = some lock → Keyed.get? c.name s'.locks = some lock)
    (owner : ∀ lock j, j ≠ k → (f.shared.owner lock = some j ↔ s'.owner lock = some j))
    (worked : s'.bench = f.shared.bench ∨
      (∃ lock, c.Has k f.shared lock) ∧ (c.Ready f.shared.bench → c.Ready s'.bench))
    (bench : c.Bench s'.bench)
    (status : c.Ready s'.bench ∧ s'.bench.compilations = c.count + c.needed ∨ c.Empty s'.bench)
    (idle : c.Empty s'.bench → ¬ call'.Keeping →
      (∀ (j : Nat) (other : Call), j ≠ k → f.calls[j]? = some other → ¬ other.Keeping) → s'.bench.compilations = c.count)
    (right : c.CallRight k p s' call')
    (owned : ∀ lock, s'.owner lock = some k → ∃ v stage, call' = .going v stage ∧ stage.held = some lock) :
    c.Holds params ⟨s', f.calls.set k call'⟩ := by
  have small : k < f.calls.length := (List.getElem?_eq_some_iff.mp here).1
  have self : (f.calls.set k call')[k]? = some call' := List.getElem?_set_self small
  have others : ∀ j, j ≠ k → (f.calls.set k call')[j]? = f.calls[j]? := fun j apart =>
    List.getElem?_set_ne (Ne.symm apart)
  refine ⟨bench, status, fun empty calm => ?_, ?_, fun j q other asked' there => ?_, fun lock j owns => ?_⟩
  · refine idle empty (calm k call' self) fun j other apart there => calm j other ?_
    rw [others j apart]
    exact there
  · rw [List.length_set]
    exact holds.length
  · by_cases same : j = k
    · subst same
      cases asked.symm.trans asked'
      cases self.symm.trans there
      exact right
    · rw [others j same] at there
      exact (holds.calls j q other asked' there).other same locks (fun lock => (owner lock j same).mp) worked
  · by_cases same : j = k
    · subst same
      obtain ⟨v, stage, rfl, held⟩ := owned lock owns
      exact ⟨v, stage, self, held⟩
    · rw [others j same]
      exact holds.owned lock j ((owner lock j same).mpr owns)

/-- A step that leaves the bench alone. -/
theorem Holds.quiet (holds : c.Holds params f) (here : f.calls[k]? = some call) (asked : params[k]? = some p)
    (calm : ¬ call.Keeping)
    (locks : ∀ lock, Keyed.get? c.name f.shared.locks = some lock → Keyed.get? c.name s'.locks = some lock)
    (owner : ∀ lock j, j ≠ k → (f.shared.owner lock = some j ↔ s'.owner lock = some j))
    (bench : s'.bench = f.shared.bench) (right : c.CallRight k p s' call')
    (owned : ∀ lock, s'.owner lock = some k → ∃ v stage, call' = .going v stage ∧ stage.held = some lock) :
    c.Holds params ⟨s', f.calls.set k call'⟩ := by
  refine holds.set here asked locks owner (.inl bench) (by rw [bench]; exact holds.bench)
    (by rw [bench]; exact holds.status) (fun empty _ others => ?_) right owned
  rw [bench] at empty ⊢
  refine holds.idle empty fun j other there => ?_
  by_cases same : j = k
  · subst same
    cases here.symm.trans there
    exact calm
  · exact others j other same there

/-- A step that changes nothing but the call. -/
theorem Holds.still (holds : c.Holds params f) (here : f.calls[k]? = some call) (asked : params[k]? = some p)
    (calm : ¬ call.Keeping) (right : c.CallRight k p f.shared call')
    (owned : ∀ lock, f.shared.owner lock = some k → ∃ v stage, call' = .going v stage ∧ stage.held = some lock) :
    c.Holds params ⟨f.shared, f.calls.set k call'⟩ :=
  holds.quiet here asked calm (fun _ h => h) (fun _ _ _ => Iff.rfl) rfl right owned

/-- The locks that the call of number `k` has are those of its stage. -/
theorem Holds.held (holds : c.Holds params f) {v : Value} {stage : Stage}
    (here : f.calls[k]? = some (.going v stage)) {lock : Nat} (owns : f.shared.owner lock = some k) :
    stage.held = some lock := by
  obtain ⟨v', stage', there, held⟩ := holds.owned lock k owns
  cases here.symm.trans there
  exact held

/-- A call that is not going has no lock. -/
theorem Holds.free (holds : c.Holds params f) (here : f.calls[k]? = some call)
    (idle : ∀ v stage, call = .going v stage → stage.held = none) (lock : Nat) : f.shared.owner lock ≠ some k := by
  intro owns
  obtain ⟨v, stage, there, held⟩ := holds.owned lock k owns
  have nothing := idle v stage (Option.some.inj (here.symm.trans there))
  exact nomatch held.symm.trans nothing

/-- A step of a call without a lock that changes nothing but the call. -/
theorem Holds.unlocked (holds : c.Holds params f) (here : f.calls[k]? = some call) (asked : params[k]? = some p)
    (calm : ¬ call.Keeping) (idle : ∀ v stage, call = .going v stage → stage.held = none)
    (right : c.CallRight k p f.shared call') : c.Holds params ⟨f.shared, f.calls.set k call'⟩ :=
  holds.still here asked calm right fun lock owns => absurd owns (holds.free here idle lock)

theorem Holds.fetching (holds : c.Holds params f) {v : Value} (here : f.calls[k]? = some (.going v .fetching))
    (asked : params[k]? = some p) :
    c.Holds params ⟨(f.shared.lockOf c.name).2, f.calls.set k (.going v (.waiting (f.shared.lockOf c.name).1))⟩ := by
  obtain ⟨value, -⟩ := holds.calls k p _ asked here
  have idle : ∀ v' stage, Call.going v .fetching = .going v' stage → stage.held = none := by
    rintro v' stage ⟨⟩
    rfl
  unfold Shared.lockOf
  cases looked : Keyed.get? c.name f.shared.locks with
  | some lock => exact holds.unlocked here asked id idle ⟨value, looked⟩
  | none =>
    dsimp only
    refine holds.quiet here asked id (fun lock found => ?_) (fun _ _ _ => Iff.rfl) rfl
      ⟨value, Keyed.get?_put_self ..⟩ fun lock owns => absurd owns (holds.free here idle lock)
    exact nomatch looked.symm.trans found

theorem Holds.waiting (holds : c.Holds params f) {v : Value} {lock : Nat}
    (here : f.calls[k]? = some (.going v (.waiting lock))) (asked : params[k]? = some p)
    (nobody : f.shared.owner lock = none) :
    c.Holds params ⟨f.shared.setOwner lock (some k), f.calls.set k (.going v (.rechecking lock))⟩ := by
  obtain ⟨value, looked⟩ := holds.calls k p _ asked here
  have free := holds.free here (by rintro v stage ⟨⟩; rfl)
  refine holds.quiet here asked id (fun _ h => h) (fun other j apart => ?_) rfl
    ⟨value, looked, Function.update_self ..⟩ fun other owns => ⟨v, _, rfl, ?_⟩
  · show _ ↔ Function.update f.shared.owner lock (some k) other = some j
    by_cases same : other = lock
    · subst same
      rw [Function.update_self, nobody]
      exact ⟨nofun, fun h => absurd (Option.some.inj h).symm apart⟩
    · rw [Function.update_of_ne same]
  · by_cases same : other = lock
    · rw [same]
      rfl
    · have owns' : Function.update f.shared.owner lock (some k) other = some k := owns
      rw [Function.update_of_ne same] at owns'
      exact absurd owns' (free other)

theorem Holds.leaving (holds : c.Holds params f) {v : Value} {lock : Nat} {result : Except TemplateError Unit}
    (here : f.calls[k]? = some (.going v (.leaving (some lock) result))) (asked : params[k]? = some p) :
    c.Holds params ⟨f.shared.setOwner lock none, f.calls.set k (.going v .running)⟩ := by
  obtain ⟨value, own, same, has, ready, -⟩ := holds.calls k p _ asked here
  cases same
  refine holds.quiet here asked id (fun _ h => h) (fun other j apart => ?_) rfl ⟨value, ready⟩ fun other owns => ?_
  · show _ ↔ Function.update f.shared.owner lock none other = some j
    by_cases same : other = lock
    · subst same
      rw [Function.update_self, has.owns]
      exact ⟨fun h => absurd (Option.some.inj h).symm apart, nofun⟩
    · rw [Function.update_of_ne same]
  · have owns' : Function.update f.shared.owner lock none other = some k := owns
    by_cases same : other = lock
    · rw [same, Function.update_self] at owns'
      cases owns'
    · rw [Function.update_of_ne same] at owns'
      exact absurd (Option.some.inj (holds.held here owns')).symm same

/-- The cache is asked once more by a call that has the lock, so nobody else is about to keep anything. -/
theorem Holds.rechecking (holds : c.Holds params f) {v : Value} {lock : Nat}
    (here : f.calls[k]? = some (.going v (.rechecking lock))) (asked : params[k]? = some p) :
    c.Holds params ⟨f.shared, f.calls.set k (.going v
      (if (f.shared.bench.world.good c.shelf c.name).isSome then .leaving (some lock) (.ok ())
        else .compiling (some lock)))⟩ := by
  obtain ⟨value, has⟩ := holds.calls k p _ asked here
  have owned : ∀ (stage : Stage), stage.held = some lock → ∀ other, f.shared.owner other = some k →
      ∃ v' stage', Call.going v stage = .going v' stage' ∧ stage'.held = some other := by
    intro stage held other owns
    refine ⟨v, stage, rfl, held.trans ?_⟩
    exact holds.held here owns
  rcases holds.status with ⟨ready, -⟩ | empty
  · rw [show f.shared.bench.world.good c.shelf c.name = some c.served from ready]
    exact holds.still here asked id ⟨value, lock, rfl, has, ready, rfl⟩ (owned _ rfl)
  · rw [empty.1]
    refine holds.still here asked id ⟨value, lock, rfl, has, empty, ?_⟩ (owned _ rfl)
    refine holds.idle empty fun j other there keeping => ?_
    obtain ⟨q, asked'⟩ := holds.asked there
    obtain ⟨v', lock', compiled, rfl, has', -⟩ := (holds.calls j q other asked' there).of_keeping keeping
    cases has.unique has'
    cases here.symm.trans there

theorem Holds.compiling (fine : c.Fine) (holds : c.Holds params f) {v : Value} {held : Option Nat}
    (here : f.calls[k]? = some (.going v (.compiling held))) (asked : params[k]? = some p) :
    ∃ compiled, c.renderer.compile c.name f.shared.bench =
        (.ok compiled, ⟨f.shared.bench.world, f.shared.bench.compilations + 1⟩) ∧
      c.Holds params ⟨f.shared.setBench ⟨f.shared.bench.world, f.shared.bench.compilations + 1⟩,
        f.calls.set k (.going v (.keeping held compiled))⟩ := by
  obtain ⟨value, lock, rfl, has, empty, count⟩ := holds.calls k p _ asked here
  obtain ⟨compiled, run, made⟩ := compile_eq fine holds.bench
  refine ⟨compiled, run, ?_⟩
  refine holds.set here asked (fun _ h => h) (fun _ _ _ => Iff.rfl) (.inr ⟨⟨lock, has⟩, fun h => h⟩)
    ⟨holds.bench.sources, holds.bench.there⟩ (.inr empty) (fun _ calm => absurd trivial calm) ?_ fun other owns => ?_
  · refine ⟨value, lock, rfl, ⟨has.looked, has.owns⟩, empty, ?_, made⟩
    show f.shared.bench.compilations + 1 = c.count + 1
    rw [count]
  · exact ⟨v, _, rfl, holds.held here owns⟩

theorem Holds.keeping (fine : c.Fine) (holds : c.Holds params f) {v : Value} {held : Option Nat}
    {compiled : Compiled} (here : f.calls[k]? = some (.going v (.keeping held compiled)))
    (asked : params[k]? = some p) :
    ∃ bench, c.renderer.keep c.name compiled f.shared.bench = (.ok (), bench) ∧
      c.Holds params ⟨f.shared.setBench bench, f.calls.set k (.going v (.leaving held (.ok ())))⟩ := by
  obtain ⟨value, lock, rfl, has, empty, count, made⟩ := holds.calls k p _ asked here
  obtain ⟨w, run, bench, good⟩ := keep_eq fine holds.bench made
  have ready : c.Ready { f.shared.bench with world := w } := by
    unfold Ready Course.served
    rw [empty.2]
    exact good
  refine ⟨_, run, ?_⟩
  refine holds.set here asked (fun _ h => h) (fun _ _ _ => Iff.rfl) (.inr ⟨⟨lock, has⟩, fun _ => ready⟩) bench
    (.inl ⟨ready, by rw [needed_of_empty empty]; exact count⟩) (fun empty' _ _ => absurd ready (not_ready_of_empty empty')) ?_
    fun other owns => ?_
  · exact ⟨value, lock, rfl, ⟨has.looked, has.owns⟩, ready, rfl⟩
  · exact ⟨v, _, rfl, holds.held here owns⟩

theorem Holds.starting (holds : c.Holds params f) {params' : Datum} (here : f.calls[k]? = some (.starting params'))
    (asked : params[k]? = some p) :
    c.Holds params ⟨((Call.starting params').step c.renderer c.name k f.shared).2,
      f.calls.set k ((Call.starting params').step c.renderer c.name k f.shared).1⟩ := by
  have same : params' = p := holds.calls k p _ asked here
  subst same
  unfold Call.step
  dsimp only
  cases value : params'.toValue with
  | error e =>
    refine holds.unlocked here asked id nofun ?_
    show _ = c.page params'
    unfold Course.page
    rw [value]
    rfl
  | ok v => exact holds.unlocked here asked id nofun ⟨value, trivial⟩

theorem Holds.running (holds : c.Holds params f) {v : Value} (here : f.calls[k]? = some (.going v .running))
    (asked : params[k]? = some p) :
    c.Holds params ⟨f.shared, f.calls.set k (.answered (c.served.program.execute v c.q.functions))⟩ := by
  obtain ⟨value, ready⟩ := holds.calls k p _ asked here
  refine holds.unlocked here asked id (by rintro v' stage ⟨⟩; rfl) ?_
  show _ = c.page p
  unfold Course.page
  rw [value]
  rfl

theorem Holds.asking (fine : c.Fine) (holds : c.Holds params f) {v : Value}
    (here : f.calls[k]? = some (.going v .asking)) (asked : params[k]? = some p) :
    c.Holds params ⟨f.shared, f.calls.set k (.going v
      (if (f.shared.bench.world.good c.shelf c.name).isSome then .running
        else if c.renderer.singleFlight then .fetching else .compiling none))⟩ := by
  obtain ⟨value, -⟩ := holds.calls k p _ asked here
  have idle : ∀ v' stage, Call.going v .asking = .going v' stage → stage.held = none := by
    rintro v' stage ⟨⟩
    rfl
  have single : c.renderer.singleFlight = true := fine.single
  rw [single]
  rcases holds.status with ⟨ready, -⟩ | empty
  · rw [show f.shared.bench.world.good c.shelf c.name = some c.served from ready]
    exact holds.unlocked here asked id idle ⟨value, ready⟩
  · rw [empty.1]
    exact holds.unlocked here asked id idle ⟨value, trivial⟩

/-- Every step keeps what holds. -/
theorem Holds.advance (fine : c.Fine) (holds : c.Holds params f) (k : Nat) :
    c.Holds params (f.advance c.renderer c.name k) := by
  cases here : f.calls[k]? with
  | none =>
    rw [advance_of_none here]
    exact holds
  | some call =>
    obtain ⟨p, asked⟩ := holds.asked here
    have unchanged : f.shared.setWorld f.shared.bench.world = f.shared := rfl
    cases call with
    | starting params' =>
      rw [advance_eq here rfl]
      exact holds.starting here asked
    | answered page =>
      rw [advance_of_same here rfl]
      exact holds
    | going v stage =>
      cases stage with
      | asking =>
        rw [advance_stage here (step_asking (isFresh_eq f.shared.bench.world)), unchanged]
        exact holds.asking fine here asked
      | fetching =>
        rw [advance_eq here rfl]
        exact holds.fetching here asked
      | waiting lock =>
        cases owner : f.shared.owner lock with
        | none =>
          rw [advance_stage here (step_waiting_free owner)]
          exact holds.waiting here asked owner
        | some other =>
          have waits : (Stage.waiting lock).step c.renderer c.name k v f.shared = _ := step_waiting_taken owner
          rw [advance_of_same here waits]
          exact holds
      | rechecking lock =>
        rw [advance_stage here (step_rechecking (isFresh_eq f.shared.bench.world)), unchanged]
        exact holds.rechecking here asked
      | compiling held =>
        obtain ⟨compiled, run, later⟩ := holds.compiling fine here asked
        rw [advance_stage here (step_compiling_ok run)]
        exact later
      | keeping held compiled =>
        obtain ⟨bench, run, later⟩ := holds.keeping fine here asked
        rw [advance_stage here (step_keeping run)]
        exact later
      | leaving held result =>
        obtain ⟨-, lock, rfl, -, -, rfl⟩ := holds.calls k p _ asked here
        rw [advance_eq here rfl]
        exact holds.leaving here asked
      | running =>
        obtain ⟨-, ready⟩ := holds.calls k p _ asked here
        rw [advance_stage here (step_running (execute_eq holds.bench ready v))]
        exact holds.running here asked

theorem Holds.run (fine : c.Fine) (holds : c.Holds params f) (schedule : List Nat) :
    c.Holds params (f.run c.renderer c.name schedule) := by
  induction schedule generalizing f with
  | nil => exact holds
  | cons k rest ih => exact ih (holds.advance fine k)

/-- Only the call that is about to keep what it has compiled may have been ahead of the shelf. -/
theorem Holds.compilations_le (holds : c.Holds params f) :
    f.shared.bench.compilations ≤ c.count + c.needed := by
  rcases holds.status with ⟨-, same⟩ | empty
  · exact Nat.le_of_eq same
  · by_cases calm : ∀ (k : Nat) (call : Call), f.calls[k]? = some call → ¬ call.Keeping
    · rw [holds.idle empty calm]
      exact Nat.le_add_right _ _
    · push Not at calm
      obtain ⟨k, call, here, keeping⟩ := calm
      obtain ⟨p, asked⟩ := holds.asked here
      obtain ⟨v, lock, compiled, -, -, ahead⟩ := (holds.calls k p call asked here).of_keeping keeping
      rw [needed_of_empty empty]
      exact Nat.le_of_eq ahead

theorem holds_initial (fine : c.Fine) (locks : Keyed Nat) (params : List Datum) :
    c.Holds params (Flight.initial ⟨c.world, c.count⟩ locks params) where
  bench := ⟨rfl, fine.there⟩
  status := by
    unfold Ready Empty Course.served needed
    cases good : c.world.good c.shelf c.name with
    | none => exact .inr ⟨good, rfl⟩
    | some entry => exact .inl ⟨good, rfl⟩
  idle _ _ := rfl
  length := List.length_map _
  calls k p call asked there := by
    have there' : (params.map Call.starting)[k]? = some call := there
    rw [List.getElem?_map, asked] at there'
    cases there'
    rfl
  owned lock k owns := nomatch owns

/-! ### Every call comes to its end -/

/-- While there is work, some call can do some of it: one that waits for a lock waits for a call that does not. -/
theorem Holds.progress (holds : c.Holds params f) (left : f.work ≠ 0) :
    ∃ k < params.length, (f.advance c.renderer c.name k).work < f.work := by
  obtain ⟨k, call, here, unfinished⟩ : ∃ (k : Nat) (call : Call), f.calls[k]? = some call ∧ call.rank ≠ 0 := by
    by_contra none
    refine left (List.sum_eq_zero fun rank mem => ?_)
    obtain ⟨call, listed, rfl⟩ := List.mem_map.mp mem
    obtain ⟨k, here⟩ := List.mem_iff_getElem?.mp listed
    by_contra unfinished
    exact none ⟨k, call, here, unfinished⟩
  have step : ∀ {k : Nat} {call : Call}, f.calls[k]? = some call →
      (call.step c.renderer c.name k f.shared).1.rank < call.rank →
      ∃ k < params.length, (f.advance c.renderer c.name k).work < f.work := by
    intro k call here less
    have small := (List.getElem?_eq_some_iff.mp here).1
    rw [holds.length] at small
    exact ⟨k, small, work_advance _ _ here less⟩
  rcases rank_step c.renderer c.name k f.shared unfinished with less | ⟨v, lock, other, rfl, owner⟩
  · exact step here less
  · obtain ⟨v', stage, there, held⟩ := holds.owned lock other owner
    rcases rank_stage_step c.renderer c.name other f.shared v' stage with less | ⟨lock', other', rfl, -⟩
    · exact step there less
    · cases held

/-- With a fair schedule there is no work left in the end. -/
theorem Holds.finishes (fine : c.Fine) (holds : c.Holds params f) {schedule : Nat → Nat}
    (fair : Fair params.length schedule) (time : Nat) :
    ∃ later, (f.upTo c.renderer c.name schedule (time + later)).work = 0 := by
  induction left : (f.upTo c.renderer c.name schedule time).work using Nat.strong_induction_on generalizing time with
  | _ amount ih =>
    by_cases ended : amount = 0
    · exact ⟨0, left.trans ended⟩
    · have now := holds.run fine ((List.range time).map schedule)
      obtain ⟨k, small, less⟩ := now.progress (by unfold upTo at left; omega)
      obtain ⟨more, turn⟩ := fair k small time
      -- by its turn something else may have happened, but then there is less work already
      have done : (f.upTo c.renderer c.name schedule (time + more + 1)).work <
          (f.upTo c.renderer c.name schedule time).work := by
        rw [upTo_succ, turn]
        rcases upTo_cases c.renderer c.name f schedule time more with same | before
        · rw [same]
          exact less
        · rcases advance_cases c.renderer c.name (f.upTo c.renderer c.name schedule (time + more)) k with same | after
          · rw [same]
            exact before
          · exact Nat.lt_trans after before
      rw [left] at done
      obtain ⟨later, ended⟩ := ih _ done (time + more + 1) rfl
      refine ⟨more + 1 + later, ?_⟩
      rw [← Nat.add_assoc, ← Nat.add_assoc]
      exact ended

theorem finished_of_work {k : Nat} {call : Call} (ended : f.work = 0) (here : f.calls[k]? = some call) :
    ∃ page, call = .answered page := by
  have same := work_set f.shared (.answered (.ok "")) here
  rw [ended] at same
  have nothing : call.rank = 0 := by
    have zero : (Call.answered (.ok "")).rank = 0 := rfl
    omega
  cases call with
  | starting params => cases nothing
  | going v stage => cases stage <;> cases nothing
  | answered page => exact ⟨page, rfl⟩

end Course

/-- A page that nobody has asked for yet. -/
def newPage : World := { (World.ofDisk (Disk.empty [])).addShelf.2 with sources := .ofList [("page", "<\x7b$n\x7d>")] }

/-- Two calls for it. -/
def twoCalls : Flight World := initial ⟨newPage, 0⟩ [] [.struct [("n", .str "1")], .struct [("n", .str "2")]]

def Call.text? : Call → Option String
  | answered (.ok page) => some page
  | _ => none

-- Both calls have asked the cache before either goes on.
example :
    let f := twoCalls.run (Equipment.standard.renderer (CachePlace.memory.cache 0)) "page"
      [0, 1, 0, 1, 0, 1, 0, 1, 0, 0, 1, 0, 0, 0, 1, 0, 1, 1, 1, 1, 1]
    f.shared.bench.compilations = 1 ∧ f.calls.filterMap (·.text?) = ["<1>", "<2>"] := by
  decide +kernel

-- Without single flight each of them compiles.
example :
    let q : Equipment := { Equipment.standard with singleFlight := false }
    let f := twoCalls.run (q.renderer (CachePlace.memory.cache 0)) "page" [0, 1, 0, 1, 0, 1, 0, 1, 0, 1, 0, 1]
    f.shared.bench.compilations = 2 ∧ f.calls.filterMap (·.text?) = ["<1>", "<2>"] := by
  decide +kernel

end Flight

end Stencil
