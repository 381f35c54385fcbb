import Stencil.Main

/-!
One rendering, step by step: what a renderer does, told from what its compilation gives and from what its cache
answers.
-/
namespace Stencil

theorem Rendering.bind_apply {W α β : Type} (a : Rendering W α) (f : α → Rendering W β) (s : Workbench W) :
    (a >>= f) s =
      match a s with
      | (.ok x, s') => f x s'
      | (.error e, s') => (.error e, s') := by
  show ExceptT.bindCont f (a s).1 (a s).2 = _
  rcases a s with ⟨r | x, s'⟩ <;> rfl

theorem Cache.execute_of_load {W : Type} {cache : Cache W} {name : String} {w w' : W} {p : Program}
    (loaded : cache.load name w = (.ok p, w')) (params : Value) (fs : Functions) :
    cache.execute name params fs w = (p.execute params fs, w') := by
  unfold Cache.execute
  simp only [bind, StateT.bind, loaded]
  rfl

/-- A text that is no program is reported as such. -/
theorem Program.parse_error {name artifact : String} {e : TemplateError}
    (failed : Program.parse name artifact = .error e) : ∃ reason, e = .artifactSyntax name reason := by
  unfold Program.parse at failed
  split at failed
  · cases failed
  · cases failed
    exact ⟨_, rfl⟩

namespace Renderer

variable {W : Type} {r : Renderer W} {name : String} {s s' : Workbench W} {w : W} {c : Compiled} {e : TemplateError}

theorem isFresh_apply {b : Bool} (asked : r.cache.isFresh r.library name s.world = (b, w)) :
    r.isFresh name s = (.ok b, { s with world := w }) := by
  unfold Renderer.isFresh onWorld
  rw [asked]

theorem ensure_fresh (fresh : r.isFresh name s = (.ok true, s')) : r.ensure name s = (.ok (), s') := by
  unfold Renderer.ensure
  rw [Rendering.bind_apply, fresh]
  rfl

/-- What is not fresh is compiled and kept. -/
theorem ensure_stale (stale : r.isFresh name s = (.ok false, s)) : r.ensure name s = r.compileAndKeep name s := by
  unfold Renderer.ensure
  rw [Rendering.bind_apply, stale]
  dsimp only
  rw [if_neg (by decide)]
  split
  · rw [Rendering.bind_apply, stale]
    dsimp only
    rw [if_neg (by decide)]
  · rfl

theorem compile_of_error (run : compileWith (r.compileSteps name) s.world = (.error e, w)) :
    r.compile name s = (.error e, { s with world := w }) := by
  unfold Renderer.compile
  rw [Rendering.bind_apply]
  unfold onWorldExcept
  rw [run]

/-- Only a compilation that succeeds is counted. -/
theorem compile_of_ok (run : compileWith (r.compileSteps name) s.world = (.ok c, w)) :
    r.compile name s = (.ok c, ⟨w, s.compilations + 1⟩) := by
  unfold Renderer.compile
  rw [Rendering.bind_apply]
  unfold onWorldExcept
  rw [run]
  rfl

theorem compileAndKeep_of_error (run : r.compile name s = (.error e, s')) :
    r.compileAndKeep name s = (.error e, s') := by
  unfold Renderer.compileAndKeep
  rw [Rendering.bind_apply, run]

theorem compileAndKeep_of_ok {result : Except TemplateError Unit} (run : r.compile name s = (.ok c, s'))
    (stored : r.cache.store name c.artifact c.template.dependencies s'.world = (result, w)) :
    r.compileAndKeep name s = (tolerated result, { s' with world := w }) := by
  unfold Renderer.compileAndKeep
  rw [Rendering.bind_apply, run]
  show (tolerated (r.cache.store name c.artifact c.template.dependencies s'.world).1,
    ({ s' with world := (r.cache.store name c.artifact c.template.dependencies s'.world).2 } : Workbench W)) = _
  rw [stored]

theorem tolerated_eq {result : Except TemplateError Unit} (either : result = .ok () ∨ ∃ e, result = .error (.io e)) :
    tolerated result = .ok () := by
  rcases either with rfl | ⟨e, rfl⟩ <;> rfl

theorem renderValue_of_error (ensured : r.ensure name s = (.error e, s')) (params : Value) :
    r.renderValue name params s = (.error e, s') := by
  unfold Renderer.renderValue
  rw [Rendering.bind_apply, ensured]

theorem renderValue_of_load {p : Program} (ensured : r.ensure name s = (.ok (), s'))
    (loaded : r.cache.load name s'.world = (.ok p, w)) (params : Value) :
    r.renderValue name params s = (p.execute params r.functions, { s' with world := w }) := by
  unfold Renderer.renderValue
  rw [Rendering.bind_apply, ensured]
  dsimp only
  unfold onWorldExcept
  rw [Cache.execute_of_load loaded]

/-! #### Compiling ahead -/

/-- Templates are compiled ahead in the order in which they are listed. -/
theorem precompile_apply {names : List String} (listed : onWorldExcept r.library.names s = (.ok names, s)) :
    r.precompile s =
      match names.forM r.ensure s with
      | (.ok (), s') => (.ok names.length, s')
      | (.error e, s') => (.error e, s') := by
  unfold Renderer.precompile
  rw [Rendering.bind_apply, listed]
  dsimp only
  rw [Rendering.bind_apply]
  rcases names.forM r.ensure s with ⟨e | u, s'⟩ <;> rfl

/-- One template after the other is seen to, with success. -/
inductive SeesTo (r : Renderer W) : List String → Workbench W → Workbench W → Prop where
  | nil (s : Workbench W) : SeesTo r [] s s
  | cons {name : String} {names : List String} {s t s' : Workbench W} (first : r.ensure name s = (.ok (), t))
      (rest : SeesTo r names t s') : SeesTo r (name :: names) s s'

theorem forM_ensure_iff (names : List String) : names.forM r.ensure s = (.ok (), s') ↔ r.SeesTo names s s' := by
  induction names generalizing s with
  | nil =>
    constructor
    · intro run
      cases run
      exact .nil _
    · rintro ⟨⟩
      rfl
  | cons name names ih =>
    unfold List.forM
    rw [Rendering.bind_apply]
    constructor
    · intro run
      rcases first : r.ensure name s with ⟨e | u, t⟩
      · rw [first] at run
        cases run
      · rw [first] at run
        exact .cons first (ih.mp run)
    · intro run
      cases run with
      | cons first rest =>
        rw [first]
        exact ih.mpr rest

/-- Compiling ahead succeeds exactly if every listed template can be seen to in its turn, and counts them. -/
theorem precompile_ok_iff {names : List String} {count : Nat}
    (listed : onWorldExcept r.library.names s = (.ok names, s)) :
    r.precompile s = (.ok count, s') ↔ count = names.length ∧ r.SeesTo names s s' := by
  rw [precompile_apply listed, ← forM_ensure_iff]
  rcases names.forM r.ensure s with ⟨e | u, t⟩
  · exact ⟨nofun, fun h => nomatch h.2⟩
  · constructor
    · intro run
      cases run
      exact ⟨rfl, rfl⟩
    · rintro ⟨rfl, run⟩
      cases run
      rfl

end Renderer

end Stencil
