import Stencil.Proofs.Compile.Parallel
import Stencil.Proofs.Tag.Strictness
import Stencil.Renderer

/-!
Two compilations side by side. With the same tags, and libraries that leave their worlds alone, they go the same
way as long as both libraries have the same under every identity that the first compilation records. A handler
that gives up when a template cannot be read asks for nothing that is not recorded.
-/
namespace Stencil

/-- A state in another world. -/
def CompileState.placed {V W : Type} (s : CompileState V) (w : W) : CompileState W :=
  ⟨w, s.tree, s.frames, s.finished, s.sources, s.blocks, s.deferred⟩

/-- The sources that a library holds, with their stamps. -/
abbrev Sources := Keyed (String × Stamp)

/-- In this world the library answers as sources in memory do, and leaves the world as it is. -/
structure Library.Holds {W : Type} (lib : Library W) (w : W) (sources : Sources) : Prop where
  locate : ∀ name, lib.locate name w =
    (if Keyed.has name sources then .ok name else .error (MemorySources.notFound name), w)
  modified : ∀ identity, lib.modified identity w = ((Keyed.get? identity sources).map (·.2), w)
  read : ∀ name, lib.read name w =
    (match Keyed.get? name sources with
      | some (source, _) => .ok source
      | none => .error (MemorySources.notFound name), w)
  reach : sources.length ≤ lib.reach w

/-- What holds of every state of a compilation that reads these sources. -/
structure Orderly (sources : Sources) (s : CompileState Unit) : Prop where
  apart : (s.frames.map (·.identity)).Nodup
  openRecorded : ∀ identity ∈ s.frames.map (·.identity), identity ∈ Keyed.keys s.sources
  doneRecorded : ∀ identity ∈ Keyed.keys s.finished, identity ∈ Keyed.keys s.sources
  stamps : ∀ d ∈ s.sources, ∃ source stamp, Keyed.get? d.1 sources = some (source, stamp) ∧ d.2 = some stamp

/-- Two libraries, each in its world. -/
structure Sides (W₁ W₂ : Type) where
  world₁ : W₁
  world₂ : W₂
  sources₁ : Sources
  sources₂ : Sources

namespace Sides

variable {W₁ W₂ : Type} (v : Sides W₁ W₂)

/-- Both sides have the same source, with the same stamp, under an identity. -/
def Same (identity : String) : Prop := Keyed.get? identity v.sources₁ = Keyed.get? identity v.sources₂

/-- Both sides have the same sources. -/
def Alike : Prop := ∀ identity, v.Same identity

/-- Both sides have the same under all identities that are recorded. -/
def Covers (s : CompileState Unit) : Prop := ∀ identity ∈ Keyed.keys s.sources, v.Same identity

variable {α β : Type}

/-- What the first side does from a state, the second does as well: always if their sources are alike, and if it
succeeds and ends in a state that can be trusted. -/
def EchoesAt (trusted : CompileState Unit → Prop) (s : CompileState Unit) (a₁ : Compile W₁ α)
    (a₂ : Compile W₂ α) : Prop :=
  ∃ r s', a₁ (s.placed v.world₁) = (r, s'.placed v.world₁) ∧ Orderly v.sources₁ s' ∧
    Keyed.keys s.sources ⊆ Keyed.keys s'.sources ∧
    s'.frames.map (·.identity) = s.frames.map (·.identity) ∧
    (v.Alike ∨ r.isOk = true ∧ trusted s' → a₂ (s.placed v.world₂) = (r, s'.placed v.world₂))

/-- The same from every state with `n` templates being read. -/
def Echoes (trusted : CompileState Unit → Prop) (n : Nat) (a₁ : Compile W₁ α) (a₂ : Compile W₂ α) : Prop :=
  ∀ s, Orderly v.sources₁ s → s.frames.length = n → v.EchoesAt trusted s a₁ a₂

/-- A state that leads to a trusted one is trusted itself. -/
def Closed (trusted : CompileState Unit → Prop) : Prop :=
  ∀ s s' : CompileState Unit, Keyed.keys s.sources ⊆ Keyed.keys s'.sources → trusted s' → trusted s

theorem Covers.closed : Closed v.Covers := fun _ _ grown covers identity h => covers identity (grown h)

end Sides

theorem Orderly.change {sources : Sources} {s s' : CompileState Unit} (orderly : Orderly sources s)
    (reading : s'.frames.map (·.identity) = s.frames.map (·.identity)) (done : s'.finished = s.finished)
    (recorded : s'.sources = s.sources) : Orderly sources s' := by
  obtain ⟨apart, openRecorded, doneRecorded, stamps⟩ := orderly
  constructor
  case apart =>
    rw [reading]
    exact apart
  case openRecorded =>
    rw [reading, recorded]
    exact openRecorded
  case doneRecorded =>
    rw [done, recorded]
    exact doneRecorded
  case stamps =>
    rw [recorded]
    exact stamps

/-- A source is recorded with the stamp that it has. -/
theorem Orderly.record {sources : Sources} {s : CompileState Unit} (orderly : Orderly sources s) {identity : String}
    {stamp : Stamp} (held : ∃ source, Keyed.get? identity sources = some (source, stamp)) :
    Orderly sources { s with sources := Keyed.put identity (some stamp) s.sources } := by
  constructor
  case apart => exact orderly.apart
  case openRecorded => exact fun id h => Keyed.mem_keys_put.mpr (Or.inr (orderly.openRecorded id h))
  case doneRecorded => exact fun id h => Keyed.mem_keys_put.mpr (Or.inr (orderly.doneRecorded id h))
  case stamps =>
    intro d h
    rcases Keyed.mem_put h with h | h
    · obtain ⟨source, same⟩ := held
      exact ⟨source, stamp, by rw [h]; exact same, by rw [h]⟩
    · exact orderly.stamps d h

/-- One more template is being read. -/
theorem Orderly.enter {sources : Sources} {s : CompileState Unit} (orderly : Orderly sources s) {frame : Frame}
    (fresh : frame.identity ∉ s.frames.map (·.identity)) (recorded : frame.identity ∈ Keyed.keys s.sources) :
    Orderly sources { s with frames := frame :: s.frames } := by
  constructor
  case apart => exact List.nodup_cons.mpr ⟨fresh, orderly.apart⟩
  case openRecorded =>
    intro identity h
    rcases List.mem_cons.mp h with h | h
    · rw [h]
      exact recorded
    · exact orderly.openRecorded identity h
  case doneRecorded => exact orderly.doneRecorded
  case stamps => exact orderly.stamps

/-- One template less is being read. -/
theorem Orderly.leave {sources : Sources} {s : CompileState Unit} (orderly : Orderly sources s) :
    Orderly sources { s with frames := s.frames.tail } := by
  have outer : s.frames.tail.map (·.identity) = (s.frames.map (·.identity)).tail := List.map_tail
  constructor
  case apart =>
    rw [outer]
    exact orderly.apart.sublist (List.tail_sublist _)
  case openRecorded =>
    intro identity h
    rw [outer] at h
    exact orderly.openRecorded identity (List.mem_of_mem_tail h)
  case doneRecorded => exact orderly.doneRecorded
  case stamps => exact orderly.stamps

/-- A template that is recorded has been read. -/
theorem Orderly.finish {sources : Sources} {s : CompileState Unit} (orderly : Orderly sources s) {name : String}
    (recorded : name ∈ Keyed.keys s.sources) (root : NodeId) :
    Orderly sources { s with finished := Keyed.put name root s.finished } := by
  refine ⟨orderly.apart, orderly.openRecorded, fun id h => ?_, orderly.stamps⟩
  rcases Keyed.mem_keys_put.mp h with rfl | h
  · exact recorded
  · exact orderly.doneRecorded id h

/-- Whether a template is being read. -/
theorem reading_iff {frames : List Frame} {identity : String} :
    frames.any (·.identity = identity) = true ↔ identity ∈ frames.map (·.identity) := by
  simp only [List.any_eq_true, decide_eq_true_eq, List.mem_map]

/-- Templates that differ are no more than the names among which all are found. -/
theorem frames_le_of_found {frames : List Frame} (apart : (frames.map (·.identity)).Nodup) {names : Sources}
    (found : ∀ identity ∈ frames.map (·.identity), (Keyed.get? identity names).isSome = true) :
    frames.length ≤ names.length := by
  have within : frames.map (·.identity) ⊆ Keyed.keys names := by
    intro identity h
    obtain ⟨entry, get⟩ := Option.isSome_iff_exists.mp (found identity h)
    exact Keyed.mem_keys_of_get? get
  have few := List.Nodup.length_le_of_subset apart within
  have same : (Keyed.keys names).length = names.length := List.length_map ..
  rw [List.length_map] at few
  omega

namespace Orderly

variable {sources : Sources} {s : CompileState Unit}

theorem isSome_of_recorded (orderly : Orderly sources s) {identity : String}
    (recorded : identity ∈ Keyed.keys s.sources) : (Keyed.get? identity sources).isSome = true := by
  obtain ⟨d, mem, rfl⟩ := List.mem_map.mp recorded
  obtain ⟨source, stamp, found, -⟩ := orderly.stamps d mem
  rw [found]
  rfl

/-- No more templates are being read than there are names under which something is found. -/
theorem reading_le_of (orderly : Orderly sources s) {names : Sources}
    (found : ∀ identity ∈ Keyed.keys s.sources, (Keyed.get? identity names).isSome = true) :
    s.frames.length ≤ names.length :=
  frames_le_of_found orderly.apart fun identity h => found identity (orderly.openRecorded identity h)

theorem reading_le (orderly : Orderly sources s) : s.frames.length ≤ sources.length :=
  orderly.reading_le_of fun _ => orderly.isSome_of_recorded

end Orderly

theorem Compile.bind_apply {W α β : Type} (a : Compile W α) (f : α → Compile W β) (s : CompileState W) :
    (a >>= f) s =
      match a s with
      | (.ok x, s') => f x s'
      | (.error e, s') => (.error e, s') := by
  show ExceptT.bindCont f (a s).1 (a s).2 = _
  rcases a s with ⟨r | x, s'⟩ <;> rfl

/-- What comes after a step that succeeds. -/
theorem Compile.bind_of_ok {W α β : Type} {a : Compile W α} {f : α → Compile W β} {s s' : CompileState W} {x : α}
    (run : a s = (.ok x, s')) : (a >>= f) s = f x s' := by
  rw [Compile.bind_apply, run]

/-- A step that succeeds is made of two that do. -/
theorem Compile.bind_ok {W α β : Type} {a : Compile W α} {f : α → Compile W β} {s s' : CompileState W} {y : β}
    (run : (a >>= f) s = (.ok y, s')) : ∃ x t, a s = (.ok x, t) ∧ f x t = (.ok y, s') := by
  rw [Compile.bind_apply] at run
  cases first : a s with
  | mk r t =>
    rw [first] at run
    cases r with
    | error e => cases run
    | ok x => exact ⟨x, t, rfl, run⟩

/-- Two steps fail if the first one does, or the second one after it. -/
theorem Compile.bind_error {W α β : Type} {a : Compile W α} {f : α → Compile W β} {s s' : CompileState W}
    {e : TemplateError} (run : (a >>= f) s = (.error e, s')) :
    a s = (.error e, s') ∨ ∃ x t, a s = (.ok x, t) ∧ f x t = (.error e, s') := by
  rw [Compile.bind_apply] at run
  rcases first : a s with ⟨e' | x, t⟩
  · rw [first] at run
    cases run
    exact .inl rfl
  · rw [first] at run
    exact .inr ⟨x, t, rfl, run⟩

namespace Sides

variable {W₁ W₂ : Type} {v : Sides W₁ W₂} {trusted : CompileState Unit → Prop} {α β : Type}
  {s s' : CompileState Unit}

/-- Both sides fail or give the same result after the same change of the state, whatever their worlds. -/
theorem echoesAt_of_eq (s' : CompileState Unit) {a₁ : Compile W₁ α} {a₂ : Compile W₂ α}
    {r : Except TemplateError α} (first : a₁ (s.placed v.world₁) = (r, s'.placed v.world₁))
    (second : a₂ (s.placed v.world₂) = (r, s'.placed v.world₂)) (orderly : Orderly v.sources₁ s')
    (grown : Keyed.keys s.sources ⊆ Keyed.keys s'.sources)
    (reading : s'.frames.map (·.identity) = s.frames.map (·.identity)) : v.EchoesAt trusted s a₁ a₂ :=
  ⟨r, s', first, orderly, grown, reading, fun _ => second⟩

theorem echoesAt_pure (orderly : Orderly v.sources₁ s) (a : α) :
    v.EchoesAt trusted s (pure a : Compile W₁ α) (pure a) :=
  echoesAt_of_eq _ rfl rfl orderly (fun _ h => h) rfl

theorem echoesAt_throw (orderly : Orderly v.sources₁ s) (e : TemplateError) :
    v.EchoesAt trusted s (throw e : Compile W₁ α) (throw e) :=
  echoesAt_of_eq _ rfl rfl orderly (fun _ h => h) rfl

/-- Both sides go on from the same state after steps that cannot fail. -/
theorem EchoesAt.after {a₁ b₁ : Compile W₁ α} {a₂ b₂ : Compile W₂ α} (echoes : v.EchoesAt trusted s' b₁ b₂)
    (first : a₁ (s.placed v.world₁) = b₁ (s'.placed v.world₁))
    (second : a₂ (s.placed v.world₂) = b₂ (s'.placed v.world₂))
    (grown : Keyed.keys s.sources ⊆ Keyed.keys s'.sources)
    (reading : s'.frames.map (·.identity) = s.frames.map (·.identity)) : v.EchoesAt trusted s a₁ a₂ := by
  obtain ⟨r, t, run, orderly, more, same, echo⟩ := echoes
  refine ⟨r, t, first.trans run, orderly, fun _ h => more (grown h), same.trans reading, ?_⟩
  intro cause
  exact second.trans (echo cause)

theorem EchoesAt.bind (closed : Closed trusted) {a₁ : Compile W₁ α} {a₂ : Compile W₂ α}
    {f₁ : α → Compile W₁ β} {f₂ : α → Compile W₂ β} (echoes : v.EchoesAt trusted s a₁ a₂)
    (rest : ∀ x s', Orderly v.sources₁ s' → s'.frames.map (·.identity) = s.frames.map (·.identity) →
      Keyed.keys s.sources ⊆ Keyed.keys s'.sources → v.EchoesAt trusted s' (f₁ x) (f₂ x)) :
    v.EchoesAt trusted s (a₁ >>= f₁) (a₂ >>= f₂) := by
  obtain ⟨r, t, run, orderly, grown, same, echo⟩ := echoes
  cases r with
  | error e =>
    refine ⟨.error e, t, by rw [Compile.bind_apply, run], orderly, grown, same, ?_⟩
    rintro (alike | ⟨fine, -⟩)
    · rw [Compile.bind_apply, echo (Or.inl alike)]
    · cases fine
  | ok x =>
    obtain ⟨r', t', run', orderly', grown', same', echo'⟩ := rest x t orderly same grown
    refine ⟨r', t', by rw [Compile.bind_apply, run]; exact run', orderly', fun _ h => grown' (grown h),
      same'.trans same, ?_⟩
    intro cause
    have early : v.Alike ∨ (Except.ok x : Except TemplateError α).isOk = true ∧ trusted t :=
      cause.imp_right fun h => ⟨rfl, closed t t' grown' h.2⟩
    rw [Compile.bind_apply, echo early]
    exact echo' cause

theorem Echoes.bind (closed : Closed trusted) {n : Nat} {a₁ : Compile W₁ α} {a₂ : Compile W₂ α}
    {f₁ : α → Compile W₁ β} {f₂ : α → Compile W₂ β} (echoes : v.Echoes trusted n a₁ a₂)
    (rest : ∀ x, v.Echoes trusted n (f₁ x) (f₂ x)) : v.Echoes trusted n (a₁ >>= f₁) (a₂ >>= f₂) := by
  intro s orderly reading
  refine (echoes s orderly reading).bind closed fun x s' orderly' same _ => rest x s' orderly' ?_
  have lengths := congrArg List.length same
  rw [List.length_map, List.length_map] at lengths
  rw [lengths, reading]

theorem Echoes.weaken {stricter : CompileState Unit → Prop} {n : Nat} {a₁ : Compile W₁ α} {a₂ : Compile W₂ α}
    (echoes : v.Echoes trusted n a₁ a₂) (weaker : ∀ s, stricter s → trusted s) : v.Echoes stricter n a₁ a₂ := by
  intro s orderly reading
  obtain ⟨r, t, run, orderly', grown, same, echo⟩ := echoes s orderly reading
  exact ⟨r, t, run, orderly', grown, same, fun cause => echo (cause.imp_right fun h => ⟨h.1, weaker t h.2⟩)⟩

theorem echoes_pure {n : Nat} (a : α) : v.Echoes trusted n (pure a : Compile W₁ α) (pure a) :=
  fun _ orderly _ => echoesAt_pure orderly a

theorem echoes_throw {n : Nat} (e : TemplateError) : v.Echoes trusted n (throw e : Compile W₁ α) (throw e) :=
  fun _ orderly _ => echoesAt_throw orderly e

theorem echoes_getTree {n : Nat} : v.Echoes trusted n (Compile.getTree : Compile W₁ Tree) Compile.getTree :=
  fun _ orderly _ => echoesAt_of_eq _ rfl rfl orderly (fun _ h => h) rfl

theorem echoes_changeTree {n : Nat} (change : Tree → Tree) :
    v.Echoes trusted n (Compile.changeTree change : Compile W₁ Unit) (Compile.changeTree change) :=
  fun s orderly _ => echoesAt_of_eq { s with tree := change s.tree } rfl rfl
    (orderly.change rfl rfl rfl) (fun _ h => h) rfl

/-- What both sides do without their worlds, they do alike. -/
theorem echoes_parallel (v : Sides W₁ W₂) (closed : Closed trusted) (n : Nat) :
    Compile.Parallel fun _ a₁ a₂ => v.Echoes trusted n a₁ a₂ :=
  ⟨echoes_pure, fun _ => echoes_throw _, echoes_getTree, echoes_changeTree, fun echoes rest => echoes.bind closed rest⟩

theorem map_identity_setRoot (root : NodeId) (frames : List Frame) :
    (Compile.setRoot root frames).map (·.identity) = frames.map (·.identity) := by
  cases frames <;> rfl

end Sides

/-! #### What a template takes -/

namespace Compile

variable {W : Type}

/-- What is asked of a library for one template. -/
theorem loadWithin_succ (c : Compiler W) (depth : Nat) (name : String) (via : Option NodeId) (s : CompileState W) :
    loadWithin c (depth + 1) name via s =
      match c.library.locate name s.world with
      | (.error e, w) => (.error e, { s with world := w })
      | (.ok identity, w) =>
        if s.frames.any (·.identity = identity) then (.error (cycleError name via s), { s with world := w })
        else match Keyed.get? identity s.finished with
          | some root => (.ok root, { s with world := w })
          | none =>
            match c.library.read name (c.library.modified identity w).2 with
            | (.error e, w') => (.error e, { s with world := w' })
            | (.ok text, w') =>
              match readSource c.table (loadWithin c depth) name identity (c.library.modified identity w).1 text
                { s with world := w' } with
              | (.error e, t) => (.error e, t)
              | (.ok root, t) => (.ok root, { t with finished := Keyed.put identity root t.finished }) := by
  unfold loadWithin
  rw [bind_apply]
  unfold onWorldExcept
  rcases c.library.locate name s.world with ⟨e | identity, w⟩
  · rfl
  · dsimp only
    rw [bind_apply]
    have here : (get : Compile W (CompileState W)) { s with world := w } =
      (.ok { s with world := w }, { s with world := w }) := rfl
    rw [here]
    dsimp only
    split
    · rfl
    · cases Keyed.get? identity s.finished with
      | some root => rfl
      | none =>
        dsimp only
        rw [bind_apply]
        unfold onWorld
        rcases c.library.modified identity w with ⟨stamp, w₁⟩
        dsimp only
        rw [bind_apply]
        rcases c.library.read name w₁ with ⟨e | text, w₂⟩
        · rfl
        · dsimp only
          rw [bind_apply]
          rcases readSource c.table (loadWithin c depth) name identity stamp text { s with world := w₂ } with
            ⟨e | root, t⟩ <;> rfl

end Compile

/-! #### Handlers on both sides -/

theorem Handler.Fails.carryOut {W α : Type} {h : Handler α} (fails : h.Fails) (load : Loader W)
    (s : CompileState W) : (Compile.carryOut load h s).1.isOk = false := by
  induction h generalizing s with
  | done a => cases fails
  | fail e => rfl
  | onTree change next ih => exact ih _ (fails _) _
  | depth next ih => exact ih _ (fails _) _
  | lookup block next ih => exact ih _ (fails _) _
  | define block node next ih => exact ih fails _
  | defer node next ih => exact ih fails _
  | load name via next ih => exact ih _ (fails _) _
  | replaceRoot node next ih => exact ih fails _

namespace Sides

variable {W₁ W₂ : Type} {v : Sides W₁ W₂} {trusted : CompileState Unit → Prop} {α : Type} {n : Nat}
  {load₁ : Loader W₁} {load₂ : Loader W₂} {mayRead : Prop}

/-- A handler that is not strict does its part on the first side all the same. -/
theorem carryOut_echoesAt (closed : Closed trusted)
    (loads : ∀ name via, v.Echoes (fun s => mayRead ∧ trusted s) n (load₁ name via) (load₂ name via))
    (h : Handler α) (s : CompileState Unit) (orderly : Orderly v.sources₁ s) (reading : s.frames.length = n) :
    v.EchoesAt (fun s => h.Strict mayRead ∧ trusted s) s (Compile.carryOut load₁ h) (Compile.carryOut load₂ h) := by
  induction h generalizing s with
  | done a => exact echoesAt_pure orderly a
  | fail e => exact echoesAt_throw orderly e
  | onTree change next ih =>
    have moved : Orderly v.sources₁ { s with tree := change s.tree } := orderly.change rfl rfl rfl
    obtain ⟨r, t, run, orderly', grown, same, echo⟩ := ih (change s.tree) _ moved reading
    exact ⟨r, t, run, orderly', grown, same, fun cause => echo (cause.imp_right fun h => ⟨h.1, h.2.1 _, h.2.2⟩)⟩
  | depth next ih =>
    obtain ⟨r, t, run, orderly', grown, same, echo⟩ := ih s.frames.length _ orderly reading
    exact ⟨r, t, run, orderly', grown, same, fun cause => echo (cause.imp_right fun h => ⟨h.1, h.2.1 _, h.2.2⟩)⟩
  | lookup block next ih =>
    obtain ⟨r, t, run, orderly', grown, same, echo⟩ := ih (Keyed.get? block s.blocks) _ orderly reading
    exact ⟨r, t, run, orderly', grown, same, fun cause => echo (cause.imp_right fun h => ⟨h.1, h.2.1 _, h.2.2⟩)⟩
  | define block node next ih =>
    have moved : Orderly v.sources₁ { s with blocks := Keyed.put block ⟨node, s.frames.length⟩ s.blocks } :=
      orderly.change rfl rfl rfl
    obtain ⟨r, t, run, orderly', grown, same, echo⟩ := ih _ moved reading
    exact ⟨r, t, run, orderly', grown, same, echo⟩
  | defer node next ih =>
    have moved : Orderly v.sources₁ { s with deferred := s.deferred ++ [node] } := orderly.change rfl rfl rfl
    obtain ⟨r, t, run, orderly', grown, same, echo⟩ := ih _ moved reading
    exact ⟨r, t, run, orderly', grown, same, echo⟩
  | load name via next ih =>
    obtain ⟨r₀, t₀, run₀, orderly₀, grown₀, same₀, echo₀⟩ := loads name via s orderly reading
    have reading₀ : t₀.frames.length = n := by
      have lengths := congrArg List.length same₀
      rw [List.length_map, List.length_map] at lengths
      rw [lengths, reading]
    obtain ⟨r, t, run, orderly', grown, same, echo⟩ := ih r₀ t₀ orderly₀ reading₀
    refine ⟨r, t, ?_, orderly', fun _ h => grown (grown₀ h), same.trans same₀, ?_⟩
    · unfold Compile.carryOut
      rw [run₀]
      exact run
    · intro cause
      have ended : v.Alike ∨ r₀.isOk = true ∧ mayRead ∧ trusted t₀ := by
        rcases cause with alike | ⟨fine, strict, trust⟩
        · exact Or.inl alike
        · refine Or.inr ⟨?_, strict.1, closed t₀ t grown trust⟩
          cases r₀ with
          | ok root => rfl
          | error e =>
            have failed := (strict.2.1 e).carryOut load₁ (t₀.placed v.world₁)
            rw [run, fine] at failed
            cases failed
      have gone : v.Alike ∨ r.isOk = true ∧ (next r₀).Strict mayRead ∧ trusted t := by
        rcases cause with alike | ⟨fine, strict, trust⟩
        · exact Or.inl alike
        · rcases ended with alike | ⟨fine₀, -⟩
          · exact Or.inl alike
          · cases r₀ with
            | ok root => exact Or.inr ⟨fine, strict.2.2 root, trust⟩
            | error e => cases fine₀
      unfold Compile.carryOut
      rw [echo₀ ended]
      exact echo gone
  | replaceRoot node next ih =>
    have moved : Orderly v.sources₁ { s with frames := Compile.setRoot node s.frames } :=
      orderly.change (map_identity_setRoot node s.frames) rfl rfl
    have reading' : (Compile.setRoot node s.frames).length = n := by
      cases frames : s.frames <;> rw [frames] at reading <;> exact reading
    obtain ⟨r, t, run, orderly', grown, same, echo⟩ := ih _ moved reading'
    exact ⟨r, t, run, orderly', grown, same.trans (map_identity_setRoot node s.frames), echo⟩

theorem carryOut_echoes (closed : Closed trusted)
    (loads : ∀ name via, v.Echoes (fun s => mayRead ∧ trusted s) n (load₁ name via) (load₂ name via))
    {h : Handler α} (careful : v.Alike ∨ h.Strict mayRead) :
    v.Echoes trusted n (Compile.carryOut load₁ h) (Compile.carryOut load₂ h) := by
  intro s orderly reading
  obtain ⟨r, t, run, orderly', grown, same, echo⟩ := carryOut_echoesAt closed loads h s orderly reading
  refine ⟨r, t, run, orderly', grown, same, ?_⟩
  rintro (alike | ⟨fine, trust⟩)
  · exact echo (Or.inl alike)
  · exact echo (careful.imp_right fun strict => ⟨fine, strict, trust⟩)

/-- The handler for a phase that is not that of rendering is bound to such a phase as well. -/
theorem steady_handlerFor {table : Tag.Table} (steady : table.Steady) {tag : String} {handlers : Tag.Handlers}
    (bound : Keyed.get? tag table = some handlers) {phase : Tag.Phase} {handler : Tag.NodeHandler}
    (found : Compile.handlerFor handlers phase = some handler) (id : NodeId) :
    (handler id).Strict (phase ≠ .onRender) := by
  cases phase with
  | onOpen =>
    simp only [Compile.handlerFor] at found
    cases alone : handlers.onOpenClose with
    | some other =>
      rw [alone] at found
      cases found
      simpa using steady tag handlers .onOpenClose _ id bound alone
    | none =>
      rw [alone] at found
      simpa using steady tag handlers .onOpen _ id bound found
  | onClose => exact steady tag handlers .onClose _ id bound found
  | onRender => exact steady tag handlers .onRender _ id bound found
  | onOpenClose => exact steady tag handlers .onOpenClose _ id bound found

theorem dispatch_echoes {table : Tag.Table} (careful : v.Alike ∨ table.Steady) (closed : Closed trusted)
    (id : NodeId) (phase : Tag.Phase)
    (loads : ∀ name via, v.Echoes (fun s => phase ≠ .onRender ∧ trusted s) n (load₁ name via) (load₂ name via)) :
    v.Echoes trusted n (Compile.dispatch table load₁ id phase) (Compile.dispatch table load₂ id phase) := by
  refine (echoes_parallel v closed n).related_dispatch id phase fun tag handlers handler bound found => ?_
  exact carryOut_echoes closed loads (careful.imp_right fun steady => steady_handlerFor steady bound found id)

/-! #### Sources on both sides -/

theorem build_echoes {table : Tag.Table} (careful : v.Alike ∨ table.Steady) (closed : Closed trusted)
    (loads : ∀ name via, v.Echoes trusted n (load₁ name via) (load₂ name via)) (file : String) (root : NodeId)
    (tokens : List Markup.Token) :
    v.Echoes trusted n (Compile.build table load₁ file root tokens)
      (Compile.build table load₂ file root tokens) := by
  refine (echoes_parallel v closed n).related_build (fun id phase _ => ?_) file root tokens
  exact dispatch_echoes careful closed id phase fun name via => (loads name via).weaken fun _ h => h.2

/-- A template is read with one more template being read than before. -/
theorem within_echoesAt (closed : Closed trusted) (frame : Frame) {a₁ : Compile W₁ Unit} {a₂ : Compile W₂ Unit}
    (echoes : v.Echoes trusted (n + 1) a₁ a₂) {s : CompileState Unit} (orderly : Orderly v.sources₁ s)
    (reading : s.frames.length = n) (fresh : frame.identity ∉ s.frames.map (·.identity))
    (recorded : frame.identity ∈ Keyed.keys s.sources) :
    v.EchoesAt trusted s (Compile.within frame a₁) (Compile.within frame a₂) := by
  obtain ⟨r, t, run, orderly', grown, kept, echo⟩ := echoes _ (orderly.enter fresh recorded) (by simp [reading])
  have outside : t.frames.tail.map (·.identity) = s.frames.map (·.identity) := by
    rw [List.map_tail, kept]
    rfl
  refine ⟨r.map fun _ => (t.frames.head?.map (·.root)).getD frame.root, { t with frames := t.frames.tail },
    ?_, orderly'.leave, grown, outside, ?_⟩
  · have run' : a₁ { s.placed v.world₁ with frames := frame :: s.frames } = (r, t.placed v.world₁) := run
    unfold Compile.within
    exact congrArg (fun p : Except TemplateError Unit × CompileState W₁ =>
      (p.1.map fun _ => (p.2.frames.head?.map (·.root)).getD frame.root, { p.2 with frames := p.2.frames.tail })) run'
  · intro cause
    have run' : a₂ { s.placed v.world₂ with frames := frame :: s.frames } = (r, t.placed v.world₂) := by
      refine echo (cause.imp_right fun h => ⟨?_, closed t { t with frames := t.frames.tail } (fun _ h => h) h.2⟩)
      cases r with
      | ok a => rfl
      | error e => exact h.1
    unfold Compile.within
    exact congrArg (fun p : Except TemplateError Unit × CompileState W₂ =>
      (p.1.map fun _ => (p.2.frames.head?.map (·.root)).getD frame.root, { p.2 with frames := p.2.frames.tail })) run'

/-- The text of a source is read as long as its name is not being read and its stamp is the recorded one. -/
theorem readSource_echoesAt {table : Tag.Table} (careful : v.Alike ∨ table.Steady) (closed : Closed trusted)
    (loads : ∀ name via, v.Echoes trusted (n + 1) (load₁ name via) (load₂ name via)) {s : CompileState Unit}
    (orderly : Orderly v.sources₁ s) (reading : s.frames.length = n) {identity : String} {stamp : Stamp}
    (fresh : identity ∉ s.frames.map (·.identity))
    (held : ∃ source, Keyed.get? identity v.sources₁ = some (source, stamp)) (name text : String) :
    ∃ r s', Compile.readSource table load₁ name identity (some stamp) text (s.placed v.world₁) =
        (r, s'.placed v.world₁) ∧ Orderly v.sources₁ s' ∧
      (∀ id, id = identity ∨ id ∈ Keyed.keys s.sources → id ∈ Keyed.keys s'.sources) ∧
      s'.frames.map (·.identity) = s.frames.map (·.identity) ∧
      (v.Alike ∨ r.isOk = true ∧ trusted s' →
        Compile.readSource table load₂ name identity (some stamp) text (s.placed v.world₂) =
          (r, s'.placed v.world₂)) := by
  have recorded := orderly.record held
  cases scanned : Markup.scan name text with
  | error e =>
    refine ⟨.error e, { s with sources := Keyed.put identity (some stamp) s.sources }, ?_, recorded,
      fun _ => Keyed.mem_keys_put.mpr, rfl, fun _ => ?_⟩
    · simp only [Compile.readSource, scanned]
      rfl
    · simp only [Compile.readSource, scanned]
      rfl
  | ok tokens =>
    let t := s.tree.create name 1
    let t' := t.2.update t.1 fun n => { n with isRoot := true }
    let s' : CompileState Unit := { s with sources := Keyed.put identity (some stamp) s.sources, tree := t' }
    have orderly' : Orderly v.sources₁ s' := recorded.change rfl rfl rfl
    have mem : identity ∈ Keyed.keys s'.sources := Keyed.mem_keys_put.mpr (Or.inl rfl)
    obtain ⟨r, u, run, ends, grown, same, echo⟩ := within_echoesAt closed
      ⟨name, identity, t.1⟩ (build_echoes careful closed loads name t.1 tokens) orderly' reading fresh mem
    refine ⟨r, u, ?_, ends, fun _ h => grown (Keyed.mem_keys_put.mpr h), same, fun cause => ?_⟩
    · rw [← run]
      simp only [Compile.readSource, scanned]
      rfl
    · rw [← echo cause]
      simp only [Compile.readSource, scanned]
      rfl

theorem loadWithin_apply {V W : Type} {c : Compiler W} {w : W} {sources : Sources} (holds : c.library.Holds w sources)
    (depth : Nat) (name : String) (via : Option NodeId) (s : CompileState V) :
    Compile.loadWithin c (depth + 1) name via (s.placed w) =
      match Keyed.get? name sources with
      | none => (.error (MemorySources.notFound name), s.placed w)
      | some (source, stamp) =>
        if name ∈ s.frames.map (·.identity) then (.error (Compile.cycleError name via (s.placed ())), s.placed w)
        else match Keyed.get? name s.finished with
          | some root => (.ok root, s.placed w)
          | none =>
            match Compile.readSource c.table (Compile.loadWithin c depth) name name (some stamp) source (s.placed w) with
            | (.ok root, t) => (.ok root, { t with finished := Keyed.put name root t.finished })
            | (.error e, t) => (.error e, t) := by
  rw [Compile.loadWithin_succ]
  have world : (s.placed w).world = w := rfl
  rw [world, holds.locate]
  cases found : Keyed.get? name sources with
  | none =>
    have missing : Keyed.has name sources = false := by simp [Keyed.has, found]
    rw [missing]
    rfl
  | some entry =>
    obtain ⟨source, stamp⟩ := entry
    have there : Keyed.has name sources = true := by simp [Keyed.has, found]
    have listed : (s.placed w).frames.any (·.identity = name) = true ↔ name ∈ s.frames.map (·.identity) := reading_iff
    rw [if_pos there]
    dsimp only
    by_cases cyclic : name ∈ s.frames.map (·.identity)
    · rw [if_pos cyclic, if_pos (listed.mpr cyclic)]
      rfl
    · rw [if_neg cyclic, if_neg (fun h => cyclic (listed.mp h))]
      have done : Keyed.get? name (s.placed w).finished = Keyed.get? name s.finished := rfl
      have here : { s.placed w with world := w } = s.placed w := rfl
      rw [done, holds.modified, holds.read, found]
      cases Keyed.get? name s.finished with
      | some root => rfl
      | none =>
        dsimp only [Option.map_some]
        rw [here]
        rcases Compile.readSource c.table (Compile.loadWithin c depth) name name (some stamp) source (s.placed w) with
          ⟨e | root, t⟩ <;> rfl

section Loading

variable {c₁ : Compiler W₁} {c₂ : Compiler W₂} {table : Tag.Table} (table₁ : c₁.table = table)
  (table₂ : c₂.table = table) (careful : v.Alike ∨ table.Steady) (closed : Closed trusted)
  (covering : v.Alike ∨ ∀ s, trusted s → v.Covers s) (holds₁ : c₁.library.Holds v.world₁ v.sources₁)
  (holds₂ : c₂.library.Holds v.world₂ v.sources₂)

include table₁ table₂ careful closed covering holds₁ holds₂

omit table₁ table₂ careful closed holds₁ holds₂ in
/-- What is recorded in a state that can be trusted is the same on both sides. -/
theorem same_of_recorded {s : CompileState Unit} {r : Except TemplateError α} {name : String}
    (cause : v.Alike ∨ r.isOk = true ∧ trusted s) (recorded : name ∈ Keyed.keys s.sources) : v.Same name := by
  rcases cause with alike | ⟨-, trust⟩
  · exact alike name
  · exact covering.elim (fun alike => alike name) fun covers => covers s trust name recorded

theorem loadWithin_succ_echoesAt {depth₁ depth₂ : Nat}
    (loads : ∀ name via,
      v.Echoes trusted (n + 1) (Compile.loadWithin c₁ depth₁ name via) (Compile.loadWithin c₂ depth₂ name via))
    (name : String) (via : Option NodeId) {s : CompileState Unit} (orderly : Orderly v.sources₁ s)
    (reading : s.frames.length = n) :
    v.EchoesAt trusted s (Compile.loadWithin c₁ (depth₁ + 1) name via)
      (Compile.loadWithin c₂ (depth₂ + 1) name via) := by
  have first := loadWithin_apply holds₁ depth₁ name via s
  have second := loadWithin_apply holds₂ depth₂ name via s
  rw [table₁] at first
  rw [table₂] at second
  cases found : Keyed.get? name v.sources₁ with
  | none =>
    rw [found] at first
    refine ⟨_, s, first, orderly, fun _ h => h, rfl, ?_⟩
    rintro (alike | ⟨fine, -⟩)
    · rw [← alike name, found] at second
      exact second
    · cases fine
  | some entry =>
    obtain ⟨source, stamp⟩ := entry
    rw [found] at first
    dsimp only at first
    by_cases cyclic : name ∈ s.frames.map (·.identity)
    · rw [if_pos cyclic] at first
      refine ⟨_, s, first, orderly, fun _ h => h, rfl, ?_⟩
      rintro (alike | ⟨fine, -⟩)
      · rw [← alike name, found] at second
        dsimp only at second
        rw [if_pos cyclic] at second
        exact second
      · cases fine
    · rw [if_neg cyclic] at first
      cases done : Keyed.get? name s.finished with
      | some root =>
        rw [done] at first
        refine ⟨_, s, first, orderly, fun _ h => h, rfl, ?_⟩
        intro cause
        have mem : name ∈ Keyed.keys s.sources := orderly.doneRecorded name (Keyed.mem_keys_of_get? done)
        have same : v.Same name := same_of_recorded covering cause mem
        rw [← same, found] at second
        dsimp only at second
        rw [if_neg cyclic, done] at second
        exact second
      | none =>
        rw [done] at first
        dsimp only at first
        obtain ⟨r, t, run, orderly', grown, kept, echo⟩ :=
          readSource_echoesAt careful closed loads orderly reading cyclic ⟨source, found⟩ name source
        rw [run] at first
        have mem : name ∈ Keyed.keys t.sources := grown name (Or.inl rfl)
        cases r with
        | error e =>
          refine ⟨_, t, first, orderly', fun id h => grown id (Or.inr h), kept, ?_⟩
          rintro (alike | ⟨fine, -⟩)
          · rw [← alike name, found] at second
            dsimp only at second
            rw [if_neg cyclic, done, echo (Or.inl alike)] at second
            exact second
          · cases fine
        | ok root =>
          refine ⟨_, { t with finished := Keyed.put name root t.finished }, first, orderly'.finish mem root,
            fun id h => grown id (Or.inr h), kept, ?_⟩
          intro cause
          have early : v.Alike ∨ (Except.ok root : Except TemplateError NodeId).isOk = true ∧ trusted t :=
            cause.imp_right fun h =>
              ⟨rfl, closed t { t with finished := Keyed.put name root t.finished } (fun _ h => h) h.2⟩
          have same : v.Same name := same_of_recorded covering early mem
          rw [← same, found] at second
          dsimp only at second
          rw [if_neg cyclic, done, echo early] at second
          exact second

/-- Templates that are being read all differ, so there are no more of them than sources. -/
theorem loadWithin_echoesAt (depth₁ depth₂ : Nat) (name : String) (via : Option NodeId) {s : CompileState Unit}
    (orderly : Orderly v.sources₁ s) (room₁ : v.sources₁.length < depth₁ + s.frames.length)
    (room₂ : v.sources₂.length < depth₂ + s.frames.length) :
    v.EchoesAt trusted s (Compile.loadWithin c₁ depth₁ name via) (Compile.loadWithin c₂ depth₂ name via) := by
  induction depth₁ generalizing depth₂ name via s with
  | zero =>
    have few := orderly.reading_le
    omega
  | succ depth₁ ih =>
    have step : ∀ depth, v.sources₂.length < depth + 1 + s.frames.length →
        v.EchoesAt trusted s (Compile.loadWithin c₁ (depth₁ + 1) name via)
          (Compile.loadWithin c₂ (depth + 1) name via) := by
      intro depth room
      refine loadWithin_succ_echoesAt table₁ table₂ careful closed covering holds₁ holds₂ ?_ name via orderly rfl
      intro name via t orderly' reading
      exact ih depth name via orderly' (by omega) (by omega)
    cases depth₂ with
    | succ depth₂ => exact step depth₂ room₂
    | zero =>
      obtain ⟨r, t, run, orderly', grown, kept, -⟩ := step v.sources₂.length (by omega)
      refine ⟨r, t, run, orderly', grown, kept, ?_⟩
      intro cause
      have covers : v.Covers t := by
        rcases cause with alike | ⟨-, trust⟩
        · exact fun id _ => alike id
        · exact covering.elim (fun alike id _ => alike id) fun covers => covers t trust
      have few : s.frames.length ≤ v.sources₂.length := by
        refine orderly.reading_le_of fun identity h => ?_
        rw [← covers identity (grown h)]
        exact orderly.isSome_of_recorded h
      omega

theorem load_echoes (name : String) (via : Option NodeId) :
    v.Echoes trusted n (Compile.load c₁ name via) (Compile.load c₂ name via) := by
  intro s orderly reading
  have first := holds₁.reach
  have second := holds₂.reach
  have echoes := loadWithin_echoesAt table₁ table₂ careful closed covering holds₁ holds₂
    (c₁.library.reach v.world₁ + 2) (c₂.library.reach v.world₂ + 2) name via orderly (by omega) (by omega)
  exact echoes.after rfl rfl (fun _ h => h) rfl

end Loading

end Sides

end Stencil
