import Stencil.Proofs.Compile.Echo

/-!
What a compiled template depends on: nothing but the sources that it lists, if handlers give up when a template
cannot be read and none has one read while the artifact is written. By then the list of sources is closed.
-/
namespace Stencil

namespace Compile

theorem linkDeferred_cons {W : Type} (id : NodeId) (ids : List NodeId) (s : CompileState W) :
    linkDeferred (id :: ids) s =
      match Keyed.get? ((s.tree.own id).param "id") s.blocks with
      | none => (.error (.structural (s.tree.site id) ("unknown block '" ++ (s.tree.own id).param "id" ++ "'")), s)
      | some b => linkDeferred ids { s with tree := s.tree.redirect id b.node } := by
  have here : (get : Compile W (CompileState W)) s = (.ok s, s) := rfl
  rw [linkDeferred, bind_apply, here]
  dsimp only
  cases Keyed.get? ((s.tree.own id).param "id") s.blocks <;> rfl

/-- A finished template: what was deferred is linked, and the sources are listed. -/
def finishing {W : Type} (name : String) (root : NodeId) (deferred : List NodeId) : Compile W Template :=
  linkDeferred deferred >>= fun _ => get >>= fun s => pure ⟨name, root, s.sources.map fun d => ⟨d.1, d.2⟩⟩

theorem finish_apply {W : Type} (name : String) (root : NodeId) (s : CompileState W) :
    finish name root s = finishing name root s.deferred { s with deferred := [] } := rfl

theorem finish_parts {W : Type} {name : String} {root : NodeId} {s s' : CompileState W} {t : Template}
    (run : finish name root s = (.ok t, s')) :
    linkDeferred s.deferred { s with deferred := [] } = (.ok (), s') ∧
      t = ⟨name, root, s'.sources.map fun d => ⟨d.1, d.2⟩⟩ := by
  rw [finish_apply] at run
  obtain ⟨⟨⟩, s₂, linked, listed⟩ := bind_ok run
  cases listed
  exact ⟨linked, rfl⟩

/-- The list of a template's sources is that of the state in which it is finished. -/
theorem template_dependencies {W : Type} {c : Compiler W} {name : String} {s s' : CompileState W} {t : Template}
    (run : template c name s = (.ok t, s')) : t.dependencies = s'.sources.map fun d => ⟨d.1, d.2⟩ := by
  obtain ⟨root, s₁, -, finished⟩ := bind_ok run
  obtain ⟨-, rfl⟩ := finish_parts finished
  rfl

end Compile

namespace Renderer

variable {W : Type} {r : Renderer W} {name : String} {w : W} {s : CompileState W}

theorem compileSteps_of_error {e : TemplateError} (run : Compile.template r.compiler name (.initial w) = (.error e, s)) :
    compileWith (r.compileSteps name) w = (.error e, s.world) := by
  unfold compileWith compileSteps
  rw [Compile.bind_apply, run]

theorem compileSteps_of_ok {t : Template} (run : Compile.template r.compiler name (.initial w) = (.ok t, s)) :
    compileWith (r.compileSteps name) w = ((Compile.artifact r.compiler t.root r.strip s).1.map (Compiled.mk t),
      (Compile.artifact r.compiler t.root r.strip s).2.world) := by
  unfold compileWith compileSteps
  rw [Compile.bind_apply, run]
  dsimp only
  rw [Compile.bind_apply]
  rcases Compile.artifact r.compiler t.root r.strip s with ⟨e | a, s⟩ <;> rfl

/-- A compilation that succeeds has read a template and has then written its artifact. -/
theorem compileSteps_parts {compiled : Compiled} {w' : W}
    (run : compileWith (r.compileSteps name) w = (.ok compiled, w')) :
    ∃ s s', Compile.template r.compiler name (.initial w) = (.ok compiled.template, s) ∧
      Compile.artifact r.compiler compiled.template.root r.strip s = (.ok compiled.artifact, s') ∧ w' = s'.world := by
  cases templated : Compile.template r.compiler name (.initial w) with
  | mk result s =>
    cases result with
    | error e =>
      rw [compileSteps_of_error templated] at run
      cases run
    | ok t =>
      rw [compileSteps_of_ok templated] at run
      cases written : Compile.artifact r.compiler t.root r.strip s with
      | mk result s' =>
        rw [written] at run
        cases result with
        | error e => cases run
        | ok artifact =>
          cases run
          exact ⟨s, s', rfl, written, rfl⟩

end Renderer

theorem Orderly.initial (sources : Sources) : Orderly sources (CompileState.initial ()) :=
  ⟨List.nodup_nil, by simp [CompileState.initial], by simp [CompileState.initial, Keyed.keys], by
    simp [CompileState.initial]⟩

namespace Sides

variable {W₁ W₂ : Type} {v : Sides W₁ W₂} {trusted : CompileState Unit → Prop} {n : Nat}

theorem linkDeferred_echoes (ids : List NodeId) :
    v.Echoes trusted n (Compile.linkDeferred ids) (Compile.linkDeferred ids) := by
  induction ids with
  | nil => exact echoes_pure ()
  | cons id ids ih =>
    intro s orderly reading
    have first := Compile.linkDeferred_cons id ids (s.placed v.world₁)
    have second := Compile.linkDeferred_cons id ids (s.placed v.world₂)
    have known₁ : (s.placed v.world₁).blocks = s.blocks := rfl
    have known₂ : (s.placed v.world₂).blocks = s.blocks := rfl
    have tree₁ : (s.placed v.world₁).tree = s.tree := rfl
    have tree₂ : (s.placed v.world₂).tree = s.tree := rfl
    rw [known₁, tree₁] at first
    rw [known₂, tree₂] at second
    cases known : Keyed.get? ((s.tree.own id).param "id") s.blocks with
    | none =>
      rw [known] at first second
      exact echoesAt_of_eq s first second orderly (fun _ h => h) rfl
    | some b =>
      rw [known] at first second
      have moved : Orderly v.sources₁ { s with tree := s.tree.redirect id b.node } := orderly.change rfl rfl rfl
      exact (ih _ moved reading).after first second (fun _ h => h) rfl

theorem finish_echoes (closed : Closed trusted) (name : String) (root : NodeId) :
    v.Echoes trusted n (Compile.finish name root) (Compile.finish name root) := by
  intro s orderly reading
  have emptied : Orderly v.sources₁ { s with deferred := [] } := orderly.change rfl rfl rfl
  have linked : v.EchoesAt trusted { s with deferred := [] } (Compile.finishing name root s.deferred)
      (Compile.finishing name root s.deferred) := by
    refine (linkDeferred_echoes s.deferred _ emptied reading).bind closed fun _ t orderly' _ _ => ?_
    exact echoesAt_of_eq t rfl rfl orderly' (fun _ h => h) rfl
  exact linked.after rfl rfl (fun _ h => h) rfl

theorem artifact_echoes {c₁ : Compiler W₁} {c₂ : Compiler W₂} (table : c₂.table = c₁.table)
    (careful : v.Alike ∨ c₁.table.Steady) (holds₁ : c₁.library.Holds v.world₁ v.sources₁)
    (holds₂ : c₂.library.Holds v.world₂ v.sources₂) (root : NodeId) (strip : Bool) :
    v.Echoes (fun _ => True) n (Compile.artifact c₁ root strip) (Compile.artifact c₂ root strip) := by
  have closed : Closed fun _ => True := fun _ _ _ _ => trivial
  have loads : ∀ name via, v.Echoes (fun _ => Tag.Phase.onRender ≠ .onRender ∧ True) n (Compile.load c₁ name via)
      (Compile.load c₂ name via) :=
    load_echoes rfl table careful (fun _ _ _ h => h) (Or.inr fun _ h => absurd rfl h.1) holds₁ holds₂
  refine (echoes_parallel v closed n).related_artifact table (fun id => ?_) root strip
  exact dispatch_echoes careful closed id .onRender loads

/-- A template is compiled on the second side as on the first if it lists all that it was made from. -/
theorem compileSteps_echo {r₁ : Renderer W₁} {r₂ : Renderer W₂} (tags : r₁.tagSets = r₂.tagSets)
    (strip : r₁.strip = r₂.strip) (careful : v.Alike ∨ r₁.table.Steady)
    (holds₁ : r₁.library.Holds v.world₁ v.sources₁) (holds₂ : r₂.library.Holds v.world₂ v.sources₂) (name : String) :
    ∃ r, Renderer.compileWith (r₁.compileSteps name) v.world₁ = (r, v.world₁) ∧
      (∀ compiled, r = .ok compiled → ∀ d ∈ compiled.template.dependencies,
        ∃ source stamp, Keyed.get? d.identity v.sources₁ = some (source, stamp) ∧ d.stamp = some stamp) ∧
      ((v.Alike ∨ ∃ compiled, r = .ok compiled ∧ ∀ d ∈ compiled.template.dependencies, v.Same d.identity) →
        Renderer.compileWith (r₂.compileSteps name) v.world₂ = (r, v.world₂)) := by
  have start : Orderly v.sources₁ (CompileState.initial ()) := .initial v.sources₁
  have table : r₂.table = r₁.table := by
    unfold Renderer.table
    rw [tags]
  have loads : ∀ name via, v.Echoes v.Covers 0 (Compile.load r₁.compiler name via)
      (Compile.load r₂.compiler name via) :=
    load_echoes rfl table careful (Covers.closed v) (Or.inr fun _ h => h) holds₁ holds₂
  have template : v.Echoes v.Covers 0 (Compile.template r₁.compiler name) (Compile.template r₂.compiler name) :=
    (loads name none).bind (Covers.closed v) fun root => finish_echoes (Covers.closed v) name root
  obtain ⟨r, s, run, orderly, -, same, echo⟩ := template _ start rfl
  have reading : s.frames.length = 0 := by
    have none : s.frames.map (·.identity) = [] := same
    simpa using none
  cases r with
  | error e =>
    refine ⟨.error e, ?_, fun _ h => (by cases h), ?_⟩
    · exact Renderer.compileSteps_of_error (w := v.world₁) run
    · rintro (alike | ⟨compiled, h, -⟩)
      · exact Renderer.compileSteps_of_error (w := v.world₂) (echo (Or.inl alike))
      · cases h
  | ok t =>
    have writing : v.Echoes (fun _ => True) 0 (Compile.artifact r₁.compiler t.root r₁.strip)
        (Compile.artifact r₂.compiler t.root r₁.strip) :=
      artifact_echoes table careful holds₁ holds₂ t.root r₁.strip
    obtain ⟨r', s', run', -, -, -, echo'⟩ := writing s orderly reading
    have listed := Compile.template_dependencies run
    have stamps : ∀ d ∈ t.dependencies, d.identity ∈ Keyed.keys s.sources ∧
        ∃ source stamp, Keyed.get? d.identity v.sources₁ = some (source, stamp) ∧ d.stamp = some stamp := by
      intro d h
      rw [listed] at h
      obtain ⟨pair, mem, rfl⟩ := List.mem_map.mp h
      exact ⟨List.mem_map.mpr ⟨pair, mem, rfl⟩, orderly.stamps pair mem⟩
    have covered : (∀ d ∈ t.dependencies, v.Same d.identity) → v.Covers s := by
      intro all identity h
      obtain ⟨pair, mem, rfl⟩ := List.mem_map.mp h
      refine all ⟨pair.1, pair.2⟩ ?_
      rw [listed]
      exact List.mem_map.mpr ⟨pair, mem, rfl⟩
    cases r' with
    | error e =>
      refine ⟨.error e, ?_, fun _ h => (by cases h), ?_⟩
      · rw [Renderer.compileSteps_of_ok (w := v.world₁) run, run']
        rfl
      · rintro (alike | ⟨compiled, h, -⟩)
        · rw [Renderer.compileSteps_of_ok (w := v.world₂) (echo (Or.inl alike)), ← strip, echo' (Or.inl alike)]
          rfl
        · cases h
    | ok artifact =>
      refine ⟨.ok ⟨t, artifact⟩, ?_, ?_, ?_⟩
      · rw [Renderer.compileSteps_of_ok (w := v.world₁) run, run']
        rfl
      · intro compiled h d mem
        cases h
        exact (stamps d mem).2
      · intro cause
        have trust : v.Alike ∨ (Except.ok t : Except TemplateError Template).isOk = true ∧ v.Covers s := by
          rcases cause with alike | ⟨compiled, h, all⟩
          · exact Or.inl alike
          · cases h
            exact Or.inr ⟨rfl, covered all⟩
        rw [Renderer.compileSteps_of_ok (w := v.world₂) (echo trust), ← strip,
          echo' (trust.imp_right fun _ => ⟨rfl, trivial⟩)]
        rfl

end Sides

namespace Compile

variable {W : Type} {c : Compiler W} {w : W} {sources : Sources} {name : String}

/-- A template that is read first has then been read. -/
theorem finished_of_load (holds : c.library.Holds w sources) {root : NodeId} {s : CompileState W}
    (loaded : load c name none (.initial w) = (.ok root, s)) : name ∈ Keyed.keys s.finished := by
  have run : loadWithin c (c.library.reach w + 1 + 1) name none ((CompileState.initial ()).placed w) =
    (.ok root, s) := loaded
  have apart : name ∉ (CompileState.initial ()).frames.map (·.identity) := List.not_mem_nil
  have fresh : Keyed.get? name (CompileState.initial ()).finished = none := rfl
  rw [Sides.loadWithin_apply holds] at run
  cases found : Keyed.get? name sources with
  | none =>
    rw [found] at run
    cases run
  | some entry =>
    obtain ⟨source, stamp⟩ := entry
    rw [found] at run
    dsimp only at run
    rw [if_neg apart, fresh] at run
    dsimp only at run
    cases read : readSource c.table (loadWithin c (c.library.reach w + 1)) name name (some stamp) source
        ((CompileState.initial ()).placed w) with
    | mk r t =>
      rw [read] at run
      cases r with
      | error e => cases run
      | ok root' =>
        cases run
        exact Keyed.mem_keys_put.mpr (.inl rfl)

/-- A template lists its own source. -/
theorem own_source_listed (holds : c.library.Holds w sources) {t : Template} {s : CompileState W}
    (run : template c name (.initial w) = (.ok t, s)) : ∃ d ∈ t.dependencies, d.identity = name := by
  obtain ⟨root, s₁, loaded, finished⟩ := bind_ok run
  let v : Sides W W := ⟨w, w, sources, sources⟩
  have alike : v.Alike := fun _ => rfl
  have closed : Sides.Closed fun _ => True := fun _ _ _ _ => trivial
  have reads : v.Echoes (fun _ => True) 0 (load c name none) (load c name none) :=
    Sides.load_echoes rfl rfl (.inl alike) closed (.inl alike) holds holds name none
  obtain ⟨r, u, run', orderly, -⟩ := reads _ (.initial sources) rfl
  obtain ⟨rfl, rfl⟩ := Prod.mk.inj (run'.symm.trans loaded)
  obtain ⟨r', u', run'', -, grown, -⟩ := Sides.finish_echoes (v := v) closed name root u orderly rfl
  obtain ⟨rfl, rfl⟩ := Prod.mk.inj (run''.symm.trans finished)
  have recorded : name ∈ Keyed.keys u'.sources :=
    grown (orderly.doneRecorded name (finished_of_load holds loaded))
  obtain ⟨d, mem, same⟩ := List.mem_map.mp recorded
  refine ⟨⟨d.1, d.2⟩, ?_, same⟩
  rw [template_dependencies run]
  exact List.mem_map.mpr ⟨d, mem, rfl⟩

end Compile

end Stencil
