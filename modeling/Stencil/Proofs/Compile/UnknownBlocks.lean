import Stencil.Proofs.Compile.Parallel
import Stencil.Proofs.Compile.Sites

/-!
When a compilation fails because of an unknown block. While sources are read no step fails so; when the last links
are made, one does if a handle waits for a block that has not been registered.
-/
namespace Stencil

open Tag

/-- The sources complain of no unknown block. -/
structure Library.Ordinary {W : Type} (library : Library W) : Prop where
  locate : ∀ name w e w', library.locate name w = (.error e, w') → e.Ordinary
  read : ∀ name w e w', library.read name w = (.error e, w') → e.Ordinary

theorem Library.memory_ordinary : Library.memory.Ordinary := by
  constructor
  · intro name w e w' failed
    obtain ⟨failed, -⟩ := Prod.mk.inj failed
    unfold MemorySources.locate at failed
    split at failed
    · cases failed
    · cases failed
      exact TemplateError.ordinary_of_ne nofun
  · intro name w e w' failed
    have failed : MemorySources.read name w = (.error e, w') := failed
    unfold MemorySources.read at failed
    split at failed
    · cases failed
    · cases failed
      exact TemplateError.ordinary_of_ne nofun

theorem Library.folder_ordinary (f : FolderSources) : (Library.folder f).Ordinary := by
  have located : ∀ {name d e}, f.locate name d = .error e → e.Ordinary := by
    intro name d e failed
    unfold FolderSources.locate at failed
    split at failed
    · cases failed
      exact TemplateError.ordinary_of_ne nofun
    · split at failed
      · cases failed
        exact TemplateError.ordinary_of_ne nofun
      · split at failed
        · cases failed
        · cases failed
          exact TemplateError.ordinary_of_ne nofun
  refine ⟨fun name d e d' failed => located (Prod.mk.inj failed).1, fun name d e d' failed => ?_⟩
  obtain ⟨failed, -⟩ := Prod.mk.inj failed
  unfold FolderSources.read at failed
  split at failed
  · rename_i refused
    cases failed
    exact located refused
  · split at failed
    · cases failed
    · cases failed
      exact TemplateError.ordinary_of_ne nofun

theorem Markup.scan_ordinary {file source : String} {e : TemplateError} (failed : Markup.scan file source = .error e) :
    e.Ordinary := by
  have scanned : ∀ (count line : Nat) (s : List Char) {e : TemplateError},
      scanFrom file count line s = .error e → e.Ordinary := by
    intro count
    induction count with
    | zero =>
      intro line s e failed
      cases failed
    | succ count ih =>
      intro line s e failed
      have later : ∀ {line : Nat} {s : List Char} {f : List Token → List Token},
          (scanFrom file count line s).map f = .error e → e.Ordinary := by
        intro line s f failed
        cases rest : scanFrom file count line s with
        | ok tokens =>
          rw [rest] at failed
          cases failed
        | error e' =>
          rw [rest] at failed
          cases failed
          exact ih line s rest
      unfold scanFrom at failed
      split at failed
      · cases failed
      · dsimp only at failed
        split at failed
        · split at failed
          · cases failed
            exact TemplateError.ordinary_of_ne nofun
          · exact later failed
        · exact later failed
  exact scanned _ _ _ failed

namespace Compile

variable {W : Type} {c : Compiler W} {load : Loader W} {α : Type}

/-! #### Reading -/

/-- A step that fails with ordinary errors only. -/
def FailsOrdinarily (act : Compile W α) : Prop := ∀ s e s', act s = (.error e, s') → e.Ordinary

theorem FailsOrdinarily.bind {β : Type} {act : Compile W α} {f : α → Compile W β} (first : FailsOrdinarily act)
    (rest : ∀ a, FailsOrdinarily (f a)) : FailsOrdinarily (act >>= f) := by
  intro s e s' failed
  rw [bind_apply] at failed
  rcases acted : act s with ⟨e' | a, s₁⟩
  · rw [acted] at failed
    cases failed
    exact first s e s' acted
  · rw [acted] at failed
    exact rest a s₁ e s' failed

/-- A step that cannot fail. -/
theorem failsOrdinarily_of_ok {act : Compile W α} (succeeds : ∀ s, ∃ a s', act s = (.ok a, s')) :
    FailsOrdinarily act := by
  intro s e s' failed
  obtain ⟨a, s₁, acted⟩ := succeeds s
  cases acted.symm.trans failed

theorem failsOrdinarily_throw {e : TemplateError} (ordinary : e.Ordinary) :
    FailsOrdinarily (throw e : Compile W α) := by
  intro s e' s' failed
  cases failed
  exact ordinary

theorem ordinary_parallel : @Parallel W W fun _ act _ => FailsOrdinarily act where
  pure a := failsOrdinarily_of_ok fun s => ⟨a, s, rfl⟩
  throw ordinary := failsOrdinarily_throw ordinary
  getTree := failsOrdinarily_of_ok fun s => ⟨s.tree, s, rfl⟩
  changeTree change := failsOrdinarily_of_ok fun s => ⟨(), { s with tree := change s.tree }, rfl⟩
  bind first rest := first.bind rest

/-- A loader that fails with ordinary errors only. -/
def LoadsOrdinarily (load : Loader W) : Prop := ∀ name via, FailsOrdinarily (load name via)

theorem failsOrdinarily_carryOut {h : Handler α} (ordinary : h.Ordinary) (loads : LoadsOrdinarily load) :
    FailsOrdinarily (carryOut load h) := by
  induction h with
  | done a => exact ordinary_parallel.pure a
  | fail e => exact failsOrdinarily_throw ordinary
  | onTree change next ih => exact fun s => ih (change s.tree) (ordinary _) { s with tree := change s.tree }
  | depth next ih => exact fun s => ih s.frames.length (ordinary _) s
  | lookup block next ih => exact fun s => ih (Keyed.get? block s.blocks) (ordinary _) s
  | define block node next ih => exact fun s => ih ordinary _
  | defer node next ih => exact fun s => ih ordinary _
  | load name via next ih =>
    intro s
    refine ih (load name via s).1 (ordinary _ fun e failed => ?_) (load name via s).2
    exact loads name via s e _ (Prod.ext failed rfl)
  | replaceRoot node next ih => exact fun s => ih ordinary _

theorem failsOrdinarily_dispatch (loads : LoadsOrdinarily load) (id : NodeId) (phase : Phase) :
    FailsOrdinarily (dispatch standardTable load id phase) := by
  refine @Parallel.related_dispatch _ _ _ ordinary_parallel _ load load id phase
    fun tag handlers handler bound found => ?_
  obtain ⟨b, mem, rfl⟩ := standard_handlerFor bound found
  exact failsOrdinarily_carryOut (standard_ordinary b mem id) loads

theorem failsOrdinarily_readSource (standard : c.table = standardTable) (loads : LoadsOrdinarily load)
    (name identity : String) (stamp : Option Stamp) (text : String) :
    FailsOrdinarily (readSource c.table load name identity stamp text) := by
  intro s e s' failed
  cases scanned : Markup.scan name text with
  | error e' =>
    simp only [readSource, scanned] at failed
    cases failed
    exact Markup.scan_ordinary scanned
  | ok tokens =>
    rw [readSource_of_scan scanned, standard] at failed
    have built : FailsOrdinarily (build standardTable load name ⟨s.tree.size⟩ tokens) :=
      @Parallel.related_build _ _ _ ordinary_parallel _ load load (fun id phase _ => failsOrdinarily_dispatch loads id phase)
        _ _ _
    unfold within at failed
    generalize withNode s { Node.fresh name 1 with isRoot := true } = grown at failed
    rcases acted : build standardTable load name ⟨s.tree.size⟩ tokens
      { { grown with sources := Keyed.put identity stamp s.sources } with
        frames := ⟨name, identity, ⟨s.tree.size⟩⟩ :: grown.frames } with ⟨e' | a, s₁⟩
    · rw [acted] at failed
      cases failed
      exact built _ _ _ acted
    · rw [acted] at failed
      cases failed

theorem failsOrdinarily_onWorld (act : StateM W α) : FailsOrdinarily (onWorld act) :=
  failsOrdinarily_of_ok fun s => ⟨(act s.world).1, { s with world := (act s.world).2 }, rfl⟩

theorem failsOrdinarily_onWorldExcept {act : StateM W (Except TemplateError α)}
    (ordinary : ∀ w e w', act w = (.error e, w') → e.Ordinary) : FailsOrdinarily (onWorldExcept act) := by
  intro s e s' failed
  obtain ⟨failed, -⟩ := Prod.mk.inj failed
  exact ordinary s.world e _ (Prod.ext failed rfl)

theorem loadWithin_ordinary (standard : c.table = standardTable) (sources : c.library.Ordinary) (depth : Nat) :
    LoadsOrdinarily (loadWithin c depth) := by
  have cyclic : ∀ name via s, (cycleError (W := W) name via s).Ordinary := by
    intro name via s
    unfold cycleError
    cases via <;> exact TemplateError.ordinary_of_ne nofun
  have asked : FailsOrdinarily (get : Compile W (CompileState W)) := failsOrdinarily_of_ok fun s => ⟨s, s, rfl⟩
  induction depth with
  | zero => exact fun name via => asked.bind fun s => failsOrdinarily_throw (cyclic name via s)
  | succ depth ih =>
    intro name via
    unfold loadWithin
    refine (failsOrdinarily_onWorldExcept (sources.locate name)).bind fun identity => ?_
    refine asked.bind fun s => ?_
    split
    · exact failsOrdinarily_throw (cyclic name via s)
    · split
      · exact ordinary_parallel.pure _
      · refine (failsOrdinarily_onWorld _).bind fun stamp => ?_
        refine (failsOrdinarily_onWorldExcept (sources.read name)).bind fun text => ?_
        refine (failsOrdinarily_readSource standard ih name identity stamp text).bind fun root => ?_
        exact failsOrdinarily_of_ok fun s => ⟨root, _, rfl⟩

/-- No source that is read fails with an unknown block. -/
theorem loaded_ordinary (standard : c.table = standardTable) (sources : c.library.Ordinary) (name : String)
    (text? : Option String) : FailsOrdinarily (loaded c name text?) := by
  have loads : LoadsOrdinarily (Compile.load c) := fun name via s => loadWithin_ordinary standard sources _ name via s
  cases text? with
  | none => exact loads name none
  | some text =>
    exact (failsOrdinarily_onWorld _).bind fun stamp => failsOrdinarily_readSource standard loads name name stamp text

/-! #### What waits -/

section Waiting

variable {s s' : CompileState W} {file : String} {top id : NodeId} {below stack : List NodeId} {token : Markup.Token}
  {r r' : Reader W}

/-- Only a reference comes to wait. -/
theorem effect_deferred (effect : Effect s file top below token s' stack) (mem : id ∈ s'.deferred) :
    id ∈ s.deferred ∨ ∃ head, token.kind = .openTag ∧ Markup.Head.parse token.content = .ok head ∧
      head.name = "putblock" ∧ id = ⟨s.tree.size⟩ ∧ (s'.tree.own id).param "id" = head.block := by
  have opened : ∀ n : Node, (blockOpened n s).deferred = s.deferred := by
    intro n
    unfold blockOpened
    split <;> rfl
  have settles : ∀ (holder : NodeId) (block : String) (s : CompileState W),
      (settle holder block s).deferred = s.deferred := by
    intro holder block s
    unfold settle
    split
    · rfl
    · split
      · rfl
      · split <;> rfl
  cases effect with
  | block | adding => exact .inl (opened _ ▸ mem)
  | closedBlock => exact .inl (settles top _ s ▸ mem)
  | closedBlockdef =>
    have same : (blockdefClosed top s).deferred = s.deferred := by
      unfold blockdefClosed
      dsimp only
      split
      · rfl
      · split <;> rfl
    exact .inl (same ▸ mem)
  | @closedAdding _ _ position =>
    have same : (addblockClosed position top s).deferred = s.deferred := by
      unfold addblockClosed
      split
      · rfl
      · split <;> rfl
    exact .inl (same ▸ mem)
  | @putblock head kind parsed tag checked =>
    let n := Node.opened file token.line top head false
    have waits : id ∈ (putblockPlaced n s).deferred := mem
    have here : id ∈ s.deferred ∨ id = ⟨s.tree.size⟩ := by
      unfold putblockPlaced at waits
      split at waits
      · exact (List.mem_append.mp waits).imp_right List.mem_singleton.mp
      · exact .inl waits
    refine here.imp_right fun new => ⟨head, kind, parsed, tag, new, ?_⟩
    subst new
    obtain ⟨next, own⟩ := own_putblockPlaced n s
    have old : (⟨s.tree.size⟩ : NodeId).index < (putblockPlaced n s).tree.size := lt_putblockPlaced n s
    have keeps := Tree.Keeps.append (putblockPlaced n s).tree top (.node ⟨s.tree.size⟩) (List.mem_singleton_self _)
    have kept := keeps.param old "id"
    rw [own] at kept
    exact kept
  | _ => exact .inl mem

/-- What waits has waited before, or was made by the piece. -/
theorem step_deferred (standard : c.table = standardTable) (shaped : Shaped r) (step : Step c r r')
    (mem : id ∈ r'.state.deferred) :
    id ∈ r.state.deferred ∨ ∃ head, r.opens? = some head ∧ head.name = "putblock" ∧
      (r'.state.tree.own id).param "id" = head.block := by
  have received : ∀ (head : Markup.Head) (id root : NodeId) (s : CompileState W),
      (received head id root s).deferred = s.deferred := by
    intro head id root s
    unfold Compile.received
    split <;> rfl
  have settled : ∀ (id top : NodeId) (below : List NodeId) (s : CompileState W),
      (settled id top below s).2.deferred = s.deferred := by
    intro id top below s
    unfold Compile.settled
    split <;> rfl
  cases step with
  | put reads run =>
    obtain ⟨top, below, rfl, old, effect⟩ := shaped.effect standard reads run
    refine (effect_deferred effect mem).imp_right fun ⟨head, kind, parsed, tag, _, names⟩ => ⟨head, ?_, tag, names⟩
    unfold Reader.opens?
    dsimp only
    rw [if_pos kind, parsed]
    rfl
  | again reads checked again =>
    obtain ⟨w, rfl⟩ := again_ok again
    rw [settled, received] at mem
    exact .inl mem
  | enter reads checked enters =>
    obtain ⟨-, name, w, sources, rfl⟩ := enters_laid enters
    exact .inl mem
  | leave finished reads =>
    rw [settled, received] at mem
    exact .inl mem

/-- Whatever waits is a reference that has come on the way, and names its block. -/
theorem run_deferred (standard : c.table = standardTable) (shaped : Shaped r) (run : Run c r r')
    (mem : id ∈ r'.state.deferred) :
    id ∈ r.state.deferred ∨ ∃ r₁ head, Run c r r₁ ∧ Run c r₁ r' ∧ r₁.opens? = some head ∧ head.name = "putblock" ∧
      (r'.state.tree.own id).param "id" = head.block := by
  induction run with
  | here => exact .inl mem
  | @on r₀ r₁ r₂ step rest ih =>
    have shaped' := shaped.step standard step
    rcases ih shaped' mem with waited | ⟨r₃, head, before, after, opens, tag, names⟩
    · refine (step_deferred standard shaped step waited).imp_right fun ⟨head, opens, tag, names⟩ => ?_
      refine ⟨r₀, head, .here r₀, .on step rest, opens, tag, ?_⟩
      obtain ⟨touched, keeps⟩ := shaped'.run_keeps standard rest
      rw [keeps.param (shaped'.grounded.deferred id waited)]
      exact names
    · exact .inr ⟨r₃, head, .on step before, after, opens, tag, names⟩

end Waiting

end Compile

end Stencil
