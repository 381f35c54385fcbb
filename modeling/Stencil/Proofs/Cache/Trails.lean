import Stencil.Proofs.Cache.Team

/-!
Trails of what was edited and of what was compiled. A cache that lasts calls an artifact fresh exactly if the trail has
no edit of its sources after its compilation, since a stamp that an edit has taken away never comes back; and a
renderer compiles a template exactly if its cache has nothing fresh for it.
-/
namespace Stencil

/-! ### Trails -/

/-- What matters of what happened: a source was edited, or a template was compiled and its artifact kept. -/
inductive Mark where
  | edited (name : String)
  | compiled (name : String)

/-- The sources that were edited after a template was compiled last. -/
def editedSince (name : String) (trail : List Mark) : List String :=
  trail.foldl (fun names mark =>
    match mark with
    | .edited other => names ++ [other]
    | .compiled other => if other = name then [] else names) []

theorem editedSince_edited (name other : String) (trail : List Mark) :
    editedSince name (trail ++ [.edited other]) = editedSince name trail ++ [other] := by
  unfold editedSince
  rw [List.foldl_append]
  rfl

theorem editedSince_compiled (name : String) (trail : List Mark) :
    editedSince name (trail ++ [.compiled name]) = [] := by
  unfold editedSince
  rw [List.foldl_append]
  exact if_pos rfl

theorem editedSince_compiled_other {name other : String} (apart : other ≠ name) (trail : List Mark) :
    editedSince name (trail ++ [.compiled other]) = editedSince name trail := by
  unfold editedSince
  rw [List.foldl_append]
  exact if_neg apart

namespace Renderer

variable {W : Type}

/-- To see to a template takes a compilation of it, be it in vain. -/
def Compiles (r : Renderer W) (name : String) (s : Workbench W) : Prop :=
  (r.ensure name s).1 ≠ .ok () ∨ (r.ensure name s).2.compilations = s.compilations + 1

/-- What is left in the trail when a template is seen to. -/
def mark (r : Renderer W) (name : String) (s : Workbench W) : List Mark :=
  match r.ensure name s with
  | (.ok (), s') => if s'.compilations = s.compilations then [] else [.compiled name]
  | (.error _, _) => []

/-- What is left when templates are seen to one after the other, up to the first that fails. -/
def marks (r : Renderer W) : List String → Workbench W → List Mark
  | [], _ => []
  | name :: rest, s =>
    match r.ensure name s with
    | (.ok (), s') => r.mark name s ++ r.marks rest s'
    | (.error _, _) => []

end Renderer

/-! ### What the cache has -/

/-- The artifact that a cache of this place has, with the sources that are recorded with it. -/
def CachePlace.recorded (place : CachePlace) (name : String) (w : World) : Option (String × List Dependency) :=
  match place with
  | transient => none
  | memory => (Keyed.get? name (w.shelves.getD 0 [])).map fun entry => (entry.artifact, entry.dependencies)
  | folder dir =>
    (FolderCache.readArtifact ⟨dir⟩ name w.disk).bind fun artifact =>
      (FolderCache.readInfo ⟨dir⟩ name w.disk).map fun info => (artifact, info.dependencies)

/-- There is no artifact, or a source of it was edited after it was compiled. -/
def CachePlace.Needs (place : CachePlace) (trail : List Mark) (name : String) (w : World) : Prop :=
  place.recorded name w = none ∨ ∃ artifact dependencies, place.recorded name w = some (artifact, dependencies) ∧
    ∃ d ∈ dependencies, d.identity ∈ editedSince name trail

theorem CachePlace.recorded_eq {place : CachePlace} {names : String → Prop} {held : String → Option CacheEntry}
    {w : World} {name : String} (lasting : place.lasting = true) (holds : place.Holds names 0 held w)
    (known : names name) :
    place.recorded name w = (held name).map fun entry => (entry.artifact, entry.dependencies) := by
  cases place with
  | transient => cases lasting
  | memory =>
    unfold CachePlace.recorded
    dsimp only
    rw [holds.holds name known]
  | folder dir =>
    have shown := holds.holds name known
    unfold CachePlace.recorded
    dsimp only
    cases found : held name with
    | none =>
      rw [found] at shown
      have info : FolderCache.readInfo ⟨dir⟩ name w.disk = none := shown.1
      rw [info]
      cases FolderCache.readArtifact ⟨dir⟩ name w.disk <;> rfl
    | some entry =>
      rw [found] at shown
      have artifact : FolderCache.readArtifact ⟨dir⟩ name w.disk = some entry.artifact := shown.2.1.artifact
      have info : FolderCache.readInfo ⟨dir⟩ name w.disk = some ⟨compilerVersion, entry.dependencies⟩ :=
        shown.2.1.info
      rw [artifact, info]
      rfl

namespace MemorySources

theorem modified_edit_of_ne {identity : String} (e : Edit) (s : MemorySources) (apart : identity ≠ e.name) :
    (e.make s).modified identity = s.modified identity := by
  unfold modified
  cases e with
  | add name source =>
    have apart' : name ≠ identity := Ne.symm apart
    show (Keyed.get? identity (Keyed.put name _ s.entries)).map (·.2) = _
    rw [Keyed.get?_put_of_ne apart']
  | touch name =>
    have apart' : name ≠ identity := Ne.symm apart
    unfold Edit.make touch
    dsimp only
    cases Keyed.get? name s.entries with
    | none => rfl
    | some old =>
      dsimp only
      rw [Keyed.get?_put_of_ne apart']
  | remove name =>
    have apart' : name ≠ identity := Ne.symm apart
    show (Keyed.get? identity (Keyed.erase name s.entries)).map (·.2) = _
    rw [Keyed.get?_erase_of_ne apart']

/-- An edited source never has a stamp that was given out before. -/
theorem modified_edit_self {stamp : Stamp} (e : Edit) (s : MemorySources) (old : stamp.value ≤ s.revision) :
    (e.make s).modified e.name ≠ some stamp := by
  have new : s.nextStamp ≠ stamp := by
    rintro rfl
    exact Nat.lt_irrefl _ old
  unfold modified
  cases e with
  | add name source =>
    show (Keyed.get? name (Keyed.put name (source, s.nextStamp) s.entries)).map (·.2) ≠ _
    rw [Keyed.get?_put_self]
    exact fun same => new (Option.some.inj same)
  | touch name =>
    unfold Edit.make touch Edit.name
    dsimp only
    cases found : Keyed.get? name s.entries with
    | none =>
      dsimp only
      rw [found]
      exact nofun
    | some old =>
      dsimp only
      rw [Keyed.get?_put_self]
      exact fun same => new (Option.some.inj same)
  | remove name =>
    show (Keyed.get? name (Keyed.erase name s.entries)).map (·.2) ≠ _
    rw [Keyed.get?_erase_self]
    exact nofun

end MemorySources

/-- What a cache has for the names, and what is known of it from the trail: each recorded stamp was given out, and the
source has it until it is edited. -/
structure CachePlace.Tracks (place : CachePlace) (names : String → Prop) (held : String → Option CacheEntry)
    (trail : List Mark) (w : World) : Prop where
  holds : place.Holds names 0 held w
  sound : w.sources.Sound
  listed : ∀ name ∈ Keyed.keys w.sources.entries, names name
  stamped : ∀ name entry, held name = some entry → ∀ d ∈ entry.dependencies, ∃ stamp, d.stamp = some stamp ∧
    stamp.value ≤ w.sources.revision ∧
    (w.sources.modified d.identity = some stamp ↔ d.identity ∉ editedSince name trail)

/-- What a cache has for a name, and no source of it was edited. -/
def CacheEntry.Unedited (entry : CacheEntry) (name : String) (held : String → Option CacheEntry)
    (trail : List Mark) : Prop :=
  held name = some entry ∧ ∀ d ∈ entry.dependencies, d.identity ∉ editedSince name trail

/-- Compilations that succeed are counted. -/
theorem Renderer.compilations_compileAndKeep {W : Type} {r : Renderer W} {name : String} {s s' : Workbench W}
    (run : r.compileAndKeep name s = (.ok (), s')) : s'.compilations = s.compilations + 1 := by
  unfold Renderer.compileAndKeep at run
  rw [Rendering.bind_apply] at run
  rcases result : compileWith (r.compileSteps name) s.world with ⟨e | c, w⟩
  · rw [Renderer.compile_of_error result] at run
    cases run
  · rw [Renderer.compile_of_ok result] at run
    cases congrArg Prod.snd run
    rfl

namespace CachePlace.Tracks

variable {q : Equipment} {place : CachePlace} {names : String → Prop} {held : String → Option CacheEntry}
  {trail : List Mark} {disk : Disk} {s : Workbench World} {w : World} {name : String} {entry : CacheEntry}

/-- A cache calls fresh what has no edited source. -/
theorem isFresh (tracks : place.Tracks names held trail s.world) (lasting : place.lasting = true)
    (serves : place.Serves disk names) (known : names name) :
    ∃ b, (q.renderer (place.cache 0)).isFresh name s = (.ok b, s) ∧
      (b = true ↔ ∃ entry : CacheEntry, entry.Unedited name held trail) := by
  refine ⟨_, Renderer.isFresh_apply ((CachePlace.holding serves 0).asked tracks.holds known), ?_⟩
  rw [lasting, Bool.true_and, Option.any_eq_true]
  refine exists_congr fun entry => and_congr_right fun here => ?_
  rw [MemorySources.current_iff]
  refine forall₂_congr fun d mem => ?_
  obtain ⟨stamp, recorded, -, same⟩ := tracks.stamped name entry here d mem
  rw [← same]
  constructor
  · rintro ⟨stamp', recorded', now⟩
    cases recorded.symm.trans recorded'
    exact now
  · exact fun now => ⟨stamp, recorded, now⟩

theorem needs_iff (tracks : place.Tracks names held trail w) (lasting : place.lasting = true) (known : names name) :
    place.Needs trail name w ↔ ¬ ∃ entry : CacheEntry, entry.Unedited name held trail := by
  unfold CachePlace.Needs CacheEntry.Unedited
  rw [CachePlace.recorded_eq lasting tracks.holds known]
  cases found : held name with
  | none => exact ⟨fun _ => nofun, fun _ => .inl rfl⟩
  | some entry =>
    constructor
    · rintro (nothing | ⟨artifact, dependencies, same, d, mem, edited⟩) ⟨entry', here, unedited⟩
      · cases nothing
      · cases same
        cases here
        exact unedited d mem edited
    · intro needed
      refine .inr ⟨_, _, rfl, ?_⟩
      by_contra untouched
      exact needed ⟨entry, rfl, fun d mem edited => untouched ⟨d, mem, edited⟩⟩

theorem edit (tracks : place.Tracks names held trail w) (serves : place.Serves disk names) (e : Edit)
    (known : names e.name) :
    place.Tracks names held (trail ++ [.edited e.name]) { w with sources := e.make w.sources } where
  holds := (CachePlace.holding serves 0).edited tracks.holds _
  sound := tracks.sound.edit e
  listed name mem := by
    rcases MemorySources.known_edit e _ mem with rfl | old
    · exact known
    · exact tracks.listed name old
  stamped name entry found d mem := by
    obtain ⟨stamp, recorded, given, same⟩ := tracks.stamped name entry found d mem
    refine ⟨stamp, recorded, Nat.le_trans given (MemorySources.edit_cases e _).2.1.1, ?_⟩
    rw [editedSince_edited, List.mem_append, List.mem_singleton, not_or, ← same]
    by_cases here : d.identity = e.name
    · rw [here]
      exact ⟨fun now => absurd now (MemorySources.modified_edit_self e _ given), fun h => absurd rfl h.2⟩
    · rw [MemorySources.modified_edit_of_ne e _ here]
      exact ⟨fun now => ⟨now, here⟩, fun h => h.1⟩

/-- Something is done that leaves the sources and what is held. -/
theorem leave (tracks : place.Tracks names held trail w) {w' : World} (holds : place.Holds names 0 held w')
    (same : w'.sources = w.sources) : place.Tracks names held trail w' where
  holds := holds
  sound := by rw [same]; exact tracks.sound
  listed := by rw [same]; exact tracks.listed
  stamped := by rw [same]; exact tracks.stamped

theorem remove (tracks : place.Tracks names held trail w) {w' : World}
    (holds : place.Holds names 0 (Function.update held name none) w') (same : w'.sources = w.sources) :
    place.Tracks names (Function.update held name none) trail w' where
  holds := holds
  sound := by rw [same]; exact tracks.sound
  listed := by rw [same]; exact tracks.listed
  stamped other entry found := by
    rw [same]
    by_cases here : other = name
    · subst here
      rw [Function.update_self] at found
      cases found
    · rw [Function.update_of_ne here] at found
      exact tracks.stamped other entry found

/-- A template is compiled and kept. -/
theorem keep (tracks : place.Tracks names held trail w) {w' : World} (made : q.entry w.sources name = .ok entry)
    (holds : place.Holds names 0 (Function.update held name (some entry)) w') (same : w'.sources = w.sources) :
    place.Tracks names (Function.update held name (some entry)) (trail ++ [.compiled name]) w' where
  holds := holds
  sound := by rw [same]; exact tracks.sound
  listed := by rw [same]; exact tracks.listed
  stamped other entry' found d mem := by
    rw [same]
    by_cases here : other = name
    · subst here
      rw [Function.update_self] at found
      cases found
      obtain ⟨c, run, make⟩ := Equipment.entry_ok made
      rw [(CacheEntry.make_ok make).2.1] at mem
      obtain ⟨source, stamp, there, recorded⟩ := Equipment.compiled_stamps tracks.sound run d mem
      refine ⟨stamp, recorded, tracks.sound.stamps d.identity _ there, ?_⟩
      rw [editedSince_compiled]
      unfold MemorySources.modified
      rw [there]
      exact ⟨fun _ => List.not_mem_nil, fun _ => rfl⟩
    · rw [Function.update_of_ne here] at found
      rw [editedSince_compiled_other (Ne.symm here)]
      exact tracks.stamped other entry' found d mem

/-- What a renderer does when it sees to a template. -/
theorem ensure (tracks : place.Tracks names held trail s.world) (q : Equipment) (lasting : place.lasting = true)
    (serves : place.Serves disk names) (counted : s.world.sources.Counted) (known : names name) :
    (∃ entry : CacheEntry, entry.Unedited name held trail) ∧
        (q.renderer (place.cache 0)).ensure name s = (.ok (), s) ∨
      (¬ ∃ entry : CacheEntry, entry.Unedited name held trail) ∧ ∃ s', s'.world.sources = s.world.sources ∧
        ((∃ e, (q.renderer (place.cache 0)).ensure name s = (.error e, s') ∧
          place.Tracks names held trail s'.world) ∨
        ∃ entry, (q.renderer (place.cache 0)).ensure name s = (.ok (), s') ∧ s'.compilations = s.compilations + 1 ∧
          place.Tracks names (Function.update held name (some entry)) (trail ++ [.compiled name]) s'.world) := by
  have holding := CachePlace.holding serves 0
  obtain ⟨b, asked, fresh⟩ := tracks.isFresh (q := q) lasting serves known
  cases b with
  | true => exact .inl ⟨fresh.mp rfl, Renderer.ensure_fresh asked⟩
  | false =>
    refine .inr ⟨fun unedited => (nomatch fresh.mpr unedited), ?_⟩
    rw [Renderer.ensure_stale asked]
    cases made : q.entry s.world.sources name with
    | error e =>
      obtain ⟨s', run, holds, same⟩ := Equipment.compileAndKeep_of_error holding tracks.holds tracks.sound made
      exact ⟨s', same, .inl ⟨e, run, tracks.leave holds same⟩⟩
    | ok entry =>
      obtain ⟨s', run, holds, same⟩ :=
        Equipment.compileAndKeep_of_ok holding tracks.holds tracks.sound counted known made
      exact ⟨s', same, .inr ⟨entry, run, Renderer.compilations_compileAndKeep run, tracks.keep made holds same⟩⟩

/-- A template is compiled exactly if that is needed, and otherwise nothing is done at all. -/
theorem compiles_iff (tracks : place.Tracks names held trail s.world) (q : Equipment) (lasting : place.lasting = true)
    (serves : place.Serves disk names) (counted : s.world.sources.Counted) (known : names name) :
    ((q.renderer (place.cache 0)).Compiles name s ↔ place.Needs trail name s.world) ∧
      (¬ place.Needs trail name s.world → (q.renderer (place.cache 0)).ensure name s = (.ok (), s)) := by
  rw [tracks.needs_iff lasting known]
  unfold Renderer.Compiles
  rcases tracks.ensure q lasting serves counted known with
    ⟨unedited, run⟩ | ⟨needed, s', -, ⟨e, run, -⟩ | ⟨entry, run, more, -⟩⟩
  · rw [run]
    refine ⟨⟨?_, fun needed => absurd unedited needed⟩, fun _ => rfl⟩
    rintro (failed | more)
    · exact absurd rfl failed
    · exact absurd more (Nat.ne_of_lt (Nat.lt_succ_self _))
  · rw [run]
    exact ⟨⟨fun _ => needed, fun _ => .inl nofun⟩, fun h => absurd needed h⟩
  · rw [run]
    exact ⟨⟨fun _ => needed, fun _ => .inr more⟩, fun h => absurd needed h⟩

end CachePlace.Tracks

/-! ### Work -/

/-- After some work a cache has what the trail tells, and it has not given up anything without an edited source. -/
structure CachePlace.Worked (place : CachePlace) (names : String → Prop) (held : String → Option CacheEntry)
    (trail : List Mark) (w : World) (held' : String → Option CacheEntry) (trail' : List Mark) (w' : World) : Prop where
  tracks : place.Tracks names held' trail' w'
  sources : w'.sources = w.sources
  kept : ∀ (name : String) (entry : CacheEntry), entry.Unedited name held trail → entry.Unedited name held' trail'

namespace CachePlace.Tracks

variable {q : Equipment} {place : CachePlace} {names : String → Prop} {held : String → Option CacheEntry}
  {trail : List Mark} {disk : Disk} {s : Workbench World} {w : World} {name : String}

theorem worked_refl (tracks : place.Tracks names held trail w) : place.Worked names held trail w held trail w :=
  ⟨tracks, rfl, fun _ _ unedited => unedited⟩

/-- One template is seen to. If that succeeds, the cache has an artifact of it without an edited source. -/
theorem worked_ensure (tracks : place.Tracks names held trail s.world) (q : Equipment)
    (lasting : place.lasting = true) (serves : place.Serves disk names) (counted : s.world.sources.Counted)
    (known : names name) :
    ∃ r s' held', (q.renderer (place.cache 0)).ensure name s = (r, s') ∧
      place.Worked names held trail s.world held' (trail ++ (q.renderer (place.cache 0)).mark name s) s'.world ∧
      (r = .ok () →
        ∃ entry : CacheEntry, entry.Unedited name held' (trail ++ (q.renderer (place.cache 0)).mark name s)) := by
  unfold Renderer.mark
  rcases tracks.ensure q lasting serves counted known with
    ⟨unedited, run⟩ | ⟨needed, s', same, ⟨e, run, tracks'⟩ | ⟨entry, run, more, tracks'⟩⟩
  · rw [run]
    dsimp only
    rw [if_pos rfl, List.append_nil]
    exact ⟨_, s, held, rfl, tracks.worked_refl, fun _ => unedited⟩
  · rw [run]
    dsimp only
    rw [List.append_nil]
    exact ⟨_, s', held, rfl, ⟨tracks', same, fun _ _ unedited => unedited⟩, nofun⟩
  · rw [run]
    dsimp only
    rw [if_neg (by omega)]
    refine ⟨_, s', _, rfl, ⟨tracks', same, fun other entry' unedited => ?_⟩, fun _ => ⟨entry, ?_⟩⟩
    · have apart : other ≠ name := by
        rintro rfl
        exact needed ⟨entry', unedited⟩
      refine ⟨(Function.update_of_ne apart ..).trans unedited.1, fun d mem => ?_⟩
      rw [editedSince_compiled_other (Ne.symm apart)]
      exact unedited.2 d mem
    · refine ⟨Function.update_self .., fun d _ => ?_⟩
      rw [editedSince_compiled]
      exact List.not_mem_nil

/-- Templates are seen to one after the other. -/
theorem worked_ensureAll (tracks : place.Tracks names held trail s.world) (q : Equipment)
    (lasting : place.lasting = true) (serves : place.Serves disk names) (counted : s.world.sources.Counted)
    (wanted : List String) (known : ∀ name ∈ wanted, names name) :
    ∃ r s' held', wanted.forM (q.renderer (place.cache 0)).ensure s = (r, s') ∧
      place.Worked names held trail s.world held' (trail ++ (q.renderer (place.cache 0)).marks wanted s) s'.world ∧
      (r = .ok () → ∀ name ∈ wanted,
        ∃ entry : CacheEntry, entry.Unedited name held' (trail ++ (q.renderer (place.cache 0)).marks wanted s)) := by
  induction wanted generalizing s held trail with
  | nil =>
    refine ⟨_, s, held, rfl, ?_, fun _ => nofun⟩
    rw [Renderer.marks, List.append_nil]
    exact tracks.worked_refl
  | cons name rest ih =>
    obtain ⟨r₁, s₁, held₁, run, worked₁, good⟩ :=
      tracks.worked_ensure q lasting serves counted (known name (List.mem_cons_self ..))
    unfold List.forM Renderer.marks
    rw [Rendering.bind_apply, run]
    cases r₁ with
    | error e =>
      have nothing : (q.renderer (place.cache 0)).mark name s = [] := by
        unfold Renderer.mark
        rw [run]
      rw [nothing] at worked₁
      refine ⟨_, s₁, held₁, rfl, worked₁, fun fine => ?_⟩
      cases fine
    | ok u =>
      obtain ⟨r₂, s₂, held₂, run₂, worked₂, good₂⟩ := ih worked₁.tracks (by rw [worked₁.sources]; exact counted)
        fun other mem => known other (List.mem_cons_of_mem _ mem)
      rw [List.append_assoc] at worked₂ good₂
      refine ⟨r₂, s₂, held₂, run₂, ⟨worked₂.tracks, worked₂.sources.trans worked₁.sources, ?_⟩, fun fine => ?_⟩
      · exact fun other entry unedited => worked₂.kept other entry (worked₁.kept other entry unedited)
      · intro other mem
        rcases List.mem_cons.mp mem with rfl | mem
        · obtain ⟨entry, unedited⟩ := good rfl
          exact ⟨entry, worked₂.kept other entry unedited⟩
        · exact good₂ fine other mem

end CachePlace.Tracks

end Stencil
