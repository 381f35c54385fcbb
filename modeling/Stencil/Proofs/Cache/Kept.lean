import Stencil.Proofs.Cache.Holding
import Stencil.Proofs.Compile.Dependence
import Stencil.Proofs.Library.Edits

/-!
What caches keep. An entry that was made from earlier sources is good as long as the sources that it names have
their stamps: a compilation from the sources as they are gives the same. The three caches keep no other entries.
-/
namespace Stencil

/-- What a renderer is given beside its library and its cache. -/
structure Equipment where
  tagSets : List Tag.TagSet
  functions : Functions
  strip : Bool
  singleFlight : Bool

namespace Equipment

/-- Opens a renderer of the sources in memory with a new cache. -/
def openAt (q : Equipment) (place : CachePlace) (w : World) : Renderer World × World :=
  let (r, w) := Renderer.openWith .memory place w
  ({ r with tagSets := q.tagSets, functions := q.functions, strip := q.strip, singleFlight := q.singleFlight }, w)

/-- A renderer of the sources in memory with this cache. -/
def renderer (q : Equipment) (cache : Cache World) : Renderer World :=
  ⟨LibraryPlace.memory.library, cache, q.tagSets, q.functions, q.strip, q.singleFlight⟩

/-- No render handler reads a template, and no handler goes on after a template that cannot be read. -/
def Steady (q : Equipment) : Prop := ∀ set ∈ q.tagSets, ∀ b ∈ set.bindings, b.Steady

/-- What a compilation from these sources gives when there is nothing else. -/
def compiled (q : Equipment) (sources : MemorySources) (name : String) : Except TemplateError Compiled :=
  (Renderer.compileWith ((q.renderer (Cache.transient (World.shelfPart 0))).compileSteps name)
    { World.ofDisk (Disk.empty []) with sources := sources }).1

/-- The program of what a compilation from these sources gives. -/
def program (q : Equipment) (sources : MemorySources) (name : String) : Except TemplateError Program :=
  (q.compiled sources name).bind fun c => Program.parse name c.artifact

theorem program_of_error {q : Equipment} {sources : MemorySources} {name : String} {e : TemplateError}
    (run : q.compiled sources name = .error e) : q.program sources name = .error e := by
  unfold program
  rw [run]
  rfl

theorem program_of_ok {q : Equipment} {sources : MemorySources} {name : String} {c : Compiled}
    (run : q.compiled sources name = .ok c) : q.program sources name = Program.parse name c.artifact := by
  unfold program
  rw [run]
  rfl

/-- An entry that a compilation from earlier sources has made. -/
def Kept (q : Equipment) (now : MemorySources) (name : String) (entry : CacheEntry) : Prop :=
  ∃ before c, before.Sound ∧ before.Later now ∧ q.compiled before name = .ok c ∧
    CacheEntry.make name c.artifact c.template.dependencies = .ok entry

variable {q : Equipment}

/-- Two compilations, each in its world. Where the worlds differ, no handler may pass over what it has read. -/
theorem compileSteps_echo {w w' : World} (careful : w.sources.entries = w'.sources.entries ∨ q.Steady)
    (sound : w.sources.Sound) (sound' : w'.sources.Sound) (c c' : Cache World) (name : String) :
    ∃ r, Renderer.compileWith ((q.renderer c).compileSteps name) w = (r, w) ∧
      (∀ compiled, r = .ok compiled → ∀ d ∈ compiled.template.dependencies, ∃ source stamp,
        Keyed.get? d.identity w.sources.entries = some (source, stamp) ∧ d.stamp = some stamp) ∧
      ((w.sources.entries = w'.sources.entries ∨
        ∃ compiled, r = .ok compiled ∧ ∀ d ∈ compiled.template.dependencies,
          Keyed.get? d.identity w.sources.entries = Keyed.get? d.identity w'.sources.entries) →
        Renderer.compileWith ((q.renderer c').compileSteps name) w' = (r, w')) := by
  have tags : (q.renderer c).tagSets = (q.renderer c').tagSets := rfl
  have strip : (q.renderer c).strip = (q.renderer c').strip := rfl
  let v : Sides World World := ⟨w, w', w.sources.entries, w'.sources.entries⟩
  have alike : w.sources.entries = w'.sources.entries → v.Alike := by
    intro same identity
    show Keyed.get? identity w.sources.entries = Keyed.get? identity w'.sources.entries
    rw [same]
  obtain ⟨r, run, stamps, echo⟩ := Sides.compileSteps_echo (v := v) tags strip
    (careful.imp alike Tag.Table.steady_ofSets) (Library.memory_holds sound.settled)
    (Library.memory_holds sound'.settled) name
  exact ⟨r, run, stamps, fun cause => echo (cause.imp_left alike)⟩

/-- A compilation depends on the sources alone, and leaves the world as it is. -/
theorem compileWith_eq (q : Equipment) {w : World} (sound : w.sources.Sound) (c : Cache World) (name : String) :
    Renderer.compileWith ((q.renderer c).compileSteps name) w = (q.compiled w.sources name, w) := by
  let alone : World := { World.ofDisk (Disk.empty []) with sources := w.sources }
  have first : alone.sources.Sound := sound
  have same : alone.sources.entries = w.sources.entries := rfl
  obtain ⟨r, run, -, echo⟩ :=
    compileSteps_echo (Or.inl same) first sound (Cache.transient (World.shelfPart 0)) c name
  have result : q.compiled w.sources name = r := congrArg Prod.fst run
  rw [echo (Or.inl same), result]

theorem compile_of_error {s : Workbench World} (sound : s.world.sources.Sound) {name : String} {e : TemplateError}
    (run : q.compiled s.world.sources name = .error e) (c : Cache World) :
    (q.renderer c).compile name s = (.error e, s) :=
  Renderer.compile_of_error (by rw [compileWith_eq q sound, run])

theorem compile_of_ok {s : Workbench World} (sound : s.world.sources.Sound) {name : String} {compiled : Compiled}
    (run : q.compiled s.world.sources name = .ok compiled) (c : Cache World) :
    (q.renderer c).compile name s = (.ok compiled, ⟨s.world, s.compilations + 1⟩) :=
  Renderer.compile_of_ok (by rw [compileWith_eq q sound, run])

/-- A compilation records the stamps that the sources have. -/
theorem compiled_stamps {sources : MemorySources} (sound : sources.Sound) {name : String}
    {c : Compiled} (run : q.compiled sources name = .ok c) : ∀ d ∈ c.template.dependencies,
    ∃ source stamp, Keyed.get? d.identity sources.entries = some (source, stamp) ∧ d.stamp = some stamp := by
  let alone : World := { World.ofDisk (Disk.empty []) with sources := sources }
  have first : alone.sources.Sound := sound
  let cache := Cache.transient (World.shelfPart 0)
  obtain ⟨r, run', stamps, -⟩ := compileSteps_echo (Or.inl rfl) first first cache cache name
  have result : q.compiled sources name = r := congrArg Prod.fst run'
  exact stamps c (result.symm.trans run)

theorem compiled_current {sources : MemorySources} (sound : sources.Sound) {name : String} {c : Compiled}
    (run : q.compiled sources name = .ok c) : sources.current c.template.dependencies = true := by
  refine MemorySources.current_iff.mpr fun d mem => ?_
  obtain ⟨source, stamp, found, recorded⟩ := compiled_stamps sound run d mem
  refine ⟨stamp, recorded, ?_⟩
  unfold MemorySources.modified
  rw [found]
  rfl

/-- An entry whose sources have their stamps is what a compilation gives now. -/
theorem Kept.still_good (steady : q.Steady) {now : MemorySources} (sound : now.Sound) {name : String}
    {entry : CacheEntry} (kept : q.Kept now name entry)
    (fresh : ∀ d ∈ entry.dependencies, ∃ stamp, d.stamp = some stamp ∧ now.modified d.identity = some stamp) :
    q.program now name = .ok entry.program := by
  obtain ⟨before, c, sound₀, later, run, made⟩ := kept
  obtain ⟨-, dependencies, parsed⟩ := CacheEntry.make_ok made
  rw [dependencies] at fresh
  let then' : World := { World.ofDisk (Disk.empty []) with sources := before }
  let here : World := { World.ofDisk (Disk.empty []) with sources := now }
  have first : then'.sources.Sound := sound₀
  have second : here.sources.Sound := sound
  let cache := Cache.transient (World.shelfPart 0)
  obtain ⟨r, run', stamps, echo⟩ := compileSteps_echo (Or.inr steady) first second cache cache name
  have result : r = .ok c := (congrArg Prod.fst run').symm.trans run
  have agree : ∀ d ∈ c.template.dependencies,
      Keyed.get? d.identity before.entries = Keyed.get? d.identity now.entries := by
    intro d h
    obtain ⟨source, stamp, found, recorded⟩ := stamps c result d h
    obtain ⟨stamp', recorded', unchanged⟩ := fresh d h
    have same : stamp' = stamp := Option.some.inj (recorded'.symm.trans recorded)
    subst same
    exact found.trans (later.same_of_stamp sound₀ found unchanged).symm
  have again : q.compiled now name = .ok c :=
    (congrArg Prod.fst (echo (Or.inr ⟨c, result, agree⟩))).trans result
  unfold program
  rw [again]
  exact parsed

theorem Kept.later {now after : MemorySources} {name : String} {entry : CacheEntry} (kept : q.Kept now name entry)
    (later : now.Later after) : q.Kept after name entry := by
  obtain ⟨before, c, sound, first, run, made⟩ := kept
  exact ⟨before, c, sound, first.trans later, run, made⟩

/-- Making the entry once more gives the same. -/
theorem Kept.made {now : MemorySources} {name : String} {entry : CacheEntry} (kept : q.Kept now name entry) :
    CacheEntry.make name entry.artifact entry.dependencies = .ok entry := by
  obtain ⟨before, c, -, -, -, made⟩ := kept
  obtain ⟨artifact, dependencies, -⟩ := CacheEntry.make_ok made
  rw [artifact, dependencies]
  exact made

theorem kept_compiled {now : MemorySources} (sound : now.Sound) {name : String} {c : Compiled} {entry : CacheEntry}
    (run : q.compiled now name = .ok c)
    (made : CacheEntry.make name c.artifact c.template.dependencies = .ok entry) : q.Kept now name entry :=
  ⟨now, c, sound, .refl now, run, made⟩

end Equipment

end Stencil
