import Stencil.Proofs.Cache.Transparency

/-!
Renderers that share their sources and their cache, each with tags and a strip setting of its own, which may change.
What they answer can be told without the cache, from a ledger of what was compiled last for every template and by
whom.
-/
namespace Stencil

/-- What is asked of renderers that share their sources and their cache, or done to them. They go by numbers. -/
inductive Task where
  | edit (e : Edit)
  | render (k : Nat) (name : String) (params : Datum)
  | addTags (k : Nat) (set : Tag.TagSet)
  | setStrip (k : Nat) (strip : Bool)
  | dup (k : Nat)

namespace Task

def rendered? : Task → Option String
  | render _ name _ => some name
  | _ => none

def isEdit : Task → Bool
  | edit _ => true
  | _ => false

/-- Renderers of this kind stay of this kind. -/
def Keeps (kind : Equipment → Prop) : Task → Prop
  | addTags _ set => ∀ q, kind q → kind { q with tagSets := q.tagSets ++ [set] }
  | setStrip _ strip => ∀ q, kind q → kind { q with strip := strip }
  | _ => True

theorem keeps_any (task : Task) : task.Keeps fun _ => True := by
  cases task with
  | addTags k set => exact fun _ _ => trivial
  | setStrip k strip => exact fun _ _ => trivial
  | edit e => trivial
  | render k name params => trivial
  | dup k => trivial

def rendered (history : List Task) : List String := history.filterMap (·.rendered?)

/-- The stamps that a history takes, at most. -/
def edits (history : List Task) : Nat := history.countP (·.isEdit)

end Task

structure Member where
  renderer : Renderer World
  compilations : Nat

structure Team where
  members : List Member
  world : World

namespace Team

def setUp (k : Nat) (change : Renderer World → Renderer World) (t : Team) : Team :=
  { t with members := t.members.modify k fun m => { m with renderer := change m.renderer } }

def render (k : Nat) (name : String) (params : Datum) (t : Team) : Answer × Team :=
  match t.members[k]? with
  | none => (.done, t)
  | some m =>
    let (r, bench) := m.renderer.render name params ⟨t.world, m.compilations⟩
    (.page r, ⟨t.members.set k { m with compilations := bench.compilations }, bench.world⟩)

def answer (t : Team) : Task → Answer × Team
  | .edit e => (.done, { t with world := { t.world with sources := e.make t.world.sources } })
  | .render k name params => t.render k name params
  | .addTags k set => (.done, t.setUp k (·.addTags set))
  | .setStrip k strip => (.done, t.setUp k fun r => { r with strip := strip })
  | .dup k => (.done, { t with members := t.members ++ (t.members[k]?.map fun m => { m with compilations := 0 }).toList })

def after (t : Team) (history : List Task) : Team := history.foldl (fun t task => (t.answer task).2) t

end Team

namespace Equipment

/-- A single renderer with a new cache on a disk, before there are any sources. -/
def team (q : Equipment) (place : CachePlace) (disk : Disk) : Team :=
  let (r, w) := q.openAt place (World.ofDisk disk)
  ⟨[⟨r, 0⟩], w⟩

/-- What a compilation from these sources gives a cache to keep. -/
def entry (q : Equipment) (sources : MemorySources) (name : String) : Except TemplateError CacheEntry :=
  (q.compiled sources name).bind fun c => CacheEntry.make name c.artifact c.template.dependencies

theorem program_eq_entry (q : Equipment) (sources : MemorySources) (name : String) :
    q.program sources name = (q.entry sources name).map (·.program) := by
  unfold program entry
  cases q.compiled sources name with
  | error e => rfl
  | ok c =>
    show Program.parse name c.artifact = (CacheEntry.make name c.artifact c.template.dependencies).map _
    unfold CacheEntry.make
    cases Program.parse name c.artifact <;> rfl

variable {q : Equipment} {sources : MemorySources} {name : String} {entry : CacheEntry}

theorem entry_ok (made : q.entry sources name = .ok entry) : ∃ c, q.compiled sources name = .ok c ∧
    CacheEntry.make name c.artifact c.template.dependencies = .ok entry := by
  unfold Equipment.entry at made
  cases run : q.compiled sources name with
  | error e =>
    rw [run] at made
    cases made
  | ok c =>
    rw [run] at made
    exact ⟨c, rfl, made⟩

theorem entry_error {e : TemplateError} (failed : q.entry sources name = .error e) :
    q.compiled sources name = .error e ∨ ∃ c reason, q.compiled sources name = .ok c ∧
      CacheEntry.make name c.artifact c.template.dependencies = .error e ∧ e = .artifactSyntax name reason := by
  unfold Equipment.entry at failed
  cases run : q.compiled sources name with
  | error e' =>
    rw [run] at failed
    cases failed
    exact Or.inl rfl
  | ok c =>
    rw [run] at failed
    have bad : CacheEntry.make name c.artifact c.template.dependencies = .error e := failed
    cases parsed : Program.parse name c.artifact with
    | error e' =>
      obtain ⟨reason, rfl⟩ := Program.parse_error parsed
      cases (CacheEntry.make_of_error parsed _).symm.trans bad
      exact Or.inr ⟨c, reason, rfl, bad, rfl⟩
    | ok p => cases (CacheEntry.make_of_ok parsed _).symm.trans bad

theorem kept_entry (sound : sources.Sound) (made : q.entry sources name = .ok entry) : q.Kept sources name entry := by
  obtain ⟨c, run, made⟩ := entry_ok made
  exact kept_compiled sound run made

section Keeping

variable {names : String → Prop} {cache : Cache World} {lasting : Bool}
  {inv : (String → Option CacheEntry) → World → Prop} {held : String → Option CacheEntry} {s : Workbench World}
  (holding : cache.Holding names lasting inv) (holds : inv held s.world)

include holding holds

theorem compileAndKeep_of_error (sound : s.world.sources.Sound) {e : TemplateError}
    (failed : q.entry s.world.sources name = .error e) :
    ∃ s', (q.renderer cache).compileAndKeep name s = (.error e, s') ∧ inv held s'.world ∧
      s'.world.sources = s.world.sources := by
  rcases entry_error failed with run | ⟨c, reason, run, bad, rfl⟩
  · exact ⟨s, Renderer.compileAndKeep_of_error (compile_of_error sound run cache), holds, rfl⟩
  · obtain ⟨w, stored, holds', same⟩ := holding.refused holds bad
    exact ⟨_, Renderer.compileAndKeep_of_ok (compile_of_ok sound run cache) stored, holds', same⟩

theorem compileAndKeep_of_ok (sound : s.world.sources.Sound) (counted : s.world.sources.Counted) (known : names name)
    (made : q.entry s.world.sources name = .ok entry) :
    ∃ s', (q.renderer cache).compileAndKeep name s = (.ok (), s') ∧
      inv (Function.update held name (some entry)) s'.world ∧ s'.world.sources = s.world.sources := by
  obtain ⟨c, run, made⟩ := entry_ok made
  obtain ⟨w, stored, holds', same⟩ := holding.stored holds known (compiled_fits sound counted run) made
  exact ⟨_, Renderer.compileAndKeep_of_ok (compile_of_ok sound run cache) stored, holds', same⟩

end Keeping

end Equipment

/-- Whether a cache of this place calls fresh what it holds. -/
def CachePlace.lasting : CachePlace → Bool
  | transient => false
  | memory => true
  | folder _ => true

/-- What a task makes of the equipment of the renderers. -/
def Task.setUp : Task → List Equipment → List Equipment
  | addTags k set, equipment => equipment.modify k fun q => { q with tagSets := q.tagSets ++ [set] }
  | setStrip k strip, equipment => equipment.modify k fun q => { q with strip := strip }
  | dup k, equipment => equipment ++ equipment[k]?.toList
  | _, equipment => equipment

/-- An entry, and the equipment of the renderer that compiled it. -/
structure Made where
  maker : Equipment
  entry : CacheEntry

/-- The equipment of the renderers, their sources, and what was compiled last for each template. -/
structure Ledger where
  equipment : List Equipment
  sources : MemorySources
  last : String → Option Made

namespace Ledger

def start (q : Equipment) : Ledger := ⟨[q], MemorySources.empty, fun _ => none⟩

/-- What is held for a template if the ledger is right. -/
def held (l : Ledger) (name : String) : Option CacheEntry := (l.last name).map (·.entry)

/-- What was compiled last, if the cache lasts and all its sources are as they were. -/
def good (l : Ledger) (place : CachePlace) (name : String) : Option Made :=
  (l.last name).filter fun made => place.lasting && l.sources.current made.entry.dependencies

/-- What a page is made with: what was compiled last if it is good, and what the renderer itself compiles otherwise. -/
def serving (l : Ledger) (place : CachePlace) (q : Equipment) (name : String) : Except TemplateError Made :=
  match l.good place name with
  | some made => .ok made
  | none => (q.entry l.sources name).map fun entry => ⟨q, entry⟩

/-- The page that a renderer of this equipment answers with. -/
def page (l : Ledger) (place : CachePlace) (q : Equipment) (name : String) (params : Datum) :
    Except TemplateError String :=
  params.toValue.bind fun v => (l.serving place q name).bind fun made => made.entry.program.execute v q.functions

def record (l : Ledger) (name : String) : Except TemplateError Made → Ledger
  | .ok made => { l with last := Function.update l.last name (some made) }
  | .error _ => l

def answerRender (l : Ledger) (place : CachePlace) (k : Nat) (name : String) (params : Datum) : Answer :=
  match l.equipment[k]? with
  | some q => .page (l.page place q name params)
  | none => .done

def answer (l : Ledger) (place : CachePlace) : Task → Answer
  | .render k name params => l.answerRender place k name params
  | _ => .done

/-- Parameters that are no value keep everything as it is. -/
def noteRender (l : Ledger) (place : CachePlace) (k : Nat) (name : String) (params : Datum) : Ledger :=
  match l.equipment[k]?, params.toValue with
  | some q, .ok _ => l.record name (l.serving place q name)
  | _, _ => l

def note (l : Ledger) (place : CachePlace) : Task → Ledger
  | .edit e => { l with sources := e.make l.sources }
  | .render k name params => l.noteRender place k name params
  | task => { l with equipment := task.setUp l.equipment }

def after (l : Ledger) (place : CachePlace) (history : List Task) : Ledger :=
  history.foldl (fun l task => l.note place task) l

end Ledger

/-! ### The cache's part -/

namespace CachePlace

/-- What a cache of this place holds, with a shelf of its own. -/
def Holds (place : CachePlace) (names : String → Prop) (n : Nat) (held : String → Option CacheEntry) (w : World) :
    Prop :=
  match place with
  | transient => w.OnShelf names n held
  | memory => w.OnShelf names n held
  | folder dir => w.InFolder names ⟨dir⟩ n held

variable {place : CachePlace} {names : String → Prop} {disk : Disk}

theorem holding (serves : place.Serves disk names) (n : Nat) :
    (place.cache n).Holding names place.lasting (place.Holds names n) := by
  cases place with
  | transient => exact Cache.holding_transient n
  | memory => exact Cache.holding_memory n
  | folder dir => exact Cache.holding_folder serves.2 n

theorem holds_new (w : World) (serves : place.Serves w.disk names) :
    place.Holds names w.shelves.length (fun _ => none) w.addShelf.2 := by
  have there : w.shelves.length < (w.shelves ++ [[]]).length := by
    rw [List.length_append]
    exact Nat.lt_succ_self _
  have empty : (w.shelves ++ [[]]).getD w.shelves.length [] = [] := by
    rw [List.getD_eq_getElem?_getD, List.getElem?_concat_length]
    rfl
  have nothing : ∀ name, Keyed.get? name ((w.shelves ++ [[]]).getD w.shelves.length []) = (none : Option CacheEntry) := by
    intro name
    rw [empty]
    rfl
  have blank : w.addShelf.2.OnShelf names w.shelves.length fun _ => none := ⟨there, fun name _ => nothing name⟩
  cases place with
  | transient => exact blank
  | memory => exact blank
  | folder dir =>
    obtain ⟨fresh, fits⟩ := serves
    exact ⟨there, Or.inl fresh, fun name known => ⟨(fresh.shows (fits name known)).info, nothing name⟩⟩

end CachePlace

/-! ### The ledger is right -/

namespace Ledger

variable {l : Ledger} {t : Team} {q : Equipment} {names : String → Prop} {place : CachePlace} {disk : Disk} {n : Nat}
  {s : Workbench World} {name : String}

theorem held_record (l : Ledger) (name : String) (made : Made) :
    (l.record name (.ok made)).held = Function.update l.held name (some made.entry) := by
  funext other
  show (Function.update l.last name (some made) other).map (·.entry) = _
  by_cases same : other = name
  · subst same
    rw [Function.update_self, Function.update_self]
    rfl
  · rw [Function.update_of_ne same, Function.update_of_ne same]
    rfl

theorem good_eq_some {made : Made} (good : l.good place name = some made) :
    l.last name = some made ∧ l.sources.current made.entry.dependencies = true := by
  obtain ⟨last, fine⟩ := Option.filter_eq_some_iff.mp good
  exact ⟨last, ((Bool.and_eq_true _ _).mp fine).2⟩

theorem record_good {made : Made} (good : l.good place name = some made) : l.record name (.ok made) = l := by
  have noted : Function.update l.last name (some made) = l.last :=
    Function.update_eq_self_iff.mpr (good_eq_some good).1.symm
  show { l with last := Function.update l.last name (some made) } = l
  rw [noted]

theorem serving_of_good {made : Made} (good : l.good place name = some made) (q : Equipment) :
    l.serving place q name = .ok made := by
  unfold Ledger.serving
  rw [good]

theorem serving_of_none (stale : l.good place name = none) (q : Equipment) :
    l.serving place q name = (q.entry l.sources name).map fun entry => ⟨q, entry⟩ := by
  unfold Ledger.serving
  rw [stale]

/-- A cache calls fresh what the ledger calls good. -/
theorem isFresh_eq (serves : place.Serves disk names) (holds : place.Holds names n l.held s.world)
    (same : s.world.sources = l.sources) (known : names name) :
    (place.cache n).isFresh Library.ofWorld name s.world = ((l.good place name).isSome, s.world) := by
  rw [(CachePlace.holding serves n).asked holds known, same]
  unfold Ledger.held Ledger.good
  cases l.last name with
  | none =>
    rw [Option.map_none, Option.any_none, Bool.and_false]
    rfl
  | some made =>
    rw [Option.map_some, Option.any_some, Option.filter_some]
    cases place.lasting && l.sources.current made.entry.dependencies <;> rfl

/-- A renderer sees to what serves it, and with that the ledger is right. -/
theorem ensure (q : Equipment) (serves : place.Serves disk names) (holds : place.Holds names n l.held s.world)
    (same : s.world.sources = l.sources) (sound : l.sources.Sound) (counted : l.sources.Counted)
    (known : names name) :
    ∃ s', (q.renderer (place.cache n)).ensure name s = ((l.serving place q name).map fun _ => (), s') ∧
      place.Holds names n (l.record name (l.serving place q name)).held s'.world ∧ s'.world.sources = l.sources := by
  have holding := CachePlace.holding serves n
  have asked : (q.renderer (place.cache n)).isFresh name s = (.ok (l.good place name).isSome, s) :=
    Renderer.isFresh_apply (isFresh_eq serves holds same known)
  cases good : l.good place name with
  | some made =>
    rw [good] at asked
    rw [serving_of_good good, record_good good]
    exact ⟨s, Renderer.ensure_fresh asked, holds, same⟩
  | none =>
    rw [good] at asked
    rw [serving_of_none good, Renderer.ensure_stale asked]
    -- the ledger compiles from its own sources, the renderer from those of the world
    rw [← same] at sound counted ⊢
    cases made : q.entry s.world.sources name with
    | error e => exact Equipment.compileAndKeep_of_error holding holds sound made
    | ok entry =>
      have kept := Equipment.compileAndKeep_of_ok holding holds sound counted known made
      rw [← held_record l name ⟨q, entry⟩] at kept
      exact kept

theorem render (q : Equipment) (serves : place.Serves disk names) (holds : place.Holds names n l.held s.world)
    (same : s.world.sources = l.sources) (sound : l.sources.Sound) (counted : l.sources.Counted)
    (known : names name) {params : Datum} {v : Value} (value : params.toValue = .ok v) :
    ∃ s', (q.renderer (place.cache n)).render name params s = (l.page place q name params, s') ∧
      place.Holds names n (l.record name (l.serving place q name)).held s'.world ∧ s'.world.sources = l.sources := by
  obtain ⟨s', ensured, holds', same'⟩ := l.ensure q serves holds same sound counted known
  unfold Renderer.render Ledger.page
  rw [value]
  cases serving : l.serving place q name with
  | error e =>
    rw [serving] at ensured holds'
    exact ⟨s', Renderer.renderValue_of_error ensured v, holds', same'⟩
  | ok made =>
    rw [serving] at ensured holds'
    have there : (l.record name (.ok made)).held name = some made.entry := by
      rw [held_record, Function.update_self]
    obtain ⟨w, loaded, holds'', same''⟩ := (CachePlace.holding serves n).loaded holds' known there
    exact ⟨_, Renderer.renderValue_of_load ensured loaded v, holds'', same''.trans same'⟩

/-- The renderers, their sources and their cache are as the ledger tells. -/
structure Describes (l : Ledger) (place : CachePlace) (names : String → Prop) (t : Team) : Prop where
  members : t.members.map (·.renderer) = l.equipment.map (·.renderer (place.cache 0))
  sources : t.world.sources = l.sources
  holds : place.Holds names 0 l.held t.world

theorem describes_start (q : Equipment) (serves : place.Serves disk names) :
    (start q).Describes place names (q.team place disk) :=
  ⟨rfl, rfl, CachePlace.holds_new (World.ofDisk disk) serves⟩

theorem Describes.member (described : l.Describes place names t) (k : Nat) :
    (t.members[k]? = none ∧ l.equipment[k]? = none) ∨
      ∃ q count, t.members[k]? = some ⟨q.renderer (place.cache 0), count⟩ ∧ l.equipment[k]? = some q := by
  have same : (t.members.map (·.renderer))[k]? = (l.equipment.map (·.renderer (place.cache 0)))[k]? := by
    rw [described.members]
  rw [List.getElem?_map, List.getElem?_map] at same
  cases member : t.members[k]? with
  | none =>
    rw [member] at same
    exact Or.inl ⟨rfl, Option.map_eq_none_iff.mp same.symm⟩
  | some m =>
    rw [member] at same
    obtain ⟨q, found, renderer⟩ := Option.map_eq_some_iff.mp same.symm
    right
    refine ⟨q, m.compilations, ?_, found⟩
    rw [renderer]

theorem Describes.setUp (described : l.Describes place names t) (k : Nat) (change : Renderer World → Renderer World)
    (change' : Equipment → Equipment)
    (same : ∀ q : Equipment, change (q.renderer (place.cache 0)) = (change' q).renderer (place.cache 0)) :
    ({ l with equipment := l.equipment.modify k change' } : Ledger).Describes place names (t.setUp k change) := by
  refine ⟨List.ext_getElem? fun i => ?_, described.sources, described.holds⟩
  show ((t.members.modify k fun m => { m with renderer := change m.renderer }).map (·.renderer))[i]? =
    ((l.equipment.modify k change').map (·.renderer (place.cache 0)))[i]?
  rw [List.getElem?_map, List.getElem?_map, List.getElem?_modify, List.getElem?_modify]
  rcases described.member i with ⟨member, equipment⟩ | ⟨q, count, member, equipment⟩
  · rw [member, equipment]
    rfl
  · rw [member, equipment]
    by_cases here : k = i
    · simp only [here, if_true, Option.map_eq_map, Option.map_some, same q]
    · simp only [here, if_false, Option.map_eq_map, Option.map_some]

/-- One renderer has worked on the world, and it is as it was. -/
theorem Describes.worked (described : l.Describes place names t) {k : Nat} {q : Equipment} {count : Nat}
    (member : t.members[k]? = some ⟨q.renderer (place.cache 0), count⟩) {l' : Ledger} {count' : Nat} {w : World}
    (equipment : l'.equipment = l.equipment) (sources : w.sources = l'.sources)
    (holds : place.Holds names 0 l'.held w) :
    l'.Describes place names ⟨t.members.set k ⟨q.renderer (place.cache 0), count'⟩, w⟩ := by
  refine ⟨?_, sources, holds⟩
  have there : (t.members.map (·.renderer))[k]? = some (q.renderer (place.cache 0)) := by
    rw [List.getElem?_map, member]
    rfl
  show (t.members.set k ⟨q.renderer (place.cache 0), count'⟩).map (·.renderer) = _
  rw [List.map_set, equipment, ← described.members]
  obtain ⟨bound, same⟩ := List.getElem?_eq_some_iff.mp there
  exact (congrArg _ same.symm).trans (List.set_getElem_self bound)

theorem Describes.render (described : l.Describes place names t) (serves : place.Serves disk names)
    (sound : l.sources.Sound) (counted : l.sources.Counted) (k : Nat) {name : String} (known : names name)
    (params : Datum) :
    (t.render k name params).1 = l.answerRender place k name params ∧
      (l.noteRender place k name params).Describes place names (t.render k name params).2 := by
  unfold Team.render Ledger.answerRender Ledger.noteRender
  rcases described.member k with ⟨member, equipment⟩ | ⟨q, count, member, equipment⟩
  · rw [member, equipment]
    exact ⟨rfl, described⟩
  · rw [member, equipment]
    cases value : params.toValue with
    | error e =>
      -- parameters are looked at first, so the cache is not even asked
      have run : (q.renderer (place.cache 0)).render name params ⟨t.world, count⟩ =
          (l.page place q name params, ⟨t.world, count⟩) := by
        unfold Renderer.render Ledger.page
        rw [value]
        rfl
      dsimp only
      rw [run]
      exact ⟨rfl, described.worked member rfl described.sources described.holds⟩
    | ok v =>
      obtain ⟨s', run, holds, same⟩ := l.render (s := ⟨t.world, count⟩) q serves described.holds described.sources
        sound counted known value
      dsimp only
      rw [run]
      refine ⟨rfl, described.worked member ?_ ?_ holds⟩
      · cases l.serving place q name <;> rfl
      · rw [same]
        cases l.serving place q name <;> rfl

/-- The renderers answer as the ledger tells, and the ledger goes on to describe them. -/
theorem Describes.answer (described : l.Describes place names t) (serves : place.Serves disk names)
    (sound : l.sources.Sound) (counted : l.sources.Counted) (task : Task)
    (known : ∀ name, task.rendered? = some name → names name) :
    (t.answer task).1 = l.answer place task ∧ (l.note place task).Describes place names (t.answer task).2 := by
  cases task with
  | edit e =>
    refine ⟨rfl, described.members, ?_, (CachePlace.holding serves 0).edited described.holds _⟩
    show e.make t.world.sources = e.make l.sources
    rw [described.sources]
  | addTags k set =>
    exact ⟨rfl, described.setUp k (fun r : Renderer World => r.addTags set) _ fun q => rfl⟩
  | setStrip k strip =>
    exact ⟨rfl, described.setUp k (fun r : Renderer World => { r with strip := strip }) _ fun q => rfl⟩
  | dup k =>
    refine ⟨rfl, ?_, described.sources, described.holds⟩
    show (t.members ++ (t.members[k]?.map fun m : Member => { m with compilations := 0 }).toList).map
      (fun m : Member => m.renderer) =
      (l.equipment ++ l.equipment[k]?.toList).map (·.renderer (place.cache 0))
    rw [List.map_append, List.map_append, described.members]
    rcases described.member k with ⟨member, equipment⟩ | ⟨q, count, member, equipment⟩
    · rw [member, equipment]
      rfl
    · rw [member, equipment]
      rfl
  | render k name params => exact described.render serves sound counted k (known name rfl) params

theorem noteRender_cases (l : Ledger) (place : CachePlace) (k : Nat) (name : String) (params : Datum) :
    l.noteRender place k name params = l ∨ ∃ q made, l.equipment[k]? = some q ∧ l.serving place q name = .ok made ∧
      l.noteRender place k name params = l.record name (.ok made) := by
  unfold Ledger.noteRender
  cases equipment : l.equipment[k]? with
  | none => exact Or.inl rfl
  | some q =>
    cases params.toValue with
    | error e => exact Or.inl rfl
    | ok v =>
      cases serving : l.serving place q name with
      | error e =>
        left
        dsimp only
        rw [serving]
        rfl
      | ok made =>
        right
        refine ⟨q, made, rfl, serving, ?_⟩
        dsimp only
        rw [serving]

/-! ### Whole histories -/

theorem equipment_note (l : Ledger) (place : CachePlace) (task : Task) :
    (l.note place task).equipment = task.setUp l.equipment := by
  cases task with
  | edit e => rfl
  | addTags k set => rfl
  | setStrip k strip => rfl
  | dup k => rfl
  | render k name params =>
    show (l.noteRender place k name params).equipment = l.equipment
    rcases l.noteRender_cases place k name params with same | ⟨q, made, -, -, same⟩ <;> rw [same]
    rfl

theorem equipment_after (l : Ledger) (place : CachePlace) (history : List Task) :
    (l.after place history).equipment = history.foldl (fun equipment task => task.setUp equipment) l.equipment := by
  induction history generalizing l with
  | nil => rfl
  | cons task history ih =>
    show ((l.note place task).after place history).equipment = _
    rw [ih, equipment_note]
    rfl

/-- Only equipment of this kind is or was there, and what is noted was compiled with it from earlier sources. -/
structure Sound (l : Ledger) (kind : Equipment → Prop) : Prop where
  sources : l.sources.Sound
  equipment : ∀ q ∈ l.equipment, kind q
  noted : ∀ name made, l.last name = some made → kind made.maker ∧ made.maker.Kept l.sources name made.entry

variable {kind : Equipment → Prop}

theorem sound_start (q : Equipment) (fine : kind q) : (start q).Sound kind := by
  refine ⟨MemorySources.sound_empty, fun q' mem => ?_, fun name made noted => (by cases noted)⟩
  rw [List.mem_singleton.mp mem]
  exact fine

theorem Sound.weaken {wider : Equipment → Prop} (sound : l.Sound kind) (imp : ∀ q, kind q → wider q) :
    l.Sound wider where
  sources := sound.sources
  equipment q mem := imp q (sound.equipment q mem)
  noted name made noted := (sound.noted name made noted).imp_left (imp _)

/-- What serves a renderer was compiled, and all its sources are as they were. -/
theorem Sound.serving (sound : l.Sound kind) (fine : kind q) {made : Made}
    (serving : l.serving place q name = .ok made) :
    kind made.maker ∧ made.maker.Kept l.sources name made.entry ∧
      l.sources.current made.entry.dependencies = true := by
  cases good : l.good place name with
  | some made' =>
    cases (serving_of_good good q).symm.trans serving
    obtain ⟨last, current⟩ := good_eq_some good
    obtain ⟨fine', kept⟩ := sound.noted name made last
    exact ⟨fine', kept, current⟩
  | none =>
    rw [serving_of_none good] at serving
    cases compiled : q.entry l.sources name with
    | error e =>
      rw [compiled] at serving
      cases serving
    | ok entry =>
      rw [compiled] at serving
      cases serving
      refine ⟨fine, Equipment.kept_entry sound.sources compiled, ?_⟩
      obtain ⟨c, run, made⟩ := Equipment.entry_ok compiled
      obtain ⟨-, listed, -⟩ := CacheEntry.make_ok made
      rw [listed]
      exact Equipment.compiled_current sound.sources run

theorem kind_modify {equipment : List Equipment} (all : ∀ q ∈ equipment, kind q) (k : Nat)
    {change : Equipment → Equipment} (keeps : ∀ q, kind q → kind (change q)) :
    ∀ q ∈ equipment.modify k change, kind q := by
  intro q mem
  obtain ⟨i, found⟩ := List.mem_iff_getElem?.mp mem
  rw [List.getElem?_modify] at found
  obtain ⟨q', before, changed⟩ := Option.map_eq_some_iff.mp found
  have fine := all q' (List.mem_of_getElem? before)
  by_cases here : k = i
  · rw [if_pos here] at changed
    rw [← changed]
    exact keeps q' fine
  · rw [if_neg here] at changed
    rw [← changed]
    exact fine

theorem Sound.note (sound : l.Sound kind) (place : CachePlace) {task : Task} (keeps : task.Keeps kind) :
    (l.note place task).Sound kind := by
  cases task with
  | edit e =>
    refine ⟨sound.sources.edit e, sound.equipment, fun name made noted => ?_⟩
    obtain ⟨fine, kept⟩ := sound.noted name made noted
    exact ⟨fine, kept.later (MemorySources.later_edit e _)⟩
  | addTags k set => exact ⟨sound.sources, kind_modify sound.equipment k keeps, sound.noted⟩
  | setStrip k strip => exact ⟨sound.sources, kind_modify sound.equipment k keeps, sound.noted⟩
  | dup k =>
    refine ⟨sound.sources, fun q mem => ?_, sound.noted⟩
    rcases List.mem_append.mp mem with mem | mem
    · exact sound.equipment q mem
    · exact sound.equipment q (List.mem_of_getElem? (Option.mem_toList.mp mem))
  | render k name params =>
    show (l.noteRender place k name params).Sound kind
    rcases l.noteRender_cases place k name params with same | ⟨q, made, equipment, serving, same⟩
    · rw [same]
      exact sound
    · rw [same]
      obtain ⟨fine, kept, -⟩ := sound.serving (sound.equipment q (List.mem_of_getElem? equipment)) serving
      refine ⟨sound.sources, sound.equipment, fun other made' noted => ?_⟩
      have noted' : Function.update l.last name (some made) other = some made' := noted
      by_cases here : other = name
      · subst here
        rw [Function.update_self] at noted'
        cases noted'
        exact ⟨fine, kept⟩
      · rw [Function.update_of_ne here] at noted'
        exact sound.noted other made' noted'

theorem Sound.after (sound : l.Sound kind) (place : CachePlace) {history : List Task}
    (keeps : ∀ task ∈ history, task.Keeps kind) : (l.after place history).Sound kind := by
  induction history generalizing l with
  | nil => exact sound
  | cons task history ih =>
    exact ih (sound.note place (keeps task (List.mem_cons_self ..))) fun t mem => keeps t (List.mem_cons_of_mem _ mem)

theorem revision_note (l : Ledger) (place : CachePlace) (task : Task) :
    (l.note place task).sources.revision ≤ l.sources.revision + if task.isEdit then 1 else 0 := by
  cases task with
  | edit e => exact (MemorySources.edit_cases e l.sources).2.1.2
  | addTags k set => exact Nat.le_refl _
  | setStrip k strip => exact Nat.le_refl _
  | dup k => exact Nat.le_refl _
  | render k name params =>
    show (l.noteRender place k name params).sources.revision ≤ _
    rcases l.noteRender_cases place k name params with same | ⟨q, made, -, -, same⟩ <;>
      (rw [same]; exact Nat.le_refl _)

theorem Describes.after (described : l.Describes place names t) (serves : place.Serves disk names)
    (sound : l.Sound fun _ => True) {history : List Task} (known : ∀ name ∈ Task.rendered history, names name)
    (counted : l.sources.revision + Task.edits history < 0x10000000000000000) :
    (l.after place history).Describes place names (t.after history) ∧ (l.after place history).sources.Counted := by
  -- every step may take one stamp more, and each needs that all stamps so far can be written
  induction history generalizing l t with
  | nil => exact ⟨described, counted⟩
  | cons task history ih =>
    have taken : Task.edits (task :: history) = Task.edits history + if task.isEdit then 1 else 0 :=
      List.countP_cons
    have grown := l.revision_note place task
    have few : l.sources.Counted := by
      unfold MemorySources.Counted
      omega
    have step := described.answer serves sound.sources few task fun name shown =>
      known name (List.mem_filterMap.mpr ⟨task, List.mem_cons_self .., shown⟩)
    have fewer : (l.note place task).sources.revision + Task.edits history < 0x10000000000000000 := by omega
    refine ih step.2 (sound.note place task.keeps_any) (fun name mem => known name ?_) fewer
    · obtain ⟨later, mem, shown⟩ := List.mem_filterMap.mp mem
      exact List.mem_filterMap.mpr ⟨later, List.mem_cons_of_mem _ mem, shown⟩

/-- Renderers that have come from one renderer with a new cache answer as the ledger tells. -/
theorem answer_after (q : Equipment) (history : List Task) (k : Nat) (name : String) (params : Datum)
    (serves : place.Serves disk (· ∈ Task.rendered (history ++ [.render k name params])))
    (counted : Task.edits history < 0x10000000000000000) :
    (((q.team place disk).after history).render k name params).1 =
      ((start q).after place history).answerRender place k name params := by
  have sound : (start q).Sound fun _ => True := sound_start q trivial
  have known : ∀ other ∈ Task.rendered history, other ∈ Task.rendered (history ++ [.render k name params]) := by
    intro other mem
    obtain ⟨task, mem, shown⟩ := List.mem_filterMap.mp mem
    exact List.mem_filterMap.mpr ⟨task, List.mem_append_left _ mem, shown⟩
  have asked : name ∈ Task.rendered (history ++ [.render k name params]) :=
    List.mem_filterMap.mpr ⟨.render k name params, List.mem_append_right _ (List.mem_singleton_self _), rfl⟩
  have few : (start q).sources.revision + Task.edits history < 0x10000000000000000 := by
    show 0 + Task.edits history < _
    omega
  obtain ⟨described, counted'⟩ := (describes_start q serves).after serves sound known few
  have sound' : ((start q).after place history).Sound fun _ => True :=
    sound.after place fun task _ => task.keeps_any
  exact (described.render serves sound'.sources counted' k asked params).1

end Ledger

end Stencil
