import Stencil.Proofs.Cache.Team
import Stencil.Proofs.Compile.Texts
import Stencil.Proofs.Disk.Trees

/-!
Pages of sources without tags. Whatever library a new renderer reads such a source from, and whatever was rendered,
edited and added to the tags before, the page is the source without its literal tags.
-/
namespace Stencil

/-- A library finds a source in this world, and leaves the world alone. -/
structure Library.Finds {W : Type} (library : Library W) (w : W) (name identity : String) (stamp : Option Stamp)
    (source : String) : Prop where
  locate : library.locate name w = (.ok identity, w)
  modified : library.modified identity w = (stamp, w)
  read : library.read name w = (.ok source, w)

theorem Library.Holds.finds {W : Type} {library : Library W} {w : W} {sources : Sources} {name source : String}
    {stamp : Stamp} (holds : library.Holds w sources) (found : Keyed.get? name sources = some (source, stamp)) :
    library.Finds w name name (some stamp) source where
  locate := by
    have has : Keyed.has name sources = true := by simp [Keyed.has, found]
    rw [holds.locate, if_pos has]
  modified := by
    rw [holds.modified, found]
    rfl
  read := by rw [holds.read, found]

/-- A cache that holds nothing for a template has no fresh artifact, whatever library it asks. -/
theorem CachePlace.isFresh_of_none {place : CachePlace} {names : String → Prop} {n : Nat}
    {held : String → Option CacheEntry} {w : World} {name : String} (holds : place.Holds names n held w)
    (known : names name) (none : held name = none) (library : Library World) :
    (place.cache n).isFresh library name w = (false, w) := by
  cases place with
  | transient => rfl
  | memory => exact Cache.memory_isFresh_none ((holds.holds name known).trans none)
  | folder dir =>
    have here := holds.holds name known
    rw [none] at here
    exact Cache.folder_isFresh_none here.1

namespace Equipment

variable {q : Equipment} {sources : MemorySources} {name source : String} {stamp : Stamp} {entry : CacheEntry}

/-- A renderer of any library, with a cache of this place on a new shelf. -/
def openNew (q : Equipment) (library : Library World) (place : CachePlace) (w : World) : Renderer World × World :=
  let (shelf, w) := w.addShelf
  ({ q.renderer (place.cache shelf) with library := library }, w)

/-- A new renderer makes the page of a source without tags. -/
theorem first_page_of_tagless (q : Equipment) {library : Library World} {place : CachePlace} {w : World}
    {identity : String} {stamp : Option Stamp} (serves : place.Serves w.disk (· = name))
    (fits : CacheInfo.Fits [⟨identity, stamp⟩])
    (finds : library.Finds (q.openNew library place w).2 name identity stamp source)
    (tagless : Markup.Tagless name source) {params : Datum} {v : Value} (value : params.toValue = .ok v) :
    ((q.openNew library place w).1.render name params ⟨(q.openNew library place w).2, 0⟩).1 =
      .ok (Markup.plainPage q.strip source) := by
  let r := (q.openNew library place w).1
  let w₀ := (q.openNew library place w).2
  have holds : place.Holds (· = name) w.shelves.length (fun _ => none) w₀ := CachePlace.holds_new w serves
  have holding := CachePlace.holding serves w.shelves.length
  have stale : r.isFresh name ⟨w₀, 0⟩ = (.ok false, ⟨w₀, 0⟩) :=
    Renderer.isFresh_apply (CachePlace.isFresh_of_none holds rfl rfl library)
  obtain ⟨artifact, p, run, parsed, executes⟩ := r.compile_tagless finds.locate finds.modified finds.read tagless
  have compiled : r.compile name ⟨w₀, 0⟩ = (.ok _, ⟨w₀, 1⟩) := Renderer.compile_of_ok run
  obtain ⟨w₁, stored, holds₁, -⟩ := holding.stored holds rfl fits (CacheEntry.make_of_ok parsed _)
  have ensured : r.ensure name ⟨w₀, 0⟩ = (.ok (), ⟨w₁, 1⟩) :=
    (Renderer.ensure_stale stale).trans (Renderer.compileAndKeep_of_ok compiled stored)
  obtain ⟨w₂, loaded, -⟩ := holding.loaded holds₁ rfl (Function.update_self ..)
  show (r.render name params ⟨w₀, 0⟩).1 = _
  unfold Renderer.render
  rw [value]
  dsimp only
  rw [Renderer.renderValue_of_load ensured loaded v]
  exact executes v r.functions

theorem entry_of_tagless (q : Equipment) (sound : sources.Sound)
    (found : Keyed.get? name sources.entries = some (source, stamp)) (tagless : Markup.Tagless name source) :
    ∃ entry, q.entry sources name = .ok entry ∧
      ∀ params fs, entry.program.execute params fs = .ok (Markup.plainPage q.strip source) := by
  let r := q.renderer (Cache.transient (World.shelfPart 0))
  let alone : World := { World.ofDisk (Disk.empty []) with sources := sources }
  have finds : r.library.Finds alone name name (some stamp) source :=
    (Library.memory_holds (w := alone) sound.settled).finds found
  obtain ⟨artifact, p, run, parsed, executes⟩ := r.compile_tagless finds.locate finds.modified finds.read tagless
  have compiled : q.compiled sources name = _ := congrArg Prod.fst run
  refine ⟨⟨artifact, p, [⟨name, some stamp⟩]⟩, ?_, executes⟩
  unfold Equipment.entry
  rw [compiled]
  exact CacheEntry.make_of_ok parsed _

/-- What was kept of a template was made from its source as it is, if all that was recorded has its stamp. -/
theorem Kept.own_source (kept : q.Kept sources name entry) (current : sources.current entry.dependencies = true) :
    ∃ before source stamp, before.Sound ∧ q.entry before name = .ok entry ∧
      Keyed.get? name before.entries = some (source, stamp) ∧
      Keyed.get? name sources.entries = some (source, stamp) := by
  obtain ⟨before, c, sound, later, run, made⟩ := kept
  obtain ⟨-, listed, -⟩ := CacheEntry.make_ok made
  let then' : World := { World.ofDisk (Disk.empty []) with sources := before }
  obtain ⟨s, -, templated, -⟩ := Renderer.compileSteps_parts (w := then') (Prod.ext run rfl)
  obtain ⟨d, mem, rfl⟩ := Compile.own_source_listed (Library.memory_holds (w := then') sound.settled) templated
  obtain ⟨source, stamp, found, recorded⟩ := compiled_stamps sound run d mem
  rw [listed] at current
  obtain ⟨stamp', recorded', unchanged⟩ := MemorySources.current_iff.mp current d mem
  cases recorded.symm.trans recorded'
  refine ⟨before, source, stamp, sound, ?_, found, later.same_of_stamp sound found unchanged⟩
  unfold Equipment.entry
  rw [run]
  exact made

end Equipment

/-- What serves a renderer makes the page of a source without tags, stripped as its maker was set. -/
theorem Ledger.Sound.serving_tagless {l : Ledger} {kind : Equipment → Prop} {q : Equipment} {name source : String}
    {stamp : Stamp} (sound : l.Sound kind) (fine : kind q) (place : CachePlace)
    (found : Keyed.get? name l.sources.entries = some (source, stamp)) (tagless : Markup.Tagless name source) :
    ∃ made, l.serving place q name = .ok made ∧ kind made.maker ∧
      ∀ params fs, made.entry.program.execute params fs = .ok (Markup.plainPage made.maker.strip source) := by
  have served : ∃ made, l.serving place q name = .ok made := by
    cases good : l.good place name with
    | some made => exact ⟨made, Ledger.serving_of_good good q⟩
    | none =>
      obtain ⟨entry, made, -⟩ := q.entry_of_tagless sound.sources found tagless
      rw [Ledger.serving_of_none good, made]
      exact ⟨⟨q, entry⟩, rfl⟩
  obtain ⟨made, serving⟩ := served
  -- it may have been compiled long ago, with other tags, but from the source as it is now
  obtain ⟨fine', kept, current⟩ := sound.serving fine serving
  obtain ⟨before, source', stamp', sound', compiled, was, is⟩ := kept.own_source current
  cases is.symm.trans found
  obtain ⟨entry, compiled', executes⟩ := made.maker.entry_of_tagless sound' was tagless
  cases compiled'.symm.trans compiled
  exact ⟨made, serving, fine', executes⟩

namespace Team

theorem keeps_strip {strip : Bool} {task : Task} (kept : ∀ k other, task = .setStrip k other → other = strip) :
    task.Keeps fun q => q.strip = strip := by
  cases task with
  | addTags k set => exact fun q same => same
  | setStrip k other => exact fun _ _ => kept k other rfl
  | edit e => trivial
  | render k name params => trivial
  | dup k => trivial

/-- The page of a source without tags is the source without its literal tags, stripped if the renderer strips, for all
parameters: the first page of a new renderer of any library, and any page after any history in which the strip setting
stays as it is, whatever was cached and whatever tags there are. -/
theorem tagless_text_survives {name source : String} (tagless : Markup.Tagless name source) {params : Datum} {v : Value}
    (value : params.toValue = .ok v) (q : Equipment) (place : CachePlace) :
    (∀ library w identity stamp, place.Serves w.disk (· = name) → CacheInfo.Fits [⟨identity, stamp⟩] →
      let (r, w) := q.openNew library place w
      library.Finds w name identity stamp source →
        (r.render name params ⟨w, 0⟩).1 = .ok (Markup.plainPage q.strip source)) ∧
    ∀ disk history k, (∀ j strip, Task.setStrip j strip ∈ history → strip = q.strip) →
      place.Serves disk (· ∈ Task.rendered (history ++ [.render k name params])) →
      Task.edits history < 0x10000000000000000 →
      let l := (Ledger.start q).after place history
      ∀ own stamp, l.equipment[k]? = some own → Keyed.get? name l.sources.entries = some (source, stamp) →
        (((q.team place disk).after history).answer (.render k name params)).1 =
          .page (.ok (Markup.plainPage q.strip source)) := by
  constructor
  · intro library w identity stamp serves fits finds
    exact q.first_page_of_tagless serves fits finds tagless value
  · intro disk history k unchanged serves counted l own stamp member found
    have start : (Ledger.start q).Sound fun q' => q'.strip = q.strip := Ledger.sound_start q rfl
    have sound : l.Sound fun q' => q'.strip = q.strip :=
      start.after place fun task mem => keeps_strip fun j strip same => unchanged j strip (same ▸ mem)
    have strips := sound.equipment own (List.mem_of_getElem? member)
    obtain ⟨made, serving, same, executes⟩ := sound.serving_tagless strips place found tagless
    have answered := Ledger.answer_after q history k name params serves counted
    unfold Ledger.answerRender at answered
    rw [member] at answered
    refine answered.trans (congrArg Answer.page ?_)
    unfold Ledger.page
    rw [value, ← same]
    show (l.serving place own name).bind _ = _
    rw [serving]
    exact executes v own.functions

/-! #### An opener put together -/

/-- Text in which a literal tag stands between the characters of an opener, with blanks at its ends. -/
def partedOpener : String := " <\x7bliteral\x7d?\x7bif\x7d\x7b/literal\x7d ?><?\n"

def partedFile : Disk := (Disk.empty []).add ["page"] (.file (.text partedOpener) 1)

theorem rooted_partedFile : partedFile.Rooted := Disk.rooted_of_entries (by decide)

/-- A page with a tag is rendered and then edited to have none, and a second renderer gets other tags. -/
def untagging : List Task :=
  [.edit (.add "page" "\x7bif cond=1\x7done\x7b/if\x7d"), .render 0 "page" (.struct []), .dup 0, .setStrip 1 true,
    .addTags 1 ⟨"none", []⟩, .edit (.add "page" partedOpener), .render 0 "page" (.struct [])]

theorem parted_opener_survives :
    let files := (LibraryPlace.folder ⟨[], ""⟩).library
    let opened := Equipment.standard.openNew files (.folder "cache") (World.ofDisk partedFile)
    let asked := ((Equipment.standard.team (.folder "cache") (Disk.empty [])).after untagging).answer
      (.render 1 "page" (.struct []))
    Markup.Tagless "page" partedOpener ∧
      (opened.1.render "page" (.struct []) ⟨opened.2, 0⟩).1 = .ok "<?\x7bif\x7d ?><?" ∧
      asked.1 = .page (.ok "<?\x7bif\x7d ?><?") := by
  intro files opened asked
  have tagless : Markup.Tagless "page" partedOpener :=
    ⟨[⟨.text, " <".toList, 1⟩, ⟨.text, "?\x7bif\x7d".toList, 1⟩, ⟨.text, " ?><?\n".toList, 1⟩], by decide +kernel,
      by decide⟩
  have page : Markup.plainPage true partedOpener = "<?\x7bif\x7d ?><?" := by decide +kernel
  have fits : FolderCache.Fits ⟨"cache"⟩ "page" := by
    unfold FolderCache.Fits
    decide +kernel
  have fresh : FolderCache.Fresh ⟨"cache"⟩ partedFile :=
    ⟨rooted_partedFile, (partedFile.makeWalk [] ["cache"]).toOption.getD partedFile, ["cache"], rfl, rfl, rfl,
      fun part => rfl⟩
  have read : FolderSources.read ⟨[], ""⟩ "page" opened.2.disk = .ok partedOpener := by decide +kernel
  have finds : files.Finds opened.2 "page" "/page" (some ⟨1⟩) partedOpener :=
    ⟨by rfl, by rfl, congrArg (·, opened.2) read⟩
  have low : CacheInfo.Fits [⟨"/page", some ⟨1⟩⟩] := by
    intro d mem stamp recorded
    cases List.mem_singleton.mp mem
    cases recorded
    decide
  have serves : (CachePlace.folder "cache").Serves (Disk.empty [])
      (· ∈ Task.rendered (untagging ++ [.render 1 "page" (.struct [])])) := by
    refine ⟨Equipment.fresh_cache, fun name named => ?_⟩
    have only : name = "page" := by
      have named' : name ∈ ["page", "page", "page"] := named
      simpa using named'
    exact only ▸ fits
  have kept : ∀ j strip, Task.setStrip j strip ∈ untagging → strip = Equipment.standard.strip := by
    intro j strip mem
    simp only [untagging, List.mem_cons, List.not_mem_nil, or_false, Task.setStrip.injEq, reduceCtorEq, false_or] at mem
    exact mem.2
  have member : ((Ledger.start Equipment.standard).after (.folder "cache") untagging).equipment[1]? =
      some { Equipment.standard with tagSets := [Tag.standard, ⟨"none", []⟩] } := by
    rw [Ledger.equipment_after]
    rfl
  have value : (Datum.struct []).toValue = .ok (.map []) := rfl
  obtain ⟨first, later⟩ := tagless_text_survives tagless value Equipment.standard (.folder "cache")
  rw [← page]
  refine ⟨tagless, ?_, ?_⟩
  · exact first files (World.ofDisk partedFile) "/page" (some ⟨1⟩) ⟨fresh, fun name named => named ▸ fits⟩
      low finds
  · exact later (Disk.empty []) untagging 1 kept serves (by decide) _ ⟨2⟩ member (by decide +kernel)

end Team

end Stencil
