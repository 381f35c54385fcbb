import Stencil.Proofs.Cache.Team

/-!
When it shows that a renderer was set up anew. A cache knows the sources of an artifact and not the tags that it was
compiled with, so a page is that of the renderer which compiled its template last, as that renderer then was, until a
source of the page changes.
-/
namespace Stencil

namespace Ledger

variable {l : Ledger} {place : CachePlace} {q : Equipment}

/-- What a page is compiled with: the equipment that its template was compiled with last if that is good, and the
renderer's own otherwise. -/
def maker (l : Ledger) (place : CachePlace) (q : Equipment) (name : String) : Equipment :=
  match l.good place name with
  | some made => made.maker
  | none => q

/-- What serves a renderer is what its maker would compile from the sources as they are. -/
theorem program_serving (sound : l.Sound Equipment.Steady) (steady : q.Steady) (name : String) :
    (l.serving place q name).map (·.entry.program) = (l.maker place q name).program l.sources name := by
  unfold Ledger.maker
  cases good : l.good place name with
  | some made =>
    have serving := serving_of_good good q
    obtain ⟨steady', kept, current⟩ := sound.serving steady serving
    rw [serving]
    exact (kept.still_good steady' sound.sources (MemorySources.current_iff.mp current)).symm
  | none =>
    rw [serving_of_none good, Equipment.program_eq_entry]
    cases q.entry l.sources name <;> rfl

end Ledger

namespace Team

/-- A renderer whose handlers do not pass over what they have read. All renderers of a team have the same functions. -/
def Fair (functions : Functions) (q : Equipment) : Prop := q.Steady ∧ q.functions = functions

theorem keeps_fair {functions : Functions} {task : Task}
    (fine : ∀ k set, task = .addTags k set → ∀ b ∈ set.bindings, b.Steady) : task.Keeps (Fair functions) := by
  cases task with
  | addTags k set =>
    rintro q ⟨steady, same⟩
    refine ⟨fun other mem => ?_, same⟩
    rcases List.mem_append.mp mem with mem | mem
    · exact steady other mem
    · rw [List.mem_singleton.mp mem]
      exact fine k set rfl
  | setStrip k strip => exact fun q fair => fair
  | edit e => trivial
  | render k name params => trivial
  | dup k => trivial

/-- A tag that writes this. -/
def saying (s : String) : Tag.TagSet := ⟨"parts", [⟨"part", .onOpen, Tag.script [.text s]⟩]⟩

theorem steady_saying (s : String) : ∀ b ∈ (saying s).bindings, b.Steady := by
  intro b mem
  rw [List.mem_singleton.mp mem]
  intro id
  have reading : (Tag.Phase.onOpen ≠ .onRender) = True := eq_true (by decide)
  dsimp only
  rw [reading]
  exact Tag.strict_script _ id

/-- A page is rendered, and a sibling of its renderer gets another tag and does not strip. -/
def parting : List Task :=
  [.edit (.add "page" " \x7bpart\x7d\x7b/part\x7d "), .addTags 0 (saying "one"), .render 0 "page" (.struct []), .dup 0,
    .addTags 1 (saying "two"), .setStrip 1 false]

-- With a new stamp for its source the page is compiled anew.
example :
    Equipment.pages [(((Equipment.standard.team (.folder "cache") (Disk.empty [])).after
      (parting ++ [.edit (.touch "page")])).answer (.render 1 "page" (.struct []))).1] = [" two "] := by
  decide +kernel

/-- A page is rendered, and then its renderer gets another tag of the same name. -/
def retagging : List Task :=
  [.edit (.add "page" "\x7bpart\x7d\x7b/part\x7d"), .addTags 0 (saying "one"), .render 0 "page" (.struct []),
    .addTags 0 (saying "two")]

end Team

end Stencil
