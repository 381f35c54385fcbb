import Stencil.Proofs.Artifact.PlainText
import Stencil.Proofs.Compile.Dependence
import Stencil.Proofs.Compile.Reading
import Stencil.Proofs.Markup.Literals

/-!
Sources without tags. Whatever tags there are, the texts of such a source go into its root one after the other, nothing
else is asked of the library, and the program of the artifact writes the source without its literal tags.
-/
namespace Stencil

open Tag (Table)
open Artifact (Segment Written runText?)

/-- The page of a source without tags. -/
def Markup.plainPage (strip : Bool) (source : String) : String :=
  if strip then String.ofList (Text.strip (withoutLiterals source).toList) else withoutLiterals source

theorem Program.execute_of_write {p : Program} {fs : Functions} {text : String}
    (writes : execAll fs p.body = Run.write text) (params : Value) : p.execute params fs = .ok text := by
  have whole : Run.write text (RunState.initial params) =
      .ok ((), { RunState.initial params with output := "" ++ text }) := rfl
  unfold Program.execute Program.trace Program.run
  rw [writes, whole, String.empty_append]
  rfl

namespace Compile

variable {W : Type} {table : Table} {load : Loader W} {s : CompileState W} {n : Node} {file : String}

/-! ### The tree -/

theorem attach_fresh (settled : n.standsFor = none) (e : Element) :
    attach ⟨s.tree.size⟩ e (withNode s n) = withNode s { n with body := n.body ++ [e] } := by
  have here : (withNode s n).tree.Settled ⟨s.tree.size⟩ := by
    unfold Tree.Settled
    rw [own_withNode]
    exact settled
  unfold attach
  rw [here.append_eq]
  exact update_withNode s n _

theorem put_texts {texts : List Markup.Token} (areTexts : ∀ t ∈ texts, t.kind = .text) (settled : n.standsFor = none)
    (below : List NodeId) :
    texts.foldlM (put table load file) (⟨s.tree.size⟩ :: below) (withNode s n) =
      (.ok (⟨s.tree.size⟩ :: below),
        withNode s { n with body := n.body ++ texts.map fun t => .text (String.ofList t.content) }) := by
  induction texts generalizing n with
  | nil =>
    rw [List.foldlM_nil, List.map_nil, List.append_nil]
    rfl
  | cons t texts ih =>
    rw [List.foldlM_cons, bind_apply]
    have first : put table load file (⟨s.tree.size⟩ :: below) t (withNode s n) =
        (.ok (⟨s.tree.size⟩ :: below), attach ⟨s.tree.size⟩ (.text (String.ofList t.content)) (withNode s n)) := by
      unfold put
      dsimp only
      rw [areTexts t List.mem_cons_self]
      rfl
    rw [first, attach_fresh settled]
    dsimp only
    rw [ih (n := { n with body := n.body ++ [.text (String.ofList t.content)] })
      (fun t mem => areTexts t (List.mem_cons_of_mem _ mem)) settled]
    simp only [List.map_cons, List.append_assoc, List.singleton_append]

def textRoot (name : String) (texts : List Markup.Token) : Node :=
  { Node.fresh name 1 with isRoot := true, body := texts.map fun t => .text (String.ofList t.content) }

section Source

variable {name identity source : String} {stamp : Option Stamp} {texts : List Markup.Token}
  (scanned : Markup.scan name source = .ok texts) (areTexts : ∀ t ∈ texts, t.kind = .text)

include scanned areTexts

theorem readSource_of_texts : readSource table load name identity stamp source s = (.ok ⟨s.tree.size⟩,
    { withNode s (textRoot name texts) with sources := Keyed.put identity stamp s.sources }) := by
  let s₁ : CompileState W :=
    { s with sources := Keyed.put identity stamp s.sources, frames := ⟨name, identity, ⟨s.tree.size⟩⟩ :: s.frames }
  have filled : texts.foldlM (put table load name) [⟨s.tree.size⟩]
      (withNode s₁ { Node.fresh name 1 with isRoot := true }) =
        (.ok [⟨s.tree.size⟩], withNode s₁ (textRoot name texts)) :=
    put_texts (s := s₁) (n := { Node.fresh name 1 with isRoot := true }) areTexts rfl []
  have closed : checkClosed [⟨s.tree.size⟩] (withNode s₁ (textRoot name texts)) =
      (.ok (), withNode s₁ (textRoot name texts)) := by
    have own : (withNode s₁ (textRoot name texts)).tree.own ⟨s.tree.size⟩ = textRoot name texts := own_withNode s₁ _
    rw [checkClosed, bind_apply, getTree_apply]
    dsimp only
    rw [own]
    rfl
  have built : build table load name ⟨s.tree.size⟩ texts (withNode s₁ { Node.fresh name 1 with isRoot := true }) =
      (.ok (), withNode s₁ (textRoot name texts)) := by
    unfold build
    rw [bind_apply, filled]
    exact closed
  rw [readSource_of_scan scanned]
  exact within_of_ok (s := { withNode s { Node.fresh name 1 with isRoot := true } with
    sources := Keyed.put identity stamp s.sources }) built

variable {c : Compiler W} {w w₁ w₂ w₃ : W}

/-- A template without tags is made from its own source alone. -/
theorem template_of_texts (located : c.library.locate name w = (.ok identity, w₁))
    (stamped : c.library.modified identity w₁ = (stamp, w₂)) (read : c.library.read name w₂ = (.ok source, w₃)) :
    ∃ s, template c name (.initial w) = (.ok ⟨name, ⟨0⟩, [⟨identity, stamp⟩]⟩, s) ∧ s.world = w₃ ∧
      s.tree = (Tree.empty.push (textRoot name texts)).2 := by
  have loaded : Compile.load c name none (.initial w) = (.ok ⟨0⟩,
      { withNode (.initial w₃) (textRoot name texts) with
        sources := [(identity, stamp)]
        finished := [(identity, ⟨0⟩)] }) := by
    unfold Compile.load
    rw [loadWithin_succ]
    have world : (CompileState.initial w).world = w := rfl
    rw [world, located]
    dsimp only
    rw [stamped]
    dsimp only
    rw [read]
    dsimp only
    rw [readSource_of_texts scanned areTexts]
    rfl
  unfold template
  rw [bind_apply, loaded]
  exact ⟨_, rfl, rfl, rfl⟩

end Source

/-! ### The artifact -/

theorem elements_texts (inner : NodeId → Emit W Unit) (texts : List String) (e : EmitState) (s : CompileState W) :
    Emit.elements inner (texts.map .text) e s =
      (.ok ((), { e with written := Written.add (texts.flatMap Segment.ofText) e.written }), s) := by
  induction texts generalizing e with
  | nil => rfl
  | cons text texts ih =>
    rw [List.map_cons, Emit.elements, Emit.bind_apply]
    have first : (Emit.addText text : Emit W Unit) e s = (.ok ((), { e with written := e.written.addText text.toList }), s) :=
      rfl
    rw [first]
    dsimp only
    rw [ih, List.flatMap_cons, Written.add_append, Written.add_ofText]

theorem render_root {id : NodeId} (settled : s.tree.Settled id) (root : (s.tree.own id).isRoot = true) (e : EmitState) :
    Emit.render table load id e s = (.ok (id, e), s) := by
  rw [Emit.render_apply, settled.target_eq, if_pos (.inl root)]

theorem artifact_of_ok {c : Compiler W} {root : NodeId} {e : EmitState} {s' : CompileState W}
    (run : Emit.nodeWithin c.table (Compile.load c) (s.tree.size + 1 + Emit.growth) [] root ⟨[], []⟩ s =
      (.ok ((), e), s'))
    (strip : Bool) : artifact c root strip s = (.ok (e.written.finish strip), s') := by
  have run' : (Emit.nodeWithin c.table (Compile.load c) (s.tree.size + 1 + Emit.growth) [] root).run ⟨[], []⟩ s =
      (.ok ((), e), s') := by
    rw [StateT.run]
    exact run
  unfold artifact
  rw [bind_of_ok (getTree_apply s), bind_of_ok run']
  rfl

def textPieces (texts : List Markup.Token) : List Segment :=
  texts.flatMap fun t => Segment.ofText (String.ofList t.content)

theorem artifact_of_texts {c : Compiler W} {name : String} {texts : List Markup.Token}
    (tree : s.tree = (Tree.empty.push (textRoot name texts)).2) (strip : Bool) :
    artifact c ⟨0⟩ strip s = (.ok ((Written.ofPieces (textPieces texts)).finish strip), s) := by
  have own : s.tree.own ⟨0⟩ = textRoot name texts := by
    rw [tree]
    rfl
  have settled : s.tree.Settled ⟨0⟩ := by
    unfold Tree.Settled
    rw [own]
    rfl
  have written : ∀ depth, Emit.nodeWithin c.table (load c) (depth + 1) [] ⟨0⟩ ⟨[], []⟩ s =
      (.ok ((), ⟨[], Written.ofPieces (textPieces texts)⟩), s) := by
    intro depth
    have rendered : Emit.render c.table (load c) ⟨0⟩ ⟨[], []⟩ s = _ := render_root settled (by rw [own]; rfl) ⟨[], []⟩
    have none : ∀ e : EmitState, (Emit.addCode "" : Emit W Unit) e s = (.ok ((), e), s) := fun e => rfl
    have elements : (textRoot name texts).body = (texts.map fun t => String.ofList t.content).map .text := by
      rw [List.map_map]
      rfl
    have opening : (textRoot name texts).opening = "" := rfl
    have closing : (textRoot name texts).closing = "" := rfl
    rw [Emit.nodeWithin_of_not_mem rendered List.not_mem_nil, own, opening, closing, Emit.bind_apply, none]
    dsimp only
    rw [Emit.bind_apply, elements, elements_texts]
    dsimp only
    rw [none, List.flatMap_map]
    rfl
  have run : Emit.nodeWithin c.table (load c) (s.tree.size + 1 + Emit.growth) [] ⟨0⟩ ⟨[], []⟩ s =
      (.ok ((), ⟨[], Written.ofPieces (textPieces texts)⟩), s) := by
    rw [Nat.add_right_comm]
    exact written _
  exact artifact_of_ok run strip

theorem runText?_textPieces (texts : List Markup.Token) :
    runText? (textPieces texts) = some (texts.flatMap Markup.Token.content) := by
  induction texts with
  | nil => rfl
  | cons t texts ih =>
    have first : runText? (Segment.ofText (String.ofList t.content)) = some t.content := by
      unfold Segment.ofText
      by_cases empty : (String.ofList t.content).isEmpty = true
      · have none : t.content = [] := by simpa using empty
        rw [if_pos empty, none]
        rfl
      · rw [if_neg empty, String.toList_ofList]
        simp [runText?]
    unfold textPieces at ih ⊢
    rw [List.flatMap_cons, List.flatMap_cons]
    exact Artifact.runText?_append first ih

end Compile

/-- A source without tags is compiled wherever it is found and whatever tags there are, it alone is recorded, and the
program makes of all parameters the page of the source. -/
theorem Renderer.compile_tagless {W : Type} (r : Renderer W) {name identity source : String} {stamp : Option Stamp}
    {w w₁ w₂ w₃ : W} (located : r.library.locate name w = (.ok identity, w₁))
    (stamped : r.library.modified identity w₁ = (stamp, w₂)) (read : r.library.read name w₂ = (.ok source, w₃))
    (tagless : Markup.Tagless name source) :
    ∃ artifact p, compileWith (r.compileSteps name) w = (.ok ⟨⟨name, ⟨0⟩, [⟨identity, stamp⟩]⟩, artifact⟩, w₃) ∧
      Program.parse name artifact = .ok p ∧
      ∀ params fs, p.execute params fs = .ok (Markup.plainPage r.strip source) := by
  obtain ⟨texts, scanned, areTexts⟩ := tagless
  obtain ⟨s, run, rfl, tree⟩ := Compile.template_of_texts (c := r.compiler) scanned areTexts located stamped read
  have artifact : Compile.artifact r.compiler ⟨0⟩ r.strip s = _ := Compile.artifact_of_texts tree r.strip
  obtain ⟨stmts, parsed, writes⟩ := Artifact.exists_parse_of_texts (Compile.runText?_textPieces texts) r.strip
  have contents := Markup.contents_of_scan scanned areTexts
  refine ⟨(Written.ofPieces (Compile.textPieces texts)).finish r.strip, ⟨name, stmts⟩, ?_, ?_,
    fun params fs => Program.execute_of_write ((writes fs).trans ?_) params⟩
  · rw [compileSteps_of_ok run]
    dsimp only
    rw [artifact]
    rfl
  · unfold Program.parse
    rw [parsed]
  · unfold Markup.plainPage
    rw [← contents, String.toList_ofList]
    cases r.strip <;> rfl

end Stencil
