import Stencil.Proofs.Compile.Meaning

/-!
Texts for other languages. However a template puts text into the reader's language, in nested tags, conditions, loops,
included templates or blocks that are put more than once, the program calls `_` once for each time the tag is reached,
with all that its body writes, and prints the answer. It makes no difference whether the text was known when the
template was compiled. All buffers are closed again.
-/
namespace Stencil

open Tag (standardTable)

namespace Compile

/-- Whatever template is compiled from sources that can be read, with tags that put text into other languages anywhere
in it, the program makes the page, or stops with the error, that its tree means, up to what was stripped off the ends,
and makes the same calls. It does not stop with an error about buffers unless a function of the host does. -/
theorem artifact_means_its_localized_tree {W : Type} {c : Compiler W} (standard : c.table = standardTable)
    {holds : W → Prop} (sources : c.library.Supplies holds fun name text => Markup.isReadableSource name text = true)
    {w : W} (world : holds w) {name : String} {text? : Option String}
    (fine : ∀ text ∈ text?, Markup.isReadableSource name text = true) {t : Template} {s s' : CompileState W}
    {artifact : String} {strip : Bool} (compiles : compiled c name text? (.initial w) = (.ok t, s))
    (generates : Compile.artifact c t.root strip s = (.ok artifact, s')) :
    ∃ p front back, Program.parse name artifact = .ok p ∧ Text.Ends strip front back ∧ ∀ params fs,
      s.tree.localizedTrace t.root name params fs = (p.trace params fs).map (fun r => (front ++ r.1 ++ back, r.2)) ∧
      ∀ e, p.run params fs = .error e → e.Unbuffered ∨ ∃ function args, fs.call function args = .error e := by
  obtain ⟨legible, old, p, front, back, parsed, rfl, ends, same⟩ := exists_program standard
    (sources.mono fun _ _ => Markup.readable_of_isReadableSource) world
    (fun text given => Markup.readable_of_isReadableSource (fine text given)) compiles generates
  refine ⟨p, front, back, parsed, ends, fun params fs => ?_⟩
  have made := Program.run_between (legible.localizedNode_framed fs s.tree.size t.root old) (same fs) params
  constructor
  · unfold Program.trace Tree.localizedTrace
    rw [made]
    cases p.run params fs <;> rfl
  · intro e failed
    rw [failed] at made
    exact legible.localizedNode_unbuffered fs s.tree.size t.root old _ e made

/-- A greeting in all of these places: its title is put twice, and its words are nested in each other, in a condition,
in a loop, and in other templates. -/
def greeting : MemorySources :=
  .ofList [("base", "\x7bblock id=top\x7dHi\x7b/block\x7d<p>\x7bputblock id=top\x7d \x7bblock id=all\x7d\x7b/block\x7d "),
    ("top", "\x7bt\x7dIt's <? \x7bt\x7din\x7b/t\x7d?>\x7b/t\x7d"),
    ("each", "\x7bfor var=$x from=1 to=2\x7d\x7binclude name=one\x7d\x7b/for\x7d"),
    ("one", "\x7bif cond=$who\x7d\x7bt\x7d\x7b$who\x7d\x7b$x\x7d\x7b/t\x7d\x7belse\x7d\x7bt\x7d'\\\x7b/t\x7d\x7b/if\x7d"),
    ("greeting", "\x7bextends name=base\x7d\x7bblockdef id=top\x7d\x7binclude name=top\x7d\x7b/blockdef\x7d" ++
      "\x7bblock id=all\x7d\x7binclude name=each\x7d\x7b/block\x7d")]

/-- The greeting, by way of the artifact. -/
theorem greeting_means_its_tree :
    let c : Compiler MemorySources := ⟨Library.memory, standardTable⟩
    greeting.All (fun name text => Markup.isReadableSource name text = true) ∧ ∃ t s artifact s' p front back,
      compiled c "greeting" none (.initial greeting) = (.ok t, s) ∧
      Compile.artifact c t.root true s = (.ok artifact, s') ∧ Program.parse "greeting" artifact = .ok p ∧
      Text.Ends true front back ∧ ∀ params fs, s.tree.localizedTrace t.root "greeting" params fs =
        (p.trace params fs).map (fun r => (front ++ r.1 ++ back, r.2)) ∧
        ∀ e, p.run params fs = .error e → e.Unbuffered ∨ ∃ function args, fs.call function args = .error e := by
  intro c
  have readable : greeting.All fun name text => Markup.isReadableSource name text = true := by decide +kernel
  refine ⟨readable, ?_⟩
  have made : (compiled c "greeting" none (.initial greeting)).1.toOption.any (fun t =>
      (Compile.artifact c t.root true (compiled c "greeting" none (.initial greeting)).2).1.isOk) = true := by
    decide +kernel
  cases compiles : compiled c "greeting" none (.initial greeting) with
  | mk r s =>
    rw [compiles] at made
    cases r with
    | error e => cases made
    | ok t =>
      cases generates : Compile.artifact c t.root true s with
      | mk r' s' =>
        have written : (Compile.artifact c t.root true s).1.isOk = true := made
        rw [generates] at written
        cases r' with
        | error e => cases written
        | ok artifact =>
          obtain ⟨p, front, back, parsed, ends, same⟩ := artifact_means_its_localized_tree (c := c) rfl
            (Library.memory_supplies _) readable (fun _ mem => by cases mem) compiles generates
          exact ⟨t, s, artifact, s', p, front, back, rfl, generates, parsed, ends, same⟩

/-- The page of a template in memory, and the calls that are made for it. -/
def traced? (name : String) (w : MemorySources) (params : Value) (fs : Functions) :
    Option (String × List (String × List Value)) :=
  match template ⟨Library.memory, standardTable⟩ name (.initial w) with
  | (.ok t, s) => (s.tree.localizedTrace t.root name params fs).toOption
  | (.error _, _) => none

example : (traced? "greeting" greeting (.map [("who", .str "you")]) (Functions.localize ("[" ++ · ++ "]") [])).map (·.1) =
    some "[It's <? [in]?>]<p>[It's <? [in]?>] [you1][you2] " := by decide +kernel

end Compile

end Stencil
