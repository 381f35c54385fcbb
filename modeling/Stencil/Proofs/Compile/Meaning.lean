import Stencil.Proofs.Compile.Legibility
import Stencil.Proofs.Tree.Composition

/-!
Compilation keeps the meaning of templates. What is compiled from legible sources in memory is a program, and the
program makes the page which the finished tree means: the artifact is made of the pieces that the tree writes, the
tree is legible, and the pieces of a legible tree are those of statements that do what the tree means.
-/
namespace Stencil

open Tag (standardTable)

namespace Tree

variable {t : Tree} {root : NodeId}

/-- Where nothing is put into the reader's language, nodes mean what they mean without languages. -/
theorem Legible.localizedNode_eq (legible : t.Legible (· ≠ "t")) (fs : Functions) (depth : Nat) :
    t.localizedNode fs depth = t.runNode fs depth := by
  have other : ∀ id, (t.own id).name ≠ some "t" := fun id named => by
    by_cases small : id.index < t.size
    · exact legible.names id small "t" named rfl
    · rw [own_of_size_le (Nat.le_of_not_lt small)] at named
      cases named
  induction depth with
  | zero => rfl
  | succ depth ih =>
    funext id
    rw [localizedNode, runNode, ih]
    exact if_neg fun named => other _ named.1

end Tree

namespace Compile

/-- What is compiled from sources that can be read is a program that does what the tree means, but for what was
stripped off the ends of the artifact. -/
theorem exists_program {W : Type} {c : Compiler W} (standard : c.table = standardTable) {holds : W → Prop}
    {tags : String → Prop} (sources : c.library.Supplies holds (Markup.Readable tags)) {w : W} (world : holds w)
    {name : String} {text? : Option String} (fine : ∀ text ∈ text?, Markup.Readable tags name text) {t : Template}
    {s s' : CompileState W} {artifact : String} {strip : Bool}
    (compiles : compiled c name text? (.initial w) = (.ok t, s))
    (generates : Compile.artifact c t.root strip s = (.ok artifact, s')) :
    s.tree.Legible tags ∧ t.root.index < s.tree.size ∧ ∃ p front back, Program.parse name artifact = .ok p ∧
      p.name = name ∧ Text.Ends strip front back ∧ ∀ fs, s.tree.localizedNode fs s.tree.size t.root =
        (do Run.write front; execAll fs p.body; Run.write back) := by
  obtain ⟨h, reads⟩ := compiled_reads standard compiles
  obtain ⟨legible, rooted⟩ := reads_legible standard sources world fine reads
  obtain ⟨ps, writes, rfl⟩ := artifact_writesInside standard legible.sound generates
  refine ⟨legible, rooted.old, legible.exists_program rooted.old ?_ writes name strip⟩
  rw [rooted.tag]
  decide

/-- A list that extends a base, defines one of its blocks elsewhere, and includes another template for its entries. -/
def listing : MemorySources :=
  .ofList [("base", "<h1>\x7bblock id=title\x7dBase\x7b/block\x7d</h1>\x7bblock id=body\x7d\x7b/block\x7d" ++
      "<p>\x7bputblock id=title\x7d</p>"),
    ("entry", "<?\x7b$x\x7d?>"),
    ("list", "\x7bextends name=base\x7d\x7bblockdef id=title\x7d\x7b$title\x7d\x7b/blockdef\x7d\x7bblock id=body\x7d" ++
      "\x7bif cond=$xs\x7d\x7bforeach list=$xs key=$k var=$x\x7d\x7b$k\x7d\x7binclude name=entry\x7d\x7b/foreach\x7d" ++
      "\x7belseif cond=$title\x7d\x7bfor var=$i from=-1 to=3 step=2\x7d\x7b$i\x7d,\x7b/for\x7d" ++
      "\x7belse\x7dnone\x7b/if\x7d\x7b/block\x7d")]

/-- The page that the finished tree of a template means. -/
def meant? (name : String) (w : MemorySources) (params : Value) : Option String :=
  match template ⟨Library.memory, standardTable⟩ name (.initial w) with
  | (.ok t, s) => (s.tree.page t.root name params []).toOption
  | (.error _, _) => none

example : meant? "list" listing (.map [("title", .str "Fruit"), ("xs", .list [.str "fig", .str "plum"])]) =
    some "<h1>Fruit</h1>0<?fig?>1<?plum?><p>Fruit</p>" := by decide +kernel

end Compile

end Stencil
