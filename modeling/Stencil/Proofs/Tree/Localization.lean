import Stencil.Proofs.Run.Buffering
import Stencil.Proofs.Tree.Meaning

/-!
What a finished tree means in the reader's language. A node of `t` puts all that it writes into the reader's language
by one call of `_` and prints the answer; everything else means what it means without languages.
-/
namespace Stencil

open Artifact (Expr)

/-- Puts what a body writes into the reader's language: `_` is called once, with all of it, and the answer is
printed. -/
def localize (fs : Functions) (body : Run Unit) : Run Unit := do
  let text ← Run.gather body
  let v ← Run.call fs "_" [.str text]
  let printed ← Run.lift v.print
  Run.write printed

namespace Tree

/-- Runs a node, with others nested in it by `inner`. -/
def localizedContent (t : Tree) (fs : Functions) (inner : NodeId → Run Unit) (n : Node) : Run Unit :=
  if n.name = some "t" ∧ n.isRoot = false then localize fs (runElements inner n.body) else t.runContent fs inner n

/-- Runs what a handle stands for, with others nested in it at most `depth` deep. -/
def localizedNode (t : Tree) (fs : Functions) : (depth : Nat) → NodeId → Run Unit
  | 0, _ => pure ()
  | depth + 1, id => t.localizedContent fs (t.localizedNode fs depth) (t.content id)

/-- The page that a finished tree means and the calls that are made for it, the last one first. -/
def localizedTrace (t : Tree) (root : NodeId) (name : String) (params : Value) (fs : Functions) :
    Except TemplateError (String × List (String × List Value)) :=
  match t.localizedNode fs t.size root (RunState.initial params) with
  | .ok ((), s) => .ok (s.output, s.calls)
  | .error e => .error (.execution name e.message)

end Tree

/-! ### Texts in other languages -/

section Localize

variable {fs : Functions} {body : Run Unit}

/-- What is put into the reader's language has been written by the body from nothing, and takes one call more. -/
theorem localize_ok {s s' : RunState} (ran : localize fs body s = .ok ((), s')) :
    ∃ t v printed, body { s with output := "" } = .ok ((), t) ∧ fs.call "_" [.str t.output] = .ok v ∧
      v.print = .ok printed ∧ s'.output = s.output ++ printed ∧ s'.calls = ("_", [.str t.output]) :: t.calls := by
  obtain ⟨text, t₁, gathered, ran⟩ := Run.bind_ok.mp ran
  obtain ⟨v, t₂, called, ran⟩ := Run.bind_ok.mp ran
  obtain ⟨printed, t₃, prints, ran⟩ := Run.bind_ok.mp ran
  unfold Run.gather at gathered
  cases first : body { s with output := "" } with
  | error e =>
    rw [first] at gathered
    cases gathered
  | ok r =>
    obtain ⟨⟨⟩, t⟩ := r
    rw [first] at gathered
    cases gathered
    obtain ⟨⟨⟩, t₄, noted, called⟩ := Run.bind_ok.mp called
    cases noted
    unfold Run.lift at called prints
    cases answer : fs.call "_" [.str t.output] with
    | error e =>
      rw [answer] at called
      cases called
    | ok v =>
      rw [answer] at called
      cases called
      cases shown : v.print with
      | error e =>
        rw [shown] at prints
        cases prints
      | ok text =>
        rw [shown] at prints
        cases prints
        cases ran
        exact ⟨t, v, _, rfl, answer, shown, rfl, rfl⟩

theorem localize_steps {P : (α : Type) → Run α → Prop} (steps : Run.Steps fs P)
    (gathered : P String (Run.gather body)) : P Unit (localize fs body) :=
  steps.bind gathered fun text => steps.bind (steps.call "_" [.str text]) fun v => steps.print v

/-- Plain text is put into the reader's language at once. -/
theorem exec_localized (text : String) :
    exec fs (.echo (.call "_" [.lit (.str text)])) = localize fs (Run.write text) := by
  unfold localize
  rw [Run.gather_write, pure_bind]
  rfl

/-- All else is put into the reader's language when it has been written. -/
theorem exec_gathered (framed : Run.Framed body) :
    (do Run.openBuffer; body; exec fs (.echo (.call "_" [.call bufferCall []]))) = localize fs body := by
  have other : "_" ≠ bufferCall := by decide
  unfold localize
  rw [← Run.buffered_eq framed, exec, eval, if_neg other, evalAll, evalAll, eval, if_pos rfl]
  simp only [bind_assoc, pure_bind]

end Localize

end Stencil
