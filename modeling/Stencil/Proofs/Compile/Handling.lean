import Stencil.Proofs.Tree.Redirection
import Stencil.Proofs.Tree.Writing

/-!
What handlers do when they are carried out, one step after the other.
-/
namespace Stencil

namespace Compile

variable {W : Type} {α β : Type} {load : Loader W} {s s' : CompileState W} {id : NodeId}

theorem carryOut_bind (h : Handler α) (f : α → Handler β) (s : CompileState W) :
    carryOut load (h >>= f) s = (carryOut load h >>= fun a => carryOut load (f a)) s := by
  show carryOut load (h.bind f) s = _
  rw [bind_apply]
  induction h generalizing s with
  | done a => rfl
  | fail e => rfl
  | onTree change next ih => exact ih (change s.tree) { s with tree := change s.tree }
  | depth next ih => exact ih s.frames.length s
  | lookup block next ih => exact ih (Keyed.get? block s.blocks) s
  | define block node next ih => exact ih _
  | defer node next ih => exact ih _
  | load name via next ih =>
    exact ih (load name via s).1 (load name via s).2
  | replaceRoot node next ih => exact ih _

/-- A handler that succeeds is made of two that do. -/
theorem carryOut_bind_ok {h : Handler α} {f : α → Handler β} {y : β}
    (run : carryOut load (h >>= f) s = (.ok y, s')) :
    ∃ x t, carryOut load h s = (.ok x, t) ∧ carryOut load (f x) t = (.ok y, s') := by
  rw [carryOut_bind] at run
  exact bind_ok run

/-- A step that cannot fail is done first. -/
theorem carryOut_after {h : Handler α} {f : α → Handler β} {a : α} {t : CompileState W}
    (first : carryOut load h s = (.ok a, t)) : carryOut load (h >>= f) s = carryOut load (f a) t := by
  rw [carryOut_bind, bind_apply, first]

theorem carryOut_getTree : carryOut load Handler.getTree s = (.ok s.tree, s) := rfl

theorem carryOut_own : carryOut load (Handler.own id) s = (.ok (s.tree.own id), s) := rfl

theorem carryOut_update (f : Node → Node) :
    carryOut load (Handler.update id f) s = (.ok (), { s with tree := s.tree.update id f }) := rfl

theorem carryOut_getDepth : carryOut load Handler.getDepth s = (.ok s.frames.length, s) := rfl

theorem carryOut_block? (name : String) :
    carryOut load (Handler.block? name) s = (.ok (Keyed.get? name s.blocks), s) := rfl

theorem carryOut_copy : carryOut load (Handler.copy id) s = (.ok ⟨s.tree.size⟩, { s with tree := (s.tree.copy id).2 }) :=
  rfl

/-- A demand that is met sets the parameters as they are checked. -/
theorem demand_ok {allowOthers : Bool} {specs : List Tag.ParamSpec}
    (run : carryOut load (Handler.demand id allowOthers specs) s = (.ok (), s')) :
    ∃ params, Tag.checkParams (s.tree.site id) allowOthers specs (s.tree.own id).params = .ok params ∧
      s' = { s with tree := s.tree.update id fun n => { n with params := params } } := by
  unfold Handler.demand at run
  rw [carryOut_after carryOut_getTree] at run
  obtain ⟨params, t, checked, updated⟩ := carryOut_bind_ok run
  cases result : Tag.checkParams (s.tree.site id) allowOthers specs (s.tree.own id).params with
  | error e =>
    rw [result] at checked
    cases checked
  | ok found =>
    rw [result] at checked
    cases checked
    cases updated
    exact ⟨_, rfl, rfl⟩

end Compile

end Stencil
