import Stencil.Proofs.Markup.Places
import Stencil.Proofs.Tree.Redirection

/-!
Where the nodes of a tree come from. A node with a name comes from a tag that begins on its line, a root from the first
line of its template; and nothing else has nodes in it.
-/
namespace Stencil

namespace Node

/-- A tag or a root. -/
def Firm (n : Node) : Prop := n.name ≠ none ∨ n.isRoot = true

/-- What tells where a node comes from and leads to. -/
def mark (n : Node) : Option String × Bool × String × Nat × Option NodeId :=
  (n.name, n.isRoot, n.file, n.line, n.standsFor)

structure Placed (texts : Texts) (n : Node) : Prop where
  tag : ∀ tag, n.name = some tag → ∃ text, texts n.file = some text ∧ Markup.OpensAt text.toList n.line tag
  root : n.isRoot = true → n.name = none ∧ n.line = 1 ∧ (texts n.file).isSome = true
  leaf : ¬ n.Firm → ∀ child, .node child ∉ n.body

variable {texts more : Texts} {n n' : Node}

theorem Placed.mono (placed : n.Placed texts) (sub : ∀ file text, texts file = some text → more file = some text) :
    n.Placed more := by
  refine ⟨fun tag name => ?_, fun root => ?_, placed.leaf⟩
  · obtain ⟨text, read, opens⟩ := placed.tag tag name
    exact ⟨text, sub _ _ read, opens⟩
  · obtain ⟨unnamed, first, read⟩ := placed.root root
    obtain ⟨text, read⟩ := Option.isSome_iff_exists.mp read
    exact ⟨unnamed, first, by rw [sub _ _ read]; rfl⟩

/-- A node that has come from the same place, and has nodes in it only if it may. -/
theorem Placed.alike (placed : n.Placed texts) (name : n'.name = n.name) (root : n'.isRoot = n.isRoot)
    (file : n'.file = n.file) (line : n'.line = n.line) (body : n.Firm ∨ n'.body = n.body) : n'.Placed texts := by
  have firm : n'.Firm ↔ n.Firm := by
    unfold Firm
    rw [name, root]
  constructor
  case tag =>
    rw [name, file, line]
    exact placed.tag
  case root =>
    rw [name, root, file, line]
    exact placed.root
  case leaf =>
    intro loose
    rcases body with held | same
    · exact absurd (firm.mpr held) loose
    · rw [same]
      exact placed.leaf fun held => loose (firm.mpr held)

theorem placed_of_loose (name : n.name = none) (root : n.isRoot = false) (body : n.body = []) : n.Placed texts := by
  refine ⟨fun tag named => ?_, fun is => ?_, fun _ child => ?_⟩
  · cases name.symm.trans named
  · cases root.symm.trans is
  · rw [body]
    exact List.not_mem_nil

end Node

namespace Tree

variable {texts more : Texts} {t t' t'' : Tree} {id other : NodeId} {n : Node} {f : Node → Node}

def Firm (t : Tree) (id : NodeId) : Prop := (t.own id).Firm

/-- All nodes are where they come from, and redirections lead to tags and roots. -/
structure Placed (texts : Texts) (t : Tree) : Prop where
  nodes : ∀ id, (t.own id).Placed texts
  links : ∀ id next, (t.own id).standsFor = some next → t.Firm next

/-- Tags and roots stay what they are. -/
def Retains (t t' : Tree) : Prop :=
  ∀ id, t.Firm id → (t'.own id).name = (t.own id).name ∧ (t'.own id).isRoot = (t.own id).isRoot

theorem Retains.refl (t : Tree) : t.Retains t := fun _ _ => ⟨rfl, rfl⟩

theorem Retains.firm (retains : t.Retains t') (firm : t.Firm id) : t'.Firm id := by
  obtain ⟨name, root⟩ := retains id firm
  unfold Firm Node.Firm
  rw [name, root]
  exact firm

theorem Retains.trans (first : t.Retains t') (second : t'.Retains t'') : t.Retains t'' := by
  intro id firm
  obtain ⟨name, root⟩ := first id firm
  obtain ⟨name', root'⟩ := second id (first.firm firm)
  exact ⟨name'.trans name, root'.trans root⟩

theorem lt_size_of_firm (firm : t.Firm id) : id.index < t.size := by
  rcases Nat.lt_or_ge id.index t.size with small | large
  · exact small
  · unfold Firm at firm
    rw [own_of_size_le large] at firm
    rcases firm with named | root
    · exact absurd rfl named
    · cases root

theorem Retains.push (t : Tree) (n : Node) : t.Retains (t.push n).2 := by
  intro id firm
  rw [own_push, if_neg (Nat.ne_of_lt (lt_size_of_firm firm))]
  exact ⟨rfl, rfl⟩

theorem Retains.update (t : Tree) (id : NodeId) (marks : ∀ n, (f n).mark = n.mark) : t.Retains (t.update id f) := by
  intro other firm
  rw [own_update]
  split
  · rename_i here
    obtain ⟨name, rest⟩ := Prod.mk.inj (marks (t.own id))
    rw [here.1]
    exact ⟨name, (Prod.mk.inj rest).1⟩
  · exact ⟨rfl, rfl⟩

theorem Retains.append (t : Tree) (id : NodeId) (e : Element) : t.Retains (t.append id e) := by
  refine .update t (t.target id) ?_
  exact fun _ => rfl

theorem Retains.redirect (t : Tree) (source destination : NodeId) : t.Retains (t.redirect source destination) := by
  intro id firm
  obtain ⟨next, same, -⟩ := t.own_redirect source destination id
  rw [same]
  exact ⟨rfl, rfl⟩

namespace Placed

theorem mono (placed : t.Placed texts) (sub : ∀ file text, texts file = some text → more file = some text) :
    t.Placed more :=
  ⟨fun id => (placed.nodes id).mono sub, placed.links⟩

theorem empty : Tree.empty.Placed texts := by
  refine ⟨fun id => Node.placed_of_loose rfl rfl rfl, fun id next leads => ?_⟩
  cases leads

theorem follow (placed : t.Placed texts) (firm : t.Firm id) (count : Nat) : t.Firm (t.follow count id) := by
  induction count generalizing id with
  | zero => exact firm
  | succ count ih =>
    unfold Tree.follow
    split
    · exact firm
    · rename_i next leads
      exact ih (placed.links id next leads)

theorem target (placed : t.Placed texts) (firm : t.Firm id) : t.Firm (t.target id) := placed.follow firm t.size

theorem push (placed : t.Placed texts) (new : n.Placed texts) (settled : n.standsFor = none) :
    (t.push n).2.Placed texts := by
  constructor
  · intro id
    rw [own_push]
    split
    · exact new
    · exact placed.nodes id
  · intro id next leads
    rw [own_push] at leads
    split at leads
    · cases settled.symm.trans leads
    · exact (Retains.push t n).firm (placed.links id next leads)

/-- A change of one node that leaves its place alone, and puts nodes into tags and roots only. -/
theorem update (placed : t.Placed texts) (marks : ∀ n, (f n).mark = n.mark)
    (body : t.Firm id ∨ ∀ n, (f n).body = n.body) : (t.update id f).Placed texts := by
  have marked : ∀ n, (f n).name = n.name ∧ (f n).isRoot = n.isRoot ∧ (f n).file = n.file ∧ (f n).line = n.line ∧
      (f n).standsFor = n.standsFor := fun n => by simpa [Node.mark] using marks n
  constructor
  · intro other
    rw [own_update]
    split
    · obtain ⟨name, root, file, line, -⟩ := marked (t.own id)
      exact (placed.nodes id).alike name root file line (body.imp_right fun same => same _)
    · exact placed.nodes other
  · intro other next leads
    rw [own_update] at leads
    refine (Retains.update t id marks).firm ?_
    split at leads
    · rw [(marked _).2.2.2.2] at leads
      exact placed.links id next leads
    · exact placed.links other next leads

theorem append (placed : t.Placed texts) (firm : t.Firm id) (e : Element) : (t.append id e).Placed texts := by
  refine placed.update ?_ (.inl (placed.target firm))
  exact fun _ => rfl

theorem redirect (placed : t.Placed texts) {source destination : NodeId} (firm : t.Firm destination) :
    (t.redirect source destination).Placed texts := by
  constructor
  · intro id
    obtain ⟨next, same, -⟩ := t.own_redirect source destination id
    rw [same]
    exact (placed.nodes id).alike rfl rfl rfl rfl (.inr rfl)
  · intro id next leads
    refine (Retains.redirect t source destination).firm ?_
    rw [redirect_eq] at leads
    split at leads
    · exact placed.links id next leads
    · rw [own_update] at leads
      split at leads
      · cases leads
        exact firm
      · exact placed.links id next leads

theorem copy (placed : t.Placed texts) (id : NodeId) : (t.copy id).2.Placed texts :=
  placed.push ((placed.nodes (t.target id)).alike rfl rfl rfl rfl (.inr rfl)) rfl

end Placed

/-- The copy of a tag or a root is one. -/
theorem firm_copy (placed : t.Placed texts) (firm : t.Firm id) : (t.copy id).2.Firm ⟨t.size⟩ := by
  unfold Firm copy
  rw [own_push, if_pos rfl]
  exact placed.target firm

end Tree

end Stencil
