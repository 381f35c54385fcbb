import Stencil.Proofs.Tree.Redirection

/-!
What stays as it is when a tree changes: tags and parameters of all nodes, and the content of the nodes that are not
being worked on.
-/
namespace Stencil

namespace Tree

variable {t t' t'' : Tree} {id : NodeId} {touched : List NodeId}

/-- All nodes keep their tags, and all but some keep what is written for them. Code may be taken away. -/
structure Keeps (t t' : Tree) (touched : List NodeId) : Prop where
  grown : t.size ≤ t'.size
  names : ∀ id, id.index < t.size → (t'.own id).name = (t.own id).name
  params : ∀ id, id.index < t.size → (t'.own id).params = (t.own id).params
  roots : ∀ id, id.index < t.size → (t'.own id).isRoot = (t.own id).isRoot
  stands : ∀ id, id.index < t.size → (t'.own id).mustClose = (t.own id).mustClose
  code : ∀ id, id.index < t.size → (t.own id).opening = "" → (t.own id).closing = "" →
    (t'.own id).opening = "" ∧ (t'.own id).closing = ""
  content : ∀ id, id.index < t.size → id ∉ touched → (t'.own id).opening = (t.own id).opening ∧
    (t'.own id).body = (t.own id).body ∧ (t'.own id).closing = (t.own id).closing

namespace Keeps

theorem refl (t : Tree) (touched : List NodeId) : t.Keeps t touched :=
  ⟨Nat.le_refl _, fun _ _ => rfl, fun _ _ => rfl, fun _ _ => rfl, fun _ _ => rfl, fun _ _ o c => ⟨o, c⟩,
    fun _ _ _ => ⟨rfl, rfl, rfl⟩⟩

theorem trans (first : t.Keeps t' touched) (second : t'.Keeps t'' touched) : t.Keeps t'' touched := by
  have old : ∀ id : NodeId, id.index < t.size → id.index < t'.size := fun _ h => Nat.lt_of_lt_of_le h first.grown
  constructor
  case grown => exact Nat.le_trans first.grown second.grown
  case names => exact fun id h => (second.names id (old id h)).trans (first.names id h)
  case params => exact fun id h => (second.params id (old id h)).trans (first.params id h)
  case roots => exact fun id h => (second.roots id (old id h)).trans (first.roots id h)
  case stands => exact fun id h => (second.stands id (old id h)).trans (first.stands id h)
  case code =>
    intro id h o c
    obtain ⟨o', c'⟩ := first.code id h o c
    exact second.code id (old id h) o' c'
  case content =>
    intro id h apart
    obtain ⟨o, b, c⟩ := first.content id h apart
    obtain ⟨o', b', c'⟩ := second.content id (old id h) apart
    exact ⟨o'.trans o, b'.trans b, c'.trans c⟩

theorem mono {more : List NodeId} (keeps : t.Keeps t' touched) (sub : touched ⊆ more) : t.Keeps t' more :=
  ⟨keeps.grown, keeps.names, keeps.params, keeps.roots, keeps.stands, keeps.code,
    fun id h apart => keeps.content id h fun mem => apart (sub mem)⟩

theorem join {first second : List NodeId} (before : t.Keeps t' first) (after : t'.Keeps t'' second) :
    t.Keeps t'' (first ++ second) :=
  (before.mono (List.subset_append_left _ _)).trans (after.mono (List.subset_append_right _ _))

theorem push (t : Tree) (n : Node) (touched : List NodeId) : t.Keeps (t.push n).2 touched := by
  have old : ∀ id : NodeId, id.index < t.size → (t.push n).2.own id = t.own id := by
    intro id h
    rw [own_push, if_neg (Nat.ne_of_lt h)]
  constructor
  · rw [size_push]
    exact Nat.le_succ _
  all_goals
    intro id h
    rw [old id h]
  · exact fun o c => ⟨o, c⟩
  · exact fun _ => ⟨rfl, rfl, rfl⟩

theorem redirect (t : Tree) (source destination : NodeId) (touched : List NodeId) :
    t.Keeps (t.redirect source destination) touched := by
  have same : ∀ id : NodeId, ∃ next, (t.redirect source destination).own id = { t.own id with standsFor := next } := by
    intro id
    obtain ⟨next, same, -⟩ := t.own_redirect source destination id
    exact ⟨next, same⟩
  constructor
  · exact Nat.le_of_eq (size_redirect t source destination).symm
  all_goals
    intro id h
    obtain ⟨next, same⟩ := same id
    rw [same]
  · exact fun o c => ⟨o, c⟩
  · exact fun _ => ⟨rfl, rfl, rfl⟩

/-- A change of one node that leaves its tag alone. -/
theorem update (t : Tree) {f : Node → Node} (name : ∀ n, (f n).name = n.name)
    (params : ∀ n, (f n).params = n.params) (root : ∀ n, (f n).isRoot = n.isRoot)
    (stands : ∀ n, (f n).mustClose = n.mustClose)
    (code : ∀ n, n.opening = "" → n.closing = "" → (f n).opening = "" ∧ (f n).closing = "")
    (content : id ∈ touched ∨ ∀ n, (f n).opening = n.opening ∧ (f n).body = n.body ∧ (f n).closing = n.closing) :
    t.Keeps (t.update id f) touched := by
  have each : ∀ other : NodeId, (t.update id f).own other = t.own other ∨
      other = id ∧ (t.update id f).own other = f (t.own other) := by
    intro other
    rw [own_update]
    split
    · rename_i here
      exact .inr ⟨here.1, by rw [here.1]⟩
    · exact .inl rfl
  constructor
  case grown => exact Nat.le_of_eq (size_update t id f).symm
  case names =>
    intro other _
    rcases each other with same | ⟨-, same⟩ <;> rw [same]
    exact name _
  case params =>
    intro other _
    rcases each other with same | ⟨-, same⟩ <;> rw [same]
    exact params _
  case roots =>
    intro other _
    rcases each other with same | ⟨-, same⟩ <;> rw [same]
    exact root _
  case stands =>
    intro other _
    rcases each other with same | ⟨-, same⟩ <;> rw [same]
    exact stands _
  case code =>
    intro other _ o c
    rcases each other with same | ⟨-, same⟩ <;> rw [same]
    · exact ⟨o, c⟩
    · exact code _ o c
  case content =>
    intro other _ apart
    rcases each other with same | ⟨here, same⟩ <;> rw [same]
    · exact ⟨rfl, rfl, rfl⟩
    · rcases content with mem | kept
      · exact absurd (here ▸ mem) apart
      · exact kept _

theorem append (t : Tree) (id : NodeId) (e : Element) (mem : t.target id ∈ touched) :
    t.Keeps (t.append id e) touched :=
  update t (fun _ => rfl) (fun _ => rfl) (fun _ => rfl) (fun _ => rfl) (fun _ o c => ⟨o, c⟩) (.inl mem)

theorem insert (t : Tree) (id : NodeId) (e : Element) (position : Position) (mem : t.target id ∈ touched) :
    t.Keeps (t.insert id e position) touched :=
  update t (fun _ => rfl) (fun _ => rfl) (fun _ => rfl) (fun _ => rfl) (fun _ o c => ⟨o, c⟩) (.inl mem)

theorem clear (t : Tree) (id : NodeId) (mem : t.target id ∈ touched) : t.Keeps (t.clear id) touched :=
  update t (fun _ => rfl) (fun _ => rfl) (fun _ => rfl) (fun _ => rfl) (fun _ _ _ => ⟨rfl, rfl⟩) (.inl mem)

theorem tag (keeps : t.Keeps t' touched) (old : id.index < t.size) : (t'.own id).tag = (t.own id).tag := by
  unfold Node.tag
  rw [keeps.names id old]

theorem param (keeps : t.Keeps t' touched) (old : id.index < t.size) (key : String) :
    (t'.own id).param key = (t.own id).param key := by
  unfold Node.param
  rw [keeps.params id old]

end Keeps

/-- A handle that is not the end of the chain that is redirected stays where it is. -/
theorem Settled.redirect {source destination : NodeId} (settled : t.Settled id) (apart : id ≠ t.target source) :
    (t.redirect source destination).Settled id := by
  obtain ⟨next, same, kept⟩ := t.own_redirect source destination id
  unfold Settled
  rw [same]
  exact (kept apart).trans settled

theorem redirect_self (t : Tree) (id : NodeId) : t.redirect id id = t := by
  rw [redirect_eq, if_pos rfl]

end Tree

end Stencil
