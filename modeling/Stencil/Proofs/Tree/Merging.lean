import Mathlib.Logic.Relation
import Stencil.Proofs.Tree.Redirection

/-!
Classes of handles. All handles with one target form a class; a redirection merges two classes, and nothing that is
done to a tree ever splits one. The redirections form no ring, so a target is found in fewer steps than there are
nodes. Whatever is done to the content through a handle is done to its target and to no other node.
-/
namespace Stencil

namespace Tree

/-- What can be done to a tree through handles. -/
inductive Operation where
  | create (file : String) (line : Nat)
  | redirect (source destination : NodeId)
  | insert (id : NodeId) (e : Element) (position : Position)
  | append (id : NodeId) (e : Element)
  | clear (id : NodeId)
  | copy (id : NodeId)
  /-- Fields of the node that the handle itself stands for are set; where it leads is not among them. -/
  | update (id : NodeId) (f : Node → Node) (stays : ∀ n, (f n).standsFor = n.standsFor)

namespace Operation

def apply : Operation → Tree → Tree
  | create file line, t => (t.create file line).2
  | redirect source destination, t => t.redirect source destination
  | insert id e position, t => t.insert id e position
  | append id e, t => t.append id e
  | clear id, t => t.clear id
  | copy id, t => (t.copy id).2
  | update id f _, t => t.update id f

/-- The handles through which it is done. -/
def handles : Operation → List NodeId
  | create _ _ => []
  | redirect source destination => [source, destination]
  | insert id _ _ | append id _ | clear id | copy id | update id _ _ => [id]

/-- All these handles have been given out. -/
def Within (op : Operation) (t : Tree) : Prop := ∀ id ∈ op.handles, id.index < t.size

instance (op : Operation) (t : Tree) : Decidable (op.Within t) :=
  inferInstanceAs (Decidable (∀ id ∈ op.handles, id.index < t.size))

/-- The one node that is changed, if it was there before. -/
def place? (t : Tree) : Operation → Option NodeId
  | create _ _ | copy _ => none
  | redirect source _ => some (t.target source)
  | insert id _ _ | append id _ | clear id => some (t.target id)
  | update id _ _ => some id

end Operation

/-- Operations, each through handles that there are by then, lead from one tree to another. -/
inductive Becomes : Tree → List Operation → Tree → Prop where
  | nil (t : Tree) : t.Becomes [] t
  | cons {t t' : Tree} {op : Operation} {ops : List Operation} : op.Within t → (op.apply t).Becomes ops t' →
      t.Becomes (op :: ops) t'

/-- A handle is redirected to another. -/
def Links (t : Tree) (id next : NodeId) : Prop := (t.own id).standsFor = some next

/-- Follows a handle further after so many redirections. More of them than there are nodes would be a ring, and
then there is no answer. -/
def resolveFrom? (t : Tree) (taken : Nat) (id : NodeId) : Option NodeId :=
  match (t.own id).standsFor with
  | none => some id
  | some next => if taken < t.size then t.resolveFrom? (taken + 1) next else none
termination_by t.size - taken

def resolve? (t : Tree) (id : NodeId) : Option NodeId := t.resolveFrom? 0 id

/-- What is done or asked through a handle is done to or asked of this one node. -/
structure ActsOn (t : Tree) (id node : NodeId) : Prop where
  insert : ∀ e position, t.insert id e position = t.insert node e position
  append : ∀ e, t.append id e = t.append node e
  clear : t.clear id = t.clear node
  copy : t.copy id = t.copy node
  text : t.text? id = t.text? node
  outline : t.outline id = t.outline node

variable {t t' : Tree} {op : Operation} {ops : List Operation}

/-! #### Rings -/

theorem Leads.step {n : Nat} {id next last : NodeId} (leads : t.Leads n id last) (link : t.Links id next) :
    ∃ m, m < n ∧ t.Leads m next last := by
  cases leads with
  | here settled =>
    have link : (t.own id).standsFor = some next := link
    rw [settled] at link
    cases link
  | on next' rest =>
    have link : (t.own id).standsFor = some next := link
    cases next'.symm.trans link
    exact ⟨_, Nat.lt_succ_self _, rest⟩

/-- Every redirection brings a handle nearer to the end of its chain. -/
theorem Leads.nearer {n : Nat} {id next last : NodeId} (leads : t.Leads n id last)
    (links : Relation.TransGen t.Links id next) : ∃ m, m < n ∧ t.Leads m next last := by
  induction links with
  | single link => exact leads.step link
  | tail _ link ih =>
    obtain ⟨m, less, leads'⟩ := ih
    obtain ⟨k, less', leads''⟩ := leads'.step link
    exact ⟨k, by omega, leads''⟩

theorem Sound.no_ring (sound : t.Sound) (id : NodeId) : ¬ Relation.TransGen t.Links id id := by
  intro ring
  obtain ⟨n, leads⟩ := sound.leads id
  obtain ⟨m, less, leads'⟩ := leads.nearer ring
  have steps := (leads.unique leads').1
  omega

theorem Leads.resolveFrom?_eq {n : Nat} {id last : NodeId} (leads : t.Leads n id last) {taken : Nat}
    (few : taken + n ≤ t.size) : t.resolveFrom? taken id = some last := by
  induction leads generalizing taken with
  | here settled =>
    unfold resolveFrom?
    rw [settled]
  | on next _ ih =>
    unfold resolveFrom?
    rw [next]
    dsimp only
    rw [if_pos (by omega)]
    exact ih (by omega)

theorem Sound.resolve?_eq (sound : t.Sound) (id : NodeId) : t.resolve? id = some (t.target id) := by
  obtain ⟨n, leads⟩ := sound.leads id
  exact leads.resolveFrom?_eq (by rw [Nat.zero_add]; exact leads.le_size)

/-! #### Single operations -/

/-- Only a redirection changes links. -/
theorem Operation.sameLinks (op : Operation) (t : Tree) :
    t.SameLinks (op.apply t) ∨ ∃ source destination, op = .redirect source destination := by
  cases op with
  | create file line => exact .inl (.push rfl t)
  | redirect source destination => exact .inr ⟨source, destination, rfl⟩
  | insert id e position => exact .inl (.insert t id e position)
  | append id e => exact .inl (.append t id e)
  | clear id => exact .inl (.clear t id)
  | copy id => exact .inl (.push rfl t)
  | update id f stays => exact .inl (.update t id f stays)

theorem Sound.apply (sound : t.Sound) (within : op.Within t) : (op.apply t).Sound := by
  rcases op.sameLinks t with same | ⟨source, destination, rfl⟩
  · exact same.sound sound
  · exact sound.redirect (within source (by simp [Operation.handles])) (within destination (by simp [Operation.handles]))

theorem Sound.target_apply (sound : t.Sound) (within : op.Within t) {id other : NodeId}
    (same : t.target id = t.target other) : (op.apply t).target id = (op.apply t).target other := by
  rcases op.sameLinks t with links | ⟨source, destination, rfl⟩
  · rw [links.target_eq sound, links.target_eq sound, same]
  · show (t.redirect source destination).target id = (t.redirect source destination).target other
    have old := within source (by simp [Operation.handles])
    rw [sound.target_redirect old, sound.target_redirect old, same]

theorem Operation.own_apply (op : Operation) {id : NodeId} (old : id.index < t.size) (apart : op.place? t ≠ some id) :
    (op.apply t).own id = t.own id := by
  have pushed : ∀ n : Node, (t.push n).2.own id = t.own id := by
    intro n
    rw [own_push, if_neg (Nat.ne_of_lt old)]
  have updated : ∀ {place : NodeId} (f : Node → Node), some place ≠ some id → (t.update place f).own id = t.own id := by
    intro place f apart
    rw [own_update, if_neg fun here => apart (by rw [here.1])]
  cases op with
  | create file line => exact pushed _
  | copy id' => exact pushed _
  | redirect source destination =>
    show (t.redirect source destination).own id = t.own id
    rw [redirect_eq]
    split
    · rfl
    · exact updated _ apart
  | insert id' e position => exact updated _ apart
  | append id' e => exact updated _ apart
  | clear id' => exact updated _ apart
  | update id' f stays => exact updated f apart

/-- Through a handle its target is reached, whatever is done. -/
theorem Sound.actsOn (sound : t.Sound) {id node : NodeId} (target : t.target id = node) : t.ActsOn id node := by
  have last : t.target node = t.target id := by
    rw [← target]
    exact sound.target_target id
  have held : t.content id = t.content node := by
    unfold content
    rw [last]
  constructor
  case insert =>
    intro e position
    unfold Tree.insert
    rw [last]
  case append =>
    intro e
    unfold Tree.append
    rw [last]
  case clear =>
    unfold Tree.clear
    rw [last]
  case copy =>
    unfold Tree.copy
    rw [held]
  case text =>
    unfold text?
    rw [held]
  case outline =>
    unfold outline
    cases t.size with
    | zero => rfl
    | succ depth =>
      unfold outlineWithin
      rw [held]

/-! #### All that is ever done -/

theorem Becomes.sound (becomes : t.Becomes ops t') (sound : t.Sound) : t'.Sound := by
  induction becomes with
  | nil => exact sound
  | cons within _ ih => exact ih (sound.apply within)

theorem Becomes.target_eq (becomes : t.Becomes ops t') (sound : t.Sound) {id other : NodeId}
    (same : t.target id = t.target other) : t'.target id = t'.target other := by
  induction becomes with
  | nil => exact same
  | cons within _ ih => exact ih (sound.apply within) (sound.target_apply within same)

/-- In every tree that operations make there is no ring of redirections, and every handle is resolved. A redirection
moves the handles of one target to another target and no others, and nothing else moves any. Handles that once have
the same target have it ever after, and act on that one node. An operation leaves all nodes that were there as they
are but one, and a redirection changes nothing of that one but where it leads. -/
theorem handles_merge_for_good (made : empty.Becomes ops t) :
    (∀ id, ¬ Relation.TransGen t.Links id id) ∧
    (∀ id, t.resolve? id = some (t.target id)) ∧
    (∀ op : Operation, op.Within t →
      (∀ id, (op.apply t).target id = match op with
        | .redirect source destination =>
          if t.target id = t.target source then t.target destination else t.target id
        | _ => t.target id) ∧
      (∀ id, id.index < t.size → op.place? t ≠ some id → (op.apply t).own id = t.own id) ∧
      ∀ source destination, op = .redirect source destination → ∀ id, ∃ next,
        (op.apply t).own id = { t.own id with standsFor := next }) ∧
    ∀ more t', t.Becomes more t' → ∀ a b, t.target a = t.target b →
      ∃ node, t'.target a = node ∧ t'.target b = node ∧ t'.ActsOn a node ∧ t'.ActsOn b node := by
  have sound := made.sound sound_empty
  refine ⟨sound.no_ring, sound.resolve?_eq, fun op within => ⟨fun id => ?_, ?_, ?_⟩, ?_⟩
  · rcases op.sameLinks t with links | ⟨source, destination, rfl⟩
    · cases op with
      | redirect source destination =>
        exact sound.target_redirect (within source (by simp [Operation.handles])) id
      | _ => exact links.target_eq sound id
    · exact sound.target_redirect (within source (by simp [Operation.handles])) id
  · exact fun id old apart => op.own_apply old apart
  · rintro source destination rfl id
    obtain ⟨next, same, -⟩ := t.own_redirect source destination id
    exact ⟨next, same⟩
  · intro more t' becomes a b same
    have sound' := becomes.sound sound
    have same' := becomes.target_eq sound same
    exact ⟨t'.target a, rfl, same'.symm, sound'.actsOn rfl, sound'.actsOn same'.symm⟩

/-- Three nodes, redirected one to the next and the last one back to the first, and a copy of the first in between. -/
def around : List Operation :=
  [.create "page" 1, .create "page" 2, .create "page" 3, .redirect ⟨0⟩ ⟨1⟩, .copy ⟨0⟩, .redirect ⟨1⟩ ⟨2⟩,
    .redirect ⟨2⟩ ⟨0⟩]

/-- The way round is not closed, the three handles are one, and the copy is another. -/
theorem no_way_round : ∃ t, empty.Becomes around t ∧ ¬ Relation.TransGen t.Links ⟨0⟩ ⟨0⟩ ∧
    t.resolve? ⟨0⟩ = some ⟨2⟩ ∧ t.ActsOn ⟨1⟩ ⟨2⟩ ∧ t.resolve? ⟨3⟩ = some ⟨3⟩ := by
  have made : empty.Becomes around (around.foldl (fun t op => op.apply t) empty) :=
    .cons (by decide) (.cons (by decide) (.cons (by decide) (.cons (by decide) (.cons (by decide) (.cons (by decide)
      (.cons (by decide) (.nil _)))))))
  obtain ⟨noRing, resolved, -, merged⟩ := handles_merge_for_good made
  obtain ⟨node, -, last, -, acts⟩ := merged [] _ (.nil _) ⟨0⟩ ⟨1⟩ (by decide)
  have two : node = ⟨2⟩ := last.symm.trans (by decide)
  subst two
  exact ⟨_, made, noRing ⟨0⟩, (resolved ⟨0⟩).trans (by decide), acts, (resolved ⟨3⟩).trans (by decide)⟩

end Tree

end Stencil
