import Stencil.Main

/-!
Chains of redirections. In a sound tree every chain ends, the target of a handle is the end of its chain, and a
redirection moves all handles of one target to another target and no others.
-/
namespace Stencil

namespace Tree

variable {t : Tree} {id : NodeId}

/-! #### What the operations do to single nodes -/

theorem own_of_size_le (h : t.size ≤ id.index) : t.own id = default := by
  unfold own
  rw [Array.getD_eq_getD_getElem?, Array.getElem?_eq_none h]
  rfl

/-- Nodes that differ are no more than the tree has. -/
theorem length_le_size {ids : List NodeId} (apart : ids.Nodup) (old : ∀ id ∈ ids, id.index < t.size) :
    ids.length ≤ t.size := by
  have indices : (ids.map NodeId.index).Nodup := by
    refine List.Pairwise.map NodeId.index (fun a b differ same => differ ?_) apart
    cases a
    cases b
    exact congrArg NodeId.mk same
  have few : (ids.map NodeId.index).length ≤ (List.range t.size).length := by
    refine List.Nodup.length_le_of_subset indices fun i mem => ?_
    obtain ⟨id, here, rfl⟩ := List.mem_map.mp mem
    exact List.mem_range.mpr (old id here)
  rwa [List.length_map, List.length_range] at few

theorem own_push (t : Tree) (n : Node) (id : NodeId) :
    (t.push n).2.own id = if id.index = t.size then n else t.own id := by
  show (t.nodes.push n).getD id.index default = _
  rw [Array.getD_eq_getD_getElem?, Array.getElem?_push]
  by_cases new : id.index = t.size
  · have last : id.index = t.nodes.size := new
    rw [if_pos last, if_pos new]
    rfl
  · have other : ¬ id.index = t.nodes.size := new
    rw [if_neg other, if_neg new]
    unfold own
    rw [Array.getD_eq_getD_getElem?]

theorem own_update (t : Tree) (id : NodeId) (f : Node → Node) (other : NodeId) :
    (t.update id f).own other = if other = id ∧ id.index < t.size then f (t.own id) else t.own other := by
  show (t.nodes.modify id.index f).getD other.index default = _
  rw [Array.getD_eq_getD_getElem?, Array.getElem?_modify]
  by_cases same : other = id
  · subst same
    by_cases small : other.index < t.size
    · rw [if_pos rfl, if_pos ⟨rfl, small⟩]
      unfold own
      rw [Array.getD_eq_getD_getElem?, Array.getElem?_eq_getElem small]
      rfl
    · rw [if_pos rfl, if_neg fun h => small h.2]
      rw [Array.getElem?_eq_none (Nat.le_of_not_lt small), own_of_size_le (Nat.le_of_not_lt small)]
      rfl
  · have apart : id.index ≠ other.index := by
      intro h
      apply same
      cases other
      cases id
      exact congrArg NodeId.mk h.symm
    rw [if_neg apart, if_neg fun h => same h.1]
    unfold own
    rw [Array.getD_eq_getD_getElem?]

theorem own_update_self {t : Tree} {id : NodeId} (old : id.index < t.size) (f : Node → Node) :
    (t.update id f).own id = f (t.own id) := by
  rw [own_update, if_pos ⟨rfl, old⟩]

/-- Trees are told apart by their nodes. -/
theorem ext_own {t t' : Tree} (size : t.size = t'.size) (own : ∀ id, t.own id = t'.own id) : t = t' := by
  obtain ⟨nodes⟩ := t
  obtain ⟨nodes'⟩ := t'
  refine congrArg Tree.mk (Array.ext size fun i small small' => ?_)
  have same := own ⟨i⟩
  unfold Tree.own at same
  rw [Array.getD_eq_getD_getElem?, Array.getD_eq_getD_getElem?, Array.getElem?_eq_getElem small,
    Array.getElem?_eq_getElem small'] at same
  exact same

theorem size_push (t : Tree) (n : Node) : (t.push n).2.size = t.size + 1 := Array.size_push ..

@[simp] theorem size_update (t : Tree) (id : NodeId) (f : Node → Node) : (t.update id f).size = t.size :=
  Array.size_modify ..

theorem update_update (t : Tree) (id : NodeId) (f g : Node → Node) :
    (t.update id f).update id g = t.update id fun n => g (f n) := by
  refine ext_own (by simp) fun other => ?_
  rw [own_update, own_update, own_update, size_update, own_update]
  by_cases here : other = id ∧ id.index < t.size
  · rw [if_pos here, if_pos here, if_pos ⟨rfl, here.2⟩]
  · rw [if_neg here, if_neg here, if_neg here]

/-- A node that has just come is changed as if it had come so. -/
theorem update_push (t : Tree) (n : Node) (f : Node → Node) : (t.push n).2.update ⟨t.size⟩ f = (t.push (f n)).2 := by
  refine congrArg Tree.mk (?_ : (t.nodes.push n).modify t.nodes.size f = t.nodes.push (f n))
  apply Array.ext
  · rw [Array.size_modify, Array.size_push, Array.size_push]
  · intro i small small'
    rw [Array.getElem_modify, Array.getElem_push, Array.getElem_push]
    by_cases old : i < t.nodes.size
    · rw [if_neg (by omega), dif_pos old, dif_pos old]
    · have new : t.nodes.size = i := by
        rw [Array.size_push] at small'
        omega
      rw [if_pos new, dif_neg old, dif_neg old]

/-! #### Chains -/

/-- Nothing is reached from a handle but itself. -/
def Settled (t : Tree) (id : NodeId) : Prop := (t.own id).standsFor = none

/-- Following a handle for so many steps leads to the end of its chain. -/
inductive Leads (t : Tree) : Nat → NodeId → NodeId → Prop where
  | here {id : NodeId} : t.Settled id → t.Leads 0 id id
  | on {n : Nat} {id next last : NodeId} : (t.own id).standsFor = some next → t.Leads n next last →
      t.Leads (n + 1) id last

/-- Redirections lead to nodes of the tree, and every chain of them ends. -/
structure Sound (t : Tree) : Prop where
  links : ∀ id next, (t.own id).standsFor = some next → next.index < t.size
  ends : ∀ id, ∃ n last, t.Leads n id last

theorem lt_size_of_standsFor {next : NodeId} (h : (t.own id).standsFor = some next) : id.index < t.size := by
  rcases Nat.lt_or_ge id.index t.size with small | large
  · exact small
  · rw [own_of_size_le large] at h
    cases h

theorem settled_of_size_le (h : t.size ≤ id.index) : t.Settled id := by
  unfold Settled
  rw [own_of_size_le h]
  rfl

namespace Leads

variable {n m : Nat} {last other : NodeId}

theorem settled (h : t.Leads n id last) : t.Settled last := by
  induction h with
  | here settled => exact settled
  | on _ _ ih => exact ih

theorem unique (h : t.Leads n id last) (h' : t.Leads m id other) : n = m ∧ last = other := by
  induction h generalizing m with
  | here settled =>
    cases h' with
    | here => exact ⟨rfl, rfl⟩
    | on next _ =>
      rw [settled] at next
      cases next
  | on next _ ih =>
    cases h' with
    | here settled =>
      rw [settled] at next
      cases next
    | on next' rest =>
      have same := Option.some.inj (next.symm.trans next')
      subst same
      obtain ⟨steps, same⟩ := ih rest
      exact ⟨by rw [steps], same⟩

/-- The handles on a chain, the last one apart, all differ, since their distances to the end do. -/
theorem visited (h : t.Leads n id last) :
    ∃ ids : List Nat, ids.length = n ∧ ids.Nodup ∧
      ∀ i ∈ ids, i < t.size ∧ ∃ m, m ≤ n ∧ 0 < m ∧ t.Leads m ⟨i⟩ last := by
  induction h with
  | here _ => exact ⟨[], rfl, List.nodup_nil, fun _ h => (by cases h)⟩
  | on next rest ih =>
    rename_i n id next' last
    obtain ⟨ids, length, apart, within⟩ := ih
    have first : t.Leads (n + 1) id last := .on next rest
    refine ⟨id.index :: ids, by rw [List.length_cons, length], ?_, ?_⟩
    · refine List.nodup_cons.mpr ⟨fun mem => ?_, apart⟩
      obtain ⟨-, m, le, -, leads⟩ := within id.index mem
      have steps := (first.unique leads).1
      omega
    · intro i mem
      rcases List.mem_cons.mp mem with rfl | mem
      · exact ⟨lt_size_of_standsFor next, n + 1, Nat.le_refl _, Nat.succ_pos _, first⟩
      · obtain ⟨small, m, le, pos, leads⟩ := within i mem
        exact ⟨small, m, Nat.le_succ_of_le le, pos, leads⟩

theorem le_size (h : t.Leads n id last) : n ≤ t.size := by
  obtain ⟨ids, length, apart, within⟩ := h.visited
  have few : ids.length ≤ (List.range t.size).length :=
    List.Nodup.length_le_of_subset apart fun i mem => List.mem_range.mpr (within i mem).1
  rw [List.length_range] at few
  omega

theorem follow_eq (h : t.Leads n id last) {count : Nat} (enough : n ≤ count) : t.follow count id = last := by
  induction h generalizing count with
  | here settled =>
    cases count with
    | zero => rfl
    | succ count =>
      unfold follow
      rw [settled]
  | on next _ ih =>
    cases count with
    | zero => omega
    | succ count =>
      unfold follow
      rw [next]
      exact ih (by omega)

theorem target_eq (h : t.Leads n id last) : t.target id = last := h.follow_eq h.le_size

end Leads

theorem Sound.leads (sound : t.Sound) (id : NodeId) : ∃ n, t.Leads n id (t.target id) := by
  obtain ⟨n, last, leads⟩ := sound.ends id
  rw [leads.target_eq]
  exact ⟨n, leads⟩

theorem Sound.settled_target (sound : t.Sound) (id : NodeId) : t.Settled (t.target id) := by
  obtain ⟨n, leads⟩ := sound.leads id
  exact leads.settled

theorem Settled.target_eq (settled : t.Settled id) : t.target id = id := (Leads.here settled).target_eq

theorem Sound.target_target (sound : t.Sound) (id : NodeId) : t.target (t.target id) = t.target id :=
  (sound.settled_target id).target_eq

theorem Sound.target_lt_size (sound : t.Sound) (small : id.index < t.size) : (t.target id).index < t.size := by
  have reached : ∀ {n : Nat} {id last : NodeId}, t.Leads n id last → id.index < t.size → last.index < t.size := by
    intro n id last leads
    induction leads with
    | here => exact fun small => small
    | on next _ ih => exact fun _ => ih (sound.links _ _ next)
  obtain ⟨n, leads⟩ := sound.leads id
  exact reached leads small

/-! #### What the operations do to targets -/

/-- The same redirections, perhaps among more nodes. -/
structure SameLinks (t t' : Tree) : Prop where
  grown : t.size ≤ t'.size
  links : ∀ id, (t'.own id).standsFor = (t.own id).standsFor

namespace SameLinks

variable {t' t'' : Tree}

theorem refl (t : Tree) : t.SameLinks t := ⟨Nat.le_refl _, fun _ => rfl⟩

theorem trans (first : t.SameLinks t') (second : t'.SameLinks t'') : t.SameLinks t'' :=
  ⟨Nat.le_trans first.grown second.grown, fun id => (second.links id).trans (first.links id)⟩

theorem settled_iff (same : t.SameLinks t') (id : NodeId) : t'.Settled id ↔ t.Settled id := by
  unfold Settled
  rw [same.links]

theorem leads (same : t.SameLinks t') {n : Nat} {last : NodeId} (h : t.Leads n id last) : t'.Leads n id last := by
  induction h with
  | here settled => exact .here ((same.settled_iff _).mpr settled)
  | on next _ ih => exact .on ((same.links _).trans next) ih

theorem sound (same : t.SameLinks t') (sound : t.Sound) : t'.Sound := by
  constructor
  · intro id next h
    rw [same.links] at h
    exact Nat.lt_of_lt_of_le (sound.links id next h) same.grown
  · intro id
    obtain ⟨n, last, leads⟩ := sound.ends id
    exact ⟨n, last, same.leads leads⟩

theorem target_eq (same : t.SameLinks t') (sound : t.Sound) (id : NodeId) : t'.target id = t.target id := by
  obtain ⟨n, leads⟩ := sound.leads id
  exact (same.leads leads).target_eq

theorem update (t : Tree) (id : NodeId) (f : Node → Node) (keeps : ∀ n, (f n).standsFor = n.standsFor) :
    t.SameLinks (t.update id f) := by
  refine ⟨Nat.le_of_eq (size_update t id f).symm, fun other => ?_⟩
  rw [own_update]
  split
  · rename_i here
    rw [keeps, here.1]
  · rfl

theorem push {n : Node} (settled : n.standsFor = none) (t : Tree) : t.SameLinks (t.push n).2 := by
  refine ⟨by rw [size_push]; exact Nat.le_succ _, fun id => ?_⟩
  rw [own_push]
  split
  · rename_i new
    rw [settled, own_of_size_le (Nat.le_of_eq new.symm)]
    rfl
  · rfl

theorem append (t : Tree) (id : NodeId) (e : Element) : t.SameLinks (t.append id e) :=
  update t (t.target id) _ fun _ => rfl

theorem insert (t : Tree) (id : NodeId) (e : Element) (position : Position) : t.SameLinks (t.insert id e position) :=
  update t (t.target id) _ fun _ => rfl

theorem clear (t : Tree) (id : NodeId) : t.SameLinks (t.clear id) := update t (t.target id) _ fun _ => rfl

end SameLinks

theorem Settled.append_eq (settled : t.Settled id) (e : Element) :
    t.append id e = t.update id fun n => { n with body := n.body ++ [e] } := by
  unfold append
  rw [settled.target_eq]

theorem Settled.clear_eq (settled : t.Settled id) :
    t.clear id = t.update id fun n => { n with opening := "", body := [], closing := "" } := by
  unfold clear
  rw [settled.target_eq]

theorem sound_empty : empty.Sound := by
  have settled : ∀ id, empty.Settled id := fun id => settled_of_size_le (Nat.zero_le _)
  constructor
  · intro id next h
    rw [settled id] at h
    cases h
  · exact fun id => ⟨0, id, .here (settled id)⟩

theorem redirect_eq (t : Tree) (source destination : NodeId) :
    t.redirect source destination =
      if t.target source = t.target destination then t
      else t.update (t.target source) fun n => { n with standsFor := some destination } :=
  rfl

@[simp] theorem size_redirect (t : Tree) (source destination : NodeId) :
    (t.redirect source destination).size = t.size := by
  rw [redirect_eq]
  split
  · rfl
  · exact size_update ..

/-- Only the end of a chain is changed by a redirection, and only in where it leads. -/
theorem own_redirect (t : Tree) (source destination id : NodeId) :
    ∃ next, (t.redirect source destination).own id = { t.own id with standsFor := next } ∧
      (id ≠ t.target source → next = (t.own id).standsFor) := by
  rw [redirect_eq]
  split
  · exact ⟨(t.own id).standsFor, rfl, fun _ => rfl⟩
  · rw [own_update]
    split
    · rename_i here
      rw [here.1]
      exact ⟨some destination, rfl, fun other => absurd rfl other⟩
    · exact ⟨(t.own id).standsFor, rfl, fun _ => rfl⟩

section Redirect

variable {source destination : NodeId}

theorem Sound.redirect_leads (sound : t.Sound) (from' : source.index < t.size)
    (apart : t.target source ≠ t.target destination) {n : Nat} {last : NodeId} (h : t.Leads n id last) :
    ∃ m, (t.redirect source destination).Leads m id
      (if last = t.target source then t.target destination else last) := by
  have small := sound.target_lt_size from'
  have moved : ∀ id, (t.redirect source destination).own id =
      if id = t.target source then { t.own id with standsFor := some destination } else t.own id := by
    intro id
    rw [redirect_eq, if_neg apart, own_update]
    by_cases here : id = t.target source
    · rw [if_pos ⟨here, small⟩, if_pos here, here]
    · rw [if_neg fun h => here h.1, if_neg here]
  -- A chain that ends elsewhere does not meet the node that is changed, which is the end of its own chain.
  have kept : ∀ {n : Nat} {id last : NodeId}, t.Leads n id last → last ≠ t.target source →
      (t.redirect source destination).Leads n id last := by
    intro n id last leads
    induction leads with
    | here settled =>
      intro other
      refine .here ?_
      unfold Settled
      rw [moved, if_neg other]
      exact settled
    | on next rest ih =>
      intro other
      rename_i id _ _
      have here : id ≠ t.target source := by
        intro h
        have settled := sound.settled_target source
        rw [← h, Settled, next] at settled
        cases settled
      refine .on ?_ (ih other)
      rw [moved, if_neg here]
      exact next
  obtain ⟨m, destinationLeads⟩ := sound.leads destination
  induction h with
  | here settled =>
    rename_i id
    by_cases here : id = t.target source
    · rw [if_pos here]
      refine ⟨m + 1, .on ?_ (kept destinationLeads fun h => apart h.symm)⟩
      rw [moved, if_pos here]
    · rw [if_neg here]
      exact ⟨0, kept (.here settled) here⟩
  | on next rest ih =>
    rename_i id _ last
    have here : id ≠ t.target source := by
      intro h
      have settled := sound.settled_target source
      rw [← h, Settled, next] at settled
      cases settled
    obtain ⟨k, leads⟩ := ih
    refine ⟨k + 1, .on ?_ leads⟩
    rw [moved, if_neg here]
    exact next

/-- All handles with the target of the source get that of the destination, and no others are moved. -/
theorem Sound.target_redirect (sound : t.Sound) (from' : source.index < t.size) (id : NodeId) :
    (t.redirect source destination).target id =
      if t.target id = t.target source then t.target destination else t.target id := by
  by_cases apart : t.target source = t.target destination
  · rw [redirect_eq, if_pos apart]
    split
    · rename_i here
      rw [here, apart]
    · rfl
  · obtain ⟨n, leads⟩ := sound.leads id
    obtain ⟨m, leads'⟩ := sound.redirect_leads from' apart leads
    exact leads'.target_eq

theorem Sound.redirect (sound : t.Sound) (from' : source.index < t.size) (to' : destination.index < t.size) :
    (t.redirect source destination).Sound := by
  by_cases apart : t.target source = t.target destination
  · rw [redirect_eq, if_pos apart]
    exact sound
  · constructor
    · intro id next h
      rw [size_redirect]
      rw [redirect_eq, if_neg apart, own_update] at h
      split at h
      · cases h
        exact to'
      · exact sound.links id next h
    · intro id
      obtain ⟨n, leads⟩ := sound.leads id
      obtain ⟨m, leads'⟩ := sound.redirect_leads from' apart leads
      exact ⟨m, _, leads'⟩

end Redirect

end Tree

end Stencil
