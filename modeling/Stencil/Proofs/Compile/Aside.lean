import Stencil.Proofs.Compile.Sites

/-!
What a piece leaves alone. Whatever is put somewhere is put into an open node or into a block, so a node that no
open node leads to changes only by what is added to its block. That an open node does not come to lead to it later
rests on names: redirections join only nodes of one name, and an open node is either alone or together with what
is registered by its name.
-/
namespace Stencil

open Tag

namespace Tree

variable {t t' t'' : Tree} {id : NodeId}

/-- A node has the same content in two trees. -/
structure SameAt (t t' : Tree) (id : NodeId) : Prop where
  opening : (t'.own id).opening = (t.own id).opening
  body : (t'.own id).body = (t.own id).body
  closing : (t'.own id).closing = (t.own id).closing

theorem SameAt.refl (t : Tree) (id : NodeId) : t.SameAt t id := ⟨rfl, rfl, rfl⟩

theorem SameAt.trans (first : t.SameAt t' id) (second : t'.SameAt t'' id) : t.SameAt t'' id :=
  ⟨second.opening.trans first.opening, second.body.trans first.body, second.closing.trans first.closing⟩

theorem Keeps.sameAt {touched : List NodeId} (keeps : t.Keeps t' touched) (old : id.index < t.size)
    (apart : id ∉ touched) : t.SameAt t' id := by
  obtain ⟨opening, body, closing⟩ := keeps.content id old apart
  exact ⟨opening, body, closing⟩

end Tree

/-- The open nodes of all sources, the innermost first. -/
def openNodes (sheets : List Sheet) : List NodeId := sheets.flatMap (·.stack)

/-- The node of an addition to a block that the next piece closes. -/
def Reader.adds? {W : Type} (r : Reader W) : Option NodeId :=
  r.closes?.filter fun top => (r.state.tree.own top).tag = "addblock"

namespace Compile

variable {W : Type} {c : Compiler W} {s s' s'' : CompileState W} {t' : Tree} {file : String} {top : NodeId}
  {below stack opens opens' opens'' outer touched : List NodeId} {token : Markup.Token} {id : NodeId} {n : Node}

/-! #### Names -/

/-- Redirections lead from node to node of one name, and a block is registered by its name. -/
structure Named (s : CompileState W) : Prop where
  links : ∀ id next, (s.tree.own id).standsFor = some next →
    (s.tree.own next).param "id" = (s.tree.own id).param "id"
  blocks : ∀ block b, Keyed.get? block s.blocks = some b → (s.tree.own b.node).param "id" = block

namespace Named

theorem target (named : Named s) (sound : s.tree.Sound) (id : NodeId) :
    (s.tree.own (s.tree.target id)).param "id" = (s.tree.own id).param "id" := by
  have follows : ∀ {n : Nat} {id last : NodeId}, s.tree.Leads n id last →
      (s.tree.own last).param "id" = (s.tree.own id).param "id" := by
    intro n id last leads
    induction leads with
    | here => rfl
    | on next _ ih => exact ih.trans (named.links _ _ next)
  obtain ⟨n, leads⟩ := sound.leads id
  exact follows leads

theorem relink (named : Named s) (grounded : Grounded s) (links : s.tree.SameLinks t')
    (keeps : s.tree.Keeps t' touched) : Named { s with tree := t' } := by
  constructor
  · intro id next there
    have before : (s.tree.own id).standsFor = some next := (links.links id).symm.trans there
    show (t'.own next).param "id" = (t'.own id).param "id"
    rw [keeps.param (grounded.sound.links id next before), keeps.param (Tree.lt_size_of_standsFor before)]
    exact named.links id next before
  · intro block b known
    show (t'.own b.node).param "id" = block
    rw [keeps.param (grounded.blocks block b known)]
    exact named.blocks block b known

theorem redirect (named : Named s) (grounded : Grounded s) {source destination : NodeId}
    (same : (s.tree.own source).param "id" = (s.tree.own destination).param "id") :
    Named { s with tree := s.tree.redirect source destination } := by
  have param : ∀ id : NodeId, ((s.tree.redirect source destination).own id).param "id" =
      (s.tree.own id).param "id" := by
    intro id
    obtain ⟨next, own, -⟩ := s.tree.own_redirect source destination id
    rw [own]
    rfl
  constructor
  · intro id next there
    have there : ((s.tree.redirect source destination).own id).standsFor = some next := there
    show ((s.tree.redirect source destination).own next).param "id" =
      ((s.tree.redirect source destination).own id).param "id"
    rw [param, param]
    rw [Tree.redirect_eq] at there
    split at there
    · exact named.links id next there
    · rw [Tree.own_update] at there
      split at there
      · rename_i here
        cases there
        rw [here.1, named.target grounded.sound]
        exact same.symm
      · exact named.links id next there
  · intro block b known
    exact (param b.node).trans (named.blocks block b known)

theorem define (named : Named s) {block : String} {b : Block} (name : (s.tree.own b.node).param "id" = block) :
    Named { s with blocks := Keyed.put block b s.blocks } := by
  refine ⟨named.links, fun other known found => ?_⟩
  rcases Keyed.get?_put found with ⟨rfl, rfl⟩ | ⟨-, found⟩
  · exact name
  · exact named.blocks other known found

end Named

/-! #### Nodes that are alone -/

/-- No other handle leads to a node, no block is registered by it, and it does not wait to be redirected. -/
structure Lone (s : CompileState W) (id : NodeId) : Prop where
  old : id.index < s.tree.size
  here : s.tree.Settled id
  only : ∀ other, s.tree.target other = id → other = id
  unknown : ∀ block b, Keyed.get? block s.blocks = some b → b.node ≠ id
  awaits : id ∉ s.deferred

theorem lone_new (grounded : Grounded s) (settled : n.standsFor = none) : Lone (withNode s n) ⟨s.tree.size⟩ := by
  have links : s.tree.SameLinks (withNode s n).tree := .push settled s.tree
  refine ⟨new_lt s n, ?_, fun other leads => ?_, fun block b known same => ?_, fun mem => ?_⟩
  · exact (congrArg Node.standsFor (own_withNode s n)).trans settled
  · rw [links.target_eq grounded.sound] at leads
    rcases Nat.lt_or_ge other.index s.tree.size with small | large
    · have lt := grounded.sound.target_lt_size small
      rw [leads] at lt
      exact absurd lt (Nat.lt_irrefl _)
    · rw [← leads, (Tree.settled_of_size_le large).target_eq]
  · have lt := grounded.blocks block b known
    rw [same] at lt
    exact Nat.lt_irrefl _ lt
  · exact Nat.lt_irrefl _ (grounded.deferred _ mem)

namespace Lone

variable {other source destination : NodeId}

theorem apart (lone : Lone s id) (other_ne : other ≠ id) : s.tree.target other ≠ id :=
  fun leads => other_ne (lone.only other leads)

theorem apart_known (lone : Lone s id) {block : String} {b : Block} (known : Keyed.get? block s.blocks = some b) :
    s.tree.target b.node ≠ id :=
  lone.apart (lone.unknown block b known)

theorem of_same (lone : Lone s id) (tree : s'.tree = s.tree) (blocks : s'.blocks = s.blocks)
    (deferred : s'.deferred ⊆ s.deferred) : Lone s' id := by
  refine ⟨?_, ?_, ?_, ?_, fun mem => lone.awaits (deferred mem)⟩
  · rw [tree]
    exact lone.old
  · rw [tree]
    exact lone.here
  · rw [tree]
    exact lone.only
  · rw [blocks]
    exact lone.unknown

theorem relink (lone : Lone s id) (grounded : Grounded s) (links : s.tree.SameLinks t') :
    Lone { s with tree := t' } id := by
  refine ⟨Nat.lt_of_lt_of_le lone.old links.grown, (links.settled_iff id).mpr lone.here, fun other leads => ?_,
    lone.unknown, lone.awaits⟩
  refine lone.only other ?_
  rw [← links.target_eq grounded.sound]
  exact leads

theorem redirect (lone : Lone s id) (grounded : Grounded s) (old : source.index < s.tree.size)
    (apart : s.tree.target source ≠ id) (apart' : s.tree.target destination ≠ id) :
    Lone { s with tree := s.tree.redirect source destination } id := by
  refine ⟨?_, lone.here.redirect apart.symm, fun other leads => ?_, lone.unknown, lone.awaits⟩
  · show id.index < (s.tree.redirect source destination).size
    rw [Tree.size_redirect]
    exact lone.old
  · have leads : (s.tree.redirect source destination).target other = id := leads
    rw [grounded.sound.target_redirect old] at leads
    split at leads
    · exact absurd leads apart'
    · exact lone.only other leads

theorem define (lone : Lone s id) {block : String} {b : Block} (apart : b.node ≠ id) :
    Lone { s with blocks := Keyed.put block b s.blocks } id := by
  refine ⟨lone.old, lone.here, lone.only, fun other known found => ?_, lone.awaits⟩
  rcases Keyed.get?_put found with ⟨-, rfl⟩ | ⟨-, found⟩
  · exact apart
  · exact lone.unknown other known found

theorem defer (lone : Lone s id) (apart : other ≠ id) : Lone { s with deferred := s.deferred ++ [other] } id := by
  refine ⟨lone.old, lone.here, lone.only, lone.unknown, fun mem => ?_⟩
  rcases List.mem_append.mp mem with mem | mem
  · exact lone.awaits mem
  · exact apart (List.mem_singleton.mp mem).symm

end Lone

/-! #### The open nodes apart -/

/-- Open nodes differ, and each is alone, or is a block or an addition that is together with its block. -/
structure Unmixed (s : CompileState W) (opens : List NodeId) : Prop where
  grounded : Grounded s
  named : Named s
  apart : opens.Nodup
  old : ∀ id ∈ opens, id.index < s.tree.size
  each : ∀ id ∈ opens, Lone s id ∨
    (s.tree.own id).tag ∈ ["block", "addblock"] ∧ Joined ((s.tree.own id).param "id") id s

/-- No open node leads to a node. -/
structure Aside (t : Tree) (opens : List NodeId) (id : NodeId) : Prop where
  old : id.index < t.size
  apart : ∀ other ∈ opens, t.target other ≠ id

theorem Lone.aside (lone : Lone s id) (closed : id ∉ opens) : Aside s.tree opens id :=
  ⟨lone.old, fun _ mem => lone.apart fun same => closed (same ▸ mem)⟩

/-- A change that keeps them apart and does nothing to nodes that no open node leads to. -/
structure Passing (s : CompileState W) (opens : List NodeId) (s' : CompileState W) (opens' : List NodeId) :
    Prop where
  unmixed : Unmixed s' opens'
  aside : ∀ id, Aside s.tree opens id → Aside s'.tree opens' id ∧ s.tree.SameAt s'.tree id
  lone : ∀ id, Lone s id → id ∉ opens → Lone s' id ∧ id ∉ opens'

namespace Passing

theorem trans (first : Passing s opens s' opens') (second : Passing s' opens' s'' opens'') :
    Passing s opens s'' opens'' := by
  refine ⟨second.unmixed, fun id aside => ?_, fun id lone closed => ?_⟩
  · obtain ⟨aside', same⟩ := first.aside id aside
    obtain ⟨aside'', same'⟩ := second.aside id aside'
    exact ⟨aside'', same.trans same'⟩
  · obtain ⟨lone', closed'⟩ := first.lone id lone closed
    exact second.lone id lone' closed'

end Passing

/-- A change of the tree that redirects nothing. -/
theorem Unmixed.relink (unmixed : Unmixed s opens) (links : s.tree.SameLinks t') (keeps : s.tree.Keeps t' touched) :
    Unmixed { s with tree := t' } opens := by
  refine ⟨unmixed.grounded.relink links, unmixed.named.relink unmixed.grounded links keeps, unmixed.apart,
    fun id mem => Nat.lt_of_lt_of_le (unmixed.old id mem) keeps.grown, fun id mem => ?_⟩
  have old := unmixed.old id mem
  refine (unmixed.each id mem).imp (fun lone => lone.relink unmixed.grounded links) fun ⟨tag, joined⟩ => ?_
  show (t'.own id).tag ∈ _ ∧ Joined ((t'.own id).param "id") id _
  rw [keeps.tag old, keeps.param old]
  exact ⟨tag, joined.keep (joins_relink unmixed.grounded links)⟩

theorem Aside.relink (aside : Aside s.tree opens id) (grounded : Grounded s) (links : s.tree.SameLinks t') :
    Aside t' opens id := by
  refine ⟨Nat.lt_of_lt_of_le aside.old links.grown, fun other mem => ?_⟩
  rw [links.target_eq grounded.sound]
  exact aside.apart other mem

namespace Unmixed

theorem passing_relink (unmixed : Unmixed s opens) (links : s.tree.SameLinks t') (keeps : s.tree.Keeps t' touched)
    (apart : ∀ id, Aside s.tree opens id → id ∉ touched) : Passing s opens { s with tree := t' } opens :=
  ⟨unmixed.relink links keeps,
    fun id aside => ⟨aside.relink unmixed.grounded links, keeps.sameAt aside.old (apart id aside)⟩,
    fun _ lone closed => ⟨lone.relink unmixed.grounded links, closed⟩⟩

/-- Nothing but the tree, the blocks and what is deferred matters. -/
theorem of_same (unmixed : Unmixed s opens) (tree : s'.tree = s.tree) (blocks : s'.blocks = s.blocks)
    (deferred : s'.deferred ⊆ s.deferred) : Unmixed s' opens := by
  obtain ⟨world, _, frames, finished, sources, _, waiting⟩ := s'
  cases tree
  cases blocks
  exact ⟨⟨unmixed.grounded.sound, unmixed.grounded.blocks, fun id mem => unmixed.grounded.deferred id (deferred mem)⟩,
    ⟨unmixed.named.links, unmixed.named.blocks⟩, unmixed.apart, unmixed.old,
    fun id mem => (unmixed.each id mem).imp (fun lone => lone.of_same rfl rfl deferred) fun joined => joined⟩

theorem passing_of_same (unmixed : Unmixed s opens) (tree : s'.tree = s.tree) (blocks : s'.blocks = s.blocks)
    (deferred : s'.deferred ⊆ s.deferred) : Passing s opens s' opens := by
  refine ⟨unmixed.of_same tree blocks deferred, fun id aside => ?_,
    fun id lone closed => ⟨lone.of_same tree blocks deferred, closed⟩⟩
  rw [tree]
  exact ⟨aside, .refl _ id⟩

/-- An open node is closed as it is. -/
theorem passing_pop (unmixed : Unmixed s (top :: opens)) : Passing s (top :: opens) s opens := by
  refine ⟨⟨unmixed.grounded, unmixed.named, (List.nodup_cons.mp unmixed.apart).2, ?_, ?_⟩, fun id aside => ?_,
    fun id lone closed => ?_⟩
  · exact fun id mem => unmixed.old id (List.mem_cons_of_mem _ mem)
  · exact fun id mem => unmixed.each id (List.mem_cons_of_mem _ mem)
  · exact ⟨⟨aside.old, fun other mem => aside.apart other (List.mem_cons_of_mem _ mem)⟩, .refl _ id⟩
  · exact ⟨lone, fun mem => closed (List.mem_cons_of_mem _ mem)⟩

theorem passing_withNode (unmixed : Unmixed s opens) (settled : n.standsFor = none) :
    Passing s opens (withNode s n) opens :=
  unmixed.passing_relink (.push settled s.tree) (.push s.tree n []) fun _ _ => List.not_mem_nil

theorem new_closed (unmixed : Unmixed s opens) : (⟨s.tree.size⟩ : NodeId) ∉ opens :=
  fun mem => Nat.lt_irrefl _ (unmixed.old _ mem)

/-- A node that is new is open from now on. -/
theorem passing_open (unmixed : Unmixed s opens) (passing : Passing s opens s' opens)
    (new : s.tree.size < s'.tree.size) (each : Lone s' ⟨s.tree.size⟩ ∨
      (s'.tree.own ⟨s.tree.size⟩).tag ∈ ["block", "addblock"] ∧
        Joined ((s'.tree.own ⟨s.tree.size⟩).param "id") ⟨s.tree.size⟩ s')
    (here : s'.tree.Settled ⟨s.tree.size⟩) : Passing s opens s' (⟨s.tree.size⟩ :: opens) := by
  have after := passing.unmixed
  refine ⟨⟨after.grounded, after.named, List.nodup_cons.mpr ⟨unmixed.new_closed, after.apart⟩,
    List.forall_mem_cons.mpr ⟨new, after.old⟩, List.forall_mem_cons.mpr ⟨each, after.each⟩⟩, fun id aside => ?_,
    fun id lone closed => ?_⟩
  · obtain ⟨aside', same⟩ := passing.aside id aside
    refine ⟨⟨aside'.old, List.forall_mem_cons.mpr ⟨fun leads => ?_, aside'.apart⟩⟩, same⟩
    rw [here.target_eq] at leads
    exact Nat.lt_irrefl _ (leads ▸ aside.old)
  · obtain ⟨lone', closed'⟩ := passing.lone id lone closed
    refine ⟨lone', fun mem => ?_⟩
    rcases List.mem_cons.mp mem with same | mem
    · exact Nat.lt_irrefl _ (same ▸ lone.old)
    · exact closed' mem

theorem passing_opened (unmixed : Unmixed s opens) (settled : n.standsFor = none) :
    Passing s opens (withNode s n) (⟨s.tree.size⟩ :: opens) := by
  have lone := lone_new unmixed.grounded settled
  exact unmixed.passing_open (unmixed.passing_withNode settled) (new_lt s n) (.inl lone) lone.here

/-- Something is put into an open node. -/
theorem passing_attach (unmixed : Unmixed s opens) (isOpen : id ∈ opens) (e : Element) :
    Passing s opens (attach id e s) opens := by
  refine unmixed.passing_relink (.append s.tree id e) (.append s.tree id e (List.mem_singleton_self _)) ?_
  intro other aside mem
  exact aside.apart id isOpen (List.mem_singleton.mp mem).symm

theorem passing_clear (unmixed : Unmixed s opens) (isOpen : id ∈ opens) :
    Passing s opens { s with tree := s.tree.clear id } opens := by
  refine unmixed.passing_relink (.clear s.tree id) (.clear s.tree id (List.mem_singleton_self _)) ?_
  intro other aside mem
  exact aside.apart id isOpen (List.mem_singleton.mp mem).symm

theorem passing_noteElse (unmixed : Unmixed s opens) (id : NodeId) : Passing s opens (noteElse id s) opens :=
  unmixed.passing_relink (.update s.tree id (fun n => { n with hasElse := true }) fun _ => rfl)
    (continues_noteElse id s []).keeps fun _ _ => List.not_mem_nil

/-- The content of an open node moves to a node of its own. -/
theorem passing_movedOut (unmixed : Unmixed s opens) (isOpen : id ∈ opens) :
    Passing s opens { s with tree := movedOut id s.tree } opens := by
  have copied : Passing s opens (withNode s (bodyNode id s)) opens := unmixed.passing_withNode rfl
  exact copied.trans (copied.unmixed.passing_clear isOpen)

/-- The node that takes the content is alone. -/
theorem lone_movedOut (unmixed : Unmixed s opens) (id : NodeId) :
    Lone { s with tree := movedOut id s.tree } ⟨s.tree.size⟩ := by
  have copied : Passing s opens (withNode s (bodyNode id s)) opens := unmixed.passing_withNode rfl
  exact (lone_new unmixed.grounded rfl).relink copied.unmixed.grounded (.clear (withNode s (bodyNode id s)).tree id)

theorem param_movedOut (unmixed : Unmixed s opens) (id : NodeId) :
    ((movedOut id s.tree).own ⟨s.tree.size⟩).param "id" = (s.tree.own id).param "id" := by
  have keeps := Tree.Keeps.clear (withNode s (bodyNode id s)).tree id (List.mem_singleton_self _)
  have new : (⟨s.tree.size⟩ : NodeId).index < (withNode s (bodyNode id s)).tree.size := new_lt s _
  rw [movedOut_eq, keeps.param new, own_withNode]
  exact unmixed.named.target unmixed.grounded.sound id

/-! #### The tags for blocks -/

theorem passing_blockOpened (unmixed : Unmixed s opens) (settled : n.standsFor = none)
    (tag : n.tag ∈ ["block", "addblock"]) : Passing s opens (blockOpened n s) (⟨s.tree.size⟩ :: opens) := by
  unfold blockOpened
  split
  · rename_i unknown
    let b : Block := ⟨⟨s.tree.size⟩, s.frames.length⟩
    have own := own_withNode s n
    have plain : Passing s opens (withNode s n) opens := unmixed.passing_withNode settled
    have joins : Joins (withNode s n) { withNode s n with blocks := Keyed.put (n.param "id") b s.blocks } :=
      joins_define fun known found => by cases unknown.symm.trans found
    have free : ∀ id, Lone (withNode s n) id → id.index < s.tree.size →
        Lone { withNode s n with blocks := Keyed.put (n.param "id") b s.blocks } id :=
      fun id lone old => lone.define fun same => Nat.lt_irrefl _ (same ▸ old)
    have registered : Joined (n.param "id") b.node
        { withNode s n with blocks := Keyed.put (n.param "id") b s.blocks } :=
      ⟨b, Keyed.get?_put_self .., rfl⟩
    refine unmixed.passing_open ⟨⟨plain.unmixed.grounded.define (new_lt s n),
      plain.unmixed.named.define (congrArg (·.param "id") own), plain.unmixed.apart, plain.unmixed.old,
      fun id mem => ?_⟩, plain.aside, fun id lone closed => ?_⟩ (new_lt s n) (.inr ?_) ?_
    · exact (plain.unmixed.each id mem).imp (fun lone => free id lone (unmixed.old id mem))
        fun ⟨tag, joined⟩ => ⟨tag, joined.keep joins⟩
    · obtain ⟨lone', closed'⟩ := plain.lone id lone closed
      exact ⟨free id lone' lone.old, closed'⟩
    · show ((withNode s n).tree.own _).tag ∈ _ ∧ Joined (((withNode s n).tree.own _).param "id") _ _
      rw [own]
      exact ⟨tag, registered⟩
    · exact (congrArg Node.standsFor own).trans settled
  · exact unmixed.passing_opened settled

/-- A new node that is redirected to its block was alone, so nothing else is redirected with it. -/
theorem passing_putblockPlaced (unmixed : Unmixed s opens) (settled : n.standsFor = none) :
    Passing s opens (putblockPlaced n s) opens := by
  have plain : Passing s opens (withNode s n) opens := unmixed.passing_withNode settled
  have joins := joins_putblockPlaced unmixed.grounded settled
  have keeps := (continues_putblockPlaced n s []).keeps
  have apart : ∀ id : NodeId, id.index < s.tree.size → (⟨s.tree.size⟩ : NodeId) ≠ id :=
    fun id old same => Nat.lt_irrefl _ (same ▸ old)
  -- What is left to show differs between a reference to a known block and one that waits.
  suffices rest : Named (putblockPlaced n s) ∧ (∀ id, Lone s id → Lone (putblockPlaced n s) id) ∧
      ∀ id, Aside s.tree opens id → Aside (putblockPlaced n s).tree opens id by
    obtain ⟨named, free, aside⟩ := rest
    refine ⟨⟨unmixed.grounded.putblockPlaced settled, named, unmixed.apart,
      fun id mem => Nat.lt_of_lt_of_le (unmixed.old id mem) keeps.grown, fun id mem => ?_⟩,
      fun id beside => ⟨aside id beside, keeps.sameAt beside.old List.not_mem_nil⟩,
      fun id lone closed => ⟨free id lone, closed⟩⟩
    refine (unmixed.each id mem).imp (free id) fun ⟨tag, joined⟩ => ?_
    rw [keeps.tag (unmixed.old id mem), keeps.param (unmixed.old id mem)]
    exact ⟨tag, joined.keep joins⟩
  have free : ∀ id, Lone s id → Lone (withNode s n) id :=
    fun id lone => lone.relink unmixed.grounded (.push settled s.tree)
  unfold putblockPlaced
  split
  · refine ⟨⟨plain.unmixed.named.links, plain.unmixed.named.blocks⟩, fun id lone => ?_,
      fun id beside => (plain.aside id beside).1⟩
    exact (free id lone).defer (apart id lone.old)
  · rename_i b known
    have alone := lone_new unmixed.grounded settled
    have source : (withNode s n).tree.target ⟨s.tree.size⟩ = ⟨s.tree.size⟩ := alone.here.target_eq
    have name : ((withNode s n).tree.own ⟨s.tree.size⟩).param "id" = ((withNode s n).tree.own b.node).param "id" := by
      rw [own_withNode]
      exact (plain.unmixed.named.blocks _ b known).symm
    refine ⟨plain.unmixed.named.redirect plain.unmixed.grounded name, fun id lone => ?_, fun id beside => ⟨?_, ?_⟩⟩
    · refine (free id lone).redirect plain.unmixed.grounded (new_lt s n) ?_ ((free id lone).apart_known known)
      rw [source]
      exact apart id lone.old
    · rw [Tree.size_redirect]
      exact (plain.aside id beside).1.old
    · intro other mem
      show ((withNode s n).tree.redirect ⟨s.tree.size⟩ b.node).target other ≠ id
      rw [plain.unmixed.grounded.sound.target_redirect alone.old, source, if_neg]
      · exact (plain.aside id beside).1.apart other mem
      · intro leads
        exact apart other (unmixed.old other mem) (alone.only other leads).symm

end Unmixed

/-! #### What is closed is settled with the block -/

section Settling

variable {holder : NodeId} {block : String}

theorem Grounded.settle (grounded : Grounded s) (old : holder.index < s.tree.size) :
    Grounded (settle holder block s) := by
  unfold Compile.settle
  split
  · exact grounded.define old
  · rename_i known found
    have known_old := grounded.blocks _ known found
    split
    · exact grounded
    · split
      · exact grounded.redirect old known_old
      · refine (grounded.redirect known_old old).define ?_
        show holder.index < (s.tree.redirect _ _).size
        rw [Tree.size_redirect]
        exact old

theorem keeps_settle (holder : NodeId) (block : String) (s : CompileState W) :
    s.tree.Keeps (settle holder block s).tree [] := by
  unfold settle
  split
  · exact .refl _ _
  · split
    · exact .refl _ _
    · split <;> exact .redirect _ _ _ _

theorem Named.settle (named : Named s) (grounded : Grounded s) (name : (s.tree.own holder).param "id" = block) :
    Named (settle holder block s) := by
  unfold Compile.settle
  split
  · exact named.define name
  · rename_i known found
    have same := named.blocks block known found
    split
    · exact named
    · split
      · exact named.redirect grounded (name.trans same.symm)
      · refine (named.redirect grounded (same.trans name.symm)).define ?_
        obtain ⟨next, own, -⟩ := s.tree.own_redirect known.node holder holder
        show ((s.tree.redirect known.node holder).own holder).param "id" = block
        rw [own]
        exact name

theorem Lone.settle (lone : Lone s id) (grounded : Grounded s) (old : holder.index < s.tree.size)
    (apart : holder ≠ id) : Lone (settle holder block s) id := by
  unfold Compile.settle
  split
  · exact lone.define apart
  · rename_i known found
    have elsewhere := lone.apart_known found
    split
    · exact lone
    · split
      · exact lone.redirect grounded old (lone.apart apart) elsewhere
      · exact (lone.redirect grounded (grounded.blocks _ known found) elsewhere (lone.apart apart)).define apart

/-- Settling redirects no open node to a node that none leads to. An open node that is together with the holder is
together with the block already. -/
theorem Aside.settle (aside : Aside s.tree opens id) (unmixed : Unmixed s opens) (old : holder.index < s.tree.size)
    (name : (s.tree.own holder).param "id" = block) (closed : holder ∉ opens) (apart : s.tree.target holder ≠ id) :
    Aside (settle holder block s).tree opens id := by
  have grounded := unmixed.grounded
  refine ⟨Nat.lt_of_lt_of_le aside.old (keeps_settle holder block s).grown, fun other mem => ?_⟩
  unfold Compile.settle
  split
  · exact aside.apart other mem
  · rename_i known found
    split
    · exact aside.apart other mem
    · split
      · show (s.tree.redirect holder known.node).target other ≠ id
        rw [grounded.sound.target_redirect old]
        split
        · rename_i together
          rcases unmixed.each other mem with lone | ⟨-, b, found', leads⟩
          · rw [lone.here.target_eq] at together
            exact absurd (lone.only holder together.symm) fun same => closed (same ▸ mem)
          · have names : (s.tree.own other).param "id" = block := by
              rw [← name, ← unmixed.named.target grounded.sound, together, unmixed.named.target grounded.sound]
            rw [names] at found'
            cases found.symm.trans found'
            rw [← leads]
            exact aside.apart other mem
        · exact aside.apart other mem
      · show (s.tree.redirect known.node holder).target other ≠ id
        rw [grounded.sound.target_redirect (grounded.blocks _ known found)]
        split
        · exact apart
        · exact aside.apart other mem

theorem Unmixed.settle (unmixed : Unmixed s opens) (old : holder.index < s.tree.size)
    (name : (s.tree.own holder).param "id" = block) (closed : holder ∉ opens) :
    Unmixed (settle holder block s) opens := by
  have keeps := keeps_settle holder block s
  have joins := (settle_joins unmixed.grounded old block).1
  refine ⟨unmixed.grounded.settle old, unmixed.named.settle unmixed.grounded name, unmixed.apart,
    fun id mem => Nat.lt_of_lt_of_le (unmixed.old id mem) keeps.grown, fun id mem => ?_⟩
  refine (unmixed.each id mem).imp (fun lone => lone.settle unmixed.grounded old fun same => closed (same ▸ mem)) ?_
  intro ⟨tag, joined⟩
  rw [keeps.tag (unmixed.old id mem), keeps.param (unmixed.old id mem)]
  exact ⟨tag, joined.keep joins⟩

theorem Unmixed.passing_blockClosed (unmixed : Unmixed s (top :: opens)) :
    Passing s (top :: opens) (blockClosed top s) opens := by
  have old := unmixed.old top List.mem_cons_self
  have closed := (List.nodup_cons.mp unmixed.apart).1
  have popped := unmixed.passing_pop
  rw [blockClosed_eq]
  refine ⟨popped.unmixed.settle old rfl closed, fun id aside => ⟨?_, ?_⟩, fun id lone shut => ⟨?_, ?_⟩⟩
  · exact (popped.aside id aside).1.settle popped.unmixed old rfl closed (aside.apart top List.mem_cons_self)
  · exact (keeps_settle top _ s).sameAt aside.old List.not_mem_nil
  · exact lone.settle unmixed.grounded old fun same => shut (same ▸ List.mem_cons_self)
  · exact fun mem => shut (List.mem_cons_of_mem _ mem)

theorem Unmixed.passing_blockdefClosed (unmixed : Unmixed s (top :: opens)) :
    Passing s (top :: opens) (blockdefClosed top s) opens := by
  have old := unmixed.old top List.mem_cons_self
  have moved := (unmixed.passing_movedOut List.mem_cons_self).trans
    (unmixed.passing_movedOut List.mem_cons_self).unmixed.passing_pop
  -- The new node is alone, so it is not what any other node leads to, and it has the name of the block.
  have alone := unmixed.lone_movedOut top
  have closed : (⟨s.tree.size⟩ : NodeId) ∉ opens := fun mem => unmixed.new_closed (List.mem_cons_of_mem _ mem)
  have name := unmixed.param_movedOut top
  rw [blockdefClosed_eq top s unmixed.grounded.blocks]
  refine ⟨moved.unmixed.settle alone.old name closed, fun id aside => ?_, fun id lone shut => ?_⟩
  · obtain ⟨aside', same⟩ := moved.aside id aside
    refine ⟨aside'.settle moved.unmixed alone.old name closed ?_,
      same.trans ((keeps_settle _ _ _).sameAt aside'.old List.not_mem_nil)⟩
    rw [alone.here.target_eq]
    exact fun here => Nat.lt_irrefl _ (here ▸ aside.old)
  · obtain ⟨lone', shut'⟩ := moved.lone id lone shut
    exact ⟨lone'.settle moved.unmixed.grounded alone.old fun here => Nat.lt_irrefl _ (here ▸ lone.old), shut'⟩

end Settling

/-! #### Pieces -/

/-- All pieces but the end of an addition leave alone what no open node leads to. -/
theorem effect_passing (effect : Effect s file top below token s' stack)
    (unmixed : Unmixed s (top :: (below ++ outer)))
    (plain : token.kind = .closeTag → (s.tree.own top).tag ≠ "addblock") :
    Passing s (top :: (below ++ outer)) s' (stack ++ outer) := by
  have isOpen : top ∈ top :: (below ++ outer) := List.mem_cons_self
  -- A new node that is not open becomes part of the top of the stack.
  have joins : ∀ {s₁ : CompileState W} (e : Element), Passing s (top :: (below ++ outer)) s₁ (top :: (below ++ outer)) →
      Passing s (top :: (below ++ outer)) (attach top e s₁) (top :: (below ++ outer)) :=
    fun e passing => passing.trans (passing.unmixed.passing_attach isOpen e)
  -- A node that closes becomes part of the one below it.
  have closes : ∀ {s₁ : CompileState W} {parent : NodeId} {under : List NodeId}, below = parent :: under →
      Passing s (top :: (below ++ outer)) s₁ (below ++ outer) →
      Passing s (top :: (below ++ outer)) (attach parent (.node top) s₁) (below ++ outer) :=
    fun nested passing => passing.trans (passing.unmixed.passing_attach (by rw [nested]; exact List.mem_cons_self) _)
  cases effect with
  | text => exact unmixed.passing_attach isOpen _
  | printed => exact joins _ (unmixed.passing_withNode rfl)
  | nested => exact unmixed.passing_opened rfl
  | localized => exact unmixed.passing_opened rfl
  | @block head kind parsed tag =>
    have isBlock : (Node.opened file token.line top head true).tag = "block" := tag
    exact unmixed.passing_blockOpened rfl (by rw [isBlock]; simp)
  | elseIf => exact joins _ (unmixed.passing_withNode rfl)
  | @otherwise head params kind =>
    have new : Passing s _ (withNode s (tagNode file token.line top head false params)) _ :=
      unmixed.passing_withNode rfl
    exact joins _ (new.trans (new.unmixed.passing_noteElse top))
  | putblock => exact joins _ (unmixed.passing_putblockPlaced rfl)
  | @adding head params position kind parsed tag =>
    have adds : ((Node.opened file token.line top head true).withParams params).tag = "addblock" := tag
    exact unmixed.passing_blockOpened rfl (by rw [adds]; simp)
  | closed kind nested => exact closes nested unmixed.passing_pop
  | closedBlock kind nested => exact closes nested unmixed.passing_blockClosed
  | closedBlockdef kind nested => exact closes nested unmixed.passing_blockdefClosed
  | closedAdding kind nested inner tag => exact absurd tag (plain kind)

/-! #### Other templates -/

/-- A tag that had a template read goes on with its root, and is closed. -/
theorem Unmixed.passing_resume (unmixed : Unmixed s (id :: (top :: below ++ outer)))
    (stands : (s.tree.own id).mustClose = false) (head : Markup.Head) (root : NodeId) :
    Passing s (id :: (top :: below ++ outer)) (settled id top below (received head id root s)).2
      ((settled id top below (received head id root s)).1 ++ outer) := by
  have got : Passing s (id :: (top :: below ++ outer)) (received head id root s) (id :: (top :: below ++ outer)) := by
    unfold received
    split
    · exact unmixed.passing_of_same rfl rfl (List.Subset.refl _)
    · have cleared := unmixed.passing_clear List.mem_cons_self
      exact cleared.trans (cleared.unmixed.passing_attach List.mem_cons_self (.node root))
  have closed := got.trans got.unmixed.passing_pop
  rw [settled_received (unmixed.old id List.mem_cons_self) stands]
  exact closed.trans (closed.unmixed.passing_attach List.mem_cons_self (.node id))

/-- Another source is entered. -/
theorem Unmixed.passing_enter {sheet : Sheet} (unmixed : Unmixed s opens) (laid : Laid s sheet s') :
    Passing s opens s' (sheet.stack ++ opens) := by
  obtain ⟨stack, name, w, sources, rfl⟩ := laid
  have opened : Passing s opens (withNode s (rootNode name)) (⟨s.tree.size⟩ :: opens) := unmixed.passing_opened rfl
  rw [stack]
  exact opened.trans (opened.unmixed.passing_of_same rfl rfl (List.Subset.refl _))

/-! #### Steps -/

/-- What holds of open nodes at any time. -/
structure Ordered (r : Reader W) : Prop where
  shaped : Shaped r
  unmixed : Unmixed r.state (openNodes r.sheets)

/-- No open node leads to a node at this moment. -/
def Beside (r : Reader W) (id : NodeId) : Prop := Aside r.state.tree (openNodes r.sheets) id

theorem openNodes_cons (sheet : Sheet) (sheets : List Sheet) :
    openNodes (sheet :: sheets) = sheet.stack ++ openNodes sheets :=
  rfl

/-- All steps but the end of an addition leave alone what no open node leads to. -/
theorem Ordered.passing (standard : c.table = standardTable) {r r' : Reader W} (ordered : Ordered r)
    (step : Step c r r') (plain : r.adds? = none) :
    Passing r.state (openNodes r.sheets) r'.state (openNodes r'.sheets) := by
  obtain ⟨shaped, unmixed⟩ := ordered
  cases step with
  | @put s s' frame token tokens stack stack' outer h reads run =>
    obtain ⟨top, below, rfl, old, effect⟩ := shaped.effect standard reads run
    refine effect_passing effect unmixed fun kind tag => ?_
    unfold Reader.adds? Reader.closes? at plain
    dsimp only at plain
    rw [if_pos kind, Option.filter_some, if_pos (by rw [tag]; rfl)] at plain
    cases plain
  | @again s s₁ frame token tokens top root below outer h head reads checked again =>
    obtain ⟨-, waits⟩ := shaped.refer reads
    obtain ⟨w, rfl⟩ := again_ok again
    have referred : Passing s _ (referring frame.name token.line top head s) _ := unmixed.passing_opened rfl
    have asked : Passing s _ { referring frame.name token.line top head s with world := w } _ :=
      referred.trans (referred.unmixed.passing_of_same rfl rfl (List.Subset.refl _))
    exact asked.trans (asked.unmixed.passing_resume waits.stands head root)
  | @enter s s₁ frame token tokens top below outer h head sheet reads checked enters =>
    have referred : Passing s _ (referring frame.name token.line top head s) _ := unmixed.passing_opened rfl
    exact referred.trans (referred.unmixed.passing_enter (enters_laid enters))
  | @leave s inner frame token tokens id top below outer h head finished reads =>
    obtain ⟨root, stack, -⟩ := finished_stack (shaped.upright _ List.mem_cons_self) finished
    have waits := shaped.waiting _ List.mem_cons_self
    rw [openNodes_cons, stack] at unmixed ⊢
    have popped : Passing s _ (left inner s) _ :=
      unmixed.passing_pop.trans (unmixed.passing_pop.unmixed.passing_of_same rfl rfl (List.Subset.refl _))
    exact popped.trans (popped.unmixed.passing_resume waits.stands head (rootOf inner s))

end Compile

end Stencil
