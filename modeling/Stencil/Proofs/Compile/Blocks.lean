import Stencil.Proofs.Compile.Reading
import Stencil.Proofs.Tree.Keeping

/-!
What the blocks of a compilation show at any time. Of the definitions that have closed the one of the shallowest
template wins, and among equals the last. A block that is known leads to the content of the winner so far, unless
it is still open and shallower than all that have closed.
-/
namespace Stencil

/-- The definitions of a block in the order in which they closed. -/
def definitions (block : String) (h : List BlockEvent) : List Definition :=
  h.filterMap fun
    | .defined d => if d.block = block then some d else none
    | _ => none

/-- The definition that counts: the shallowest, and among equals the last. -/
def Wins (d : Definition) (ds : List Definition) : Prop :=
  ∃ before after, ds = before ++ d :: after ∧ (∀ e ∈ before, d.depth ≤ e.depth) ∧ ∀ e ∈ after, d.depth < e.depth

section Winning

variable {d e : Definition} {ds : List Definition}

theorem Wins.mem (wins : Wins d ds) : d ∈ ds := by
  obtain ⟨before, after, rfl, -, -⟩ := wins
  exact List.mem_append_right _ List.mem_cons_self

theorem Wins.le (wins : Wins d ds) (mem : e ∈ ds) : d.depth ≤ e.depth := by
  obtain ⟨before, after, rfl, first, second⟩ := wins
  rcases List.mem_append.mp mem with mem | mem
  · exact first e mem
  · rcases List.mem_cons.mp mem with rfl | mem
    · exact Nat.le_refl _
    · exact Nat.le_of_lt (second e mem)

theorem Wins.replaced (below : ∀ e ∈ ds, d.depth ≤ e.depth) : Wins d (ds ++ [d]) :=
  ⟨ds, [], rfl, below, fun _ h => by cases h⟩

theorem Wins.kept (wins : Wins d ds) (deeper : d.depth < e.depth) : Wins d (ds ++ [e]) := by
  obtain ⟨before, after, rfl, first, second⟩ := wins
  refine ⟨before, after ++ [e], by simp, first, fun x mem => ?_⟩
  rcases List.mem_append.mp mem with mem | mem
  · exact second x mem
  · cases List.mem_singleton.mp mem
    exact deeper

/-- No two definitions win. -/
theorem Wins.unique (wins : Wins d ds) (wins' : Wins e ds) : d = e := by
  obtain ⟨before, after, rfl, first, second⟩ := wins
  obtain ⟨before', after', same, first', second'⟩ := wins'
  rcases List.append_eq_append_iff.mp same with ⟨middle, rfl, rest⟩ | ⟨middle, rfl, rest⟩
  · cases middle with
    | nil => exact (List.cons.inj rest).1
    | cons x middle =>
      obtain ⟨rfl, rfl⟩ := List.cons.inj rest
      have le := first' d (by simp)
      have lt := second e (by simp)
      omega
  · cases middle with
    | nil => exact (List.cons.inj rest).1.symm
    | cons x middle =>
      obtain ⟨rfl, rfl⟩ := List.cons.inj rest
      have le := first e (by simp)
      have lt := second' d (by simp)
      omega

theorem exists_wins (some : ds ≠ []) : ∃ d, Wins d ds := by
  induction ds with
  | nil => exact absurd rfl some
  | cons e rest ih =>
    by_cases last : rest = []
    · subst last
      exact ⟨e, [], [], rfl, fun _ h => (by cases h), fun _ h => (by cases h)⟩
    · obtain ⟨d, wins⟩ := ih last
      by_cases deeper : d.depth ≤ e.depth
      · obtain ⟨before, after, rfl, first, second⟩ := wins
        refine ⟨d, e :: before, after, rfl, fun x mem => ?_, second⟩
        rcases List.mem_cons.mp mem with rfl | mem
        · exact deeper
        · exact first x mem
      · refine ⟨e, [], rest, rfl, fun _ h => (by cases h), fun x mem => ?_⟩
        have le := wins.le mem
        omega

end Winning

namespace Compile

variable {W : Type} {s : CompileState W} {t t' : Tree} {blocks : Keyed Block} {deferred : List NodeId}
  {opens opens' : List (NodeId × Nat)} {h : List BlockEvent} {block : String}

/-- The content of a definition is what this node holds, and nothing else is written for it. -/
structure Holds (t : Tree) (id : NodeId) (body : List Element) : Prop where
  opening : (t.own id).opening = ""
  body : (t.own id).body = body
  closing : (t.own id).closing = ""
  name : (t.own id).name ≠ some "t"

theorem Holds.keep {id : NodeId} {body : List Element} {touched : List NodeId} (holds : Holds t id body)
    (keeps : t.Keeps t' touched) (old : id.index < t.size) (apart : id ∉ touched) : Holds t' id body := by
  obtain ⟨o, b, c⟩ := keeps.content id old apart
  exact ⟨o.trans holds.opening, b.trans holds.body, c.trans holds.closing,
    by rw [keeps.names id old]; exact holds.name⟩

theorem Holds.redirect {id : NodeId} {body : List Element} (holds : Holds t id body) (old : id.index < t.size)
    (source destination : NodeId) : Holds (t.redirect source destination) id body :=
  holds.keep (.redirect t source destination []) old List.not_mem_nil

/-- A known block is the winner of the definitions so far, or is still open and shallower than all of them. -/
inductive Current (t : Tree) (opens : List (NodeId × Nat)) (ds : List Definition) (b : Block) : Prop where
  | won {d : Definition} (wins : Wins d ds) (depth : b.depth = d.depth) (holds : Holds t b.node d.body)
      (shut : ∀ depth, (b.node, depth) ∉ opens)
  | awaited (stands : (b.node, b.depth) ∈ opens) (tag : (t.own b.node).tag = "block")
      (inner : (t.own b.node).isRoot = false) (deeper : ∀ e ∈ ds, b.depth < e.depth)

/-- The place of a closed definition: either it leads to the block, or it is empty. -/
structure Placed (t : Tree) (blocks : Keyed Block) (deferred : List NodeId) (opens : List (NodeId × Nat))
    (e : Definition) : Prop where
  old : e.site.index < t.size
  shut : ∀ depth, (e.site, depth) ∉ opens
  known : ∃ b, Keyed.get? e.block blocks = some b
  leads : e.inPlace = true → ∀ b, Keyed.get? e.block blocks = some b → t.target e.site = b.node
  empty : e.inPlace = false → t.Settled e.site ∧ Holds t e.site [] ∧ e.site ∉ deferred ∧
    ∀ block b, Keyed.get? block blocks = some b → b.node ≠ e.site

/-- A reference to a block leads to it, or waits. -/
structure Referred (t : Tree) (blocks : Keyed Block) (deferred : List NodeId) (opens : List (NodeId × Nat))
    (block : String) (site : NodeId) : Prop where
  old : site.index < t.size
  shut : ∀ depth, (site, depth) ∉ opens
  param : (t.own site).param "id" = block
  leads : site ∈ deferred ∨ ∃ b, Keyed.get? block blocks = some b ∧ t.target site = b.node

/-- What blocks, definitions and references are to each other at any time of a compilation. -/
structure Resolved (t : Tree) (blocks : Keyed Block) (deferred : List NodeId) (opens : List (NodeId × Nat))
    (h : List BlockEvent) : Prop where
  unknown : ∀ block, Keyed.get? block blocks = none → definitions block h = []
  old : ∀ block b, Keyed.get? block blocks = some b → b.node.index < t.size
  settled : ∀ block b, Keyed.get? block blocks = some b → t.Settled b.node
  param : ∀ block b, Keyed.get? block blocks = some b → (t.own b.node).param "id" = block
  current : ∀ block b, Keyed.get? block blocks = some b → Current t opens (definitions block h) b
  placed : ∀ e, .defined e ∈ h → Placed t blocks deferred opens e
  referred : ∀ block site, .used block site ∈ h → Referred t blocks deferred opens block site
  waiting : ∀ id ∈ deferred, t.Settled id ∧ (∃ block, .used block id ∈ h) ∧
    ∀ block b, Keyed.get? block blocks = some b → b.node ≠ id
  once : deferred.Nodup

theorem definitions_append (block : String) (h h' : List BlockEvent) :
    definitions block (h ++ h') = definitions block h ++ definitions block h' :=
  List.filterMap_append

theorem definitions_defined (block : String) (h : List BlockEvent) (e : Definition) :
    definitions block (h ++ [.defined e]) =
      if e.block = block then definitions block h ++ [e] else definitions block h := by
  rw [definitions_append]
  unfold definitions
  split
  · rename_i same
    simp [same]
  · rename_i other
    simp [other]

theorem definitions_used (other : String) (h : List BlockEvent) (block : String) (site : NodeId) :
    definitions other (h ++ [.used block site]) = definitions other h := by
  rw [definitions_append]
  exact List.append_nil _

theorem mem_definitions {e : Definition} : e ∈ definitions block h ↔ .defined e ∈ h ∧ e.block = block := by
  unfold definitions
  rw [List.mem_filterMap]
  constructor
  · rintro ⟨event, mem, found⟩
    split at found
    · split at found
      · cases found
        exact ⟨mem, ‹_›⟩
      · cases found
    · cases found
  · rintro ⟨mem, same⟩
    exact ⟨_, mem, if_pos same⟩

/-- A node that has nothing to do with blocks so far. -/
structure Unseen (blocks : Keyed Block) (opens : List (NodeId × Nat)) (h : List BlockEvent) (id : NodeId) :
    Prop where
  shut : ∀ depth, (id, depth) ∉ opens
  block : ∀ block b, Keyed.get? block blocks = some b → b.node ≠ id
  site : ∀ e, .defined e ∈ h → e.site ≠ id
  reference : ∀ block site, .used block site ∈ h → site ≠ id

namespace Resolved

variable {touched : List NodeId}

/-- Only the work on nodes that are open goes on, and no block stops being open. -/
theorem keep (r : Resolved t blocks deferred opens h) (sound : t.Sound) (links : t.SameLinks t')
    (keeps : t.Keeps t' touched) (within : ∀ id ∈ touched, ∃ depth, (id, depth) ∈ opens)
    (opened : ∀ p ∈ opens', p ∈ opens ∨ t.size ≤ p.1.index)
    (stays : ∀ p ∈ opens, (t.own p.1).tag = "block" → (t.own p.1).isRoot = false → p ∈ opens') :
    Resolved t' blocks deferred opens' h := by
  have shut : ∀ id : NodeId, id.index < t.size → (∀ depth, (id, depth) ∉ opens) → ∀ depth, (id, depth) ∉ opens' := by
    intro id old shut depth mem
    rcases opened _ mem with mem | new
    · exact shut depth mem
    · exact absurd old (Nat.not_lt.mpr new)
  have holds : ∀ (id : NodeId) (body : List Element), id.index < t.size → (∀ depth, (id, depth) ∉ opens) →
      Holds t id body → Holds t' id body := by
    intro id body old shut holds
    refine holds.keep keeps old fun mem => ?_
    obtain ⟨depth, mem⟩ := within id mem
    exact shut depth mem
  constructor
  case unknown => exact r.unknown
  case old => exact fun block b known => Nat.lt_of_lt_of_le (r.old block b known) keeps.grown
  case settled => exact fun block b known => (links.settled_iff _).mpr (r.settled block b known)
  case param =>
    intro block b known
    rw [keeps.param (r.old block b known)]
    exact r.param block b known
  case current =>
    intro block b known
    have old := r.old block b known
    cases r.current block b known with
    | won wins depth content closed => exact .won wins depth (holds _ _ old closed content) (shut _ old closed)
    | awaited stands tag inner deeper =>
      exact .awaited (stays _ stands tag inner) (by rw [keeps.tag old]; exact tag)
        (by rw [keeps.roots _ old]; exact inner) deeper
  case placed =>
    intro e mem
    have placed := r.placed e mem
    refine ⟨Nat.lt_of_lt_of_le placed.old keeps.grown, shut _ placed.old placed.shut, placed.known, ?_, ?_⟩
    · intro inPlace b known
      rw [links.target_eq sound]
      exact placed.leads inPlace b known
    · intro inPlace
      obtain ⟨settled, content, apart, other⟩ := placed.empty inPlace
      exact ⟨(links.settled_iff _).mpr settled, holds _ _ placed.old placed.shut content, apart, other⟩
  case referred =>
    intro block site mem
    have referred := r.referred block site mem
    refine ⟨Nat.lt_of_lt_of_le referred.old keeps.grown, shut _ referred.old referred.shut, ?_, ?_⟩
    · rw [keeps.param referred.old]
      exact referred.param
    · rw [links.target_eq sound]
      exact referred.leads
  case waiting =>
    intro id mem
    obtain ⟨settled, used, other⟩ := r.waiting id mem
    exact ⟨(links.settled_iff _).mpr settled, used, other⟩
  case once => exact r.once

/-- That a tag has opened changes nothing for blocks. -/
theorem noted (r : Resolved t blocks deferred opens h) {more : List BlockEvent}
    (plain : ∀ e ∈ more, ∃ tag block around, e = .opened tag block around) :
    Resolved t blocks deferred opens (h ++ more) := by
  have none : ∀ block, definitions block more = [] := by
    intro block
    refine List.eq_nil_iff_forall_not_mem.mpr fun e mem => ?_
    obtain ⟨tag, block, around, same⟩ := plain _ (mem_definitions.mp mem).1
    cases same
  have same : ∀ block, definitions block (h ++ more) = definitions block h := by
    intro block
    rw [definitions_append, none, List.append_nil]
  have before : ∀ e ∈ h ++ more, (∀ tag block around, e ≠ .opened tag block around) → e ∈ h := by
    intro e mem other
    rcases List.mem_append.mp mem with mem | mem
    · exact mem
    · obtain ⟨tag, block, around, rfl⟩ := plain e mem
      exact absurd rfl (other tag block around)
  constructor
  case unknown =>
    intro block unknown
    rw [same]
    exact r.unknown block unknown
  case old => exact r.old
  case settled => exact r.settled
  case param => exact r.param
  case current =>
    intro block b known
    rw [same]
    exact r.current block b known
  case placed => exact fun e mem => r.placed e (before _ mem fun _ _ _ h => by cases h)
  case referred => exact fun block site mem => r.referred block site (before _ mem fun _ _ _ h => by cases h)
  case waiting =>
    intro id mem
    obtain ⟨settled, ⟨block, used⟩, other⟩ := r.waiting id mem
    exact ⟨settled, ⟨block, List.mem_append_left _ used⟩, other⟩
  case once => exact r.once

/-- A block opens that was not known. -/
theorem declare (r : Resolved t blocks deferred opens h) {id : NodeId} {depth : Nat}
    (unknown : Keyed.get? block blocks = none) (stands : (id, depth) ∈ opens) (old : id.index < t.size)
    (settled : t.Settled id) (tag : (t.own id).tag = "block") (inner : (t.own id).isRoot = false)
    (param : (t.own id).param "id" = block) :
    Resolved t (Keyed.put block ⟨id, depth⟩ blocks) deferred opens h := by
  have none : ∀ e, .defined e ∈ h → e.block ≠ block := by
    intro e mem same
    have found : e ∈ definitions block h := mem_definitions.mpr ⟨mem, same⟩
    rw [r.unknown block unknown] at found
    cases found
  have apart : ∀ other : NodeId, (∀ depth, (other, depth) ∉ opens) → id ≠ other :=
    fun other shut same => shut depth (same ▸ stands)
  constructor
  case unknown =>
    intro other unknown'
    by_cases same : block = other
    · rw [same, Keyed.get?_put_self] at unknown'
      cases unknown'
    · rw [Keyed.get?_put_of_ne same] at unknown'
      exact r.unknown other unknown'
  case old =>
    intro other b known
    rcases Keyed.get?_put known with ⟨-, rfl⟩ | ⟨-, known⟩
    · exact old
    · exact r.old other b known
  case settled =>
    intro other b known
    rcases Keyed.get?_put known with ⟨-, rfl⟩ | ⟨-, known⟩
    · exact settled
    · exact r.settled other b known
  case param =>
    intro other b known
    rcases Keyed.get?_put known with ⟨rfl, rfl⟩ | ⟨-, known⟩
    · exact param
    · exact r.param other b known
  case current =>
    intro other b known
    rcases Keyed.get?_put known with ⟨rfl, rfl⟩ | ⟨-, known⟩
    · refine .awaited stands tag inner fun e mem => ?_
      rw [r.unknown block unknown] at mem
      cases mem
    · exact r.current other b known
  case placed =>
    intro e mem
    have placed := r.placed e mem
    have other := (none e mem).symm
    refine ⟨placed.old, placed.shut, ?_, fun inPlace b known => ?_, fun inPlace => ?_⟩
    · rw [Keyed.get?_put_of_ne other]
      exact placed.known
    · rw [Keyed.get?_put_of_ne other] at known
      exact placed.leads inPlace b known
    · obtain ⟨settled, content, deferral, known⟩ := placed.empty inPlace
      refine ⟨settled, content, deferral, fun other b known' => ?_⟩
      rcases Keyed.get?_put known' with ⟨-, rfl⟩ | ⟨-, known'⟩
      · exact apart _ placed.shut
      · exact known other b known'
  case referred =>
    intro other site mem
    have referred := r.referred other site mem
    refine ⟨referred.old, referred.shut, referred.param, referred.leads.imp_right ?_⟩
    rintro ⟨b, known, leads⟩
    refine ⟨b, ?_, leads⟩
    rw [Keyed.get?_put_of_ne fun same => ?_]
    · exact known
    · rw [← same, unknown] at known
      cases known
  case waiting =>
    intro other mem
    obtain ⟨settled, ⟨name, used⟩, apart'⟩ := r.waiting other mem
    refine ⟨settled, ⟨name, used⟩, fun name' b known => ?_⟩
    rcases Keyed.get?_put known with ⟨-, rfl⟩ | ⟨-, known⟩
    · exact apart _ (r.referred name other used).shut
    · exact apart' name' b known
  case once => exact r.once

/-- A reference comes while its block is not known. -/
theorem await (r : Resolved t blocks deferred opens h) {id : NodeId} (unseen : Unseen blocks opens h id)
    (old : id.index < t.size) (settled : t.Settled id) (param : (t.own id).param "id" = block) :
    Resolved t blocks (deferred ++ [id]) opens (h ++ [.used block id]) := by
  constructor
  case unknown =>
    intro other unknown
    rw [definitions_used]
    exact r.unknown other unknown
  case old => exact r.old
  case settled => exact r.settled
  case param => exact r.param
  case current =>
    intro other b known
    rw [definitions_used]
    exact r.current other b known
  case placed =>
    intro e mem
    have mem : .defined e ∈ h := by simpa using mem
    have placed := r.placed e mem
    refine ⟨placed.old, placed.shut, placed.known, placed.leads, fun inPlace => ?_⟩
    obtain ⟨settled, content, apart, other⟩ := placed.empty inPlace
    refine ⟨settled, content, fun mem' => ?_, other⟩
    rcases List.mem_append.mp mem' with mem' | mem'
    · exact apart mem'
    · exact unseen.site e mem (List.mem_singleton.mp mem')
  case referred =>
    intro other site mem
    rcases List.mem_append.mp mem with mem | mem
    · have referred := r.referred other site mem
      exact ⟨referred.old, referred.shut, referred.param, referred.leads.imp_left (List.mem_append_left _)⟩
    · cases List.mem_singleton.mp mem
      exact ⟨old, unseen.shut, param, .inl (List.mem_append_right _ (List.mem_singleton_self _))⟩
  case waiting =>
    intro other mem
    rcases List.mem_append.mp mem with mem | mem
    · obtain ⟨settled, ⟨name, used⟩, apart⟩ := r.waiting other mem
      exact ⟨settled, ⟨name, List.mem_append_left _ used⟩, apart⟩
    · cases List.mem_singleton.mp mem
      exact ⟨settled, ⟨block, List.mem_append_right _ (List.mem_singleton_self _)⟩, unseen.block⟩
  case once =>
    refine List.nodup_append.mpr ⟨r.once, List.nodup_cons.mpr ⟨List.not_mem_nil, List.nodup_nil⟩, ?_⟩
    intro other mem new single same
    obtain ⟨-, ⟨name, used⟩, -⟩ := r.waiting other mem
    exact unseen.reference name other used (same.trans (List.mem_singleton.mp single))

/-- A node is redirected to which no block and no definition leads; if it waited, it need not wait any longer. -/
theorem divert (r : Resolved t blocks deferred opens h) (sound : t.Sound) {source destination : NodeId}
    {deferred' : List NodeId} (old : source.index < t.size) (settled : t.Settled source)
    (block : ∀ block b, Keyed.get? block blocks = some b → b.node ≠ source)
    (empty : ∀ e, .defined e ∈ h → e.inPlace = false → e.site ≠ source) (waits : source ∉ deferred')
    (sub : deferred'.Sublist deferred) (done : ∀ block site, .used block site ∈ h → site ∈ deferred →
      site ∈ deferred' ∨ site = source ∧ ∃ b, Keyed.get? block blocks = some b ∧ b.node = destination) :
    Resolved (t.redirect source destination) blocks deferred' opens h := by
  have keeps := Tree.Keeps.redirect t source destination []
  have end' : t.target source = source := settled.target_eq
  have stays : ∀ {id}, t.Settled id → id ≠ source → (t.redirect source destination).Settled id :=
    fun settled apart => settled.redirect (by rw [end']; exact apart)
  have targets : ∀ {id b}, t.target id = b → b ≠ source → (t.redirect source destination).target id = b := by
    intro id b same apart
    rw [sound.target_redirect old, end', same, if_neg apart]
  have holds : ∀ {id body}, id.index < t.size → Holds t id body → Holds (t.redirect source destination) id body :=
    fun old holds => holds.redirect old source destination
  constructor
  case unknown => exact r.unknown
  case old => exact fun name b known => Nat.lt_of_lt_of_le (r.old name b known) keeps.grown
  case settled => exact fun name b known => stays (r.settled name b known) (block name b known)
  case param =>
    intro name b known
    rw [keeps.param (r.old name b known)]
    exact r.param name b known
  case current =>
    intro name b known
    have old := r.old name b known
    cases r.current name b known with
    | won wins depth content shut => exact .won wins depth (holds old content) shut
    | awaited stands tag inner deeper =>
      exact .awaited stands (by rw [keeps.tag old]; exact tag) (by rw [keeps.roots _ old]; exact inner) deeper
  case placed =>
    intro e mem
    have placed := r.placed e mem
    refine ⟨Nat.lt_of_lt_of_le placed.old keeps.grown, placed.shut, placed.known, ?_, fun inPlace => ?_⟩
    · exact fun inPlace b known => targets (placed.leads inPlace b known) (block _ b known)
    · obtain ⟨settled, content, apart, other⟩ := placed.empty inPlace
      exact ⟨stays settled (empty e mem inPlace), holds placed.old content, fun mem => apart (sub.subset mem), other⟩
  case referred =>
    intro name site mem
    have referred := r.referred name site mem
    refine ⟨Nat.lt_of_lt_of_le referred.old keeps.grown, referred.shut, ?_, ?_⟩
    · rw [keeps.param referred.old]
      exact referred.param
    · rcases referred.leads with waits | ⟨b, known, leads⟩
      · rcases done name site mem waits with waits | ⟨rfl, b, known, rfl⟩
        · exact .inl waits
        · refine .inr ⟨b, known, ?_⟩
          rw [sound.target_redirect old, if_pos rfl, (r.settled name b known).target_eq]
      · exact .inr ⟨b, known, targets leads (block name b known)⟩
  case waiting =>
    intro id mem
    obtain ⟨settled, used, other⟩ := r.waiting id (sub.subset mem)
    exact ⟨stays settled fun same => waits (same ▸ mem), used, other⟩
  case once => exact sub.nodup r.once

/-- A reference comes while its block is known. -/
theorem link (r : Resolved t blocks deferred opens h) (sound : t.Sound) {id : NodeId}
    (unseen : Unseen blocks opens h id) (old : id.index < t.size) (settled : t.Settled id)
    (param : (t.own id).param "id" = block) {b : Block} (known : Keyed.get? block blocks = some b) :
    Resolved (t.redirect id b.node) blocks deferred opens (h ++ [.used block id]) := by
  have waits : id ∉ deferred := by
    intro mem
    obtain ⟨-, ⟨name, used⟩, -⟩ := r.waiting id mem
    exact unseen.reference name id used rfl
  have r' : Resolved (t.redirect id b.node) blocks deferred opens h :=
    r.divert sound old settled unseen.block (fun e mem _ => unseen.site e mem) waits (.refl _)
      fun _ _ _ mem => .inl mem
  constructor
  case unknown =>
    intro other unknown
    rw [definitions_used]
    exact r'.unknown other unknown
  case old => exact r'.old
  case settled => exact r'.settled
  case param => exact r'.param
  case current =>
    intro other b known
    rw [definitions_used]
    exact r'.current other b known
  case placed => exact fun e mem => r'.placed e (by simpa using mem)
  case referred =>
    intro other site mem
    rcases List.mem_append.mp mem with mem | mem
    · exact r'.referred other site mem
    · cases List.mem_singleton.mp mem
      have keeps := Tree.Keeps.redirect t id b.node []
      refine ⟨Nat.lt_of_lt_of_le old keeps.grown, unseen.shut, ?_, .inr ⟨b, known, ?_⟩⟩
      · rw [keeps.param old]
        exact param
      · rw [sound.target_redirect old, if_pos rfl, (r.settled block b known).target_eq]
  case waiting =>
    intro other mem
    obtain ⟨settled, ⟨name, used⟩, apart⟩ := r'.waiting other mem
    exact ⟨settled, ⟨name, List.mem_append_left _ used⟩, apart⟩
  case once => exact r'.once

section Closing

variable {e : Definition}

/-- The place of a definition that closes now, before it is told where the block is. -/
structure Site (t : Tree) (blocks : Keyed Block) (deferred : List NodeId) (opens opens' : List (NodeId × Nat))
    (e : Definition) : Prop where
  sub : ∀ p ∈ opens', p ∈ opens
  stays : ∀ p ∈ opens, p.1 ≠ e.site → p ∈ opens'
  shut : ∀ depth, (e.site, depth) ∉ opens'
  old : e.site.index < t.size
  param : (t.own e.site).param "id" = e.block
  empty : e.inPlace = false → t.Settled e.site ∧ Holds t e.site [] ∧ e.site ∉ deferred ∧
    ∀ block b, Keyed.get? block blocks = some b → b.node ≠ e.site

/-- A definition closes that is deeper than the block. -/
theorem outranked (r : Resolved t blocks deferred opens h) (site : Site t blocks deferred opens opens' e) {b : Block}
    (known : Keyed.get? e.block blocks = some b) (deeper : b.depth < e.depth) (other : b.node ≠ e.site)
    (leads : e.inPlace = true → t.target e.site = b.node) :
    Resolved t blocks deferred opens' (h ++ [.defined e]) := by
  have shut : ∀ {id : NodeId}, (∀ depth, (id, depth) ∉ opens) → ∀ depth, (id, depth) ∉ opens' :=
    fun shut depth mem => shut depth (site.sub _ mem)
  constructor
  case unknown =>
    intro block unknown
    by_cases here : block = e.block
    · rw [here, known] at unknown
      cases unknown
    · rw [definitions_defined, if_neg fun same => here same.symm]
      exact r.unknown block unknown
  case old => exact r.old
  case settled => exact r.settled
  case param => exact r.param
  case current =>
    intro block b' known'
    by_cases here : block = e.block
    · subst here
      rw [definitions_defined, if_pos rfl]
      cases known.symm.trans known'
      cases r.current e.block b known with
      | won wins depth content closed => exact .won (wins.kept (by omega)) depth content (shut closed)
      | awaited stands tag inner below =>
        refine .awaited (site.stays _ stands other) tag inner fun d mem => ?_
        rcases List.mem_append.mp mem with mem | mem
        · exact below d mem
        · cases List.mem_singleton.mp mem
          exact deeper
    · rw [definitions_defined, if_neg fun same => here same.symm]
      cases r.current block b' known' with
      | won wins depth content closed => exact .won wins depth content (shut closed)
      | awaited stands tag inner below =>
        refine .awaited (site.stays _ stands fun same => here ?_) tag inner below
        rw [← r.param block b' known', show b'.node = e.site from same, site.param]
  case placed =>
    intro d mem
    rcases List.mem_append.mp mem with mem | mem
    · have placed := r.placed d mem
      exact ⟨placed.old, shut placed.shut, placed.known, placed.leads, placed.empty⟩
    · cases List.mem_singleton.mp mem
      refine ⟨site.old, site.shut, ⟨b, known⟩, fun inPlace b' known' => ?_, site.empty⟩
      cases known.symm.trans known'
      exact leads inPlace
  case referred =>
    intro block id mem
    have referred := r.referred block id (by simpa using mem)
    exact ⟨referred.old, shut referred.shut, referred.param, referred.leads⟩
  case waiting =>
    intro id mem
    obtain ⟨settled, ⟨name, used⟩, apart⟩ := r.waiting id mem
    exact ⟨settled, ⟨name, List.mem_append_left _ used⟩, apart⟩
  case once => exact r.once

/-- What led to the block leads to the holder, and what led elsewhere leads there still. -/
structure Handover (t t' : Tree) (blocks : Keyed Block) (block : String) (holder : NodeId) : Prop where
  keeps : t.Keeps t' []
  stays : ∀ id, t.Settled id → (∀ b, Keyed.get? block blocks = some b → b.node ≠ id) ∨ id = holder → t'.Settled id
  leads : ∀ id b, Keyed.get? block blocks = some b → t.target id = b.node → t'.target id = holder
  stands : ∀ id last, t.target id = last → (∀ b, Keyed.get? block blocks = some b → b.node ≠ last) →
    t'.target id = last

theorem Handover.grown {holder : NodeId} (hand : Handover t t' blocks block holder) {id : NodeId}
    (old : id.index < t.size) : id.index < t'.size :=
  Nat.lt_of_lt_of_le old hand.keeps.grown

theorem Handover.holds {holder : NodeId} (hand : Handover t t' blocks block holder) {id : NodeId} {body : List Element}
    (old : id.index < t.size) (holds : Holds t id body) : Holds t' id body :=
  holds.keep hand.keeps old List.not_mem_nil

/-- Redirecting the node of the block hands it over. Before there is one, nothing need be done. -/
theorem handover (r : Resolved t blocks deferred opens h) (sound : t.Sound) {holder : NodeId}
    (settled : t.Settled holder) :
    Handover t (match Keyed.get? block blocks with
      | none => t
      | some b => t.redirect b.node holder) blocks block holder := by
  cases known : Keyed.get? block blocks with
  | none =>
    constructor
    case keeps => exact .refl t []
    case stays => exact fun id settled' _ => settled'
    case leads =>
      intro id b known'
      cases known.symm.trans known'
    case stands => exact fun id last same _ => same
  | some b =>
    show Handover t (t.redirect b.node holder) blocks block holder
    have end' : t.target b.node = b.node := (r.settled _ b known).target_eq
    constructor
    case keeps => exact .redirect t _ holder []
    case stays =>
      intro id settled' apart
      by_cases same : b.node = holder
      · rw [same, Tree.redirect_self]
        exact settled'
      · refine settled'.redirect fun same' => ?_
        rw [end'] at same'
        rcases apart with apart | here
        · exact apart b known same'.symm
        · exact same (same'.symm.trans here)
    case leads =>
      intro id b' known' same
      cases known.symm.trans known'
      rw [sound.target_redirect (r.old _ b known), same, end', if_pos rfl, settled.target_eq]
    case stands =>
      intro id last same apart
      rw [sound.target_redirect (r.old _ b known), same, end', if_neg fun h => apart b known h.symm]

/-- Different blocks have different nodes, since these carry the names of the blocks. -/
theorem node_ne (r : Resolved t blocks deferred opens h) {name name' : String} {b b' : Block} (apart : name' ≠ name)
    (known : Keyed.get? name blocks = some b) (known' : Keyed.get? name' blocks = some b') : b.node ≠ b'.node := by
  intro same
  apply apart
  rw [← r.param name' b' known', ← same, r.param name b known]

section Handing

variable {holder : NodeId}

/-- Blocks of other names are what they were. -/
theorem current_handover (r : Resolved t blocks deferred opens h) (hand : Handover t t' blocks e.block holder)
    (site : Site t blocks deferred opens opens' e) {b : Block} (apart : e.block ≠ block)
    (known : Keyed.get? block blocks = some b) : Current t' opens' (definitions block h) b := by
  have old := r.old block b known
  cases r.current block b known with
  | won wins depth content closed =>
    exact .won wins depth (hand.holds old content) fun depth mem => closed depth (site.sub _ mem)
  | awaited stands tag inner below =>
    refine .awaited (site.stays _ stands fun same => apart ?_) ?_ ?_ below
    · rw [← r.param block b known, show b.node = e.site from same, site.param]
    · rw [hand.keeps.tag old]
      exact tag
    · rw [hand.keeps.roots _ old]
      exact inner

/-- A definition that had closed before leads to the block, or is empty, as before. -/
theorem placed_handover (r : Resolved t blocks deferred opens h) (hand : Handover t t' blocks e.block holder)
    (site : Site t blocks deferred opens opens' e) {d : Definition} (mem : .defined d ∈ h)
    (other : d.inPlace = false → d.site ≠ holder) :
    Placed t' (Keyed.put e.block ⟨holder, e.depth⟩ blocks) deferred opens' d := by
  have placed := r.placed d mem
  constructor
  case old => exact hand.grown placed.old
  case shut => exact fun depth mem => placed.shut depth (site.sub _ mem)
  case known =>
    by_cases same : e.block = d.block
    · rw [same, Keyed.get?_put_self]
      exact ⟨_, rfl⟩
    · rw [Keyed.get?_put_of_ne same]
      exact placed.known
  case leads =>
    intro inPlace b' known'
    rcases Keyed.get?_put known' with ⟨same, rfl⟩ | ⟨apart, known'⟩
    · obtain ⟨b, known⟩ := placed.known
      exact hand.leads _ b (same ▸ known) (placed.leads inPlace b known)
    · exact hand.stands _ _ (placed.leads inPlace b' known') fun b known => r.node_ne (Ne.symm apart) known known'
  case empty =>
    intro inPlace
    obtain ⟨settled, content, deferral, known⟩ := placed.empty inPlace
    refine ⟨hand.stays _ settled (.inl fun b => known e.block b), hand.holds placed.old content, deferral, ?_⟩
    intro block b known'
    rcases Keyed.get?_put known' with ⟨-, rfl⟩ | ⟨-, known'⟩
    · exact (other inPlace).symm
    · exact known block b known'

/-- A reference that had come before leads to its block, or waits, as before. -/
theorem referred_handover (r : Resolved t blocks deferred opens h) (hand : Handover t t' blocks e.block holder)
    (site : Site t blocks deferred opens opens' e) {id : NodeId} (mem : .used block id ∈ h) :
    Referred t' (Keyed.put e.block ⟨holder, e.depth⟩ blocks) deferred opens' block id := by
  have referred := r.referred block id mem
  constructor
  case old => exact hand.grown referred.old
  case shut => exact fun depth mem => referred.shut depth (site.sub _ mem)
  case param =>
    rw [hand.keeps.param referred.old]
    exact referred.param
  case leads =>
    refine referred.leads.imp_right ?_
    rintro ⟨b, known, same⟩
    by_cases named : e.block = block
    · subst named
      exact ⟨_, Keyed.get?_put_self .., hand.leads _ b known same⟩
    · refine ⟨b, ?_, hand.stands _ _ same fun b' known' => r.node_ne (Ne.symm named) known' known⟩
      rw [Keyed.get?_put_of_ne named]
      exact known

end Handing

/-- A definition closes that wins: what led to the block before leads to this content from now on. -/
theorem crowned (r : Resolved t blocks deferred opens h) (sound : t.Sound)
    (site : Site t blocks deferred opens opens' e) {holder : NodeId}
    (least : ∀ d ∈ definitions e.block h, e.depth ≤ d.depth) (old : holder.index < t.size)
    (settled : t.Settled holder) (param : (t.own holder).param "id" = e.block) (holds : Holds t holder e.body)
    (shut : ∀ depth, (holder, depth) ∉ opens') (waits : holder ∉ deferred)
    (other : ∀ d, .defined d ∈ h → d.inPlace = false → d.site ≠ holder)
    (here : e.inPlace = true → e.site = holder) (apart : e.inPlace = false → e.site ≠ holder) {t' : Tree}
    (moved : t' = match Keyed.get? e.block blocks with
      | none => t
      | some b => t.redirect b.node holder) :
    Resolved t' (Keyed.put e.block ⟨holder, e.depth⟩ blocks) deferred opens' (h ++ [.defined e]) := by
  have hand : Handover t t' blocks e.block holder := by
    rw [moved]
    exact r.handover sound settled
  have settled' : t'.Settled holder := hand.stays _ settled (.inr rfl)
  constructor
  case unknown =>
    intro block unknown
    by_cases same : e.block = block
    · rw [same, Keyed.get?_put_self] at unknown
      cases unknown
    · rw [Keyed.get?_put_of_ne same] at unknown
      rw [definitions_defined, if_neg same]
      exact r.unknown block unknown
  case old =>
    intro block b known
    rcases Keyed.get?_put known with ⟨-, rfl⟩ | ⟨-, known⟩
    · exact hand.grown old
    · exact hand.grown (r.old block b known)
  case settled =>
    intro block b' known'
    rcases Keyed.get?_put known' with ⟨-, rfl⟩ | ⟨apart, known'⟩
    · exact settled'
    · exact hand.stays _ (r.settled block b' known') (.inl fun b known => r.node_ne (Ne.symm apart) known known')
  case param =>
    intro block b known
    rcases Keyed.get?_put known with ⟨rfl, rfl⟩ | ⟨-, known⟩
    · rw [hand.keeps.param old]
      exact param
    · rw [hand.keeps.param (r.old block b known)]
      exact r.param block b known
  case current =>
    intro block b known
    rcases Keyed.get?_put known with ⟨rfl, rfl⟩ | ⟨apart, known⟩
    · rw [definitions_defined, if_pos rfl]
      exact .won (.replaced least) rfl (hand.holds old holds) shut
    · rw [definitions_defined, if_neg apart]
      exact r.current_handover hand site apart known
  case placed =>
    intro d mem
    rcases List.mem_append.mp mem with mem | mem
    · exact r.placed_handover hand site mem (other d mem)
    · cases List.mem_singleton.mp mem
      refine ⟨hand.grown site.old, site.shut, ⟨_, Keyed.get?_put_self ..⟩, fun inPlace b known => ?_, fun inPlace => ?_⟩
      · rw [Keyed.get?_put_self] at known
        cases known
        rw [here inPlace]
        exact settled'.target_eq
      · obtain ⟨settled', content, deferral, known⟩ := site.empty inPlace
        refine ⟨hand.stays _ settled' (.inl fun b => known e.block b), hand.holds site.old content, deferral, ?_⟩
        intro block b known'
        rcases Keyed.get?_put known' with ⟨-, rfl⟩ | ⟨-, known'⟩
        · exact (apart inPlace).symm
        · exact known block b known'
  case referred => exact fun block id mem => r.referred_handover hand site (by simpa using mem)
  case waiting =>
    intro id mem
    obtain ⟨settled', ⟨name, used⟩, known⟩ := r.waiting id mem
    refine ⟨hand.stays _ settled' (.inl fun b => known e.block b), ⟨name, List.mem_append_left _ used⟩, ?_⟩
    intro block b known'
    rcases Keyed.get?_put known' with ⟨-, rfl⟩ | ⟨-, known'⟩
    · exact fun (same : holder = id) => waits (same ▸ mem)
    · exact known block b known'
  case once => exact r.once

end Closing

end Resolved

end Compile

end Stencil
