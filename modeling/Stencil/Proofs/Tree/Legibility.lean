import Mathlib.Data.List.InsertIdx
import Stencil.Proofs.Compile.TagEffects
import Stencil.Proofs.Run.Buffering
import Stencil.Proofs.Tree.Keeping
import Stencil.Proofs.Tree.Meaning

/-!
Trees that can be written as programs: the code of every node is that of its tag, what stands in the code can be
read, and segments are parted in conditions only. A tree stays legible when nodes come that are, when elements are
added to nodes that hold others, when blocks are redirected, and when nodes without code of their own are cleared.
Which tags there are is said beside.
-/
namespace Stencil

open Artifact (Expr)
open Tag (countHead eachHead)

/-- Whether a text is an expression that calls for no buffer. -/
def Artifact.isExpression (text : String) : Bool :=
  match Expr.parse text with
  | .ok e => e.bufferless
  | .error _ => false

/-- A loop over numbers as it can be written down. -/
structure Node.Counts (n : Node) : Prop where
  var : Tag.isVariable (n.param "var").toList = true
  bounds : ∀ key ∈ ["from", "to"], Artifact.isBound (n.param key).toList = true ∧
    (Decimal.readInt64? (n.param key).toList).isSome = true
  step : n.number "step" ≠ 0 ∧ n.number "step" ≠ Int64.minValue

/-- A loop over entries as it can be written down. -/
structure Node.Iterates (n : Node) : Prop where
  list : Artifact.isExpression (n.param "list") = true
  var : Tag.isVariable (n.param "var").toList = true
  key : n.param "key" = "" ∨ Tag.isVariable (n.param "key").toList = true

/-- The code of a node is that of its tag, and what stands in the code can be read. -/
structure Node.Legible (n : Node) : Prop where
  printing : n.name = none → n.isRoot = false → n.closing = "" ∧ n.body = [] ∧
    ∃ text, n.opening = "echo " ++ text ++ ";" ∧ Artifact.isExpression text = true
  framed : n.name ≠ none ∨ n.isRoot = true → (n.opening, n.closing) = n.framing
  conditional : n.tag = "if" ∨ n.tag = "elseif" → Artifact.isExpression (n.param "cond") = true
  counts : n.tag = "for" → n.Counts
  iterates : n.tag = "foreach" → n.Iterates
  bare : n.tag = "elseif" ∨ n.tag = "else" → n.body = []

/-- The tags between the segments of a condition. -/
def Node.separators : List String := ["elseif", "else"]

theorem Node.separator?_none (n : Node) : n.separator? = none ↔ n.tag ∉ Node.separators := by
  unfold Node.separator?
  simp only [Node.separators, List.mem_cons, List.not_mem_nil, or_false, not_or]
  split
  · rename_i same
    exact ⟨fun h => (by cases h), fun h => absurd same h.1⟩
  · split
    · rename_i same
      exact ⟨fun h => (by cases h), fun h => absurd same h.2⟩
    · rename_i notElseIf notElse
      exact ⟨fun _ => ⟨notElseIf, notElse⟩, fun _ => rfl⟩

namespace Tree

/-- The tag of a node among elements, before redirections. -/
def tagAt (t : Tree) : Element → String
  | .node id => (t.own id).tag
  | _ => ""

/-- What may stand in a body: text, and nodes of the tree. -/
inductive Admits (t : Tree) : Element → Prop where
  | text (s : String) : t.Admits (.text s)
  | node {id : NodeId} (old : id.index < t.size) : t.Admits (.node id)

/-- Segments are parted in conditions only, and nothing is parted behind an `else`. -/
structure Parted (t : Tree) (n : Node) : Prop where
  admits : ∀ e ∈ n.body, t.Admits e
  inside : ∀ e ∈ n.body, t.tagAt e ∈ Node.separators → n.tag = "if"
  ordered : n.body.Pairwise fun e e' => t.tagAt e = "else" → t.tagAt e' ∉ Node.separators
  early : n.hasElse = false → ∀ e ∈ n.body, t.tagAt e ≠ "else"

/-- The tags whose handles may be redirected. -/
def blockTags : List String := ["block", "blockdef", "addblock", "putblock"]

/-- The tags of nodes that hold the content of a block. -/
def contentTags : List String := ["block", "blockdef", "addblock"]

theorem contentTags_subset : contentTags ⊆ blockTags := by
  intro tag mem
  simp only [contentTags, blockTags, List.mem_cons, List.not_mem_nil, or_false] at mem ⊢
  rcases mem with same | same | same <;> simp [same]

/-- A tree as these tags of sources make it. -/
structure Legible (t : Tree) (tags : String → Prop) : Prop where
  sound : t.Sound
  names : ∀ id, id.index < t.size → ∀ tag ∈ (t.own id).name, tags tag
  nodes : ∀ id, id.index < t.size → (t.own id).Legible
  parted : ∀ id, id.index < t.size → t.Parted (t.own id)
  aliases : ∀ id next, (t.own id).standsFor = some next →
    (t.own id).tag ∈ blockTags ∧ (t.own next).tag ∈ contentTags

section Redirections

variable {tags : String → Prop} {t : Tree} {id : NodeId}

/-- A handle that leads on leads from a tag of blocks to one that holds a block. -/
theorem Leads.ends_tagged (aliases : ∀ id next, (t.own id).standsFor = some next →
    (t.own id).tag ∈ blockTags ∧ (t.own next).tag ∈ contentTags) {n : Nat} {last : NodeId}
    (leads : t.Leads n id last) : last = id ∨ (t.own id).tag ∈ blockTags ∧ (t.own last).tag ∈ contentTags := by
  induction leads with
  | here => exact .inl rfl
  | on next _ ih =>
    obtain ⟨from', to'⟩ := aliases _ _ next
    rcases ih with rfl | ⟨-, last⟩
    · exact .inr ⟨from', to'⟩
    · exact .inr ⟨from', last⟩

theorem Legible.target (legible : t.Legible tags) (id : NodeId) :
    t.target id = id ∨ (t.own id).tag ∈ blockTags ∧ (t.own (t.target id)).tag ∈ contentTags := by
  obtain ⟨n, leads⟩ := legible.sound.leads id
  exact leads.ends_tagged legible.aliases

theorem Legible.content (legible : t.Legible tags) (old : id.index < t.size) :
    (t.content id).Legible ∧ t.Parted (t.content id) :=
  have small := legible.sound.target_lt_size old
  ⟨legible.nodes _ small, legible.parted _ small⟩

/-- Redirections do not touch what parts a condition. -/
theorem Legible.separator?_eq (legible : t.Legible tags) (id : NodeId) :
    t.separator? (.node id) = (t.own id).separator? := by
  show (t.own (t.target id)).separator? = _
  rcases legible.target id with same | ⟨from', to'⟩
  · rw [same]
  · have apart : ∀ {n : Node}, n.tag ∈ blockTags → n.separator? = none := by
      intro n mem
      refine n.separator?_none.mpr ?_
      simp only [blockTags, List.mem_cons, List.not_mem_nil, or_false] at mem
      rcases mem with same | same | same | same <;> rw [same] <;> decide
    rw [apart (contentTags_subset to'), apart from']

theorem Legible.separator?_none (legible : t.Legible tags) {e : Element} :
    t.separator? e = none ↔ t.tagAt e ∉ Node.separators := by
  cases e with
  | node id =>
    rw [legible.separator?_eq]
    exact Node.separator?_none _
  | text s => exact ⟨fun _ => (by decide : "" ∉ Node.separators), fun _ => rfl⟩
  | code c => exact ⟨fun _ => (by decide : "" ∉ Node.separators), fun _ => rfl⟩

end Redirections

end Tree

/-! ### Nodes -/

/-- The tags that write code of their own. -/
def Node.coded : List String := ["if", "elseif", "else", "for", "foreach"]

theorem Node.framing_plain {n : Node} (plain : n.tag ∉ Node.coded) : n.framing = ("", "") := by
  simp only [Node.coded, List.mem_cons, List.not_mem_nil, or_false, not_or] at plain
  unfold Node.framing
  split
  · rename_i same
    exact absurd same plain.1
  · rename_i same
    exact absurd same plain.2.1
  · rename_i same
    exact absurd same plain.2.2.1
  · rename_i same
    exact absurd same plain.2.2.2.1
  · rename_i same
    exact absurd same plain.2.2.2.2
  · rfl

/-- The tags of nodes that hold other nodes. -/
def Node.holdingTags : List String :=
  ["if", "for", "foreach", "block", "blockdef", "addblock", "extends", "include", "t"]

/-- Nodes to which elements are added: roots, and those with tags that hold others. -/
def Node.Holding (n : Node) : Prop := n.isRoot = true ∧ n.name = none ∨ n.tag ∈ Node.holdingTags

theorem Node.holding_of_content {n : Node} (tag : n.tag ∈ Tree.contentTags) : n.Holding := by
  refine .inr ?_
  simp only [Tree.contentTags, Node.holdingTags, List.mem_cons, List.not_mem_nil, or_false] at tag ⊢
  rcases tag with same | same | same <;> simp [same]

theorem Node.uncoded_of_content {n : Node} (tag : n.tag ∈ Tree.contentTags) : n.tag ∉ Node.coded := by
  simp only [Tree.contentTags, List.mem_cons, List.not_mem_nil, or_false] at tag
  rcases tag with same | same | same <;> rw [same] <;> decide

theorem Node.tag_of_name {n : Node} {tag : String} (name : n.name = some tag) : n.tag = tag := by
  unfold Node.tag
  rw [name]
  rfl

theorem Node.tag_of_name_none {n : Node} (name : n.name = none) : n.tag = "" := by
  unfold Node.tag
  rw [name]
  rfl

theorem Node.tag_eq_of_name {n n' : Node} (name : n'.name = n.name) : n'.tag = n.tag := by
  unfold Node.tag
  rw [name]

theorem Node.Holding.kept {n n' : Node} (holding : n.Holding) (name : n'.name = n.name) (root : n'.isRoot = n.isRoot) :
    n'.Holding := by
  unfold Node.Holding Node.tag
  rw [name, root]
  exact holding

/-- Such a node prints nothing and parts nothing. -/
theorem Node.Holding.apart {n : Node} (holding : n.Holding) :
    ¬(n.name = none ∧ n.isRoot = false) ∧ n.tag ∉ Node.separators := by
  rcases holding with ⟨root, name⟩ | tag
  · refine ⟨fun prints => ?_, ?_⟩
    · rw [root] at prints
      cases prints.2
    · rw [Node.tag_of_name_none name]
      decide
  · refine ⟨fun prints => ?_, fun parts => ?_⟩
    · rw [Node.tag_of_name_none prints.1] at tag
      exact absurd tag (by decide)
    · simp only [Node.separators, List.mem_cons, List.not_mem_nil, or_false] at parts
      rcases parts with same | same <;> rw [same] at tag <;> exact absurd tag (by decide)

/-- A legible node changes in what does not belong to its code. More may stand in it if it holds others. -/
theorem Node.Legible.change {n n' : Node} (fine : n.Legible) (name : n'.name = n.name) (params : n'.params = n.params)
    (root : n'.isRoot = n.isRoot) (code : (n'.opening, n'.closing) = (n.opening, n.closing))
    (body : n'.body = n.body ∨ n.Holding) : n'.Legible := by
  obtain ⟨opening, closing⟩ := Prod.mk.inj code
  have tag : n'.tag = n.tag := Node.tag_eq_of_name name
  have param : ∀ key, n'.param key = n.param key := fun key => by
    unfold Node.param
    rw [params]
  have number : ∀ key, n'.number key = n.number key := fun key => by
    unfold Node.number
    rw [param]
  have framing : n'.framing = n.framing := by
    unfold Node.framing countHead eachHead
    simp only [tag, param]
  constructor
  case printing =>
    intro none inner
    rw [name] at none
    rw [root] at inner
    obtain ⟨plain, empty, text, prints, expression⟩ := fine.printing none inner
    refine ⟨closing.trans plain, ?_, text, opening.trans prints, expression⟩
    exact (body.resolve_right fun holding => holding.apart.1 ⟨none, inner⟩).trans empty
  case framed =>
    rw [name, root, code, framing]
    exact fine.framed
  case conditional =>
    rw [tag, param]
    exact fine.conditional
  case counts =>
    intro counts
    rw [tag] at counts
    have fine := fine.counts counts
    constructor
    · rw [param]
      exact fine.var
    · intro key mem
      rw [param]
      exact fine.bounds key mem
    · rw [number]
      exact fine.step
  case iterates =>
    intro iterates
    rw [tag] at iterates
    have fine := fine.iterates iterates
    constructor
    · rw [param]
      exact fine.list
    · rw [param]
      exact fine.var
    · rw [param]
      exact fine.key
  case bare =>
    intro parts
    rw [tag] at parts
    refine (body.resolve_right fun holding => holding.apart.2 ?_).trans (fine.bare parts)
    simpa [Node.separators] using parts

namespace Tree

variable {tags : String → Prop} {t t' : Tree} {id : NodeId} {n : Node} {e : Element}

/-! ### More nodes -/

theorem Admits.grown (admits : t.Admits e) (grown : t.size ≤ t'.size) : t'.Admits e := by
  cases admits with
  | text s => exact .text s
  | node old => exact .node (Nat.lt_of_lt_of_le old grown)

theorem Admits.tagAt_eq (admits : t.Admits e) (names : ∀ id, id.index < t.size → (t'.own id).name = (t.own id).name) :
    t'.tagAt e = t.tagAt e := by
  cases admits with
  | text s => rfl
  | @node id old =>
    exact Node.tag_eq_of_name (names id old)

theorem Parted.kept (parted : t.Parted n) (grown : t.size ≤ t'.size)
    (names : ∀ id, id.index < t.size → (t'.own id).name = (t.own id).name) : t'.Parted n := by
  have same : ∀ e ∈ n.body, t'.tagAt e = t.tagAt e := fun e mem => (parted.admits e mem).tagAt_eq names
  constructor
  case admits => exact fun e mem => (parted.admits e mem).grown grown
  case inside =>
    intro e mem parts
    rw [same e mem] at parts
    exact parted.inside e mem parts
  case ordered =>
    refine parted.ordered.imp_of_mem fun {a b} memA memB apart last => ?_
    rw [same a memA] at last
    rw [same b memB]
    exact apart last
  case early =>
    intro open' e mem
    rw [same e mem]
    exact parted.early open' e mem

theorem parted_of_body_nil (empty : n.body = []) : t.Parted n := by
  have none : ∀ e, e ∉ n.body := fun e mem => by
    rw [empty] at mem
    cases mem
  refine ⟨fun e mem => absurd mem (none e), fun e mem => absurd mem (none e), ?_, fun _ e mem => absurd mem (none e)⟩
  rw [empty]
  exact List.Pairwise.nil

/-! ### One node changes -/

theorem Legible.push (legible : t.Legible tags) (names : ∀ tag ∈ n.name, tags tag) (fine : n.Legible)
    (parted : t.Parted n) (settled : n.standsFor = none) : (t.push n).2.Legible tags := by
  have old : ∀ id : NodeId, id.index < t.size → (t.push n).2.own id = t.own id := by
    intro id small
    rw [own_push, if_neg (Nat.ne_of_lt small)]
  have new : ∀ id : NodeId, id.index = t.size → (t.push n).2.own id = n := by
    intro id here
    rw [own_push, if_pos here]
  have kept : ∀ {m : Node}, t.Parted m → (t.push n).2.Parted m := fun parted =>
    parted.kept (by rw [size_push]; exact Nat.le_succ _) fun id small => by rw [old id small]
  have either : ∀ {id : NodeId}, id.index < (t.push n).2.size → id.index < t.size ∨ id.index = t.size := by
    intro id small
    rw [size_push] at small
    omega
  constructor
  case sound => exact (SameLinks.push settled t).sound legible.sound
  case names =>
    intro id small
    rcases either small with small | here
    · rw [old id small]
      exact legible.names id small
    · rw [new id here]
      exact names
  case nodes =>
    intro id small
    rcases either small with small | here
    · rw [old id small]
      exact legible.nodes id small
    · rw [new id here]
      exact fine
  case parted =>
    intro id small
    rcases either small with small | here
    · rw [old id small]
      exact kept (legible.parted id small)
    · rw [new id here]
      exact kept parted
  case aliases =>
    intro id next leads
    have links := (SameLinks.push settled t).links id
    rw [links] at leads
    have small := lt_size_of_standsFor leads
    rw [old id small, old next (legible.sound.links id next leads)]
    exact legible.aliases id next leads

/-- A node is changed that keeps its tag. -/
theorem Legible.update (legible : t.Legible tags) {f : Node → Node} (stands : ∀ n, (f n).standsFor = n.standsFor)
    (name : ∀ n, (f n).name = n.name) (fine : (f (t.own id)).Legible) (parted : t.Parted (f (t.own id))) :
    (t.update id f).Legible tags := by
  have each : ∀ other : NodeId, (t.update id f).own other = t.own other ∨
      (t.update id f).own other = f (t.own id) ∧ other = id := by
    intro other
    rw [own_update]
    split
    · rename_i here
      exact .inr ⟨rfl, here.1⟩
    · exact .inl rfl
  have names : ∀ other : NodeId, ((t.update id f).own other).name = (t.own other).name := by
    intro other
    rcases each other with same | ⟨same, rfl⟩ <;> rw [same]
    exact name _
  have kept : ∀ {m : Node}, t.Parted m → (t.update id f).Parted m := fun parted =>
    parted.kept (Nat.le_of_eq (size_update t id f).symm) fun other _ => names other
  have links := SameLinks.update t id f stands
  constructor
  case sound => exact links.sound legible.sound
  case names =>
    intro other small
    rw [size_update] at small
    rw [names other]
    exact legible.names other small
  case nodes =>
    intro other small
    rw [size_update] at small
    rcases each other with same | ⟨same, -⟩ <;> rw [same]
    · exact legible.nodes other small
    · exact fine
  case parted =>
    intro other small
    rw [size_update] at small
    rcases each other with same | ⟨same, -⟩ <;> rw [same]
    · exact kept (legible.parted other small)
    · exact kept parted
  case aliases =>
    intro other next leads
    rw [links.links] at leads
    rw [Node.tag_eq_of_name (names other), Node.tag_eq_of_name (names next)]
    exact legible.aliases other next leads

theorem Legible.noteElse (legible : t.Legible tags) (id : NodeId) :
    (t.update id fun n => { n with hasElse := true }).Legible tags := by
  by_cases small : id.index < t.size
  · have fine := legible.nodes id small
    have parted := legible.parted id small
    exact legible.update (fun _ => rfl) (fun _ => rfl) (fine.change rfl rfl rfl rfl (.inl rfl))
      ⟨parted.admits, parted.inside, parted.ordered, fun open' => (by cases open')⟩
  · have same : (t.update id fun n => { n with hasElse := true }) = t := by
      refine ext_own (size_update ..) fun other => ?_
      rw [own_update, if_neg fun h => small h.2]
    rw [same]
    exact legible

/-- The node at the end of the redirections of one that holds others holds others. -/
theorem Legible.holding_target (legible : t.Legible tags) (holding : (t.own id).Holding) :
    (t.own (t.target id)).Holding := by
  rcases legible.target id with same | ⟨-, to'⟩
  · rw [same]
    exact holding
  · exact Node.holding_of_content to'

/-- What stands for content leads to content. -/
theorem Legible.content_target (legible : t.Legible tags) (tag : (t.own id).tag ∈ contentTags) :
    (t.own (t.target id)).tag ∈ contentTags := by
  rcases legible.target id with same | ⟨-, there⟩
  · rw [same]
    exact tag
  · exact there

/-- An element comes behind those that a node holds. -/
theorem Legible.append (legible : t.Legible tags) (old : id.index < t.size) (holding : (t.own id).Holding)
    (admits : t.Admits e) (inside : t.tagAt e ∈ Node.separators →
      (t.own id).tag = "if" ∧ ∀ e' ∈ (t.own id).body, t.tagAt e' ≠ "else")
    (noted : t.tagAt e = "else" → (t.own id).hasElse = true) : (t.append id e).Legible tags := by
  have small := legible.sound.target_lt_size old
  have fine := legible.nodes _ small
  have parted := legible.parted _ small
  -- A condition is the end of its own redirections.
  have here : t.tagAt e ∈ Node.separators → t.target id = id := fun parts => by
    refine (legible.target id).resolve_right fun h => ?_
    rw [(inside parts).1] at h
    exact absurd h.1 (by decide)
  refine legible.update (fun _ => rfl) (fun _ => rfl)
    (fine.change rfl rfl rfl rfl (.inr (legible.holding_target holding)))
    ⟨fun e' mem => ?_, fun e' mem parts => ?_, ?_, fun open' e' mem => ?_⟩
  · rcases List.mem_append.mp mem with mem | mem
    · exact parted.admits e' mem
    · cases List.mem_singleton.mp mem
      exact admits
  · rcases List.mem_append.mp mem with mem | mem
    · exact parted.inside e' mem parts
    · cases List.mem_singleton.mp mem
      show (t.own (t.target id)).tag = "if"
      rw [here parts]
      exact (inside parts).1
  · refine List.pairwise_append.mpr ⟨parted.ordered, List.pairwise_singleton _ _, fun a mem b mem' last parts => ?_⟩
    cases List.mem_singleton.mp mem'
    rw [here parts] at mem
    exact (inside parts).2 a mem last
  · have open'' : (t.own (t.target id)).hasElse = false := open'
    rcases List.mem_append.mp mem with mem | mem
    · exact parted.early open'' e' mem
    · cases List.mem_singleton.mp mem
      intro last
      rw [here (by rw [last]; decide), noted last] at open''
      cases open''

/-- Where nothing is parted, elements may stand in any order. -/
theorem parted_of_undivided (admits : ∀ e ∈ n.body, t.Admits e)
    (undivided : ∀ e ∈ n.body, t.tagAt e ∉ Node.separators) : t.Parted n := by
  refine ⟨admits, fun e mem parts => absurd parts (undivided e mem), ?_, fun _ e mem last => ?_⟩
  · exact List.pairwise_of_forall_mem_list fun _ _ e mem _ => undivided e mem
  · refine undivided e mem ?_
    rw [last]
    decide

/-- An element that parts nothing comes anywhere into the content of a block. -/
theorem Legible.insert (legible : t.Legible tags) (old : id.index < t.size) (tag : (t.own id).tag ∈ contentTags)
    (admits : t.Admits e) (plain : t.tagAt e ∉ Node.separators) (position : Position) :
    (t.insert id e position).Legible tags := by
  have there := legible.content_target tag
  obtain ⟨fine, parted⟩ := legible.content old
  have undivided : ∀ e ∈ (t.content id).body, t.tagAt e ∉ Node.separators := by
    intro e mem parts
    have isIf : (t.own (t.target id)).tag = "if" := parted.inside e mem parts
    rw [isIf] at there
    exact absurd there (by decide)
  have either : ∀ e' ∈ (t.content id).body.insertIdx (position.place (t.content id).body.length) e,
      e' = e ∨ e' ∈ (t.content id).body := fun e' mem => List.eq_or_mem_of_mem_insertIdx mem
  refine legible.update (fun _ => rfl) (fun _ => rfl) (fine.change rfl rfl rfl rfl (.inr (Node.holding_of_content there)))
    (parted_of_undivided (fun e' mem => ?_) fun e' mem => ?_)
  · rcases either e' mem with rfl | mem
    · exact admits
    · exact parted.admits e' mem
  · rcases either e' mem with rfl | mem
    · exact plain
    · exact undivided e' mem

/-- A node is cleared that writes no code of its own. -/
theorem Legible.clear (legible : t.Legible tags) (old : id.index < t.size) (holding : (t.own id).Holding)
    (uncoded : (t.own id).tag ∉ Node.coded) : (t.clear id).Legible tags := by
  have small := legible.sound.target_lt_size old
  have fine := legible.nodes _ small
  have holds := legible.holding_target holding
  have uncoded' : (t.own (t.target id)).tag ∉ Node.coded := by
    rcases legible.target id with same | ⟨-, to'⟩
    · rw [same]
      exact uncoded
    · exact Node.uncoded_of_content to'
  -- There is no code to take away.
  have bare : (t.own (t.target id)).opening = "" ∧ (t.own (t.target id)).closing = "" := by
    have framed := fine.framed (Classical.or_iff_not_imp_left.mpr fun named => ?_)
    · rw [Node.framing_plain uncoded'] at framed
      exact Prod.mk.inj framed
    · have none := Classical.not_not.mp named
      exact Bool.eq_false_or_eq_true _ |>.resolve_right fun inner => holds.apart.1 ⟨none, inner⟩
  exact legible.update (fun _ => rfl) (fun _ => rfl)
    (fine.change rfl rfl rfl (by rw [bare.1, bare.2]) (.inr holds)) (parted_of_body_nil rfl)

/-! ### Redirections -/

theorem Legible.redirect (legible : t.Legible tags) {source destination : NodeId} (from' : source.index < t.size)
    (to' : destination.index < t.size) (sourceTag : (t.own source).tag ∈ blockTags)
    (destinationTag : (t.own destination).tag ∈ contentTags) : (t.redirect source destination).Legible tags := by
  have keeps := Keeps.redirect t source destination []
  have names : ∀ id : NodeId, ((t.redirect source destination).own id).name = (t.own id).name := by
    intro id
    obtain ⟨next, same, -⟩ := t.own_redirect source destination id
    rw [same]
  have targetTag : (t.own (t.target source)).tag ∈ blockTags := by
    rcases legible.target source with same | ⟨-, to'⟩
    · rw [same]
      exact sourceTag
    · exact contentTags_subset to'
  constructor
  case sound => exact legible.sound.redirect from' to'
  case names =>
    intro id small
    rw [size_redirect] at small
    rw [names id]
    exact legible.names id small
  case nodes =>
    intro id small
    rw [size_redirect] at small
    obtain ⟨next, same, -⟩ := t.own_redirect source destination id
    have fine := legible.nodes id small
    rw [same]
    exact fine.change rfl rfl rfl rfl (.inl rfl)
  case parted =>
    intro id small
    rw [size_redirect] at small
    obtain ⟨next, same, -⟩ := t.own_redirect source destination id
    have parted := legible.parted id small
    rw [same]
    exact Parted.kept (t := t) ⟨parted.admits, parted.inside, parted.ordered, parted.early⟩ keeps.grown
      fun id _ => names id
  case aliases =>
    intro id next leads
    rw [Node.tag_eq_of_name (names id), Node.tag_eq_of_name (names next)]
    rw [redirect_eq] at leads
    split at leads
    · exact legible.aliases id next leads
    · rw [own_update] at leads
      split at leads
      · rename_i here
        cases leads
        rw [here.1]
        exact ⟨targetTag, destinationTag⟩
      · exact legible.aliases id next leads

end Tree

end Stencil
