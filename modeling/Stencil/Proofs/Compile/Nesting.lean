import Stencil.Proofs.Compile.Reading

/-!
Which pieces make a tree. Tags that have to be closed must be closed in the reverse order, each by its own name.
A text whose tags are nested so is the one that is put together, and the tree then has its pieces in their order;
any other is refused at the first piece that does not fit, or at its end.

The tags may be any whose handlers leave the tree alone.
-/
namespace Stencil

/-! ### Nested pieces -/

namespace Markup

/-- The name in a tag that opens or closes. -/
def Token.tagName (token : Token) : String :=
  match token.kind with
  | .openTag => ((Head.parse token.content).toOption.map (·.name)).getD ""
  | _ => String.ofList token.content

/-- A tag that is handled at once and is not closed. -/
def Token.Single (table : Tag.Table) (token : Token) : Prop :=
  token.kind = .openTag ∧ ∃ handlers, Keyed.get? token.tagName table = some handlers ∧ handlers.onOpenClose.isSome

/-- A tag that has to be closed. -/
def Token.Opens (table : Tag.Table) (token : Token) : Prop :=
  token.kind = .openTag ∧
    ∃ handlers, Keyed.get? token.tagName table = some handlers ∧ handlers.onOpenClose.isSome = false

/-- A piece with nothing inside. -/
def Token.Flat (table : Tag.Table) (token : Token) : Prop :=
  token.kind = .text ∨ token.kind = .variable ∨ token.Single table

/-- Pieces one after the other, and passages between two tags. -/
inductive Passage where
  | done
  | piece (token : Token) (rest : Passage)
  | enclosed (opener : Token) (inside : Passage) (closer : Token) (rest : Passage)

namespace Passage

/-- The pieces of a passage in order. -/
def tokens : Passage → List Token
  | done => []
  | piece token rest => token :: rest.tokens
  | enclosed opener inside closer rest => opener :: (inside.tokens ++ closer :: rest.tokens)

/-- Every tag that has to be closed is closed by its name. -/
def Fits (table : Tag.Table) : Passage → Prop
  | done => True
  | piece token rest => token.Flat table ∧ rest.Fits table
  | enclosed opener inside closer rest =>
    opener.Opens table ∧ inside.Fits table ∧ closer.kind = .closeTag ∧ opener.tagName = closer.tagName ∧
      rest.Fits table

def append : Passage → Passage → Passage
  | done, more => more
  | piece token rest, more => piece token (rest.append more)
  | enclosed opener inside closer rest, more => enclosed opener inside closer (rest.append more)

theorem tokens_append (first second : Passage) : (first.append second).tokens = first.tokens ++ second.tokens := by
  induction first with
  | done => rfl
  | piece token rest ih => exact congrArg (token :: ·) ih
  | enclosed opener inside closer rest _ ih =>
    show opener :: (inside.tokens ++ closer :: (rest.append second).tokens) = _
    rw [ih]
    show _ = opener :: (inside.tokens ++ closer :: rest.tokens) ++ second.tokens
    rw [List.cons_append, List.append_assoc, List.cons_append]

theorem Fits.append {table : Tag.Table} {first second : Passage} (fits : first.Fits table)
    (more : second.Fits table) : (first.append second).Fits table := by
  induction first with
  | done => exact more
  | piece token rest ih => exact ⟨fits.1, ih fits.2⟩
  | enclosed opener inside closer rest _ ih =>
    obtain ⟨opens, within, kind, same, after⟩ := fits
    exact ⟨opens, within, kind, same, ih after⟩

end Passage

/-- Pieces whose tags are all closed. -/
def Nested (table : Tag.Table) (tokens : List Token) : Prop :=
  ∃ passage : Passage, passage.Fits table ∧ passage.tokens = tokens

/-- Pieces after which some tags are still open, the innermost first, and every tag that closes has closed the
innermost open one. -/
inductive Pending (table : Tag.Table) : List Token → List Token → Prop where
  | closed {passage : Passage} (fits : passage.Fits table) : Pending table passage.tokens []
  | inside {front opens : List Token} {opener : Token} {passage : Passage} (before : Pending table front opens)
      (here : opener.Opens table) (fits : passage.Fits table) :
      Pending table (front ++ opener :: passage.tokens) (opener :: opens)

/-- The first tag that closes, but not the innermost open tag; there may be none that is open. -/
def Mismatched (table : Tag.Table) (tokens : List Token) (innermost : Option Token) (closer : Token) : Prop :=
  ∃ front opens rest, tokens = front ++ closer :: rest ∧ Pending table front opens ∧ opens.head? = innermost ∧
    closer.kind = .closeTag ∧ ∀ opener ∈ innermost, opener.tagName ≠ closer.tagName

/-- All tags that close are in their place, and the innermost open tag is never closed. -/
def Unclosed (table : Tag.Table) (tokens : List Token) (innermost : Token) : Prop :=
  ∃ opens, Pending table tokens (innermost :: opens)

section Grammar

variable {table : Tag.Table} {tokens front opens : List Token} {token : Token}

theorem Pending.append (pending : Pending table front opens) (passage : Passage) (fits : passage.Fits table) :
    Pending table (front ++ passage.tokens) opens := by
  cases pending with
  | closed before =>
    rw [← Passage.tokens_append]
    exact .closed (before.append fits)
  | inside before here within =>
    rw [List.append_assoc, List.cons_append, ← Passage.tokens_append]
    exact .inside before here (within.append fits)

/-- One more piece that fits. -/
theorem Pending.flat (pending : Pending table front opens) (flat : token.Flat table) :
    Pending table (front ++ [token]) opens :=
  pending.append (.piece token .done) ⟨flat, trivial⟩

theorem Pending.open (pending : Pending table front opens) (here : token.Opens table) :
    Pending table (front ++ [token]) (token :: opens) :=
  .inside pending here (show Passage.done.Fits table from trivial)

theorem Pending.close {opener : Token} (pending : Pending table front (opener :: opens))
    (kind : token.kind = .closeTag) (same : opener.tagName = token.tagName) :
    Pending table (front ++ [token]) opens := by
  cases pending with
  | inside before here within =>
    rw [List.append_assoc, List.cons_append]
    exact before.append (.enclosed opener _ token .done) ⟨here, within, kind, same, trivial⟩

theorem Mismatched.append {innermost : Option Token} {closer : Token}
    (mismatched : Mismatched table tokens innermost closer) (more : List Token) :
    Mismatched table (tokens ++ more) innermost closer := by
  obtain ⟨front, opens, rest, rfl, wrong⟩ := mismatched
  exact ⟨front, opens, rest ++ more, by rw [List.append_assoc, List.cons_append], wrong⟩

/-- Pieces with known tags go well up to their end or up to a first tag that closes the wrong one. -/
theorem pending_or_mismatched (known : ∀ token ∈ tokens, token.kind = .openTag →
    ∃ handlers, Keyed.get? token.tagName table = some handlers) :
    (∃ opens, Pending table tokens opens) ∨ ∃ innermost closer, Mismatched table tokens innermost closer := by
  induction tokens using List.reverseRecOn with
  | nil => exact .inl ⟨[], .closed (show Passage.done.Fits table from trivial)⟩
  | append_singleton front token ih =>
    rcases ih fun other mem => known other (List.mem_append_left _ mem) with ⟨opens, pending⟩ | ⟨inner, closer, wrong⟩
    · match kind : token.kind with
      | .text => exact .inl ⟨opens, pending.flat (.inl kind)⟩
      | .variable => exact .inl ⟨opens, pending.flat (.inr (.inl kind))⟩
      | .openTag =>
        obtain ⟨handlers, bound⟩ := known token (List.mem_append_right _ (List.mem_singleton_self _)) kind
        cases single : handlers.onOpenClose.isSome with
        | true => exact .inl ⟨opens, pending.flat (.inr (.inr ⟨kind, handlers, bound, single⟩))⟩
        | false => exact .inl ⟨token :: opens, pending.open ⟨kind, handlers, bound, single⟩⟩
      | .closeTag =>
        cases opens with
        | nil => exact .inr ⟨none, token, front, [], [], rfl, pending, rfl, kind, nofun⟩
        | cons opener others =>
          by_cases same : opener.tagName = token.tagName
          · exact .inl ⟨others, pending.close kind same⟩
          · refine .inr ⟨some opener, token, front, opener :: others, [], rfl, pending, rfl, kind, ?_⟩
            rintro other ⟨⟩
            exact same
    · exact .inr ⟨inner, closer, wrong.append [token]⟩

end Grammar

end Markup

open Markup (Token Passage Pending Nested Mismatched Unclosed)

/-! ### Trees that have the pieces in their order -/

namespace Tree

open Compile (printing)

/-- The elements of the body of a node are the pieces of a passage, each under the tag that encloses it. -/
inductive Shows (t : Tree) (file : String) : NodeId → List Element → Passage → Prop where
  | done {parent : NodeId} : Shows t file parent [] .done
  | text {parent : NodeId} {es : List Element} {token : Token} {rest : Passage} (kind : token.kind = .text)
      (after : Shows t file parent es rest) :
      Shows t file parent (.text (String.ofList token.content) :: es) (.piece token rest)
  | printed {parent id : NodeId} {es : List Element} {token : Token} {rest : Passage}
      (kind : token.kind = .variable)
      (node : t.own id = printing file token.line (String.ofList token.content) parent)
      (after : Shows t file parent es rest) : Shows t file parent (.node id :: es) (.piece token rest)
  | single {parent id : NodeId} {es : List Element} {token : Token} {head : Markup.Head} {rest : Passage}
      (kind : token.kind = .openTag) (parsed : Markup.Head.parse token.content = .ok head)
      (node : t.own id = Node.opened file token.line parent head false)
      (after : Shows t file parent es rest) : Shows t file parent (.node id :: es) (.piece token rest)
  | enclosed {parent id : NodeId} {es inner : List Element} {opener closer : Token} {head : Markup.Head}
      {inside rest : Passage} (parsed : Markup.Head.parse opener.content = .ok head)
      (node : t.own id = { Node.opened file opener.line parent head true with body := inner })
      (within : Shows t file id inner inside) (after : Shows t file parent es rest) :
      Shows t file parent (.node id :: es) (.enclosed opener inside closer rest)

/-- A node has got more elements at its end. Apart from that there are only new nodes. -/
structure Grown (t : Tree) (top : NodeId) (es : List Element) (t' : Tree) : Prop where
  size : t.size ≤ t'.size
  more : t'.own top = { t.own top with body := (t.own top).body ++ es }
  others : ∀ id, id.index < t.size → id ≠ top → t'.own id = t.own id

/-- The nodes from an index on are the same in another tree. -/
def SameFrom (low : Nat) (t t' : Tree) : Prop :=
  ∀ id : NodeId, low ≤ id.index → id.index < t.size → t'.own id = t.own id

theorem SameFrom.mono {low high : Nat} {t t' : Tree} (same : SameFrom low t t') (le : low ≤ high) :
    SameFrom high t t' :=
  fun id new there => same id (Nat.le_trans le new) there

namespace Grown

variable {t t' t'' : Tree} {top : NodeId} {es es' : List Element}

theorem refl (t : Tree) (top : NodeId) : t.Grown top [] t where
  size := Nat.le_refl _
  more := by rw [List.append_nil]
  others _ _ _ := rfl

theorem trans (first : t.Grown top es t') (second : t'.Grown top es' t'') : t.Grown top (es ++ es') t'' where
  size := Nat.le_trans first.size second.size
  more := by rw [second.more, first.more, List.append_assoc]
  others id old apart := by rw [second.others id (Nat.lt_of_lt_of_le old first.size) apart, first.others id old apart]

theorem settled (grown : t.Grown top es t') (settled : t.Settled top) : t'.Settled top := by
  unfold Settled
  rw [grown.more]
  exact settled

theorem site (grown : t.Grown top es t') : t'.site top = t.site top := by
  unfold Tree.site
  rw [grown.more]
  rfl

/-- What came before a growth stays as it was, but for the node that grows. -/
theorem sameFrom {low : Nat} {u : Tree} (grown : t.Grown top es t') (old : top.index < low)
    (same : SameFrom low t' u) : SameFrom low t u := by
  intro id new there
  have apart : id ≠ top := by
    rintro rfl
    omega
  rw [same id new (Nat.lt_of_lt_of_le there grown.size), grown.others id there apart]

theorem append {e : Element} (settled : t.Settled top) (old : top.index < t.size) : t.Grown top [e] (t.append top e) := by
  rw [settled.append_eq]
  refine ⟨Nat.le_of_eq (size_update ..).symm, ?_, fun id _ apart => ?_⟩
  · rw [own_update_self old]
  · rw [own_update, if_neg fun h => apart h.1]

/-- Nodes are made, and then an old one gets one more element. -/
theorem append_after {e : Element} (size : t.size ≤ t'.size)
    (kept : ∀ id : NodeId, id.index < t.size → t'.own id = t.own id) (settled : t.Settled top)
    (old : top.index < t.size) : t'.Grown top [e] (t'.append top e) ∧ t.Grown top [e] (t'.append top e) := by
  have settled' : t'.Settled top := by
    unfold Settled
    rw [kept top old]
    exact settled
  have grown := append (e := e) settled' (Nat.lt_of_lt_of_le old size)
  refine ⟨grown, Nat.le_trans size grown.size, ?_, fun id there apart => ?_⟩
  · rw [grown.more, kept top old]
  · rw [grown.others id (Nat.lt_of_lt_of_le there size) apart, kept id there]

/-- A new node is put at the end of an old one. -/
theorem push_append {n : Node} (settled : t.Settled top) (old : top.index < t.size) :
    t.Grown top [.node ⟨t.size⟩] ((t.push n).2.append top (.node ⟨t.size⟩)) ∧
      ((t.push n).2.append top (.node ⟨t.size⟩)).own ⟨t.size⟩ = n := by
  have larger : t.size < (t.push n).2.size := by
    rw [size_push]
    exact Nat.lt_succ_self _
  have kept : ∀ id : NodeId, id.index < t.size → (t.push n).2.own id = t.own id := by
    intro id there
    rw [own_push, if_neg (Nat.ne_of_lt there)]
  obtain ⟨last, grown⟩ := append_after (e := .node ⟨t.size⟩) (Nat.le_of_lt larger) kept settled old
  refine ⟨grown, ?_⟩
  rw [last.others ⟨t.size⟩ larger, own_push, if_pos rfl]
  rintro rfl
  exact Nat.lt_irrefl _ old

end Grown

end Tree

/-! ### Putting pieces -/

namespace Compile

variable {W : Type}

/-- A handler that always succeeds and leaves the tree alone. -/
def Quiet (load : Loader W) (handler : Tag.NodeHandler) : Prop :=
  ∀ id s, ∃ s', carryOut load (handler id) s = (.ok (), s') ∧ s'.tree = s.tree

/-- A tag that opens can be read and is bound, and its handlers are quiet. -/
def Tame (table : Tag.Table) (load : Loader W) (token : Token) : Prop :=
  token.kind = .openTag →
    ∃ head handlers, Markup.Head.parse token.content = .ok head ∧ Keyed.get? head.name table = some handlers ∧
      ∀ phase handler, phase ≠ .onRender → handlers.get phase = some handler → Quiet load handler

variable {table : Tag.Table} {load : Loader W} {file : String} {top : NodeId} {outer : List NodeId}
  {s : CompileState W} {token : Token}

theorem tagName_of_parsed {head : Markup.Head} (kind : token.kind = .openTag)
    (parsed : Markup.Head.parse token.content = .ok head) : token.tagName = head.name := by
  unfold Token.tagName
  rw [kind, parsed]
  rfl

theorem handlerFor_get {handlers : Tag.Handlers} {phase : Tag.Phase} {handler : Tag.NodeHandler}
    (found : handlerFor handlers phase = some handler) (reading : phase ≠ .onRender) :
    ∃ phase', phase' ≠ .onRender ∧ handlers.get phase' = some handler := by
  cases phase with
  | onOpen =>
    cases once : handlers.onOpenClose with
    | some other =>
      unfold handlerFor at found
      rw [once] at found
      exact ⟨.onOpenClose, nofun, once.trans found⟩
    | none =>
      unfold handlerFor at found
      rw [once] at found
      exact ⟨.onOpen, nofun, found⟩
  | onClose => exact ⟨.onClose, nofun, found⟩
  | onRender => exact absurd rfl reading
  | onOpenClose => exact ⟨.onOpenClose, nofun, found⟩

/-- With quiet handlers nothing comes of a tag but that the node of a single tag is not to be closed. -/
theorem dispatch_quiet (phase : Tag.Phase) {handlers : Tag.Handlers} {id : NodeId} {name : String}
    (named : (s.tree.own id).name = some name) (bound : Keyed.get? name table = some handlers)
    (quiet : ∀ phase handler, phase ≠ .onRender → handlers.get phase = some handler → Quiet load handler)
    (reading : phase ≠ .onRender) :
    ∃ s', dispatch table load id phase s = (.ok (), s') ∧
      s'.tree = if phase = .onOpen ∧ handlers.onOpenClose.isSome then
        s.tree.update id fun n => { n with mustClose := false } else s.tree := by
  unfold dispatch
  rw [bind_apply, getTree_apply]
  dsimp only
  rw [named]
  dsimp only
  rw [bound]
  dsimp only
  cases found : handlerFor handlers phase with
  | none => split <;> exact ⟨_, rfl, rfl⟩
  | some handler =>
    obtain ⟨phase', reading', same⟩ := handlerFor_get found reading
    have carried := quiet phase' handler reading' same id
    split
    · exact carried _
    · exact carried s

theorem put_text (kind : token.kind = .text) :
    put table load file (top :: outer) token s =
      (.ok (top :: outer), { s with tree := s.tree.append top (.text (String.ofList token.content)) }) := by
  unfold put
  rw [kind]
  rfl

theorem put_variable (kind : token.kind = .variable) :
    put table load file (top :: outer) token s =
      (.ok (top :: outer), { s with
        tree := (s.tree.push (printing file token.line (String.ofList token.content) top)).2.append top
          (.node ⟨s.tree.size⟩) }) := by
  unfold put
  rw [kind]
  dsimp only
  unfold putVariable
  rw [bind_apply, bind_apply, createChild_eq]
  dsimp only
  rw [bind_apply, changeTree_fresh]
  rfl

/-- A tag that opens gets a node, which stays on top or goes into the node below at once. -/
theorem put_openTag (file : String) (top : NodeId) (outer : List NodeId) (s : CompileState W) {head : Markup.Head}
    {handlers : Tag.Handlers} (kind : token.kind = .openTag)
    (parsed : Markup.Head.parse token.content = .ok head) (bound : Keyed.get? head.name table = some handlers)
    (quiet : ∀ phase handler, phase ≠ .onRender → handlers.get phase = some handler → Quiet load handler) :
    ∃ s', if handlers.onOpenClose.isSome then
        put table load file (top :: outer) token s = (.ok (top :: outer), s') ∧
          s'.tree = (s.tree.push (Node.opened file token.line top head false)).2.append top (.node ⟨s.tree.size⟩)
      else
        put table load file (top :: outer) token s = (.ok (⟨s.tree.size⟩ :: top :: outer), s') ∧
          s'.tree = (s.tree.push (Node.opened file token.line top head true)).2 := by
  have opened : put table load file (top :: outer) token s =
      (dispatch table load ⟨s.tree.size⟩ .onOpen >>= fun _ => do
        let t ← getTree
        if (t.own ⟨s.tree.size⟩).mustClose then pure (⟨s.tree.size⟩ :: top :: outer)
        else do
          changeTree (·.append top (.node ⟨s.tree.size⟩))
          pure (top :: outer)) (withNode s (Node.opened file token.line top head true)) := by
    unfold put
    rw [kind]
    dsimp only
    unfold putOpen
    rw [bind_apply, createChild_eq]
    dsimp only
    rw [parsed]
    dsimp only
    rw [bind_apply, changeTree_fresh]
    rfl
  have named : ((withNode s (Node.opened file token.line top head true)).tree.own ⟨s.tree.size⟩).name =
      some head.name := by
    rw [own_withNode]
    rfl
  obtain ⟨s₁, dispatched, tree⟩ := dispatch_quiet .onOpen named bound quiet nofun
  rw [opened, bind_apply, dispatched]
  dsimp only
  rw [bind_apply, getTree_apply]
  dsimp only
  cases single : handlers.onOpenClose.isSome with
  | true =>
    rw [if_pos ⟨rfl, single⟩] at tree
    have pushed : s₁.tree = (s.tree.push (Node.opened file token.line top head false)).2 :=
      tree.trans (Tree.update_push ..)
    have once : (s₁.tree.own ⟨s.tree.size⟩).mustClose = false := by
      rw [pushed, Tree.own_push, if_pos rfl]
      rfl
    rw [once]
    refine ⟨_, rfl, ?_⟩
    show s₁.tree.append top _ = _
    rw [pushed]
  | false =>
    rw [if_neg (by rw [single]; exact fun h => nomatch h.2)] at tree
    have stands : (s₁.tree.own ⟨s.tree.size⟩).mustClose = true := by
      rw [tree, own_withNode]
      rfl
    rw [stands]
    exact ⟨s₁, rfl, tree⟩

/-- A tag that closes the innermost open one puts its node into the node below. -/
theorem put_closeTag (file : String) (parent : NodeId) (outer : List NodeId) {handlers : Tag.Handlers} {name : String}
    (kind : token.kind = .closeTag)
    (inner : (s.tree.own top).isRoot = false) (named : (s.tree.own top).name = some name)
    (same : name = token.tagName) (bound : Keyed.get? name table = some handlers)
    (quiet : ∀ phase handler, phase ≠ .onRender → handlers.get phase = some handler → Quiet load handler) :
    ∃ s', put table load file (top :: parent :: outer) token s = (.ok (parent :: outer), s') ∧
      s'.tree = s.tree.append parent (.node top) := by
  have found : (s.tree.own top).tag = String.ofList token.content := by
    unfold Node.tag
    rw [named, same]
    unfold Token.tagName
    rw [kind]
    rfl
  obtain ⟨s₁, dispatched, tree⟩ := dispatch_quiet .onClose named bound quiet nofun
  rw [if_neg (fun h => nomatch h.1)] at tree
  refine ⟨{ s₁ with tree := s₁.tree.append parent (.node top) }, ?_, congrArg (·.append parent (.node top)) tree⟩
  unfold put
  rw [kind]
  dsimp only
  unfold putClose
  rw [bind_apply, getTree_apply]
  dsimp only
  rw [if_neg (by rw [inner, found]; simp), bind_apply, dispatched]
  rfl

/-- A tag that closes anything but the innermost open tag is an error. -/
theorem put_wrong_closeTag (kind : token.kind = .closeTag)
    (wrong : (s.tree.own top).isRoot = true ∨ (s.tree.own top).tag ≠ token.tagName) :
    put table load file (top :: outer) token s =
      (.error (.tagMismatch ⟨(s.tree.own top).tag, file, token.line⟩ token.tagName), s) := by
  have content : token.tagName = String.ofList token.content := by
    unfold Token.tagName
    rw [kind]
  rw [content] at wrong ⊢
  unfold put
  rw [kind]
  dsimp only
  unfold putClose
  rw [bind_apply, getTree_apply]
  dsimp only
  rw [if_pos wrong]
  rfl

/-! ### Putting passages -/

theorem puts_cons {tokens : List Token} {stack stack' : List NodeId} {s' : CompileState W}
    (first : put table load file stack token s = (.ok stack', s')) :
    (token :: tokens).foldlM (put table load file) stack s = tokens.foldlM (put table load file) stack' s' := by
  rw [List.foldlM_cons, bind_apply, first]

theorem puts_append {first second : List Token} {stack stack' : List NodeId} {s' : CompileState W}
    (before : first.foldlM (put table load file) stack s = (.ok stack', s')) :
    (first ++ second).foldlM (put table load file) stack s = second.foldlM (put table load file) stack' s' := by
  rw [List.foldlM_append, bind_apply, before]

/-- A piece with nothing inside becomes one more element. -/
theorem put_flat (file : String) (outer : List NodeId) (flat : token.Flat table) (tame : Tame table load token)
    (old : top.index < s.tree.size) (settled : s.tree.Settled top) :
    ∃ s' e, put table load file (top :: outer) token s = (.ok (top :: outer), s') ∧ s.tree.Grown top [e] s'.tree ∧
      ∀ t, Tree.SameFrom s.tree.size s'.tree t → ∀ es rest, t.Shows file top es rest →
        t.Shows file top (e :: es) (.piece token rest) := by
  have here : ∀ {t t' : Tree} {n : Node}, t'.own ⟨s.tree.size⟩ = n → Tree.SameFrom s.tree.size t' t →
      n.mustClose = false → t.own ⟨s.tree.size⟩ = n := by
    intro t t' n own same once
    refine (same ⟨s.tree.size⟩ (Nat.le_refl _) ?_).trans own
    refine Nat.lt_of_not_le fun beyond => ?_
    rw [Tree.own_of_size_le beyond] at own
    rw [← own] at once
    cases once
  rcases flat with kind | kind | ⟨kind, handlers, bound, single⟩
  · refine ⟨_, _, put_text kind, .append settled old, ?_⟩
    intro t _ es rest shows
    exact .text kind shows
  · obtain ⟨grown, own⟩ := Tree.Grown.push_append
      (n := printing file token.line (String.ofList token.content) top) settled old
    refine ⟨_, _, put_variable kind, grown, ?_⟩
    intro t same es rest shows
    exact .printed kind (here own same rfl) shows
  · obtain ⟨head, handlers', parsed, bound', quiet⟩ := tame kind
    rw [tagName_of_parsed kind parsed, bound'] at bound
    cases bound
    obtain ⟨s', placed⟩ := put_openTag file top outer s kind parsed bound' quiet
    rw [if_pos single] at placed
    obtain ⟨put, tree⟩ := placed
    obtain ⟨grown, own⟩ := Tree.Grown.push_append (n := Node.opened file token.line top head false) settled old
    rw [← tree] at grown own
    refine ⟨s', _, put, grown, ?_⟩
    intro t same es rest shows
    exact .single kind parsed (here own same rfl) shows

/-- A tag that has to be closed gets a new node, which is the innermost from then on. -/
theorem put_opener (file : String) (top : NodeId) (outer : List NodeId) (s : CompileState W)
    (opens : token.Opens table) (tame : Tame table load token) :
    ∃ head handlers s', Markup.Head.parse token.content = .ok head ∧ Keyed.get? head.name table = some handlers ∧
      (∀ phase handler, phase ≠ .onRender → handlers.get phase = some handler → Quiet load handler) ∧
      put table load file (top :: outer) token s = (.ok (⟨s.tree.size⟩ :: top :: outer), s') ∧
      s'.tree = (s.tree.push (Node.opened file token.line top head true)).2 := by
  obtain ⟨kind, handlers, bound, nests⟩ := opens
  obtain ⟨head, handlers', parsed, bound', quiet⟩ := tame kind
  rw [tagName_of_parsed kind parsed, bound'] at bound
  cases bound
  obtain ⟨s', placed⟩ := put_openTag file top outer s kind parsed bound' quiet
  rw [if_neg (by rw [nests]; exact Bool.false_ne_true)] at placed
  exact ⟨head, _, s', parsed, bound', quiet, placed⟩

/-- A passage becomes the last elements of the node on top. -/
theorem puts_passage (file : String) (top : NodeId) (outer : List NodeId) {passage : Passage}
    (fits : passage.Fits table)
    (tame : ∀ token ∈ passage.tokens, Tame table load token) (old : top.index < s.tree.size)
    (settled : s.tree.Settled top) :
    ∃ s' es, passage.tokens.foldlM (put table load file) (top :: outer) s = (.ok (top :: outer), s') ∧
      s.tree.Grown top es s'.tree ∧
      ∀ t, Tree.SameFrom s.tree.size s'.tree t → t.Shows file top es passage := by
  induction passage generalizing top outer s with
  | done => exact ⟨s, [], rfl, .refl _ _, fun _ _ => .done⟩
  | piece token rest ih =>
    obtain ⟨s₁, e, first, grown₁, shows₁⟩ :=
      put_flat file outer fits.1 (tame token (List.mem_cons_self ..)) old settled
    obtain ⟨s₂, es, after, grown₂, shows₂⟩ := ih top outer fits.2
      (fun other mem => tame other (List.mem_cons_of_mem _ mem)) (Nat.lt_of_lt_of_le old grown₁.size)
      (grown₁.settled settled)
    refine ⟨s₂, e :: es, ?_, grown₁.trans grown₂, fun t same => ?_⟩
    · show (token :: rest.tokens).foldlM (put table load file) (top :: outer) s = _
      rw [puts_cons first]
      exact after
    · exact shows₁ t (grown₂.sameFrom old same) es rest (shows₂ t (same.mono grown₁.size))
  | enclosed opener inside closer rest within after =>
    obtain ⟨opens, fitsInside, closes, name, fitsRest⟩ := fits
    obtain ⟨head, handlers, s₁, parsed, bound, quiet, opened, tree₁⟩ :=
      put_opener file top outer s opens (tame opener (List.mem_cons_self ..))
    rw [tagName_of_parsed opens.1 parsed] at name
    have own₁ : s₁.tree.own ⟨s.tree.size⟩ = Node.opened file opener.line top head true := by
      rw [tree₁, Tree.own_push, if_pos rfl]
    have larger : s.tree.size < s₁.tree.size := by
      rw [tree₁, Tree.size_push]
      exact Nat.lt_succ_self _
    obtain ⟨s₂, inner, filled, grown₂, shows₂⟩ := within ⟨s.tree.size⟩ (top :: outer) (s := s₁)
      fitsInside (fun other mem => tame other (List.mem_cons_of_mem _ (List.mem_append_left _ mem))) larger
      (by unfold Tree.Settled; rw [own₁]; rfl)
    have own₂ : s₂.tree.own ⟨s.tree.size⟩ = { Node.opened file opener.line top head true with body := inner } := by
      rw [grown₂.more, own₁]
      rfl
    have inner₂ : (s₂.tree.own ⟨s.tree.size⟩).isRoot = false := by
      rw [own₂]
      rfl
    have named₂ : (s₂.tree.own ⟨s.tree.size⟩).name = some head.name := by
      rw [own₂]
      rfl
    obtain ⟨s₃, closed, tree₃⟩ := put_closeTag file top outer closes inner₂ named₂ name bound quiet
    have kept : ∀ id : NodeId, id.index < s.tree.size → s₂.tree.own id = s.tree.own id := by
      intro id there
      have apart : id ≠ ⟨s.tree.size⟩ := by
        rintro rfl
        exact Nat.lt_irrefl _ there
      rw [grown₂.others id (Nat.lt_trans there larger) apart, tree₁, Tree.own_push, if_neg (Nat.ne_of_lt there)]
    obtain ⟨last, grown₃⟩ := Tree.Grown.append_after (e := .node ⟨s.tree.size⟩)
      (Nat.le_trans (Nat.le_of_lt larger) grown₂.size) kept settled old
    rw [← tree₃] at last grown₃
    obtain ⟨s₄, es, followed, grown₄, shows₄⟩ := after top outer (s := s₃) fitsRest
      (fun other mem => tame other (List.mem_cons_of_mem _ (List.mem_append_right _ (List.mem_cons_of_mem _ mem))))
      (Nat.lt_of_lt_of_le old grown₃.size) (grown₃.settled settled)
    refine ⟨s₄, .node ⟨s.tree.size⟩ :: es, ?_, grown₃.trans grown₄, fun t same => ?_⟩
    · show (opener :: (inside.tokens ++ closer :: rest.tokens)).foldlM (put table load file) (top :: outer) s = _
      rw [puts_cons opened, puts_append filled, puts_cons closed]
      exact followed
    · have same₂ : Tree.SameFrom s.tree.size s₂.tree t := last.sameFrom old (grown₄.sameFrom old same)
      refine .enclosed parsed ?_ (shows₂ t (same₂.mono (Nat.le_of_lt larger))) (shows₄ t (same.mono grown₃.size))
      rw [same₂ ⟨s.tree.size⟩ (Nat.le_refl _) (Nat.lt_of_lt_of_le larger grown₂.size), own₂]

/-- What is on top after some pieces: the node of the innermost open tag, or the root. -/
structure OnTop (file : String) (root : Node) (innermost : Option Token) (top : NodeId) (t : Tree) : Prop where
  old : top.index < t.size
  settled : t.Settled top
  tag : ∀ opener ∈ innermost, (t.own top).isRoot = false ∧ t.site top = ⟨opener.tagName, file, opener.line⟩
  bottom : innermost = none → (t.own top).isRoot = root.isRoot ∧ (t.own top).tag = root.tag

theorem OnTop.grown {root : Node} {innermost : Option Token} {t t' : Tree} {es : List Element}
    (onTop : OnTop file root innermost top t) (grown : t.Grown top es t') : OnTop file root innermost top t' where
  old := Nat.lt_of_lt_of_le onTop.old grown.size
  settled := grown.settled onTop.settled
  tag opener here := by
    rw [grown.site, grown.more]
    exact onTop.tag opener here
  bottom outside := by
    rw [grown.more]
    exact onTop.bottom outside

/-- Pieces with their closing tags in place are put without an error. -/
theorem puts_pending (file : String) {front opens : List Token} (pending : Pending table front opens)
    (tame : ∀ token ∈ front, Tame table load token) {root : NodeId} (old : root.index < s.tree.size)
    (settled : s.tree.Settled root) :
    ∃ s' top outer, front.foldlM (put table load file) [root] s = (.ok (top :: outer), s') ∧
      OnTop file (s.tree.own root) opens.head? top s'.tree := by
  induction pending with
  | closed fits =>
    obtain ⟨s', es, placed, grown, -⟩ := puts_passage file root [] fits tame old settled
    refine ⟨s', root, [], placed, OnTop.grown ⟨old, settled, nofun, fun _ => ⟨rfl, rfl⟩⟩ grown⟩
  | @inside front opens opener passage before here fits ih =>
    obtain ⟨s₁, top, outer, placed, -⟩ := ih fun other mem => tame other (List.mem_append_left _ mem)
    obtain ⟨head, handlers, s₂, parsed, bound, quiet, opened, tree⟩ := put_opener file top outer s₁ here
      (tame opener (List.mem_append_right _ (List.mem_cons_self ..)))
    have own : s₂.tree.own ⟨s₁.tree.size⟩ = Node.opened file opener.line top head true := by
      rw [tree, Tree.own_push, if_pos rfl]
    have onTop : OnTop file (s.tree.own root) (some opener) ⟨s₁.tree.size⟩ s₂.tree := by
      refine ⟨?_, ?_, ?_, nofun⟩
      · rw [tree, Tree.size_push]
        exact Nat.lt_succ_self _
      · unfold Tree.Settled
        rw [own]
        rfl
      · rintro other ⟨⟩
        unfold Tree.site
        rw [own, tagName_of_parsed here.1 parsed]
        exact ⟨rfl, rfl⟩
    obtain ⟨s₃, es, within, grown, -⟩ := puts_passage file ⟨s₁.tree.size⟩ (top :: outer) fits
      (fun other mem => tame other (List.mem_append_right _ (List.mem_cons_of_mem _ mem))) onTop.old onTop.settled
    refine ⟨s₃, ⟨s₁.tree.size⟩, top :: outer, ?_, onTop.grown grown⟩
    rw [puts_append placed, puts_cons opened]
    exact within

/-! ### Building -/

theorem checkClosed_cons (top : NodeId) (outer : List NodeId) (s : CompileState W) :
    checkClosed (top :: outer) s =
      (if (s.tree.own top).isRoot then .ok () else .error (.unclosedTag (s.tree.site top)), s) := by
  unfold checkClosed
  dsimp only
  rw [bind_apply, getTree_apply]
  dsimp only
  cases (s.tree.own top).isRoot <;> rfl

section Building

variable {tokens : List Token} {root : NodeId} {line : Nat} (tame : ∀ token ∈ tokens, Tame table load token)
  (fresh : s.tree.own root = { Node.fresh file line with isRoot := true })

include fresh in
theorem root_settled : root.index < s.tree.size ∧ s.tree.Settled root := by
  refine ⟨Nat.lt_of_not_le fun beyond => ?_, ?_⟩
  · rw [Tree.own_of_size_le beyond] at fresh
    exact nomatch congrArg Node.isRoot fresh
  · unfold Tree.Settled
    rw [fresh]
    rfl

include tame fresh

theorem build_of_nested (nested : Nested table tokens) :
    ∃ s', build table load file root tokens s = (.ok (), s') ∧
      ∃ passage : Passage, passage.Fits table ∧ passage.tokens = tokens ∧
        ∃ es, s'.tree.own root = { Node.fresh file line with isRoot := true, body := es } ∧
          s'.tree.Shows file root es passage := by
  obtain ⟨passage, fits, rfl⟩ := nested
  obtain ⟨old, settled⟩ := root_settled fresh
  obtain ⟨s', es, placed, grown, shows⟩ := puts_passage file root [] fits tame old settled
  have own : s'.tree.own root = { Node.fresh file line with isRoot := true, body := es } := by
    rw [grown.more, fresh]
    rfl
  refine ⟨s', ?_, passage, fits, rfl, es, own, shows s'.tree fun _ _ _ => rfl⟩
  unfold build
  rw [bind_apply, placed]
  dsimp only
  rw [checkClosed_cons, own]
  rfl

theorem build_ok_iff_of_error {e : TemplateError} {s' : CompileState W}
    (refused : build table load file root tokens s = (.error e, s')) :
    (build table load file root tokens s).1 = .ok () ↔ Nested table tokens := by
  rw [refused]
  refine ⟨nofun, fun nested => ?_⟩
  obtain ⟨_, built, -⟩ := build_of_nested tame fresh nested
  cases refused.symm.trans built

theorem build_of_mismatched {innermost : Option Token} {closer : Token}
    (mismatched : Mismatched table tokens innermost closer) :
    ∃ s', build table load file root tokens s =
      (.error (.tagMismatch ⟨(innermost.map (·.tagName)).getD "", file, closer.line⟩ closer.tagName), s') := by
  obtain ⟨front, opens, rest, rfl, pending, rfl, kind, apart⟩ := mismatched
  obtain ⟨old, settled⟩ := root_settled fresh
  obtain ⟨s', top, outer, placed, onTop⟩ :=
    puts_pending file pending (fun other mem => tame other (List.mem_append_left _ mem)) old settled
  have tag : (s'.tree.own top).tag = (opens.head?.map (·.tagName)).getD "" ∧
      ((s'.tree.own top).isRoot = true ∨ (s'.tree.own top).tag ≠ closer.tagName) := by
    cases innermost : opens.head? with
    | none =>
      obtain ⟨bottom, empty⟩ := onTop.bottom innermost
      rw [fresh] at bottom empty
      exact ⟨empty, .inl bottom⟩
    | some opener =>
      have same : (s'.tree.own top).tag = opener.tagName := congrArg Site.tag (onTop.tag opener innermost).2
      exact ⟨same, .inr fun h => apart opener innermost (same.symm.trans h)⟩
  refine ⟨s', ?_⟩
  unfold build
  rw [bind_apply, puts_append placed, List.foldlM_cons, bind_apply, put_wrong_closeTag kind tag.2, tag.1]

theorem build_of_unclosed {opener : Token} (unclosed : Unclosed table tokens opener) :
    ∃ s', build table load file root tokens s =
      (.error (.unclosedTag ⟨opener.tagName, file, opener.line⟩), s') := by
  obtain ⟨opens, pending⟩ := unclosed
  obtain ⟨old, settled⟩ := root_settled fresh
  obtain ⟨s', top, outer, placed, onTop⟩ := puts_pending file pending tame old settled
  obtain ⟨inner, site⟩ := onTop.tag opener rfl
  refine ⟨s', ?_⟩
  unfold build
  rw [bind_apply, placed]
  dsimp only
  rw [checkClosed_cons, inner, site]
  rfl

end Building

/-- Pieces are put together when their tags are nested, and then the tree has them in their order. Otherwise the
first tag that closes the wrong one is reported with the tag that it should have closed, which is empty where none
is open; and if there is no such tag, the innermost tag that is still open, where it stands. -/
theorem build_follows_nesting (table : Tag.Table) (load : Loader W) (file : String) (root : NodeId)
    (tokens : List Token) (s : CompileState W) (line : Nat)
    (tame : ∀ token ∈ tokens, Tame table load token)
    (fresh : s.tree.own root = { Node.fresh file line with isRoot := true }) :
    ((build table load file root tokens s).1 = .ok () ↔ Nested table tokens) ∧
    match build table load file root tokens s with
    | (.ok (), s') => ∃ passage : Passage, passage.Fits table ∧ passage.tokens = tokens ∧
        ∃ es, s'.tree.own root = { Node.fresh file line with isRoot := true, body := es } ∧
          s'.tree.Shows file root es passage
    | (.error e, _) =>
      (∃ innermost closer, Mismatched table tokens innermost closer ∧
        e = .tagMismatch ⟨(innermost.map (·.tagName)).getD "", file, closer.line⟩ closer.tagName) ∨
      (¬ ∃ innermost closer, Mismatched table tokens innermost closer) ∧
        ∃ opener, Unclosed table tokens opener ∧ e = .unclosedTag ⟨opener.tagName, file, opener.line⟩ := by
  have known : ∀ token ∈ tokens, token.kind = .openTag →
      ∃ handlers, Keyed.get? token.tagName table = some handlers := by
    intro token mem kind
    obtain ⟨head, handlers, parsed, bound, -⟩ := tame token mem kind
    exact ⟨handlers, by rw [tagName_of_parsed kind parsed]; exact bound⟩
  rcases Markup.pending_or_mismatched known with ⟨opens, pending⟩ | ⟨innermost, closer, wrong⟩
  · cases opens with
    | nil =>
      have nested : Nested table tokens := by
        cases pending with
        | closed fits => exact ⟨_, fits, rfl⟩
      obtain ⟨s', built, shown⟩ := build_of_nested tame fresh nested
      rw [built]
      exact ⟨⟨fun _ => nested, fun _ => rfl⟩, shown⟩
    | cons opener others =>
      obtain ⟨s', refused⟩ := build_of_unclosed tame fresh ⟨others, pending⟩
      refine ⟨build_ok_iff_of_error tame fresh refused, ?_⟩
      rw [refused]
      refine .inr ⟨?_, opener, ⟨others, pending⟩, rfl⟩
      rintro ⟨innermost, closer, wrong⟩
      obtain ⟨_, refused'⟩ := build_of_mismatched tame fresh wrong
      cases refused.symm.trans refused'
  · obtain ⟨s', refused⟩ := build_of_mismatched tame fresh wrong
    refine ⟨build_ok_iff_of_error tame fresh refused, ?_⟩
    rw [refused]
    exact .inl ⟨innermost, closer, wrong, rfl⟩

/-- A table with one tag that nests and one that does not, both with handlers that do nothing. -/
def boxesAndDots : Tag.Table :=
  [("box", ⟨some fun _ => .done (), some fun _ => .done (), none, none⟩),
    ("dot", ⟨none, none, none, some fun _ => .done ()⟩)]

/-- The pieces of `{box}a{dot}{$v}{/box}`. -/
def boxedPieces : List Token :=
  [⟨.openTag, ['{', 'b', 'o', 'x', '}'], 1⟩, ⟨.text, ['a'], 1⟩,
    ⟨.openTag, ['{', 'd', 'o', 't', '}'], 1⟩, ⟨.variable, ['{', '$', 'v', '}'], 1⟩,
    ⟨.closeTag, ['{', '/', 'b', 'o', 'x', '}'], 1⟩]

theorem tame_boxedPieces : ∀ token ∈ boxedPieces, Tame boxesAndDots (noLoad (W := Unit)) token := by
  have quiet : ∀ handlers ∈ boxesAndDots.map (·.2), ∀ phase handler, phase ≠ .onRender →
      handlers.get phase = some handler → Quiet (noLoad (W := Unit)) handler := by
    intro handlers mem phase handler _ bound id s
    simp only [boxesAndDots, List.map_cons, List.map_nil, List.mem_cons, List.not_mem_nil, or_false] at mem
    rcases mem with rfl | rfl <;> cases phase <;> cases bound <;> exact ⟨s, rfl, rfl⟩
  intro token mem kind
  simp only [boxedPieces, List.mem_cons, List.not_mem_nil, or_false] at mem
  rcases mem with rfl | rfl | rfl | rfl | rfl
  · exact ⟨⟨"box", []⟩, _, by rfl, by rfl, quiet _ (by simp [boxesAndDots])⟩
  · cases kind
  · exact ⟨⟨"dot", []⟩, _, by rfl, by rfl, quiet _ (by simp [boxesAndDots])⟩
  · cases kind
  · cases kind

/-- A state with nothing but a root. -/
def emptyPage : CompileState Unit :=
  withNode (CompileState.initial ()) { Node.fresh "page" 1 with isRoot := true }

theorem boxed_pieces_nested : Nested boxesAndDots boxedPieces ∧ ¬ Nested boxesAndDots (boxedPieces.drop 1) := by
  have built : (build boxesAndDots noLoad "page" ⟨0⟩ boxedPieces emptyPage).1 = .ok () := by rfl
  have refused : (build boxesAndDots noLoad "page" ⟨0⟩ (boxedPieces.drop 1) emptyPage).1 =
      .error (.tagMismatch ⟨"", "page", 1⟩ "box") := by rfl
  refine ⟨(build_follows_nesting boxesAndDots noLoad "page" ⟨0⟩ boxedPieces emptyPage 1 tame_boxedPieces rfl).1.mp
    built, fun nested => ?_⟩
  have fine := (build_follows_nesting boxesAndDots noLoad "page" ⟨0⟩ (boxedPieces.drop 1) emptyPage 1
    (fun token mem => tame_boxedPieces token (List.mem_of_mem_drop mem)) rfl).1.mpr nested
  rw [refused] at fine
  cases fine

end Compile

end Stencil
