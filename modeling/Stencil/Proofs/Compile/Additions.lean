import Mathlib.Data.List.InsertIdx
import Stencil.Proofs.Compile.Aside
import Stencil.Proofs.Compile.Blocks
import Stencil.Proofs.Compile.Furnishing

/-!
What is added to blocks. Every addition that closes in a block other than itself is written down, with the node that
takes it, and a node that no open node leads to then holds what the additions to it make of its body, one after the
other.
-/
namespace Stencil

open Tag

/-! #### Bodies -/

/-- The place of an index in a body of the given length: it counts from the front, or from the end if it is negative,
and is moved to the nearer end if it is beyond the body. -/
def Position.clamped (i : Int64) (length : Nat) : Nat :=
  (max 0 (min (if i.toInt < 0 then length + i.toInt else i.toInt) (length : Int))).toNat

/-- A body after an element has been added to it. -/
def Position.into (position : Position) (e : Element) (body : List Element) : List Element :=
  match position with
  | .after => body ++ [.text "\n", e]
  | .before => e :: .text "\n" :: body
  | .index i => body.take (clamped i body.length) ++ e :: body.drop (clamped i body.length)

/-- A node that is added to a block: what it goes into and where, the tag that it comes from, and what stood in it. -/
structure Addition where
  block : String
  into : NodeId
  position : Position
  site : NodeId
  node : NodeId
  body : List Element
  deriving DecidableEq

/-- A body after additions, one after the other. -/
def composed (body : List Element) (additions : List Addition) : List Element :=
  additions.foldl (fun body a => a.position.into (.node a.node) body) body

section Bodies

variable {position : Position} {e e' : Element} {body : List Element} {first rest additions : List Addition}
  {id : NodeId}

theorem Position.sublist_into : body.Sublist (position.into e body) := by
  cases position with
  | after => exact List.sublist_append_left _ _
  | before => exact (List.sublist_cons_self _ _).trans (List.sublist_cons_self _ _)
  | index i =>
    have parts : (body.take (clamped i body.length) ++ body.drop (clamped i body.length)).Sublist
        (Position.into (.index i) e body) :=
      (List.Sublist.refl _).append (List.sublist_cons_self _ _)
    rw [List.take_append_drop] at parts
    exact parts

theorem Position.count_into (other : NodeId) :
    (position.into (.node id) body).count (.node other) = body.count (.node other) + [id].count other := by
  have text : (Element.text "\n" == .node other) = false := rfl
  have here : ([.node id] : List Element).count (.node other) = [id].count other := by
    rw [List.count_singleton, List.count_singleton]
    congr 1
    by_cases same : id = other
    · rw [same, beq_self_eq_true, beq_self_eq_true]
    · rw [beq_eq_false_iff_ne.mpr same, beq_eq_false_iff_ne.mpr fun h => same (Element.node.inj h)]
  rw [← here]
  cases position with
  | after =>
    show (body ++ [Element.text "\n", Element.node id]).count _ = _
    rw [List.count_append, List.count_cons, text]
    rfl
  | before =>
    show (Element.node id :: Element.text "\n" :: body).count _ = _
    rw [List.count_cons, List.count_cons, text, List.count_singleton]
    rfl
  | index i =>
    unfold into
    rw [List.count_append, List.count_cons, List.count_singleton, ← Nat.add_assoc, ← List.count_append,
      List.take_append_drop]

theorem composed_append : composed body (first ++ rest) = composed (composed body first) rest := List.foldl_append ..

theorem sublist_composed : body.Sublist (composed body additions) := by
  induction additions generalizing body with
  | nil => exact .refl _
  | cons a rest ih => exact Position.sublist_into.trans ih

theorem count_composed (other : NodeId) :
    (composed body additions).count (.node other) =
      body.count (.node other) + (additions.map (·.node)).count other := by
  induction additions generalizing body with
  | nil => rfl
  | cons a rest ih =>
    show (composed (a.position.into (.node a.node) body) rest).count _ = _
    rw [ih, Position.count_into, List.map_cons, Nat.add_assoc, ← List.count_append, List.singleton_append]

end Bodies

namespace Tree

variable {t : Tree} {block addition : NodeId} {position : Position}

theorem insertIdx_take_drop (e : Element) {body : List Element} {place : Nat} (within' : place ≤ body.length) :
    body.insertIdx place e = body.take place ++ e :: body.drop place := by
  induction body generalizing place with
  | nil =>
    cases Nat.le_zero.mp within'
    rfl
  | cons first rest ih =>
    cases place with
    | zero => rfl
    | succ place =>
      rw [List.insertIdx_succ_cons, ih (Nat.le_of_succ_le_succ within')]
      rfl

theorem insertIdx_place (e : Element) (body : List Element) (i : Int64) :
    body.insertIdx (Position.place body.length (.index i)) e = Position.into (.index i) e body := by
  have place : Position.place body.length (.index i) = Position.clamped i body.length := by
    have sign : i < 0 ↔ i.toInt < 0 := by
      rw [Int64.lt_iff_toInt_lt]
      rfl
    unfold Position.place Position.clamped
    dsimp only
    by_cases negative : i < 0
    · rw [if_pos negative, if_pos (sign.mp negative)]
      omega
    · rw [if_neg negative, if_neg fun h => negative (sign.mpr h)]
      omega
  have within' : Position.clamped i body.length ≤ body.length := by
    rw [← place]
    exact Nat.min_le_right _ _
  rw [place]
  exact insertIdx_take_drop e within'

/-- The node of a block takes an addition at its place. -/
theorem own_added (sound : t.Sound) (old : (t.target block).index < t.size) :
    (Compile.added block addition position t).own (t.target block) =
      { t.own (t.target block) with body := position.into (.node addition) (t.own (t.target block)).body } := by
  cases position with
  | after =>
    show ((t.append block (.text "\n")).update ((t.append block (.text "\n")).target block) _).own _ = _
    have links : t.SameLinks (t.append block (.text "\n")) := .append ..
    rw [links.target_eq sound, own_update_self (Nat.lt_of_lt_of_le old links.grown)]
    unfold append
    rw [own_update_self old, Position.into]
    dsimp only
    rw [List.append_assoc, List.singleton_append]
  | before =>
    show ((t.insert block (.node addition) .before).update
      ((t.insert block (.node addition) .before).target block) _).own _ = _
    have links : t.SameLinks (t.insert block (.node addition) .before) := .insert ..
    rw [links.target_eq sound, own_update_self (Nat.lt_of_lt_of_le old links.grown)]
    unfold insert
    rw [own_update_self old, Position.into]
    dsimp only
    -- What is put in front first stands at the head when the text comes behind it.
    have place : ∀ length : Nat, Position.place (length + 1) (.index 1) = 1 := by
      intro length
      unfold Position.place
      have one : (1 : Int64).toInt = 1 := rfl
      dsimp only
      rw [if_neg (by decide), one]
      omega
    rw [show Position.place _ .before = 0 from rfl, List.insertIdx_zero, List.length_cons, place]
    rfl
  | index i =>
    show (t.update _ _).own _ = _
    rw [own_update_self old]
    exact congrArg (fun body => { t.own (t.target block) with body := body }) (insertIdx_place _ _ i)

/-- A node has taken additions into its body, and is otherwise what it was. -/
structure Took (t t' : Tree) (id : NodeId) (additions : List Addition) : Prop where
  opening : (t'.own id).opening = (t.own id).opening
  body : (t'.own id).body = composed (t.own id).body additions
  closing : (t'.own id).closing = (t.own id).closing

theorem SameAt.took {t' : Tree} {id : NodeId} (same : t.SameAt t' id) : t.Took t' id [] :=
  ⟨same.opening, same.body, same.closing⟩

theorem Took.trans {t' t'' : Tree} {id : NodeId} {first rest : List Addition} (took : t.Took t' id first)
    (took' : t'.Took t'' id rest) : t.Took t'' id (first ++ rest) := by
  refine ⟨took'.opening.trans took.opening, ?_, took'.closing.trans took.closing⟩
  rw [took'.body, took.body, composed_append]

end Tree

/-! #### Additions in a run -/

/-- The addition that the next piece closes. What is known of its block may be the addition itself. -/
def Reader.addition? {W : Type} (r : Reader W) : Option Addition :=
  r.adds?.map fun top =>
    let n := r.state.tree.own top
    { block := n.param "id"
      into := r.state.tree.target (((Keyed.get? (n.param "id") r.state.blocks).map (·.node)).getD top)
      position := (Position.parse (n.param "position")).toOption.getD .after
      site := top
      node := ⟨r.state.tree.size⟩
      body := (r.state.tree.content top).body }

namespace Compile

variable {W : Type} {c : Compiler W} {s s' : CompileState W} {r r' r'' : Reader W} {top id : NodeId}
  {opens : List NodeId} {a : Addition} {additions first rest : List Addition} {position : Position}

/-- Any number of steps, with what they add to blocks. -/
inductive Adding (c : Compiler W) : Reader W → List Addition → Reader W → Prop where
  | here (r : Reader W) : Adding c r [] r
  | on {r r₁ r₂ : Reader W} {additions : List Addition} : Step c r r₁ → Adding c r₁ additions r₂ →
      Adding c r (r.addition?.toList ++ additions) r₂

theorem Adding.run (adding : Adding c r additions r') : Run c r r' := by
  induction adding with
  | here => exact .here _
  | on step _ ih => exact .on step ih

/-- Every run has its additions. -/
theorem exists_adding (run : Run c r r') : ∃ additions, Adding c r additions r' := by
  induction run with
  | here r => exact ⟨[], .here r⟩
  | on step _ ih =>
    obtain ⟨additions, adding⟩ := ih
    exact ⟨_, .on step adding⟩

theorem of_adds (adds : r.adds? = some top) : r.closes? = some top ∧ (r.state.tree.own top).tag = "addblock" := by
  unfold Reader.adds? at adds
  obtain ⟨closes, tag⟩ := Option.filter_eq_some_iff.mp adds
  exact ⟨closes, of_decide_eq_true tag⟩

/-- What is known of an addition to another node. -/
theorem of_addition (adds : r.addition? = some a) : r.adds? = some a.site ∧
    (r.state.tree.own a.site).param "id" = a.block ∧ a.node = ⟨r.state.tree.size⟩ ∧
    a.body = (r.state.tree.content a.site).body ∧
    a.position = (Position.parse ((r.state.tree.own a.site).param "position")).toOption.getD .after ∧
    a.into = r.state.tree.target (((Keyed.get? a.block r.state.blocks).map (·.node)).getD a.site) := by
  unfold Reader.addition? at adds
  obtain ⟨top, closes, rfl⟩ := Option.map_eq_some_iff.mp adds
  exact ⟨closes, rfl, rfl, rfl, rfl, rfl⟩

theorem addition_of_adds (adds : r.adds? = some top) : ∃ a, r.addition? = some a ∧ a.site = top := by
  unfold Reader.addition?
  rw [adds]
  exact ⟨_, rfl, rfl⟩

/-- An addition closes, and becomes part of the node around it. -/
theorem step_adds (standard : c.table = standardTable) (shaped : Shaped r) (adds : r.adds? = some top)
    (step : Step c r r') :
    ∃ frame token tokens parent under outer position,
      r.sheets = ⟨frame, token :: tokens, top :: parent :: under⟩ :: outer ∧
      r'.sheets = ⟨frame, tokens, parent :: under⟩ :: outer ∧ Goes top position r.state ∧
      r'.state = attach parent (.node top) (addblockClosed position top r.state) := by
  obtain ⟨closes, tag⟩ := of_adds adds
  cases step with
  | @put s s' frame token tokens stack stack' outer h reads run =>
    obtain ⟨top', below, rfl, old, -⟩ := shaped.effect standard reads run
    obtain ⟨kind, rfl⟩ := of_closes closes
    have upright := shaped.upright _ List.mem_cons_self
    rw [standard] at run
    unfold Compile.put at run
    rw [kind] at run
    obtain ⟨parent, under, s₁, rfl, -, dispatched, rfl, rfl⟩ := putClose_ok upright.bottom run
    rcases dispatch_onClose_ok dispatched with ⟨-, position, goes, rfl⟩ | ⟨other, -⟩
    · exact ⟨frame, token, tokens, parent, under, outer, position, rfl, rfl, goes, rfl⟩
    · exact absurd tag other
  | again reads =>
    obtain ⟨kind, -⟩ := of_closes closes
    exact absurd (kind.symm.trans (of_reading reads).1) (by decide)
  | enter reads =>
    obtain ⟨kind, -⟩ := of_closes closes
    exact absurd (kind.symm.trans (of_reading reads).1) (by decide)
  | leave finished =>
    rw [(nothing_left finished.1).2] at closes
    cases closes

/-! #### What takes additions -/

theorem addblockClosed_eq {b : Block} (known : Keyed.get? ((s.tree.own top).param "id") s.blocks = some b)
    (apart : b.node ≠ top) (position : Position) :
    addblockClosed position top s =
      { s with tree := added b.node ⟨s.tree.size⟩ position (movedOut top s.tree) } := by
  unfold addblockClosed
  rw [known]
  exact if_neg apart

/-- An addition that is itself what is known of its block leaves all as it is. -/
theorem addblockClosed_of_itself
    (itself : ∀ b, Keyed.get? ((s.tree.own top).param "id") s.blocks = some b → b.node = top) (position : Position) :
    addblockClosed position top s = s := by
  unfold addblockClosed
  split
  · rfl
  · rename_i b known
    exact if_pos (itself b known)

/-- What an addition goes into leads to another node, or is the addition itself. -/
theorem into_cases (adds : r.addition? = some a) :
    (∃ b, Keyed.get? a.block r.state.blocks = some b ∧ b.node ≠ a.site ∧ a.into = r.state.tree.target b.node) ∨
      (∀ b, Keyed.get? a.block r.state.blocks = some b → b.node = a.site) ∧
        a.into = r.state.tree.target a.site := by
  obtain ⟨-, -, -, -, -, into'⟩ := of_addition adds
  cases known : Keyed.get? a.block r.state.blocks with
  | none =>
    rw [known] at into'
    exact .inr ⟨fun b found => (by cases found), into'⟩
  | some b =>
    rw [known] at into'
    by_cases itself : b.node = a.site
    · refine .inr ⟨fun b' found => by cases found; exact itself, ?_⟩
      rw [← itself]
      exact into'
    · exact .inl ⟨b, rfl, itself, into'⟩

/-- What goes into a node that no open node leads to is not itself what is known of the block. -/
theorem into_beside (adds : r.addition? = some a) (beside : Beside r a.into) (isOpen : a.site ∈ openNodes r.sheets) :
    ∃ b, Keyed.get? a.block r.state.blocks = some b ∧ b.node ≠ a.site ∧ a.into = r.state.tree.target b.node := by
  refine (into_cases adds).resolve_right fun ⟨_, itself⟩ => ?_
  exact beside.apart a.site isOpen itself.symm

/-- The end of an addition puts a node into the block, and does nothing to other nodes that no open node leads to. -/
theorem Unmixed.addblockClosed (unmixed : Unmixed s opens) (isOpen : top ∈ opens) {b : Block}
    (known : Keyed.get? ((s.tree.own top).param "id") s.blocks = some b) (apart : b.node ≠ top) (position : Position) :
    Unmixed (addblockClosed position top s) opens ∧
      (∀ id, Aside s.tree opens id → Aside (Compile.addblockClosed position top s).tree opens id ∧
        (id ≠ s.tree.target b.node → s.tree.SameAt (Compile.addblockClosed position top s).tree id) ∧
        (id = s.tree.target b.node → (Compile.addblockClosed position top s).tree.own id =
          { (movedOut top s.tree).own id with
            body := position.into (.node ⟨s.tree.size⟩) ((movedOut top s.tree).own id).body })) ∧
      ∀ id, Lone s id → Lone (Compile.addblockClosed position top s) id := by
  have moved := unmixed.passing_movedOut isOpen
  have same : (movedOut top s.tree).target b.node = s.tree.target b.node :=
    (links_movedOut top s.tree).target_eq unmixed.grounded.sound b.node
  have links := links_added b.node ⟨s.tree.size⟩ position (movedOut top s.tree)
  have keeps := keeps_added moved.unmixed.grounded.sound (List.mem_singleton_self ((movedOut top s.tree).target b.node))
    ⟨s.tree.size⟩ position
  rw [addblockClosed_eq known apart]
  refine ⟨moved.unmixed.relink links keeps, fun id aside => ?_, fun id lone => ?_⟩
  · obtain ⟨aside', kept⟩ := moved.aside id aside
    refine ⟨aside'.relink moved.unmixed.grounded links, fun other => ?_, fun here => ?_⟩
    · refine kept.trans (keeps.sameAt aside'.old fun mem => other ?_)
      rw [List.mem_singleton.mp mem, same]
    · have old : ((movedOut top s.tree).target b.node).index < (movedOut top s.tree).size := by
        rw [same, ← here]
        exact aside'.old
      subst here
      rw [← same]
      exact Tree.own_added moved.unmixed.grounded.sound old
  · have free : Lone { s with tree := movedOut top s.tree } id :=
      lone.relink unmixed.grounded (links_movedOut top s.tree)
    exact free.relink moved.unmixed.grounded links

/-- What an addition goes into has taken it when it ends. -/
theorem Unmixed.took_addblockClosed (unmixed : Unmixed s opens) (isOpen : top ∈ opens) {b : Block}
    (known : Keyed.get? ((s.tree.own top).param "id") s.blocks = some b) (apart : b.node ≠ top)
    (node : a.node = ⟨s.tree.size⟩) (aside : Aside s.tree opens (s.tree.target b.node)) :
    s.tree.Took (Compile.addblockClosed a.position top s).tree (s.tree.target b.node) [a] := by
  have own := ((unmixed.addblockClosed isOpen known apart a.position).2.1 _ aside).2.2 rfl
  have stays := ((unmixed.passing_movedOut isOpen).aside _ aside).2
  constructor
  case opening =>
    rw [own]
    exact stays.opening
  case body =>
    rw [own, ← node, ← stays.body]
    rfl
  case closing =>
    rw [own]
    exact stays.closing

/-- A node closes and becomes part of the node around it. -/
theorem Unmixed.passing_close {parent : NodeId} {around : List NodeId} (unmixed : Unmixed s (top :: parent :: around)) :
    Passing s (top :: parent :: around) (attach parent (.node top) s) (parent :: around) := by
  have popped := unmixed.passing_pop
  exact popped.trans (popped.unmixed.passing_attach List.mem_cons_self (.node top))

/-- A node that is alone and is not open. -/
structure Alone (r : Reader W) (id : NodeId) : Prop where
  lone : Lone r.state id
  closed : id ∉ openNodes r.sheets

theorem Alone.beside (alone : Alone r id) : Beside r id := alone.lone.aside alone.closed

/-- What no open node leads to takes the additions that go into it, and what is alone stays as it is. -/
structure Receives (r r' : Reader W) (additions : List Addition) : Prop where
  beside : ∀ id, Beside r id →
    Beside r' id ∧ r.state.tree.Took r'.state.tree id (additions.filter (·.into = id))
  alone : ∀ id, Alone r id → Alone r' id ∧ r.state.tree.SameAt r'.state.tree id

theorem Receives.trans (receives : Receives r r' first) (receives' : Receives r' r'' rest) :
    Receives r r'' (first ++ rest) := by
  refine ⟨fun id beside => ?_, fun id alone => ?_⟩
  · obtain ⟨beside', took⟩ := receives.beside id beside
    obtain ⟨beside'', took'⟩ := receives'.beside id beside'
    refine ⟨beside'', ?_⟩
    rw [List.filter_append]
    exact took.trans took'
  · obtain ⟨alone', same⟩ := receives.alone id alone
    obtain ⟨alone'', same'⟩ := receives'.alone id alone'
    exact ⟨alone'', same.trans same'⟩

theorem Passing.receives (passing : Passing r.state (openNodes r.sheets) r'.state (openNodes r'.sheets)) :
    Receives r r' [] := by
  refine ⟨fun id beside => ?_, fun id alone => ?_⟩
  · obtain ⟨beside', same⟩ := passing.aside id beside
    exact ⟨beside', same.took⟩
  · obtain ⟨lone, closed⟩ := passing.lone id alone.lone alone.closed
    exact ⟨⟨lone, closed⟩, (passing.aside id alone.beside).2⟩

/-- No step spoils the order, and additions go where they belong. -/
theorem Ordered.receives (standard : c.table = standardTable) (ordered : Ordered r) (step : Step c r r') :
    Ordered r' ∧ Receives r r' r.addition?.toList := by
  have shaped := ordered.shaped.step standard step
  cases adds : r.adds? with
  | none =>
    have passing := ordered.passing standard step adds
    have nothing : r.addition? = none := by
      unfold Reader.addition?
      rw [adds]
      rfl
    rw [nothing]
    exact ⟨⟨shaped, passing.unmixed⟩, passing.receives⟩
  | some top =>
    obtain ⟨frame, token, tokens, parent, under, outer, position, sheets, sheets', goes, same⟩ :=
      step_adds standard ordered.shaped adds step
    have opened : openNodes r.sheets = top :: parent :: (under ++ openNodes outer) := by
      rw [sheets]
      rfl
    have unmixed := ordered.unmixed
    rw [opened] at unmixed
    have opened' : openNodes r'.sheets = parent :: (under ++ openNodes outer) := by
      rw [sheets']
      rfl
    obtain ⟨a, addition, rfl⟩ := addition_of_adds adds
    obtain ⟨-, block, node, -, placed, -⟩ := of_addition addition
    rw [addition, Option.toList_some]
    have isOpen : a.site ∈ openNodes r.sheets := by
      rw [opened]
      exact List.mem_cons_self
    have only : ∀ id, a.into = id → [a].filter (·.into = id) = [a] := fun id taker => by simp [taker]
    have none : ∀ id, a.into ≠ id → [a].filter (·.into = id) = [] := fun id other => by simp [other]
    rcases into_cases addition with ⟨b, known, apart, into'⟩ | ⟨itself, into'⟩
    · rw [← block] at known
      have parsed : position = a.position := by
        rw [placed, goes b known apart]
        rfl
      subst parsed
      obtain ⟨after, takes, free⟩ := unmixed.addblockClosed List.mem_cons_self known apart a.position
      -- After the addition is made its node is closed.
      have passing : Passing (Compile.addblockClosed a.position a.site r.state)
          (a.site :: parent :: (under ++ openNodes outer)) r'.state (openNodes r'.sheets) := by
        rw [same, opened']
        exact after.passing_close
      refine ⟨⟨shaped, passing.unmixed⟩, fun id beside => ?_, fun id alone => ?_⟩
      · unfold Beside at beside
        rw [opened] at beside
        obtain ⟨aside, elsewhere, -⟩ := takes id beside
        obtain ⟨aside', kept⟩ := passing.aside id aside
        refine ⟨aside', ?_⟩
        by_cases taker : a.into = id
        · rw [only id taker]
          rw [← taker, into'] at beside kept ⊢
          exact (unmixed.took_addblockClosed List.mem_cons_self known apart node beside).trans kept.took
        · rw [none id taker]
          exact ((elsewhere fun same => taker (into'.trans same.symm)).trans kept).took
      · have closed := alone.closed
        have beside := alone.beside
        unfold Beside at beside
        rw [opened] at closed beside
        obtain ⟨lone, closed'⟩ := passing.lone id (free id alone.lone) closed
        have kept := (takes id beside).2.1 fun same => alone.lone.apart_known known same.symm
        exact ⟨⟨lone, closed'⟩, kept.trans (passing.aside id (takes id beside).1).2⟩
    · rw [← block] at itself
      rw [addblockClosed_of_itself itself] at same
      have passing : Passing r.state (openNodes r.sheets) r'.state (openNodes r'.sheets) := by
        rw [opened, opened', same]
        exact unmixed.passing_close
      refine ⟨⟨shaped, passing.unmixed⟩, fun id beside => ?_, passing.receives.alone⟩
      rw [none id fun taker => beside.apart a.site isOpen (into'.symm.trans taker)]
      exact passing.receives.beside id beside

/-! #### What becomes of additions -/

theorem Holds.sameAt {t t' : Tree} {body : List Element} (holds : Holds t id body) (same : t.SameAt t' id)
    (name : (t'.own id).name = (t.own id).name) : Holds t' id body :=
  ⟨same.opening.trans holds.opening, same.body.trans holds.body, same.closing.trans holds.closing,
    fun isText => holds.name (name.symm.trans isText)⟩

/-- What becomes of an addition: the tag that it comes from holds nothing, a node of its own has what stood in the
tag, and no open node leads to either. -/
structure Made (r : Reader W) (a : Addition) : Prop where
  site : Alone r a.site
  empty : Holds r.state.tree a.site []
  node : Alone r a.node
  moved : Holds r.state.tree a.node a.body

theorem Made.keep (made : Made r a) (receives : Receives r r' additions) {touched : List NodeId}
    (keeps : r.state.tree.Keeps r'.state.tree touched) : Made r' a := by
  obtain ⟨site, same⟩ := receives.alone a.site made.site
  obtain ⟨node, same'⟩ := receives.alone a.node made.node
  exact ⟨site, made.empty.sameAt same (keeps.names _ made.site.lone.old), node,
    made.moved.sameAt same' (keeps.names _ made.node.lone.old)⟩

/-- An addition to a node that no open node leads to is not itself what is known of the block, so it is alone. -/
theorem lone_site (ordered : Ordered r) (adds : r.addition? = some a) (beside : Beside r a.into)
    (isOpen : a.site ∈ openNodes r.sheets) : Lone r.state a.site := by
  obtain ⟨-, block, -⟩ := of_addition adds
  obtain ⟨b, known, -, into'⟩ := into_beside adds beside isOpen
  refine (ordered.unmixed.each a.site isOpen).resolve_right fun ⟨_, b', known', leads⟩ => ?_
  rw [block] at known'
  cases known.symm.trans known'
  exact beside.apart a.site isOpen (leads.trans into'.symm)

/-- What stands in a tag for a block that is alone moves to a node of its own. -/
theorem holds_movedOut (lone : Lone s top) (furnished : s.tree.Furnished)
    (tag : (s.tree.own top).tag ∈ Tree.contentTags) :
    Holds (movedOut top s.tree) ⟨s.tree.size⟩ (s.tree.own top).body ∧ Holds (movedOut top s.tree) top [] := by
  obtain ⟨node, site⟩ := own_movedOut lone.here lone.old
  obtain ⟨opening, closing⟩ := furnished.bare top tag
  have content : s.tree.content top = s.tree.own top := by
    unfold Tree.content
    rw [lone.here.target_eq]
  have other : (s.tree.own top).name ≠ some "t" := by
    intro isText
    rw [Node.tag_of_name isText] at tag
    exact absurd tag (by decide)
  unfold bodyNode at node
  rw [content] at node
  constructor
  · refine ⟨?_, ?_, ?_, ?_⟩ <;> rw [node]
    exacts [opening, closing, other]
  · refine ⟨?_, ?_, ?_, ?_⟩ <;> rw [site]
    exact other

/-- Nothing is put into a node that is alone when it is put into another one. -/
theorem Holds.attach {parent : NodeId} {body : List Element} (holds : Holds s.tree id body) (lone : Lone s id)
    (other : parent ≠ id) (e : Element) : Holds (attach parent e s).tree id body := by
  have outside : s.tree.target parent ≠ id := lone.apart other
  exact holds.keep (.append s.tree parent e (List.mem_singleton_self _)) lone.old (by simpa using outside.symm)

theorem made_of_addition (standard : c.table = standardTable) (ordered : Ordered r)
    (furnished : r.state.tree.Furnished) (adds : r.addition? = some a) (beside : Beside r a.into)
    (step : Step c r r') : Made r' a := by
  obtain ⟨site, block, node, body, -, -⟩ := of_addition adds
  obtain ⟨-, tag⟩ := of_adds site
  obtain ⟨frame, token, tokens, parent, under, outer, position, sheets, sheets', -, same⟩ :=
    step_adds standard ordered.shaped site step
  have opened : openNodes r.sheets = a.site :: (parent :: under ++ openNodes outer) := by
    rw [sheets]
    rfl
  have opened' : openNodes r'.sheets = parent :: under ++ openNodes outer := by
    rw [sheets']
    rfl
  have isOpen : a.site ∈ openNodes r.sheets := by
    rw [opened]
    exact List.mem_cons_self
  obtain ⟨b, known, apart, into'⟩ := into_beside adds beside isOpen
  have lone := lone_site ordered adds beside isOpen
  have unmixed := ordered.unmixed
  rw [opened] at unmixed
  rw [← block] at known
  have sound := unmixed.grounded.sound
  have moved := (unmixed.passing_movedOut List.mem_cons_self).unmixed.grounded
  have links := links_added b.node ⟨r.state.tree.size⟩ position (movedOut a.site r.state.tree)
  have keeps := keeps_added moved.sound (List.mem_singleton_self ((movedOut a.site r.state.tree).target b.node))
    ⟨r.state.tree.size⟩ position
  have leads : (movedOut a.site r.state.tree).target b.node = a.into := by
    rw [(links_movedOut a.site r.state.tree).target_eq sound]
    exact into'.symm
  rw [leads] at keeps
  have after := (unmixed.addblockClosed List.mem_cons_self known apart position).1
  rw [addblockClosed_eq known apart] at same after
  -- Nothing is put into the tag or into the new node: they are alone, and neither is the node around the tag.
  have attached : ∀ id body, Lone { r.state with tree := movedOut a.site r.state.tree } id →
      Holds (movedOut a.site r.state.tree) id body → id ≠ a.into → id ∉ openNodes r'.sheets →
      Alone r' id ∧ Holds r'.state.tree id body := by
    intro id body free holds other closed
    have free' := free.relink moved links
    have holds' : Holds (added b.node ⟨r.state.tree.size⟩ position (movedOut a.site r.state.tree)) id body :=
      holds.keep keeps free.old (by simpa using other)
    rw [opened'] at closed
    refine ⟨⟨?_, by rw [opened']; exact closed⟩, ?_⟩
    · rw [same]
      exact free'.relink after.grounded (.append _ parent _)
    · rw [same]
      exact holds'.attach free' (fun h => closed (h ▸ List.mem_cons_self)) _
  obtain ⟨nodeHolds, siteHolds⟩ := holds_movedOut lone furnished (by rw [tag]; decide)
  have content : (r.state.tree.content a.site).body = (r.state.tree.own a.site).body := by
    unfold Tree.content
    rw [lone.here.target_eq]
  have closed := unmixed.apart
  rw [List.nodup_cons, ← opened'] at closed
  obtain ⟨site', empty⟩ := attached a.site [] (lone.relink unmixed.grounded (links_movedOut _ _)) siteHolds
    (fun h => beside.apart a.site isOpen (by rw [lone.here.target_eq]; exact h)) closed.1
  obtain ⟨node', full⟩ := attached ⟨r.state.tree.size⟩ _ (unmixed.lone_movedOut a.site) nodeHolds
    (fun h => Nat.lt_irrefl _ (h ▸ beside.old)) fun mem => unmixed.new_closed (List.mem_cons_of_mem _ (opened' ▸ mem))
  rw [← node] at node' full
  rw [← content, ← body] at full
  exact ⟨site', empty, node', full⟩

/-- What a whole run adds to a node that no open node leads to. -/
structure Gathers (r r' : Reader W) (id : NodeId) (additions : List Addition) : Prop where
  beside : Beside r' id
  took : r.state.tree.Took r'.state.tree id (additions.filter (·.into = id))
  made : ∀ a ∈ additions, a.into = id → Made r' a
  fresh : ∀ a ∈ additions, a.into = id → r.state.tree.size ≤ a.node.index
  apart : ((additions.filter (·.into = id)).map (·.node)).Nodup

theorem Ordered.receives_run (standard : c.table = standardTable) (ordered : Ordered r)
    (adding : Adding c r additions r') : Ordered r' ∧ Receives r r' additions := by
  induction adding with
  | here r =>
    exact ⟨ordered, fun id beside => ⟨beside, (Tree.SameAt.refl _ id).took⟩, fun id alone => ⟨alone, .refl _ id⟩⟩
  | on step _ ih =>
    obtain ⟨ordered', receives⟩ := ordered.receives standard step
    obtain ⟨ordered'', receives'⟩ := ih ordered'
    exact ⟨ordered'', receives.trans receives'⟩

theorem Ordered.gathers (standard : c.table = standardTable) (ordered : Ordered r) (provided : Provided r)
    (adding : Adding c r additions r') (beside : Beside r id) : Gathers r r' id additions := by
  induction adding with
  | here r =>
    exact ⟨beside, (Tree.SameAt.refl _ id).took, fun a mem => (by cases mem), fun a mem => (by cases mem),
      List.nodup_nil⟩
  | @on r r₁ r₂ additions step rest ih =>
    obtain ⟨ordered', receives⟩ := ordered.receives standard step
    obtain ⟨beside', took⟩ := receives.beside id beside
    obtain ⟨touched, keeps⟩ := provided.shaped.step_keeps standard step
    obtain ⟨touched', keeps'⟩ := ordered'.shaped.run_keeps standard rest.run
    have gathers := ih ordered' (provided.step standard step) beside'
    have now : ∀ a ∈ r.addition?.toList, a.into = id → Made r₁ a ∧ a.node = ⟨r.state.tree.size⟩ := by
      intro a mem into'
      have adds := Option.mem_toList.mp mem
      exact ⟨made_of_addition standard ordered provided.furnished adds (into' ▸ beside) step, (of_addition adds).2.2.1⟩
    refine ⟨gathers.beside, ?_, fun a mem into' => ?_, fun a mem into' => ?_, ?_⟩
    · rw [List.filter_append]
      exact took.trans gathers.took
    · rcases List.mem_append.mp mem with mem | mem
      · exact (now a mem into').1.keep (ordered'.receives_run standard rest).2 keeps'
      · exact gathers.made a mem into'
    · rcases List.mem_append.mp mem with mem | mem
      · rw [(now a mem into').2]
      · exact Nat.le_trans keeps.grown (gathers.fresh a mem into')
    · rw [List.filter_append, List.map_append]
      refine List.nodup_append.mpr ⟨?_, gathers.apart, fun x here y there same => ?_⟩
      · cases r.addition? with
        | none => exact List.nodup_nil
        | some a => exact (List.filter_sublist.map _).nodup (List.nodup_cons.mpr ⟨List.not_mem_nil, List.nodup_nil⟩)
      · -- What is added later is newer than what is there after this addition.
        obtain ⟨a, mem, rfl⟩ := List.mem_map.mp here
        obtain ⟨a', mem', rfl⟩ := List.mem_map.mp there
        obtain ⟨added, into'⟩ := List.mem_filter.mp mem
        obtain ⟨added', into''⟩ := List.mem_filter.mp mem'
        have old := (now a added (of_decide_eq_true into')).1.node.lone.old
        have new := gathers.fresh a' added' (of_decide_eq_true into'')
        rw [same] at old
        omega

/-- What stood in the body before is older than all that is added, so each addition stands there once. -/
theorem Gathers.count_eq_one (gathers : Gathers r r' id additions) (furnished : r.state.tree.Furnished)
    (mem : a ∈ additions.filter (·.into = id)) :
    (composed (r.state.tree.own id).body (additions.filter (·.into = id))).count (.node a.node) = 1 := by
  obtain ⟨added, into'⟩ := List.mem_filter.mp mem
  have before : (r.state.tree.own id).body.count (.node a.node) = 0 := by
    rw [List.count_eq_zero]
    intro there
    have old := furnished.filled id a.node there
    have new := gathers.fresh a added (of_decide_eq_true into')
    omega
  rw [count_composed, before, Nat.zero_add, gathers.apart.count, if_pos (List.mem_map_of_mem mem)]

end Compile

end Stencil
