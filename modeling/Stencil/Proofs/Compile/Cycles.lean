import Stencil.Proofs.Compile.Shape
import Stencil.Proofs.Compile.Watching
import Stencil.Proofs.Library.References

/-!
Sources in memory that hold nothing but text and references to each other. Reading one of them walks through what it
refers to: the templates that are being read are the way to the present one, and those that have been read are not read
again. It fails just in case a cycle is reached, and then it tells one.
-/
namespace Stencil

open Tag

/-- The template that a tag refers to, where that is all it says. -/
def Markup.Token.refers? (token : Markup.Token) : Option String :=
  match token.reading? with
  | some ⟨_, [("name", name)]⟩ => some name
  | _ => none

theorem Markup.Token.of_refers {token : Markup.Token} {name : String} (refers : token.refers? = some name) :
    ∃ head, token.reading? = some head ∧ head.params = [("name", name)] := by
  unfold refers? at refers
  split at refers
  · rename_i tag other reads
    cases refers
    exact ⟨_, reads, rfl⟩
  · cases refers

theorem Markup.Token.refers_text {token : Markup.Token} (text : token.kind = .text) : token.refers? = none := by
  unfold refers? reading?
  rw [text]

namespace MemorySources

/-- What the text of a source refers to. -/
def references (sources : MemorySources) : References := fun name =>
  match Keyed.get? name sources.entries with
  | some (text, _) =>
    match Markup.scan name text with
    | .ok tokens => tokens.filterMap Markup.Token.refers?
    | .error _ => []
  | none => []

/-- A piece of text, or a tag that names one of the sources. -/
def Links (sources : MemorySources) (token : Markup.Token) : Prop :=
  token.kind = .text ∨ ∃ name, token.refers? = some name ∧ Keyed.has name sources.entries = true

/-- All sources hold nothing but text and references to each other, and nobody edits them. -/
structure Linked (sources : MemorySources) : Prop where
  settled : sources.laidUp = []
  texts : ∀ name text stamp, Keyed.get? name sources.entries = some (text, stamp) →
    ∃ tokens, Markup.scan name text = .ok tokens ∧ ∀ token ∈ tokens, sources.Links token

/-- Whether a piece is text, or a tag that names one of the sources. -/
def links (sources : MemorySources) (token : Markup.Token) : Bool :=
  token.kind = .text || token.refers?.any fun name => Keyed.has name sources.entries

theorem links_of_links {sources : MemorySources} {token : Markup.Token} (links : sources.links token = true) :
    sources.Links token := by
  rcases Bool.or_eq_true_iff.mp links with text | refers
  · exact .inl (of_decide_eq_true text)
  · cases named : token.refers? with
    | none =>
      rw [named] at refers
      cases refers
    | some name =>
      rw [named] at refers
      exact .inr ⟨name, named, refers⟩

theorem linked_of_all {sources : MemorySources} (settled : sources.laidUp = [])
    (all : sources.entries.all (fun e =>
      (Markup.scan e.1 e.2.1).toOption.any fun tokens => tokens.all sources.links) = true) :
    sources.Linked := by
  refine ⟨settled, fun name text stamp found => ?_⟩
  have checked := List.all_eq_true.mp all _ (Keyed.mem_of_get? found)
  dsimp only at checked
  cases scanned : Markup.scan name text with
  | error e =>
    rw [scanned] at checked
    cases checked
  | ok tokens =>
    rw [scanned] at checked
    exact ⟨tokens, rfl, fun token mem => links_of_links (List.all_eq_true.mp checked token mem)⟩

end MemorySources

namespace Compile

/-! #### One reference -/

section Reference

variable {W : Type} {load : Loader W} {s : CompileState W} {n : Node} {name : String}

theorem loadRoot_apply (name : String) (via : Option NodeId) (s : CompileState W) :
    carryOut load (Handler.loadRoot name via) s = load name via s := by
  unfold Handler.loadRoot carryOut
  rcases load name via s with ⟨e | root, t⟩ <;> rfl

theorem carryOut_reading {head : Markup.Head} {handler : NodeHandler} {file : String} {line : Nat} {top : NodeId}
    (bound : head.name = "extends" ∧ handler = placeExtends ∨ head.name = "include" ∧ handler = placeInclude)
    (params : head.params = [("name", name)]) :
    carryOut load (handler ⟨s.tree.size⟩) (referring file line top head s) =
      match load name (some ⟨s.tree.size⟩) (referring file line top head s) with
      | (.ok root, t) => (.ok (), received head ⟨s.tree.size⟩ root t)
      | (.error e, t) => (.error e, t) := by
  obtain ⟨tag, params'⟩ := head
  cases params
  let n := Node.opened file line top ⟨tag, [("name", name)]⟩ false
  have same : n.withParams [("name", name)] = n := rfl
  have named : n.param "name" = name := by simp [n, Node.param, Node.opened, Keyed.get?]
  have checked : ∀ complaint,
      Checked n false [(ParamSpec.required "name" .text).orComplain complaint] [("name", name)] := fun _ => rfl
  show carryOut load (handler ⟨s.tree.size⟩) (withNode s n) = match load name (some ⟨s.tree.size⟩) (withNode s n) with
    | (.ok root, t) => (.ok (), received ⟨tag, [("name", name)]⟩ ⟨s.tree.size⟩ root t)
    | (.error e, t) => (.error e, t)
  rcases bound with ⟨rfl, rfl⟩ | ⟨rfl, rfl⟩
  · unfold placeExtends
    rw [carryOut_after (demand_of_checked (checked _)), same, carryOut_after own_fresh, named, carryOut_bind,
      bind_apply, loadRoot_apply]
    rcases load name (some ⟨s.tree.size⟩) (withNode s n) with ⟨e | root, t⟩
    · rfl
    · unfold received
      dsimp only
      rw [if_pos rfl]
      rfl
  · unfold placeInclude
    rw [carryOut_after (demand_of_checked (checked _)), same, carryOut_after own_fresh, named, carryOut_bind,
      bind_apply, loadRoot_apply]
    rcases load name (some ⟨s.tree.size⟩) (withNode s n) with ⟨e | root, t⟩
    · rfl
    · unfold received
      dsimp only
      rw [if_neg (by decide)]
      rfl

/-- A reference is put where it stands if its template can be read; otherwise it fails as the reading does. -/
theorem put_reference {file : String} {token : Markup.Token} {head : Markup.Head} {top : NodeId} {below : List NodeId}
    (reads : token.reading? = some head) (params : head.params = [("name", name)]) :
    put standardTable load file (top :: below) token s =
      match load name (some ⟨s.tree.size⟩) (referring file token.line top head s) with
      | (.ok root, t) =>
        (.ok (settled ⟨s.tree.size⟩ top below (received head ⟨s.tree.size⟩ root t)).1,
          (settled ⟨s.tree.size⟩ top below (received head ⟨s.tree.size⟩ root t)).2)
      | (.error e, t) => (.error e, t) := by
  obtain ⟨kind, parsed, either⟩ := of_reading reads
  obtain ⟨handler, bound, found⟩ : ∃ handler,
      (head.name = "extends" ∧ handler = placeExtends ∨ head.name = "include" ∧ handler = placeInclude) ∧
        Keyed.get? head.name standardTable = some ⟨none, none, none, some handler⟩ := by
    rcases either with named | named
    · exact ⟨placeExtends, .inl ⟨named, rfl⟩, by rw [named, standardTable_eq]; rfl⟩
    · exact ⟨placeInclude, .inr ⟨named, rfl⟩, by rw [named, standardTable_eq]; rfl⟩
  have opened : dispatch standardTable load ⟨s.tree.size⟩ .onOpen
      (withNode s (Node.opened file token.line top head true)) =
      carryOut load (handler ⟨s.tree.size⟩) (referring file token.line top head s) := by
    unfold dispatch
    rw [bind_apply, getTree_apply]
    dsimp only
    rw [own_withNode]
    dsimp only [Node.opened]
    rw [found]
    dsimp only
    rw [if_pos ⟨rfl, rfl⟩, bind_apply, changeTree_fresh]
    rfl
  have named : changeTree (·.update ⟨s.tree.size⟩ fun n => { n with name := some head.name, params := head.params })
      (withNode s { Node.fresh file token.line with parent := some top }) =
        (.ok (), withNode s (Node.opened file token.line top head true)) := changeTree_fresh ..
  unfold put
  rw [kind]
  dsimp only
  unfold putOpen
  rw [bind_apply, createChild_eq]
  dsimp only
  rw [parsed]
  dsimp only
  rw [bind_apply, named]
  dsimp only
  rw [bind_apply, opened, carryOut_reading bound params]
  rcases load name (some ⟨s.tree.size⟩) (referring file token.line top head s) with ⟨e | root, t⟩
  · rfl
  · dsimp only
    rw [bind_apply, getTree_apply]
    unfold settled
    dsimp only
    split <;> rfl

end Reference

/-! #### Walks -/

theorem memory_holds_linked {sources : MemorySources} (linked : sources.Linked) :
    Library.memory.Holds sources sources.entries := by
  refine ⟨fun _ => rfl, fun _ => rfl, fun name => ?_, Nat.le_add_right _ _⟩
  show sources.read name = _
  unfold MemorySources.read MemorySources.makeEdit
  rw [linked.settled]
  cases Keyed.get? name sources.entries <;> rfl

/-- While templates are read: a path leads to the innermost, and these were visited so far, each as often as it is
referred to. -/
structure Walking (sources : MemorySources) (path visited : List String) (s : CompileState MemorySources) : Prop where
  world : s.world = sources
  names : s.frames.map (·.name) = path.reverse
  identities : s.frames.map (·.identity) = path.reverse
  recorded : s.sources = Keyed.firsts (fun name => sources.modified name) visited
  done : ∀ name ∈ Keyed.keys s.finished, ∃ visits, sources.references.Visits [name] visits ∧ visits ⊆ visited
  undeferred : s.deferred = []

variable {sources : MemorySources} {start name : String} {path visited visits names more : List String}
  {s s' : CompileState MemorySources} {α β : Type}

theorem Walking.change (walking : Walking sources path visited s) (world : s'.world = s.world)
    (names : s'.frames.map (·.name) = s.frames.map (·.name))
    (identities : s'.frames.map (·.identity) = s.frames.map (·.identity)) (recorded : s'.sources = s.sources)
    (done : s'.finished = s.finished) (deferred : s'.deferred = s.deferred) : Walking sources path visited s' := by
  constructor
  case world => rw [world, walking.world]
  case names => rw [names, walking.names]
  case identities => rw [identities, walking.identities]
  case recorded => rw [recorded, walking.recorded]
  case done =>
    rw [done]
    exact walking.done
  case undeferred => rw [deferred, walking.undeferred]

theorem Walking.received (walking : Walking sources path visited s) (head : Markup.Head) (id root : NodeId) :
    Walking sources path visited (received head id root s) := by
  unfold Compile.received
  split
  · refine walking.change rfl ?_ (Sides.map_identity_setRoot root s.frames) rfl rfl rfl
    cases s.frames <;> rfl
  · exact walking.change rfl rfl rfl rfl rfl rfl

/-- One more source is read: it is the end of the path, and it is visited. -/
theorem Walking.enter (walking : Walking sources path visited s) (name : String) (n : Node) (root : NodeId) :
    Walking sources (path ++ [name]) (visited ++ [name])
      { withNode s n with
        sources := Keyed.put name (sources.modified name) s.sources
        frames := ⟨name, name, root⟩ :: s.frames } := by
  constructor
  case world => exact walking.world
  case names =>
    show name :: s.frames.map (·.name) = _
    rw [walking.names, List.reverse_append]
    rfl
  case identities =>
    show name :: s.frames.map (·.identity) = _
    rw [walking.identities, List.reverse_append]
    rfl
  case recorded =>
    show Keyed.put name (sources.modified name) s.sources = _
    rw [walking.recorded]
    exact Keyed.put_firsts (fun name => sources.modified name) name
  case done =>
    intro other mem
    obtain ⟨visits, walk, sub⟩ := walking.done other mem
    exact ⟨visits, walk, fun _ h => List.mem_append_left _ (sub h)⟩
  case undeferred => exact walking.undeferred

theorem Walking.leave (walking : Walking sources (path ++ [name]) visited s) :
    Walking sources path visited { s with frames := s.frames.tail } := by
  constructor
  case world => exact walking.world
  case names =>
    rw [List.map_tail, walking.names, List.reverse_append]
    rfl
  case identities =>
    rw [List.map_tail, walking.identities, List.reverse_append]
    rfl
  case recorded => exact walking.recorded
  case done => exact walking.done
  case undeferred => exact walking.undeferred

/-- A source that has been walked through is not read again. -/
theorem Walking.finish (walking : Walking sources path (visited ++ visits) s)
    (walk : sources.references.Visits [name] visits) (root : NodeId) :
    Walking sources path (visited ++ visits) { s with finished := Keyed.put name root s.finished } := by
  refine ⟨walking.world, walking.names, walking.identities, walking.recorded, fun other mem => ?_, walking.undeferred⟩
  rcases Keyed.mem_keys_put.mp mem with rfl | mem
  · exact ⟨visits, walk, List.subset_append_right _ _⟩
  · exact walking.done other mem

theorem Walking.repeat (walking : Walking sources path visited s) (sub : visits ⊆ visited) :
    Walking sources path (visited ++ visits) s := by
  refine ⟨walking.world, walking.names, walking.identities, ?_, fun other mem => ?_, walking.undeferred⟩
  · rw [walking.recorded, Keyed.firsts_of_subset sub]
  · obtain ⟨visits', walk', sub'⟩ := walking.done other mem
    exact ⟨visits', walk', fun _ h => List.mem_append_left _ (sub' h)⟩

/-- Steps have gone through names and all that is reached from them, or have come back to one on the path. -/
def Walks (sources : MemorySources) (start : String) (path visited names : List String) (fine : α → Prop)
    (s : CompileState MemorySources) (result : Except TemplateError α × CompileState MemorySources) : Prop :=
  (∃ a s' visits touched, result = (.ok a, s') ∧ fine a ∧ sources.references.Visits names visits ∧
    Walking sources path (visited ++ visits) s' ∧ s.tree.Keeps s'.tree touched) ∨
  ∃ site chain s', result = (.error (.cycle site chain), s') ∧ sources.references.Loop start chain

theorem Walks.bind {fine : α → Prop} {fine' : β → Prop} {a : Compile MemorySources α} {f : α → Compile MemorySources β}
    (first : Walks sources start path visited names fine s (a s))
    (rest : ∀ x visits s' touched, fine x → Walking sources path (visited ++ visits) s' → s.tree.Keeps s'.tree touched →
      Walks sources start path (visited ++ visits) more fine' s' (f x s')) :
    Walks sources start path visited (names ++ more) fine' s ((a >>= f) s) := by
  rw [bind_apply]
  rcases first with ⟨x, s₁, visits, touched, run, good, walk, walking, keeps⟩ | ⟨site, chain, s₁, run, loop⟩
  · rw [run]
    rcases rest x visits s₁ touched good walking keeps with
      ⟨y, s₂, visits', touched', run', good', walk', walking', keeps'⟩ | failed
    · refine .inl ⟨y, s₂, visits ++ visits', touched ++ touched', run', good', walk.append walk', ?_, keeps.join keeps'⟩
      rwa [← List.append_assoc]
    · exact .inr failed
  · rw [run]
    exact .inr ⟨site, chain, s₁, rfl, loop⟩

section Reading

variable {load : Loader MemorySources} (loads : ∀ visited s name via, sources.references.Trail start path name →
  Walking sources path visited s → Keyed.has name sources.entries = true →
    Walks sources start path visited [name] (fun _ => True) s (load name via s))

include loads

/-- A piece of a linked source is put, and the stack stays as it is. -/
theorem put_walks {file : String} {token : Markup.Token} {root : NodeId} (links : sources.Links token)
    (trail : ∀ name ∈ [token].filterMap Markup.Token.refers?, sources.references.Trail start path name)
    (walking : Walking sources path visited s) :
    Walks sources start path visited ([token].filterMap Markup.Token.refers?) (· = [root]) s
      (put standardTable load file [root] token s) := by
  rcases links with text | ⟨name, refers, known⟩
  · have none : [token].filterMap Markup.Token.refers? = [] :=
      List.filterMap_cons_none (Markup.Token.refers_text text)
    rw [none]
    unfold put
    rw [text]
    refine .inl ⟨[root], attach root (.text (String.ofList token.content)) s, [], _, rfl, rfl, .nil, ?_,
      .append s.tree root _ (List.mem_singleton_self _)⟩
    rw [List.append_nil]
    exact walking.change rfl rfl rfl rfl rfl rfl
  · have one : [token].filterMap Markup.Token.refers? = [name] := by
      rw [List.filterMap_cons_some refers]
      rfl
    rw [one] at trail ⊢
    obtain ⟨head, reads, params⟩ := token.of_refers refers
    rw [put_reference reads params]
    have pushed : s.tree.Keeps (referring file token.line root head s).tree [] := .push ..
    have asking : Walking sources path visited (referring file token.line root head s) :=
      walking.change rfl rfl rfl rfl rfl rfl
    rcases loads visited _ name (some ⟨s.tree.size⟩) (trail name List.mem_cons_self) asking known with
      ⟨found, t, visits, touched, run, -, walk, walking', keeps⟩ | ⟨site, chain, t, run, loop⟩
    · rw [run]
      dsimp only
      let id : NodeId := ⟨s.tree.size⟩
      have got : t.tree.Keeps (received head id found t).tree [t.tree.target id, (t.tree.clear id).target id] :=
        (continues_received head id found t List.mem_cons_self (List.mem_cons_of_mem _ List.mem_cons_self)).keeps
      have small : id.index < (referring file token.line root head s).tree.size := new_lt s _
      have stands : ((received head id found t).tree.own id).mustClose = false := by
        rw [(keeps.join got).stands id small, referring, own_withNode]
        rfl
      rw [settled_eq stands]
      have placed := Tree.Keeps.append (received head id found t).tree root (.node id) (List.mem_singleton_self _)
      refine .inl ⟨[root], _, visits, _, rfl, rfl, walk, ?_, ((pushed.join keeps).join got).join placed⟩
      exact (walking'.received head id found).change rfl rfl rfl rfl rfl rfl
    · rw [run]
      exact .inr ⟨site, chain, t, rfl, loop⟩

theorem puts_walks {file : String} (tokens : List Markup.Token) {root : NodeId}
    (links : ∀ token ∈ tokens, sources.Links token)
    (trail : ∀ name ∈ tokens.filterMap Markup.Token.refers?, sources.references.Trail start path name)
    (walking : Walking sources path visited s) :
    Walks sources start path visited (tokens.filterMap Markup.Token.refers?) (· = [root]) s
      (tokens.foldlM (put standardTable load file) [root] s) := by
  induction tokens generalizing visited s with
  | nil =>
    refine .inl ⟨[root], s, [], [], rfl, rfl, .nil, ?_, .refl _ _⟩
    rwa [List.append_nil]
  | cons token tokens ih =>
    have split : (token :: tokens).filterMap Markup.Token.refers? =
        [token].filterMap Markup.Token.refers? ++ tokens.filterMap Markup.Token.refers? :=
      List.filterMap_append (l := [token])
    rw [split] at trail ⊢
    rw [List.foldlM_cons]
    refine Walks.bind (put_walks loads (links token List.mem_cons_self)
      (fun name mem => trail name (List.mem_append_left _ mem)) walking) ?_
    rintro stack visits t touched rfl walking' -
    exact ih (fun other mem => links other (List.mem_cons_of_mem _ mem))
      (fun name mem => trail name (List.mem_append_right _ mem)) walking'

end Reading

/-- The text of a source is walked through while the source counts as being read. -/
theorem readSource_walks {load : Loader MemorySources} {text : String} {stamp : Stamp} (linked : sources.Linked)
    (found : Keyed.get? name sources.entries = some (text, stamp)) (trail : sources.references.Trail start path name)
    (new : name ∉ path) (walking : Walking sources path visited s)
    (loads : ∀ visited s other via, sources.references.Trail start (path ++ [name]) other →
      Walking sources (path ++ [name]) visited s → Keyed.has other sources.entries = true →
        Walks sources start (path ++ [name]) visited [other] (fun _ => True) s (load other via s)) :
    Walks sources start path visited [name] (fun _ => True) s
      (readSource standardTable load name name (sources.modified name) text s) := by
  obtain ⟨tokens, scanned, links⟩ := linked.texts name text stamp found
  have refers : sources.references name = tokens.filterMap Markup.Token.refers? := by
    unfold MemorySources.references
    rw [found]
    dsimp only
    rw [scanned]
  let root : NodeId := ⟨s.tree.size⟩
  let laid : CompileState MemorySources :=
    { withNode s { Node.fresh name 1 with isRoot := true } with
      sources := Keyed.put name (sources.modified name) s.sources }
  let inside : CompileState MemorySources := { laid with frames := ⟨name, name, root⟩ :: s.frames }
  have entered : Walking sources (path ++ [name]) (visited ++ [name]) inside := walking.enter name _ root
  have pushed : s.tree.Keeps inside.tree [] := .push ..
  rw [readSource_of_scan scanned]
  have small : root.index < inside.tree.size := new_lt s _
  have walks : Walks sources start (path ++ [name]) (visited ++ [name]) (sources.references name) (· = [root]) inside
      (tokens.foldlM (put standardTable load name) [root] inside) := by
    rw [refers]
    refine puts_walks loads tokens links (fun other mem => trail.next new ?_) entered
    unfold References.Refers
    rwa [refers]
  rcases walks with ⟨stack, t, visits, touched, run, rfl, walk, walking', keeps⟩ | ⟨site, chain, t, run, loop⟩
  · have isRoot : (t.tree.own root).isRoot = true := by
      rw [keeps.roots root small]
      show ((withNode s { Node.fresh name 1 with isRoot := true }).tree.own ⟨s.tree.size⟩).isRoot = true
      rw [own_withNode]
    have built : build standardTable load name root tokens inside = (.ok (), t) := by
      unfold build
      rw [bind_apply, run]
      unfold checkClosed
      dsimp only
      rw [bind_apply, getTree_apply]
      dsimp only
      rw [if_pos isRoot]
      rfl
    rw [show within ⟨name, name, root⟩ _ laid = _ from within_apply built]
    refine .inl ⟨_, _, name :: visits, _, rfl, trivial, .single walk, ?_, pushed.join keeps⟩
    have whole : visited ++ name :: visits = visited ++ [name] ++ visits := by
      rw [List.append_assoc]
      rfl
    rw [whole]
    exact walking'.leave
  · have built : build standardTable load name root tokens inside = (.error (.cycle site chain), t) := by
      unfold build
      rw [bind_apply, run]
    rw [show within ⟨name, name, root⟩ _ laid = _ from within_apply built]
    exact .inr ⟨site, chain, _, rfl, loop⟩

/-! #### Loading -/

theorem cycleError_walking (walking : Walking sources path visited s) (name : String) (via : Option NodeId) :
    ∃ site, cycleError name via s = .cycle site (path ++ [name]) := by
  unfold cycleError
  rw [walking.names, List.reverse_reverse]
  cases via <;> exact ⟨_, rfl⟩

/-- Templates that are being read all differ, so the bound on the nesting is not reached. -/
theorem loadWithin_walks (linked : sources.Linked) (depth : Nat) (via : Option NodeId)
    (trail : sources.references.Trail start path name) (walking : Walking sources path visited s)
    (there : path ⊆ Keyed.keys sources.entries) (known : Keyed.has name sources.entries = true)
    (room : sources.entries.length < depth + path.length) :
    Walks sources start path visited [name] (fun _ => True) s
      (loadWithin ⟨Library.memory, standardTable⟩ depth name via s) := by
  induction depth generalizing path visited s name via with
  | zero =>
    -- The names on the path differ and are all sources, so the bound is not used up.
    have few := List.Nodup.length_le_of_subset trail.apart there
    rw [Keyed.keys, List.length_map] at few
    omega
  | succ depth ih =>
    have holds := memory_holds_linked linked
    obtain ⟨⟨text, stamp⟩, found⟩ := Option.isSome_iff_exists.mp known
    have located : Library.memory.locate name s.world = (.ok name, s.world) := by
      rw [walking.world, holds.locate, if_pos known]
    have stamped : Library.memory.modified name s.world = (sources.modified name, s.world) := by
      rw [walking.world]
      rfl
    have read : Library.memory.read name s.world = (.ok text, s.world) := by
      rw [walking.world, holds.read, found]
    rw [loadWithin_succ]
    dsimp only
    rw [located]
    dsimp only
    cases cyclic : s.frames.any (·.identity = name) with
    | true =>
      rw [if_pos rfl]
      have back : name ∈ path := by
        rw [← List.mem_reverse, ← walking.identities]
        exact reading_iff.mp cyclic
      obtain ⟨site, same⟩ := cycleError_walking walking name via
      rw [same]
      exact .inr ⟨site, _, _, rfl, trail.loop back⟩
    | false =>
      rw [if_neg Bool.false_ne_true]
      have new : name ∉ path := by
        rw [← List.mem_reverse, ← walking.identities]
        exact fun h => Bool.false_ne_true (cyclic.symm.trans (reading_iff.mpr h))
      cases finished : Keyed.get? name s.finished with
      | some root =>
        obtain ⟨visits, walk, sub⟩ := walking.done name (Keyed.mem_keys_of_get? finished)
        exact .inl ⟨root, s, visits, [], rfl, trivial, walk, walking.repeat sub, .refl _ _⟩
      | none =>
        dsimp only
        rw [stamped]
        dsimp only
        rw [read]
        dsimp only
        have walks := readSource_walks linked found trail new walking fun visited s other via trail walking known =>
          ih via trail walking (fun m mem => (List.mem_append.mp mem).elim (fun h => there h) fun h =>
            List.mem_singleton.mp h ▸ Keyed.mem_keys_of_get? found) known (by
              rw [List.length_append, List.length_singleton]
              omega)
        rcases walks with ⟨root, t, visits, touched, run, -, walk, walking', keeps⟩ | ⟨site, chain, t, run, loop⟩
        · rw [run]
          exact .inl ⟨root, _, visits, touched, rfl, trivial, walk, walking'.finish walk root, keeps⟩
        · rw [run]
          exact .inr ⟨site, chain, t, rfl, loop⟩

/-! #### Whole templates -/

/-- No bound on the nesting that exceeds the number of sources changes anything. -/
theorem loadWithin_stable (linked : sources.Linked) {depth : Nat} (deep : sources.entries.length < depth)
    (name : String) (via : Option NodeId) :
    loadWithin ⟨Library.memory, standardTable⟩ depth name via (.initial sources) =
      load ⟨Library.memory, standardTable⟩ name via (.initial sources) := by
  let c : Compiler MemorySources := ⟨Library.memory, standardTable⟩
  let v : Sides MemorySources MemorySources := ⟨sources, sources, sources.entries, sources.entries⟩
  have alike : v.Alike := fun _ => rfl
  have holds := memory_holds_linked linked
  have orderly : Orderly sources.entries (CompileState.initial ()) :=
    ⟨List.nodup_nil, fun _ h => absurd h List.not_mem_nil, fun _ h => absurd h List.not_mem_nil,
      fun _ h => absurd h List.not_mem_nil⟩
  have enough : sources.entries.length < Library.memory.reach sources + 2 :=
    Nat.lt_of_le_of_lt holds.reach (by omega)
  have echoes : v.EchoesAt (fun _ => True) (.initial ()) (loadWithin c depth name via)
      (loadWithin c (Library.memory.reach sources + 2) name via) :=
    Sides.loadWithin_echoesAt rfl rfl (.inl alike) (fun _ _ _ h => h) (.inl alike) holds holds depth _ name via orderly
      deep enough
  obtain ⟨r, s', first, -, -, -, second⟩ := echoes
  exact first.trans (second (.inl alike)).symm

theorem Walking.initial (sources : MemorySources) : Walking sources [] [] (.initial sources) :=
  ⟨rfl, rfl, rfl, rfl, fun _ h => absurd h List.not_mem_nil, rfl⟩

theorem finish_undeferred {W : Type} {s : CompileState W} (undeferred : s.deferred = []) (name : String)
    (root : NodeId) :
    finish name root s = (.ok ⟨name, root, s.sources.map fun d => ⟨d.1, d.2⟩⟩, { s with deferred := [] }) := by
  rw [finish_apply, undeferred]
  rfl

theorem standardTable_steady : standardTable.Steady :=
  Table.steady_ofSets fun set mem => by
    rw [List.mem_singleton.mp mem]
    exact standard_steady

theorem template_walks (linked : sources.Linked) (known : Keyed.has start sources.entries = true) :
    (∃ t s visits, template ⟨Library.memory, standardTable⟩ start (.initial sources) = (.ok t, s) ∧
      sources.references.Visits [start] visits ∧
      t.dependencies = visits.eraseDups.map fun name => ⟨name, sources.modified name⟩) ∨
    ∃ site chain s,
      template ⟨Library.memory, standardTable⟩ start (.initial sources) = (.error (.cycle site chain), s) ∧
      sources.references.Loop start chain := by
  have room : sources.entries.length < Library.memory.reach sources + 2 + ([] : List String).length :=
    Nat.lt_of_le_of_lt (memory_holds_linked linked).reach (by omega)
  have walks : Walks sources start [] [] [start] (fun _ => True) _
      (load ⟨Library.memory, standardTable⟩ start none (.initial sources)) :=
    loadWithin_walks linked _ none (.first sources.references start) (.initial sources) (List.nil_subset _) known room
  unfold template
  rw [bind_apply]
  rcases walks with ⟨root, s, visits, touched, run, -, walk, walking, -⟩ | ⟨site, chain, s, run, loop⟩
  · rw [run]
    dsimp only
    rw [finish_undeferred walking.undeferred]
    refine .inl ⟨_, _, visits, rfl, walk, ?_⟩
    rw [walking.recorded, List.nil_append, Keyed.firsts, List.map_map]
    rfl
  · rw [run]
    exact .inr ⟨site, chain, s, rfl, loop⟩

/-- Among sources that hold nothing but text and references to each other, one is compiled just in case no cycle is
reached from it; otherwise the error tells a path of references from it that ends where it has been before. Once
compiled, it depends on what is reached from it, in the order of the first visits, and each of these has been read
once. The bound on the nesting plays no part in this. -/
theorem cycles_are_found_exactly (linked : sources.Linked) (known : Keyed.has start sources.entries = true) :
    (∀ depth, sources.entries.length < depth →
      loadWithin ⟨Library.memory, standardTable⟩ depth start none (.initial sources) =
        load ⟨Library.memory, standardTable⟩ start none (.initial sources)) ∧
    ((∃ t s, template ⟨Library.memory, standardTable⟩ start (.initial sources) = (.ok t, s)) ↔
      ¬ sources.references.ReachesCycle start) ∧
    (∀ e s, template ⟨Library.memory, standardTable⟩ start (.initial sources) = (.error e, s) →
      ∃ site chain, e = .cycle site chain ∧ sources.references.Loop start chain) ∧
    (∀ t s, template ⟨Library.memory, standardTable⟩ start (.initial sources) = (.ok t, s) →
      (∀ name, name ∈ t.dependencies.map (·.identity) ↔ Relation.ReflTransGen sources.references.Refers start name) ∧
      (t.dependencies.map (·.identity)).Nodup ∧
      (∃ visits, sources.references.Visits [start] visits ∧
        t.dependencies = visits.eraseDups.map fun name => ⟨name, sources.modified name⟩) ∧
      ∃ inquiries s',
        template (Compiler.watched ⟨Library.memory, standardTable⟩) start (.initial ⟨sources, []⟩) = (.ok t, s') ∧
        s'.world.log = inquiries.flatMap Inquiry.questions ∧
        t.dependencies = (Inquiry.sources inquiries).map fun d => ⟨d.1, d.2⟩) := by
  have either := template_walks linked known
  refine ⟨fun depth deep => loadWithin_stable linked deep start none, ⟨?_, fun none => ?_⟩, ?_, ?_⟩
  · rintro ⟨t, s, run⟩
    rcases either with ⟨t', s₁, visits, -, walk, -⟩ | ⟨site, chain, s₁, failed, -⟩
    · exact References.not_reachesCycle_of_acc (walk.acc List.mem_cons_self)
    · cases run.symm.trans failed
  · rcases either with ⟨t, s, -, run, -, -⟩ | ⟨site, chain, s, -, loop⟩
    · exact ⟨t, s, run⟩
    · exact absurd loop.reachesCycle none
  · intro e s run
    rcases either with ⟨t, s₁, -, done, -, -⟩ | ⟨site, chain, s₁, failed, loop⟩
    · cases run.symm.trans done
    · cases run.symm.trans failed
      exact ⟨site, chain, rfl, loop⟩
  · intro t s run
    rcases either with ⟨t', s₁, visits, done, walk, listed⟩ | ⟨site, chain, s₁, failed, -⟩
    · cases run.symm.trans done
      have identities : t.dependencies.map (·.identity) = visits.eraseDups := by
        rw [listed, List.map_map]
        exact List.map_id _
      refine ⟨fun name => ?_, ?_, ⟨visits, walk, listed⟩, ?_⟩
      · rw [identities, List.mem_eraseDups, walk.mem_iff]
        constructor
        · rintro ⟨other, mem, reached⟩
          exact List.mem_singleton.mp mem ▸ reached
        · exact fun reached => ⟨start, List.mem_cons_self, reached⟩
      · rw [identities, ← Keyed.keys_firsts (fun name => sources.modified name)]
        exact Keyed.nodup_keys_firsts _ visits
      · rcases watched : template (Compiler.watched ⟨Library.memory, standardTable⟩) start (.initial ⟨sources, []⟩) with
          ⟨answer, s'⟩
        obtain ⟨same, inquiries, asks, adds⟩ := template_watches ⟨Library.memory, standardTable⟩ start _ _ _ watched
        obtain ⟨rfl, rfl⟩ := Prod.mk.inj (same.symm.trans run)
        refine ⟨inquiries, s', rfl, asks.log, ?_⟩
        have added := (adds standardTable_steady rfl fun _ h => absurd h List.not_mem_nil).added
        rw [template_dependencies watched, added]
        rfl
    · cases run.symm.trans failed

/-- A page that comes to its menu by several ways, and a gate to two halls that lead to each other. -/
def house : MemorySources :=
  .ofList [("menu", "Menu"), ("base", "\x7binclude name=menu\x7d, base"),
    ("page", "\x7bextends name=base\x7d\x7binclude name=menu\x7d\x7binclude name=\"menu\"\x7d"),
    ("gate", "\x7binclude name=menu\x7d\x7binclude name=hall\x7d"),
    ("hall", "\x7bliteral\x7d\x7bhall\x7d\x7b/literal\x7d\x7binclude name=stair\x7d"),
    ("stair", "\x7bextends name=hall\x7d")]

/-- The menu is read once, and the way from the gate is seen to come back. -/
theorem house_is_walked :
    (∃ t s, template ⟨Library.memory, standardTable⟩ "page" (.initial house) = (.ok t, s) ∧
      t.dependencies.map (·.identity) = ["page", "base", "menu"] ∧
      (∀ name, name ∈ t.dependencies.map (·.identity) ↔ Relation.ReflTransGen house.references.Refers "page" name) ∧
      ¬ house.references.ReachesCycle "page") ∧
    ∃ site chain s, template ⟨Library.memory, standardTable⟩ "gate" (.initial house) = (.error (.cycle site chain), s) ∧
      house.references.Loop "gate" chain := by
  let c : Compiler MemorySources := ⟨Library.memory, standardTable⟩
  have linked : house.Linked := MemorySources.linked_of_all rfl (by decide +kernel)
  have page : compilesTo c "page" none house
      (fun t _ => decide (t.dependencies.map (·.identity) = ["page", "base", "menu"])) = true := by
    decide +kernel
  have gate : (template c "gate" (.initial house)).1.isOk = false := by
    decide +kernel
  have known : Keyed.has "page" house.entries = true ∧ Keyed.has "gate" house.entries = true := by
    decide +kernel
  obtain ⟨-, free, -, reached⟩ := cycles_are_found_exactly linked known.1
  obtain ⟨-, -, failed, -⟩ := cycles_are_found_exactly linked known.2
  obtain ⟨t, s, run, listed⟩ := exists_of_compilesTo page
  obtain ⟨e, s', run'⟩ := exists_of_not_isOk gate
  obtain ⟨site, chain, rfl, loop⟩ := failed e s' run'
  exact ⟨⟨t, s, run, of_decide_eq_true listed, (reached t s run).1, free.mp ⟨t, s, run⟩⟩, site, chain, s', run', loop⟩

end Compile

end Stencil
