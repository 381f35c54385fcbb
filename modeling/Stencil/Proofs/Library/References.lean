import Mathlib.Data.List.Chain
import Mathlib.Data.List.Induction
import Mathlib.Logic.Relation
import Stencil.Proofs.Library.Watching

/-!
Texts that refer to each other. A walk through them visits a text, then all that it refers to, one after the other,
each with all that it refers to in turn. There is such a walk where no cycle is reached, and a path that comes back to
one of its names shows a cycle.
-/
namespace Stencil

/-- The names that a text refers to, in order. -/
abbrev References := String → List String

namespace References

variable {refs : References} {names more visits visits' : List String} {name other start : String}

def Refers (refs : References) (name other : String) : Prop := other ∈ refs name

/-- What is visited for some names: each of them, followed by what is visited for the names that its text refers to. -/
inductive Visits (refs : References) : List String → List String → Prop where
  | nil : Visits refs [] []
  | cons {name : String} {names inner rest : List String} (inside : Visits refs (refs name) inner)
      (others : Visits refs names rest) : Visits refs (name :: names) (name :: (inner ++ rest))

theorem Visits.append (first : refs.Visits names visits) (second : refs.Visits more visits') :
    refs.Visits (names ++ more) (visits ++ visits') := by
  induction first with
  | nil => exact second
  | cons inside others _ ih =>
    rw [List.cons_append, List.cons_append, List.append_assoc]
    exact .cons inside ih

theorem Visits.single (inside : refs.Visits (refs name) visits) : refs.Visits [name] (name :: visits) := by
  have whole := Visits.cons inside .nil
  rwa [List.append_nil] at whole

/-- All that is reached is visited, and nothing else. -/
theorem Visits.mem_iff (walk : refs.Visits names visits) :
    other ∈ visits ↔ ∃ name ∈ names, Relation.ReflTransGen refs.Refers name other := by
  induction walk with
  | nil => simp
  | @cons name names inner rest _ _ inside others =>
    rw [List.mem_cons, List.mem_append, inside, others]
    constructor
    · rintro (rfl | ⟨next, mem, reached⟩ | ⟨next, mem, reached⟩)
      · exact ⟨other, List.mem_cons_self, .refl⟩
      · exact ⟨name, List.mem_cons_self, .head mem reached⟩
      · exact ⟨next, List.mem_cons_of_mem _ mem, reached⟩
    · rintro ⟨next, mem, reached⟩
      rcases List.mem_cons.mp mem with rfl | mem
      · rcases reached.cases_head with rfl | ⟨after, refers, reached⟩
        · exact .inl rfl
        · exact .inr (.inl ⟨after, refers, reached⟩)
      · exact .inr (.inr ⟨next, mem, reached⟩)

/-! #### Cycles -/

/-- A name is reached that leads back to itself. -/
def ReachesCycle (refs : References) (start : String) : Prop :=
  ∃ name, Relation.ReflTransGen refs.Refers start name ∧ Relation.TransGen refs.Refers name name

/-- A path of references that ends with one of its names, all the others being different. -/
structure Loop (refs : References) (start : String) (chain : List String) : Prop where
  starts : chain.head? = some start
  follows : chain.IsChain refs.Refers
  returns : ∃ path last, chain = path ++ [last] ∧ path.Nodup ∧ last ∈ path

/-- The way to a name that is about to be visited. -/
structure Trail (refs : References) (start : String) (path : List String) (name : String) : Prop where
  starts : (path ++ [name]).head? = some start
  follows : (path ++ [name]).IsChain refs.Refers
  apart : path.Nodup

namespace Trail

variable {path : List String}

theorem first (refs : References) (start : String) : refs.Trail start [] start := ⟨rfl, .singleton _, List.nodup_nil⟩

theorem loop (trail : refs.Trail start path name) (back : name ∈ path) : refs.Loop start (path ++ [name]) :=
  ⟨trail.starts, trail.follows, path, name, rfl, trail.apart, back⟩

theorem next (trail : refs.Trail start path name) (new : name ∉ path) (refers : refs.Refers name other) :
    refs.Trail start (path ++ [name]) other := by
  refine ⟨?_, ?_, ?_⟩
  · rw [List.head?_append, trail.starts]
    rfl
  · refine List.isChain_append.mpr ⟨trail.follows, .singleton _, fun last mem after mem' => ?_⟩
    rw [List.getLast?_concat] at mem
    cases mem
    cases mem'
    exact refers
  · exact List.nodup_append.mpr ⟨trail.apart, List.pairwise_singleton .., fun a mem b mem' same =>
      new (List.mem_singleton.mp mem' ▸ same ▸ mem)⟩

end Trail

theorem Visits.acc (walk : refs.Visits names visits) (mem : name ∈ names) :
    Acc (Function.swap refs.Refers) name := by
  induction walk generalizing name with
  | nil => cases mem
  | cons _ _ inside others =>
    rcases List.mem_cons.mp mem with rfl | mem
    · exact .intro _ fun next refers => inside refers
    · exact others mem

theorem not_reachesCycle_of_acc (ends : Acc (Function.swap refs.Refers) start) : ¬ refs.ReachesCycle start := by
  rintro ⟨name, reached, cycle⟩
  have there : Acc (Function.swap refs.Refers) name := by
    clear cycle
    induction reached with
    | refl => exact ends
    | tail _ refers ih => exact ih.inv refers
  -- No name comes before itself in a relation that ends.
  have irreflexive : ∀ name, Acc (Relation.TransGen (Function.swap refs.Refers)) name →
      ¬ Relation.TransGen (Function.swap refs.Refers) name name := by
    intro name ends
    induction ends with
    | intro name _ ih => exact fun back => ih name back back
  exact irreflexive name there.transGen (Relation.transGen_swap.mpr cycle)

theorem Loop.reachesCycle {chain : List String} (loop : refs.Loop start chain) : refs.ReachesCycle start := by
  obtain ⟨starts, follows, path, last, rfl, -, mem⟩ := loop
  obtain ⟨before, after, rfl⟩ := List.append_of_mem mem
  -- What stands later in the chain is reached from what stands earlier.
  have later : (before ++ last :: (after ++ [last])).Pairwise (Relation.TransGen refs.Refers) := by
    rw [← List.cons_append, ← List.append_assoc]
    exact (follows.imp fun _ _ => Relation.TransGen.single).pairwise
  obtain ⟨-, behind, across⟩ := List.pairwise_append.mp later
  have returns : Relation.TransGen refs.Refers last last :=
    List.rel_of_pairwise_cons behind (List.mem_append_right _ List.mem_cons_self)
  refine ⟨last, ?_, returns⟩
  cases before with
  | nil =>
    cases starts
    exact .refl
  | cons first before =>
    cases starts
    exact (across _ List.mem_cons_self last List.mem_cons_self).to_reflTransGen

end References

/-! #### First visits -/

/-- Names in the order in which they were first visited, each with what stands for it. -/
def Keyed.firsts {α : Type} (value : String → α) (visited : List String) : Keyed α :=
  visited.eraseDups.map fun name => (name, value name)

namespace Keyed

variable {α : Type} {value : String → α} {visited more : List String}

theorem keys_firsts (value : String → α) (visited : List String) : keys (firsts value visited) = visited.eraseDups := by
  unfold keys firsts
  rw [List.map_map]
  exact List.map_id _

theorem firsts_of_subset (sub : more ⊆ visited) : firsts value (visited ++ more) = firsts value visited := by
  have nothing : more.removeAll visited = [] := by
    unfold List.removeAll
    exact List.filter_eq_nil_iff.mpr fun name mem => by simp [sub mem]
  unfold firsts
  rw [List.eraseDups_append, nothing, List.eraseDups_nil, List.append_nil]

/-- A visit is recorded behind the others, unless it is not the first. -/
theorem put_firsts (value : String → α) (name : String) :
    put name (value name) (firsts value visited) = firsts value (visited ++ [name]) := by
  by_cases known : name ∈ visited
  · rw [firsts_of_subset fun other mem => List.mem_singleton.mp mem ▸ known]
    obtain ⟨a, found⟩ := exists_get?_of_mem_keys (keys_firsts value visited ▸ List.mem_eraseDups.mpr known)
    obtain ⟨other, -, same⟩ := List.mem_map.mp (mem_of_get? found)
    cases same
    exact put_of_get? found
  · have new : name ∉ keys (firsts value visited) := by
      rw [keys_firsts]
      exact fun h => known (List.mem_eraseDups.mp h)
    have last : (visited ++ [name]).eraseDups = visited.eraseDups ++ [name] := by
      simp [List.eraseDups_append, List.eraseDups_cons, List.removeAll, known]
    rw [put_of_not_mem new]
    unfold firsts
    rw [last, List.map_append]
    rfl

theorem nodup_keys_firsts (value : String → α) (visited : List String) : (keys (firsts value visited)).Nodup := by
  induction visited using List.reverseRecOn with
  | nil => exact List.nodup_nil
  | append_singleton visited name ih =>
    rw [← put_firsts]
    exact nodup_keys_put ih

end Keyed

end Stencil
