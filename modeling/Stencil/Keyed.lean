/-!
Tables from texts to things, in the order in which the keys came. A key that is put again keeps its place.
-/
namespace Stencil

abbrev Keyed (α : Type) := List (String × α)

namespace Keyed

variable {α : Type}

def get? (key : String) : Keyed α → Option α
  | [] => none
  | (k, a) :: table => if k = key then some a else get? key table

def put (key : String) (a : α) : Keyed α → Keyed α
  | [] => [(key, a)]
  | (k, b) :: table => if k = key then (k, a) :: table else (k, b) :: put key a table

def erase (key : String) (table : Keyed α) : Keyed α := table.filter (·.1 ≠ key)

/-- Puts a key at the end, whether or not it was there before. -/
def putLast (key : String) (a : α) (table : Keyed α) : Keyed α := erase key table ++ [(key, a)]

def keys (table : Keyed α) : List String := table.map (·.1)

def has (key : String) (table : Keyed α) : Bool := (get? key table).isSome

@[simp] theorem get?_put_self (key : String) (a : α) (table : Keyed α) :
    get? key (put key a table) = some a := by
  induction table with
  | nil => simp [put, get?]
  | cons e table ih =>
    obtain ⟨k, b⟩ := e
    by_cases h : k = key <;> simp [put, get?, h, ih]

theorem get?_put_of_ne {key other : String} (h : other ≠ key) (a : α) (table : Keyed α) :
    get? key (put other a table) = get? key table := by
  induction table with
  | nil => simp [put, get?, h]
  | cons e table ih =>
    obtain ⟨k, b⟩ := e
    by_cases hk : k = other
    · subst hk; simp [put, get?, h]
    · simp [put, get?, hk, ih]

/-- A put key keeps its place if it was there, and comes last otherwise. -/
theorem keys_put (key : String) (a : α) (table : Keyed α) :
    keys (put key a table) = if key ∈ keys table then keys table else keys table ++ [key] := by
  induction table with
  | nil => simp [put, keys]
  | cons e table ih =>
    obtain ⟨k, b⟩ := e
    by_cases h : k = key
    · simp [put, keys, h]
    · have h' : key ≠ k := fun e => h e.symm
      simp only [keys] at ih
      by_cases hm : key ∈ List.map (·.1) table <;> simp_all [put, keys]

theorem get?_erase_self (key : String) (table : Keyed α) : get? key (erase key table) = none := by
  induction table with
  | nil => rfl
  | cons e table ih =>
    obtain ⟨k, b⟩ := e
    by_cases h : k = key
    · simpa [erase, h] using ih
    · simpa [erase, h, get?] using ih

theorem get?_erase_of_ne {key other : String} (h : other ≠ key) (table : Keyed α) :
    get? key (erase other table) = get? key table := by
  induction table with
  | nil => rfl
  | cons e table ih =>
    obtain ⟨k, b⟩ := e
    by_cases hk : k = other
    · subst hk
      simpa [erase, get?, h] using ih
    · by_cases same : k = key
      · subst same
        simp [erase, get?, hk]
      · simpa [erase, get?, hk, same] using ih

theorem get?_erase {key other : String} {a : α} {table : Keyed α} (found : get? key (erase other table) = some a) :
    other ≠ key ∧ get? key table = some a := by
  by_cases same : other = key
  · subst same
    rw [get?_erase_self] at found
    cases found
  · rw [get?_erase_of_ne same] at found
    exact ⟨same, found⟩

theorem get?_put {key other : String} {a b : α} {table : Keyed α} (found : get? key (put other a table) = some b) :
    (other = key ∧ b = a) ∨ (other ≠ key ∧ get? key table = some b) := by
  by_cases same : other = key
  · subst same
    rw [get?_put_self] at found
    exact Or.inl ⟨rfl, (Option.some.inj found).symm⟩
  · rw [get?_put_of_ne same] at found
    exact Or.inr ⟨same, found⟩

theorem mem_keys_put {key k : String} {a : α} {table : Keyed α} :
    k ∈ keys (put key a table) ↔ k = key ∨ k ∈ keys table := by
  rw [keys_put]
  by_cases known : key ∈ keys table
  · rw [if_pos known]
    constructor
    · exact Or.inr
    · rintro (rfl | h)
      · exact known
      · exact h
  · rw [if_neg known, List.mem_append, List.mem_singleton]
    exact Or.comm

/-- A new key comes last. -/
theorem put_of_not_mem {key : String} {a : α} {table : Keyed α} (new : key ∉ keys table) :
    put key a table = table ++ [(key, a)] := by
  induction table with
  | nil => rfl
  | cons first table ih =>
    obtain ⟨k, b⟩ := first
    obtain ⟨other, new⟩ := not_or.mp fun h => new (List.mem_cons.mpr h)
    unfold put
    rw [if_neg fun same => other same.symm, ih new, List.cons_append]

theorem mem_put {key : String} {a : α} {table : Keyed α} {e : String × α}
    (h : e ∈ put key a table) : e = (key, a) ∨ e ∈ table := by
  induction table with
  | nil => exact Or.inl (List.mem_singleton.mp h)
  | cons first table ih =>
    obtain ⟨k, b⟩ := first
    unfold put at h
    split at h
    · rename_i same
      subst same
      rcases List.mem_cons.mp h with h | h
      · exact Or.inl h
      · exact Or.inr (List.mem_cons_of_mem _ h)
    · rcases List.mem_cons.mp h with h | h
      · exact Or.inr (List.mem_cons.mpr (Or.inl h))
      · exact (ih h).imp_right (List.mem_cons_of_mem _)

theorem mem_keys_of_get? {key : String} {a : α} {table : Keyed α} (found : get? key table = some a) :
    key ∈ keys table := by
  induction table with
  | nil => cases found
  | cons first table ih =>
    obtain ⟨k, b⟩ := first
    unfold get? at found
    split at found
    · rename_i same
      exact List.mem_cons.mpr (Or.inl same.symm)
    · exact List.mem_cons_of_mem _ (ih found)

theorem get?_eq_none_iff {key : String} {table : Keyed α} : get? key table = none ↔ key ∉ keys table := by
  induction table with
  | nil => simp [get?, keys]
  | cons first table ih =>
    obtain ⟨k, b⟩ := first
    by_cases same : k = key
    · simp [get?, keys, same]
    · have other : key ≠ k := fun h => same h.symm
      simpa [get?, keys, same, other] using ih

theorem get?_append {key : String} (table more : Keyed α) :
    get? key (table ++ more) = (get? key table).or (get? key more) := by
  induction table with
  | nil => rfl
  | cons first table ih =>
    obtain ⟨k, a⟩ := first
    by_cases same : k = key <;> simp [get?, same, ih]

theorem get?_putLast {key : String} (other : String) (a : α) (table : Keyed α) :
    get? key (putLast other a table) = if other = key then some a else get? key table := by
  unfold putLast
  rw [get?_append]
  by_cases same : other = key
  · subst same
    simp [get?_erase_self, get?]
  · simp [get?_erase_of_ne same, get?, same]

theorem keys_putLast (key : String) (a : α) (table : Keyed α) :
    keys (putLast key a table) = (keys table).filter (· ≠ key) ++ [key] := by
  simp [keys, putLast, erase, List.filter_map, Function.comp_def]

/-- Putting what is there changes nothing. -/
theorem put_of_get? {key : String} {a : α} {table : Keyed α} (found : get? key table = some a) :
    put key a table = table := by
  induction table with
  | nil => cases found
  | cons first table ih =>
    obtain ⟨k, b⟩ := first
    by_cases same : k = key
    · subst same
      have value : b = a := by simpa [get?] using found
      simp [put, value]
    · have rest : get? key table = some a := by simpa [get?, same] using found
      simp [put, same, ih rest]

theorem mem_of_get? {key : String} {a : α} {table : Keyed α} (found : get? key table = some a) :
    (key, a) ∈ table := by
  induction table with
  | nil => cases found
  | cons first table ih =>
    obtain ⟨k, b⟩ := first
    unfold get? at found
    split at found
    · rename_i same
      cases found
      exact List.mem_cons.mpr (Or.inl (by rw [same]))
    · exact List.mem_cons_of_mem _ (ih found)

end Keyed

end Stencil
