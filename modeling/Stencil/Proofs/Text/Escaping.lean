import Mathlib.Data.List.Infix
import Stencil.Run.Functions

/-!
Escaped texts. None of the characters that mean something on a page is left in them, and whoever reads the entities
back gets the text that was escaped.
-/
namespace Stencil.Text

/-- The characters that have an entity. -/
def special : List Char := ['&', '<', '>', '"', '\'']

/-- Reads entities back, from left to right; all else stands for itself. -/
def unescape : List Char → List Char
  | '&' :: 'a' :: 'm' :: 'p' :: ';' :: s => '&' :: unescape s
  | '&' :: 'l' :: 't' :: ';' :: s => '<' :: unescape s
  | '&' :: 'g' :: 't' :: ';' :: s => '>' :: unescape s
  | '&' :: 'q' :: 'u' :: 'o' :: 't' :: ';' :: s => '"' :: unescape s
  | '&' :: '#' :: '3' :: '9' :: ';' :: s => '\'' :: unescape s
  | c :: s => c :: unescape s
  | [] => []

/-- A text that a page shows as text: no special character stands in it but the one that begins every entity. -/
structure Safe (t : List Char) : Prop where
  plain : ∀ c ∈ t, c ∈ special → c = '&'
  entities : ∀ before after, t = before ++ '&' :: after → ∃ c ∈ special, entity c <+: '&' :: after

variable {c : Char} {s t : List Char}

theorem entity_of_not_mem (ordinary : c ∉ special) : entity c = [c] := by
  simp only [special, List.mem_cons, List.not_mem_nil, or_false, not_or] at ordinary
  obtain ⟨amp, lt, gt, quote, apostrophe⟩ := ordinary
  unfold entity
  split
  · exact absurd rfl amp
  · exact absurd rfl lt
  · exact absurd rfl gt
  · exact absurd rfl quote
  · exact absurd rfl apostrophe
  · rfl

/-- An entity is an ampersand and characters that are not special. -/
theorem entity_of_mem (mem : c ∈ special) : ∃ name, entity c = '&' :: name ∧ ∀ d ∈ name, d ∉ special := by
  simp only [special, List.mem_cons, List.not_mem_nil, or_false] at mem
  rcases mem with rfl | rfl | rfl | rfl | rfl
  · exact ⟨['a', 'm', 'p', ';'], rfl, by simp [special]⟩
  · exact ⟨['l', 't', ';'], rfl, by simp [special]⟩
  · exact ⟨['g', 't', ';'], rfl, by simp [special]⟩
  · exact ⟨['q', 'u', 'o', 't', ';'], rfl, by simp [special]⟩
  · exact ⟨['#', '3', '9', ';'], rfl, by simp [special]⟩

theorem entity_ne_nil (c : Char) : entity c ≠ [] := by
  by_cases mem : c ∈ special
  · obtain ⟨name, written, -⟩ := entity_of_mem mem
    rw [written]
    exact List.cons_ne_nil _ _
  · rw [entity_of_not_mem mem]
    exact List.cons_ne_nil _ _

theorem escape_cons (c : Char) (s : List Char) : escape (c :: s) = entity c ++ escape s := List.flatMap_cons

/-! #### Safe texts -/

theorem Safe.nil : Safe [] where
  plain c mem := by cases mem
  entities before after same := by cases before <;> cases same

/-- A character that is not special is put in front. -/
theorem Safe.cons (safe : Safe t) (ordinary : c ∉ special) : Safe (c :: t) where
  plain d mem isSpecial := by
    rcases List.mem_cons.mp mem with rfl | mem
    · exact absurd isSpecial ordinary
    · exact safe.plain d mem isSpecial
  entities before after same := by
    cases before with
    | nil =>
      cases same
      exact absurd List.mem_cons_self ordinary
    | cons d before => exact safe.entities before after (List.cons.inj same).2

theorem Safe.append_ordinary (safe : Safe t) {front : List Char} (ordinary : ∀ d ∈ front, d ∉ special) :
    Safe (front ++ t) := by
  induction front with
  | nil => exact safe
  | cons d front ih =>
    exact (ih fun e mem => ordinary e (List.mem_cons_of_mem _ mem)).cons (ordinary d List.mem_cons_self)

/-- An entity is put in front. -/
theorem Safe.entity_append (safe : Safe t) (mem : c ∈ special) : Safe (entity c ++ t) := by
  obtain ⟨name, written, ordinary⟩ := entity_of_mem mem
  have later := safe.append_ordinary ordinary
  rw [written, List.cons_append]
  constructor
  · intro d member isSpecial
    rcases List.mem_cons.mp member with rfl | member
    · rfl
    · exact later.plain d member isSpecial
  · intro before after same
    cases before with
    | nil => exact ⟨c, mem, t, by rw [written, List.cons_append]; exact same⟩
    | cons d before => exact later.entities before after (List.cons.inj same).2

theorem safe_escape (s : List Char) : Safe (escape s) := by
  induction s with
  | nil => exact .nil
  | cons c s ih =>
    rw [escape_cons]
    by_cases mem : c ∈ special
    · exact ih.entity_append mem
    · rw [entity_of_not_mem mem]
      exact ih.cons mem

/-! #### Reading back -/

/-- What is not an ampersand stands for itself. -/
theorem unescape_cons (other : c ≠ '&') (s : List Char) : unescape (c :: s) = c :: unescape s := by
  conv_lhs => unfold unescape
  split <;> rename_i same
  iterate 5 exact absurd (List.cons.inj same).1 other
  · cases same
    rfl
  · cases same

theorem unescape_entity_append (c : Char) (s : List Char) : unescape (entity c ++ s) = c :: unescape s := by
  by_cases mem : c ∈ special
  · simp only [special, List.mem_cons, List.not_mem_nil, or_false] at mem
    rcases mem with rfl | rfl | rfl | rfl | rfl <;> rfl
  · rw [entity_of_not_mem mem]
    refine unescape_cons (fun same => mem ?_) s
    rw [same]
    exact List.mem_cons_self

theorem unescape_escape (s : List Char) : unescape (escape s) = s := by
  induction s with
  | nil => rfl
  | cons c s ih => rw [escape_cons, unescape_entity_append, ih]

/-! #### All safe texts -/

theorem Safe.of_append {front : List Char} (safe : Safe (front ++ t)) : Safe t where
  plain c mem := safe.plain c (List.mem_append_right _ mem)
  entities before after same := safe.entities (front ++ before) after (by rw [same, List.append_assoc])

/-- A safe text begins with what some character is escaped to. -/
theorem Safe.begins (safe : Safe (c :: t)) : ∃ d rest, c :: t = entity d ++ rest := by
  by_cases mem : c ∈ special
  · obtain rfl := safe.plain c List.mem_cons_self mem
    obtain ⟨d, -, rest, whole⟩ := safe.entities [] t rfl
    exact ⟨d, rest, whole.symm⟩
  · exact ⟨c, t, by rw [entity_of_not_mem mem, List.singleton_append]⟩

/-- Every safe text comes of one that was escaped. -/
theorem Safe.exists_escape (safe : Safe t) : ∃ s, t = escape s := by
  induction long : t.length using Nat.strongRecOn generalizing t with
  | ind n ih =>
    cases t with
    | nil => exact ⟨[], rfl⟩
    | cons c t =>
      obtain ⟨d, rest, whole⟩ := safe.begins
      rw [whole] at safe long ⊢
      have written := List.length_pos_of_ne_nil (entity_ne_nil d)
      have shorter : rest.length < n := by
        rw [List.length_append] at long
        omega
      obtain ⟨s, rfl⟩ := ih _ shorter safe.of_append rfl
      exact ⟨d :: s, (escape_cons d s).symm⟩

/-- An escaped text is safe, and every safe text is an escaped one. Reading the entities back gives the text that was
escaped, so different texts stay different, those that hold entities already among them. Texts one after the other are
escaped one after the other, and this is what templates call by the name of `escape`. -/
theorem escaping_is_safe_and_lossless (s t : List Char) :
    Safe (escape s) ∧ (Safe t ↔ ∃ u, t = escape u) ∧ unescape (escape s) = s ∧ (escape s = escape t ↔ s = t) ∧
      escape (s ++ t) = escape s ++ escape t ∧
      Functions.standard.call "escape" [.str (String.ofList s)] = .ok (.str (String.ofList (escape s))) := by
  refine ⟨safe_escape s, ⟨Safe.exists_escape, ?_⟩, unescape_escape s, ⟨fun same => ?_, congrArg escape⟩,
    escape_append s t, ?_⟩
  · rintro ⟨u, rfl⟩
    exact safe_escape u
  · rw [← unescape_escape s, ← unescape_escape t, same]
  · show Except.ok (Value.str (String.ofList (escape (String.ofList s).toList))) = _
    rw [String.toList_ofList]

/-- Entities that were there before are escaped once more. -/
example : escape "&lt;'&".toList = "&amp;lt;&#39;&amp;".toList := by decide

end Stencil.Text
