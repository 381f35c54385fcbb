import Stencil.Main

/-!
Paths as they are written: the parts they are made of, how one path continues another, and which of them lead to the
same place on every disk.
-/
namespace Stencil.Path

/-- A name that stands for itself in a path. -/
structure PlainFile (file : String) : Prop where
  noSlash : '/' ∉ file.toList
  noNul : '\x00' ∉ file.toList
  proper : file ≠ "" ∧ file ≠ "." ∧ file ≠ ".."

instance (file : String) : Decidable (PlainFile file) :=
  decidable_of_iff ('/' ∉ file.toList ∧ '\x00' ∉ file.toList ∧ file ≠ "" ∧ file ≠ "." ∧ file ≠ "..")
    ⟨fun ⟨noSlash, noNul, proper⟩ => ⟨noSlash, noNul, proper⟩, fun plain => ⟨plain.noSlash, plain.noNul, plain.proper⟩⟩

theorem segmentsFrom_append (current a b : List Char) :
    segmentsFrom current (a ++ '/' :: b) = segmentsFrom current a ++ segmentsFrom [] b := by
  induction a generalizing current with
  | nil => rfl
  | cons c a ih =>
    rw [List.cons_append, segmentsFrom, segmentsFrom]
    split
    · rw [ih, List.cons_append]
    · exact ih _

theorem segmentsFrom_plain {s : List Char} (plain : '/' ∉ s) (current : List Char) :
    segmentsFrom current s = [String.ofList (current.reverse ++ s)] := by
  induction s generalizing current with
  | nil => rw [segmentsFrom, List.append_nil]
  | cons c s ih =>
    have other : c ≠ '/' := fun h => plain (by simp [h])
    rw [segmentsFrom, if_neg other, ih fun h => plain (List.mem_cons_of_mem c h)]
    simp

/-- The way to a folder, by which its files are reached. -/
def wayTo (dir : String) : List String :=
  if dir.isEmpty then [] else if dir.toList.getLast? == some '/' then (segments dir).dropLast else segments dir

theorem segments_slash {dir : String} (ends : dir.toList.getLast? = some '/') :
    ∃ a, dir.toList = a ++ ['/'] ∧ segments dir = segmentsFrom [] a ++ [""] := by
  obtain ⟨a, shape⟩ := List.getLast?_eq_some_iff.mp ends
  refine ⟨a, shape, ?_⟩
  unfold segments
  rw [shape, segmentsFrom_append]
  rfl

theorem isAbsolute_plain {file : String} (noSlash : '/' ∉ file.toList) : isAbsolute file = false := by
  unfold isAbsolute
  cases text : file.toList with
  | nil => rfl
  | cons c s =>
    have other : c ≠ '/' := fun h => noSlash (by rw [text, h]; simp)
    simpa using other

theorem empty_mem_segments_of_isAbsolute {path : String} (absolute : isAbsolute path = true) : "" ∈ segments path := by
  unfold isAbsolute at absolute
  unfold segments
  cases text : path.toList with
  | nil => simp [text] at absolute
  | cons c s =>
    have slash : c = '/' := by simpa [text] using absolute
    simp [segmentsFrom, slash]

/-- The three ways in which a path is continued. -/
theorem join_cases_of_relative (dir : String) {more : String} (relative : isAbsolute more = false) :
    (dir = "" ∧ join dir more = more) ∨
    (dir ≠ "" ∧ dir.toList.getLast? = some '/' ∧ join dir more = dir ++ more) ∨
    (dir ≠ "" ∧ dir.toList.getLast? ≠ some '/' ∧ join dir more = dir ++ "/" ++ more) := by
  unfold join
  rw [relative, Bool.false_or]
  by_cases empty : dir = ""
  · exact Or.inl ⟨empty, if_pos (by simp [empty])⟩
  · have full : ¬ dir.isEmpty = true := by simpa using empty
    rw [if_neg full]
    by_cases slash : dir.toList.getLast? = some '/'
    · exact Or.inr (Or.inl ⟨empty, slash, if_pos (by simp [slash])⟩)
    · exact Or.inr (Or.inr ⟨empty, slash, if_neg (by simpa using slash)⟩)

theorem join_cases (dir : String) {file : String} (noSlash : '/' ∉ file.toList) :
    (dir = "" ∧ join dir file = file) ∨
    (dir ≠ "" ∧ dir.toList.getLast? = some '/' ∧ join dir file = dir ++ file) ∨
    (dir ≠ "" ∧ dir.toList.getLast? ≠ some '/' ∧ join dir file = dir ++ "/" ++ file) :=
  join_cases_of_relative dir (isAbsolute_plain noSlash)

theorem segments_plain {file : String} (noSlash : '/' ∉ file.toList) : segments file = [file] := by
  rw [segments, segmentsFrom_plain noSlash]
  simp

theorem segments_join_of_relative (dir : String) {more : String} (relative : isAbsolute more = false) :
    segments (join dir more) = wayTo dir ++ segments more := by
  rcases join_cases_of_relative dir relative with ⟨empty, path⟩ | ⟨full, slash, path⟩ | ⟨full, slash, path⟩
  · rw [path, empty]
    rfl
  · obtain ⟨a, shape, parts⟩ := segments_slash slash
    have way : wayTo dir = segmentsFrom [] a := by
      unfold wayTo
      rw [if_neg (by simpa using full), if_pos (by simp [slash]), parts, List.dropLast_concat]
    rw [path, way, segments, String.toList_append, shape, List.append_assoc, List.singleton_append,
      segmentsFrom_append]
    rfl
  · have way : wayTo dir = segmentsFrom [] dir.toList := by
      unfold wayTo
      rw [if_neg (by simpa using full), if_neg (by simpa using slash)]
      rfl
    have text : (dir ++ "/" ++ more).toList = dir.toList ++ '/' :: more.toList := by
      simp
    rw [path, way, segments, text, segmentsFrom_append]
    rfl

theorem segments_join (dir : String) {file : String} (noSlash : '/' ∉ file.toList) :
    segments (join dir file) = wayTo dir ++ [file] := by
  rw [segments_join_of_relative dir (isAbsolute_plain noSlash), segments_plain noSlash]

theorem isAbsolute_join_of_relative (dir : String) {more : String} (relative : isAbsolute more = false) :
    isAbsolute (join dir more) = isAbsolute dir := by
  rcases join_cases_of_relative dir relative with ⟨empty, path⟩ | ⟨full, -, path⟩ | ⟨full, -, path⟩
  · rw [path, empty, relative]
    rfl
  all_goals
    rw [path]
    unfold isAbsolute
    cases text : dir.toList with
    | nil => exact absurd (String.toList_eq_nil_iff.mp text) full
    | cons c s => simp [text]

theorem isAbsolute_join (dir : String) {file : String} (noSlash : '/' ∉ file.toList) :
    isAbsolute (join dir file) = isAbsolute dir :=
  isAbsolute_join_of_relative dir (isAbsolute_plain noSlash)

theorem mem_join {dir file : String} (noSlash : '/' ∉ file.toList) {c : Char} (h : c ∈ (join dir file).toList) :
    c ∈ dir.toList ∨ c = '/' ∨ c ∈ file.toList := by
  rcases join_cases dir noSlash with ⟨-, path⟩ | ⟨-, -, path⟩ | ⟨-, -, path⟩
  · rw [path] at h
    exact Or.inr (Or.inr h)
  · rw [path, String.toList_append, List.mem_append] at h
    exact h.imp_right Or.inr
  · rw [path, String.toList_append, String.toList_append, List.mem_append, List.mem_append] at h
    rcases h with (h | h) | h
    · exact Or.inl h
    · exact Or.inr (Or.inl (by simpa using h))
    · exact Or.inr (Or.inr h)

/-- A path is written by its parts with slashes between them. -/
theorem segments_intercalate {parts : List String} (some : parts ≠ []) (noSlash : ∀ part ∈ parts, '/' ∉ part.toList) :
    segments ("/".intercalate parts) = parts := by
  induction parts with
  | nil => exact absurd rfl some
  | cons part parts ih =>
    obtain ⟨here, there⟩ := List.forall_mem_cons.mp noSlash
    cases parts with
    | nil =>
      rw [String.intercalate_singleton]
      exact segments_plain here
    | cons next parts =>
      have text : ("/".intercalate (part :: next :: parts)).toList =
          part.toList ++ '/' :: ("/".intercalate (next :: parts)).toList := by
        rw [String.intercalate_cons_of_ne_nil (List.cons_ne_nil _ _)]
        simp
      have first := segments_plain here
      have rest := ih (List.cons_ne_nil _ _) there
      unfold segments at first rest ⊢
      rw [text, segmentsFrom_append, first, rest, List.singleton_append]

/-- Apart from slashes, a path is made of the characters of its parts. -/
theorem mem_segmentsFrom {c : Char} (other : c ≠ '/') (current s : List Char) :
    (∃ part ∈ segmentsFrom current s, c ∈ part.toList) ↔ c ∈ current ∨ c ∈ s := by
  induction s generalizing current with
  | nil => simp [segmentsFrom]
  | cons d s ih =>
    unfold segmentsFrom
    split
    · rename_i slash
      subst slash
      have parts := ih []
      simp only [List.not_mem_nil, false_or] at parts
      simp [parts, other]
    · rw [ih, List.mem_cons, List.mem_cons, or_left_comm, or_assoc]

theorem mem_segments {c : Char} (other : c ≠ '/') (path : String) :
    (∃ part ∈ segments path, c ∈ part.toList) ↔ c ∈ path.toList := by
  rw [segments, mem_segmentsFrom other]
  simp

/-- A part of a path that leads somewhere. -/
def leads (segment : String) : Bool := segment != "" && segment != "."

/-- What a path is made of: repeated slashes and dots on the way do not count, but a dot in front does. -/
def components (path : String) : List String :=
  (if (segments path).head? = some "." then ["."] else []) ++ (segments path).filter leads

/-- Two ways to write one path. -/
def Same (p q : String) : Prop := isAbsolute p = isAbsolute q ∧ components p = components q

/-- The path of a file that is directly in a folder. -/
structure DirectlyIn (dir file path : String) : Prop where
  root : isAbsolute path = isAbsolute dir
  way : components path = components dir ++ [file]

/-- Two files of one folder are one if they have the same name. -/
theorem DirectlyIn.same_iff {dir file file' path path' : String} (inside : DirectlyIn dir file path)
    (inside' : DirectlyIn dir file' path') : Same path path' ↔ file = file' := by
  unfold Same
  rw [inside.root, inside'.root, inside.way, inside'.way]
  simp

theorem segmentsFrom_ne_nil (s current : List Char) : segmentsFrom current s ≠ [] := by
  induction s generalizing current with
  | nil => simp [segmentsFrom]
  | cons c s ih =>
    unfold segmentsFrom
    split
    · simp
    · exact ih _

/-- The way to a folder is what its path is made of, a slash at the end aside. -/
theorem wayTo_cases (dir : String) :
    dir = "" ∧ wayTo dir = [] ∨
      wayTo dir ≠ [] ∧ (segments dir = wayTo dir ∨ segments dir = wayTo dir ++ [""]) := by
  unfold wayTo
  by_cases empty : dir = ""
  · exact .inl ⟨empty, if_pos (by simp [empty])⟩
  · rw [if_neg (by simpa using empty)]
    by_cases slash : dir.toList.getLast? = some '/'
    · obtain ⟨a, -, parts⟩ := segments_slash slash
      rw [if_pos (by simp [slash]), parts, List.dropLast_concat]
      exact .inr ⟨segmentsFrom_ne_nil a [], .inr rfl⟩
    · rw [if_neg (by simpa using slash)]
      exact .inr ⟨segmentsFrom_ne_nil dir.toList [], .inl rfl⟩

/-- The way to a folder leads where the folder's path leads. -/
theorem components_wayTo (dir : String) {file : String} (proper : file ≠ ".") :
    (if (wayTo dir ++ [file]).head? = some "." then ["."] else []) ++ (wayTo dir).filter leads = components dir := by
  unfold components
  rcases wayTo_cases dir with ⟨rfl, way⟩ | ⟨full, same⟩
  · have none : (segments "").filter leads = [] := by decide
    have other : (segments "").head? ≠ some "." := by decide
    rw [way, none, if_neg other, List.nil_append, List.head?_cons, if_neg fun same => proper (Option.some.inj same)]
    rfl
  · obtain ⟨first, rest, way⟩ := List.exists_cons_of_ne_nil full
    rw [way] at same ⊢
    rcases same with same | same
    · rw [same]
      rfl
    · have nowhere : [""].filter leads = [] := by decide
      rw [same, List.filter_append, nowhere, List.append_nil]
      rfl

theorem directlyIn_join (dir : String) {file : String} (noSlash : '/' ∉ file.toList) (full : file ≠ "")
    (proper : file ≠ ".") : DirectlyIn dir file (join dir file) := by
  refine ⟨isAbsolute_join dir noSlash, ?_⟩
  have reached : [file].filter leads = [file] := by simp [leads, full, proper]
  unfold components
  rw [segments_join dir noSlash, List.filter_append, reached, ← List.append_assoc, components_wayTo dir proper]
  rfl

/-! #### Locations -/

/-- A location is reached by its parts, from the top. -/
theorem wayTo_ofLocation {l : Location} (plain : ∀ part ∈ l, PlainFile part) : wayTo (ofLocation l) = "" :: l := by
  cases l with
  | nil => decide
  | cons first l =>
    have parts : segments (ofLocation (first :: l)) = "" :: first :: l := by
      have text : (ofLocation (first :: l)).toList = [] ++ '/' :: ("/".intercalate (first :: l)).toList := by
        simp [ofLocation]
      have below := segments_intercalate (List.cons_ne_nil first l) fun part mem => (plain part mem).noSlash
      unfold segments at below ⊢
      rw [text, segmentsFrom_append, below]
      rfl
    rcases wayTo_cases (ofLocation (first :: l)) with ⟨empty, -⟩ | ⟨-, same | same⟩
    · rw [empty] at parts
      cases parts
    · exact same.symm.trans parts
    · have last := congrArg List.getLast? (parts.symm.trans same)
      rw [List.getLast?_concat, List.getLast?_cons_cons, List.getLast?_eq_some_iff] at last
      obtain ⟨before, shape⟩ := last
      have mem : "" ∈ first :: l := by
        rw [shape]
        exact List.mem_append_right _ (List.mem_singleton_self _)
      exact absurd rfl (plain _ mem).proper.1

end Stencil.Path
