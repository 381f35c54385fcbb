import Stencil.Proofs.Cache.Rendering
import Stencil.Proofs.Disk.Trees
import Stencil.Proofs.Text.Span

/-!
What the library of a folder lists against what it finds. A name is found by putting the extension behind it, and listed
by taking a file name apart at its last dot. The two agree as long as the extension has no dot of its own and no file is
called by a single dot and the extension.
-/
namespace Stencil

open Stencil.Path (PlainFile)

namespace Path

variable {file stem extension : String}

/-- A file name is taken apart at its last dot. -/
theorem splitExtension_dotted (noDot : '.' ∉ extension.toList) (full : stem ≠ "")
    (proper : stem ++ "." ++ extension ≠ "..") :
    splitExtension (stem ++ "." ++ extension) = (stem, some extension) := by
  have text : (stem ++ "." ++ extension).toList.reverse = extension.toList.reverse ++ '.' :: stem.toList.reverse := by
    simp
  have after : ∀ c ∈ extension.toList.reverse, decide (c ≠ '.') = true := by
    intro c mem
    rw [decide_eq_true_eq]
    rintro rfl
    exact noDot (List.mem_reverse.mp mem)
  unfold splitExtension
  rw [text, span_append after (Bars.cons (by simp) _)]
  simp [full, proper]

theorem dotted_of_splitExtension (split : splitExtension file = (stem, some extension)) :
    file = stem ++ "." ++ extension ∧ stem ≠ "" ∧ '.' ∉ extension.toList := by
  unfold splitExtension at split
  rcases shape : file.toList.reverse.span (· ≠ '.') with ⟨after, before⟩
  obtain ⟨text, clean, bar⟩ := span_parts shape
  rw [shape] at split
  dsimp only at split
  cases before with
  | nil => cases split
  | cons c before =>
    have dot : c = '.' := by simpa using bar c rfl
    subst dot
    dsimp only at split
    split at split
    · cases split
    · rename_i proper
      cases split
      have whole := congrArg List.reverse text
      rw [List.reverse_reverse] at whole
      refine ⟨?_, ?_, ?_⟩
      · rw [← String.toList_inj, whole]
        simp
      · intro none
        have bare : before = [] := by simpa using congrArg String.toList none
        simp [bare] at proper
      · rw [String.toList_ofList, List.mem_reverse]
        intro mem
        simpa using clean _ mem

end Path

namespace FolderSources

variable {f : FolderSources} {d : Disk} {dirs dirs' : List String} {file stem last last' n : String} {l m : Location}

/-! #### Names and files -/

/-- The name of something by the folders on its way and its last part. -/
def joined (dirs : List String) (last : String) : String := "/".intercalate (dirs ++ [last])

theorem segments_joined (plain : ∀ part ∈ dirs, PlainFile part) (noSlash : '/' ∉ last.toList) :
    Path.segments (joined dirs last) = dirs ++ [last] := by
  refine Path.segments_intercalate (by simp) fun part mem => ?_
  rcases List.mem_append.mp mem with mem | mem
  · exact (plain part mem).noSlash
  · rw [List.mem_singleton.mp mem]
    exact noSlash

theorem joined_inj (plain : ∀ part ∈ dirs, PlainFile part) (noSlash : '/' ∉ last.toList)
    (plain' : ∀ part ∈ dirs', PlainFile part) (noSlash' : '/' ∉ last'.toList)
    (same : joined dirs last = joined dirs' last') : dirs = dirs' ∧ last = last' := by
  have parts := congrArg Path.segments same
  rw [segments_joined plain noSlash, segments_joined plain' noSlash'] at parts
  exact ⟨List.append_inj_left' parts rfl, List.singleton_inj.mp (List.append_inj_right' parts rfl)⟩

/-- The extension comes behind the last part of a name. -/
theorem fileName_joined (f : FolderSources) (dirs : List String) (last : String) :
    f.fileName (joined dirs last) = joined dirs (f.fileName last) := by
  have behind (s : String) : joined dirs last ++ s = joined dirs (last ++ s) := by
    unfold joined
    by_cases top : dirs = []
    · rw [top]
      simp
    · rw [String.intercalate_append_of_ne_nil top (by simp), String.intercalate_append_of_ne_nil top (by simp)]
      simp [String.append_assoc]
  unfold fileName
  split
  · rfl
  · rw [String.append_assoc, behind, ← String.append_assoc]

/-- File names are taken apart at what is put together: there is no dot and no slash in the extension. -/
def Splits (f : FolderSources) : Prop := '.' ∉ f.extension.toList ∧ '/' ∉ f.extension.toList

instance : Decidable f.Splits := inferInstanceAs (Decidable (_ ∧ _))

/-- A file is listed by what it is the file of. -/
theorem stem?_eq_some_iff (plain : PlainFile file) :
    f.stem? file = some stem ↔ f.Splits ∧ stem ≠ "" ∧ file = f.fileName stem := by
  unfold stem? fileName Splits
  by_cases bare : f.extension = ""
  · have none : f.extension.isEmpty = true := by simp [bare]
    rw [if_pos none, if_pos none, bare]
    constructor
    · rintro same
      cases same
      exact ⟨by decide, plain.proper.1, rfl⟩
    · rintro ⟨-, -, rfl⟩
      rfl
  · have some : ¬ f.extension.isEmpty = true := by simpa using bare
    rw [if_neg some, if_neg some]
    constructor
    · intro listed
      split at listed
      · rename_i split
        split at listed
        · rename_i same
          cases listed
          obtain ⟨rfl, full, noDot⟩ := Path.dotted_of_splitExtension split
          refine ⟨⟨same ▸ noDot, fun slash => plain.noSlash ?_⟩, full, by rw [same]⟩
          rw [String.toList_append, same]
          exact List.mem_append_right _ slash
        · cases listed
      · cases listed
    · rintro ⟨⟨noDot, -⟩, full, rfl⟩
      rw [Path.splitExtension_dotted noDot full plain.proper.2.2]
      exact if_pos rfl

/-! #### Finding -/

/-- The file of a name is there, where the folders and the last part of the name say. -/
def Has (f : FolderSources) (d : Disk) (dirs : List String) (last : String) : Prop :=
  last ≠ "" ∧ ∃ content t, d.find? (f.root ++ (dirs ++ [f.fileName last])) = some (.file content t)

/-- The path of a name leads to a file. -/
def LeadsToFile (f : FolderSources) (d : Disk) (n : String) : Prop :=
  ∃ l content t, d.resolve (f.path n) = .ok l ∧ d.find? l = some (.file content t)

/-- A relative name, with a last part, of a file below the folder. -/
def Loadable (f : FolderSources) (d : Disk) (n : String) : Prop :=
  ∃ dirs last, n = joined dirs last ∧ (∀ part ∈ dirs, PlainFile part) ∧ last ≠ "" ∧ '/' ∉ last.toList ∧ f.LeadsToFile d n

/-- All parts of what is there are proper, and the last part of its name is without a slash. -/
theorem Has.plain (tree : d.IsTree) (has : f.Has d dirs last) :
    (∀ part ∈ f.root, PlainFile part) ∧ (∀ part ∈ dirs, PlainFile part) ∧ PlainFile (f.fileName last) ∧
      '/' ∉ last.toList := by
  obtain ⟨-, content, t, found⟩ := has
  have plain := fun part mem => (tree.plain (by rw [found]; rfl) part mem).1
  have file := plain (f.fileName last) (by simp)
  refine ⟨fun part mem => plain part (by simp [mem]), fun part mem => plain part (by simp [mem]), file, ?_⟩
  intro slash
  apply file.noSlash
  unfold fileName
  split
  · exact slash
  · simp [slash]

/-- A name's path goes down from the top, through the folder. -/
theorem resolve_path (root : ∀ part ∈ f.root, PlainFile part) (plain : ∀ part ∈ dirs, PlainFile part)
    (full : f.fileName last ≠ "") (noSlash : '/' ∉ (f.fileName last).toList) :
    d.resolve (f.path (joined dirs last)) =
      if '\x00' ∈ (f.fileName last).toList then .error .invalidName
      else d.walk [] (f.root ++ (dirs ++ [f.fileName last])) := by
  have parts := segments_joined plain noSlash
  have relative : Path.isAbsolute (joined dirs (f.fileName last)) = false := by
    rw [Bool.eq_false_iff]
    intro absolute
    have mem := Path.empty_mem_segments_of_isAbsolute absolute
    rw [parts, List.mem_append, List.mem_singleton] at mem
    rcases mem with mem | same
    · exact (plain _ mem).proper.1 rfl
    · exact full same.symm
  have way : Path.segments (f.path (joined dirs last)) = "" :: (f.root ++ (dirs ++ [f.fileName last])) := by
    unfold path
    rw [fileName_joined, Path.segments_join_of_relative _ relative, Path.wayTo_ofLocation root, parts]
    rfl
  have absolute : Path.isAbsolute (f.path (joined dirs last)) = true := by
    unfold path
    rw [fileName_joined, Path.isAbsolute_join_of_relative _ relative]
    simp [Path.isAbsolute, Path.ofLocation]
  have some : ¬ (f.path (joined dirs last)).isEmpty = true := by
    intro empty
    rw [String.isEmpty_iff.mp empty] at absolute
    cases absolute
  have nul : (f.path (joined dirs last)).toList.contains '\x00' = true ↔ '\x00' ∈ (f.fileName last).toList := by
    rw [List.contains_iff_mem, ← Path.mem_segments (by decide), way]
    constructor
    · rintro ⟨part, mem, inside⟩
      rcases List.mem_cons.mp mem with rfl | mem
      · cases inside
      rcases List.mem_append.mp mem with mem | mem
      · exact absurd inside (root part mem).noNul
      rcases List.mem_append.mp mem with mem | mem
      · exact absurd inside (plain part mem).noNul
      · rw [← List.mem_singleton.mp mem]
        exact inside
    · intro inside
      exact ⟨_, by simp, inside⟩
  unfold Disk.resolve Disk.start
  rw [if_neg some, if_pos absolute, way]
  simp only [nul]
  rfl

theorem fileName_ne_empty (full : last ≠ "") : f.fileName last ≠ "" := by
  unfold fileName
  split
  · exact full
  · simp

theorem Has.resolve (tree : d.IsTree) (has : f.Has d dirs last) :
    d.resolve (f.path (joined dirs last)) = .ok (f.root ++ (dirs ++ [f.fileName last])) := by
  obtain ⟨root, plain, file, -⟩ := has.plain tree
  obtain ⟨-, content, t, found⟩ := has
  rw [resolve_path root plain file.proper.1 file.noSlash, if_neg file.noNul]
  exact tree.walk_there (by rw [List.nil_append, found]; rfl)

/-- What is there is found. -/
theorem Has.locate (tree : d.IsTree) (has : f.Has d dirs last) :
    f.locate (joined dirs last) d = .ok (Path.ofLocation (f.root ++ (dirs ++ [f.fileName last]))) := by
  have resolved := has.resolve tree
  obtain ⟨-, content, t, found⟩ := has
  have inside : f.root.isPrefixOf (f.root ++ (dirs ++ [f.fileName last])) = true :=
    List.isPrefixOf_iff_prefix.mpr (List.prefix_append _ _)
  unfold FolderSources.locate
  rw [resolved]
  simp [inside, found]

/-- Nothing else is found, as long as the extension has no slash. -/
theorem LeadsToFile.has (tree : d.IsTree) (root : d.IsFolder f.root) (splits : f.Splits)
    (plain : ∀ part ∈ dirs, PlainFile part) (full : last ≠ "") (noSlash : '/' ∉ last.toList)
    (leads : f.LeadsToFile d (joined dirs last)) : f.Has d dirs last := by
  have below : ∀ part ∈ f.root, PlainFile part := by
    obtain ⟨t, folder⟩ := Disk.isFolder_iff.mp root
    exact fun part mem => (tree.plain (by rw [folder]; rfl) part mem).1
  have flat : '/' ∉ (f.fileName last).toList := by
    unfold fileName
    split
    · exact noSlash
    · simp [noSlash, splits.2]
  obtain ⟨l, content, t, resolved, found⟩ := leads
  rw [resolve_path below plain (fileName_ne_empty full) flat] at resolved
  split at resolved
  · cases resolved
  rw [← List.append_assoc] at resolved
  have down := tree.walk_to_file (List.forall_mem_append.mpr ⟨below, plain⟩) resolved found
  rw [List.nil_append, List.append_assoc] at down
  exact ⟨full, content, t, down ▸ found⟩

theorem Has.loadable (tree : d.IsTree) (has : f.Has d dirs last) : f.Loadable d (joined dirs last) := by
  obtain ⟨-, plain, -, noSlash⟩ := has.plain tree
  obtain ⟨content, t, found⟩ := has.2
  exact ⟨dirs, last, rfl, plain, has.1, noSlash, _, content, t, has.resolve tree, found⟩

theorem loadable_iff (tree : d.IsTree) (root : d.IsFolder f.root) (splits : f.Splits) :
    f.Loadable d n ↔ ∃ dirs last, n = joined dirs last ∧ f.Has d dirs last := by
  constructor
  · rintro ⟨dirs, last, rfl, plain, full, noSlash, leads⟩
    exact ⟨dirs, last, rfl, leads.has tree root splits plain full noSlash⟩
  · rintro ⟨dirs, last, rfl, has⟩
    exact has.loadable tree

/-! #### Listing -/

/-- The name under which a file below the folder is listed. -/
theorem nameOf?_eq_some_iff (tree : d.IsTree) (root : d.IsFolder f.root) (mem : m ∈ d.filesWithin f.root) :
    f.nameOf? m = some n ↔ f.Splits ∧ ∃ dirs last, m = f.root ++ (dirs ++ [f.fileName last]) ∧ f.Has d dirs last ∧
      n = joined dirs (lastPart last) := by
  obtain ⟨⟨content, t, found⟩, below, rfl⟩ := tree.mem_filesWithin_iff.mp mem
  have some : below ≠ [] := by
    rintro rfl
    obtain ⟨t, folder⟩ := Disk.isFolder_iff.mp root
    rw [List.append_nil] at found
    cases folder.symm.trans found
  obtain ⟨dirs, file, rfl⟩ := (List.eq_nil_or_concat below).resolve_left some
  have plain : PlainFile file := (tree.plain (by rw [found]; rfl) file (by simp)).1
  unfold nameOf?
  simp only [List.drop_left, List.concat_eq_append, List.getLast?_concat, List.dropLast_concat]
  rw [Option.map_eq_some_iff]
  constructor
  · rintro ⟨stem, listed, rfl⟩
    obtain ⟨splits, full, rfl⟩ := (stem?_eq_some_iff plain).mp listed
    exact ⟨splits, dirs, stem, rfl, ⟨full, content, t, by simpa using found⟩, rfl⟩
  · rintro ⟨splits, dirs', last, same, has, rfl⟩
    have parts := List.append_cancel_left same
    obtain rfl := List.append_inj_left' parts rfl
    have named := List.singleton_inj.mp (List.append_inj_right' parts rfl)
    exact ⟨last, (stem?_eq_some_iff plain).mpr ⟨splits, has.1, named⟩, rfl⟩

theorem mem_names (tree : d.IsTree) (root : d.IsFolder f.root) :
    n ∈ f.names d ↔ f.Splits ∧ ∃ dirs last, f.Has d dirs last ∧ n = joined dirs (lastPart last) := by
  unfold names
  rw [List.mem_mergeSort, List.mem_filterMap]
  constructor
  · rintro ⟨m, mem, listed⟩
    obtain ⟨splits, dirs, last, -, has, named⟩ := (nameOf?_eq_some_iff tree root mem).mp listed
    exact ⟨splits, dirs, last, has, named⟩
  · rintro ⟨splits, dirs, last, has, named⟩
    have mem : f.root ++ (dirs ++ [f.fileName last]) ∈ d.filesWithin f.root :=
      tree.mem_filesWithin_iff.mpr ⟨has.2, List.prefix_append _ _⟩
    exact ⟨_, mem, (nameOf?_eq_some_iff tree root mem).mpr ⟨splits, dirs, last, rfl, has, named⟩⟩

/-- With a dot or a slash of its own in the extension, nothing is listed. -/
theorem names_eq_nil (tree : d.IsTree) (root : d.IsFolder f.root) (unsplit : ¬ f.Splits) : f.names d = [] := by
  rw [List.eq_nil_iff_forall_not_mem]
  exact fun n listed => unsplit ((mem_names tree root).mp listed).1

theorem names_sorted (f : FolderSources) (d : Disk) : (f.names d).Pairwise (· ≤ ·) := by
  have upTo (a b : String) : (!decide (b < a)) = true ↔ a ≤ b := by
    rw [Bool.not_eq_true', decide_eq_false_iff_not, String.not_lt]
  unfold names
  refine (List.pairwise_mergeSort ?_ ?_ _).imp fun {a b} => (upTo a b).mp
  · intro a b c
    rw [upTo, upTo, upTo]
    exact String.le_trans
  · intro a b
    rw [Bool.or_eq_true, upTo, upTo]
    exact String.le_total a b

/-- What can be loaded but is not listed under its name: anything if the extension has a dot or a slash of its own, and
files that are called by a single dot and the extension. -/
def Overlooks (f : FolderSources) (d : Disk) (n : String) : Prop :=
  f.Loadable d n ∧ (¬ f.Splits ∨ ∃ dirs, (∀ part ∈ dirs, PlainFile part) ∧ n = joined dirs ".")

theorem lastPart_of_ne (other : stem ≠ ".") : lastPart stem = stem := if_neg other

theorem lastPart_ne_dot (stem : String) : lastPart stem ≠ "." := by
  unfold lastPart
  split
  · decide
  · assumption

theorem Overlooks.not_listed (tree : d.IsTree) (root : d.IsFolder f.root) (overlooked : f.Overlooks d n) :
    n ∉ f.names d := by
  intro listed
  obtain ⟨splits, dirs, last, has, named⟩ := (mem_names tree root).mp listed
  obtain ⟨-, unsplit | ⟨dirs', plain', single⟩⟩ := overlooked
  · exact unsplit splits
  · obtain ⟨-, plain, -, noSlash⟩ := has.plain tree
    have flat : '/' ∉ (lastPart last).toList := by
      unfold lastPart
      split
      · decide
      · exact noSlash
    exact lastPart_ne_dot last (joined_inj plain flat plain' (by decide) (named.symm.trans single)).2

/-- The files that are called by a single dot and the extension are taken for others. -/
theorem listed_cases (tree : d.IsTree) (root : d.IsFolder f.root) (listed : n ∈ f.names d) :
    (∃ dirs last, f.Has d dirs last ∧ n = joined dirs last) ∨
      ∃ dirs, n = joined dirs ".." ∧ f.Overlooks d (joined dirs ".") := by
  obtain ⟨-, dirs, last, has, rfl⟩ := (mem_names tree root).mp listed
  by_cases dot : last = "."
  · subst dot
    exact .inr ⟨dirs, rfl, has.loadable tree, .inr ⟨dirs, (has.plain tree).2.1, rfl⟩⟩
  · exact .inl ⟨dirs, last, has, by rw [lastPart_of_ne dot]⟩

/-- If nothing is overlooked, no last part is a single dot. -/
theorem Has.ne_dot (tree : d.IsTree) (all : ∀ n, ¬ f.Overlooks d n) (has : f.Has d dirs last) : last ≠ "." := by
  rintro rfl
  exact all _ ⟨has.loadable tree, .inr ⟨dirs, (has.plain tree).2.1, rfl⟩⟩

theorem names_nodup (tree : d.IsTree) (root : d.IsFolder f.root) (all : ∀ n, ¬ f.Overlooks d n) :
    (f.names d).Nodup := by
  have apart : ((d.filesWithin f.root).filterMap f.nameOf?).Nodup := by
    rw [List.Nodup, List.pairwise_filterMap]
    refine List.Pairwise.imp_of_mem ?_ tree.nodup_filesWithin
    rintro m m' mem mem' other n listed n' listed' rfl
    obtain ⟨-, dirs, last, rfl, has, named⟩ := (nameOf?_eq_some_iff tree root mem).mp listed
    obtain ⟨-, dirs', last', rfl, has', named'⟩ := (nameOf?_eq_some_iff tree root mem').mp listed'
    rw [lastPart_of_ne (has.ne_dot tree all)] at named
    rw [lastPart_of_ne (has'.ne_dot tree all)] at named'
    obtain ⟨-, plain, -, noSlash⟩ := has.plain tree
    obtain ⟨-, plain', -, noSlash'⟩ := has'.plain tree
    obtain ⟨rfl, rfl⟩ := joined_inj plain noSlash plain' noSlash' (named.symm.trans named')
    exact other rfl
  exact (List.mergeSort_perm _ _).nodup_iff.mpr apart

theorem mem_names_iff_loadable (tree : d.IsTree) (root : d.IsFolder f.root) (all : ∀ n, ¬ f.Overlooks d n) :
    n ∈ f.names d ↔ f.Loadable d n := by
  constructor
  · intro listed
    rcases listed_cases tree root listed with ⟨dirs, last, has, rfl⟩ | ⟨dirs, -, overlooked⟩
    · exact has.loadable tree
    · exact absurd overlooked (all _)
  · intro loadable
    have splits : f.Splits := by
      by_contra unsplit
      exact all n ⟨loadable, .inl unsplit⟩
    obtain ⟨dirs, last, named, has⟩ := (loadable_iff tree root splits).mp loadable
    refine (mem_names tree root).mpr ⟨splits, dirs, last, has, ?_⟩
    rw [lastPart_of_ne (has.ne_dot tree all)]
    exact named

/-- Nothing is overlooked where no file is called by a single dot and an extension without a dot or a slash. -/
theorem not_overlooks (tree : d.IsTree) (root : d.IsFolder f.root) (splits : f.Splits)
    (others : ∀ e ∈ d.entries, e.1.getLast? ≠ some (f.fileName ".")) (n : String) : ¬ f.Overlooks d n := by
  rintro ⟨loadable, unsplit | ⟨dirs', plain', single⟩⟩
  · exact unsplit splits
  · obtain ⟨dirs, last, named, has⟩ := (loadable_iff tree root splits).mp loadable
    obtain ⟨-, plain, -, noSlash⟩ := has.plain tree
    obtain ⟨-, rfl⟩ := joined_inj plain noSlash plain' (by decide) (named.symm.trans single)
    obtain ⟨-, content, t, found⟩ := has
    refine others _ (tree.find?_file_iff.mp found) ?_
    rw [← List.append_assoc, List.getLast?_concat]

/-- The library of a folder lists its names in order, and it lists exactly what can be loaded, each name once, if and
only if it overlooks nothing. What is listed can be found, but for the names of files that stand where others were
overlooked; and compiling ahead sees to what is listed, one name after the other. -/
theorem lists_what_it_loads (f : FolderSources) (d : Disk) (tree : d.IsTree) (root : d.IsFolder f.root) :
    (f.names d).Pairwise (· ≤ ·) ∧
    ((∀ n, ¬ f.Overlooks d n) ↔ (f.names d).Nodup ∧ ∀ n, n ∈ f.names d ↔ f.Loadable d n) ∧
    (∀ n ∈ f.names d, (∃ identity, f.locate n d = .ok identity) ∨
      ∃ dirs, n = joined dirs ".." ∧ f.Overlooks d (joined dirs ".")) ∧
    ∀ (r : Renderer World) (s s' : Workbench World) (count : Nat), r.library = (LibraryPlace.folder f).library →
      s.world.disk = d →
      (r.precompile s = (.ok count, s') ↔ count = (f.names d).length ∧ r.SeesTo (f.names d) s s') := by
  refine ⟨names_sorted f d, ⟨fun all => ?_, fun exact n overlooked => ?_⟩, fun n listed => ?_, ?_⟩
  · exact ⟨names_nodup tree root all, fun n => mem_names_iff_loadable tree root all⟩
  · exact overlooked.not_listed tree root ((exact.2 n).mpr overlooked.1)
  · refine (listed_cases tree root listed).imp_left ?_
    rintro ⟨dirs, last, has, rfl⟩
    exact ⟨_, has.locate tree⟩
  · intro r s s' count library disk
    refine Renderer.precompile_ok_iff ?_
    rw [library, ← disk]
    rfl

/-- A folder of pages and mails, with files that are no templates. -/
def mailFolder : Disk where
  entries := [(["t"], .folder 0), (["t", "mail"], .folder 1), (["t", "mail", "a.b.tpl"], .file (.text "A") 2),
    (["t", "page.tpl"], .file (.text "P") 3), (["t", "readme.md"], .file (.text "R") 4),
    (["t", ".tpl"], .file (.text "N") 5)]
  current := []
  clock := 6

theorem mail_folder_is_listed :
    let f : FolderSources := ⟨["t"], "tpl"⟩
    let opened := Renderer.openWith (.folder f) .memory (World.ofDisk mailFolder)
    mailFolder.IsTree ∧ mailFolder.IsFolder f.root ∧ (∀ n, ¬ f.Overlooks mailFolder n) ∧
      f.names mailFolder = ["mail/a.b", "page"] ∧ (∀ n, f.Loadable mailFolder n ↔ n = "mail/a.b" ∨ n = "page") ∧
      ∃ t, opened.1.precompile ⟨opened.2, 0⟩ = (.ok 2, t) := by
  intro f opened
  have tree : mailFolder.IsTree := ⟨by decide, by decide, Disk.rooted_of_entries (by decide), by decide⟩
  have root : mailFolder.IsFolder f.root := by decide
  have all := not_overlooks (f := f) tree root (by decide) (by decide)
  have names : f.names mailFolder = ["mail/a.b", "page"] := by
    have found : (mailFolder.filesWithin f.root).filterMap f.nameOf? = ["mail/a.b", "page"] := by decide
    rw [FolderSources.names, found]
    exact List.mergeSort_of_pairwise (by decide)
  obtain ⟨-, listed, -, compiled⟩ := lists_what_it_loads f mailFolder tree root
  refine ⟨tree, root, all, names, fun n => ?_, ?_⟩
  · rw [← (listed.mp all).2 n, names]
    simp
  · let s : Workbench World := ⟨opened.2, 0⟩
    let t := (opened.1.ensure "mail/a.b" s).2
    have ok {x : Except TemplateError Unit × Workbench World} (succeeds : x.1.toOption = some ()) :
        x = (.ok (), x.2) := by
      obtain ⟨e | u, t⟩ := x
      · cases succeeds
      · rfl
    have both : (opened.1.ensure "mail/a.b" s).1.toOption = some () ∧
        (opened.1.ensure "page" t).1.toOption = some () := by decide +kernel
    refine ⟨(opened.1.ensure "page" t).2, (compiled opened.1 s _ 2 rfl rfl).mpr ⟨by rw [names]; rfl, ?_⟩⟩
    rw [names]
    exact .cons (ok both.1) (.cons (ok both.2) (.nil _))

end FolderSources

end Stencil
