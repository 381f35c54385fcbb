import Mathlib.Data.List.Induction
import Stencil.Proofs.Disk.Held
import Stencil.Proofs.Disk.Paths

/-!
Disks that are trees: everything is there once and stands in a folder, and all names stand for themselves. There every
file is reached by the parts of its location, and in no other way that does not pass through a dot.
-/
namespace Stencil.Disk

open Stencil.Path (PlainFile)

/-- A tree of files and folders. -/
structure IsTree (d : Disk) : Prop where
  once : (d.entries.map (·.1)).Nodup
  /-- The top is always there and is no entry. -/
  below : ∀ e ∈ d.entries, e.1 ≠ []
  rooted : d.Rooted
  named : ∀ e ∈ d.entries, ∀ part ∈ e.1, PlainFile part ∧ part.utf8ByteSize ≤ longestName

variable {d : Disk} {l m : Location} {part : String} {parts : List String} {content : FileContent} {t : Int}

theorem mem_of_lookup {entries : List (Location × DiskEntry)} {e : DiskEntry} (found : entries.lookup l = some e) :
    (l, e) ∈ entries := by
  obtain ⟨before, after, rfl, -⟩ := List.lookup_eq_some_iff.mp found
  exact List.mem_append_right _ List.mem_cons_self

theorem lookup_of_mem {entries : List (Location × DiskEntry)} {e : DiskEntry} (once : (entries.map (·.1)).Nodup)
    (mem : (l, e) ∈ entries) : entries.lookup l = some e := by
  induction entries with
  | nil => cases mem
  | cons first entries ih =>
    obtain ⟨new, once⟩ := List.nodup_cons.mp once
    rcases List.mem_cons.mp mem with rfl | mem
    · exact List.lookup_cons_self
    · have other : (l == first.1) = false := by
        rw [beq_eq_false_iff_ne]
        rintro rfl
        exact new (List.mem_map_of_mem (f := (·.1)) mem)
      rw [List.lookup_cons, other]
      exact ih once mem

theorem rooted_of_entries (stand : ∀ e ∈ d.entries, d.IsFolder e.1.dropLast) : d.Rooted := by
  intro l part there
  rw [held?_isSome, find?_of_ne_nil d (by simp)] at there
  obtain ⟨e, found⟩ := Option.isSome_iff_exists.mp there
  simpa using stand _ (mem_of_lookup found)

instance : Decidable (d.IsFolder l) := inferInstanceAs (Decidable (_ = _))

namespace IsTree

variable (tree : d.IsTree)
include tree

theorem find?_file_iff : d.find? l = some (.file content t) ↔ (l, .file content t) ∈ d.entries := by
  constructor
  · intro found
    cases l with
    | nil => cases found
    | cons first l => exact mem_of_lookup found
  · intro mem
    rw [find?_of_ne_nil d (tree.below _ mem)]
    exact lookup_of_mem tree.once mem

/-- What is there has a proper name, and so have all folders on its way. -/
theorem plain (there : (d.find? l).isSome = true) : ∀ part ∈ l, PlainFile part ∧ part.utf8ByteSize ≤ longestName := by
  cases l with
  | nil => simp
  | cons first l =>
    obtain ⟨e, found⟩ := Option.isSome_iff_exists.mp there
    exact tree.named _ (mem_of_lookup found)

/-- There are folders all the way. -/
theorem isFolder_above (there : (d.find? (l ++ part :: parts)).isSome = true) : d.IsFolder l := by
  induction parts using List.reverseRecOn with
  | nil =>
    rw [← held?_isSome] at there
    exact tree.rooted l part there
  | append_singleton parts last ih =>
    apply ih
    rw [← held?_isSome, ← List.cons_append, ← List.append_assoc] at there
    rw [← held?_isSome, tree.rooted _ last there]
    rfl

theorem isFolder_dropLast (stands : d.IsFolder l) : d.IsFolder l.dropLast := by
  induction l using List.reverseRecOn with
  | nil => exact stands
  | append_singleton l last _ =>
    rw [List.dropLast_concat]
    apply tree.rooted l last
    rw [stands]
    rfl

/-- What is there is reached by its location. -/
theorem walk_there (there : (d.find? (l ++ parts)).isSome = true) : d.walk l parts = .ok (l ++ parts) := by
  induction parts generalizing l with
  | nil =>
    rw [List.append_nil]
    rfl
  | cons part parts ih =>
    obtain ⟨t, stands⟩ := isFolder_iff.mp (tree.isFolder_above there)
    have onward : (d.find? (l ++ [part] ++ parts)).isSome = true := by
      rw [List.append_assoc]
      exact there
    have next : (d.find? (l ++ [part])).isSome = true := by
      cases parts with
      | nil => exact there
      | cons second parts =>
        obtain ⟨t, found⟩ := isFolder_iff.mp (tree.isFolder_above onward)
        rw [found]
        rfl
    obtain ⟨proper, short⟩ := tree.plain there part (by simp)
    have step : d.step l part = .ok (l ++ [part]) := by
      unfold Disk.step
      rw [stands]
      dsimp only
      rw [if_neg (by simp [proper.proper]), if_neg proper.proper.2.2, if_neg (by omega), if_pos next]
    rw [walk, step]
    dsimp only
    rw [ih onward, List.append_assoc]
    rfl

/-- A step to a file goes down. -/
theorem step_to_file (step : d.step l part = .ok m) (found : d.find? m = some (.file content t)) : m = l ++ [part] := by
  have other {k : Location} (stands : d.IsFolder k) : m ≠ k := by
    rintro rfl
    obtain ⟨t, folder⟩ := isFolder_iff.mp stands
    cases folder.symm.trans found
  obtain ⟨stands, -⟩ := step_ok step
  obtain ⟨t, folder⟩ := isFolder_iff.mp stands
  unfold Disk.step at step
  rw [folder] at step
  dsimp only at step
  split at step
  · cases step
    exact absurd rfl (other stands)
  · split at step
    · cases step
      exact absurd rfl (other (tree.isFolder_dropLast stands))
    · split at step
      · cases step
      · split at step
        · cases step
          rfl
        · cases step

end IsTree

/-- A way through proper names goes down. -/
theorem walk_down (plain : ∀ part ∈ parts, PlainFile part) (walk : d.walk l parts = .ok m) : m = l ++ parts := by
  induction parts generalizing l with
  | nil =>
    cases walk
    rw [List.append_nil]
  | cons part parts ih =>
    obtain ⟨here, there⟩ := List.forall_mem_cons.mp plain
    rw [Disk.walk] at walk
    cases step : d.step l part with
    | error e =>
      rw [step] at walk
      cases walk
    | ok k =>
      rw [step] at walk
      have down : k = l ++ [part] :=
        (((step_ok step).2.resolve_left here.proper.1).resolve_left here.proper.2.1).resolve_left here.proper.2.2
      rw [ih there walk, down, List.append_assoc]
      rfl

/-- A way to a file ends in its name. -/
theorem IsTree.walk_to_file (tree : d.IsTree) (plain : ∀ part ∈ parts, PlainFile part)
    (walk : d.walk l (parts ++ [part]) = .ok m) (found : d.find? m = some (.file content t)) :
    m = l ++ (parts ++ [part]) := by
  rw [walk_append] at walk
  cases way : d.walk l parts with
  | error e =>
    rw [way] at walk
    cases walk
  | ok k =>
    rw [way] at walk
    dsimp only [Disk.walk] at walk
    cases step : d.step k part with
    | error e =>
      rw [step] at walk
      cases walk
    | ok j =>
      rw [step] at walk
      cases walk
      rw [tree.step_to_file step found, walk_down plain way, List.append_assoc]

/-! #### Files below a folder -/

theorem mem_filesWithin : m ∈ d.filesWithin l ↔ (∃ content t, (m, .file content t) ∈ d.entries) ∧ l <+: m := by
  unfold filesWithin
  rw [List.mem_filterMap]
  constructor
  · rintro ⟨⟨k, e⟩, mem, listed⟩
    cases e with
    | folder t => cases listed
    | file content t =>
      dsimp only at listed
      split at listed
      · rename_i inside
        cases listed
        exact ⟨⟨content, t, mem⟩, List.isPrefixOf_iff_prefix.mp inside⟩
      · cases listed
  · rintro ⟨⟨content, t, mem⟩, inside⟩
    exact ⟨_, mem, if_pos (List.isPrefixOf_iff_prefix.mpr inside)⟩

theorem IsTree.mem_filesWithin_iff (tree : d.IsTree) :
    m ∈ d.filesWithin l ↔ (∃ content t, d.find? m = some (.file content t)) ∧ l <+: m := by
  simp only [mem_filesWithin, tree.find?_file_iff]

/-- Every file is met once. -/
theorem IsTree.nodup_filesWithin (tree : d.IsTree) : (d.filesWithin l).Nodup := by
  have apart : d.entries.Pairwise fun e e' => e.1 ≠ e'.1 := List.pairwise_map.mp tree.once
  unfold filesWithin
  rw [List.Nodup, List.pairwise_filterMap]
  refine apart.imp ?_
  rintro ⟨k, e⟩ ⟨k', e'⟩ other m listed m' listed'
  cases e with
  | folder t => cases listed
  | file content t =>
    cases e' with
    | folder t' => cases listed'
    | file content' t' =>
      dsimp only at listed listed'
      split at listed
      · split at listed'
        · cases listed
          cases listed'
          exact other
        · cases listed'
      · cases listed

end Stencil.Disk
