import Stencil.Proofs.Cache.SharedFolder

/-!
Caches that share a folder and work at the same time. An artifact and the information about it are two files, and a
store writes them one after the other, as a load reads them. Between any two of these steps the other caches may do
what they like. Two things go wrong then: a store writes its information beside the artifact of another store, which
nothing corrects, or a load keeps an artifact with the information of another. Whatever else happens, an artifact
that is called fresh was made from the sources on record.
-/
namespace Stencil

open Stencil.Path (PlainFile)

/-- A file that can be read can be written. -/
theorem Disk.write_ok_of_read {d : Disk} {dir file s : String} (plain : PlainFile file) (content : FileContent)
    (read : d.read (Path.join dir file) = .ok s) : ∃ d', d.write (Path.join dir file) content = .ok d' := by
  unfold Disk.read at read
  cases located : d.locate (Path.join dir file) with
  | error e =>
    rw [located] at read
    cases read
  | ok m =>
    rw [located] at read
    dsimp only at read
    unfold Disk.locate Disk.resolve at located
    split at located
    · cases located
    rename_i short
    split at located
    · cases located
    rename_i full
    split at located
    · cases located
    rename_i clean
    rw [Path.segments_join dir plain.noSlash, walk_append] at located
    cases reached : d.walk (d.start (Path.join dir file)) (Path.wayTo dir) with
    | error e =>
      rw [reached] at located
      cases located
    | ok l =>
      have last : d.step l file = .ok m := by
        rw [← walk_last reached, walk_append, reached]
        rw [reached] at located
        exact located
      have stands := (step_ok last).1
      rw [step_file stands plain] at last
      split at last
      · cases last
      rename_i small
      split at last
      · cases last
        have parent : d.parent (Path.join dir file) = .ok (l, file) := by
          unfold Disk.parent
          rw [if_neg short, if_neg full, if_neg clean, Path.segments_join dir plain.noSlash]
          dsimp only
          rw [List.dropLast_concat, reached]
          simp
        have free : ¬ d.IsFolder (l ++ [file]) := by
          intro taken
          obtain ⟨t, here⟩ := isFolder_iff.mp taken
          unfold Disk.readAt at read
          rw [here] at read
          cases read
        obtain ⟨d', written, -⟩ := d.write_file content parent stands plain.proper (by omega) free
        exact ⟨d', written⟩
      · cases last

namespace FolderCache

/-- What an operation on a name has yet to do. -/
inductive Task where
  | makeDir (artifact : String) (dependencies : List Dependency)
  | writeArtifact (artifact : String) (dependencies : List Dependency)
  | writeInfo (artifact : String) (dependencies : List Dependency)
  | check
  | readArtifact
  | readInfo (artifact : String)

inductive Progress where
  | going (task : Task)
  | stored (r : Except TemplateError Unit)
  | loaded (r : Except TemplateError Program)

inductive Operation where
  | store (artifact : String) (dependencies : List Dependency)
  | load

/-- An operation before its first step on the disk: a store makes its copy in memory. -/
def begin (name : String) : Operation → FolderCacheState → Progress × FolderCacheState
  | .store artifact dependencies, s =>
    match CacheEntry.make name artifact dependencies with
    | .error e => (.stored (.error e), s)
    | .ok entry => (.going (.makeDir artifact dependencies), { s with copies := Keyed.put name entry s.copies })
  | .load, s => (.going .check, s)

/-- One step on the disk, with what is done in memory around it. -/
def Task.step (c : FolderCache) (name : String) : Task → FolderCacheState → Progress × FolderCacheState
  | makeDir artifact dependencies, s =>
    match c.makeDir s.disk with
    | .ok d => (.going (.writeArtifact artifact dependencies), { s with disk := d })
    | .error e => (.stored (.error (.io e)), s)
  | writeArtifact artifact dependencies, s =>
    match c.writeArtifact name artifact s.disk with
    | .ok d => (.going (.writeInfo artifact dependencies), { s with disk := d })
    | .error e => (.stored (.error (.io e)), s)
  | writeInfo _ dependencies, s =>
    match c.writeInfo name dependencies s.disk with
    | .ok d => (.stored (.ok ()), { s with disk := d })
    | .error e => (.stored (.error (.io e)), s)
  | check, s =>
    match c.copy? name s with
    | (some copy, s) => (.loaded (.ok copy.program), s)
    | (none, s) => (.going .readArtifact, s)
  | readArtifact, s =>
    match c.readArtifact name s.disk with
    | none => (.loaded (.error (.artifactMissing name)), s)
    | some artifact => (.going (.readInfo artifact), s)
  | readInfo artifact, s =>
    match CacheEntry.make name artifact (((c.readInfo name s.disk).map (·.dependencies)).getD []) with
    | .error e => (.loaded (.error e), s)
    | .ok entry => (.loaded (.ok entry.program), { s with copies := Keyed.put name entry s.copies })

def Progress.step (c : FolderCache) (name : String) : Progress × FolderCacheState → Progress × FolderCacheState
  | (going task, s) => task.step c name s
  | (p, s) => (p, s)

variable {c : FolderCache} {name artifact : String} {dependencies : List Dependency} {d d' : Disk}
  {s : FolderCacheState}

/-- A store whose steps are left alone is a store. -/
theorem store_eq_steps (c : FolderCache) (name artifact : String) (dependencies : List Dependency)
    (s : FolderCacheState) : (Progress.step c name)^[3] (begin name (.store artifact dependencies) s) =
      (.stored (c.store name artifact dependencies s).1, (c.store name artifact dependencies s).2) := by
  rw [Function.iterate_succ_apply, Function.iterate_succ_apply, Function.iterate_succ_apply, Function.iterate_zero, id]
  unfold begin store
  dsimp only
  cases CacheEntry.make name artifact dependencies with
  | error e => rfl
  | ok entry =>
    dsimp only [Progress.step, Task.step]
    unfold persist
    cases folder : c.makeDir s.disk with
    | error e =>
      dsimp only [Progress.step]
      rw [inTurn, folder]
    | ok d₁ =>
      dsimp only [Progress.step, Task.step]
      rw [inTurn, folder]
      dsimp only
      cases written : c.writeArtifact name artifact d₁ with
      | error e =>
        dsimp only [Progress.step]
        rw [inTurn, written]
      | ok d₂ =>
        dsimp only [Progress.step, Task.step]
        rw [inTurn, written]
        dsimp only
        cases informed : c.writeInfo name dependencies d₂ with
        | error e =>
          dsimp only [Progress.step]
          rw [inTurn, informed]
        | ok d₃ =>
          dsimp only [Progress.step]
          rw [inTurn, informed]
          rfl

/-- A load whose steps are left alone is a load. -/
theorem load_eq_steps (c : FolderCache) (name : String) (s : FolderCacheState) :
    (Progress.step c name)^[3] (begin name .load s) = (.loaded (c.load name s).1, (c.load name s).2) := by
  rw [Function.iterate_succ_apply, Function.iterate_succ_apply, Function.iterate_succ_apply, Function.iterate_zero, id]
  unfold begin load
  dsimp only [Progress.step, Task.step]
  rcases c.copy? name s with ⟨_ | copy, s'⟩
  · dsimp only [Progress.step, Task.step]
    unfold loadFromDisk
    cases c.readArtifact name s'.disk with
    | none => rfl
    | some artifact =>
      dsimp only [Progress.step, Task.step]
      cases CacheEntry.make name artifact (((c.readInfo name s'.disk).map (·.dependencies)).getD []) <;> rfl
  · rfl

/-! ### Traffic -/

/-- The caches of a folder, and the operations on a name that they have begun. -/
structure Traffic where
  world : World
  tasks : List (Nat × Task)

inductive Move where
  | opening
  | edit (e : Edit)
  | start (cache : Nat) (operation : Operation)
  /-- A step of the task of this number. -/
  | advance (number : Nat)

/-- The tasks that are left when one has made progress. -/
def Progress.remaining (n : Nat) (others : List (Nat × Task)) : Progress → List (Nat × Task)
  | going task => others ++ [(n, task)]
  | _ => others

def Move.make (c : FolderCache) (name : String) : Move → Traffic → Traffic
  | opening, t => { t with world := t.world.addShelf.2 }
  | edit e, t => { t with world := { t.world with sources := e.make t.world.sources } }
  | start n operation, t =>
    let (p, s) := begin name operation ((World.folderCachePart n).get t.world)
    ⟨(World.folderCachePart n).set s t.world, p.remaining n t.tasks⟩
  | advance k, t =>
    match t.tasks[k]? with
    | none => t
    | some (n, task) =>
      let (p, s) := task.step c name ((World.folderCachePart n).get t.world)
      ⟨(World.folderCachePart n).set s t.world, p.remaining n (t.tasks.eraseIdx k)⟩

def Move.makeAll (c : FolderCache) (name : String) (moves : List Move) (t : Traffic) : Traffic :=
  moves.foldl (fun t move => move.make c name t) t

/-- Before there are any caches. -/
def Traffic.initial (disk : Disk) : Traffic := ⟨World.ofDisk disk, []⟩

/-- A store that has written its artifact, and not its information. -/
def Task.Halfway : Task → Prop
  | writeInfo _ _ => True
  | _ => False

section

variable (c : FolderCache) (name : String) (made : String → List Dependency → Prop)

/-- The sources on record are those that the artifact was made from. -/
def Agrees (d : Disk) : Prop :=
  ∀ info, c.readInfo name d = some info → info.dependencies ≠ [] ∧ ∃ artifact program,
    c.readArtifact name d = some artifact ∧ Program.parse name artifact = .ok program ∧ made artifact info.dependencies

/-- The folder can be used, and what an earlier process has left there agrees. -/
structure Prepared (disk : Disk) : Prop where
  agrees : c.Agrees name made disk
  folder : ∀ d, c.makeDir disk = .ok d → (∃ l, c.InPlace d l) ∧ c.Agrees name made d

/-- Whatever is stored was made from the sources it comes with. -/
def Move.Honest : Move → Prop
  | start _ (.store artifact dependencies) => made artifact dependencies ∧ dependencies ≠ []
  | _ => True

/-- A store is about to write its information beside the artifact of another, with no store halfway that would write
again. -/
def Task.Crosses (others : List (Nat × Task)) (d : Disk) : Task → Prop
  | writeInfo artifact _ => (∀ entry ∈ others, ¬ entry.2.Halfway) ∧ c.readArtifact name d ≠ some artifact
  | _ => False

/-- A load is about to take the information of another artifact for that of the one it has read. -/
def Task.Tears (d : Disk) : Task → Prop
  | readInfo artifact => ∃ info ∈ c.readInfo name d, ¬ made artifact info.dependencies
  | _ => False

/-- Two stores cross, or a load is torn. -/
def Move.Mixes (t : Traffic) : Move → Prop
  | advance k => ∃ entry ∈ t.tasks[k]?,
      entry.2.Crosses c name (t.tasks.eraseIdx k) t.world.disk ∨ entry.2.Tears c name made t.world.disk
  | _ => False

/-- What is stored is honest, no two stores cross, and no load is torn. -/
def Orderly : List Move → Traffic → Prop
  | [], _ => True
  | move :: moves, t => move.Honest made ∧ ¬ move.Mixes c name made t ∧ Orderly moves (move.make c name t)

/-- The copy is of an artifact that was made from what the copy says, or it says nothing. -/
def Trusted (copy : CacheEntry) : Prop :=
  Program.parse name copy.artifact = .ok copy.program ∧
    (copy.dependencies = [] ∨ made copy.artifact copy.dependencies)

/-- What a store has to write is a program, made from the sources it comes with. -/
def Task.Honest : Task → Prop
  | makeDir artifact dependencies | writeArtifact artifact dependencies | writeInfo artifact dependencies =>
    made artifact dependencies ∧ dependencies ≠ [] ∧ ∃ program, Program.parse name artifact = .ok program
  | _ => True

/-- What holds at every moment. -/
structure Coherent (disk : Disk) (t : Traffic) : Prop where
  folder : t.world.disk = disk ∨ ∃ l, c.InPlace t.world.disk l
  copies : ∀ n copy, Keyed.get? name (t.world.shelves.getD n []) = some copy → Trusted name made copy
  tasks : ∀ task ∈ t.tasks, task.2.Honest name made
  agrees : (∀ task ∈ t.tasks, ¬ task.2.Halfway) → c.Agrees name made t.world.disk

end

variable {made : String → List Dependency → Prop} {disk : Disk} {t : Traffic} {n k : Nat} {task : Task}

instance : (task : Task) → Decidable task.Halfway
  | .writeInfo .. => inferInstanceAs (Decidable True)
  | .makeDir .. | .writeArtifact .. | .check | .readArtifact | .readInfo _ => inferInstanceAs (Decidable False)

instance (others : List (Nat × Task)) : (task : Task) → Decidable (task.Crosses c name others d)
  | .writeInfo artifact _ =>
    inferInstanceAs (Decidable ((∀ entry ∈ others, ¬ entry.2.Halfway) ∧ c.readArtifact name d ≠ some artifact))
  | .makeDir .. | .writeArtifact .. | .check | .readArtifact | .readInfo _ => inferInstanceAs (Decidable False)

section

variable [∀ artifact dependencies, Decidable (made artifact dependencies)]

instance : (task : Task) → Decidable (task.Tears c name made d)
  | .readInfo artifact =>
    inferInstanceAs (Decidable (∃ info ∈ c.readInfo name d, ¬ made artifact info.dependencies))
  | .makeDir .. | .writeArtifact .. | .writeInfo .. | .check | .readArtifact => inferInstanceAs (Decidable False)

instance : (move : Move) → Decidable (move.Honest made)
  | .start _ (.store artifact dependencies) =>
    inferInstanceAs (Decidable (made artifact dependencies ∧ dependencies ≠ []))
  | .start _ .load | .opening | .edit _ | .advance _ => inferInstanceAs (Decidable True)

instance (t : Traffic) : (move : Move) → Decidable (move.Mixes c name made t)
  | .advance k => inferInstanceAs (Decidable (∃ entry ∈ t.tasks[k]?,
      entry.2.Crosses c name (t.tasks.eraseIdx k) t.world.disk ∨ entry.2.Tears c name made t.world.disk))
  | .start .. | .opening | .edit _ => inferInstanceAs (Decidable False)

instance decidableOrderly : (moves : List Move) → (t : Traffic) → Decidable (Orderly c name made moves t)
  | [], _ => inferInstanceAs (Decidable True)
  | move :: moves, t =>
    let _ := decidableOrderly moves (move.make c name t)
    inferInstanceAs (Decidable (move.Honest made ∧ ¬ move.Mixes c name made t ∧
      Orderly c name made moves (move.make c name t)))

end

theorem trusted_of_make {entry : CacheEntry} (entered : CacheEntry.make name artifact dependencies = .ok entry)
    (right : dependencies = [] ∨ made artifact dependencies) : Trusted name made entry := by
  obtain ⟨text, sources, parsed⟩ := CacheEntry.make_ok entered
  unfold Trusted
  rw [text, sources]
  exact ⟨parsed, right⟩

/-- The copies stay trusted when one cache puts one more on its shelf. -/
theorem trusted_set {w : World} {shelf : Shelf}
    (before : ∀ n copy, Keyed.get? name (w.shelves.getD n []) = some copy → Trusted name made copy)
    (now : ∀ copy, Keyed.get? name shelf = some copy → Trusted name made copy) (n m : Nat) (copy : CacheEntry)
    (held : Keyed.get? name ((w.shelves.set n shelf).getD m []) = some copy) : Trusted name made copy := by
  rcases World.getD_set_or w.shelves n m shelf with same | new
  · rw [same] at held
    exact before m copy held
  · rw [new] at held
    exact now copy held

theorem trusted_put {entry : CacheEntry} {shelf : Shelf} (trusted : Trusted name made entry) (copy : CacheEntry)
    (held : Keyed.get? name (Keyed.put name entry shelf) = some copy) : Trusted name made copy := by
  rw [Keyed.get?_put_self] at held
  cases held
  exact trusted

theorem agrees_of_unread (unread : c.readInfo name d = none) : c.Agrees name made d := by
  intro info read
  cases unread.symm.trans read

/-- Where information cannot be written, there is none to be read. -/
theorem readInfo_of_writeInfo_error {e : DiskFault} (failed : c.writeInfo name dependencies d = .error e) :
    c.readInfo name d = none := by
  unfold readInfo
  cases read : d.read (c.infoPath name) with
  | error e => rfl
  | ok s =>
    obtain ⟨d', written⟩ := Disk.write_ok_of_read (plain_infoFile name)
      (.text (CacheInfo.write ⟨compilerVersion, dependencies⟩)) read
    cases failed.symm.trans written

theorem mem_remaining {p : Progress} {others : List (Nat × Task)} {entry : Nat × Task}
    (mem : entry ∈ p.remaining n others) : entry ∈ others ∨ p = .going entry.2 := by
  cases p with
  | going task =>
    rcases List.mem_append.mp mem with old | new
    · exact .inl old
    · cases List.mem_singleton.mp new
      exact .inr rfl
  | stored r => exact .inl mem
  | loaded r => exact .inl mem

theorem remaining_of_mem {p : Progress} {others : List (Nat × Task)} {entry : Nat × Task} (mem : entry ∈ others) :
    entry ∈ p.remaining n others := by
  cases p with
  | going task => exact List.mem_append_left _ mem
  | stored r => exact mem
  | loaded r => exact mem

/-- One cache makes progress. -/
theorem Coherent.change (coherent : Coherent c name made disk t) {others : List (Nat × Task)} {p : Progress}
    (fewer : ∀ entry ∈ others, entry ∈ t.tasks) (folder : s.disk = disk ∨ ∃ l, c.InPlace s.disk l)
    (copies : ∀ copy, Keyed.get? name s.copies = some copy → Trusted name made copy)
    (honest : ∀ task, p = .going task → task.Honest name made)
    (agrees : (∀ entry ∈ p.remaining n others, ¬ entry.2.Halfway) → c.Agrees name made s.disk) :
    Coherent c name made disk ⟨(World.folderCachePart n).set s t.world, p.remaining n others⟩ := by
  constructor
  case folder => exact folder
  case copies => exact trusted_set coherent.copies copies n
  case tasks =>
    intro entry mem
    rcases mem_remaining mem with old | new
    · exact coherent.tasks entry (fewer entry old)
    · exact honest entry.2 new
  case agrees => exact agrees

theorem mem_eraseIdx_or {entry other : Nat × Task} {tasks : List (Nat × Task)} (found : tasks[k]? = some entry)
    (mem : other ∈ tasks) : other = entry ∨ other ∈ tasks.eraseIdx k := by
  obtain ⟨i, there⟩ := List.mem_iff_getElem?.mp mem
  by_cases same : i = k
  · subst same
    exact .inl (Option.some.inj (there.symm.trans found))
  · exact .inr (List.mem_eraseIdx_iff_getElem?.mpr ⟨i, same, there⟩)

section

variable (prepared : c.Prepared name made disk) (coherent : Coherent c name made disk t)

include coherent

theorem Coherent.start (operation : Operation) (honest : (Move.start n operation).Honest made) :
    Coherent c name made disk ((Move.start n operation).make c name t) := by
  have same : ∀ entry ∈ t.tasks, entry ∈ t.tasks := fun _ mem => mem
  have copies : ∀ copy, Keyed.get? name ((World.folderCachePart n).get t.world).copies = some copy →
      Trusted name made copy := coherent.copies n
  cases operation with
  | load =>
    refine coherent.change same coherent.folder copies ?_ fun none => coherent.agrees fun entry mem => ?_
    · intro task going
      cases going
      exact trivial
    · exact none entry (remaining_of_mem mem)
  | store artifact dependencies =>
    obtain ⟨right, sourced⟩ := honest
    unfold Move.make begin
    dsimp only
    cases entered : CacheEntry.make name artifact dependencies with
    | error e =>
      refine coherent.change same coherent.folder copies ?_ fun none => coherent.agrees fun entry mem => ?_
      · intro task going
        cases going
      · exact none entry (remaining_of_mem mem)
    | ok entry =>
      refine coherent.change same coherent.folder (trusted_put (trusted_of_make entered (.inr right))) ?_
        fun none => coherent.agrees fun entry mem => ?_
      · intro task going
        cases going
        exact ⟨right, sourced, entry.program, (CacheEntry.make_ok entered).2.2⟩
      · exact none entry (remaining_of_mem mem)

/-- Where no store is halfway after a step of another task, none was before. -/
theorem Coherent.agrees_before (found : t.tasks[k]? = some (n, task)) (apart : ¬ task.Halfway) {p : Progress}
    (none : ∀ entry ∈ p.remaining n (t.tasks.eraseIdx k), ¬ entry.2.Halfway) : c.Agrees name made t.world.disk := by
  refine coherent.agrees fun entry mem => ?_
  rcases mem_eraseIdx_or found mem with rfl | other
  · exact apart
  · exact none entry (remaining_of_mem other)

/-- A task has only read, and has found nothing that would be put on the shelf wrongly. -/
theorem Coherent.looked (found : t.tasks[k]? = some (n, task)) (apart : ¬ task.Halfway) {p : Progress}
    (honest : ∀ task, p = .going task → task.Honest name made) (same : s.disk = t.world.disk)
    (copies : ∀ copy, Keyed.get? name s.copies = some copy → Trusted name made copy) :
    Coherent c name made disk ⟨(World.folderCachePart n).set s t.world, p.remaining n (t.tasks.eraseIdx k)⟩ := by
  refine coherent.change (fun _ mem => List.mem_of_mem_eraseIdx mem) ?_ copies honest fun none => ?_
  · rw [same]
    exact coherent.folder
  · rw [same]
    exact coherent.agrees_before found apart none

theorem Coherent.makeDir (prepared : c.Prepared name made disk)
    (found : t.tasks[k]? = some (n, .makeDir artifact dependencies)) {p : Progress}
    (run : (Task.makeDir artifact dependencies).step c name ((World.folderCachePart n).get t.world) = (p, s)) :
    Coherent c name made disk ⟨(World.folderCachePart n).set s t.world, p.remaining n (t.tasks.eraseIdx k)⟩ := by
  have own : (Task.makeDir artifact dependencies).Honest name made := coherent.tasks _ (List.mem_of_getElem? found)
  unfold Task.step at run
  dsimp only at run
  split at run
  · rename_i d folder
    cases run
    have after : (∃ l, c.InPlace d l) ∧ (c.Agrees name made t.world.disk → c.Agrees name made d) := by
      rcases coherent.folder with first | ⟨l, stands⟩
      · rw [show ((World.folderCachePart n).get t.world).disk = disk from first] at folder
        obtain ⟨place, agrees⟩ := prepared.folder d folder
        exact ⟨place, fun _ => agrees⟩
      · cases stands.makeDir.symm.trans folder
        exact ⟨⟨l, stands⟩, id⟩
    refine coherent.change (fun _ mem => List.mem_of_mem_eraseIdx mem) (.inr after.1) (coherent.copies n) ?_ fun none =>
      after.2 (coherent.agrees_before found id none)
    intro task going
    cases going
    exact own
  · cases run
    exact coherent.looked found id (by rintro task ⟨⟩) rfl (coherent.copies n)

theorem Coherent.writeArtifact (found : t.tasks[k]? = some (n, .writeArtifact artifact dependencies)) {p : Progress}
    (run : (Task.writeArtifact artifact dependencies).step c name ((World.folderCachePart n).get t.world) = (p, s)) :
    Coherent c name made disk ⟨(World.folderCachePart n).set s t.world, p.remaining n (t.tasks.eraseIdx k)⟩ := by
  have own : (Task.writeArtifact artifact dependencies).Honest name made :=
    coherent.tasks _ (List.mem_of_getElem? found)
  unfold Task.step at run
  dsimp only at run
  split at run
  · rename_i d written
    cases run
    obtain ⟨l, -, inPlace, -⟩ := Disk.write_join (plain_artifactFile name) written
    refine coherent.change (fun _ mem => List.mem_of_mem_eraseIdx mem) (.inr ⟨l, inPlace⟩) (coherent.copies n) ?_ ?_
    · intro task going
      cases going
      exact own
    · intro none
      exact absurd trivial (none _ (List.mem_append_right _ (List.mem_singleton.mpr rfl)))
  · cases run
    exact coherent.looked found id (by rintro task ⟨⟩) rfl (coherent.copies n)

theorem Coherent.writeInfo (found : t.tasks[k]? = some (n, .writeInfo artifact dependencies)) {p : Progress}
    (uncrossed : ¬ (Task.writeInfo artifact dependencies).Crosses c name (t.tasks.eraseIdx k) t.world.disk)
    (run : (Task.writeInfo artifact dependencies).step c name ((World.folderCachePart n).get t.world) = (p, s)) :
    Coherent c name made disk ⟨(World.folderCachePart n).set s t.world, p.remaining n (t.tasks.eraseIdx k)⟩ := by
  obtain ⟨right, sourced, program, parsed⟩ : (Task.writeInfo artifact dependencies).Honest name made :=
    coherent.tasks _ (List.mem_of_getElem? found)
  have fewer : ∀ entry ∈ t.tasks.eraseIdx k, entry ∈ t.tasks := fun _ mem => List.mem_of_mem_eraseIdx mem
  unfold Task.step at run
  dsimp only at run
  split at run
  · rename_i d written
    cases run
    obtain ⟨l, -, inPlace, -⟩ := Disk.write_join (plain_infoFile name) written
    refine coherent.change fewer (.inr ⟨l, inPlace⟩) (coherent.copies n) (by rintro task ⟨⟩) fun none info read => ?_
    -- with nobody else halfway, the artifact on disk is this store's own
    have there : c.readArtifact name t.world.disk = some artifact := by
      by_contra other
      exact uncrossed ⟨none, other⟩
    cases eq_of_readInfo written read
    exact ⟨sourced, artifact, program, (readArtifact_write_info written).trans there, parsed, right⟩
  · rename_i failed
    cases run
    refine coherent.change fewer coherent.folder (coherent.copies n) (by rintro task ⟨⟩) fun _ => ?_
    exact agrees_of_unread (readInfo_of_writeInfo_error failed)

theorem Coherent.readInfo (found : t.tasks[k]? = some (n, .readInfo artifact)) {p : Progress}
    (untorn : ¬ (Task.readInfo artifact).Tears c name made t.world.disk)
    (run : (Task.readInfo artifact).step c name ((World.folderCachePart n).get t.world) = (p, s)) :
    Coherent c name made disk ⟨(World.folderCachePart n).set s t.world, p.remaining n (t.tasks.eraseIdx k)⟩ := by
  have right : ((c.readInfo name t.world.disk).map (·.dependencies)).getD [] = [] ∨
      made artifact (((c.readInfo name t.world.disk).map (·.dependencies)).getD []) := by
    cases read : c.readInfo name t.world.disk with
    | none => exact .inl rfl
    | some info =>
      right
      by_contra wrong
      exact untorn ⟨info, read, wrong⟩
  unfold Task.step at run
  dsimp only at run
  split at run
  · cases run
    exact coherent.looked found id (by rintro task ⟨⟩) rfl (coherent.copies n)
  · rename_i entry entered
    cases run
    exact coherent.looked found id (by rintro task ⟨⟩) rfl (trusted_put (trusted_of_make entered right))

theorem Coherent.advance (prepared : c.Prepared name made disk) (apart : ¬ (Move.advance k).Mixes c name made t) :
    Coherent c name made disk ((Move.advance k).make c name t) := by
  cases found : t.tasks[k]? with
  | none =>
    have idle : (Move.advance k).make c name t = t := by
      unfold Move.make
      dsimp only
      rw [found]
    rw [idle]
    exact coherent
  | some entry =>
    obtain ⟨n, task⟩ := entry
    obtain ⟨p, s, run⟩ : ∃ p s, task.step c name ((World.folderCachePart n).get t.world) = (p, s) := ⟨_, _, rfl⟩
    have made' : (Move.advance k).make c name t =
        ⟨(World.folderCachePart n).set s t.world, p.remaining n (t.tasks.eraseIdx k)⟩ := by
      unfold Move.make
      dsimp only
      rw [found]
      dsimp only
      rw [run]
    rw [made']
    cases task with
    | makeDir artifact dependencies => exact coherent.makeDir prepared found run
    | writeArtifact artifact dependencies => exact coherent.writeArtifact found run
    | writeInfo artifact dependencies => exact coherent.writeInfo found (fun crosses => apart ⟨_, found, .inl crosses⟩) run
    | check =>
      have disk := c.disk_copy? name ((World.folderCachePart n).get t.world)
      have copies : ∀ copy, Keyed.get? name (c.copy? name ((World.folderCachePart n).get t.world)).2.copies =
          some copy → Trusted name made copy := fun copy held => coherent.copies n copy (copies_copy? rfl held)
      unfold Task.step at run
      dsimp only at run
      split at run
      all_goals
        rename_i result
        rw [result] at disk copies
        cases run
      · exact coherent.looked found id (by rintro task ⟨⟩) disk copies
      · refine coherent.looked found id ?_ disk copies
        intro task going
        cases going
        exact trivial
    | readArtifact =>
      unfold Task.step at run
      dsimp only at run
      split at run
      all_goals cases run
      · exact coherent.looked found id (by rintro task ⟨⟩) rfl (coherent.copies n)
      · refine coherent.looked found id ?_ rfl (coherent.copies n)
        intro task going
        cases going
        exact trivial
    | readInfo artifact => exact coherent.readInfo found (fun tears => apart ⟨_, found, .inr tears⟩) run

theorem Coherent.move (prepared : c.Prepared name made disk) (move : Move) (honest : move.Honest made)
    (apart : ¬ move.Mixes c name made t) :     Coherent c name made disk (move.make c name t) := by
  cases move with
  | opening =>
    refine ⟨coherent.folder, fun n copy held => ?_, coherent.tasks, coherent.agrees⟩
    change Keyed.get? name (t.world.addShelf.2.shelves.getD n []) = some copy at held
    rcases World.getD_addShelf_or t.world n with same | empty
    · rw [same] at held
      exact coherent.copies n copy held
    · rw [empty] at held
      cases held
  | edit e => exact ⟨coherent.folder, coherent.copies, coherent.tasks, coherent.agrees⟩
  | start n operation => exact coherent.start operation honest
  | advance k => exact coherent.advance prepared apart

theorem Coherent.moves (prepared : c.Prepared name made disk) {moves : List Move}
    (orderly : Orderly c name made moves t) : Coherent c name made disk (Move.makeAll c name moves t) := by
  induction moves generalizing t with
  | nil => exact coherent
  | cons move moves ih =>
    obtain ⟨honest, apart, rest⟩ := orderly
    exact ih (coherent.move prepared move honest apart) rest

end

theorem coherent_initial (prepared : c.Prepared name made disk) : Coherent c name made disk (.initial disk) := by
  refine ⟨.inl rfl, fun n copy held => ?_, fun entry mem => (by cases mem), fun _ => prepared.agrees⟩
  have empty : (Traffic.initial disk).world.shelves.getD n [] = [] := by
    cases n <;> rfl
  rw [empty] at held
  cases held

/-- Any number of caches may work in a folder at the same time, one step on the disk after the other in any order.
If no two stores cross and no load is torn, and nothing is being done, then an artifact that is called fresh was made
from the sources on record, whichever cache hands it out. -/
theorem fresh_artifacts_are_of_record (prepared : c.Prepared name made disk) {moves : List Move}
    (orderly : Orderly c name made moves (.initial disk)) (idle : (Move.makeAll c name moves (.initial disk)).tasks = [])
    (n : Nat) (lib : Library World) :
    let w := (Move.makeAll c name moves (.initial disk)).world
    ((Cache.folder c (World.folderCachePart n)).isFresh lib name w).1 = true →
      ∃ info, c.readInfo name w.disk = some info ∧ ∀ n, ∃ artifact program,
        ((Cache.folder c (World.folderCachePart n)).artifact name w).1 = some artifact ∧
        ((Cache.folder c (World.folderCachePart n)).load name w).1 = .ok program ∧
        Program.parse name artifact = .ok program ∧ made artifact info.dependencies := by
  intro w fresh
  have coherent := (coherent_initial prepared).moves prepared orderly
  cases read : c.readInfo name w.disk with
  | none =>
    rw [Cache.folder_isFresh_none (by exact read)] at fresh
    cases fresh
  | some info =>
    have halfway : ∀ entry ∈ (Move.makeAll c name moves (.initial disk)).tasks, ¬ entry.2.Halfway := by
      rw [idle]
      intro entry mem
      cases mem
    obtain ⟨sourced, artifact, program, there, parsed, right⟩ := coherent.agrees halfway info read
    refine ⟨info, rfl, fun n => ?_⟩
    have shows : c.Shows ((World.folderCachePart n).get w).disk name (some artifact) (some info) := ⟨there, read⟩
    rcases shows.hands_out parsed with ⟨copy, held, same, shown, loaded⟩ | ⟨-, shown, loaded⟩
    · obtain ⟨parsed', unknown | right'⟩ := coherent.copies n copy held
      · exact absurd (same.symm.trans unknown) sourced
      · exact ⟨copy.artifact, copy.program, shown, loaded, parsed', same ▸ right'⟩
    · exact ⟨artifact, program, shown, loaded, parsed, right⟩

/-- A folder of its own is prepared. -/
theorem Fresh.prepared (fresh : c.Fresh d) (fits : c.Fits name) : c.Prepared name made d := by
  constructor
  · exact agrees_of_unread (fresh.shows fits).info
  · intro d' folder
    obtain ⟨_, l, made', stands, empty, -⟩ := fresh.made
    cases made'.symm.trans folder
    refine ⟨⟨l, stands.noNul, stands.short, stands.reached, stands.folder⟩, agrees_of_unread ?_⟩
    rw [stands.readInfo fits, fileText, empty]
    rfl

/-- The two artifacts of a page that is edited once. -/
def Edition (artifact : String) (dependencies : List Dependency) : Prop :=
  (artifact = "one" ∧ dependencies = [⟨"page", some ⟨1⟩⟩]) ∨ (artifact = "two" ∧ dependencies = [⟨"page", some ⟨2⟩⟩])

instance (artifact : String) (dependencies : List Dependency) : Decidable (Edition artifact dependencies) :=
  inferInstanceAs (Decidable (_ ∨ _))

/-- The first cache stores slowly, and the second overtakes it; a load comes between their steps. -/
def overtaking : List Move :=
  [.opening, .opening, .edit (.add "page" "one"), .start 0 (.store "one" [⟨"page", some ⟨1⟩⟩]), .advance 0,
    .edit (.add "page" "two"), .start 1 (.store "two" [⟨"page", some ⟨2⟩⟩]), .advance 1, .advance 0, .advance 0,
    .start 0 .load, .advance 0, .advance 0, .advance 0, .advance 0, .advance 0]

theorem overtaken_artifacts_are_of_record :
    let w := (Move.makeAll ⟨"cache"⟩ "page" overtaking (.initial (Disk.empty []))).world
    Orderly ⟨"cache"⟩ "page" Edition overtaking (.initial (Disk.empty [])) ∧
      ((FolderCache.readInfo ⟨"cache"⟩ "page" w.disk).map (·.dependencies) = some [⟨"page", some ⟨2⟩⟩]) ∧
      ∀ n, ((Cache.folder ⟨"cache"⟩ (World.folderCachePart n)).artifact "page" w).1 = some "two" := by
  intro w
  have prepared : FolderCache.Prepared ⟨"cache"⟩ "page" Edition (Disk.empty []) := by
    refine Fresh.prepared Equipment.fresh_cache ?_
    unfold FolderCache.Fits
    decide +kernel
  have orderly : Orderly ⟨"cache"⟩ "page" Edition overtaking (.initial (Disk.empty [])) := by decide +kernel
  have idle : (Move.makeAll ⟨"cache"⟩ "page" overtaking (.initial (Disk.empty []))).tasks.length = 0 := by
    decide +kernel
  have fresh : ((Cache.folder ⟨"cache"⟩ (World.folderCachePart 0)).isFresh Library.ofWorld "page" w).1 = true := by
    decide +kernel
  have told : (FolderCache.readInfo ⟨"cache"⟩ "page" w.disk).map (·.dependencies) = some [⟨"page", some ⟨2⟩⟩] := by
    decide +kernel
  refine ⟨orderly, told, fun n => ?_⟩
  obtain ⟨info, read, served⟩ :=
    fresh_artifacts_are_of_record prepared orderly (List.length_eq_zero_iff.mp idle) 0 Library.ofWorld fresh
  rw [read] at told
  obtain ⟨artifact, program, shown, -, -, first | second⟩ := served n
  · cases first.2.symm.trans (Option.some.inj told)
  · rw [shown, second.1]

-- The slow store writes its artifact over the newer one, and the newer information comes last.
example :
    let moves : List Move := [.opening, .opening, .edit (.add "page" "one"),
      .start 0 (.store "one" [⟨"page", some ⟨1⟩⟩]), .advance 0, .edit (.add "page" "two"),
      .start 1 (.store "two" [⟨"page", some ⟨2⟩⟩]), .advance 1, .advance 1, .advance 0, .advance 1, .advance 0]
    let t := Move.makeAll ⟨"cache"⟩ "page" moves (.initial (Disk.empty []))
    t.tasks.length = 0 ∧
      ((Cache.folder ⟨"cache"⟩ (World.folderCachePart 0)).isFresh Library.ofWorld "page" t.world).1 = true ∧
      ((Cache.folder ⟨"cache"⟩ (World.folderCachePart 0)).artifact "page" t.world).1 = some "one" := by
  decide +kernel

-- A load reads the older artifact, and the newer information.
example :
    let moves : List Move := [.opening, .opening, .edit (.add "page" "one"),
      .start 0 (.store "one" [⟨"page", some ⟨1⟩⟩]), .advance 0, .advance 0, .advance 0, .opening, .start 2 .load,
      .advance 0, .advance 0, .edit (.add "page" "two"), .start 1 (.store "two" [⟨"page", some ⟨2⟩⟩]), .advance 1,
      .advance 1, .advance 1, .advance 0]
    let t := Move.makeAll ⟨"cache"⟩ "page" moves (.initial (Disk.empty []))
    t.tasks.length = 0 ∧
      ((Cache.folder ⟨"cache"⟩ (World.folderCachePart 2)).isFresh Library.ofWorld "page" t.world).1 = true ∧
      ((Cache.folder ⟨"cache"⟩ (World.folderCachePart 2)).artifact "page" t.world).1 = some "one" := by
  decide +kernel

end FolderCache

end Stencil
