import Mathlib.Data.List.Induction
import Stencil.Proofs.Cache.Staleness

/-!
Caches that share a folder. Each has its own copies in memory, and asks the information on disk whether they are
still those of the sources on record. So whatever it hands out was made from the latest sources; only a copy that
was made from the same sources, with the same stamps, and differs from the artifact on disk goes unnoticed.
-/
namespace Stencil

namespace FolderCache

variable {c : FolderCache} {name other artifact : String} {dependencies : List Dependency} {d d' : Disk}
  {s : FolderCacheState} {copy : CacheEntry} {program : Program}

/-- What is on disk for a name: the artifact, and what it is held to be made from. -/
def found? (c : FolderCache) (name : String) (d : Disk) : Option (String × List Dependency) :=
  (c.readArtifact name d).map fun artifact => (artifact, ((c.readInfo name d).map (·.dependencies)).getD [])

/-- An artifact and the information about it are on disk, in the folder. -/
structure Settled (c : FolderCache) (name artifact : String) (dependencies : List Dependency) (d : Disk) : Prop where
  folder : ∃ l, c.InPlace d l
  shows : c.Shows d name (some artifact) (some ⟨compilerVersion, dependencies⟩)

theorem Shows.found {info : CacheInfo} (shows : c.Shows d name (some artifact) (some info)) :
    c.found? name d = some (artifact, info.dependencies) := by
  unfold found?
  rw [shows.artifact, shows.info]
  rfl

theorem Shows.superseded_iff {found : Option String} {info : CacheInfo} (shows : c.Shows d name found (some info)) :
    c.Superseded name dependencies d ↔ info.dependencies ≠ dependencies := by
  constructor
  · rintro ⟨info', read, different⟩
    cases shows.info.symm.trans read
    exact different
  · intro different
    exact ⟨_, shows.info, different⟩

/-- What was written can be read, and what was there for other names is there still. -/
theorem Persists.settled (persists : c.Persists name artifact dependencies d (.ok ()) d')
    (stamps : CacheInfo.Fits dependencies) : c.Settled name artifact dependencies d' ∧
      ∀ other a deps, other ≠ name → c.Settled other a deps d → c.Settled other a deps d' := by
  cases persists with
  | @complete d₁ d₂ _ folder written informed =>
    obtain ⟨l, -, inPlace, -⟩ := Disk.write_join (plain_infoFile name) informed
    refine ⟨⟨⟨l, inPlace⟩, ⟨?_, readInfo_writeInfo stamps informed⟩⟩, fun other a deps different settled => ?_⟩
    · exact (readArtifact_write_info informed).trans (readArtifact_writeArtifact written)
    · obtain ⟨l', stood⟩ := settled.folder
      cases stood.makeDir.symm.trans folder
      obtain ⟨-, first⟩ := Disk.read_write_join (plain_artifactFile name) written
      obtain ⟨-, second⟩ := Disk.read_write_join (plain_infoFile name) informed
      have artifact' := (second _ (plain_artifactFile other) (artifactFile_ne_infoFile other name)).trans
        (first _ (plain_artifactFile other) fun same => different (artifactFile_injective same))
      have info' := (second _ (plain_infoFile other) fun same => different (infoFile_injective same)).trans
        (first _ (plain_infoFile other) fun same => artifactFile_ne_infoFile name other same.symm)
      exact ⟨⟨l, inPlace⟩, (readArtifact_congr artifact').trans settled.shows.artifact,
        (readInfo_congr info').trans settled.shows.info⟩

/-! ### What an operation does to the copies -/

theorem disk_copy? (c : FolderCache) (name : String) (s : FolderCacheState) : (c.copy? name s).2.disk = s.disk := by
  unfold copy?
  split
  · rfl
  · split
    · split <;> rfl
    · rfl

theorem copies_copy? {used : Option CacheEntry} {after : FolderCacheState} (run : c.copy? name s = (used, after))
    (held : Keyed.get? other after.copies = some copy) : Keyed.get? other s.copies = some copy := by
  unfold copy? at run
  split at run
  · cases run
    exact held
  · split at run
    · split at run
      all_goals cases run
      · exact held
      · exact (Keyed.get?_erase held).2
    · cases run
      exact held

theorem disk_load (c : FolderCache) (name : String) (s : FolderCacheState) : (c.load name s).2.disk = s.disk := by
  have disk := c.disk_copy? name s
  unfold load
  split
  · rename_i result
    rw [← disk, result]
  · rename_i dropped
    rw [← disk, dropped]
    unfold loadFromDisk
    split
    · rfl
    · dsimp only
      split <;> rfl

/-- A copy that is there after a load was there, or is of what is on disk. -/
theorem copies_load (held : Keyed.get? other (c.load name s).2.copies = some copy) :
    Keyed.get? other s.copies = some copy ∨
      other = name ∧ c.found? name s.disk = some (copy.artifact, copy.dependencies) ∧
        Program.parse name copy.artifact = .ok copy.program := by
  unfold load at held
  split at held
  · rename_i kept
    exact .inl (copies_copy? kept held)
  · rename_i s' dropped
    have before : ∀ {e}, Keyed.get? other s'.copies = some e → Keyed.get? other s.copies = some e :=
      fun there => copies_copy? dropped there
    have disk : s'.disk = s.disk := by
      rw [← c.disk_copy? name s, dropped]
    unfold loadFromDisk at held
    split at held
    · exact .inl (before held)
    · rename_i artifact read
      dsimp only at held
      split at held
      · exact .inl (before held)
      · rename_i entry made
        rcases Keyed.get?_put held with ⟨rfl, rfl⟩ | ⟨-, there⟩
        · right
          obtain ⟨text, sources, parsed⟩ := CacheEntry.make_ok made
          rw [← disk]
          unfold found?
          rw [read, text, sources]
          exact ⟨rfl, rfl, parsed⟩
        · exact .inl (before there)

theorem disk_artifact (c : FolderCache) (name : String) (s : FolderCacheState) :
    (c.artifact name s).2.disk = s.disk := by
  have disk := c.disk_copy? name s
  unfold FolderCache.artifact
  split
  all_goals
    rename_i result
    rw [← disk, result]

theorem copies_artifact (held : Keyed.get? other (c.artifact name s).2.copies = some copy) :
    Keyed.get? other s.copies = some copy := by
  unfold FolderCache.artifact at held
  split at held
  all_goals
    rename_i result
    exact copies_copy? result held

/-! ### What is handed out -/

/-- There is a copy from these sources that is not of this artifact. -/
def Mistaken (name artifact : String) (dependencies : List Dependency) (s : FolderCacheState) : Prop :=
  ∃ copy, Keyed.get? name s.copies = some copy ∧ copy.dependencies = dependencies ∧ copy.artifact ≠ artifact

theorem artifact_of_copy {after : FolderCacheState} (used : c.copy? name s = (some copy, after)) :
    (c.artifact name s).1 = some copy.artifact ∧ (c.load name s).1 = .ok copy.program := by
  unfold FolderCache.artifact FolderCache.load
  rw [used]
  exact ⟨rfl, rfl⟩

theorem artifact_of_disk {after : FolderCacheState} (dropped : c.copy? name s = (none, after))
    (read : c.readArtifact name s.disk = some artifact) (parsed : Program.parse name artifact = .ok program) :
    (c.artifact name s).1 = some artifact ∧ (c.load name s).1 = .ok program := by
  have disk : after.disk = s.disk := by
    rw [← c.disk_copy? name s, dropped]
  rw [← disk] at read
  unfold FolderCache.artifact FolderCache.load
  rw [dropped]
  refine ⟨read, ?_⟩
  dsimp only
  unfold loadFromDisk CacheEntry.make
  rw [read]
  dsimp only
  rw [parsed]
  rfl

/-- Either a copy of the sources on record is handed out, or the artifact on disk. -/
theorem Shows.hands_out {info : CacheInfo} (shows : c.Shows s.disk name (some artifact) (some info))
    (parsed : Program.parse name artifact = .ok program) :
    (∃ copy, Keyed.get? name s.copies = some copy ∧ copy.dependencies = info.dependencies ∧
      (c.artifact name s).1 = some copy.artifact ∧ (c.load name s).1 = .ok copy.program) ∨
    ¬ Mistaken name artifact info.dependencies s ∧
      (c.artifact name s).1 = some artifact ∧ (c.load name s).1 = .ok program := by
  cases held : Keyed.get? name s.copies with
  | none =>
    right
    refine ⟨fun ⟨copy, there, _⟩ => ?_, artifact_of_disk (copy?_of_absent held) shows.artifact parsed⟩
    cases held.symm.trans there
  | some copy =>
    by_cases superseded : c.Superseded name copy.dependencies s.disk
    · right
      refine ⟨fun ⟨copy', there, same, _⟩ => ?_,
        artifact_of_disk (copy?_of_superseded held superseded) shows.artifact parsed⟩
      cases held.symm.trans there
      exact shows.superseded_iff.mp superseded same.symm
    · left
      refine ⟨copy, rfl, ?_, artifact_of_copy (copy?_of_current held superseded)⟩
      by_contra different
      exact superseded (shows.superseded_iff.mpr fun same => different same.symm)

end FolderCache

/-! ### Histories -/

theorem World.getD_addShelf_or (w : World) (n : Nat) :
    w.addShelf.2.shelves.getD n [] = w.shelves.getD n [] ∨ w.addShelf.2.shelves.getD n [] = [] := by
  show (w.shelves ++ [[]]).getD n [] = _ ∨ _
  rw [List.getD_eq_getElem?_getD, List.getD_eq_getElem?_getD]
  by_cases old : n < w.shelves.length
  · left
    rw [List.getElem?_append_left old]
  · right
    show (w.shelves ++ [[]])[n]?.getD [] = []
    rw [List.getElem?_append_right (by omega)]
    cases n - w.shelves.length <;> rfl

theorem World.getD_set_or (shelves : List Shelf) (n m : Nat) (shelf : Shelf) :
    (shelves.set n shelf).getD m [] = shelves.getD m [] ∨ (shelves.set n shelf).getD m [] = shelf := by
  rw [List.getD_eq_getElem?_getD, List.getD_eq_getElem?_getD]
  by_cases same : n = m
  · subst same
    by_cases there : n < shelves.length
    · rw [List.getElem?_set_self there]
      exact .inr rfl
    · rw [List.set_eq_of_length_le (by omega)]
      exact .inl rfl
  · rw [List.getElem?_set_ne same]
    exact .inl rfl

/-- What is done with the caches of a folder, which are numbered as they are opened. -/
inductive FolderCall where
  | opening
  | store (cache : Nat) (name artifact : String) (dependencies : List Dependency)
  | load (cache : Nat) (name : String)
  | read (cache : Nat) (name : String)

inductive FolderReply where
  | opened
  | stored (r : Except TemplateError Unit)
  | loaded (r : Except TemplateError Program)
  | read (r : Option String)

namespace FolderCall

def make (dir : String) : FolderCall → World → FolderReply × World
  | opening, w => (.opened, w.addShelf.2)
  | store n name artifact dependencies, w =>
    let (r, w) := ((CachePlace.folder dir).cache n).store name artifact dependencies w
    (.stored r, w)
  | load n name, w =>
    let (r, w) := ((CachePlace.folder dir).cache n).load name w
    (.loaded r, w)
  | read n name, w =>
    let (r, w) := ((CachePlace.folder dir).cache n).artifact name w
    (.read r, w)

/-- The world after a history. -/
def makeAll (dir : String) (history : List FolderCall) (w : World) : World :=
  history.foldl (fun w call => (call.make dir w).2) w

theorem makeAll_concat (dir : String) (history : List FolderCall) (call : FolderCall) (w : World) :
    makeAll dir (history ++ [call]) w = (call.make dir (makeAll dir history w)).2 := by
  unfold makeAll
  rw [List.foldl_append]
  rfl

/-- Whatever is stored is a program, and is written to disk. Stamps have at most 128 bits. -/
def Succeeds (dir : String) (call : FolderCall) (w : World) : Prop :=
  match call with
  | store n name artifact dependencies =>
    (((CachePlace.folder dir).cache n).store name artifact dependencies w).1 = .ok () ∧ CacheInfo.Fits dependencies
  | _ => True

def AllSucceed (dir : String) : List FolderCall → World → Prop
  | [], _ => True
  | call :: history, w => call.Succeeds dir w ∧ AllSucceed dir history (call.make dir w).2

/-- What a call stores under a name. -/
def stored? (name : String) : FolderCall → Option (String × List Dependency)
  | store _ stored artifact dependencies => if stored = name then some (artifact, dependencies) else none
  | _ => none

/-- What was stored last under a name. -/
def latest? (name : String) (history : List FolderCall) : Option (String × List Dependency) :=
  (history.filterMap (stored? name)).getLast?

theorem latest?_concat (name : String) (history : List FolderCall) (call : FolderCall) :
    latest? name (history ++ [call]) = (call.stored? name).or (latest? name history) := by
  unfold latest?
  rw [List.filterMap_append, List.filterMap_cons, List.filterMap_nil, List.getLast?_append]
  cases call.stored? name <;> rfl

/-- In the course of a history, this was stored under the name, or was on disk before anything was. -/
def Seen (dir : String) (disk : Disk) (history : List FolderCall) (name artifact : String)
    (dependencies : List Dependency) : Prop :=
  (∃ n, store n name artifact dependencies ∈ history) ∨
    ∃ before, before <+: history ∧ latest? name before = none ∧
      FolderCache.found? ⟨dir⟩ name (makeAll dir before (World.ofDisk disk)).disk = some (artifact, dependencies)

variable {dir name artifact : String} {disk : Disk} {history : List FolderCall} {call : FolderCall}
  {dependencies : List Dependency} {w : World}

theorem Seen.later (seen : Seen dir disk history name artifact dependencies) (call : FolderCall) :
    Seen dir disk (history ++ [call]) name artifact dependencies := by
  rcases seen with ⟨n, mem⟩ | ⟨before, early, none, found⟩
  · exact .inl ⟨n, List.mem_append_left _ mem⟩
  · exact .inr ⟨before, early.trans (List.prefix_append _ _), none, found⟩

theorem seen_of_latest (latest : latest? name history = some (artifact, dependencies)) :
    Seen dir disk history name artifact dependencies := by
  left
  obtain ⟨call, mem, stored⟩ := List.mem_filterMap.mp (List.mem_of_getLast? latest)
  unfold stored? at stored
  split at stored
  · split at stored
    · rename_i same
      cases same
      cases stored
      exact ⟨_, mem⟩
    · cases stored
  · cases stored

theorem AllSucceed.split (succeed : AllSucceed dir (history ++ [call]) w) :
    AllSucceed dir history w ∧ call.Succeeds dir (makeAll dir history w) := by
  induction history generalizing w with
  | nil => exact ⟨trivial, succeed.1⟩
  | cons first history ih =>
    obtain ⟨rest, last⟩ := ih succeed.2
    exact ⟨⟨succeed.1, rest⟩, last⟩

/-- After a history, the latest of every name is on disk, and all copies have been seen. -/
structure Accounted (dir : String) (disk : Disk) (history : List FolderCall) (w : World) : Prop where
  latest : ∀ name artifact dependencies, latest? name history = some (artifact, dependencies) →
    FolderCache.Settled ⟨dir⟩ name artifact dependencies w.disk ∧ ∃ program, Program.parse name artifact = .ok program
  copies : ∀ n name copy, Keyed.get? name (w.shelves.getD n []) = some copy →
    Seen dir disk history name copy.artifact copy.dependencies ∧ Program.parse name copy.artifact = .ok copy.program

/-- One cache works, and the disk stays as it is. -/
theorem Accounted.read {n : Nat} {s : FolderCacheState} (accounted : Accounted dir disk history w)
    (same : s.disk = w.disk) (nothing : ∀ name, call.stored? name = none)
    (copies : ∀ name copy, Keyed.get? name s.copies = some copy →
      Keyed.get? name (w.shelves.getD n []) = some copy ∨
        Seen dir disk history name copy.artifact copy.dependencies ∧
          Program.parse name copy.artifact = .ok copy.program) :
    Accounted dir disk (history ++ [call]) ((World.folderCachePart n).set s w) := by
  constructor
  · intro name artifact dependencies latest
    rw [latest?_concat, nothing, Option.none_or] at latest
    show FolderCache.Settled ⟨dir⟩ name artifact dependencies s.disk ∧ _
    rw [same]
    exact accounted.latest name artifact dependencies latest
  · intro m name copy held
    have seen : Seen dir disk history name copy.artifact copy.dependencies ∧
        Program.parse name copy.artifact = .ok copy.program := by
      change Keyed.get? name ((w.shelves.set n s.copies).getD m []) = some copy at held
      rcases World.getD_set_or w.shelves n m s.copies with before | now
      · rw [before] at held
        exact accounted.copies m name copy held
      · rw [now] at held
        rcases copies name copy held with old | new
        · exact accounted.copies n name copy old
        · exact new
    exact ⟨seen.1.later call, seen.2⟩

/-- What is found on disk has been seen. -/
theorem Accounted.seen (accounted : Accounted dir disk history w)
    (reached : w = makeAll dir history (World.ofDisk disk))
    (found : FolderCache.found? ⟨dir⟩ name w.disk = some (artifact, dependencies)) :
    Seen dir disk history name artifact dependencies := by
  cases latest : latest? name history with
  | none => exact .inr ⟨history, List.prefix_rfl, latest, reached ▸ found⟩
  | some stored =>
    obtain ⟨artifact', dependencies'⟩ := stored
    cases (accounted.latest name artifact' dependencies' latest).1.shows.found.symm.trans found
    exact seen_of_latest latest

theorem Accounted.store {n : Nat} (accounted : Accounted dir disk history w)
    (succeeds : (store n name artifact dependencies).Succeeds dir w) :
    Accounted dir disk (history ++ [store n name artifact dependencies])
      ((store n name artifact dependencies).make dir w).2 := by
  obtain ⟨good, stamps⟩ := succeeds
  obtain ⟨result, run⟩ : ∃ s, FolderCache.store ⟨dir⟩ name artifact dependencies ((World.folderCachePart n).get w) =
      (.ok (), s) := ⟨_, Prod.ext good rfl⟩
  have after : ((FolderCall.store n name artifact dependencies).make dir w).2 = (World.folderCachePart n).set result w := by
    show (World.folderCachePart n).set
      (FolderCache.store ⟨dir⟩ name artifact dependencies ((World.folderCachePart n).get w)).2 w = _
    rw [run]
  obtain ⟨entry, made, persists, copies⟩ := FolderCache.store_ok run
  obtain ⟨text, sources, parsed⟩ := CacheEntry.make_ok made
  obtain ⟨settled, others⟩ := persists.settled stamps
  rw [after]
  constructor
  · intro other artifact' dependencies' latest
    rw [latest?_concat] at latest
    by_cases same : name = other
    · subst same
      have own : (FolderCall.store n name artifact dependencies).stored? name = some (artifact, dependencies) :=
        if_pos rfl
      rw [own, Option.some_or] at latest
      cases latest
      exact ⟨settled, entry.program, parsed⟩
    · have foreign : (FolderCall.store n name artifact dependencies).stored? other = none := if_neg same
      rw [foreign, Option.none_or] at latest
      obtain ⟨before, program⟩ := accounted.latest other artifact' dependencies' latest
      exact ⟨others other artifact' dependencies' (fun h => same h.symm) before, program⟩
  · intro m other copy held
    change Keyed.get? other ((w.shelves.set n result.copies).getD m []) = some copy at held
    have before : ∀ k, Keyed.get? other (w.shelves.getD k []) = some copy →
        Seen dir disk (history ++ [.store n name artifact dependencies]) other copy.artifact copy.dependencies ∧
          Program.parse other copy.artifact = .ok copy.program := by
      intro k there
      obtain ⟨seen, parsed'⟩ := accounted.copies k other copy there
      exact ⟨seen.later _, parsed'⟩
    rcases World.getD_set_or w.shelves n m result.copies with same | now
    · rw [same] at held
      exact before m held
    · rw [now, copies] at held
      rcases Keyed.get?_put held with ⟨rfl, rfl⟩ | ⟨-, there⟩
      · rw [text, sources]
        refine ⟨.inl ⟨n, List.mem_append_right _ (List.mem_singleton.mpr rfl)⟩, parsed⟩
      · exact before n there

theorem accounted (succeed : AllSucceed dir history (World.ofDisk disk)) :
    Accounted dir disk history (makeAll dir history (World.ofDisk disk)) := by
  induction history using List.reverseRecOn with
  | nil =>
    constructor
    · intro name artifact dependencies latest
      cases latest
    · intro n name copy held
      have empty : (makeAll dir [] (World.ofDisk disk)).shelves.getD n [] = [] := by
        cases n <;> rfl
      rw [empty] at held
      cases held
  | append_singleton history call ih =>
    obtain ⟨early, last⟩ := succeed.split
    have before := ih early
    rw [makeAll_concat]
    cases call with
    | opening =>
      constructor
      · intro name artifact dependencies latest
        rw [latest?_concat] at latest
        exact before.latest name artifact dependencies latest
      · intro n name copy held
        rcases World.getD_addShelf_or (makeAll dir history (World.ofDisk disk)) n with same | empty
        · change Keyed.get? name ((World.addShelf _).2.shelves.getD n []) = some copy at held
          rw [same] at held
          obtain ⟨seen, parsed⟩ := before.copies n name copy held
          exact ⟨seen.later _, parsed⟩
        · change Keyed.get? name ((World.addShelf _).2.shelves.getD n []) = some copy at held
          rw [empty] at held
          cases held
    | store n name artifact dependencies => exact before.store last
    | load n name =>
      refine before.read (n := n) (FolderCache.disk_load _ name _) (fun _ => rfl) fun other copy held => ?_
      rcases FolderCache.copies_load held with old | ⟨rfl, found, parsed⟩
      · exact .inl old
      · exact .inr ⟨before.seen rfl found, parsed⟩
    | read n name =>
      refine before.read (n := n) (FolderCache.disk_artifact _ name _) (fun _ => rfl) fun other copy held => ?_
      exact .inl (FolderCache.copies_artifact held)

/-- Any number of caches may share a folder, whatever was on disk before and whatever is stored in which order: what
a cache then hands out for a name was made from the latest sources on record, and it is the artifact that was stored
last, by whichever cache, unless the cache has a copy of another artifact from the same sources. -/
theorem latest_artifacts_are_handed_out (succeed : AllSucceed dir history (World.ofDisk disk))
    (latest : latest? name history = some (artifact, dependencies)) (n : Nat) :
    let w := makeAll dir history (World.ofDisk disk)
    ∃ served program, ((load n name).make dir w).1 = .loaded (.ok program) ∧
      ((read n name).make dir w).1 = .read (some served) ∧
      Program.parse name served = .ok program ∧ Seen dir disk history name served dependencies ∧
      (served = artifact ↔ ¬ FolderCache.Mistaken name artifact dependencies ((World.folderCachePart n).get w)) := by
  intro w
  have known : Accounted dir disk history w := accounted succeed
  obtain ⟨settled, program, parsed⟩ := known.latest name artifact dependencies latest
  have shows : FolderCache.Shows ⟨dir⟩ ((World.folderCachePart n).get w).disk name (some artifact)
      (some ⟨compilerVersion, dependencies⟩) := settled.shows
  rcases shows.hands_out parsed with ⟨copy, held, sources, shown, loaded⟩ | ⟨right, shown, loaded⟩
  · obtain ⟨seen, read⟩ := known.copies n name copy held
    rw [sources] at seen
    refine ⟨copy.artifact, copy.program, congrArg FolderReply.loaded loaded, congrArg FolderReply.read shown,
      read, seen, ?_⟩
    constructor
    · rintro same ⟨copy', held', -, different⟩
      cases held.symm.trans held'
      exact different same
    · intro right
      by_contra different
      exact right ⟨copy, held, sources, different⟩
  · exact ⟨artifact, program, congrArg FolderReply.loaded loaded, congrArg FolderReply.read shown, parsed,
      seen_of_latest latest, fun _ => right, fun _ => rfl⟩

/-- Two caches store the same page in turn, and the second stores it once more when its source has changed. -/
def storedInTurn : List FolderCall :=
  [.opening, .opening, .store 0 "page" "one" [⟨"page", some ⟨1⟩⟩], .store 1 "page" "one" [⟨"page", some ⟨1⟩⟩],
    .load 0 "page", .store 1 "page" "two" [⟨"page", some ⟨2⟩⟩]]

theorem second_page_is_handed_out :
    AllSucceed "cache" storedInTurn (World.ofDisk (Disk.empty [])) ∧
      latest? "page" storedInTurn = some ("two", [⟨"page", some ⟨2⟩⟩]) ∧
      ((read 0 "page").make "cache" (makeAll "cache" storedInTurn (World.ofDisk (Disk.empty [])))).1 =
        .read (some "two") := by
  have stamps : ∀ k < 3, CacheInfo.Fits [⟨"page", some ⟨k⟩⟩] := by
    intro k small d mem stamp recorded
    cases List.mem_singleton.mp mem
    cases recorded
    show k < _
    omega
  have succeed : AllSucceed "cache" storedInTurn (World.ofDisk (Disk.empty [])) :=
    ⟨trivial, trivial, ⟨by decide +kernel, stamps 1 (by decide)⟩, ⟨by decide +kernel, stamps 1 (by decide)⟩, trivial,
      ⟨by decide +kernel, stamps 2 (by decide)⟩, trivial⟩
  have latest : latest? "page" storedInTurn = some ("two", [⟨"page", some ⟨2⟩⟩]) := by decide +kernel
  refine ⟨succeed, latest, ?_⟩
  obtain ⟨served, program, -, shown, -, -, right⟩ := latest_artifacts_are_handed_out succeed latest 0
  have older : (Keyed.get? "page" ((makeAll "cache" storedInTurn (World.ofDisk (Disk.empty []))).shelves.getD 0 [])).map
      (·.dependencies) = some [⟨"page", some ⟨1⟩⟩] := by decide +kernel
  rw [shown, right.mpr]
  rintro ⟨copy, held, sources, -⟩
  change Keyed.get? "page" ((makeAll "cache" storedInTurn (World.ofDisk (Disk.empty []))).shelves.getD 0 []) = _ at held
  rw [held] at older
  cases sources.symm.trans (Option.some.inj older)

/-- A copy of another artifact from the same sources is not noticed. -/
example :
    let history : List FolderCall := [.opening, .opening, .store 0 "page" "one" [⟨"page", some ⟨1⟩⟩],
      .store 1 "page" "two" [⟨"page", some ⟨1⟩⟩]]
    (((CachePlace.folder "cache").cache 0).artifact "page"
      (makeAll "cache" history (World.ofDisk (Disk.empty [])))).1 = some "one" := by
  decide +kernel

end FolderCall

end Stencil
