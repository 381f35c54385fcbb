import Stencil.Proofs.Cache.FileNames
import Stencil.Proofs.Cache.Info
import Stencil.Proofs.Disk.Held

/-!
The files of a cache in a folder: what is written for a template is read back, and nothing that is done for one
template changes what is read for another.
-/
namespace Stencil

namespace FolderCache

open Stencil.Path (PlainFile)

variable {c : FolderCache} {d d' : Disk} {l : Location}

/-- The folder of the cache is there. -/
structure InPlace (c : FolderCache) (d : Disk) (l : Location) : Prop where
  noNul : '\x00' ∉ c.dir.toList
  short : c.dir.utf8ByteSize ≤ Disk.longestPath
  reached : d.walk (d.start c.dir) (Path.wayTo c.dir) = .ok l
  folder : d.IsFolder l

/-- Nothing is made if the folder is there. -/
theorem InPlace.makeDir (inPlace : c.InPlace d l) : c.makeDir d = .ok d := by
  have noNul : c.dir.toList.contains '\x00' = false := by
    rw [Bool.eq_false_iff, Ne, List.contains_iff_mem]
    exact inPlace.noNul
  have short := inPlace.short
  unfold FolderCache.makeDir Disk.makeFolders
  rw [if_neg (by simp only [noNul]; decide), if_neg (by omega)]
  by_cases empty : c.dir.isEmpty = true
  · rw [if_pos empty]
  · rw [if_neg empty]
    have reached := inPlace.reached
    unfold Path.wayTo at reached
    rw [if_neg empty] at reached
    by_cases slash : (c.dir.toList.getLast? == some '/') = true
    · rw [if_pos slash] at reached
      obtain ⟨a, -, parts⟩ := Path.segments_slash (by simpa using slash)
      rw [parts, List.dropLast_concat] at reached
      obtain ⟨t, there⟩ := Disk.isFolder_iff.mp inPlace.folder
      have stay : d.walk l [""] = .ok l := by
        rw [Disk.walk, Disk.step, there]
        rfl
      refine Disk.makeWalk_of_walk (m := l) ?_ inPlace.folder
      rw [parts, Disk.walk_append, reached]
      exact stay
    · rw [if_neg slash] at reached
      exact Disk.makeWalk_of_walk reached inPlace.folder

/-- The folder of the cache is there, and no folder stands where its files belong. -/
structure Stands (c : FolderCache) (d : Disk) (l : Location) : Prop where
  noNul : '\x00' ∉ c.dir.toList
  short : c.dir.utf8ByteSize ≤ Disk.longestPath
  reached : d.walk (d.start c.dir) (Path.wayTo c.dir) = .ok l
  folder : d.IsFolder l
  free : ∀ name, ¬ d.IsFolder (l ++ [artifactFile name]) ∧ ¬ d.IsFolder (l ++ [infoFile name])

/-- The files of a template have names and paths that the disk allows. -/
def Fits (c : FolderCache) (name : String) : Prop :=
  (infoFile name).utf8ByteSize ≤ Disk.longestName ∧ (c.infoPath name).utf8ByteSize ≤ Disk.longestPath

theorem utf8ByteSize_artifactFile (name : String) :
    (artifactFile name).utf8ByteSize + 5 = (infoFile name).utf8ByteSize := by
  unfold artifactFile infoFile
  rw [String.utf8ByteSize_append, String.utf8ByteSize_append]
  have six : (".cache" : String).utf8ByteSize = 6 := by decide
  have eleven : (".cache.info" : String).utf8ByteSize = 11 := by decide
  omega

theorem Fits.artifact {name : String} (fits : c.Fits name) :
    (artifactFile name).utf8ByteSize ≤ Disk.longestName ∧ (c.artifactPath name).utf8ByteSize ≤ Disk.longestPath := by
  have size := utf8ByteSize_artifactFile name
  have path : (c.artifactPath name).utf8ByteSize ≤ (c.infoPath name).utf8ByteSize := by
    have first : c.artifactPath name = Path.join c.dir (artifactFile name) := rfl
    have second : c.infoPath name = Path.join c.dir (infoFile name) := rfl
    rw [first, second]
    rcases Path.join_cases c.dir (plain_artifactFile name).noSlash with h | h | h <;>
      rcases Path.join_cases c.dir (plain_infoFile name).noSlash with h' | h' | h'
    · rw [h.2, h'.2]
      omega
    · exact absurd h.1 h'.1
    · exact absurd h.1 h'.1
    · exact absurd h'.1 h.1
    · rw [h.2.2, h'.2.2, String.utf8ByteSize_append, String.utf8ByteSize_append]
      omega
    · exact absurd h.2.1 h'.2.1
    · exact absurd h'.1 h.1
    · exact absurd h'.2.1 h.2.1
    · rw [h.2.2, h'.2.2]
      simp only [String.utf8ByteSize_append]
      omega
  exact ⟨by have := fits.1; omega, path.trans fits.2⟩

theorem start_join (d : Disk) (dir : String) {file : String} (noSlash : '/' ∉ file.toList) :
    d.start (Path.join dir file) = d.start dir := by
  unfold Disk.start
  rw [Path.isAbsolute_join dir noSlash]

/-- A path into the folder has its file for the last part. -/
theorem Stands.parent (stands : c.Stands d l) {file : String} (plain : PlainFile file)
    (short : (Path.join c.dir file).utf8ByteSize ≤ Disk.longestPath) :
    d.parent (Path.join c.dir file) = .ok (l, file) := by
  have noNul : (Path.join c.dir file).toList.contains '\x00' = false := by
    rw [Bool.eq_false_iff, Ne, List.contains_iff_mem]
    intro h
    rcases Path.mem_join plain.noSlash h with h | h | h
    · exact stands.noNul h
    · cases h
    · exact plain.noNul h
  have full : (Path.join c.dir file).isEmpty = false := by
    rw [Bool.eq_false_iff, Ne, String.isEmpty_iff]
    intro empty
    rcases Path.join_cases c.dir plain.noSlash with h | h | h
    · rw [h.2] at empty
      exact plain.proper.1 empty
    · rw [h.2.2, String.append_eq_empty_iff] at empty
      exact plain.proper.1 empty.2
    · rw [h.2.2, String.append_eq_empty_iff] at empty
      exact plain.proper.1 empty.2
  unfold Disk.parent
  rw [if_neg (by omega), if_neg (by simp [full]), if_neg (by simp only [noNul]; decide),
    Path.segments_join c.dir plain.noSlash]
  dsimp only
  rw [List.dropLast_concat, start_join d c.dir plain.noSlash, stands.reached]
  simp

/-- A path into the folder leads to its file if there is one. -/
theorem Stands.locate (stands : c.Stands d l) {file : String} (plain : PlainFile file)
    (short : (Path.join c.dir file).utf8ByteSize ≤ Disk.longestPath) (fits : file.utf8ByteSize ≤ Disk.longestName) :
    d.locate (Path.join c.dir file) =
      if (d.held? (l ++ [file])).isSome then .ok (l ++ [file]) else .error .missing := by
  have parent := stands.parent plain short
  obtain ⟨t, there⟩ := Disk.isFolder_iff.mp stands.folder
  have step : d.walk l [file] = if (d.held? (l ++ [file])).isSome then .ok (l ++ [file]) else .error .missing := by
    rw [Disk.walk, Disk.step, there]
    dsimp only
    rw [if_neg (by simp [plain.proper]), if_neg plain.proper.2.2, if_neg (by omega), Disk.held?_isSome]
    by_cases found : (d.find? (l ++ [file])).isSome = true
    · rw [if_pos found]
      rfl
    · rw [if_neg found]
  unfold Disk.parent at parent
  rw [if_neg (by omega)] at parent
  unfold Disk.locate Disk.resolve
  rw [if_neg (by omega)]
  split at parent
  · cases parent
  · rename_i full
    split at parent
    · cases parent
    · rename_i noNul
      rw [if_neg full, if_neg noNul, Path.segments_join c.dir plain.noSlash, Disk.walk_append,
        start_join d c.dir plain.noSlash, stands.reached]
      exact step

/-- The folder of the cache stays where it is if folders stay and none is put where its files belong. -/
theorem Stands.change (stands : c.Stands d l) (current : d'.current = d.current)
    (folders : ∀ m, d'.IsFolder m ↔ d.IsFolder m) : c.Stands d' l := by
  have kept : d'.IsFolder l := (folders l).mpr stands.folder
  constructor
  case noNul => exact stands.noNul
  case short => exact stands.short
  case reached =>
    have start : d'.start c.dir = d.start c.dir := by
      unfold Disk.start
      rw [current]
    rw [start]
    refine Disk.walk_of_folders (fun m h => (folders m).mpr h) stands.reached ?_
    rw [kept]
    rfl
  case folder => exact kept
  case free =>
    intro name
    rw [folders, folders]
    exact stands.free name

theorem Stands.makeDir (stands : c.Stands d l) : c.makeDir d = .ok d :=
  InPlace.makeDir ⟨stands.noNul, stands.short, stands.reached, stands.folder⟩

/-- The text of the file at a location. -/
def fileText (d : Disk) (m : Location) : Option String :=
  match d.held? m with
  | some (some (.text s)) => some s
  | _ => none

theorem Stands.read (stands : c.Stands d l) {file : String} (plain : PlainFile file)
    (short : (Path.join c.dir file).utf8ByteSize ≤ Disk.longestPath) (fits : file.utf8ByteSize ≤ Disk.longestName) :
    (d.read (Path.join c.dir file)).toOption = fileText d (l ++ [file]) := by
  unfold Disk.read fileText
  rw [stands.locate plain short fits]
  cases held : d.held? (l ++ [file]) with
  | none => rfl
  | some x =>
    rw [if_pos (by rfl)]
    dsimp only
    unfold Disk.readAt
    unfold Disk.held? at held
    obtain ⟨e, found, same⟩ := Option.map_eq_some_iff.mp held
    rw [found]
    subst same
    rcases e with ⟨s | bytes, t⟩ | t <;> rfl

theorem Stands.readArtifact (stands : c.Stands d l) {name : String} (fits : c.Fits name) :
    c.readArtifact name d = fileText d (l ++ [artifactFile name]) :=
  stands.read (plain_artifactFile name) fits.artifact.2 fits.artifact.1

theorem Stands.readInfo (stands : c.Stands d l) {name : String} (fits : c.Fits name) :
    c.readInfo name d = (fileText d (l ++ [infoFile name])).bind CacheInfo.parse? := by
  have read := stands.read (plain_infoFile name) fits.2 fits.1
  rw [← read]
  unfold FolderCache.readInfo
  have path : c.infoPath name = Path.join c.dir (infoFile name) := rfl
  rw [path]
  cases d.read (Path.join c.dir (infoFile name)) <;> rfl

/-- An artifact that can be read is a file. -/
theorem isFile_of_readArtifact {name artifact : String} (read : c.readArtifact name d = some artifact) :
    d.isFile (c.artifactPath name) = true := by
  unfold FolderCache.readArtifact Disk.read at read
  unfold Disk.isFile
  cases located : d.locate (c.artifactPath name) with
  | error e =>
    rw [located] at read
    cases read
  | ok l =>
    rw [located] at read
    dsimp only at read ⊢
    unfold Disk.readAt at read
    cases found : d.find? l with
    | none =>
      rw [found] at read
      cases read
    | some e =>
      cases e with
      | file content t => rfl
      | folder t =>
        rw [found] at read
        cases read

/-- Writing one of the files of a cache. -/
theorem Stands.write (stands : c.Stands d l) {file : String} (plain : PlainFile file)
    (short : (Path.join c.dir file).utf8ByteSize ≤ Disk.longestPath) (fits : file.utf8ByteSize ≤ Disk.longestName)
    (free : ¬ d.IsFolder (l ++ [file])) (s : String) :
    ∃ d', d.write (Path.join c.dir file) (.text s) = .ok d' ∧ c.Stands d' l ∧
      ∀ m, fileText d' m = if m = l ++ [file] then some s else fileText d m := by
  obtain ⟨d', written, current, held⟩ :=
    d.write_file (.text s) (stands.parent plain short) stands.folder plain.proper fits free
  refine ⟨d', written, stands.change current fun m => ?_, fun m => ?_⟩
  · unfold Disk.IsFolder
    rw [held]
    split
    · rename_i here
      rw [here]
      exact ⟨fun h => (by cases h), fun h => absurd h free⟩
    · exact Iff.rfl
  · unfold fileText
    rw [held]
    by_cases here : m = l ++ [file]
    · rw [if_pos here, if_pos here]
    · rw [if_neg here, if_neg here]

/-- What is stored for a template is there afterwards, and what is there for others stays. -/
theorem Stands.persist (stands : c.Stands d l) {name : String} (fits : c.Fits name) (artifact : String)
    (dependencies : List Dependency) :
    ∃ d', c.persist name artifact dependencies d = (.ok (), d') ∧ c.Stands d' l ∧
      fileText d' (l ++ [artifactFile name]) = some artifact ∧
      fileText d' (l ++ [infoFile name]) = some (CacheInfo.write ⟨compilerVersion, dependencies⟩) ∧
      ∀ other, other ≠ name → fileText d' (l ++ [artifactFile other]) = fileText d (l ++ [artifactFile other]) ∧
        fileText d' (l ++ [infoFile other]) = fileText d (l ++ [infoFile other]) := by
  obtain ⟨d₁, first, stands₁, text₁⟩ :=
    stands.write (plain_artifactFile name) fits.artifact.2 fits.artifact.1 (stands.free name).1 artifact
  obtain ⟨d₂, second, stands₂, text₂⟩ :=
    stands₁.write (plain_infoFile name) fits.2 fits.1 (stands₁.free name).2
      (CacheInfo.write ⟨compilerVersion, dependencies⟩)
  have apart : ∀ {a b : String}, a ≠ b → l ++ [a] ≠ l ++ [b] := by
    intro a b other same
    exact other (List.singleton_inj.mp (List.append_cancel_left same))
  refine ⟨d₂, ?_, stands₂, ?_, ?_, ?_⟩
  · have writeArtifact : c.writeArtifact name artifact d = .ok d₁ := first
    have writeInfo : c.writeInfo name dependencies d₁ = .ok d₂ := second
    unfold FolderCache.persist
    rw [inTurn, stands.makeDir]
    dsimp only
    rw [inTurn, writeArtifact]
    dsimp only
    rw [inTurn, writeInfo]
    rfl
  · rw [text₂, if_neg (apart (artifactFile_ne_infoFile name name)), text₁, if_pos rfl]
  · rw [text₂, if_pos rfl]
  · intro other different
    constructor
    · rw [text₂, if_neg (apart (artifactFile_ne_infoFile other name)), text₁,
        if_neg (apart fun same => different (artifactFile_injective same))]
    · rw [text₂, if_neg (apart fun same => different (infoFile_injective same)), text₁,
        if_neg (apart fun same => artifactFile_ne_infoFile name other same.symm)]

/-- Removing one of the files of a cache. -/
theorem Stands.removeFile (stands : c.Stands d l) {file : String} (plain : PlainFile file)
    (short : (Path.join c.dir file).utf8ByteSize ≤ Disk.longestPath) (fits : file.utf8ByteSize ≤ Disk.longestName) :
    c.Stands (d.removeFile (Path.join c.dir file)) l ∧
      ∀ m, fileText (d.removeFile (Path.join c.dir file)) m = if m = l ++ [file] then none else fileText d m := by
  have located := stands.locate plain short fits
  rcases d.removeFile_held (Path.join c.dir file) with ⟨same, none⟩ | ⟨k, content, found, held, current, after⟩
  · rw [same]
    refine ⟨stands, fun m => ?_⟩
    by_cases here : m = l ++ [file]
    · rw [if_pos here, here]
      unfold fileText
      split
      · rename_i s there
        rw [there, if_pos (by rfl)] at located
        exact absurd there (none _ _ located)
      · rfl
    · rw [if_neg here]
  · have place : k = l ++ [file] := by
      rw [located] at found
      split at found
      · cases found
        rfl
      · cases found
    subst place
    refine ⟨stands.change current fun m => ?_, fun m => ?_⟩
    · unfold Disk.IsFolder
      rw [after]
      split
      · rename_i here
        rw [here, held]
        exact ⟨fun h => (by cases h), fun h => (by cases h)⟩
      · exact Iff.rfl
    · unfold fileText
      rw [after]
      by_cases here : m = l ++ [file]
      · rw [if_pos here, if_pos here]
      · rw [if_neg here, if_neg here]

/-- Nothing is there for a removed template, and what is there for others stays. -/
theorem Stands.remove (stands : c.Stands d l) {name : String} (fits : c.Fits name) :
    let d' := (d.removeFile (c.artifactPath name)).removeFile (c.infoPath name)
    c.Stands d' l ∧ fileText d' (l ++ [infoFile name]) = none ∧
      ∀ other, other ≠ name → fileText d' (l ++ [artifactFile other]) = fileText d (l ++ [artifactFile other]) ∧
        fileText d' (l ++ [infoFile other]) = fileText d (l ++ [infoFile other]) := by
  obtain ⟨stands₁, text₁⟩ := stands.removeFile (plain_artifactFile name) fits.artifact.2 fits.artifact.1
  obtain ⟨stands₂, text₂⟩ := stands₁.removeFile (plain_infoFile name) fits.2 fits.1
  have apart : ∀ {a b : String}, a ≠ b → l ++ [a] ≠ l ++ [b] := by
    intro a b other same
    exact other (List.singleton_inj.mp (List.append_cancel_left same))
  refine ⟨stands₂, ?_, ?_⟩
  · exact (text₂ _).trans (if_pos rfl)
  · intro other different
    constructor
    · refine (text₂ _).trans ?_
      rw [if_neg (apart (artifactFile_ne_infoFile other name)), text₁,
        if_neg (apart fun same => different (artifactFile_injective same))]
    · refine (text₂ _).trans ?_
      rw [if_neg (apart fun same => different (infoFile_injective same)), text₁,
        if_neg (apart fun same => artifactFile_ne_infoFile name other same.symm)]

/-! #### A folder of its own -/

/-- The folder can be made, if it is not there, and then nothing is in it. -/
def Fresh (c : FolderCache) (d : Disk) : Prop :=
  d.Rooted ∧ ∃ d' l, c.makeDir d = .ok d' ∧ d'.walk (d'.start c.dir) (Path.wayTo c.dir) = .ok l ∧
    d'.IsFolder l ∧ ∀ part, d'.held? (l ++ [part]) = none

theorem Fresh.made (fresh : c.Fresh d) :
    ∃ d' l, c.makeDir d = .ok d' ∧ c.Stands d' l ∧ (∀ part, d'.held? (l ++ [part]) = none) ∧ d.Within d' := by
  obtain ⟨rooted, d', l, made, reached, folder, empty⟩ := fresh
  have made' := made
  unfold FolderCache.makeDir Disk.makeFolders at made'
  split at made'
  · cases made'
  · rename_i noNul
    split at made'
    · cases made'
    · rename_i short
      have within : d.Within d' := by
        split at made'
        · cases made'
          exact ⟨rfl, fun m x h => h⟩
        · exact Disk.Within.makeWalk rooted ⟨rfl, fun m x h => h⟩ made'
      refine ⟨d', l, made, ⟨?_, by omega, reached, folder, ?_⟩, empty, within⟩
      · intro h
        exact noNul (List.contains_iff_mem.mpr h)
      · intro name
        unfold Disk.IsFolder
        rw [empty, empty]
        exact ⟨fun h => (by cases h), fun h => (by cases h)⟩

/-- No path into a folder of its own leads to anything. -/
theorem Fresh.locate (fresh : c.Fresh d) {file : String} (plain : PlainFile file)
    (short : (Path.join c.dir file).utf8ByteSize ≤ Disk.longestPath) (fits : file.utf8ByteSize ≤ Disk.longestName)
    {m : Location} (located : d.locate (Path.join c.dir file) = .ok m) : d.held? m = none := by
  obtain ⟨d', l, -, stands, empty, within⟩ := fresh.made
  have missing := stands.locate plain short fits
  rw [empty, if_neg (by simp)] at missing
  cases held : d.held? m with
  | none => rfl
  | some x =>
    exfalso
    have start : d'.start (Path.join c.dir file) = d.start (Path.join c.dir file) := by
      unfold Disk.start
      rw [within.1]
    unfold Disk.locate Disk.resolve at located missing
    split at located
    · cases located
    · rename_i long
      rw [if_neg long] at missing
      split at located
      · cases located
      · rename_i full
        rw [if_neg full] at missing
        split at located
        · cases located
        · rename_i noNul
          rw [if_neg noNul, start] at missing
          have again := Disk.walk_of_folders (fun k h => within.2 k none h) located (by rw [within.2 m x held]; rfl)
          rw [again] at missing
          cases missing

theorem Fresh.read (fresh : c.Fresh d) {file : String} (plain : PlainFile file)
    (short : (Path.join c.dir file).utf8ByteSize ≤ Disk.longestPath) (fits : file.utf8ByteSize ≤ Disk.longestName) :
    (d.read (Path.join c.dir file)).toOption = none := by
  unfold Disk.read
  cases located : d.locate (Path.join c.dir file) with
  | error e => rfl
  | ok m =>
    have none := fresh.locate plain short fits located
    unfold Disk.held? at none
    dsimp only
    unfold Disk.readAt
    rw [Option.map_eq_none_iff.mp none]
    rfl

theorem Fresh.removeFile (fresh : c.Fresh d) {file : String} (plain : PlainFile file)
    (short : (Path.join c.dir file).utf8ByteSize ≤ Disk.longestPath) (fits : file.utf8ByteSize ≤ Disk.longestName) :
    d.removeFile (Path.join c.dir file) = d := by
  rcases d.removeFile_held (Path.join c.dir file) with ⟨same, -⟩ | ⟨k, content, found, held, -⟩
  · exact same
  · rw [fresh.locate plain short fits found] at held
    cases held

/-- The folder is the cache's own, and works. -/
def Usable (c : FolderCache) (d : Disk) : Prop := c.Fresh d ∨ ∃ l, c.Stands d l

/-- What is on disk for a template. -/
structure Shows (c : FolderCache) (d : Disk) (name : String) (artifact : Option String) (info : Option CacheInfo) :
    Prop where
  artifact : c.readArtifact name d = artifact
  info : c.readInfo name d = info

theorem Fresh.shows (fresh : c.Fresh d) {name : String} (fits : c.Fits name) : c.Shows d name none none := by
  constructor
  · exact fresh.read (plain_artifactFile name) fits.artifact.2 fits.artifact.1
  · have read := fresh.read (plain_infoFile name) fits.2 fits.1
    have path : c.infoPath name = Path.join c.dir (infoFile name) := rfl
    unfold FolderCache.readInfo
    rw [path]
    cases found : d.read (Path.join c.dir (infoFile name)) with
    | error e => rfl
    | ok s =>
      rw [found] at read
      cases read

theorem Stands.shows (stands : c.Stands d l) {name : String} (fits : c.Fits name) :
    c.Shows d name (fileText d (l ++ [artifactFile name]))
      ((fileText d (l ++ [infoFile name])).bind CacheInfo.parse?) :=
  ⟨stands.readArtifact fits, stands.readInfo fits⟩

/-- Storing succeeds, shows what was stored, and changes nothing else. -/
theorem Usable.persist (usable : c.Usable d) {name : String} (fits : c.Fits name) (artifact : String)
    {dependencies : List Dependency} (stamps : CacheInfo.Fits dependencies) :
    ∃ d', c.persist name artifact dependencies d = (.ok (), d') ∧ c.Usable d' ∧
      c.Shows d' name (some artifact) (some ⟨compilerVersion, dependencies⟩) ∧
      ∀ other, c.Fits other → other ≠ name → ∀ a i, c.Shows d other a i → c.Shows d' other a i := by
  have written : CacheInfo.parse? (CacheInfo.write ⟨compilerVersion, dependencies⟩) =
      some ⟨compilerVersion, dependencies⟩ := CacheInfo.parse?_write stamps
  rcases usable with fresh | ⟨l, stands⟩
  · obtain ⟨d₁, l, made, stands, empty, -⟩ := fresh.made
    obtain ⟨d', stored, stands', art, inf, others⟩ := stands.persist fits artifact dependencies
    refine ⟨d', ?_, Or.inr ⟨l, stands'⟩, ?_, ?_⟩
    · unfold FolderCache.persist at stored ⊢
      rw [inTurn, stands.makeDir] at stored
      rw [inTurn, made]
      exact stored
    · have shows := stands'.shows fits
      rw [art, inf, Option.bind_some, written] at shows
      exact shows
    · intro other fits' different a i shows
      have before := fresh.shows fits'
      have after := stands'.shows fits'
      obtain ⟨noArtifact, noInfo⟩ := others other different
      have blank : ∀ part, fileText d₁ (l ++ [part]) = none := by
        intro part
        unfold fileText
        rw [empty]
      rw [noArtifact, noInfo, blank, blank] at after
      rw [← shows.artifact, ← shows.info, before.artifact, before.info]
      exact after
  · obtain ⟨d', stored, stands', art, inf, others⟩ := stands.persist fits artifact dependencies
    refine ⟨d', stored, Or.inr ⟨l, stands'⟩, ?_, ?_⟩
    · have shows := stands'.shows fits
      rw [art, inf, Option.bind_some, written] at shows
      exact shows
    · intro other fits' different a i shows
      have before := stands.shows fits'
      have after := stands'.shows fits'
      obtain ⟨sameArtifact, sameInfo⟩ := others other different
      rw [sameArtifact, sameInfo] at after
      rw [← shows.artifact, ← shows.info, before.artifact, before.info]
      exact after

/-- Removing takes away what is shown of a template, and changes nothing else. -/
theorem Usable.remove (usable : c.Usable d) {name : String} (fits : c.Fits name) :
    let d' := (d.removeFile (c.artifactPath name)).removeFile (c.infoPath name)
    c.Usable d' ∧ c.readInfo name d' = none ∧
      ∀ other, c.Fits other → other ≠ name → ∀ a i, c.Shows d other a i → c.Shows d' other a i := by
  rcases usable with fresh | ⟨l, stands⟩
  · have first : d.removeFile (c.artifactPath name) = d :=
      fresh.removeFile (plain_artifactFile name) fits.artifact.2 fits.artifact.1
    have second : d.removeFile (c.infoPath name) = d := fresh.removeFile (plain_infoFile name) fits.2 fits.1
    dsimp only
    rw [first, second]
    exact ⟨Or.inl fresh, (fresh.shows fits).info, fun _ _ _ _ _ shows => shows⟩
  · obtain ⟨stands', none, others⟩ := stands.remove fits
    refine ⟨Or.inr ⟨l, stands'⟩, ?_, ?_⟩
    · rw [stands'.readInfo fits, none]
      rfl
    · intro other fits' different a i shows
      have before := stands.shows fits'
      have after := stands'.shows fits'
      obtain ⟨sameArtifact, sameInfo⟩ := others other different
      rw [sameArtifact, sameInfo] at after
      rw [← shows.artifact, ← shows.info, before.artifact, before.info]
      exact after

end FolderCache

end Stencil
