import Stencil.Proofs.Cache.Transparency

/-!
What becomes of an artifact when it cannot be written down. The cache in a folder has its copy in memory by then,
and goes on to serve it, unless information on disk that can be read tells of other sources. That information is
from an earlier artifact, since the new information is written last; only where it is left, and the new artifact
was not written, is the new artifact lost.
-/
namespace Stencil

namespace Disk

open Stencil.Path (PlainFile)

variable {d d' : Disk} {dir file path : String} {content : FileContent} {l : Location}

theorem write_ok (written : d.write path content = .ok d') :
    ∃ folder name, d.parent path = .ok (folder, name) ∧ d.IsFolder folder ∧ name.utf8ByteSize ≤ longestName ∧
      d'.current = d.current ∧ ¬ d.IsFolder (folder ++ [name]) ∧
      ∀ m, d'.held? m = if m = folder ++ [name] then some (some content) else d.held? m := by
  have whole := written
  unfold write at written
  cases parent : d.parent path with
  | error e =>
    rw [parent] at written
    cases written
  | ok p =>
    obtain ⟨folder, name⟩ := p
    rw [parent] at written
    dsimp only at written
    cases there : d.find? folder with
    | none =>
      rw [there] at written
      cases written
    | some e =>
      rw [there] at written
      cases e with
      | file old t => cases written
      | folder t =>
        dsimp only at written
        by_cases proper : name = "" ∨ name = "." ∨ name = ".."
        · rw [if_pos proper] at written
          cases written
        rw [if_neg proper] at written
        by_cases long : longestName < name.utf8ByteSize
        · rw [if_pos long] at written
          cases written
        rw [if_neg long] at written
        have stands : d.IsFolder folder := isFolder_iff.mpr ⟨t, there⟩
        have free : ¬ d.IsFolder (folder ++ [name]) := by
          intro taken
          obtain ⟨t', here⟩ := isFolder_iff.mp taken
          rw [here] at written
          cases written
        simp only [not_or] at proper
        obtain ⟨d'', same, current, held⟩ :=
          d.write_file content parent stands proper (by omega) free
        cases same.symm.trans whole
        exact ⟨folder, name, rfl, stands, by omega, current, free, held⟩

theorem parent_join (plain : PlainFile file) {name : String} (parent : d.parent (Path.join dir file) = .ok (l, name)) :
    name = file ∧ d.walk (d.start dir) (Path.wayTo dir) = .ok l ∧
      ¬ longestPath < (Path.join dir file).utf8ByteSize ∧ ¬ (Path.join dir file).isEmpty = true ∧
      ¬ (Path.join dir file).toList.contains '\x00' = true := by
  unfold Disk.parent at parent
  split at parent
  · cases parent
  rename_i short
  split at parent
  · cases parent
  rename_i full
  split at parent
  · cases parent
  rename_i clean
  rw [Path.segments_join dir plain.noSlash] at parent
  dsimp only at parent
  rw [List.dropLast_concat, FolderCache.start_join d dir plain.noSlash] at parent
  cases reached : d.walk (d.start dir) (Path.wayTo dir) with
  | error e =>
    rw [reached] at parent
    cases parent
  | ok m =>
    rw [reached] at parent
    simp only [List.getLastD_concat, Except.ok.injEq, Prod.mk.injEq] at parent
    exact ⟨parent.2.symm, by rw [parent.1], short, full, clean⟩

theorem walk_last {parts : List String} {start : Location} (reached : d.walk start parts = .ok l) (part : String) :
    d.walk start (parts ++ [part]) = d.step l part := by
  rw [walk_append, reached]
  dsimp only
  rw [walk]
  cases d.step l part <;> rfl

theorem step_file (folder : d.IsFolder l) (plain : PlainFile file) :
    d.step l file = if longestName < file.utf8ByteSize then .error .nameTooLong
      else if (d.held? (l ++ [file])).isSome then .ok (l ++ [file]) else .error .missing := by
  obtain ⟨t, there⟩ := isFolder_iff.mp folder
  obtain ⟨full, here, up⟩ := plain.proper
  unfold Disk.step
  rw [there]
  dsimp only
  rw [if_neg (by simp [full, here]), if_neg up, held?_isSome]

theorem readAt_congr {m : Location} (same : d'.held? m = d.held? m) : d'.readAt m = d.readAt m := by
  unfold held? at same
  unfold readAt
  rcases here : d'.find? m with - | (⟨content', t'⟩ | t') <;>
    rcases there : d.find? m with - | (⟨content, t⟩ | t) <;> rw [here, there] at same
  all_goals first
    | rfl
    | cases same
  cases content' <;> rfl

/-- A file in a folder that both disks have is read alike if it is the same. -/
theorem read_join_congr {c : FolderCache} (plain : PlainFile file) (inPlace : c.InPlace d l) (inPlace' : c.InPlace d' l)
    (same : d'.held? (l ++ [file]) = d.held? (l ++ [file])) :
    d'.read (Path.join c.dir file) = d.read (Path.join c.dir file) := by
  have located : d'.locate (Path.join c.dir file) = d.locate (Path.join c.dir file) := by
    unfold Disk.locate Disk.resolve
    rw [FolderCache.start_join d c.dir plain.noSlash, FolderCache.start_join d' c.dir plain.noSlash,
      Path.segments_join c.dir plain.noSlash, walk_last inPlace.reached, walk_last inPlace'.reached,
      step_file inPlace.folder plain, step_file inPlace'.folder plain, same]
  unfold Disk.read
  rw [located]
  cases found : d.locate (Path.join c.dir file) with
  | error e => rfl
  | ok m =>
    dsimp only
    apply readAt_congr
    unfold Disk.locate Disk.resolve at found
    split at found
    · cases found
    split at found
    · cases found
    split at found
    · cases found
    rw [FolderCache.start_join d c.dir plain.noSlash, Path.segments_join c.dir plain.noSlash, walk_last inPlace.reached,
      step_file inPlace.folder plain] at found
    split at found
    · cases found
    split at found
    · cases found
      exact same
    · cases found

theorem utf8ByteSize_le_join (dir : String) (plain : PlainFile file) :
    dir.utf8ByteSize ≤ (Path.join dir file).utf8ByteSize := by
  rcases Path.join_cases dir plain.noSlash with ⟨rfl, -⟩ | ⟨-, -, path⟩ | ⟨-, -, path⟩
  · exact Nat.zero_le _
  · rw [path, String.utf8ByteSize_append]
    exact Nat.le_add_right _ _
  · rw [path, String.utf8ByteSize_append, String.utf8ByteSize_append]
    omega

theorem mem_join_of_mem {dir : String} (plain : PlainFile file) {char : Char} (mem : char ∈ dir.toList) :
    char ∈ (Path.join dir file).toList := by
  rcases Path.join_cases dir plain.noSlash with ⟨rfl, -⟩ | ⟨-, -, path⟩ | ⟨-, -, path⟩
  · cases mem
  all_goals
    rw [path]
    simp [mem]

/-- The folder of a file that was written was there, and is. Nothing else has changed. -/
theorem write_join {c : FolderCache} (plain : PlainFile file)
    (written : d.write (Path.join c.dir file) content = .ok d') :
    ∃ l, c.InPlace d l ∧ c.InPlace d' l ∧ file.utf8ByteSize ≤ longestName ∧
      d'.locate (Path.join c.dir file) = d'.walk (d'.start c.dir) (Path.wayTo c.dir ++ [file]) ∧
      ∀ m, d'.held? m = if m = l ++ [file] then some (some content) else d.held? m := by
  obtain ⟨folder, name, parent, stands, small, current, free, held⟩ := write_ok written
  obtain ⟨rfl, reached, short, full, clean⟩ := parent_join plain parent
  have folders : ∀ m, d.IsFolder m → d'.IsFolder m := by
    intro m stood
    unfold IsFolder
    rw [held, if_neg (fun same : m = folder ++ [name] => free (same ▸ stood))]
    exact stood
  have start : d'.start c.dir = d.start c.dir := by
    unfold Disk.start
    rw [current]
  have noNul : '\x00' ∉ c.dir.toList := fun mem =>
    clean (List.contains_iff_mem.mpr (mem_join_of_mem plain mem))
  have size := utf8ByteSize_le_join c.dir plain
  refine ⟨folder, ⟨noNul, by omega, reached, stands⟩, ⟨noNul, by omega, ?_, folders folder stands⟩, small, ?_, held⟩
  · rw [start]
    apply walk_of_folders folders reached
    rw [folders folder stands]
    rfl
  · unfold Disk.locate Disk.resolve
    rw [if_neg short, if_neg full, if_neg clean, FolderCache.start_join d' c.dir plain.noSlash,
      Path.segments_join c.dir plain.noSlash]

/-- A file that was written is read, and the other files of its folder are read as before. -/
theorem read_write_join {c : FolderCache} (plain : PlainFile file)
    (written : d.write (Path.join c.dir file) content = .ok d') :
    (∀ s, content = .text s → d'.read (Path.join c.dir file) = .ok s) ∧
      ∀ other, PlainFile other → other ≠ file → d'.read (Path.join c.dir other) = d.read (Path.join c.dir other) := by
  obtain ⟨l, before, after, small, located, held⟩ := write_join plain written
  constructor
  · intro s text
    have here : d'.held? (l ++ [file]) = some (some (.text s)) := by
      rw [held, if_pos rfl, text]
    unfold Disk.read
    rw [located, walk_last after.reached, step_file after.folder plain, if_neg (by omega), here]
    unfold held? at here
    obtain ⟨e, found, same⟩ := Option.map_eq_some_iff.mp here
    cases e with
    | folder t => cases same
    | file c t =>
      cases same
      simp [readAt, found]
  · intro other plain' apart
    apply read_join_congr plain' before after
    rw [held, if_neg]
    intro same
    exact apart (List.append_cancel_left same |> List.singleton_inj.mp)

end Disk

namespace FolderCache

variable {c : FolderCache} {name artifact : String} {dependencies : List Dependency} {d d' : Disk}

/-! ### What failures leave behind -/

/-- How it may go to write an artifact and the information about it. Each step may fail, and a file whose writing
fails may hold anything. -/
inductive Persists (c : FolderCache) (name artifact : String) (dependencies : List Dependency) (d : Disk) :
    Except TemplateError Unit → Disk → Prop where
  | noFolder (e : DiskFault) : Persists c name artifact dependencies d (.error (.io e)) d
  | noArtifact {d₁ : Disk} (e : DiskFault) (folder : c.makeDir d = .ok d₁) :
      Persists c name artifact dependencies d (.error (.io e)) d₁
  | tornArtifact {d₁ d₂ : Disk} (e : DiskFault) (content : FileContent) (folder : c.makeDir d = .ok d₁)
      (torn : d₁.write (c.artifactPath name) content = .ok d₂) :
      Persists c name artifact dependencies d (.error (.io e)) d₂
  | noInfo {d₁ d₂ : Disk} (e : DiskFault) (folder : c.makeDir d = .ok d₁)
      (written : c.writeArtifact name artifact d₁ = .ok d₂) :
      Persists c name artifact dependencies d (.error (.io e)) d₂
  | tornInfo {d₁ d₂ d₃ : Disk} (e : DiskFault) (content : FileContent) (folder : c.makeDir d = .ok d₁)
      (written : c.writeArtifact name artifact d₁ = .ok d₂) (torn : d₂.write (c.infoPath name) content = .ok d₃) :
      Persists c name artifact dependencies d (.error (.io e)) d₃
  | complete {d₁ d₂ d₃ : Disk} (folder : c.makeDir d = .ok d₁)
      (written : c.writeArtifact name artifact d₁ = .ok d₂)
      (informed : c.writeInfo name dependencies d₂ = .ok d₃) :
      Persists c name artifact dependencies d (.ok ()) d₃

theorem persist_persists (c : FolderCache) (name artifact : String) (dependencies : List Dependency) (d : Disk) :
    c.Persists name artifact dependencies d (c.persist name artifact dependencies d).1
      (c.persist name artifact dependencies d).2 := by
  unfold persist
  cases folder : c.makeDir d with
  | error e =>
    simp only [inTurn, folder]
    exact .noFolder e
  | ok d₁ =>
    cases written : c.writeArtifact name artifact d₁ with
    | error e =>
      simp only [inTurn, folder, written]
      exact .noArtifact e folder
    | ok d₂ =>
      cases informed : c.writeInfo name dependencies d₂ with
      | error e =>
        simp only [inTurn, folder, written, informed]
        exact .noInfo e folder written
      | ok d₃ =>
        simp only [inTurn, folder, written, informed]
        exact .complete folder written informed

/-- How it may go to store an artifact that is a program. -/
def Stored (c : FolderCache) (name artifact : String) (dependencies : List Dependency) (s : FolderCacheState)
    (r : Except TemplateError Unit) (s' : FolderCacheState) : Prop :=
  ∃ entry, CacheEntry.make name artifact dependencies = .ok entry ∧
    c.Persists name artifact dependencies s.disk r s'.disk ∧ s'.copies = Keyed.put name entry s.copies

theorem store_stored {entry : CacheEntry} (made : CacheEntry.make name artifact dependencies = .ok entry)
    (c : FolderCache) (s : FolderCacheState) :
    c.Stored name artifact dependencies s (c.store name artifact dependencies s).1
      (c.store name artifact dependencies s).2 := by
  unfold store
  rw [made]
  exact ⟨entry, made, c.persist_persists name artifact dependencies s.disk, rfl⟩

/-! ### What is on disk then -/

/-- There is information on disk that can be read, and it tells of other sources. -/
def Superseded (c : FolderCache) (name : String) (dependencies : List Dependency) (d : Disk) : Prop :=
  ∃ info, c.readInfo name d = some info ∧ info.dependencies ≠ dependencies

/-- Other information is on disk, and not the artifact. -/
def Lost (c : FolderCache) (name artifact : String) (dependencies : List Dependency) (d : Disk) : Prop :=
  c.Superseded name dependencies d ∧ c.readArtifact name d ≠ some artifact

theorem readArtifact_congr (same : d'.read (c.artifactPath name) = d.read (c.artifactPath name)) :
    c.readArtifact name d' = c.readArtifact name d := congrArg Except.toOption same

theorem readInfo_congr (same : d'.read (c.infoPath name) = d.read (c.infoPath name)) :
    c.readInfo name d' = c.readInfo name d := by
  unfold readInfo
  rw [same]

theorem readArtifact_writeArtifact (written : c.writeArtifact name artifact d = .ok d') :
    c.readArtifact name d' = some artifact :=
  congrArg Except.toOption ((Disk.read_write_join (plain_artifactFile name) written).1 artifact rfl)

/-- Whatever comes to be in the file of the information, the artifact stays. -/
theorem readArtifact_write_info {content : FileContent} (written : d.write (c.infoPath name) content = .ok d') :
    c.readArtifact name d' = c.readArtifact name d :=
  readArtifact_congr ((Disk.read_write_join (plain_infoFile name) written).2 (artifactFile name)
    (plain_artifactFile name) (artifactFile_ne_infoFile name name))

theorem readInfo_write_artifact {content : FileContent} (written : d.write (c.artifactPath name) content = .ok d') :
    c.readInfo name d' = c.readInfo name d :=
  readInfo_congr ((Disk.read_write_join (plain_artifactFile name) written).2 (infoFile name)
    (plain_infoFile name) (artifactFile_ne_infoFile name name).symm)

theorem readInfo_writeInfo (stamps : CacheInfo.Fits dependencies) (written : c.writeInfo name dependencies d = .ok d') :
    c.readInfo name d' = some ⟨compilerVersion, dependencies⟩ := by
  have read : d'.read (c.infoPath name) = .ok (CacheInfo.write ⟨compilerVersion, dependencies⟩) :=
    (Disk.read_write_join (plain_infoFile name) written).1 _ rfl
  unfold readInfo
  rw [read]
  exact CacheInfo.parse?_write stamps

/-- Information that was written and can be read is read as it was written. -/
theorem eq_of_readInfo (written : c.writeInfo name dependencies d = .ok d') {info : CacheInfo}
    (read : c.readInfo name d' = some info) : info = ⟨compilerVersion, dependencies⟩ := by
  have text : d'.read (c.infoPath name) = .ok (CacheInfo.write ⟨compilerVersion, dependencies⟩) :=
    (Disk.read_write_join (plain_infoFile name) written).1 _ rfl
  unfold readInfo at read
  rw [text] at read
  exact CacheInfo.eq_of_parse?_write read

/-- What was written without an error is on disk, the information if it can be read. -/
theorem Persists.written (persists : c.Persists name artifact dependencies d (.ok ()) d') :
    c.readArtifact name d' = some artifact ∧
      ∀ info, c.readInfo name d' = some info → info = ⟨compilerVersion, dependencies⟩ := by
  cases persists with
  | complete folder written informed =>
    exact ⟨(readArtifact_write_info informed).trans (readArtifact_writeArtifact written),
      fun info read => eq_of_readInfo informed read⟩

/-- An artifact gets lost only by an error, to information that was there before a file was written. -/
theorem Persists.lost (stamps : CacheInfo.Fits dependencies) {r : Except TemplateError Unit}
    (persists : c.Persists name artifact dependencies d r d') (lost : c.Lost name artifact dependencies d') :
    (∃ e, r = .error (.io e)) ∧ ∃ d₁, (d₁ = d ∨ c.makeDir d = .ok d₁) ∧ c.readInfo name d' = c.readInfo name d₁ := by
  obtain ⟨⟨info, read, other⟩, missing⟩ := lost
  cases persists with
  | noFolder e => exact ⟨⟨e, rfl⟩, d, .inl rfl, rfl⟩
  | noArtifact e folder => exact ⟨⟨e, rfl⟩, d', .inr folder, rfl⟩
  | @tornArtifact d₁ _ e content folder torn =>
    exact ⟨⟨e, rfl⟩, d₁, .inr folder, readInfo_write_artifact torn⟩
  | noInfo e folder written => exact absurd (readArtifact_writeArtifact written) missing
  | tornInfo e content folder written torn =>
    rw [readArtifact_write_info torn] at missing
    exact absurd (readArtifact_writeArtifact written) missing
  | complete folder written informed =>
    rw [readInfo_writeInfo stamps informed] at read
    cases read
    exact absurd rfl other

theorem Persists.result {r : Except TemplateError Unit} (persists : c.Persists name artifact dependencies d r d') :
    r = .ok () ∨ ∃ e, r = .error (.io e) := by
  cases persists with
  | noFolder e => exact .inr ⟨e, rfl⟩
  | noArtifact e => exact .inr ⟨e, rfl⟩
  | tornArtifact e => exact .inr ⟨e, rfl⟩
  | noInfo e => exact .inr ⟨e, rfl⟩
  | tornInfo e => exact .inr ⟨e, rfl⟩
  | complete => exact .inl rfl

/-! ### Serving -/

/-- The two ways to ask a cache for what it has for a name. -/
inductive Query where
  | load
  | artifact

def ask (c : FolderCache) (name : String) (s : FolderCacheState) : Query → FolderCacheState
  | .load => (c.load name s).2
  | .artifact => (c.artifact name s).2

/-- However often it was asked before, the cache gives this program and its artifact. -/
def Serves (c : FolderCache) (name : String) (entry : CacheEntry) (s : FolderCacheState) : Prop :=
  ∀ queries : List Query, (c.load name (queries.foldl (c.ask name) s)).1 = .ok entry.program ∧
    (c.artifact name (queries.foldl (c.ask name) s)).1 = some entry.artifact

/-- The copy in memory, if there is one, is of this artifact, and so is what takes its place if it is dropped. -/
def Ready (c : FolderCache) (name : String) (entry : CacheEntry) (s : FolderCacheState) : Prop :=
  (∀ copy, Keyed.get? name s.copies = some copy → copy.artifact = entry.artifact ∧ copy.program = entry.program) ∧
    (c.readArtifact name s.disk = some entry.artifact ∨
      ∃ copy, Keyed.get? name s.copies = some copy ∧ ¬ c.Superseded name copy.dependencies s.disk)

theorem copy?_of_current {s : FolderCacheState} {copy : CacheEntry} (held : Keyed.get? name s.copies = some copy)
    (current : ¬ c.Superseded name copy.dependencies s.disk) : c.copy? name s = (some copy, s) := by
  unfold copy?
  rw [held]
  dsimp only
  cases read : c.readInfo name s.disk with
  | none => rfl
  | some info =>
    have same : info.dependencies = copy.dependencies := by
      apply Decidable.byContradiction
      intro other
      exact current ⟨info, read, other⟩
    exact if_pos same

theorem copy?_of_superseded {s : FolderCacheState} {copy : CacheEntry} (held : Keyed.get? name s.copies = some copy)
    (superseded : c.Superseded name copy.dependencies s.disk) :
    c.copy? name s = (none, { s with copies := Keyed.erase name s.copies }) := by
  obtain ⟨info, read, other⟩ := superseded
  unfold copy?
  rw [held, read]
  exact if_neg other

theorem copy?_of_absent {s : FolderCacheState} (absent : Keyed.get? name s.copies = none) :
    c.copy? name s = (none, s) := by
  unfold copy?
  rw [absent]

/-- Either a copy is used, or it is dropped and the disk has the artifact. -/
theorem Ready.copy? {entry : CacheEntry} {s : FolderCacheState} (ready : c.Ready name entry s) :
    (∃ copy, c.copy? name s = (some copy, s) ∧ copy.artifact = entry.artifact ∧ copy.program = entry.program) ∨
      ∃ s', c.copy? name s = (none, s') ∧ s'.disk = s.disk ∧ Keyed.get? name s'.copies = none ∧
        c.readArtifact name s.disk = some entry.artifact := by
  obtain ⟨same, source⟩ := ready
  cases held : Keyed.get? name s.copies with
  | none =>
    right
    rcases source with read | ⟨copy, there, -⟩
    · exact ⟨s, copy?_of_absent held, rfl, held, read⟩
    · rw [held] at there
      cases there
  | some copy =>
    by_cases superseded : c.Superseded name copy.dependencies s.disk
    · right
      rcases source with read | ⟨other, there, current⟩
      · exact ⟨_, copy?_of_superseded held superseded, rfl, Keyed.get?_erase_self name _, read⟩
      · cases held.symm.trans there
        exact absurd superseded current
    · left
      exact ⟨copy, copy?_of_current held superseded, same copy held⟩

theorem Ready.load {entry : CacheEntry} (parsed : Program.parse name entry.artifact = .ok entry.program)
    {s : FolderCacheState} (ready : c.Ready name entry s) :
    (c.load name s).1 = .ok entry.program ∧ c.Ready name entry (c.load name s).2 := by
  unfold FolderCache.load
  rcases ready.copy? with ⟨copy, used, artifact, program⟩ | ⟨s', dropped, disk, -, read⟩
  · rw [used]
    exact ⟨congrArg Except.ok program, ready⟩
  · rw [dropped]
    dsimp only
    rw [← disk] at read
    have again : ∀ dependencies, CacheEntry.make name entry.artifact dependencies =
        .ok ⟨entry.artifact, entry.program, dependencies⟩ := by
      intro dependencies
      unfold CacheEntry.make
      rw [parsed]
      rfl
    unfold loadFromDisk
    rw [read]
    dsimp only
    rw [again]
    constructor
    · rfl
    constructor
    · intro copy held
      dsimp only at held
      rw [Keyed.get?_put_self] at held
      cases held
      exact ⟨rfl, rfl⟩
    · exact .inl read

theorem Ready.shown {entry : CacheEntry} {s : FolderCacheState} (ready : c.Ready name entry s) :
    (c.artifact name s).1 = some entry.artifact ∧ c.Ready name entry (c.artifact name s).2 := by
  unfold FolderCache.artifact
  rcases ready.copy? with ⟨copy, used, artifact, program⟩ | ⟨s', dropped, disk, absent, read⟩
  · rw [used]
    exact ⟨congrArg some artifact, ready⟩
  · rw [dropped]
    rw [← disk] at read
    constructor
    · exact read
    constructor
    · intro copy held
      cases absent.symm.trans held
    · exact .inl read

theorem Ready.serves {entry : CacheEntry} (parsed : Program.parse name entry.artifact = .ok entry.program)
    {s : FolderCacheState} (ready : c.Ready name entry s) : c.Serves name entry s := by
  intro queries
  have later : c.Ready name entry (queries.foldl (c.ask name) s) := by
    induction queries generalizing s with
    | nil => exact ready
    | cons query queries ih =>
      cases query with
      | load => exact ih (ready.load parsed).2
      | artifact => exact ih ready.shown.2
  exact ⟨(later.load parsed).1, later.shown.1⟩

/-- After an artifact was stored it is served, unless it was lost. -/
theorem serves_iff {entry : CacheEntry} (made : CacheEntry.make name artifact dependencies = .ok entry)
    {s : FolderCacheState} (held : Keyed.get? name s.copies = some entry) :
    c.Serves name entry s ↔ ¬ c.Lost name artifact dependencies s.disk := by
  obtain ⟨text, sources, parsed⟩ := CacheEntry.make_ok made
  constructor
  · rintro serves ⟨superseded, missing⟩
    have served := (serves []).2
    rw [← sources] at superseded
    unfold FolderCache.artifact at served
    rw [List.foldl_nil, copy?_of_superseded held superseded] at served
    rw [text] at served
    exact missing served
  · intro kept
    have ready : c.Ready name entry s := by
      constructor
      · intro copy there
        cases held.symm.trans there
        exact ⟨rfl, rfl⟩
      · by_cases superseded : c.Superseded name dependencies s.disk
        · left
          rw [text]
          apply Decidable.byContradiction
          intro missing
          exact kept ⟨superseded, missing⟩
        · right
          exact ⟨entry, held, by rw [sources]; exact superseded⟩
    rw [← text] at parsed
    exact ready.serves parsed

end FolderCache

/-! ### Renderers -/

namespace Renderer

variable {W : Type} {r : Renderer W} {name : String}

/-- A page that had to be compiled is that of the program that was stored, if the cache serves it. -/
theorem renderValue_stale {c : FolderCache} {part : Part W FolderCacheState}
    {attempt : String → String → List Dependency → StateM W (Except TemplateError Unit)}
    (cache : r.cache = { Cache.folder c part with store := attempt }) {w w₁ : Workbench W} {w₂ : W}
    {compiled : Compiled} {result : Except TemplateError Unit} {entry : CacheEntry}
    (stale : r.isFresh name w = (.ok false, w)) (compiles : r.compile name w = (.ok compiled, w₁))
    (stores : attempt name compiled.artifact compiled.template.dependencies w₁.world = (result, w₂))
    (either : result = .ok () ∨ ∃ e, result = .error (.io e))
    (serves : c.Serves name entry (part.get w₂)) (params : Value) :
    (r.renderValue name params w).1 = entry.program.execute params r.functions := by
  have stored : r.cache.store name compiled.artifact compiled.template.dependencies w₁.world = (result, w₂) := by
    rw [cache]
    exact stores
  have ensured : r.ensure name w = (.ok (), { w₁ with world := w₂ }) := by
    rw [ensure_stale stale, compileAndKeep_of_ok compiles stored, tolerated_eq either]
  have loaded : r.cache.load name w₂ = (.ok entry.program, part.set (c.load name (part.get w₂)).2 w₂) := by
    rw [cache]
    exact Prod.ext (serves []).1 rfl
  rw [renderValue_of_load ensured loaded]

end Renderer

namespace FolderCache

variable {c : FolderCache} {name artifact : String} {dependencies : List Dependency}

/-- However an artifact is stored, the next requests for it get this artifact and its program, also a renderer that
has just compiled it, except where it was lost: then it could not be written, and information of other sources was
on disk before. -/
theorem stored_artifacts_are_served {entry : CacheEntry}
    (made : CacheEntry.make name artifact dependencies = .ok entry) (stamps : CacheInfo.Fits dependencies)
    {s s' : FolderCacheState} {result : Except TemplateError Unit}
    (stored : c.Stored name artifact dependencies s result s') :
    (result = .ok () ∨ ∃ e, result = .error (.io e)) ∧
    (c.Serves name entry s' ↔ ¬ c.Lost name artifact dependencies s'.disk) ∧
    (c.Lost name artifact dependencies s'.disk → (∃ e, result = .error (.io e)) ∧
      ∃ d, (d = s.disk ∨ c.makeDir s.disk = .ok d) ∧ c.Superseded name dependencies d ∧
        c.readInfo name s'.disk = c.readInfo name d) ∧
    ∀ {W : Type} (part : Part W FolderCacheState) (r : Renderer W)
      (attempt : String → String → List Dependency → StateM W (Except TemplateError Unit))
      (w w₁ : Workbench W) (w₂ : W) (compiled : Compiled) (params : Value),
      r.cache = { Cache.folder c part with store := attempt } → r.isFresh name w = (.ok false, w) →
      r.compile name w = (.ok compiled, w₁) → compiled.artifact = artifact →
      compiled.template.dependencies = dependencies → part.get w₁.world = s →
      attempt name artifact dependencies w₁.world = (result, w₂) → part.get w₂ = s' →
      ¬ c.Lost name artifact dependencies s'.disk →
      (r.renderValue name params w).1 = entry.program.execute params r.functions := by
  obtain ⟨entry', made', persists, copies⟩ := stored
  cases made.symm.trans made'
  have held : Keyed.get? name s'.copies = some entry := by
    rw [copies]
    exact Keyed.get?_put_self name entry s.copies
  have serves := serves_iff (c := c) made held
  constructor
  · exact persists.result
  constructor
  · exact serves
  constructor
  · intro lost
    obtain ⟨failed, d, before, same⟩ := persists.lost stamps lost
    obtain ⟨info, read, other⟩ := lost.1
    exact ⟨failed, d, before, ⟨info, same.symm.trans read, other⟩, same⟩
  · intro W part r attempt w w₁ w₂ compiled params cache stale compiles text sources there attempted after kept
    subst text sources after
    exact Renderer.renderValue_stale cache stale compiles attempted persists.result (serves.mpr kept) params

/-- The disk after a first artifact was stored. -/
def older : Disk := (FolderCache.store ⟨"cache"⟩ "page" "old" [⟨"page", some ⟨1⟩⟩] ⟨Disk.empty [], []⟩).2.disk

/-- An artifact that could not be written is served, and not the older one on disk that was made from the same. -/
theorem unwritten_artifact_is_served :
    let c : FolderCache := ⟨"cache"⟩
    let full : DiskFault := .refused "No space left on device"
    let entry : CacheEntry := ⟨"new", ⟨"page", [.text "new"]⟩, [⟨"page", some ⟨1⟩⟩]⟩
    let s' : FolderCacheState := ⟨older, [("page", entry)]⟩
    c.Stored "page" "new" [⟨"page", some ⟨1⟩⟩] ⟨older, []⟩ (.error (.io full)) s' ∧
      c.readArtifact "page" older = some "old" ∧
      (c.artifact "page" s').1 = some "new" ∧ (c.load "page" s').1 = .ok ⟨"page", [.text "new"]⟩ := by
  intro c full entry s'
  have made : CacheEntry.make "page" "new" [⟨"page", some ⟨1⟩⟩] = .ok entry := by rfl
  have stamps : CacheInfo.Fits [⟨"page", some ⟨1⟩⟩] := by
    intro d mem stamp recorded
    rw [List.mem_singleton.mp mem] at recorded
    cases recorded
    decide
  have stored : c.Stored "page" "new" [⟨"page", some ⟨1⟩⟩] ⟨older, []⟩ (.error (.io full)) s' :=
    ⟨entry, made, .noFolder full, rfl⟩
  obtain ⟨-, serves, -⟩ := stored_artifacts_are_served made stamps stored
  have told : (c.readInfo "page" older).map (·.dependencies) = some [⟨"page", some ⟨1⟩⟩] := by decide +kernel
  have served := serves.mpr fun lost => by
    obtain ⟨info, read, other⟩ := lost.1
    rw [read] at told
    exact other (Option.some.inj told)
  exact ⟨stored, by decide +kernel, (served []).2, (served []).1⟩

/-- With information of other sources left on disk, the new artifact is not even served once. -/
example :
    let c : FolderCache := ⟨"cache"⟩
    let s := (c.store "page" "new" [] ⟨older, []⟩).2
    let torn : FolderCacheState := ⟨older, s.copies⟩
    (c.artifact "page" torn).1 = some "old" := by
  decide +kernel

end FolderCache

end Stencil
