import Stencil.Main
import Stencil.Proofs.Json.RoundTrip

/-!
The information beside an artifact is read back as it was written.
-/
namespace Stencil.CacheInfo

open Json (Plain)

/-- Stamps that fit into the 128 bits that are read. -/
def Fits (dependencies : List Dependency) : Prop :=
  ∀ d ∈ dependencies, ∀ stamp, d.stamp = some stamp → stamp.value < 0x100000000000000000000000000000000

theorem plain_stampJson (stamp : Option Stamp) : Plain 0 (stampJson stamp) := by
  cases stamp with
  | none => exact .null 0
  | some stamp => exact .int 0 stamp.value

theorem plain_toJson (info : CacheInfo) : Plain 3 info.toJson := by
  refine .obj fun m h => ?_
  simp only [List.mem_cons, List.not_mem_nil, or_false] at h
  rcases h with rfl | rfl
  · exact .str 2 info.version
  · refine .arr fun v h => ?_
    obtain ⟨d, -, rfl⟩ := List.mem_map.mp h
    refine .obj fun m h => ?_
    simp only [List.mem_cons, List.not_mem_nil, or_false] at h
    rcases h with rfl | rfl
    · exact .str 0 d.identity
    · exact plain_stampJson d.stamp

theorem readStamp?_some (stamp : Stamp) : readStamp? (stampJson (some stamp)) =
    if stamp.value < 0x100000000000000000000000000000000 then some (some stamp) else none := by
  have number : (Json.Number.ofInt stamp.value).toInt? = some (stamp.value : Int) := by
    have natural : ¬ (stamp.value : Int) < 0 := by omega
    simp [Json.Number.ofInt, Json.Number.toInt?, Decimal.value_toDigits, natural]
  have sign : (Json.Number.ofInt stamp.value).negative = false := by
    simp [Json.Number.ofInt]
  unfold stampJson readStamp?
  dsimp only
  rw [number, sign]
  rfl

theorem readStamp?_stampJson {stamp : Option Stamp}
    (fits : ∀ s, stamp = some s → s.value < 0x100000000000000000000000000000000) :
    readStamp? (stampJson stamp) = some stamp := by
  cases stamp with
  | none => rfl
  | some stamp => rw [readStamp?_some, if_pos (fits stamp rfl)]

/-- A stamp that does not fit is not read as another one. -/
theorem eq_of_readStamp? {stamp stamp' : Option Stamp} (read : readStamp? (stampJson stamp) = some stamp') :
    stamp' = stamp := by
  cases stamp with
  | none => exact (Option.some.inj read).symm
  | some stamp =>
    rw [readStamp?_some] at read
    split at read
    · exact (Option.some.inj read).symm
    · cases read

theorem readDependency?_eq (d : Dependency) :
    readDependency? (dependencyJson d) = (readStamp? (stampJson d.stamp)).map (Dependency.mk d.identity) := by
  have identity : membersOf "identity" [("identity", .str d.identity), ("modified", stampJson d.stamp)] =
      [.str d.identity] := rfl
  have modified : membersOf "modified" [("identity", .str d.identity), ("modified", stampJson d.stamp)] =
      [stampJson d.stamp] := rfl
  unfold dependencyJson readDependency?
  dsimp only
  rw [identity, modified]
  dsimp only
  cases readStamp? (stampJson d.stamp) <;> rfl

theorem readDependencies_of_fits {dependencies : List Dependency} (fits : Fits dependencies) :
    (dependencies.map dependencyJson).mapM readDependency? = some dependencies := by
  induction dependencies with
  | nil => rfl
  | cons d ds ih =>
    rw [List.map_cons, List.mapM_cons, readDependency?_eq, readStamp?_stampJson (fits d (by simp)),
      ih fun e h => fits e (List.mem_cons_of_mem _ h)]
    rfl

theorem eq_of_readDependencies {dependencies found : List Dependency}
    (read : (dependencies.map dependencyJson).mapM readDependency? = some found) : found = dependencies := by
  induction dependencies generalizing found with
  | nil => exact (Option.some.inj read).symm
  | cons d ds ih =>
    rw [List.map_cons, List.mapM_cons, readDependency?_eq] at read
    obtain ⟨e, first, rest⟩ := Option.bind_eq_some_iff.mp read
    obtain ⟨es, others, same⟩ := Option.bind_eq_some_iff.mp rest
    obtain ⟨stamp, stamped, rfl⟩ := Option.map_eq_some_iff.mp first
    rw [← Option.some.inj same, eq_of_readStamp? stamped, ih others]

theorem parse?_write_eq (info : CacheInfo) : parse? info.write =
    ((info.dependencies.map dependencyJson).mapM readDependency?).map (CacheInfo.mk info.version) := by
  have long : 3 ≤ (Json.write info.toJson).length + 1 := by
    have text : (Json.write info.toJson).toList = Json.pretty 0 info.toJson := String.toList_ofList
    rw [← String.length_toList, text]
    simp only [toJson, Json.pretty, Json.newLine, List.length_append, List.length_cons]
    omega
  unfold parse? write
  rw [Json.parse?_write (plain_toJson info) long]
  show readParts? (.str info.version) (.arr (info.dependencies.map dependencyJson)) = _
  unfold readParts? readText? readDependencies?
  dsimp only
  cases (info.dependencies.map dependencyJson).mapM readDependency? <;> rfl

theorem parse?_write {info : CacheInfo} (fits : Fits info.dependencies) : parse? info.write = some info := by
  rw [parse?_write_eq, readDependencies_of_fits fits]
  rfl

/-- Whatever is read back is what was written. -/
theorem eq_of_parse?_write {info found : CacheInfo} (read : parse? info.write = some found) : found = info := by
  rw [parse?_write_eq] at read
  obtain ⟨dependencies, listed, rfl⟩ := Option.map_eq_some_iff.mp read
  rw [eq_of_readDependencies listed]

end Stencil.CacheInfo
