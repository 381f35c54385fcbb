import Stencil.Proofs.Cache.FolderFiles

/-!
The paths of the files of a cache. Each leads from the folder to a file that is directly in it, whatever the template
is called, and no two of these files are one.
-/
namespace Stencil

namespace FolderCache

open Stencil.Path (PlainFile)

/-- What names are encoded with. -/
def IsEncoded (c : Char) : Prop := c.isAlphanum = true ∨ c = '-' ∨ c = '_' ∨ c = '%'

instance (c : Char) : Decidable (IsEncoded c) := inferInstanceAs (Decidable (_ ∨ _))

theorem encodeByte_encoded (b : UInt8) : ∀ c ∈ encodeByte b, IsEncoded c := by
  have all : (encodeByte b).all (fun c => decide (IsEncoded c)) = true :=
    forall_byte (p := fun b => (encodeByte b).all (fun c => decide (IsEncoded c)) = true) (by decide +kernel) b
  intro c mem
  exact of_decide_eq_true (List.all_eq_true.mp all c mem)

theorem encodeName_encoded (name : String) : ∀ c ∈ (encodeName name).toList, IsEncoded c := by
  intro c h
  rw [encodeName, String.toList_ofList] at h
  obtain ⟨b, -, mem⟩ := List.mem_flatMap.mp h
  exact encodeByte_encoded b c mem

/-- The name of a file of a cache: an encoded name with a suffix, which stands for itself in a path. -/
structure EncodedFile (suffix file : String) : Prop where
  plain : PlainFile file
  encoded : ∃ stem, file = stem ++ suffix ∧ ∀ c ∈ stem.toList, IsEncoded c

theorem encoded_artifactFile (name : String) : EncodedFile ".cache" (artifactFile name) :=
  ⟨plain_artifactFile name, encodeName name, rfl, encodeName_encoded name⟩

theorem encoded_infoFile (name : String) : EncodedFile ".cache.info" (infoFile name) :=
  ⟨plain_infoFile name, encodeName name, rfl, encodeName_encoded name⟩

theorem artifactPath_inside (c : FolderCache) (name : String) :
    Path.DirectlyIn c.dir (artifactFile name) (c.artifactPath name) :=
  have plain := plain_artifactFile name
  Path.directlyIn_join c.dir plain.noSlash plain.proper.1 plain.proper.2.1

theorem infoPath_inside (c : FolderCache) (name : String) :
    Path.DirectlyIn c.dir (infoFile name) (c.infoPath name) :=
  have plain := plain_infoFile name
  Path.directlyIn_join c.dir plain.noSlash plain.proper.1 plain.proper.2.1

/-- Every template, whatever its name, has its two files directly in the folder of the cache, under encoded names, and
different templates have different files. Nowhere is an artifact what another template's information is. -/
theorem files_stay_apart (c : FolderCache) (n m : String) :
    (∃ file, EncodedFile ".cache" file ∧ Path.DirectlyIn c.dir file (c.artifactPath n)) ∧
    (∃ file, EncodedFile ".cache.info" file ∧ Path.DirectlyIn c.dir file (c.infoPath n)) ∧
    (Path.Same (c.artifactPath n) (c.artifactPath m) ↔ n = m) ∧
    (Path.Same (c.infoPath n) (c.infoPath m) ↔ n = m) ∧
    ¬ Path.Same (c.artifactPath n) (c.infoPath m) := by
  refine ⟨⟨_, encoded_artifactFile n, c.artifactPath_inside n⟩, ⟨_, encoded_infoFile n, c.infoPath_inside n⟩, ?_, ?_, ?_⟩
  · rw [(c.artifactPath_inside n).same_iff (c.artifactPath_inside m)]
    exact ⟨artifactFile_injective, congrArg artifactFile⟩
  · rw [(c.infoPath_inside n).same_iff (c.infoPath_inside m)]
    exact ⟨infoFile_injective, congrArg infoFile⟩
  · rw [(c.artifactPath_inside n).same_iff (c.infoPath_inside m)]
    exact artifactFile_ne_infoFile n m

end FolderCache

end Stencil
