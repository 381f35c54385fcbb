import Stencil.Proofs.Disk.Paths

/-!
The names of the files of a cache: different templates have different files, and no name leads out of the folder.
-/
namespace Stencil.FolderCache

open Stencil.Path (PlainFile)

theorem toList_eq_data (bytes : ByteArray) : bytes.toList = bytes.data.toList := by
  have loop : ∀ n i r, n = bytes.size - i → ByteArray.toList.loop bytes i r = r.reverse ++ bytes.data.toList.drop i := by
    intro n
    induction n with
    | zero =>
      intro i r left
      have size : bytes.data.toList.length = bytes.size := rfl
      rw [ByteArray.toList.loop, if_neg (by omega), List.drop_of_length_le (by omega), List.append_nil]
    | succ n ih =>
      intro i r left
      have inside : i < bytes.data.toList.length := by
        have size : bytes.data.toList.length = bytes.size := rfl
        omega
      have here : bytes.get! i = bytes.data.toList[i] := by
        show bytes.data[i]! = _
        rw [getElem!_pos bytes.data i inside]
        rfl
      rw [ByteArray.toList.loop, if_pos (by omega), ih (i + 1) _ (by omega), List.reverse_cons, List.append_assoc,
        here, List.drop_eq_getElem_cons inside]
      rfl
  exact loop _ 0 [] rfl

/-- The byte that a piece of a file name stands for. -/
def decodeByte : List Char → Nat
  | ['%', a, b] => 16 * (if a.toNat < 65 then a.toNat - 48 else a.toNat - 55) +
      (if b.toNat < 65 then b.toNat - 48 else b.toNat - 55)
  | [c] => c.toNat
  | _ => 0

theorem forall_byte {p : UInt8 → Prop} [DecidablePred p]
    (small : (List.range 256).all (fun n => decide (p (UInt8.ofNat n))) = true) (b : UInt8) : p b := by
  have same := List.all_eq_true.mp small b.toNat (List.mem_range.mpr b.toNat_lt)
  rw [UInt8.ofNat_toNat] at same
  exact of_decide_eq_true same

theorem decodeByte_encodeByte (b : UInt8) : decodeByte (encodeByte b) = b.toNat :=
  forall_byte (p := fun b => decodeByte (encodeByte b) = b.toNat) (by decide +kernel) b

/-- A piece is one character, or three if it starts with the sign of an encoded byte. -/
theorem length_encodeByte (b : UInt8) :
    (encodeByte b).length = if (encodeByte b).head? = some '%' then 3 else 1 :=
  forall_byte (p := fun b => (encodeByte b).length = if (encodeByte b).head? = some '%' then 3 else 1)
    (by decide +kernel) b

theorem encodeByte_plain (b : UInt8) : ∀ c ∈ encodeByte b, c ≠ '/' ∧ c ≠ '\x00' ∧ c ≠ '.' := by
  have all : (encodeByte b).all (fun c => decide (c ≠ '/' ∧ c ≠ '\x00' ∧ c ≠ '.')) = true :=
    forall_byte (p := fun b => (encodeByte b).all (fun c => decide (c ≠ '/' ∧ c ≠ '\x00' ∧ c ≠ '.')) = true)
      (by decide +kernel) b
  intro c mem
  exact of_decide_eq_true (List.all_eq_true.mp all c mem)

theorem encodeBytes_injective {a b : List UInt8} (same : a.flatMap encodeByte = b.flatMap encodeByte) : a = b := by
  have full : ∀ b : UInt8, encodeByte b ≠ [] := by
    intro b h
    have length := length_encodeByte b
    rw [h] at length
    cases length
  induction a generalizing b with
  | nil =>
    cases b with
    | nil => rfl
    | cons y b =>
      rw [List.flatMap_cons] at same
      exact absurd (List.append_eq_nil_iff.mp same.symm).1 (full y)
  | cons x a ih =>
    cases b with
    | nil =>
      rw [List.flatMap_cons] at same
      exact absurd (List.append_eq_nil_iff.mp same).1 (full x)
    | cons y b =>
      rw [List.flatMap_cons, List.flatMap_cons] at same
      have heads : (encodeByte x).head? = (encodeByte y).head? := by
        obtain ⟨c, s, front⟩ := List.exists_cons_of_ne_nil (full x)
        obtain ⟨d, t, front'⟩ := List.exists_cons_of_ne_nil (full y)
        rw [front, front'] at same ⊢
        exact congrArg some (List.cons.inj same).1
      have lengths : (encodeByte x).length = (encodeByte y).length := by
        rw [length_encodeByte, length_encodeByte, heads]
      obtain ⟨pieces, rest⟩ := List.append_inj same lengths
      have bytes : x.toNat = y.toNat := by
        rw [← decodeByte_encodeByte, ← decodeByte_encodeByte, pieces]
      rw [UInt8.toNat_inj.mp bytes, ih rest]

theorem encodeName_injective {n m : String} (same : encodeName n = encodeName m) : n = m := by
  have bytes := encodeBytes_injective (String.ofList_inj.mp same)
  rw [toList_eq_data, toList_eq_data] at bytes
  have arrays : n.toUTF8 = m.toUTF8 := ByteArray.ext (Array.toList_inj.mp bytes)
  exact String.toByteArray_inj.mp arrays

theorem encodeName_plain (name : String) : ∀ c ∈ (encodeName name).toList, c ≠ '/' ∧ c ≠ '\x00' ∧ c ≠ '.' := by
  intro c h
  unfold encodeName at h
  rw [String.toList_ofList] at h
  obtain ⟨b, -, mem⟩ := List.mem_flatMap.mp h
  exact encodeByte_plain b c mem

/-! #### The two files of a template -/

def artifactFile (name : String) : String := encodeName name ++ ".cache"

def infoFile (name : String) : String := encodeName name ++ ".cache.info"

theorem artifactFile_injective {n m : String} (same : artifactFile n = artifactFile m) : n = m := by
  apply encodeName_injective
  rw [← String.toList_inj] at same ⊢
  rw [artifactFile, artifactFile, String.toList_append, String.toList_append] at same
  exact List.append_cancel_right same

theorem infoFile_injective {n m : String} (same : infoFile n = infoFile m) : n = m := by
  apply encodeName_injective
  rw [← String.toList_inj] at same ⊢
  rw [infoFile, infoFile, String.toList_append, String.toList_append] at same
  exact List.append_cancel_right same

theorem artifactFile_ne_infoFile (n m : String) : artifactFile n ≠ infoFile m := by
  intro same
  have last := congrArg (fun s => s.toList.getLast?) same
  simp [artifactFile, infoFile] at last

theorem plain_encoded (name : String) {suffix : String} (long : 3 ≤ suffix.toList.length)
    (noSlash : '/' ∉ suffix.toList) (noNul : '\x00' ∉ suffix.toList) : PlainFile (encodeName name ++ suffix) := by
  have plain := encodeName_plain name
  refine ⟨?_, ?_, ?_⟩
  · intro h
    rw [String.toList_append, List.mem_append] at h
    rcases h with h | h
    · exact (plain _ h).1 rfl
    · exact noSlash h
  · intro h
    rw [String.toList_append, List.mem_append] at h
    rcases h with h | h
    · exact (plain _ h).2.1 rfl
    · exact noNul h
  · have other : ∀ s : String, s.toList.length < 3 → encodeName name ++ suffix ≠ s := by
      intro s short same
      rw [← same, String.toList_append, List.length_append] at short
      omega
    exact ⟨other _ (by decide), other _ (by decide), other _ (by decide)⟩

theorem plain_artifactFile (name : String) : PlainFile (artifactFile name) :=
  plain_encoded name (by decide) (by decide) (by decide)

theorem plain_infoFile (name : String) : PlainFile (infoFile name) :=
  plain_encoded name (by decide) (by decide) (by decide)

end Stencil.FolderCache
