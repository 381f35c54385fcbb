import Stencil.Main

/-!
What the operations of a disk do, times aside: what is held at every location before and after, and which ways
stay open.
-/
namespace Stencil

/-- What an entry is apart from its time: the content of a file, or nothing for a folder. -/
def DiskEntry.held : DiskEntry → Option FileContent
  | .file content _ => some content
  | .folder _ => none

namespace Disk

/-- What is at a location, times aside. -/
def held? (d : Disk) (l : Location) : Option (Option FileContent) := (d.find? l).map DiskEntry.held

def IsFolder (d : Disk) (l : Location) : Prop := d.held? l = some none

theorem isFolder_iff {d : Disk} {l : Location} : d.IsFolder l ↔ ∃ t, d.find? l = some (.folder t) := by
  unfold IsFolder held?
  constructor
  · intro h
    obtain ⟨e, found, same⟩ := Option.map_eq_some_iff.mp h
    cases e with
    | file content t => cases same
    | folder t => exact ⟨t, found⟩
  · rintro ⟨t, found⟩
    rw [found]
    rfl

theorem held?_isSome (d : Disk) (l : Location) : (d.held? l).isSome = (d.find? l).isSome := by
  simp [held?]

theorem find?_of_ne_nil (d : Disk) {l : Location} (below : l ≠ []) : d.find? l = d.entries.lookup l := by
  cases l with
  | nil => exact absurd rfl below
  | cons part l => rfl

/-! #### Changes -/

theorem lookup_filter_ne (entries : List (Location × DiskEntry)) {l m : Location} (other : m ≠ l) :
    (entries.filter (·.1 ≠ l)).lookup m = entries.lookup m := by
  induction entries with
  | nil => rfl
  | cons e entries ih =>
    obtain ⟨k, e⟩ := e
    by_cases gone : k = l
    · have apart : (m == k) = false := by
        rw [gone]
        simpa using other
      rw [List.filter_cons_of_neg (by simpa using gone), List.lookup_cons, apart]
      exact ih
    · rw [List.filter_cons_of_pos (by simpa using gone), List.lookup_cons, List.lookup_cons, ih]

theorem lookup_filter_self (entries : List (Location × DiskEntry)) (l : Location) :
    (entries.filter (·.1 ≠ l)).lookup l = none := by
  induction entries with
  | nil => rfl
  | cons e entries ih =>
    obtain ⟨k, e⟩ := e
    by_cases gone : k = l
    · rw [List.filter_cons_of_neg (by simpa using gone)]
      exact ih
    · have apart : (l == k) = false := by simpa using Ne.symm gone
      rw [List.filter_cons_of_pos (by simpa using gone), List.lookup_cons, apart]
      exact ih

theorem held?_place (d : Disk) {l : Location} (below : l ≠ []) (e : DiskEntry) (m : Location) :
    (d.place l e).held? m = if m = l then some e.held else d.held? m := by
  cases m with
  | nil =>
    rw [if_neg fun h => below h.symm]
    rfl
  | cons part m =>
    unfold held?
    rw [find?_of_ne_nil _ (List.cons_ne_nil part m), find?_of_ne_nil _ (List.cons_ne_nil part m)]
    unfold place
    rw [List.lookup_append]
    by_cases same : part :: m = l
    · rw [if_pos same, same, lookup_filter_self]
      simp
    · rw [if_neg same, lookup_filter_ne _ same]
      have apart : ((part :: m) == l) = false := by simpa using same
      simp [List.lookup_cons, apart]

theorem held?_setChangedAt (d : Disk) (l : Location) (time : Int) (m : Location) :
    (d.setChangedAt l time).held? m = d.held? m := by
  cases m with
  | nil => rfl
  | cons part m =>
    unfold held?
    rw [find?_of_ne_nil _ (List.cons_ne_nil part m), find?_of_ne_nil _ (List.cons_ne_nil part m)]
    unfold setChangedAt
    induction d.entries with
    | nil => rfl
    | cons e entries ih =>
      obtain ⟨k, e⟩ := e
      have kept : (e.withChanged time).held = e.held := by cases e <;> rfl
      by_cases here : k = l
      · by_cases found : ((part :: m) == l) = true
        · simp [here, List.lookup_cons, found, kept]
        · simp [here, List.lookup_cons, Bool.eq_false_iff.mpr found]
          exact ih
      · by_cases found : ((part :: m) == k) = true
        · simp [here, List.lookup_cons, found]
        · simp [here, List.lookup_cons, Bool.eq_false_iff.mpr found]
          exact ih

theorem held?_add (d : Disk) {l : Location} (below : l ≠ []) (e : DiskEntry) (m : Location) :
    (d.add l e).held? m = if m = l then some e.held else d.held? m := by
  unfold add changeAbove
  rw [held?_setChangedAt, held?_place d below]

theorem held?_tick (d : Disk) (m : Location) : d.tick.held? m = d.held? m := by
  cases m <;> rfl

/-- Writing changes what is held at one location, where no folder may be. -/
theorem write_file (d : Disk) {path : String} {folder : Location} {name : String} (content : FileContent)
    (parent : d.parent path = .ok (folder, name)) (stands : d.IsFolder folder)
    (plain : name ≠ "" ∧ name ≠ "." ∧ name ≠ "..") (short : name.utf8ByteSize ≤ longestName)
    (free : ¬ d.IsFolder (folder ++ [name])) :
    ∃ d', d.write path content = .ok d' ∧ d'.current = d.current ∧
      ∀ m, d'.held? m = if m = folder ++ [name] then some (some content) else d.held? m := by
  obtain ⟨t, found⟩ := isFolder_iff.mp stands
  have below : folder ++ [name] ≠ [] := by simp
  unfold write
  rw [parent]
  dsimp only
  rw [found]
  dsimp only
  rw [if_neg (by simp [plain]), if_neg (by omega)]
  cases there : d.find? (folder ++ [name]) with
  | none =>
    refine ⟨_, rfl, rfl, fun m => ?_⟩
    rw [held?_tick, held?_add d below]
    rfl
  | some e =>
    cases e with
    | folder t => exact absurd (isFolder_iff.mpr ⟨t, there⟩) free
    | file old t =>
      refine ⟨_, rfl, rfl, fun m => ?_⟩
      rw [held?_tick, held?_place d below]
      rfl

/-- Removing a file changes what is held at its location; without a file at the end of the path nothing changes. -/
theorem removeFile_held (d : Disk) (path : String) :
    d.removeFile path = d ∧ (∀ l content, d.locate path = .ok l → d.held? l ≠ some (some content)) ∨
      ∃ l content, d.locate path = .ok l ∧ d.held? l = some (some content) ∧
        (d.removeFile path).current = d.current ∧
        ∀ m, (d.removeFile path).held? m = if m = l then none else d.held? m := by
  unfold removeFile
  cases located : d.locate path with
  | error e => exact Or.inl ⟨rfl, fun _ _ h => (by cases h)⟩
  | ok l =>
    dsimp only
    cases there : d.find? l with
    | none =>
      refine Or.inl ⟨rfl, fun k content h held => ?_⟩
      cases h
      unfold held? at held
      rw [there] at held
      cases held
    | some e =>
      cases e with
      | folder t =>
        refine Or.inl ⟨rfl, fun k content h held => ?_⟩
        cases h
        unfold held? at held
        rw [there] at held
        cases held
      | file content t =>
        have below : l ≠ [] := by
          rintro rfl
          cases there
        refine Or.inr ⟨l, content, rfl, ?_, rfl, fun m => ?_⟩
        · unfold held?
          rw [there]
          rfl
        · dsimp only
          unfold changeAbove
          rw [held?_setChangedAt]
          cases m with
          | nil =>
            rw [if_neg fun h => below h.symm]
            rfl
          | cons part m =>
            unfold held?
            rw [find?_of_ne_nil _ (List.cons_ne_nil part m), find?_of_ne_nil _ (List.cons_ne_nil part m)]
            by_cases same : part :: m = l
            · rw [if_pos same, same, lookup_filter_self]
              rfl
            · rw [if_neg same, lookup_filter_ne _ same]

/-! #### Ways -/

/-- A step that leads to something. -/
theorem step_ok {d : Disk} {l m : Location} {part : String} (step : d.step l part = .ok m) :
    d.IsFolder l ∧ (part = "" ∨ part = "." ∨ part = ".." ∨ m = l ++ [part]) := by
  unfold Disk.step at step
  cases there : d.find? l with
  | none =>
    rw [there] at step
    cases step
  | some e =>
    rw [there] at step
    cases e with
    | file content t => cases step
    | folder t =>
      refine ⟨isFolder_iff.mpr ⟨t, there⟩, ?_⟩
      dsimp only at step
      split at step
      · rename_i same
        exact same.imp_right Or.inl
      · split at step
        · rename_i up
          exact Or.inr (Or.inr (Or.inl up))
        · split at step
          · cases step
          · split at step
            · cases step
              exact Or.inr (Or.inr (Or.inr rfl))
            · cases step

/-- A step stays possible while its folder and its end stay there. -/
theorem step_of_folders {d d' : Disk} (folders : ∀ m, d.IsFolder m → d'.IsFolder m) {l m : Location} {part : String}
    (step : d.step l part = .ok m) (stays : (d'.held? m).isSome = true) : d'.step l part = .ok m := by
  have stands := (step_ok step).1
  obtain ⟨t, there⟩ := isFolder_iff.mp stands
  obtain ⟨t', there'⟩ := isFolder_iff.mp (folders l stands)
  unfold Disk.step at step ⊢
  rw [there] at step
  rw [there']
  dsimp only at step ⊢
  split
  · rename_i same
    rw [if_pos same] at step
    exact step
  · rename_i other
    rw [if_neg other] at step
    split
    · rename_i up
      rw [if_pos up] at step
      exact step
    · rename_i down
      rw [if_neg down] at step
      split
      · rename_i long
        rw [if_pos long] at step
        exact step
      · rename_i short
        rw [if_neg short] at step
        split at step
        · cases step
          rw [held?_isSome] at stays
          rw [if_pos stays]
        · cases step

theorem walk_append (d : Disk) (l : Location) (a b : List String) :
    d.walk l (a ++ b) =
      match d.walk l a with
      | .ok m => d.walk m b
      | .error e => .error e := by
  induction a generalizing l with
  | nil => rfl
  | cons part a ih =>
    rw [List.cons_append, walk, walk]
    cases d.step l part with
    | error e => rfl
    | ok m => exact ih m

/-- A way stays open while its folders and its end stay there. -/
theorem walk_of_folders {d d' : Disk} (folders : ∀ m, d.IsFolder m → d'.IsFolder m) {l m : Location}
    {parts : List String} (walk : d.walk l parts = .ok m) (stays : (d'.held? m).isSome = true) :
    d'.walk l parts = .ok m := by
  induction parts generalizing l with
  | nil => exact walk
  | cons part parts ih =>
    rw [Disk.walk] at walk ⊢
    cases step : d.step l part with
    | error e =>
      rw [step] at walk
      cases walk
    | ok k =>
      rw [step] at walk
      dsimp only at walk
      have there : (d'.held? k).isSome = true := by
        cases parts with
        | nil =>
          cases walk
          exact stays
        | cons next parts =>
          rw [Disk.walk] at walk
          cases onward : d.step k next with
          | error e =>
            rw [onward] at walk
            cases walk
          | ok j =>
            rw [folders k (step_ok onward).1]
            rfl
      rw [step_of_folders folders step there]
      exact ih walk

/-- Nothing is made on a way that is open and leads to a folder. -/
theorem makeWalk_of_walk {d : Disk} {l m : Location} {parts : List String} (walk : d.walk l parts = .ok m)
    (stands : d.IsFolder m) : d.makeWalk l parts = .ok d := by
  induction parts generalizing l with
  | nil => rfl
  | cons part parts ih =>
    rw [Disk.walk] at walk
    cases step : d.step l part with
    | error e =>
      rw [step] at walk
      cases walk
    | ok k =>
      rw [step] at walk
      have there : d.IsFolder k := by
        cases parts with
        | nil =>
          cases walk
          exact stands
        | cons next parts =>
          dsimp only at walk
          rw [Disk.walk] at walk
          cases onward : d.step k next with
          | error e =>
            rw [onward] at walk
            cases walk
          | ok j => exact (step_ok onward).1
      obtain ⟨t, found⟩ := isFolder_iff.mp there
      have made : d.makeStep l part = .ok (d, k) := by
        unfold makeStep
        rw [step]
        dsimp only
        rw [found]
      rw [makeWalk, made]
      exact ih walk

/-- Whatever is there stands in a folder. -/
def Rooted (d : Disk) : Prop := ∀ l part, (d.held? (l ++ [part])).isSome = true → d.IsFolder l

/-- Everything on the first disk is on the second as well. -/
def Within (d d' : Disk) : Prop := d'.current = d.current ∧ ∀ m x, d.held? m = some x → d'.held? m = some x

/-- Making folders takes nothing away. -/
theorem Within.makeWalk {d₀ : Disk} (rooted : d₀.Rooted) {d d' : Disk} {l : Location} {parts : List String}
    (within : d₀.Within d) (made : d.makeWalk l parts = .ok d') : d₀.Within d' := by
  induction parts generalizing d l with
  | nil =>
    cases made
    exact within
  | cons part parts ih =>
    rw [Disk.makeWalk] at made
    cases step : d.makeStep l part with
    | error e =>
      rw [step] at made
      cases made
    | ok p =>
      rw [step] at made
      refine ih ?_ made
      unfold makeStep at step
      cases onward : d.step l part with
      | ok k =>
        rw [onward] at step
        dsimp only at step
        split at step
        · cases step
          exact within
        · cases step
      | error e =>
        rw [onward] at step
        cases e <;> cases step
        -- the new folder takes the place of nothing that was on the first disk
        have absent : d₀.held? (l ++ [part]) = none := by
          cases present : d₀.held? (l ++ [part]) with
          | none => rfl
          | some x =>
            exfalso
            have stands := isFolder_iff.mp (within.2 l none (rooted l part (by rw [present]; rfl)))
            have found : (d.find? (l ++ [part])).isSome = true := by
              rw [← held?_isSome, within.2 _ x present]
              rfl
            obtain ⟨t, stands⟩ := stands
            unfold Disk.step at onward
            rw [stands] at onward
            dsimp only at onward
            rw [if_pos found] at onward
            split at onward
            · cases onward
            · split at onward
              · cases onward
              · split at onward <;> cases onward
        refine ⟨within.1, fun m x held => ?_⟩
        rw [held?_tick, held?_add d (by simp)]
        have other : m ≠ l ++ [part] := by
          rintro rfl
          rw [absent] at held
          cases held
        rw [if_neg other]
        exact within.2 m x held

end Disk

end Stencil
