import ChainFeed.Checkpoint.Store
import ChainFeed.Proofs.Disk.Place

/-! # What a save leaves in the file

The draft and the file have different names in one folder. So whatever befalls the draft, the file keeps
what it held, until the draft has taken everything and is put in its place.
-/

set_option autoImplicit false

namespace ChainFeed

namespace DiskStep

/-- The steps lead from one disk to the other. -/
def Runs : List DiskStep → Disk → Disk → Prop
  | [], d, d' => d' = d
  | step :: rest, d, d' => ∃ e, step.apply d = .ok e ∧ Runs rest e d'

/-- What each step keeps is kept by the whole. -/
theorem runs_induction {P : Disk → Prop} {steps : List DiskStep} {d d' : Disk} (hStart : P d)
    (hStep : ∀ step ∈ steps, ∀ e e', P e → step.apply e = .ok e' → P e') (hRuns : Runs steps d d') : P d' := by
  induction steps generalizing d with
  | nil =>
    cases hRuns
    exact hStart
  | cons step steps ih =>
    obtain ⟨e, hFirst, hRest⟩ := hRuns
    refine ih (hStep step List.mem_cons_self d e hStart hFirst) (fun s hs => ?_) hRest
    exact hStep s (List.mem_cons_of_mem step hs)

theorem runs_append {steps more : List DiskStep} {d d' : Disk} :
    Runs (steps ++ more) d d' ↔ ∃ e, Runs steps d e ∧ Runs more e d' := by
  induction steps generalizing d with
  | nil => simp [Runs]
  | cons step steps ih =>
    simp only [List.cons_append, Runs, ih]
    constructor
    · rintro ⟨e, he, e', hSteps, hMore⟩
      exact ⟨e', ⟨e, he, hSteps⟩, hMore⟩
    · rintro ⟨e', ⟨e, he, hSteps⟩, hMore⟩
      exact ⟨e, he, e', hSteps, hMore⟩

end DiskStep

open DiskStep

/-- A device does the first steps of a series, and all of them unless one fails. -/
theorem Device.perform_runs (device : Device) (n : Nat) (steps : List DiskStep) (d : Disk) :
    ∃ done left, steps = done ++ left ∧ Runs done d (device.perform n steps d).disk ∧
      ((device.perform n steps d).failure = none ↔ left = []) := by
  induction steps generalizing n d with
  | nil => exact ⟨[], [], rfl, rfl, by simp [perform]⟩
  | cons step rest ih =>
    rw [perform]
    split
    · exact ⟨[], step :: rest, rfl, rfl, by simp⟩
    · cases hStep : step.apply d with
      | error e => exact ⟨[], step :: rest, rfl, rfl, by simp⟩
      | ok e =>
        obtain ⟨done, left, hSplit, hRuns, hFailure⟩ := ih (n + 1) e
        exact ⟨step :: done, left, by rw [hSplit]; rfl, ⟨e, hStep, hRuns⟩, hFailure⟩

namespace Checkpoint

variable {dir : Path} {d d' : Disk}

theorem path_eq (dir : Path) :
    ∃ base, path dir = ⟨base ++ [fileName]⟩ ∧ draftPath dir = ⟨base ++ [draftName]⟩ := by
  unfold path draftPath Path.join
  split
  · exact ⟨_, rfl, rfl⟩
  · exact ⟨_, rfl, rfl⟩

/-- The places of the file and of its draft lie side by side. -/
theorem places_apart {p q : Place} (hFile : d.Leads (path dir) p) (hDraft : d.Leads (draftPath dir) q) :
    ¬ p <+: q ∧ ¬ q <+: p ∧ p ≠ [] ∧ q ≠ [] := by
  obtain ⟨base, hPath, hDraftPath⟩ := path_eq dir
  rw [hPath] at hFile
  rw [hDraftPath] at hDraft
  obtain ⟨s, hs, rfl⟩ := hFile.eq_concat (by decide) (by decide)
  obtain ⟨t, ht, rfl⟩ := hDraft.eq_concat (by decide) (by decide)
  cases hs.symm.trans ht
  have hNames : fileName ≠ draftName := by decide
  refine ⟨fun h => hNames ?_, fun h => hNames ?_, by simp, by simp⟩
  · have hEq := h.eq_of_length (by simp)
    exact List.singleton_inj.mp (List.append_cancel_left hEq)
  · have hEq := h.eq_of_length (by simp)
    exact (List.singleton_inj.mp (List.append_cancel_left hEq)).symm

theorem place_ne_nil {q : Place} (hDraft : d.Leads (draftPath dir) q) : q ≠ [] := by
  obtain ⟨base, -, hDraftPath⟩ := path_eq dir
  rw [hDraftPath] at hDraft
  obtain ⟨s, -, rfl⟩ := hDraft.eq_concat (by decide) (by decide)
  simp

/-- What the file could be read as, it still is. -/
def Undisturbed (dir : Path) (d d' : Disk) : Prop :=
  ∀ bytes, d.read (path dir) = .ok bytes → d'.read (path dir) = .ok bytes

theorem not_folder_of_file {q : Place} {bytes : List UInt8} (h : d.at? q = some (.file bytes)) :
    ∀ inside, d.at? q ≠ some (.folder inside) := by
  intro inside hInside
  rw [h] at hInside
  cases hInside

theorem sync_eq_ok {p : Path} (h : d.sync p = .ok d') : d' = d := by
  unfold Disk.sync at h
  cases hFind : d.find p with
  | error e =>
    rw [hFind] at h
    cases h
  | ok found =>
    rw [hFind] at h
    cases h
    rfl

/-! ## Series of steps -/

/-- Steps that touch the draft only. -/
inductive OnDraft (dir : Path) : DiskStep → Prop where
  | create : OnDraft dir (.create (draftPath dir))
  | append (bytes : List UInt8) : OnDraft dir (.append (draftPath dir) bytes)
  | sync : OnDraft dir (.sync (draftPath dir))

theorem find_of_appends {parts : List (List UInt8)} {p : Path} {q : Place} {old : List UInt8}
    (hPlace : q ≠ []) (hFind : d.find p = .ok (q, old)) (h : Runs (parts.map (.append p)) d d') :
    d'.find p = .ok (q, old ++ parts.flatten) := by
  induction parts generalizing d old with
  | nil =>
    cases h
    rw [hFind, List.flatten_nil, List.append_nil]
  | cons part parts ih =>
    obtain ⟨e, hStep, hRuns⟩ := h
    obtain ⟨hLeads, hBytes⟩ := Disk.find_eq_ok_iff.mp hFind
    have he : e = d.put q (.file (old ++ part)) := by
      simp only [DiskStep.apply, Disk.append, hFind] at hStep
      cases hStep
      rfl
    subst he
    rw [List.flatten_cons, ← List.append_assoc]
    refine ih (Disk.find_eq_ok_iff.mpr ⟨?_, ?_⟩) hRuns
    · exact hLeads.keeps (Disk.keepsFolders_put hPlace (not_folder_of_file hBytes) _)
    · rw [Disk.at?_put d hPlace, Item.at?_put_self]

/-- The draft that takes the file's place brings its content there and leaves its own place empty. -/
theorem exists_of_rename (h : d.rename (draftPath dir) (path dir) = .ok d') :
    ∃ p q bytes, d.Leads (path dir) p ∧ d.find (draftPath dir) = .ok (q, bytes) ∧ d.KeepsFolders d' ∧
      d'.at? p = some (.file bytes) ∧ d'.at? q = none := by
  obtain ⟨q, bytes, p, hFind, hPlace, rfl⟩ := Disk.rename_eq_ok h
  obtain ⟨hDraft, hBytes⟩ := Disk.find_eq_ok_iff.mp hFind
  obtain ⟨hFile, hOther⟩ := Disk.filePlace_eq_ok hPlace
  obtain ⟨hAbove, hBelow, hRoot, hDraftRoot⟩ := places_apart hFile hDraft
  have hErased : ∀ inside, (d.erase q).at? p ≠ some (.folder inside) := by
    intro inside
    rw [Disk.at?_erase, Item.at?_erase_of_apart d.root hAbove hBelow]
    exact hOther inside
  have hKeeps := (Disk.keepsFolders_erase (not_folder_of_file hBytes)).trans
    (Disk.keepsFolders_put hRoot hErased (.file bytes))
  refine ⟨p, q, bytes, hFile, hFind, hKeeps, ?_, ?_⟩
  · rw [Disk.at?_put _ hRoot, Item.at?_put_self]
  · rw [Disk.at?_put _ hRoot, Item.at?_put_of_apart _ _ hBelow hAbove, ← Disk.at?, Disk.at?_erase,
      Item.at?_erase_self hDraftRoot]

theorem read_of_rename {q : Place} {bytes : List UInt8} (hFind : d.find (draftPath dir) = .ok (q, bytes))
    (h : d.rename (draftPath dir) (path dir) = .ok d') : d'.read (path dir) = .ok bytes := by
  obtain ⟨p, q', bytes', hFile, hFind', hKeeps, hTaken, -⟩ := exists_of_rename h
  cases hFind.symm.trans hFind'
  exact Disk.read_eq_ok_iff.mpr ⟨p, hFile.keeps hKeeps, hTaken⟩

theorem read_of_writeSteps {device : Device} {c : Checkpoint} (h : Runs (writeSteps device dir c) d d') :
    d'.read (path dir) = .ok c.bytes := by
  obtain ⟨e, hCreate, hRest⟩ := h
  obtain ⟨e', hAppends, hRest⟩ := runs_append.mp hRest
  obtain ⟨e'', hSync, e''', hRename, hEnd⟩ := hRest
  cases hEnd
  cases sync_eq_ok hSync
  obtain ⟨q, hPlace, rfl⟩ := Disk.create_eq_ok hCreate
  obtain ⟨hDraft, hOther⟩ := Disk.filePlace_eq_ok hPlace
  have hNonempty := place_ne_nil hDraft
  have hFind : (d.put q (.file [])).find (draftPath dir) = .ok (q, []) := by
    refine Disk.find_eq_ok_iff.mpr ⟨hDraft.keeps (Disk.keepsFolders_put hNonempty hOther _), ?_⟩
    rw [Disk.at?_put d hNonempty, Item.at?_put_self]
  have hWritten := find_of_appends hNonempty hFind hAppends
  rw [List.nil_append, device.parts_flatten] at hWritten
  exact read_of_rename hWritten hRename

theorem onDraft_of_writeSteps {device : Device} {c : Checkpoint} {done left : List DiskStep}
    (hSplit : writeSteps device dir c = done ++ left) (hLeft : left ≠ []) :
    ∀ step ∈ done, OnDraft dir step := by
  have hAll : writeSteps device dir c =
      (.create (draftPath dir) :: (device.parts c.bytes).map (.append (draftPath dir)) ++
        [.sync (draftPath dir)]) ++ [.rename (draftPath dir) (path dir)] := by
    simp [writeSteps]
  obtain ⟨others, last, rfl⟩ := List.eq_nil_or_concat left |>.resolve_left hLeft
  rw [hAll, List.concat_eq_append, ← List.append_assoc] at hSplit
  obtain ⟨hBefore, -⟩ := List.append_inj' hSplit rfl
  intro step hStep
  have hMem := List.mem_append_left others hStep
  rw [← hBefore] at hMem
  simp only [List.mem_append, List.mem_cons, List.mem_map, List.not_mem_nil, or_false] at hMem
  rcases hMem with (rfl | ⟨bytes, -, rfl⟩) | rfl
  · exact .create
  · exact .append bytes
  · exact .sync

/-- A save that went well is read back. -/
theorem read_of_save_ok {device : Device} {c : Checkpoint} {p : Path}
    (h : (c.save device d dir).outcome = .ok p) : (c.save device d dir).disk.read (path dir) = .ok c.bytes := by
  unfold save at h ⊢
  simp only at h ⊢
  generalize device.perform 0 (DiskStep.makeFolders dir) d = made at h ⊢
  obtain ⟨trail, disk, failure⟩ := made
  cases failure with
  | some cause => cases h
  | none =>
    obtain ⟨done, left, hSplit, hRuns, hDone⟩ :=
      device.perform_runs (DiskStep.makeFolders dir).length (writeSteps device dir c) disk
    simp only at h ⊢
    generalize device.perform (DiskStep.makeFolders dir).length (writeSteps device dir c) disk = written
      at h hRuns hDone ⊢
    obtain ⟨trail', disk', failure'⟩ := written
    cases failure' with
    | some cause => cases h
    | none =>
      rw [hDone.mp rfl, List.append_nil] at hSplit
      rw [← hSplit] at hRuns
      exact read_of_writeSteps hRuns

theorem path_of_save_ok {device : Device} {c : Checkpoint} {p : Path} (h : (c.save device d dir).outcome = .ok p) :
    p = path dir := by
  unfold save at h
  simp only at h
  split at h
  · cases h
  · split at h <;> cases h
    rfl

end Checkpoint

end ChainFeed
