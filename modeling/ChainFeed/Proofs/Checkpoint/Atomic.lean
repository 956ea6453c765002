import ChainFeed.Proofs.Checkpoint.RoundTrip
import ChainFeed.Proofs.Checkpoint.Save

/-! # A save replaces the file in one go

At each moment of a save the file is still the old one, or is the new one already, and a save that fails leaves
the old one and no draft. More than that cannot be kept where the folder's path leads out of a folder that the
save has to make first: such a folder may come to stand in the file's own place, or open the way to a file that
could not be reached before.
-/

set_option autoImplicit false

namespace ChainFeed

open DiskStep

/-- The disks that a device leaves on the way are those that a beginning of the series leads to. The whole of it
leads to one only if nothing fails. -/
theorem Device.runs_of_mem_trail (device : Device) {n : Nat} {steps : List DiskStep} {d d' : Disk}
    (h : d' ∈ (device.perform n steps d).trail) :
    ∃ done left, steps = done ++ left ∧ Runs done d d' ∧
      (left = [] → (device.perform n steps d).failure = none) := by
  induction steps generalizing n d with
  | nil => cases h
  | cons step rest ih =>
    rw [perform] at h ⊢
    split at h
    · cases h
    next hTaken =>
      rw [if_neg hTaken]
      cases hStep : step.apply d with
      | error cause =>
        rw [hStep] at h
        cases h
      | ok e =>
        rw [hStep] at h
        obtain rfl | h := List.mem_cons.mp h
        · refine ⟨[step], rest, rfl, ⟨d', hStep, rfl⟩, fun hRest => ?_⟩
          subst hRest
          rfl
        · obtain ⟨done, left, hSplit, hRuns, hWhole⟩ := ih h
          exact ⟨step :: done, left, by rw [hSplit]; rfl, ⟨e, hStep, hRuns⟩, hWhole⟩

namespace Checkpoint

variable {dir : Path} {d d' e : Disk}

/-! ## What the folders leave -/

theorem opened_of_makeFolders {done left : List DiskStep} (hSplit : DiskStep.makeFolders dir = done ++ left)
    (hRuns : Runs done d d') : Disk.Opened dir d d' := by
  refine runs_induction (Disk.opened_refl dir d) (fun step hMade e e' hOpened hStep => ?_) hRuns
  have hMem : step ∈ DiskStep.makeFolders dir := by
    rw [hSplit]
    exact List.mem_append_left left hMade
  obtain ⟨p, hp, rfl⟩ := List.mem_map.mp hMem
  exact hOpened.makeFolder (Path.isPrefix_of_mem_foldersTo hp) hStep

/-! ## What the draft leaves -/

/-- Nothing was changed that the file's path could meet. -/
structure Beside (dir : Path) (d d' : Disk) : Prop where
  keeps : d.KeepsFolders d'
  entry : d'.item? (path dir) = d.item? (path dir)

theorem beside_refl (dir : Path) (d : Disk) : Beside dir d d :=
  ⟨fun _ inside h => ⟨inside, h⟩, rfl⟩

theorem Beside.trans (h : Beside dir d e) (h' : Beside dir e d') : Beside dir d d' :=
  ⟨h.keeps.trans h'.keeps, h'.entry.trans h.entry⟩

theorem beside_put_draft {q : Place} (hDraft : d.Leads (draftPath dir) q)
    (hOther : ∀ inside, d.at? q ≠ some (.folder inside)) (bytes : List UInt8) :
    Beside dir d (d.put q (.file bytes)) := by
  have hPlace := place_ne_nil hDraft
  have hKeeps := Disk.keepsFolders_put hPlace hOther (.file bytes)
  refine ⟨hKeeps, Disk.item?_eq_of_keepsFolders hKeeps (hDraft.keepsFolders_of_put hPlace bytes) fun p hFile => ?_⟩
  obtain ⟨hAbove, hBelow, -, -⟩ := places_apart hFile hDraft
  rw [Disk.at?_put d hPlace, Item.at?_put_of_apart _ _ hAbove hBelow, ← Disk.at?]

theorem beside_erase_draft {q : Place} (hDraft : d.Leads (draftPath dir) q)
    (hOther : ∀ inside, d.at? q ≠ some (.folder inside)) : Beside dir d (d.erase q) := by
  have hPlace := place_ne_nil hDraft
  have hKeeps := Disk.keepsFolders_erase hOther
  refine ⟨hKeeps, Disk.item?_eq_of_keepsFolders hKeeps (hDraft.keepsFolders_of_erase hPlace) fun p hFile => ?_⟩
  obtain ⟨hAbove, hBelow, -, -⟩ := places_apart hFile hDraft
  rw [Disk.at?_erase, Item.at?_erase_of_apart _ hAbove hBelow, ← Disk.at?]

theorem beside_of_onDraft {step : DiskStep} (hStep : OnDraft dir step) (h : step.apply d = .ok d') :
    Beside dir d d' := by
  cases hStep with
  | create =>
    obtain ⟨q, hPlace, rfl⟩ := Disk.create_eq_ok h
    obtain ⟨hDraft, hOther⟩ := Disk.filePlace_eq_ok hPlace
    exact beside_put_draft hDraft hOther []
  | append bytes =>
    obtain ⟨q, old, hFind, rfl⟩ := Disk.append_eq_ok h
    obtain ⟨hDraft, hFile⟩ := Disk.find_eq_ok_iff.mp hFind
    exact beside_put_draft hDraft (not_folder_of_file hFile) _
  | sync =>
    cases sync_eq_ok h
    exact beside_refl dir d

theorem beside_of_runs {steps : List DiskStep} (hSteps : ∀ step ∈ steps, OnDraft dir step)
    (h : Runs steps d d') : Beside dir d d' :=
  runs_induction (beside_refl dir d)
    (fun step hMem _ _ hBeside hStep => hBeside.trans (beside_of_onDraft (hSteps step hMem) hStep)) h

/-- No file is left under the draft's name. -/
def Cleared (dir : Path) (d : Disk) : Prop :=
  ∀ bytes, d.item? (draftPath dir) ≠ some (.file bytes)

theorem cleared_of_remove_error {cause : DiskError} (h : d.remove (draftPath dir) = .error cause) : Cleared dir d := by
  intro bytes hFile
  obtain ⟨q, hLeads, hBytes⟩ := Disk.read_eq_ok_iff.mp (Disk.read_eq_ok_iff_item?.mpr hFile)
  rw [Disk.remove, Disk.find_eq_ok_iff.mpr ⟨hLeads, hBytes⟩] at h
  cases h

/-- The draft's path leads to a place that is empty once the draft is gone. -/
theorem item?_draft_of_keeps {q : Place} (hDraft : d.Leads (draftPath dir) q) (hKeeps : d.KeepsFolders d')
    (hGone : d'.at? q = none) : d'.item? (draftPath dir) = none := by
  rw [Disk.item?_of_leads (hDraft.keeps hKeeps), hGone]

theorem cleared_of_remove (h : d.remove (draftPath dir) = .ok d') : Beside dir d d' ∧ Cleared dir d' := by
  obtain ⟨q, bytes, hFind, rfl⟩ := Disk.remove_eq_ok h
  obtain ⟨hDraft, hFile⟩ := Disk.find_eq_ok_iff.mp hFind
  have hOther := not_folder_of_file hFile
  have hGone : (d.erase q).at? q = none := by
    rw [Disk.at?_erase, Item.at?_erase_self (place_ne_nil hDraft)]
  have hNone := item?_draft_of_keeps hDraft (Disk.keepsFolders_erase hOther) hGone
  exact ⟨beside_erase_draft hDraft hOther, fun bytes hBytes => by simp [hNone] at hBytes⟩

theorem item?_draft_of_rename (h : d.rename (draftPath dir) (path dir) = .ok d') :
    d'.item? (draftPath dir) = none := by
  obtain ⟨p, q, bytes, -, hFind, hKeeps, -, hGone⟩ := exists_of_rename h
  exact item?_draft_of_keeps (Disk.find_eq_ok_iff.mp hFind).1 hKeeps hGone

/-! ## The old file and the new one -/

/-- The file is as it was on the disk `d`: what could be read can still be read, and whatever can be read was there
before. -/
structure Intact (dir : Path) (d d' : Disk) : Prop where
  undisturbed : Undisturbed dir d d'
  untorn : ∀ bytes, d'.read (path dir) = .ok bytes →
    ∃ place, d'.Leads (path dir) place ∧ d.at? place = some (.file bytes)
  entry : d.Grounds dir → d'.item? (path dir) = d.item? (path dir)

theorem intact_of_opened (h : Disk.Opened dir d d') : Intact dir d d' where
  undisturbed bytes hRead := by
    obtain ⟨q, hLeads, hFile⟩ := Disk.read_eq_ok_iff.mp hRead
    exact Disk.read_eq_ok_iff.mpr ⟨q, hLeads.keeps h.keeps, (h.files q bytes).mpr hFile⟩
  untorn bytes hRead := by
    obtain ⟨q, hLeads, hFile⟩ := Disk.read_eq_ok_iff.mp hRead
    exact ⟨q, hLeads, (h.files q bytes).mp hFile⟩
  entry hGrounds := h.item?_join hGrounds (by decide) (by decide)

theorem intact_refl (dir : Path) (d : Disk) : Intact dir d d :=
  intact_of_opened (Disk.opened_refl dir d)

theorem Intact.beside (h : Intact dir d e) (hBeside : Beside dir e d') : Intact dir d d' where
  undisturbed bytes hRead := by
    rw [Disk.read_eq_ok_iff_item?, hBeside.entry, ← Disk.read_eq_ok_iff_item?]
    exact h.undisturbed bytes hRead
  untorn bytes hRead := by
    rw [Disk.read_eq_ok_iff_item?, hBeside.entry, ← Disk.read_eq_ok_iff_item?] at hRead
    obtain ⟨place, hLeads, hFile⟩ := h.untorn bytes hRead
    exact ⟨place, hLeads.keeps hBeside.keeps, hFile⟩
  entry hGrounds := hBeside.entry.trans (h.entry hGrounds)

/-- The file holds the checkpoint, and the draft is gone. -/
structure Replaced (dir : Path) (c : Checkpoint) (d : Disk) : Prop where
  entry : d.item? (path dir) = some (.file c.bytes)
  draft : d.item? (draftPath dir) = none

theorem replaced_of_writeSteps {device : Device} {c : Checkpoint} (h : Runs (writeSteps device dir c) d d') :
    Replaced dir c d' := by
  refine ⟨Disk.read_eq_ok_iff_item?.mp (read_of_writeSteps h), ?_⟩
  obtain ⟨created, -, hWritten⟩ := h
  obtain ⟨filled, -, synced, -, renamed, hRename, rfl⟩ := runs_append.mp hWritten
  exact item?_draft_of_rename hRename

/-- Up to the last step the file is the old one. -/
theorem Intact.write {device : Device} {c : Checkpoint} {done left : List DiskStep} (h : Intact dir d e)
    (hSplit : writeSteps device dir c = done ++ left) (hRuns : Runs done e d') :
    left ≠ [] ∧ Intact dir d d' ∨ left = [] ∧ Replaced dir c d' := by
  by_cases hLeft : left = []
  · rw [hLeft, List.append_nil] at hSplit
    exact .inr ⟨hLeft, replaced_of_writeSteps (hSplit ▸ hRuns)⟩
  · exact .inl ⟨hLeft, h.beside (beside_of_runs (onDraft_of_writeSteps hSplit hLeft) hRuns)⟩

/-- A device that writes keeps the old file until nothing more can fail. -/
theorem Intact.perform_write (h : Intact dir d e) (device : Device) (c : Checkpoint) (n : Nat) :
    ((device.perform n (writeSteps device dir c) e).failure = none →
      Replaced dir c (device.perform n (writeSteps device dir c) e).disk) ∧
    ((device.perform n (writeSteps device dir c) e).failure ≠ none →
      Intact dir d (device.perform n (writeSteps device dir c) e).disk) ∧
    ∀ d' ∈ (device.perform n (writeSteps device dir c) e).trail, Intact dir d d' ∨
      Replaced dir c d' ∧ (device.perform n (writeSteps device dir c) e).failure = none := by
  obtain ⟨done, left, hSplit, hRuns, hDone⟩ := device.perform_runs n (writeSteps device dir c) e
  refine ⟨fun hWhole => ?_, fun hFailed => ?_, fun d' hd' => ?_⟩
  · obtain ⟨hLeft, -⟩ | ⟨-, hNew⟩ := h.write hSplit hRuns
    · exact absurd (hDone.mp hWhole) hLeft
    · exact hNew
  · obtain ⟨-, hOld⟩ | ⟨hLeft, -⟩ := h.write hSplit hRuns
    · exact hOld
    · exact absurd (hDone.mpr hLeft) hFailed
  -- a disk with the new file on it can only be the last one, and then no step failed
  · obtain ⟨done, left, hSplit, hRuns, hWhole⟩ := device.runs_of_mem_trail hd'
    obtain ⟨-, hOld⟩ | ⟨hLeft, hNew⟩ := h.write hSplit hRuns
    · exact .inl hOld
    · exact .inr ⟨hNew, hWhole hLeft⟩

/-- How a save can go. -/
inductive Saves (d : Disk) (dir : Path) (c : Checkpoint) (s : Saving) : Prop where
  | unopened {cause : DiskError} (hOutcome : s.outcome = .error (.write dir cause))
      (hOpened : Disk.Opened dir d s.disk) (hTrail : ∀ d' ∈ s.trail, Intact dir d d')
  | unwritten {cause : DiskError} (hOutcome : s.outcome = .error (.write (path dir) cause))
      (hIntact : Intact dir d s.disk) (hCleared : Cleared dir s.disk) (hTrail : ∀ d' ∈ s.trail, Intact dir d d')
  | saved (hOutcome : s.outcome = .ok (path dir)) (hReplaced : Replaced dir c s.disk)
      (hTrail : ∀ d' ∈ s.trail, Intact dir d d' ∨ Replaced dir c d')

theorem saves (device : Device) (d : Disk) (dir : Path) (c : Checkpoint) : Saves d dir c (c.save device d dir) := by
  obtain ⟨done, left, hSplit, hRuns, hDone⟩ := device.perform_runs 0 (DiskStep.makeFolders dir) d
  have hOpened := opened_of_makeFolders hSplit hRuns
  have hMade : ∀ d' ∈ (device.perform 0 (DiskStep.makeFolders dir) d).trail, Intact dir d d' := by
    intro d' hd'
    obtain ⟨done, left, hSplit, hRuns, -⟩ := device.runs_of_mem_trail hd'
    exact intact_of_opened (opened_of_makeFolders hSplit hRuns)
  unfold save
  simp only
  generalize device.perform 0 (DiskStep.makeFolders dir) d = made at hOpened hMade
  obtain ⟨trail, disk, failure⟩ := made
  cases failure with
  | some cause => exact .unopened rfl hOpened hMade
  | none =>
    obtain ⟨hNew, hOld, hWritten⟩ :=
      (intact_of_opened hOpened).perform_write device c (DiskStep.makeFolders dir).length
    simp only
    generalize device.perform (DiskStep.makeFolders dir).length (writeSteps device dir c) disk = written
      at hNew hOld hWritten
    obtain ⟨trail', disk', failure'⟩ := written
    cases failure' with
    | none =>
      refine .saved rfl (hNew rfl) fun d' hd' => ?_
      obtain hd' | hd' := List.mem_append.mp hd'
      · exact .inl (hMade d' hd')
      · exact (hWritten d' hd').imp_right And.left
    | some cause =>
      have hUnwritten : ∀ cleared, Intact dir d cleared → Cleared dir cleared →
          Saves d dir c ⟨.error (.write (path dir) cause), trail ++ trail' ++ [cleared], cleared⟩ := by
        refine fun cleared hIntact hGone => .unwritten rfl hIntact hGone fun d' hd' => ?_
        rw [List.mem_append, List.mem_append, List.mem_singleton] at hd'
        obtain (hd' | hd') | rfl := hd'
        · exact hMade d' hd'
        · exact (hWritten d' hd').resolve_right fun hReplaced => by cases hReplaced.2
        · exact hIntact
      have hBefore : Intact dir d disk' := hOld (by simp)
      cases hRemove : disk'.remove (draftPath dir) with
      | error cause' => exact hUnwritten disk' hBefore (cleared_of_remove_error hRemove)
      | ok cleared =>
        obtain ⟨hBeside, hGone⟩ := cleared_of_remove hRemove
        exact hUnwritten cleared (hBefore.beside hBeside) hGone

/-- A save that failed leaves the file as it was. -/
theorem intact_of_save_error {device : Device} {c : Checkpoint} {error : CheckpointError}
    (h : (c.save device d dir).outcome = .error error) : Intact dir d (c.save device d dir).disk := by
  cases saves device d dir c with
  | unopened _ hOpened => exact intact_of_opened hOpened
  | unwritten _ hIntact => exact hIntact
  | saved hOutcome => cases hOutcome.symm.trans h

/-- Loading gives the same on both disks, or can read the file on neither. -/
def LoadsAlike (dir : Path) (d d' : Disk) : Prop :=
  load d' dir = load d dir ∨ ∃ cause cause', load d dir = .error (.read (path dir) cause) ∧
    load d' dir = .error (.read (path dir) cause')

theorem load_of_item? {bytes : List UInt8} (h : d.item? (path dir) = some (.file bytes)) :
    load d dir = match ofBytes? bytes with
      | some c => .ok c
      | none => .error (.decode (path dir)) := by
  have hRead := Disk.read_eq_ok_iff_item?.mpr h
  cases hDecode : ofBytes? bytes with
  | some c | none => simp only [load, hRead, hDecode]

theorem load_of_item?_ne (h : ∀ bytes, d.item? (path dir) ≠ some (.file bytes)) :
    ∃ cause, load d dir = .error (.read (path dir) cause) := by
  unfold load
  cases hRead : d.read (path dir) with
  | error cause => exact ⟨cause, rfl⟩
  | ok bytes => exact absurd (Disk.read_eq_ok_iff_item?.mp hRead) (h bytes)

theorem loadsAlike_of_item? (h : d'.item? (path dir) = d.item? (path dir)) : LoadsAlike dir d d' := by
  by_cases hFile : ∃ bytes, d.item? (path dir) = some (.file bytes)
  · obtain ⟨bytes, hFile⟩ := hFile
    left
    rw [load_of_item? hFile, load_of_item? (h.trans hFile)]
  · have hNone : ∀ bytes, d.item? (path dir) ≠ some (.file bytes) := fun bytes hBytes => hFile ⟨bytes, hBytes⟩
    obtain ⟨cause, hBefore⟩ := load_of_item?_ne hNone
    obtain ⟨cause', hAfter⟩ := load_of_item?_ne (h ▸ hNone)
    exact .inr ⟨cause, cause', hBefore, hAfter⟩

/-- A save that goes well leaves the new file and no draft. One that fails leaves the old file, and no draft unless
it did not even come to write one. And all the time the file is the old one or the new one. -/
theorem save_atomic (device : Device) (d : Disk) (dir : Path) (c : Checkpoint) :
    (∀ p, (c.save device d dir).outcome = .ok p →
      p = path dir ∧
      (c.save device d dir).disk.item? (path dir) = some (.file (Text.utf8 (c.write ++ ['\n']))) ∧
      (c.save device d dir).disk.item? (draftPath dir) = none) ∧
    (∀ error, (c.save device d dir).outcome = .error error →
      Intact dir d (c.save device d dir).disk ∧
      ((∃ cause, error = .write dir cause ∧
          ∀ q bytes, (c.save device d dir).disk.at? q = some (.file bytes) ↔ d.at? q = some (.file bytes)) ∨
        ∃ cause, error = .write (path dir) cause ∧ Cleared dir (c.save device d dir).disk)) ∧
    ∀ d' ∈ d :: (c.save device d dir).trail,
      Intact dir d d' ∧ (d.Grounds dir → LoadsAlike dir d d') ∨
        d'.item? (path dir) = some (.file (Text.utf8 (c.write ++ ['\n']))) ∧ load d' dir = .ok c := by
  have hOld : ∀ d', Intact dir d d' → Intact dir d d' ∧ (d.Grounds dir → LoadsAlike dir d d') :=
    fun d' hIntact => ⟨hIntact, fun hGrounds => loadsAlike_of_item? (hIntact.entry hGrounds)⟩
  cases saves device d dir c with
  | unopened hOutcome hOpened hTrail =>
    rw [hOutcome]
    refine ⟨fun p hOk => (by cases hOk), fun error hError => ?_, fun d' hd' => .inl (hOld d' ?_)⟩
    · cases hError
      exact ⟨intact_of_opened hOpened, .inl ⟨_, rfl, hOpened.files⟩⟩
    · exact (List.forall_mem_cons.mpr ⟨intact_refl dir d, hTrail⟩) d' hd'
  | unwritten hOutcome hIntact hCleared hTrail =>
    rw [hOutcome]
    refine ⟨fun p hOk => (by cases hOk), fun error hError => ?_, fun d' hd' => .inl (hOld d' ?_)⟩
    · cases hError
      exact ⟨hIntact, .inr ⟨_, rfl, hCleared⟩⟩
    · exact (List.forall_mem_cons.mpr ⟨intact_refl dir d, hTrail⟩) d' hd'
  | saved hOutcome hReplaced hTrail =>
    rw [hOutcome]
    refine ⟨fun p hOk => ?_, fun error hError => (by cases hError), fun d' hd' => ?_⟩
    · cases hOk
      exact ⟨rfl, hReplaced.entry, hReplaced.draft⟩
    · obtain rfl | hd' := List.mem_cons.mp hd'
      · exact .inl (hOld d' (intact_refl dir d'))
      obtain hIntact | hNew := hTrail d' hd'
      · exact .inl (hOld d' hIntact)
      · exact .inr ⟨hNew.entry, load_of_read (Disk.read_eq_ok_iff_item?.mpr hNew.entry)⟩

/-! ## Folders that are made and left again -/

def blank : Checkpoint := ⟨⟨"", 0, ""⟩, ⟨"", 0, ""⟩, []⟩

def second : Checkpoint := ⟨⟨"1a", 1, ""⟩, ⟨"2a", 2, "1a"⟩, []⟩

/-- A folder that holds an old file, and a draft that never took its place. -/
def interrupted : Disk :=
  ⟨[("feed", .folder []), ("state", .folder [(fileName, .file blank.bytes), (draftName, .file [0])])]⟩

/-- The way to that folder out of another one. -/
def besideFeed : Path := ⟨["feed", "..", "state"]⟩

/-- Takes the first byte apart from the others, and does not move the draft. -/
def stuck : Device where
  refuses n := n = 7
  parts bytes := [bytes.take 1, bytes.drop 1]
  parts_flatten bytes := by simp [-List.drop_one]

theorem save_atomic_interrupted :
    interrupted.Grounds besideFeed ∧
    (second.save stuck interrupted besideFeed).outcome = .error (.write (path besideFeed) .refused) ∧
    (second.save stuck interrupted besideFeed).disk.item? (path besideFeed) = some (.file blank.bytes) ∧
    Cleared besideFeed (second.save stuck interrupted besideFeed).disk ∧
    ∀ d' ∈ (second.save stuck interrupted besideFeed).trail,
      load d' besideFeed = .ok blank ∨ load d' besideFeed = .ok second := by
  have hGrounds : interrupted.Grounds besideFeed := by
    intro before hWay
    obtain _ | ⟨first, _ | ⟨next, _ | ⟨last, rest⟩⟩⟩ := before
    · simp [besideFeed] at hWay
    · obtain rfl : first = "feed" := by simpa [besideFeed] using hWay
      exact ⟨[], rfl⟩
    · simp [besideFeed] at hWay
    · simp [besideFeed] at hWay
  have hOutcome : (second.save stuck interrupted besideFeed).outcome = .error (.write (path besideFeed) .refused) := rfl
  have hEntry : interrupted.item? (path besideFeed) = some (.file blank.bytes) := rfl
  have hLoad : load interrupted besideFeed = .ok blank := load_of_read (Disk.read_eq_ok_iff_item?.mpr hEntry)
  obtain ⟨-, hFailed, hTrail⟩ := save_atomic stuck interrupted besideFeed second
  obtain ⟨hIntact, ⟨cause, hOther, -⟩ | ⟨cause, -, hCleared⟩⟩ := hFailed _ hOutcome
  · cases hOther
  refine ⟨hGrounds, hOutcome, (hIntact.entry hGrounds).trans hEntry, hCleared, fun d' hd' => ?_⟩
  obtain ⟨-, hAlike⟩ | ⟨-, hNew⟩ := hTrail d' (List.mem_cons_of_mem _ hd')
  · obtain hSame | ⟨cause, cause', hNone, -⟩ := hAlike hGrounds
    · exact .inl (hSame.trans hLoad)
    · rw [hLoad] at hNone
      cases hNone
  · exact .inr hNew

/-- The same way with the folder `feed` missing, so that the file cannot be reached. -/
def hidden : Disk := ⟨[("state", .folder [(fileName, .file blank.bytes)])]⟩

/-- The way out of a folder that is named like the file. -/
def outOfItself : Path := ⟨[fileName, ".."]⟩

/-- A folder whose name takes too many bytes, in one that is missing as well. -/
def tooLong : Path := ⟨["state", String.ofList (List.replicate 64 (Char.ofNat 0x10000))]⟩

set_option maxRecDepth 2000 in
/-- A folder that is made on the way may stand in the file's place, or open the way to a file that was hidden. And
it may show another reason why there is nothing to load. -/
theorem not_atomic_through_made_folders :
    (¬ ∀ (device : Device) (d : Disk) (dir : Path) (c : Checkpoint) (error : CheckpointError),
      (c.save device d dir).outcome = .error error →
        (c.save device d dir).disk.item? (path dir) = d.item? (path dir)) ∧
    (¬ ∀ (device : Device) (d : Disk) (dir : Path) (c : Checkpoint), ∀ d' ∈ (c.save device d dir).trail,
      LoadsAlike dir d d' ∨ load d' dir = .ok c) ∧
    ¬ ∀ (device : Device) (d : Disk) (dir : Path) (c : Checkpoint), d.Grounds dir →
      ∀ d' ∈ (c.save device d dir).trail, load d' dir = load d dir ∨ load d' dir = .ok c := by
  refine ⟨?_, ?_, ?_⟩
  · intro hKept
    have hOutcome : (blank.save .sound .empty outOfItself).outcome = .error (.write (path outOfItself) .isFolder) := rfl
    have hEntry := hKept _ _ _ _ _ hOutcome
    have hFolder : (blank.save .sound .empty outOfItself).disk.item? (path outOfItself) = some (.folder []) := rfl
    rw [hFolder] at hEntry
    cases hEntry
  · intro hOldOrNew
    have hOpened : hidden.put ["feed"] (.folder []) ∈ (second.save .sound hidden besideFeed).trail :=
      List.mem_of_mem_head? rfl
    have hLoad : load (hidden.put ["feed"] (.folder [])) besideFeed = .ok blank := load_of_read rfl
    have hHidden : load hidden besideFeed = .error (.read (path besideFeed) .notFound) := rfl
    obtain (hSame | ⟨cause, cause', hBefore, hAfter⟩) | hNew := hOldOrNew _ _ _ _ _ hOpened
    · rw [hLoad, hHidden] at hSame
      cases hSame
    · rw [hLoad] at hAfter
      cases hAfter
    · rw [hLoad] at hNew
      exact absurd (Except.ok.inj hNew) (by decide)
  · intro hSameOrNew
    have hGrounds : Disk.empty.Grounds tooLong := by
      intro before hWay
      have hOut : ".." ∈ tooLong.parts := hWay.subset (by simp)
      exact absurd hOut (by decide +kernel)
    have hMade : Disk.empty.put ["state"] (.folder []) ∈ (blank.save .sound .empty tooLong).trail :=
      List.mem_of_mem_head? rfl
    have hBefore : load .empty tooLong = .error (.read (path tooLong) .notFound) := rfl
    have hAfter : load (Disk.empty.put ["state"] (.folder [])) tooLong = .error (.read (path tooLong) .badName) := rfl
    obtain hSame | hNew := hSameOrNew _ _ _ _ hGrounds _ hMade
    · rw [hBefore, hAfter] at hSame
      cases hSame
    · rw [hAfter] at hNew
      cases hNew

end Checkpoint

end ChainFeed
