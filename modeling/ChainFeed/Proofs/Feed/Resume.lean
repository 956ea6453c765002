import ChainFeed.Feed.Limit
import ChainFeed.Proofs.Checkpoint.RoundTrip
import ChainFeed.Proofs.Checkpoint.Atomic
import ChainFeed.Proofs.Feed.Delivery

/-! # Resuming delivers nothing again

The checkpoint file holds the last checkpoint that was put in place, and that checkpoint keeps the ledger
of its graph: a block accepted before it is one of its blocks, or lies below its LIB. So a run that
resumes from the file goes on with the ledger of the run that left it.
-/

set_option autoImplicit false

namespace ChainFeed

def unsavedIn (entries : List Entry) : List Block :=
  (entries.reverse.takeWhile fun e => e.checkpoint?.isNone).reverse.filterMap Entry.accepted?

/-- The blocks that were accepted since a checkpoint was last put in place. -/
def Journal.unsaved (j : Journal) : List Block := unsavedIn j.entries

theorem unsavedIn_append {entries more : List Entry} (h : more.filterMap Entry.checkpoint? = []) :
    unsavedIn (entries ++ more) = unsavedIn entries ++ more.filterMap Entry.accepted? := by
  rw [List.filterMap_eq_nil_iff] at h
  have hAll : ∀ e ∈ more.reverse, e.checkpoint?.isNone = true := by
    intro e he
    rw [h e (List.mem_reverse.mp he)]
    rfl
  rw [unsavedIn, List.reverse_append, List.takeWhile_append_of_pos hAll, List.reverse_append,
    List.reverse_reverse, List.filterMap_append, unsavedIn]

theorem unsavedIn_append_stored {entries more : List Entry} (c : Checkpoint)
    (h : more.filterMap Entry.checkpoint? = []) :
    unsavedIn (entries ++ .stored c :: more) = more.filterMap Entry.accepted? := by
  have hStored : unsavedIn (entries ++ [.stored c]) = [] := by
    rw [unsavedIn, List.reverse_append]
    rfl
  rw [← List.singleton_append, ← List.append_assoc, unsavedIn_append h, hStored, List.nil_append]

/-- The graph of a checkpoint has the ledger of the graph that it was taken of. -/
theorem Ledger.restore {g : ForkGraph} {answers : List (BlockNum × Block)} {accepted : List Block}
    {last : Link} {c : Checkpoint} (h : Ledger g answers accepted)
    (hSnapshot : Checkpoint.snapshot g last = .ok c) : Ledger c.restore answers accepted where
  once := h.once
  answered := h.answered
  kept b hb := by
    rw [Checkpoint.libNum_of_snapshot hSnapshot]
    refine (h.kept b hb).imp_right ?_
    rintro ⟨n, hn, hFired, hId, hNum⟩
    exact ⟨_, (Checkpoint.mem_restore_of_snapshot hSnapshot).mpr ⟨n, hn, hFired, rfl⟩, rfl, hId, hNum⟩
  content n hn b hb := by
    obtain ⟨s, -, rfl⟩ := Checkpoint.exists_of_mem_restore hn
    cases hb

variable {τ : Type}

/-- The run `r'` wrote entries after those of `r`, none of them a checkpoint. -/
def Run.Continues (r r' : Run τ) : Prop :=
  r.Writes (fun e => e.checkpoint? = none) r'

namespace Run.Continues

variable {r r' : Run τ}

theorem trans {r'' : Run τ} (h : r.Continues r') (h' : r'.Continues r'') : r.Continues r'' :=
  Run.Writes.trans h h'

theorem of_reports (h : r.Writes Entry.IsReport r') : r.Continues r' :=
  h.mono fun _ => Entry.checkpoint?_ignoresReports.eq_none_of_isReport

theorem of_sameBut (h : r.SameBut r') : r.Continues r' :=
  h.requests.mono fun _ => Entry.checkpoint?_ignoresReports.eq_none_of_isRequest fun _ _ _ => rfl

theorem unsaved_eq (h : r.Continues r') :
    ∃ accepted, r'.journal.pick Entry.accepted? = r.journal.pick Entry.accepted? ++ accepted ∧
      r'.journal.unsaved = r.journal.unsaved ++ accepted := by
  obtain ⟨more, hEntries, hMore⟩ := h
  refine ⟨more.filterMap Entry.accepted?, ?_, ?_⟩
  · rw [Journal.pick, hEntries, List.filterMap_append, Journal.pick]
  · rw [Journal.unsaved, hEntries, unsavedIn_append (List.filterMap_eq_nil_iff.mpr hMore), Journal.unsaved]

end Run.Continues

namespace Feed

variable {f : Feed τ}

/-- What an iteration does about checkpoints: it puts one in place, or leaves the file as it was. -/
inductive Persists (f : Feed τ) (r r' : Run τ) : Prop where
  | kept (hContinues : r.Continues r')
      (hFile : ∀ dir, f.config.stateDir = some dir → Checkpoint.Undisturbed dir r.disk r'.disk)
  | saved {c : Checkpoint} {last : Link} (hSnapshot : Checkpoint.snapshot r'.graph last = .ok c)
      (hUnsaved : r'.journal.unsaved = [])
      (hFile : ∀ dir, f.config.stateDir = some dir → r'.disk.read (Checkpoint.path dir) = .ok c.bytes)

theorem Persists.of_disk_eq {r r' : Run τ} (hContinues : r.Continues r') (hDisk : r'.disk = r.disk) :
    f.Persists r r' :=
  .kept hContinues fun _ _ _ hRead => hDisk ▸ hRead

theorem Persists.of_continues {r s r' : Run τ} (h : f.Persists s r') (hContinues : r.Continues s)
    (hDisk : s.disk = r.disk) : f.Persists r r' := by
  cases h with
  | kept hMore hFile => exact .kept (hContinues.trans hMore) fun dir hDir => hDisk ▸ hFile dir hDir
  | saved hSnapshot hUnsaved hFile => exact .saved hSnapshot hUnsaved hFile


theorem handOver_continues (path : List Node) (r : Run τ) : r.Continues (f.handOver path r) := by
  obtain ⟨passed, left, last, h⟩ := fire_passes f.sink f.config.start path r.graph r.sinkState
  exact .record (List.filterMap_eq_nil_iff.mp (h.filterMap_entries_eq_nil (fun _ _ => rfl) fun _ => rfl)) _

theorem advance_continues (b : Block) (num : BlockNum) (graph : ForkGraph) (move : LibMove) (r : Run τ) :
    r.Continues (advance b num graph move r) := by
  refine (advance_writes b num graph move r).mono ?_
  rintro e (hReport | ⟨current, -, rfl⟩)
  · exact Entry.checkpoint?_ignoresReports.eq_none_of_isReport hReport
  · rfl

theorem Saved.persists {last : Link} {r t : Run τ} (h : f.Saved last r t) : f.Persists r t := by
  cases h with
  | off hDir => exact .of_disk_eq (.refl r) rfl
  | on hDir hSnapshot hSave =>
    refine .saved hSnapshot ?_ ?_
    · rw [Journal.unsaved, Run.record_journal, Journal.entries_record, unsavedIn_append_stored _ rfl]
      rfl
    · intro dir hDir'
      cases hDir.symm.trans hDir'
      exact Checkpoint.read_of_save_ok hSave

theorem Unsaved.intact {last : Link} {r t : Run τ} (h : f.Unsaved last r t) {dir : Path}
    (hDir : f.config.stateDir = some dir) : Checkpoint.Intact dir r.disk t.disk := by
  cases h with
  | noLib => exact Checkpoint.intact_refl dir r.disk
  | write hDir' _ hSave =>
    cases hDir.symm.trans hDir'
    exact Checkpoint.intact_of_save_error hSave

theorem Unsaved.persists {last : Link} {r t : Run τ} (h : f.Unsaved last r t) : f.Persists r t := by
  have hContinues : r.Continues t := by
    cases h <;> exact .refl r
  exact .kept hContinues fun dir hDir => (h.intact hDir).undisturbed

theorem Persists.resembles {r t r' : Run τ} (h : f.Persists r t) (hLike : Resembles t r') :
    f.Persists r r' := by
  have hMore : t.Continues r' := .of_reports hLike.reports
  cases h with
  | kept hContinues hFile =>
    exact .kept (hContinues.trans hMore) fun dir hDir => hLike.disk ▸ hFile dir hDir
  | saved hSnapshot hUnsaved hFile =>
    refine .saved (hLike.graph ▸ hSnapshot) ?_ fun dir hDir => hLike.disk ▸ hFile dir hDir
    obtain ⟨accepted, hAccepted, hAll⟩ := hMore.unsaved_eq
    have hNone : accepted = [] := by
      rw [hLike.pick_eq Entry.accepted?_ignoresReports] at hAccepted
      exact (List.append_right_eq_self.mp hAccepted.symm)
    rw [hAll, hUnsaved, hNone]
    rfl

theorem Processed.persists {b : Block} {r r' : Run τ} (h : f.Processed b r r') : f.Persists r r' := by
  have hCheck : ∀ target, r.Continues (r.check b target) :=
    fun target => .of_reports (r.check_reports b target)
  have hOver : ∀ path target, r.Continues (f.handOver path (r.check b target)) :=
    fun path target => (hCheck target).trans (handOver_continues path _)
  cases h with
  | headless => exact .of_disk_eq (.of_reports (r.link_reports b)) rfl
  | absent => exact .of_disk_eq (hCheck _) rfl
  | @gap target first =>
    have hLike := f.wait_resembles ((r.check b target).awaiting first.parent)
    exact .of_disk_eq ((hCheck _).trans (.of_reports hLike.reports)) hLike.disk
  | halted => exact .of_disk_eq (hOver _ _) rfl
  | refused _ _ _ hFired =>
    subst hFired
    exact .of_disk_eq ((hOver _ _).trans (.of_reports (resembles_record_note rfl _).reports)) rfl
  | unsaved _ _ _ _ hFired _ hUnsaved =>
    subst hFired
    exact hUnsaved.persists.of_continues ((hOver _ _).trans (advance_continues _ _ _ _ _)) rfl
  | connected _ _ _ _ hFired _ hSaved =>
    subst hFired
    exact (hSaved.persists.of_continues
      ((hOver _ _).trans (advance_continues _ _ _ _ _)) rfl).resembles (f.goOn_resembles _ _)

theorem Stepped.persists {r r' : Run τ} (h : f.Stepped r r') : f.Persists r r' := by
  rcases h.idle_or_processed with ⟨-, hIdle, -⟩ | ⟨-, -, b, s, hTakes, hProcessed⟩
  · exact .of_disk_eq (.of_sameBut hIdle) hIdle.disk
  · exact hProcessed.persists.of_continues (.of_sameBut hTakes.sameBut) hTakes.sameBut.disk

/-- The file of a run holds a checkpoint with the ledger of what was accepted, as far as it was saved. -/
inductive Recoverable (dir : Path) (r : Run τ) : Prop where
  | unsaved (hAll : r.journal.pick Entry.accepted? = r.journal.unsaved)
  | saved {c : Checkpoint} {accepted : List Block}
      (hAccepted : r.journal.pick Entry.accepted? = accepted ++ r.journal.unsaved)
      (hLedger : Ledger c.restore (r.journal.pick Entry.answer?) accepted)
      (hFile : r.disk.read (Checkpoint.path dir) = .ok c.bytes)

theorem Stepped.recoverable {dir : Path} {r r' : Run τ} (h : f.Stepped r r')
    (hDir : f.config.stateDir = some dir) (hAccounts : r'.Accounts [] [])
    (hBefore : Recoverable dir r) : Recoverable dir r' := by
  have hAnswers := h.answers_isPrefix
  cases h.persists with
  | kept hContinues hFile =>
    obtain ⟨more, hMore, hUnsaved⟩ := hContinues.unsaved_eq
    cases hBefore with
    | unsaved hAll => exact .unsaved (by rw [hMore, hUnsaved, hAll])
    | saved hAccepted hLedger hRead =>
      refine .saved ?_ (hLedger.of_subset hAnswers.subset) (hFile dir hDir _ hRead)
      rw [hMore, hUnsaved, hAccepted, List.append_assoc]
  | saved hSnapshot hUnsaved hFile =>
    refine .saved ?_ (hAccounts.ledger.restore hSnapshot) (hFile dir hDir)
    rw [hUnsaved, List.append_nil]
    rfl

theorem recoverable_after {dir : Path} {disk : Disk} {r : Run τ} (hBegun : f.Begun disk r)
    (hDir : f.config.stateDir = some dir) (n : Nat)
    (hSteady : SteadyNumbers ((f.after n r).journal.pick Entry.answer?)) :
    Recoverable dir (f.after n r) := by
  induction n with
  | zero =>
    refine .unsaved ?_
    have hNone : r.journal.entries.filterMap Entry.checkpoint? = [] := hBegun.untouched.checkpoints
    have hAll : unsavedIn ([] ++ r.journal.entries) =
        unsavedIn [] ++ r.journal.entries.filterMap Entry.accepted? := unsavedIn_append hNone
    exact hAll.symm
  | succ n ih =>
    have hStep := f.stepped (f.after n r)
    exact hStep.recoverable hDir (accounts_after hBegun.accounts (n + 1) hSteady)
      (ih (hSteady.of_subset hStep.answers_isPrefix.subset))

theorem accepted_of_ended {disk : Disk} {r : Run τ} (hEnded : r.ending.isSome) (hUntouched : Untouched disk r)
    (n : Nat) : (f.after n r).journal.accepted = [] := by
  rw [f.after_of_ended hEnded]
  exact hUntouched.accepted

end Feed

namespace Session

/-- If nothing was accepted after the last checkpoint of a session, the next session, which finds the file
that it left, accepts none of its blocks again. -/
theorem accepted_disjoint {s s' : Session} {dir : Path}
    (hDir : s.feed.config.stateDir = some dir) (hDir' : s'.feed.config.stateDir = some dir)
    (hDisk : s'.disk = s.run.disk)
    (hSteady : SteadyNumbers (s.run.journal.answers ++ s'.run.journal.answers))
    (hUnsaved : s.run.journal.unsaved = []) :
    ∀ b ∈ s.run.journal.accepted, ∀ b' ∈ s'.run.journal.accepted, b.id ≠ b'.id := by
  intro b hb b' hb'
  have hSteady₁ := hSteady.of_subset (List.subset_append_left _ _)
  cases Feed.recoverable_after s.begun hDir s.iterations hSteady₁ with
  | unsaved hAll =>
    have hNone : s.run.journal.accepted = [] := hAll.trans hUnsaved
    rw [hNone] at hb
    cases hb
  | @saved c accepted hAccepted hLedger hFile =>
    have hAll : s.run.journal.accepted = accepted := by
      have hParts : s.run.journal.accepted = accepted ++ s.run.journal.unsaved := hAccepted
      rw [hParts, hUnsaved, List.append_nil]
    have hLoad : Checkpoint.load s'.disk dir = .ok c := Checkpoint.load_of_read (hDisk ▸ hFile)
    -- the second run is over at once, or has taken up the checkpoint and the ledger with it
    have hNext : s'.beginning.ending.isSome ∨ s'.beginning.graph = c.restore := by
      cases s'.begun with
      | ended hEnding => exact .inl (by rw [hEnding]; rfl)
      | cold hCold => exact absurd hLoad (hCold dir c hDir')
      | resumed hDir'' hLoad' hGraph =>
        cases hDir'.symm.trans hDir''
        cases hLoad.symm.trans hLoad'
        exact .inr hGraph
    rcases hNext with hEnded | hGraph
    · have hNone : s'.run.journal.accepted = [] :=
        Feed.accepted_of_ended hEnded s'.begun.untouched s'.iterations
      rw [hNone] at hb'
      cases hb'
    · have hAccounts := Feed.accounts_after (Feed.accounts_of_begun s'.begun (hGraph ▸ hLedger))
        s'.iterations hSteady
      have hOnce := hAccounts.ledger.once
      rw [List.map_append, List.nodup_append] at hOnce
      exact hOnce.2.2 _ (List.mem_map_of_mem (hAll ▸ hb)) _ (List.mem_map_of_mem hb')

/-- Two branches part after the first block, and both are delivered. -/
def partingWays : Session where
  sinkType := Unit
  feed := .undisturbed { start := 2, finalized := some 2, stateDir := some ⟨["state"]⟩ }
  source := .scripted [
    .plain "2a" 2 "1a" 2, .plain "3a" 3 "2a" 2, .plain "4b" 4 "3b" 2, .plain "3b" 3 "2a" 2]
  sinkState := ()
  disk := .empty
  iterations := 4

/-- The branch that lost wins after all. -/
def turningBack : Session where
  sinkType := Unit
  feed := .undisturbed { start := 2, finalized := some 2, stateDir := some ⟨["state"]⟩ }
  source := .scripted [.plain "5a" 5 "4a" 2, .plain "4a" 4 "3a" 2, .plain "6a" 6 "5a" 3]
  sinkState := ()
  disk := partingWays.run.disk
  iterations := 3

theorem accepted_disjoint_turningBack :
    partingWays.run.journal.accepted.map Block.id = ["2a", "3a", "3b", "4b"] ∧
      turningBack.run.journal.accepted.map Block.id = ["4a", "5a", "6a"] ∧
      ∀ b ∈ partingWays.run.journal.accepted, ∀ b' ∈ turningBack.run.journal.accepted, b.id ≠ b'.id := by
  have hSteady : SteadyNumbers (partingWays.run.journal.answers ++ turningBack.run.journal.answers) := by
    decide +kernel
  have hUnsaved : partingWays.run.journal.unsaved = [] := by decide +kernel
  have hDir : partingWays.feed.config.stateDir = some ⟨["state"]⟩ := rfl
  exact ⟨by decide +kernel, by decide +kernel, accepted_disjoint hDir rfl rfl hSteady hUnsaved⟩

end Session

end ChainFeed
