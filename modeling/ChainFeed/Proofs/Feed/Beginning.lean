import ChainFeed.Proofs.Feed.Request

/-! # How a run begins

A run begins with the start block as its LIB, or from a checkpoint, or it is over before its first
iteration. Nothing is handed over, stored or saved before that.
-/

set_option autoImplicit false

namespace ChainFeed

variable {τ : Type}

def ForkGraph.startingAt (lib : BlockRef) : ForkGraph := { ForkGraph.empty with lib := some lib }

@[simp] theorem ForkGraph.startingAt_lib (lib : BlockRef) : (startingAt lib).lib = some lib := rfl

@[simp] theorem ForkGraph.startingAt_nodes (lib : BlockRef) : (startingAt lib).nodes = [] := rfl

@[simp] theorem ForkGraph.startingAt_libReported (lib : BlockRef) :
    (startingAt lib).libReported = false := rfl

namespace Feed

variable (f : Feed τ)

def ColdStarts (disk : Disk) : Prop :=
  ∀ dir c, f.config.stateDir = some dir → Checkpoint.load disk dir ≠ .ok c

theorem coldStarts_of_stateDir_eq_none {disk : Disk} (h : f.config.stateDir = none) :
    f.ColdStarts disk := by
  intro dir c hDir
  rw [h] at hDir
  cases hDir

theorem coldStarts_of_isNone {disk : Disk} {dir : Path} (hDir : f.config.stateDir = some dir)
    (hNone : (Checkpoint.load disk dir).toOption.isNone = true) : f.ColdStarts disk := by
  intro dir' c hDir' hLoad
  cases hDir.symm.trans hDir'
  rw [hLoad] at hNone
  cases hNone

/-- The disk is untouched, and the journal tells of nothing but how the run was prepared. -/
structure Untouched (disk : Disk) (r : Run τ) : Prop where
  disk : r.disk = disk
  entries : ∀ e ∈ r.journal.entries, e.IsOpening

namespace Untouched

variable {disk : Disk} {r : Run τ}

theorem record (h : Untouched disk r) {more : List Entry} (hMore : ∀ e ∈ more, e.IsOpening) :
    Untouched disk (r.record more) where
  disk := h.disk
  entries := by
    rw [Run.record_journal, Journal.entries_record]
    exact fun e he => (List.mem_append.mp he).elim (h.entries e) (hMore e)

theorem of_sameBut {s : Run τ} (h : Untouched disk r) (hSame : r.SameBut s) : Untouched disk s where
  disk := hSame.disk.trans h.disk
  entries := by
    obtain ⟨more, hEntries, hMore⟩ := hSame.requests
    rw [hEntries]
    exact fun e he => (List.mem_append.mp he).elim (h.entries e) fun he => .request (hMore e he)

theorem pick_eq_nil (h : Untouched disk r) {α : Type} {p : Entry → Option α} (hp : ∀ e, e.IsOpening → p e = none) :
    r.journal.pick p = [] :=
  List.filterMap_eq_nil_iff.mpr fun e he => hp e (h.entries e he)

theorem accepted (h : Untouched disk r) : r.journal.pick Entry.accepted? = [] :=
  h.pick_eq_nil fun _ => Entry.accepted?_ignoresReports.eq_none_of_isOpening (fun _ => rfl) fun _ _ _ => rfl

theorem handed (h : Untouched disk r) : r.journal.pick Entry.handed? = [] :=
  h.pick_eq_nil fun _ => Entry.handed?_ignoresReports.eq_none_of_isOpening (fun _ => rfl) fun _ _ _ => rfl

theorem checkpoints (h : Untouched disk r) : r.journal.pick Entry.checkpoint? = [] :=
  h.pick_eq_nil fun _ => Entry.checkpoint?_ignoresReports.eq_none_of_isOpening (fun _ => rfl) fun _ _ _ => rfl

theorem linked (h : Untouched disk r) : r.journal.pick Entry.linked? = [] :=
  h.pick_eq_nil fun _ => Entry.linked?_of_isOpening

end Untouched

inductive Begun (disk : Disk) : Run τ → Prop where
  /-- The sink did not open, or the start block could not be fetched. -/
  | ended {r : Run τ} {e : Ending} (hEnding : r.ending = some e)
      (hCause : e.Outside) (hGraph : r.graph = .empty)
      (hPending : r.pending = none) (hAnswers : r.journal.pick Entry.answer? = [])
      (hUntouched : Untouched disk r) : Begun disk r
  | cold {r : Run τ} {b : Block} (hCold : f.ColdStarts disk) (hGraph : r.graph = .startingAt b.ref)
      (hCursor : r.cursor = .start) (hNext : r.next = f.config.resolvedStart)
      (hPending : r.pending = some b) (hEnding : r.ending = none)
      (hAnswers : r.journal.pick Entry.answer? = [(f.config.resolvedStart, b)])
      (hUntouched : Untouched disk r) : Begun disk r
  | resumed {r : Run τ} {dir : Path} {c : Checkpoint} (hDir : f.config.stateDir = some dir)
      (hLoad : Checkpoint.load disk dir = .ok c) (hGraph : r.graph = c.restore)
      (hCursor : r.cursor = .start) (hPending : r.pending = none)
      (hNext : c.lastFired.num = BlockNum.highest ∧ r.ending = some .overflow ∨
        c.lastFired.num ≠ BlockNum.highest ∧ r.ending = none ∧ r.next = c.lastFired.num + 1)
      (hAnswers : r.journal.pick Entry.answer? = []) (hUntouched : Untouched disk r) : Begun disk r

theorem Begun.untouched {disk : Disk} {r : Run τ} (h : f.Begun disk r) : Untouched disk r := by
  cases h <;> assumption

/-- No run begins with a violation. -/
theorem Begun.lawful {disk : Disk} {r : Run τ} (h : f.Begun disk r) (error : ForkError) :
    r.ending ≠ some (.failed (.invariant error)) := by
  intro hError
  cases h with
  | ended hEnding hCause =>
    rw [hError] at hEnding
    exact hCause.ne_invariant error (Option.some.inj hEnding).symm
  | cold _ _ _ _ _ hEnding =>
    rw [hError] at hEnding
    cases hEnding
  | resumed _ _ _ _ _ hNext =>
    rcases hNext with ⟨-, hEnding⟩ | ⟨-, hEnding, -⟩ <;> rw [hError] at hEnding <;> cases hEnding

theorem coldStart_begun {disk : Disk} {r : Run τ} (hCold : f.ColdStarts disk)
    (hGraph : r.graph = .empty) (hCursor : r.cursor = .start) (hPending : r.pending = none)
    (hEnding : r.ending = none) (hAnswers : r.journal.pick Entry.answer? = [])
    (hUntouched : Untouched disk r) : f.Begun disk (f.coldStart f.config.resolvedStart r) := by
  unfold coldStart
  rcases hFetch : f.fetch f.config.resolvedStart r with ⟨r', _ | b⟩
  · obtain ⟨hSame, hPending', -, hAnswers'⟩ := f.fetch_eq_none hFetch
    obtain ⟨e, hEnd, hCause⟩ := f.ending_of_fetch_none hFetch
    exact .ended hEnd hCause (hSame.graph.trans hGraph) (hPending'.trans hPending)
      (hAnswers'.trans hAnswers) (hUntouched.of_sameBut hSame)
  · obtain ⟨hSame, -, hEnding', hAnswers'⟩ := f.fetch_eq_some hFetch
    have hEmpty : r'.graph = .empty := hSame.graph.trans hGraph
    have hInit : r'.graph.initLib b.ref = .ok (.startingAt b.ref) := by
      rw [hEmpty]
      rfl
    simp only [hInit]
    have hOpening : (Entry.note (.libInitialized b.ref)).IsOpening := .request (.report (.note rfl) rfl)
    refine .cold hCold rfl (hSame.cursor.trans hCursor) rfl rfl (hEnding'.trans hEnding) ?_ ?_
    · rw [Run.record_journal, Journal.pick_record, hAnswers', hAnswers]
      rfl
    · exact { (hUntouched.of_sameBut hSame).record (List.forall_mem_singleton.mpr hOpening) with }

theorem resume_begun {disk : Disk} {r : Run τ} {dir : Path} {c : Checkpoint} (hDir : f.config.stateDir = some dir)
    (hLoad : Checkpoint.load disk dir = .ok c) (hCursor : r.cursor = .start) (hPending : r.pending = none)
    (hEnding : r.ending = none) (hAnswers : r.journal.pick Entry.answer? = []) (hUntouched : Untouched disk r) :
    f.Begun disk (r.resume c) := by
  unfold Run.resume BlockNum.next?
  rw [c.rebuild_eq]
  simp only
  generalize hMore : [Entry.note (.libInitialized c.lib.ref), .note (.loaded c.lastFired.ref c.lib.ref c.blocks.length),
    .event (.loaded c.lib.ref c.lastFired.ref c.blocks.length)] = more
  have hOpening : ∀ e ∈ more, e.IsOpening := by
    rw [← hMore]
    simp only [List.forall_mem_cons]
    exact ⟨.request (.report (.note rfl) rfl), .request (.report (.note rfl) rfl),
      .request (.report (.event _) rfl), by simp⟩
  have hAnswers' : (r.record more).journal.pick Entry.answer? = [] := by
    rw [Run.record_journal, Journal.pick_record, hAnswers, ← hMore]
    rfl
  have hUntouched' := hUntouched.record hOpening
  by_cases hHighest : c.lastFired.num = BlockNum.highest
  · simp only [if_pos hHighest]
    exact .resumed hDir hLoad rfl hCursor hPending (.inl ⟨hHighest, rfl⟩) hAnswers' { hUntouched' with }
  · simp only [if_neg hHighest]
    exact .resumed hDir hLoad rfl hCursor hPending (.inr ⟨hHighest, hEnding, rfl⟩) hAnswers' { hUntouched' with }

theorem prepare_begun {disk : Disk} {r : Run τ} (hGraph : r.graph = .empty) (hCursor : r.cursor = .start)
    (hPending : r.pending = none) (hEnding : r.ending = none) (hAnswers : r.journal.pick Entry.answer? = [])
    (hUntouched : Untouched disk r) : f.Begun disk (f.prepare r) := by
  unfold prepare
  simp only
  split
  next hDir =>
    exact f.coldStart_begun (f.coldStarts_of_stateDir_eq_none hDir) hGraph hCursor hPending hEnding hAnswers hUntouched
  next dir hDir =>
    rw [hUntouched.disk]
    split
    next c hLoad => exact f.resume_begun hDir hLoad hCursor hPending hEnding hAnswers hUntouched
    next e hLoad =>
      have hCold : f.ColdStarts disk := by
        intro dir' c hDir' hOk
        cases hDir.symm.trans hDir'
        rw [hOk] at hLoad
        cases hLoad
      refine f.coldStart_begun hCold hGraph hCursor hPending hEnding ?_
        (hUntouched.record (List.forall_mem_singleton.mpr (.request (.report (.note rfl) rfl))))
      rw [Run.record_journal, Journal.pick_record, hAnswers]
      rfl

theorem begin_begun (source : Source) (sinkState : τ) (disk : Disk) :
    f.Begun disk (f.begin source sinkState disk) := by
  have hOpened : ∀ d, ∀ e ∈ (Journal.empty.record [.opened d]).entries, e.IsOpening := by
    intro d e he
    rw [Journal.entries_record] at he
    cases List.mem_singleton.mp he
    exact .opened d
  unfold begin
  simp only
  split
  · exact .ended rfl .opening rfl rfl rfl ⟨rfl, hOpened _⟩
  · exact .ended rfl .crashed rfl rfl rfl ⟨rfl, hOpened _⟩
  · generalize hRun : Run.record _ _ = r
    have hUntouched : Untouched disk r := by
      rw [← hRun]
      apply Untouched.record
      · exact ⟨rfl, hOpened _⟩
      · exact List.forall_mem_singleton.mpr (.request (.report (.note rfl) rfl))
    subst hRun
    exact f.prepare_begun rfl rfl rfl rfl rfl hUntouched

end Feed

/-! ## Sessions -/

/-- A run with all that it was started with, followed for so many iterations. -/
structure Session where
  sinkType : Type
  feed : Feed sinkType
  source : Source
  sinkState : sinkType
  disk : Disk
  iterations : Nat

namespace Session

def beginning (s : Session) : Run s.sinkType :=
  s.feed.begin s.source s.sinkState s.disk

def run (s : Session) : Run s.sinkType :=
  s.feed.after s.iterations s.beginning

/-- The run on its way, after so many iterations. -/
def after (s : Session) (n : Nat) : Run s.sinkType :=
  s.feed.after n s.beginning

def entries (s : Session) : List Entry := s.run.journal.entries

theorem begun (s : Session) : s.feed.Begun s.disk s.beginning :=
  s.feed.begin_begun s.source s.sinkState s.disk

/-- What a run has to prepare from, once the sink opened. -/
def opened (s : Session) : Run s.sinkType where
  graph := .empty
  cursor := .start
  next := 0
  pending := none
  source := s.source
  sinkState := (s.feed.sink.opening s.sinkState).2
  disk := s.disk
  journal := Journal.empty.record [.opened .accepted,
    .note (.starting s.feed.config.start s.feed.config.finalized s.feed.config.resolvedStart)]
  ending := none

theorem beginning_of_accepted {s : Session} (h : (s.feed.sink.opening s.sinkState).1 = .accepted) :
    s.beginning = s.feed.prepare s.opened := by
  rw [beginning, Feed.begin]
  simp only [h]
  rfl

/-- The block that a cold start fetched as its LIB. -/
def firstBlock? (s : Session) : Option Block := s.beginning.pending

/-- The session starts cold, and fetches `b` as its LIB. -/
structure StartsWith (s : Session) (b : Block) : Prop where
  cold : s.feed.ColdStarts s.disk
  lib : s.beginning.graph.lib = some b.ref
  answers : s.beginning.journal.answers = [(s.feed.config.resolvedStart, b)]

theorem startsWith_of_firstBlock? {s : Session} {b : Block} (h : s.firstBlock? = some b) : s.StartsWith b := by
  change s.beginning.pending = some b at h
  cases s.begun with
  | ended _ _ _ hPending | resumed _ _ _ _ hPending =>
    rw [hPending] at h
    cases h
  | cold hCold hGraph _ _ hPending _ hAnswers =>
    cases hPending.symm.trans h
    exact ⟨hCold, by rw [hGraph]; rfl, hAnswers⟩

end Session

end ChainFeed
