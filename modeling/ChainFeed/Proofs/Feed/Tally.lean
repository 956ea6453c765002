import ChainFeed.Proofs.Checkpoint.RoundTrip
import ChainFeed.Proofs.Checkpoint.Save
import ChainFeed.Proofs.Feed.ForkFree
import ChainFeed.Proofs.Feed.Sourced

/-! # Following a fork-free chain

An iteration either completes, with the next block handed over, the LIB settled and a checkpoint in place, or it
ends the run and leaves everything as it was. A run that starts later goes on from the checkpoint.
-/

set_option autoImplicit false

namespace ChainFeed

open ForkGraph

variable {τ : Type} {B : BlockNum → Block} {dir : Path} {n : BlockNum} {accepted : List Block}
  {checkpoints : List Checkpoint}

/-- What has come of all runs once the blocks below `n` were processed: the blocks accepted, the checkpoints, and
the file with the last of them. -/
structure Tally (c : Config) (B : BlockNum → Block) (dir : Path) (n : BlockNum) (accepted : List Block)
    (checkpoints : List Checkpoint) (disk : Disk) : Prop where
  start : c.resolvedStart ≤ n
  accepted : accepted = (BlockNum.span c.start n).map B
  checkpoints : checkpoints = (BlockNum.span c.resolvedStart n).map fun m => c.checkpointBelow B (m + 1)
  cold : n = c.resolvedStart → ∀ k, Checkpoint.load disk dir ≠ .ok k
  file : n ≠ c.resolvedStart → disk.read (Checkpoint.path dir) = .ok (c.checkpointBelow B n).bytes

theorem tally_start {c : Config} {disk : Disk} (hCold : ∀ k, Checkpoint.load disk dir ≠ .ok k) :
    Tally c B dir c.resolvedStart [] [] disk where
  start := UInt64.le_refl _
  accepted := by
    have hStart : c.resolvedStart ≤ c.start := Std.min_le_left
    rw [BlockNum.span_eq_nil hStart]
    rfl
  checkpoints := by
    rw [BlockNum.span_eq_nil (UInt64.le_refl _)]
    rfl
  cold _ := hCold
  file hLater := absurd rfl hLater

theorem Tally.next {c : Config} {disk disk' : Disk} (h : Tally c B dir n accepted checkpoints disk)
    (hLow : n ≠ BlockNum.highest)
    (hFile : disk'.read (Checkpoint.path dir) = .ok (c.checkpointBelow B (n + 1)).bytes) :
    Tally c B dir (n + 1) (accepted ++ if c.start ≤ n then [B n] else [])
      (checkpoints ++ [c.checkpointBelow B (n + 1)]) disk' where
  start := BlockNum.le_succ_of_le h.start hLow
  accepted := by rw [h.accepted, BlockNum.map_span_succ _ hLow]
  checkpoints := by
    rw [h.checkpoints, BlockNum.span_succ h.start hLow, List.map_append]
    rfl
  cold hFirst := by
    have hAbove := UInt64.lt_of_le_of_lt h.start (BlockNum.lt_succ hLow)
    rw [hFirst] at hAbove
    exact absurd hAbove (UInt64.lt_irrefl _)
  file _ := hFile

theorem Tally.load_ne_ok {c : Config} {disk : Disk} (h : Tally c B dir n accepted [] disk) (k : Checkpoint) :
    Checkpoint.load disk dir ≠ .ok k := by
  refine h.cold ?_ k
  have hStart := h.start
  have hLength := congrArg List.length h.checkpoints
  rw [List.length_nil, List.length_map, BlockNum.length_span] at hLength
  rw [UInt64.le_iff_toNat_le] at hStart
  rw [← UInt64.toNat_inj]
  omega

theorem Tally.read_eq {c : Config} {disk : Disk} (h : Tally c B dir n accepted checkpoints disk)
    {k : Checkpoint} (hLast : checkpoints.getLast? = some k) :
    disk.read (Checkpoint.path dir) = .ok k.bytes := by
  have hLater : n ≠ c.resolvedStart := by
    rintro rfl
    rw [h.checkpoints, BlockNum.span_eq_nil (UInt64.le_refl _)] at hLast
    cases hLast
  have hAbove := UInt64.lt_of_le_of_ne h.start hLater.symm
  rw [h.checkpoints, List.getLast?_map, BlockNum.getLast?_span hAbove, Option.map_some, Option.some.injEq,
    BlockNum.back_one_add_one hAbove] at hLast
  rw [← hLast]
  exact h.file hLater

namespace Feed

variable {f : Feed τ} {r r' s : Run τ}

/-- The run stands where all blocks below `n` were processed, by it or by runs before it. -/
structure Abreast (f : Feed τ) (B : BlockNum → Block) (dir : Path) (accepted : List Block)
    (checkpoints : List Checkpoint) (n : BlockNum) (r : Run τ) : Prop where
  tally : Tally f.config B dir n (accepted ++ r.journal.accepted) (checkpoints ++ r.journal.checkpoints) r.disk
  covers : r.graph.Covers B f.config n
  going : r.ending = none → r.next = n ∧ r.cursor.awaited = none ∧ ∀ x ∈ r.graph.nodes, x.num < n
  lawful : ∀ error, r.ending ≠ some (.failed (.invariant error))

namespace Abreast

theorem of_sameBut (h : f.Abreast B dir accepted checkpoints n r) (hSame : r.SameBut s)
    (hEnding : s.ending = r.ending) : f.Abreast B dir accepted checkpoints n s where
  tally := by
    have hAccepted : s.journal.accepted = r.journal.accepted := hSame.accepted
    rw [hAccepted, Journal.checkpoints_eq_pick, hSame.checkpoints, hSame.disk]
    exact h.tally
  covers := hSame.graph ▸ h.covers
  going := by
    rw [hEnding, hSame.next, hSame.cursor, hSame.graph]
    exact h.going
  lawful := hEnding ▸ h.lawful

/-- The run has ended without completing its last iteration. -/
theorem ended {e : Ending} (h : f.Abreast B dir accepted checkpoints n r) (hEnd : r'.ending = some e)
    (hCause : ∀ error, e ≠ .failed (.invariant error)) (hCovers : r'.graph.Covers B f.config n)
    (hAccepted : r'.journal.pick Entry.accepted? = r.journal.pick Entry.accepted?)
    (hCheckpoints : r'.journal.pick Entry.checkpoint? = r.journal.pick Entry.checkpoint?)
    (hDisk : r'.disk = r.disk) :
    f.Abreast B dir accepted checkpoints n r' ∧ r'.ending ≠ none := by
  refine ⟨⟨?_, hCovers, fun hRunning => ?_, fun error hError => ?_⟩, by simp [hEnd]⟩
  · have hSame : r'.journal.accepted = r.journal.accepted := hAccepted
    rw [hSame, Journal.checkpoints_eq_pick, hCheckpoints, hDisk]
    exact h.tally
  · rw [hRunning] at hEnd
    cases hEnd
  · rw [hError] at hEnd
    exact hCause error (Option.some.inj hEnd).symm

theorem head_link (h : f.Abreast B dir accepted checkpoints n s) (hRunning : s.ending = none) (b : Block) :
    (s.link b).cursor.head = some b.ref := by
  obtain ⟨-, hAwaited, -⟩ := h.going hRunning
  rw [Run.link_cursor_head, Cursor.fillsGap, hAwaited]
  rfl

/-- A firing that halts leaves everything as it was. -/
theorem halted {target : BlockRef} {e : Ending} {older : List Node} {b : Block}
    (h : f.Abreast B dir accepted checkpoints n s)
    (hCovers : (s.link b).graph.Covers B f.config n)
    (hNodes : ((s.link b).graph.segmentTo target).nodes = older ++ [.fresh b])
    (hOlder : ∀ x ∈ older, x.fired = true)
    (hHalt : (fire f.sink f.config.start ((s.link b).graph.segmentTo target).nodes
      (s.link b).graph s.sinkState).ending = some e) :
    let r' := (f.handOver ((s.link b).graph.segmentTo target).nodes (s.check b target)).close e
    f.Abreast B dir accepted checkpoints n r' ∧ r'.ending ≠ none := by
  obtain ⟨passed, left, last, hPasses⟩ := fire_passes f.sink f.config.start
    ((s.link b).graph.segmentTo target).nodes (s.link b).graph s.sinkState
  have hLeft : left ≠ [] := by
    rcases hPasses.ending with ⟨hNone, -, -⟩ | ⟨_, -, hHalt⟩
    · rw [hNone] at hHalt
      cases hHalt
    · cases hHalt <;> exact List.cons_ne_nil _ _
  -- only the last block was not fired before, and that one was not passed
  have hPassed : ∀ x ∈ passed, x.fired = true := by
    intro x hx
    have hSplit := hPasses.split
    rw [hNodes] at hSplit
    obtain ⟨others, final, rfl⟩ := (List.eq_nil_or_concat left).resolve_left hLeft
    rw [List.concat_eq_append, ← List.append_assoc] at hSplit
    obtain ⟨rfl, -⟩ := List.append_inj' hSplit rfl
    exact hOlder x (List.mem_append_left _ hx)
  refine h.ended rfl (fun error hError => ?_) ?_ ?_ ?_ rfl
  · refine fire_ending_ne_invariant f.sink f.config.start (fun x hx hUnfired => ?_) (s.link b).graph
      s.sinkState error (hError ▸ hHalt)
    rw [hNodes, List.mem_append, List.mem_singleton] at hx
    rcases hx with hx | rfl
    · rw [hOlder x hx] at hUnfired
      cases hUnfired
    · rfl
  · have hGraph : (f.handOver ((s.link b).graph.segmentTo target).nodes (s.check b target)).graph =
        (s.link b).graph := by
      have hMarked := hPasses.graph
      rw [newlyFired_of_fired hPassed, markAll_nil] at hMarked
      exact hMarked
    rw [Run.close_graph, hGraph]
    exact hCovers
  · have hNone : (fire f.sink f.config.start ((s.link b).graph.segmentTo target).nodes
        (s.link b).graph s.sinkState).entries.filterMap Entry.accepted? = [] := by
      rw [hPasses.accepted_eq, filterMap_delivered?_of_fired hPassed]
    rw [Run.close_journal, handOver_journal, Journal.pick_record, pick_check Entry.accepted?_ignoresReports]
    exact (congrArg (_ ++ ·) hNone).trans (List.append_nil _)
  · rw [Run.close_journal, pick_handOver Entry.checkpoint?_ignoresReports (fun _ _ => rfl),
      pick_check Entry.checkpoint?_ignoresReports]

end Abreast

/-- Of a path whose last block alone was not fired before, only that block is handed over, unless it lies below
the start. -/
theorem pick_handOver_fresh {p : Entry → Option Block} (hp : Entry.IgnoresReports p)
    (hHanded : ∀ b, p (.handed b .accepted) = some b) {b : Block} {target : BlockRef} {older : List Node}
    (hNodes : ((s.link b).graph.segmentTo target).nodes = older ++ [.fresh b])
    (hOlder : ∀ x ∈ older, x.fired = true)
    (hFired : (fire f.sink f.config.start ((s.link b).graph.segmentTo target).nodes
      (s.link b).graph s.sinkState).ending = none) :
    (f.handOver ((s.link b).graph.segmentTo target).nodes (s.check b target)).journal.pick p =
      s.journal.pick p ++ if f.config.start ≤ b.num then [b] else [] := by
  obtain ⟨passed, left, last, hPasses⟩ := fire_passes f.sink f.config.start
    ((s.link b).graph.segmentTo target).nodes (s.link b).graph s.sinkState
  obtain ⟨rfl, -, rfl⟩ := hPasses.of_ending_none hFired
  have hEntries := hPasses.entries
  rw [List.append_nil] at hEntries
  have hPicked : (f.handOver ((s.link b).graph.segmentTo target).nodes (s.check b target)).journal.pick p =
      s.journal.pick p ++ ((s.link b).graph.segmentTo target).nodes.filterMap (Node.delivered? f.config.start) := by
    rw [handOver_journal, Journal.pick_record, pick_check hp]
    refine congrArg (s.journal.pick p ++ ·) ?_
    exact (congrArg (List.filterMap p) hEntries).trans (filterMap_deliveries hHanded hp.event _ _)
  rw [hPicked, hNodes, List.filterMap_append, filterMap_delivered?_of_fired hOlder, List.nil_append,
    List.filterMap_cons, List.filterMap_nil, Node.delivered?, Node.fresh_fired, Node.fresh_num,
    Node.fresh_content]
  by_cases hGate : f.config.start ≤ b.num
  · rw [if_pos hGate, if_neg (by simpa using hGate)]
  · rw [if_neg hGate, if_pos (by simpa using hGate)]

/-- Once the next block was fired and the LIB settled, one block more is processed. -/
theorem covers_purge {s' : Run τ} {older : List Node} {graph : ForkGraph} {move : LibMove}
    (hCovers : s.graph.Covers B f.config n) (hChain : ForkFree B) (hStart : f.config.resolvedStart ≤ n)
    (hBelow : ∀ x ∈ s.graph.nodes, x.num < n) (hLow : n ≠ BlockNum.highest)
    (hNodes : ((s.link (B n)).graph.segmentTo (B n).ref).nodes = older ++ [.fresh (B n)])
    (hFired : (fire f.sink f.config.start ((s.link (B n)).graph.segmentTo (B n).ref).nodes
      (s.link (B n)).graph s.sinkState).ending = none)
    (hOver : f.handOver ((s.link (B n)).graph.segmentTo (B n).ref).nodes (s.check (B n) (B n).ref) = s')
    (hMove : s'.graph.advanceLib (B n).ref (f.config.libAfter (B n) s'.graph.libNum) = .ok (graph, move)) :
    graph.purge.Covers B f.config (n + 1) ∧ ∀ x ∈ graph.purge.nodes, x.num < n + 1 := by
  have hLinked : (s.link (B n)).graph.Covers B f.config n := hCovers.link hChain hStart
  have hGraph := handOver_graph_of_fired hFired hOver
  have hLib : s'.graph.lib = some (B (f.config.libBelow B n)).ref := by rw [hGraph, markAll_lib, hLinked.lib]
  have hLibNum : s'.graph.libNum = f.config.libBelow B n := by
    rw [hGraph, markAll_libNum, hLinked.libNum_eq hChain]
  have hAdvance := advance_of_advanceLib hLib hMove
  rw [hLibNum, hGraph] at hAdvance
  have hNew : (B n).id ∈ newlyFired ((s.link (B n)).graph.segmentTo (B n).ref).nodes :=
    mem_newlyFired.mpr ⟨.fresh (B n), by rw [hNodes]; simp, rfl, rfl⟩
  exact hCovers.settled hChain hStart hBelow hLow hNew hAdvance

theorem Saved.stores {q t : Run τ} (h : f.Saved (B n).link q t) (hDir : f.config.stateDir = some dir)
    (hChain : ForkFree B) (hLow : n ≠ BlockNum.highest) (hCovers : q.graph.Covers B f.config (n + 1)) :
    t.journal.checkpoints = q.journal.checkpoints ++ [f.config.checkpointBelow B (n + 1)] ∧
      t.disk.read (Checkpoint.path dir) = .ok (f.config.checkpointBelow B (n + 1)).bytes := by
  cases h with
  | off hNoDir =>
    rw [hDir] at hNoDir
    cases hNoDir
  | on hDir' hSnapshot hSave =>
    cases hDir.symm.trans hDir'
    have hSpec := hCovers.snapshot_eq hChain
    rw [BlockNum.back_one_succ hLow] at hSpec
    cases hSnapshot.symm.trans hSpec
    exact ⟨Journal.pick_record _ _ _, Checkpoint.read_of_save_ok hSave⟩

/-- When the next block was fired and the LIB settled, saving the checkpoint completes the iteration. -/
theorem Abreast.connected {s' t : Run τ} {older : List Node} {last : Node} {graph : ForkGraph} {move : LibMove}
    (h : f.Abreast B dir accepted checkpoints n s) (hChain : ForkFree B) (hDir : f.config.stateDir = some dir)
    (hLow : n ≠ BlockNum.highest) (hRunning : s.ending = none)
    (hNodes : ((s.link (B n)).graph.segmentTo (B n).ref).nodes = older ++ [.fresh (B n)])
    (hOlder : ∀ x ∈ older, x.fired = true)
    (hLast : ((s.link (B n)).graph.segmentTo (B n).ref).nodes.getLast? = some last)
    (hFired : (fire f.sink f.config.start ((s.link (B n)).graph.segmentTo (B n).ref).nodes
      (s.link (B n)).graph s.sinkState).ending = none)
    (hOver : f.handOver ((s.link (B n)).graph.segmentTo (B n).ref).nodes (s.check (B n) (B n).ref) = s')
    (hMove : s'.graph.advanceLib (B n).ref (f.config.libAfter (B n) s'.graph.libNum) = .ok (graph, move))
    (hSaved : f.Saved last.toLink
      (advance (B n) (f.config.libAfter (B n) s'.graph.libNum) graph move s') t) :
    f.Abreast B dir accepted checkpoints (n + 1) (f.goOn last.toLink t) := by
  obtain ⟨-, -, hBelow⟩ := h.going hRunning
  have hStart := h.tally.start
  cases (List.getLast?_concat.symm.trans (hNodes ▸ hLast) : some (Node.fresh (B n)) = some last)
  obtain ⟨hCovers, hAll⟩ := covers_purge h.covers hChain hStart hBelow hLow hNodes hFired hOver hMove
  obtain ⟨hStored, hFile⟩ := hSaved.stores hDir hChain hLow hCovers
  have hLike := f.goOn_resembles (B n).link t
  obtain ⟨hAfter, hCursor, hStill⟩ := hSaved.goOn_eq hOver
  have hAccepted : (f.goOn (B n).link t).journal.accepted =
      s.journal.accepted ++ if f.config.start ≤ n then [B n] else [] := by
    refine (hLike.pick_eq Entry.accepted?_ignoresReports).trans ?_
    rw [hSaved.pick_eq Entry.accepted?_ignoresReports fun _ => rfl,
      pick_advance Entry.accepted?_ignoresReports fun _ _ => rfl, ← hOver,
      pick_handOver_fresh Entry.accepted?_ignoresReports (fun _ => rfl) hNodes hOlder hFired,
      hChain.num]
    rfl
  have hCheckpoints : (f.goOn (B n).link t).journal.checkpoints =
      s.journal.checkpoints ++ [f.config.checkpointBelow B (n + 1)] := by
    have hp := Entry.checkpoint?_ignoresReports
    refine (hLike.pick_eq hp).trans (hStored.trans (congrArg (· ++ _) ?_))
    refine (pick_advance hp (fun _ _ => rfl) graph s').trans ?_
    rw [← hOver, pick_handOver hp (fun _ _ => rfl), pick_check hp]
    rfl
  refine ⟨?_, hAfter ▸ hCovers, fun hGoes => ?_, fun error hError => ?_⟩
  · change Tally f.config B dir (n + 1) (accepted ++ (f.goOn (B n).link t).journal.accepted)
      (checkpoints ++ (f.goOn (B n).link t).journal.checkpoints) (f.goOn (B n).link t).disk
    rw [hAccepted, hCheckpoints, ← List.append_assoc, ← List.append_assoc]
    exact h.tally.next hLow (hLike.disk ▸ hFile)
  · obtain ⟨-, hNext⟩ := f.next_goOn_of_running hGoes
    exact ⟨hNext.trans (congrArg (· + 1) (hChain.num n)), congrArg Cursor.awaited hCursor, hAfter ▸ hAll⟩
  · have hNum : (B n).link.num ≠ BlockNum.highest := fun hHighest => hLow ((hChain.num n).symm.trans hHighest)
    rcases f.ending_goOn hNum (hStill.trans hRunning) with hEnd | hEnd <;>
      exact absurd (hEnd.symm.trans hError) (by simp)

theorem Processed.abreast (hProcessed : f.Processed (B n) s r')
    (h : f.Abreast B dir accepted checkpoints n s) (hChain : ForkFree B) (hDir : f.config.stateDir = some dir)
    (hLow : n ≠ BlockNum.highest) (hRunning : s.ending = none)
    (hSaved : ∀ e, r'.ending ≠ some (.failed (.checkpoint e))) :
    f.Abreast B dir accepted checkpoints n r' ∧ r'.ending ≠ none ∨
      f.Abreast B dir accepted checkpoints (n + 1) r' := by
  have hStart := h.tally.start
  have hHead := h.head_link hRunning (B n)
  obtain ⟨-, -, hBelow⟩ := h.going hRunning
  obtain ⟨hReach, older, hNodes, hOlder⟩ := h.covers.exists_path hChain hStart hBelow
  have hLinked : (s.link (B n)).graph.Covers B f.config n := h.covers.link hChain hStart
  cases hProcessed with
  | headless hNone =>
    rw [hHead] at hNone
    cases hNone
  | absent hHead' hPath =>
    cases hHead.symm.trans hHead'
    rw [Run.link_graph, hNodes] at hPath
    simp at hPath
  | gap hHead' hGap =>
    cases hHead.symm.trans hHead'
    rw [Run.link_graph, hReach] at hGap
    cases hGap
  | halted hHead' _ hHalt =>
    cases hHead.symm.trans hHead'
    exact .inl (h.halted hLinked hNodes hOlder hHalt)
  | refused hHead' _ hFired hOver hError =>
    cases hHead.symm.trans hHead'
    have hGraph := handOver_graph_of_fired hFired hOver
    refine absurd hError (hLinked.not_libBackward hChain ?_ ?_)
    · rw [hGraph, markAll_lib]
    · rw [hGraph, markAll_libReported]
  | unsaved _ _ _ _ _ _ hUnsaved => cases hUnsaved <;> exact absurd rfl (hSaved _)
  | connected hHead' _ hLast hFired hOver hMove hSaved' =>
    cases hHead.symm.trans hHead'
    exact .inr (h.connected hChain hDir hLow hRunning hNodes hOlder hLast hFired hOver hMove hSaved')

/-- An iteration ends the run and leaves everything as it was, or it completes. -/
theorem Stepped.abreast (hStep : f.Stepped r r') (h : f.Abreast B dir accepted checkpoints n r)
    (hBacked : f.Backed r) (hChain : ForkFree B) (hDir : f.config.stateDir = some dir)
    (hAnswered : ∀ a ∈ r'.journal.answers, a.2 = B a.1 ∧ a.1 ≠ BlockNum.highest)
    (hSaved : ∀ e, r'.ending ≠ some (.failed (.checkpoint e))) :
    f.Abreast B dir accepted checkpoints n r' ∧ r'.ending ≠ none ∨
      n ≠ BlockNum.highest ∧ f.Abreast B dir accepted checkpoints (n + 1) r' := by
  cases hStep with
  | ended hEnded => exact .inl ⟨h, fun hNone => by simp [hNone] at hEnded⟩
  | stopped =>
    have hLike := stop_resembles r
    exact .inl (h.ended rfl (by simp) h.covers (hLike.pick_eq Entry.accepted?_ignoresReports)
      (hLike.pick_eq Entry.checkpoint?_ignoresReports) rfl)
  | below hRunning hBelow =>
    rw [(h.going hRunning).1, h.covers.libNum_eq hChain] at hBelow
    exact absurd hBelow (UInt64.not_lt.mpr (hChain.libBelow_le h.tally.start))
  | starved _ _ hFetch =>
    obtain ⟨hSame, -, -, -⟩ := f.fetch_eq_none hFetch
    obtain ⟨e, hEnd, hCause⟩ := f.ending_of_fetch_none hFetch
    exact .inl (h.ended hEnd hCause.ne_invariant (hSame.graph ▸ h.covers) hSame.accepted hSame.checkpoints hSame.disk)
  | @processed b s _ hRunning _ hTakes hProcessed =>
    have hSame : r'.journal.answers = s.journal.answers := hProcessed.answers_eq
    obtain ⟨hBlock, hLow⟩ := hAnswered _ (hSame ▸ hBacked.answered hTakes)
    rw [(h.going hRunning).1] at hBlock hLow
    simp only at hBlock
    subst hBlock
    have hEnding := hTakes.ending_eq
    exact (hProcessed.abreast (h.of_sameBut hTakes.sameBut hEnding) hChain hDir hLow
      (hEnding.trans hRunning) hSaved).imp_right fun hNext => ⟨hLow, hNext⟩

theorem Begun.tally {disk : Disk} (hBegun : f.Begun disk r)
    (hTally : Tally f.config B dir n accepted checkpoints disk) :
    Tally f.config B dir n (accepted ++ r.journal.accepted) (checkpoints ++ r.journal.checkpoints) r.disk := by
  have hUntouched := hBegun.untouched
  have hNone : r.journal.accepted = [] := hUntouched.accepted
  rw [hNone, Journal.checkpoints_eq_pick, hUntouched.checkpoints, List.append_nil, List.append_nil,
    hUntouched.disk]
  exact hTally

/-- A run takes up where the file was left. -/
theorem Begun.abreast {disk : Disk} (hBegun : f.Begun disk r)
    (hTally : Tally f.config B dir n accepted checkpoints disk) (hChain : ForkFree B)
    (hDir : f.config.stateDir = some dir) (hAnswered : ∀ a ∈ r.journal.answers, a.2 = B a.1)
    (hRunning : r.ending = none) : f.Abreast B dir accepted checkpoints n r := by
  have hStill := hBegun.tally hTally
  have hLawful := hBegun.lawful
  cases hBegun with
  | ended hEnding =>
    rw [hRunning] at hEnding
    cases hEnding
  | @cold b hCold hGraph hCursor hNext _ _ hAnswers =>
    have hFirst : n = f.config.resolvedStart := by
      by_contra hLater
      exact hCold dir _ hDir (Checkpoint.load_of_read (hTally.file hLater))
    have hBlock : b = B f.config.resolvedStart := by
      refine hAnswered (f.config.resolvedStart, b) ?_
      rw [Journal.answers_eq_pick, hAnswers]
      exact List.mem_singleton_self _
    subst hFirst hBlock
    refine ⟨hStill, hGraph ▸ .startingAt hChain, fun _ => ⟨hNext, ?_, ?_⟩, hLawful⟩
    · rw [hCursor]
      rfl
    · rw [hGraph]
      exact fun x hx => absurd hx List.not_mem_nil
  | @resumed dir' k hDir' hLoad hGraph hCursor _ hNext =>
    cases hDir.symm.trans hDir'
    have hLater : n ≠ f.config.resolvedStart := fun hFirst => hTally.cold hFirst k hLoad
    cases hLoad.symm.trans (Checkpoint.load_of_read (hTally.file hLater))
    refine ⟨hStill, hGraph ▸ .restore hChain, fun _ => ⟨?_, ?_, ?_⟩, hLawful⟩
    · rcases hNext with ⟨-, hEnd⟩ | ⟨-, -, hNext⟩
      · rw [hRunning] at hEnd
        cases hEnd
      · have hLast : (f.config.checkpointBelow B n).lastFired.num = n.back 1 := hChain.num _
        rw [hNext, hLast]
        exact BlockNum.back_one_add_one (UInt64.lt_of_le_of_ne hTally.start hLater.symm)
    · rw [hCursor]
      rfl
    · intro x hx
      rw [hGraph] at hx
      obtain ⟨_, -, rfl⟩ := Checkpoint.exists_of_mem_restore hx
      exact ((ForkGraph.Covers.restore hChain).fired _ hx).mp rfl

end Feed

end ChainFeed
