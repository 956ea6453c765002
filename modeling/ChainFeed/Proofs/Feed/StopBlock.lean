import ChainFeed.Proofs.Feed.Sessions
import ChainFeed.Proofs.Feed.Sourced

/-! # The stop block as a bound

Whether the stop block is final is asked after an iteration that connected a path, and not before the first.
So a session that starts after the stop block was fired still takes up the block that comes next. A session
that starts before hands over nothing above the stop block.
-/

set_option autoImplicit false

namespace ChainFeed

open ForkGraph

variable {τ : Type}

/-- Blocks are numbered as asked for, and declare parents with lower numbers. -/
structure Falling (answers : List (BlockNum × Block)) : Prop where
  asked : ∀ a ∈ answers, a.2.num = a.1
  parent : ∀ a ∈ answers, a.2.parentNum < a.2.num ∨ a.2.num = 0 ∧ a.2.parentNum = 0

instance (answers : List (BlockNum × Block)) : Decidable (Falling answers) :=
  decidable_of_iff
    ((∀ a ∈ answers, a.2.num = a.1) ∧
      ∀ a ∈ answers, a.2.parentNum < a.2.num ∨ a.2.num = 0 ∧ a.2.parentNum = 0)
    ⟨fun h => ⟨h.1, h.2⟩, fun h => ⟨h.asked, h.parent⟩⟩

theorem Falling.of_subset {answers more : List (BlockNum × Block)} (h : Falling more)
    (hSub : answers ⊆ more) : Falling answers where
  asked a ha := h.asked a (hSub ha)
  parent a ha := h.parent a (hSub ha)

theorem Falling.parentNum_le {answers : List (BlockNum × Block)} (h : Falling answers)
    {a : BlockNum × Block} (ha : a ∈ answers) : a.2.parentNum ≤ a.2.num := by
  rcases h.parent a ha with hLow | ⟨hNum, hParent⟩
  · exact UInt64.le_of_lt hLow
  · rw [hNum, hParent]
    exact UInt64.le_refl 0

/-- Neither the node nor its content is numbered above the bound, and the parent no higher. -/
structure Node.Within (bound : BlockNum) (n : Node) : Prop where
  num : n.num ≤ bound
  parent : n.parent.num ≤ n.num
  content : ∀ b, n.content = some b → b.num ≤ bound

theorem Node.Within.of_eq {bound : BlockNum} {m n : Node} (h : m.Within bound) (hLink : n.toLink = m.toLink)
    (hContent : n.content = m.content) : n.Within bound where
  num := by
    rw [Node.num, hLink]
    exact h.num
  parent := by
    rw [Node.num, hLink]
    exact h.parent
  content := hContent ▸ h.content

/-- Nothing that the run has stored, handed over or saved is numbered above the bound, nor is what it asks for
next. -/
structure Run.Within (bound : BlockNum) (r : Run τ) : Prop where
  nodes : ∀ n ∈ r.graph.nodes, n.Within bound
  next : r.ending = none → r.next ≤ bound
  handed : ∀ b ∈ r.journal.handed, b.num ≤ bound
  checkpoints : ∀ c ∈ r.journal.checkpoints, ∀ s ∈ c.blocks, s.num ≤ bound

namespace Feed

variable {f : Feed τ} {bound stop : BlockNum}

/-- A run that goes on has not passed the stop block. -/
theorem next_le_of_goOn {last : Link} {r : Run τ} (hStop : f.config.stopBlock = some stop)
    (hRunning : (f.goOn last r).ending = none) : (f.goOn last r).next ≤ stop := by
  obtain ⟨hLow, hSame⟩ := f.goOn_of_running hRunning
  rw [hSame]
  rw [goOn, BlockNum.next?, if_neg hLow, hStop] at hRunning
  simp only at hRunning
  by_cases hPassed : stop < last.num + 1
  · rw [if_pos hPassed] at hRunning
    cases hRunning
  · exact UInt64.not_lt.mp hPassed

theorem Processed.nodes_within {b : Block} {r r' : Run τ} (h : f.Processed b r r')
    (hLinked : ∀ n ∈ (r.link b).graph.nodes, n.Within bound) : ∀ n ∈ r'.graph.nodes, n.Within bound := by
  have hMarked : ∀ ids, ∀ n ∈ ((r.link b).graph.markAll ids).nodes, n.Within bound := by
    intro ids n hn
    obtain ⟨m, hm, rfl⟩ := mem_markAll.mp hn
    exact (hLinked m hm).of_eq (m.markedIn_toLink ids) (m.markedIn_content ids)
  rcases h.graph_cases with ⟨ids, hGraph⟩ | ⟨ids, lib, graph, move, -, hAdvance, hGraph⟩
  · rw [hGraph]
    exact hMarked ids
  · rw [hGraph]
    intro n hn
    rw [mem_purge, hAdvance.nodes_eq] at hn
    exact hMarked ids n hn.1

theorem Processed.next_le {b : Block} {r r' : Run τ} (h : f.Processed b r r')
    (hStop : f.config.stopBlock = some stop) (hBound : stop ≤ bound)
    (hLinked : ∀ n ∈ (r.link b).graph.nodes, n.Within bound) (hRunning : r'.ending = none) :
    r'.next ≤ bound := by
  cases h with
  | headless | absent | halted | refused => cases hRunning
  | unsaved _ _ _ _ _ _ hUnsaved => exact absurd hRunning hUnsaved.ending_ne_none
  | gap _ _ hFirst =>
    have hWithin := hLinked _ (mem_of_mem_segmentTo (List.mem_of_head? hFirst))
    rw [f.wait_of_running hRunning]
    exact UInt64.le_trans hWithin.parent hWithin.num
  | connected => exact UInt64.le_trans (next_le_of_goOn hStop hRunning) hBound

theorem Processed.within {b : Block} {asked : BlockNum} {r s r' : Run τ} (h : f.Processed b s r')
    (hTakes : f.Takes r b s) (hWithin : r.Within bound) (hStop : f.config.stopBlock = some stop)
    (hBound : stop ≤ bound) (hb : (asked, b) ∈ r'.journal.answers) (hAsked : asked ≤ bound)
    (hFalling : Falling r'.journal.answers) : r'.Within bound := by
  have hSame := hTakes.sameBut
  have hNum : b.num ≤ bound := by
    rw [hFalling.asked _ hb]
    exact hAsked
  have hLinked : ∀ n ∈ (s.link b).graph.nodes, n.Within bound := by
    intro n hn
    rw [Run.link_graph, hSame.graph] at hn
    rcases mem_link.mp hn with hn | ⟨rfl, -⟩
    · exact hWithin.nodes n hn
    · refine ⟨hNum, hFalling.parentNum_le hb, fun b' hb' => ?_⟩
      cases hb'
      exact hNum
  have hNodes := h.nodes_within hLinked
  refine ⟨hNodes, h.next_le hStop hBound hLinked, fun b' hb' => ?_, h.forall_checkpoints hTakes hWithin.checkpoints ?_⟩
  · rcases h.handed_cases hb' with hOld | ⟨n, hn, hContent⟩
    · rw [Journal.handed_eq_pick, hSame.handed] at hOld
      exact hWithin.handed b' hOld
    · exact (hLinked n hn).content b' hContent
  · intro c target last graph _ hGraph hSnapshot
    obtain ⟨-, -, -, -, hBlocks⟩ := Checkpoint.snapshot_eq_ok_iff.mp hSnapshot
    rw [hBlocks, ← hGraph]
    intro k hk
    obtain ⟨n, hn, rfl⟩ := List.mem_map.mp hk
    exact (hNodes n (List.mem_filter.mp hn).1).num

theorem Stepped.within {r r' : Run τ} (h : f.Stepped r r') (hBacked : f.Backed r)
    (hWithin : r.Within bound) (hStop : f.config.stopBlock = some stop) (hBound : stop ≤ bound)
    (hFalling : Falling r'.journal.answers) : r'.Within bound := by
  rcases h.idle_or_processed with ⟨hEnded, hIdle, -⟩ | ⟨hRunning, -, b, s, hTakes, hProcessed⟩
  · refine ⟨hIdle.graph ▸ hWithin.nodes, fun hRunning => absurd hRunning hEnded, ?_, ?_⟩
    · rw [Journal.handed_eq_pick, hIdle.handed]
      exact hWithin.handed
    · rw [Journal.checkpoints_eq_pick, hIdle.checkpoints]
      exact hWithin.checkpoints
  · have hSame : r'.journal.answers = s.journal.answers := hProcessed.answers_eq
    exact hProcessed.within hTakes hWithin hStop hBound (hSame ▸ hBacked.answered hTakes)
      (hWithin.next hRunning) hFalling

/-- A run begins within the bound if its start block does, and if it resumes before the bound. -/
theorem Begun.within {disk : Disk} {r : Run τ} (h : f.Begun disk r) (hStart : f.config.start ≤ bound)
    (hLoad : ∀ dir c, f.config.stateDir = some dir → Checkpoint.load disk dir = .ok c →
      c.lastFired.num < bound ∧ ∀ s ∈ c.blocks, s.num ≤ bound) : r.Within bound := by
  have hUntouched := h.untouched
  have hWithin : (∀ n ∈ r.graph.nodes, n.Within bound) → (r.ending = none → r.next ≤ bound) →
      r.Within bound := by
    intro hNodes hNext
    refine ⟨hNodes, hNext, ?_, ?_⟩
    · rw [Journal.handed_eq_pick, hUntouched.handed]
      exact fun b hb => absurd hb List.not_mem_nil
    · rw [Journal.checkpoints_eq_pick, hUntouched.checkpoints]
      exact fun c hc => absurd hc List.not_mem_nil
  cases h with
  | ended hEnding _ hGraph =>
    refine hWithin (fun n hn => ?_) fun hRunning => ?_
    · rw [hGraph] at hn
      cases hn
    · rw [hRunning] at hEnding
      cases hEnding
  | cold _ hGraph _ hNext =>
    refine hWithin (fun n hn => ?_) fun _ => ?_
    · rw [hGraph] at hn
      cases hn
    · rw [hNext]
      exact UInt64.le_trans Std.min_le_left hStart
  | resumed hDir hLoaded hGraph _ _ hNext =>
    obtain ⟨hLast, hBlocks⟩ := hLoad _ _ hDir hLoaded
    refine hWithin (fun n hn => ?_) fun hRunning => ?_
    · rw [hGraph] at hn
      obtain ⟨s, hs, rfl⟩ := Checkpoint.exists_of_mem_restore hn
      exact ⟨hBlocks s hs, BlockNum.back_le s.num 1, fun b hb => by cases hb⟩
    · rcases hNext with ⟨-, hEnd⟩ | ⟨-, -, hNext⟩
      · rw [hRunning] at hEnd
        cases hEnd
      · rw [hNext]
        exact BlockNum.succ_le_of_lt hLast

end Feed

/-! ## Sessions -/

namespace Session

theorem within_run {s : Session} {bound stop : BlockNum} (hStart : s.beginning.Within bound)
    (hStop : s.feed.config.stopBlock = some stop) (hBound : stop ≤ bound)
    (hFalling : Falling s.run.journal.answers) : s.run.Within bound := by
  have hAll : ∀ n, n ≤ s.iterations → (s.after n).Within bound := by
    intro n
    induction n with
    | zero => exact fun _ => hStart
    | succ n ih =>
      intro hn
      exact (s.feed.stepped (s.after n)).within (Feed.backed_after s.begun n) (ih (by omega)) hStop hBound
        (hFalling.of_subset (Feed.answers_isPrefix_after s.beginning hn).subset)
  exact hAll s.iterations (Nat.le_refl _)

theorem Sequence.within {config : Config} {bound stop : BlockNum} {sessions : List Session}
    (h : Sequence config sessions) (hStop : config.stopBlock = some stop) (hStart : config.start ≤ stop)
    (hBound : stop ≤ bound) (hFalling : ∀ s ∈ sessions, Falling s.run.journal.answers)
    (hBefore : ∀ s ∈ sessions, ∀ dir c, config.stateDir = some dir → Checkpoint.load s.disk dir = .ok c →
      c.lastFired.num < bound) : ∀ s ∈ sessions, s.run.Within bound := by
  induction h with
  | nil => simp
  | @snoc earlier t hEarlier hConfig hDisk ih =>
    have hOld := ih (fun s hs => hFalling s (List.mem_append_left _ hs))
      (fun s hs => hBefore s (List.mem_append_left _ hs))
    intro s hs
    rcases List.mem_append.mp hs with hs | hs
    · exact hOld s hs
    cases List.mem_singleton.mp hs
    subst hConfig
    have hLast : t ∈ earlier ++ [t] := List.mem_append_right _ (List.mem_singleton_self t)
    refine within_run ?_ hStop hBound (hFalling t hLast)
    refine t.begun.within (UInt64.le_trans hStart hBound) fun dir c hDir hLoad => ?_
    refine ⟨hBefore t hLast dir c hDir hLoad, ?_⟩
    rcases hDisk with hCold | ⟨dir', hDir', e, he, d, hd, hRead⟩
    · exact absurd hLoad (hCold dir c hDir)
    · cases hDir.symm.trans hDir'
      cases hLoad.symm.trans (Checkpoint.load_of_read hRead)
      exact (hOld e he).checkpoints c hd

/-- In a sequence of sessions none of which starts after `bound` was fired, nothing above it is handed over, if
the stop block is not above it either. -/
theorem handed_le_of_sequence {config : Config} {bound stop : BlockNum} {sessions : List Session}
    (hSequence : Sequence config sessions) (hStop : config.stopBlock = some stop)
    (hStart : config.start ≤ stop) (hBound : stop ≤ bound)
    (hFalling : ∀ s ∈ sessions, Falling s.run.journal.answers)
    (hBefore : ∀ s ∈ sessions, ∀ dir c, config.stateDir = some dir → Checkpoint.load s.disk dir = .ok c →
      c.lastFired.num < bound) : ∀ s ∈ sessions, ∀ b ∈ s.run.journal.handed, b.num ≤ bound :=
  fun s hs => (hSequence.within hStop hStart hBound hFalling hBefore s hs).handed

/-- A session with the stop block `101`. -/
def stopping (blocks : List Block) (disk : Disk) (iterations : Nat) : Session where
  sinkType := Unit
  feed := .undisturbed { start := 100, stopBlock := some 101, stateDir := some ⟨["state"]⟩ }
  source := .scripted blocks
  sinkState := ()
  disk := disk
  iterations := iterations

theorem stopping_coldStarts (blocks : List Block) (iterations : Nat) :
    (stopping blocks .empty iterations).feed.ColdStarts (stopping blocks .empty iterations).disk := by
  have hNone : (Checkpoint.load .empty ⟨["state"]⟩).toOption.isNone = true := by decide +kernel
  exact Feed.coldStarts_of_isNone _ rfl hNone

/-- The session is cut off before the stop block. -/
def cutOff : Session := stopping [.plain "100a" 100 "99a" 100] .empty 1

def firstFired : Checkpoint where
  lib := ⟨"100a", 100, ""⟩
  lastFired := ⟨"100a", 100, "99a"⟩
  blocks := [⟨"100a", 100, "99a"⟩]

def takenUp : Session :=
  stopping [.plain "101a" 101 "100a" 100, .plain "102a" 102 "101a" 100] cutOff.run.disk 3

theorem takenUp_read : takenUp.disk.read (Checkpoint.path ⟨["state"]⟩) = .ok firstFired.bytes := by
  decide +kernel

theorem handed_le_of_sequence_takenUp :
    takenUp.run.journal.handed.map Block.id = ["101a"] ∧
      ∀ b ∈ takenUp.run.journal.handed, b.num ≤ 101 := by
  have hSequence : Sequence cutOff.feed.config ([cutOff] ++ [takenUp]) :=
    .snoc (.snoc .nil rfl (.inl (stopping_coldStarts _ 1))) rfl
      (.inr ⟨_, rfl, cutOff, List.mem_singleton_self _, firstFired, by decide +kernel, takenUp_read⟩)
  refine ⟨by decide +kernel, handed_le_of_sequence hSequence rfl (by decide) (UInt64.le_refl 101) ?_ ?_ takenUp
    (List.mem_append_right _ (List.mem_singleton_self _))⟩
  · decide +kernel
  · intro s hs dir c hDir hLoad
    rcases List.mem_append.mp hs with hs | hs
    · cases List.mem_singleton.mp hs
      exact absurd hLoad (stopping_coldStarts _ 1 dir c hDir)
    · cases List.mem_singleton.mp hs
      cases hDir
      cases hLoad.symm.trans (Checkpoint.load_of_read takenUp_read)
      decide

/-- The session ends with the stop block. -/
def cutShort : Session := stopping [.plain "100a" 100 "99a" 100, .plain "101a" 101 "100a" 100] .empty 2

def stopFired : Checkpoint where
  lib := ⟨"100a", 100, ""⟩
  lastFired := ⟨"101a", 101, "100a"⟩
  blocks := [⟨"100a", 100, "99a"⟩, ⟨"101a", 101, "100a"⟩]

def startedAgain : Session := stopping [.plain "102a" 102 "101a" 100] cutShort.run.disk 1

/-- Starting again after the stop block was fired hands over the block above it. -/
theorem startedAgain_passes_stop :
    Sequence cutShort.feed.config [cutShort, startedAgain] ∧
      cutShort.feed.config.stopBlock = some 101 ∧ cutShort.feed.config.start ≤ 101 ∧
      (∀ s ∈ [cutShort, startedAgain], Falling s.run.journal.answers) ∧
      cutShort.run.ending = some .finished ∧ cutShort.run.journal.handed.map Block.num = [100, 101] ∧
      startedAgain.run.journal.handed.map Block.num = [102] := by
  have hSequence : Sequence cutShort.feed.config ([cutShort] ++ [startedAgain]) :=
    .snoc (.snoc .nil rfl (.inl (stopping_coldStarts _ 2))) rfl
      (.inr ⟨_, rfl, cutShort, List.mem_singleton_self _, stopFired, by decide +kernel, by decide +kernel⟩)
  exact ⟨hSequence, rfl, by decide, by decide +kernel, rfl, by decide +kernel, by decide +kernel⟩

end Session

end ChainFeed
