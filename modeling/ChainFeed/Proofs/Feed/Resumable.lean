import ChainFeed.Proofs.Feed.Descent

/-! # Every checkpoint can be resumed from

A checkpoint is taken after the LIB has moved up the path that was fired, and after the purge. Where numbers
fall from each block to its parent, neither cuts the way from the last block of that path to the LIB. So a
run that resumes from the checkpoint is not below the LIB, and a child of that block connects at once.
-/

set_option autoImplicit false

namespace ChainFeed

open ForkGraph

variable {τ : Type}

section

variable {answers : List (BlockNum × Block)}

/-- The LIB and the block fired last are stored, each block once, ascending and none below the LIB, and previous
ids lead from the block fired last to the LIB. -/
structure Checkpoint.Resumable (c : Checkpoint) : Prop where
  lib : ∃ s ∈ c.blocks, s.ref = c.lib.ref
  lastFired : c.lastFired ∈ c.blocks
  distinct : (c.blocks.map StoredRef.id).Nodup
  ascending : c.blocks.Pairwise fun s t => s.num < t.num ∨ s.num = t.num ∧ s.id < t.id
  above : ∀ s ∈ c.blocks, c.lib.num ≤ s.num
  leadsBack : ∃ way, way ⊆ c.blocks ∧ way.head? = some c.lastFired ∧
    way.IsChain (fun s t => s.previousId = t.id) ∧ way.getLast?.map StoredRef.ref = some c.lib.ref

/-- Each block declares its parent's own number, below its own. A block numbered `0` declares a parent that is
never answered. -/
structure Declared (answers : List (BlockNum × Block)) : Prop where
  lower : ∀ a ∈ answers, a.2.num ≠ 0 → a.2.Declares answers
  root : ∀ a ∈ answers, a.2.num = 0 → ∀ a' ∈ answers, a'.2.id ≠ a.2.parentId

instance (answers : List (BlockNum × Block)) : Decidable (Declared answers) :=
  decidable_of_iff
    ((∀ a ∈ answers, a.2.num ≠ 0 → a.2.Declares answers) ∧
      ∀ a ∈ answers, a.2.num = 0 → ∀ a' ∈ answers, a'.2.id ≠ a.2.parentId)
    ⟨fun h => ⟨h.1, h.2⟩, fun h => ⟨h.lower, h.root⟩⟩

/-- The node's block was answered, and its parent with lower numbers only, if at all. -/
def Node.Placed (answers : List (BlockNum × Block)) (n : Node) : Prop :=
  n.Answered answers ∧ n.Falls answers

theorem Node.Placed.lasting : Lasting (Placed answers) where
  markedIn h ids := ⟨Answered.lasting.markedIn h.1 ids, Falls.lasting.markedIn h.2 ids⟩
  restored h := ⟨Answered.lasting.restored h.1, Falls.lasting.restored h.2⟩

theorem Declared.placed (h : Declared answers) {a : BlockNum × Block} (ha : a ∈ answers) :
    (Node.fresh a.2).Placed answers := by
  refine ⟨⟨a, ha, rfl⟩, fun a' ha' hId => ?_⟩
  by_cases hZero : a.2.num = 0
  · exact absurd hId (h.root a ha hZero a' ha')
  · exact (h.lower a ha hZero).descends.2 a' ha' hId

theorem Follows.of_isChain {path : List StoredRef} (h : path.IsChain (fun s t => s.previousId = t.id))
    {s : StoredRef} (hHead : path.head? = some s) : Follows s.id (path.map StoredRef.node) := by
  induction path generalizing s with
  | nil => cases hHead
  | cons t path ih =>
    cases hHead
    refine ⟨rfl, ?_⟩
    obtain ⟨hNext, hRest⟩ := List.isChain_cons.mp h
    cases path with
    | nil => trivial
    | cons u path =>
      have hPrevious : t.previousId = u.id := hNext u rfl
      change Follows t.previousId _
      rw [hPrevious]
      exact ih hRest rfl

namespace Feed

variable {f : Feed τ}

theorem Settles.asFired_mem {r : Run τ} {b : Block} {target : BlockRef} {last : Node} {graph : ForkGraph}
    (h : f.Settles b r target last graph) {n : Node}
    (hn : n ∈ ((r.link b).graph.segmentTo target).nodes) (hHigh : graph.libNum ≤ n.num) :
    n.asFired ∈ graph.purge.nodes := by
  refine mem_purge.mpr ⟨?_, hHigh⟩
  rw [h.nodes_eq, ← markedIn_newlyFired_eq hn]
  exact markedIn_mem_markAll (mem_of_mem_segmentTo hn) _

theorem Settles.resumable {r s : Run τ} {b : Block} {target : BlockRef} {last : Node} {graph : ForkGraph}
    {c : Checkpoint} (h : f.Settles b s target last graph) (hTakes : f.Takes r b s) (hLive : r.Live)
    {Q : Node → Prop} (hKeeps : (s.link b).graph.Keeps (Node.Placed answers) Q)
    (hSnapshot : Checkpoint.snapshot graph.purge last.toLink = .ok c) : c.Resumable := by
  obtain ⟨-, -, -, -, -, -, m, hm, hNew, -⟩ := h.exists_lib hTakes hLive
  obtain ⟨lib, hLib, hStoredLib, hLastFired, -⟩ := Checkpoint.snapshot_eq_ok_iff.mp hSnapshot
  rw [purge_lib, hNew, Option.some.injEq] at hLib
  subst hLib
  have hLibNum : graph.libNum = m.num := libNum_of_lib hNew
  -- the way back from the last block comes to the LIB, and the purge leaves it
  have hPath : ∀ n ∈ ((s.link b).graph.segmentTo target).nodes.reverse, n.Placed answers :=
    fun n hn => (hKeeps n (mem_of_mem_segmentTo (List.mem_reverse.mp hn))).1
  have hFalling := ((s.link b).graph.follows_segmentTo target).falling (fun n hn => (hPath n hn).1)
    fun n hn => (hPath n hn).2
  obtain ⟨way, hFollows, hHead, hEnd, hOn⟩ := exists_way hm h.last hFalling
  have hWay : ∀ n ∈ way, StoredRef.ofLink n.toLink ∈ c.blocks := by
    intro n hn
    obtain ⟨hMember, hHigh⟩ := hOn n hn
    exact (Checkpoint.mem_blocks_of_snapshot hSnapshot).mpr
      ⟨n.asFired, h.asFired_mem hMember (hLibNum ▸ hHigh), rfl, rfl⟩
  refine ⟨⟨_, hWay m (List.mem_of_getLast? hEnd), ?_⟩, ?_, Checkpoint.distinct_of_snapshot hSnapshot,
    Checkpoint.ascending_of_snapshot hSnapshot, ?_, ?_⟩
  · rw [hStoredLib]
    rfl
  · rw [hLastFired]
    exact hWay last (List.mem_of_mem_head? hHead)
  · intro t ht
    obtain ⟨n, hn, -, rfl⟩ := (Checkpoint.mem_blocks_of_snapshot hSnapshot).mp ht
    have hAbove := (mem_purge.mp hn).2
    rw [hLibNum] at hAbove
    rw [hStoredLib]
    exact hAbove
  · refine ⟨way.map fun n => .ofLink n.toLink, fun t ht => ?_, ?_, ?_, ?_⟩
    · obtain ⟨n, hn, rfl⟩ := List.mem_map.mp ht
      exact hWay n hn
    · rw [List.head?_map, hHead, hLastFired]
      rfl
    · exact (List.isChain_map _).mpr hFollows.isChain
    · rw [List.getLast?_map, hEnd, hStoredLib]
      rfl

theorem Processed.resumable {r s r' : Run τ} {b : Block} (h : f.Processed b s r') (hTakes : f.Takes r b s)
    (hLive : r.Live) {Q : Node → Prop} (hKeeps : (s.link b).graph.Keeps (Node.Placed answers) Q)
    (hBefore : ∀ c ∈ r.journal.checkpoints, c.Resumable) : ∀ c ∈ r'.journal.checkpoints, c.Resumable :=
  h.forall_checkpoints hTakes hBefore fun _ _ _ _ hSettles _ hSnapshot =>
    hSettles.resumable hTakes hLive hKeeps hSnapshot

theorem Checks.reached_eq {r r' : Run τ} {b : Block} {reached : Bool} (h : f.Checks r b r' reached)
    (hCursor : r.cursor = .start) : reached = ((r.graph.link (.fresh b)).segmentTo b.ref).reachesLib := by
  obtain @⟨s, target, -, hTakes, -, hHead⟩ := h
  have hSame := hTakes.sameBut
  -- no ancestor is awaited yet, so the block becomes the head
  have hAwaits : s.cursor.fillsGap b = false := by
    rw [hSame.cursor, hCursor]
    rfl
  rw [Run.link_cursor_head, hAwaits, if_neg Bool.false_ne_true, Option.some.injEq] at hHead
  rw [Run.link_graph, hSame.graph, hHead]

end Feed

namespace Checkpoint.Resumable

variable {c : Checkpoint} {Q : Node → Prop}

theorem exists_way (h : c.Resumable) :
    ∃ way : List Node, Follows c.lastFired.id way ∧ (∀ n ∈ way, n ∈ c.restore.nodes) ∧
      c.lib.id ∈ way.map Node.id := by
  obtain ⟨way, hStored, hHead, hChain, hLast⟩ := h.leadsBack
  refine ⟨way.map StoredRef.node, .of_isChain hChain hHead, fun n hn => ?_, ?_⟩
  · obtain ⟨s, hs, rfl⟩ := List.mem_map.mp hn
    exact (mem_restore_iff h.distinct).mpr ⟨s, hStored hs, rfl⟩
  · obtain ⟨s, hs, hRef⟩ := Option.map_eq_some_iff.mp hLast
    rw [List.map_map]
    exact List.mem_map.mpr ⟨s, List.mem_of_getLast? hs, congrArg BlockRef.id hRef⟩

/-- A child of the block fired last connects, unless its id is stored under another parent. -/
theorem reachesLib (h : c.Resumable) (hKeeps : c.restore.Keeps (Node.Placed answers) Q) {b : Block}
    (hChild : b.parentId = c.lastFired.id)
    (hKnown : ∀ s ∈ c.blocks, s.id = b.id → s.previousId = c.lastFired.id) :
    ((c.restore.link (.fresh b)).segmentTo b.ref).reachesLib = true := by
  obtain ⟨way, hFollows, hStored, hMeets⟩ := h.exists_way
  obtain ⟨n, hn, hId, hParent⟩ :
      ∃ n ∈ (c.restore.link (.fresh b)).nodes, n.id = b.id ∧ n.parent.id = c.lastFired.id := by
    obtain ⟨n, hn, hId⟩ := contains_iff_exists.mp (contains_link_self c.restore (.fresh b))
    refine ⟨n, hn, hId, ?_⟩
    obtain hOld | ⟨rfl, -⟩ := mem_link.mp hn
    · obtain ⟨s, hs, rfl⟩ := exists_of_mem_restore hOld
      exact hKnown s hs hId
    · exact hChild
  have hOnward : Follows b.id (n :: way) := ⟨hId, hParent ▸ hFollows⟩
  have hNodup : ∀ path : List Node, (∀ m ∈ path, m ∈ c.restore.nodes) → ∀ id, Follows id path →
      (path.map Node.id).Nodup := fun path hPath id hWay =>
    nodup_of_falling (hWay.falling (fun m hm => (hKeeps m (hPath m hm)).1.1)
      fun m hm => (hKeeps m (hPath m hm)).1.2) hPath
  have hLib : (c.restore.link (.fresh b)).lib = some c.lib.ref := by simp
  refine reachesLib_of_follows hLib hOnward (fun m hm => ?_) ?_ (List.mem_cons_of_mem _ hMeets)
  · obtain rfl | hm := List.mem_cons.mp hm
    · exact hn
    · exact mem_link_of_mem (hStored m hm)
  rw [List.map_cons, List.nodup_cons]
  refine ⟨fun hSeen => ?_, hNodup way hStored _ hFollows⟩
  -- were the child on the way, it would be restored, and numbers would fall from it back to itself
  obtain ⟨m, hm, hSame⟩ := List.mem_map.mp hSeen
  obtain rfl := eq_of_id_eq (mem_link_of_mem (hStored m hm)) hn hSame
  have hAll : ∀ k ∈ m :: way, k ∈ c.restore.nodes := List.forall_mem_cons.mpr ⟨hStored m hm, hStored⟩
  exact (List.nodup_cons.mp (hNodup _ hAll _ hOnward)).1 (List.mem_map_of_mem hm)

end Checkpoint.Resumable

end

namespace Session

/-- The session finds the file of the checkpoint. -/
def Finds (t : Session) (c : Checkpoint) : Prop :=
  ∃ dir, t.feed.config.stateDir = some dir ∧ t.disk.read (Checkpoint.path dir) = .ok c.bytes

theorem Finds.beginning {t : Session} {c : Checkpoint} (h : t.Finds c) (hRunning : t.beginning.ending = none) :
    t.beginning.graph = c.restore ∧ t.beginning.cursor = .start ∧
      c.lastFired.num ≠ BlockNum.highest ∧ t.beginning.next = c.lastFired.num + 1 := by
  obtain ⟨dir, hDir, hRead⟩ := h
  have hLoad := Checkpoint.load_of_read hRead
  cases t.begun with
  | ended hEnding =>
    rw [hRunning] at hEnding
    cases hEnding
  | cold hCold => exact absurd hLoad (hCold dir c hDir)
  | resumed hDir' hLoad' hGraph hCursor _ hNext =>
    cases hDir.symm.trans hDir'
    cases hLoad.symm.trans hLoad'
    obtain ⟨-, hEnding⟩ | ⟨hLow, -, hNext⟩ := hNext
    · rw [hRunning] at hEnding
      cases hEnding
    · exact ⟨hGraph, hCursor, hLow, hNext⟩

theorem resumable_after {answers : List (BlockNum × Block)} {s : Session} {Q : Node → Prop} {n : Nat}
    (hAdmits : ∀ k < n, s.feed.Admits (Node.Placed answers) Q (s.after k) (s.after (k + 1)))
    (hUpholds : ∀ k < n, (s.after k).Upholds (Node.Placed answers) Q) :
    ∀ c ∈ (s.after n).journal.checkpoints, c.Resumable := by
  induction n with
  | zero =>
    intro c hc
    change c ∈ s.beginning.journal.checkpoints at hc
    rw [Journal.checkpoints_eq_pick, s.begun.untouched.checkpoints] at hc
    cases hc
  | succ n ih =>
    have hBefore := ih (fun k hk => hAdmits k (Nat.lt_succ_of_lt hk)) fun k hk => hUpholds k (Nat.lt_succ_of_lt hk)
    have hStep : s.feed.Stepped (s.after n) (s.after (n + 1)) := s.feed.stepped _
    obtain ⟨-, hIdle, -⟩ | ⟨hRunning, -, b, t, hTakes, hProcessed⟩ := hStep.idle_or_processed
    · rw [Journal.checkpoints_eq_pick, hIdle.checkpoints]
      exact hBefore
    · have hNow := hUpholds n (Nat.lt_succ_self n)
      have hKeeps := (hAdmits n (Nat.lt_succ_self n)).keeps_link hRunning hTakes hProcessed hNow.keeps
      exact hProcessed.resumable hTakes (hNow.live hRunning) hKeeps hBefore

/-- If each block declares its parent's own number, below its own, then every checkpoint can be resumed from. A
run that finds its file does not ask below the LIB first, and a child of the block fired last connects at once,
unless the file holds its id under another parent. -/
theorem checkpoints_resumable {sessions : List Session} (h : Succession sessions)
    (hDeclared : Declared (answers sessions)) {s : Session} (hs : s ∈ sessions) {c : Checkpoint}
    (hc : c ∈ s.run.journal.checkpoints) :
    c.Resumable ∧ ∀ t : Session, t.Finds c →
      (t.beginning.ending = none → checkAboveLib t.beginning.next t.beginning.graph.libNum = .ok ()) ∧
      ∀ b reached, t.feed.Checks t.beginning b (t.after 1) reached → b.parentId = c.lastFired.id →
        (∀ known ∈ c.blocks, known.id = b.id → known.previousId = c.lastFired.id) → reached = true := by
  have hPlaced : ∀ a ∈ answers sessions, (Node.fresh a.2).Placed (answers sessions) :=
    fun a ha => hDeclared.placed ha
  have hUpholds := fun k (hk : k ≤ s.iterations) => h.upholds_of_answers hPlaced hs Node.Placed.lasting hk
  have hResumable := resumable_after (fun k hk => admits_of_answers hPlaced hs hk)
    (fun k hk => hUpholds k (Nat.le_of_lt hk)) c hc
  refine ⟨hResumable, fun t hFinds => ⟨fun hRunning => ?_, fun b reached hChecks hChild hKnown => ?_⟩⟩
  · obtain ⟨hGraph, -, hLow, hNext⟩ := hFinds.beginning hRunning
    have hLib : c.restore.libNum = c.lib.num := libNum_of_lib c.restore_lib
    have hAbove : c.lib.num ≤ c.lastFired.num + 1 :=
      BlockNum.le_succ_of_le (hResumable.above _ hResumable.lastFired) hLow
    rw [hGraph, hNext, hLib, checkAboveLib, if_neg (UInt64.not_lt.mpr hAbove)]
  · obtain ⟨hGraph, hCursor, -, -⟩ := hFinds.beginning hChecks.processes.1
    rw [hChecks.reached_eq hCursor, hGraph]
    exact hResumable.reachesLib ((hUpholds _ (Nat.le_refl _)).checkpoints c hc).keeps hChild hKnown

/-- A branch is fired, the source turns away from it step by step, and the LIB moves onto the new one. -/
def changingSides : Session where
  sinkType := Unit
  feed := .undisturbed { start := 100, retries := 1, stateDir := some ⟨["state"]⟩ }
  source := .scripted [
    .plain "100a" 100 "99a" 100, .plain "101b" 101 "100a" 100, .plain "102b" 102 "101b" 100,
    .plain "103x" 103 "102x" 100, .plain "102y" 102 "101z" 100, .plain "101a" 101 "100a" 101]
  sinkState := ()
  disk := .empty
  iterations := 7

/-- What that session leaves. -/
def changedSides : Checkpoint where
  lib := ⟨"101a", 101, ""⟩
  lastFired := ⟨"101a", 101, "100a"⟩
  blocks := [⟨"101a", 101, "100a"⟩, ⟨"101b", 101, "100a"⟩, ⟨"102b", 102, "101b"⟩]

/-- A session that goes on from there with one block. -/
def goingOnWith (b : Block) : Session where
  sinkType := Unit
  feed := .undisturbed { start := 100, retries := 1, stateDir := some ⟨["state"]⟩ }
  source := .scripted [b]
  sinkState := ()
  disk := changingSides.run.disk
  iterations := 1

theorem changedSides_stored : changedSides ∈ changingSides.run.journal.checkpoints := by decide +kernel

theorem changingSides_finds_none : (Checkpoint.load changingSides.disk ⟨["state"]⟩).toOption.isNone = true := by
  decide +kernel

theorem goingOnWith_reads (b : Block) :
    (goingOnWith b).disk.read (Checkpoint.path ⟨["state"]⟩) = .ok changedSides.bytes := by
  have hRead : changingSides.run.disk.read (Checkpoint.path ⟨["state"]⟩) = .ok changedSides.bytes := by
    decide +kernel
  have hDisk : (goingOnWith b).disk = changingSides.run.disk := by rw [goingOnWith]
  rw [hDisk]
  exact hRead

theorem checkpoints_resumable_changingSides :
    (goingOnWith (.plain "102c" 102 "101a" 101)).run.journal.handed = [.plain "102c" 102 "101a" 101] ∧
    changedSides.Resumable ∧ ∀ t : Session, t.Finds changedSides →
      (t.beginning.ending = none → checkAboveLib t.beginning.next t.beginning.graph.libNum = .ok ()) ∧
      ∀ b reached, t.feed.Checks t.beginning b (t.after 1) reached → b.parentId = "101a" →
        (∀ known ∈ changedSides.blocks, known.id = b.id → known.previousId = "101a") → reached = true := by
  have hSuccession : Succession ([] ++ [changingSides]) :=
    .snoc .nil (.inl (Feed.coldStarts_of_isNone _ rfl changingSides_finds_none))
  have hDeclared : Declared (answers ([] ++ [changingSides])) := by decide +kernel
  exact ⟨by decide +kernel,
    checkpoints_resumable hSuccession hDeclared (List.mem_singleton_self _) changedSides_stored⟩

/-- A block of the branch that was left is given again, now as a child of the block fired last. -/
def claimingAnew : Session := goingOnWith (.plain "102b" 102 "101a" 101)

/-- It does not connect, since the file holds its id under another parent. -/
theorem claimingAnew_strays :
    Succession [changingSides, claimingAnew] ∧ SteadyNumbers (answers [changingSides, claimingAnew]) ∧
    Declared (answers [changingSides, claimingAnew]) ∧
    changedSides ∈ changingSides.run.journal.checkpoints ∧ claimingAnew.Finds changedSides ∧
    ∃ b, b.parentId = changedSides.lastFired.id ∧
      claimingAnew.feed.Checks claimingAnew.beginning b (claimingAnew.after 1) false := by
  have hFinds : claimingAnew.Finds changedSides := ⟨⟨["state"]⟩, rfl, goingOnWith_reads _⟩
  have hSuccession : Succession [changingSides, claimingAnew] :=
    .pair rfl changingSides_finds_none rfl changedSides_stored (goingOnWith_reads _)
  refine ⟨hSuccession, by decide +kernel, by decide +kernel, changedSides_stored, hFinds, ?_⟩
  have hRunning : (claimingAnew.after 1).ending = none := by decide +kernel
  have hStep : claimingAnew.feed.Stepped claimingAnew.beginning (claimingAnew.after 1) := claimingAnew.feed.stepped _
  obtain hEnded | ⟨-, b, reached, hChecks⟩ := hStep.ended_or_checks
  · exact absurd hRunning hEnded
  have hFirst : 0 < claimingAnew.iterations := by decide
  have hAnswered : ((claimingAnew.after 0).next, b) ∈ answers [claimingAnew] :=
    mem_answers_of_processes (List.mem_singleton_self _) hFirst hChecks.processes
  have hOnly : answers [claimingAnew] = [(102, .plain "102b" 102 "101a" 101)] := by decide +kernel
  rw [hOnly, List.mem_singleton, Prod.mk.injEq] at hAnswered
  obtain ⟨-, rfl⟩ := hAnswered
  have hMissed : ((claimingAnew.beginning.graph.link (.fresh (.plain "102b" 102 "101a" 101))).segmentTo
      ⟨"102b", 102⟩).reachesLib = false := by
    decide +kernel
  have hReached := hChecks.reached_eq (hFinds.beginning hChecks.processes.1).2.1
  rw [hReached.trans hMissed] at hChecks
  exact ⟨_, rfl, hChecks⟩

end Session

end ChainFeed
