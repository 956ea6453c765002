import ChainFeed.Proofs.Feed.Relay

/-! # Runs that come to their stop block

Over a fork-free chain, a run that nothing hinders and that keeps no checkpoints takes up the blocks from the
resolved start to the stop block, one in each iteration, and is over then. What it asked for, what it handed
over and what it has stored are told by the chain and the configuration alone.
-/

set_option autoImplicit false

namespace ChainFeed

open ForkGraph

namespace Source

/-- The source after it was asked for these numbers, in order. -/
def afterAsking : List BlockNum → Source → Source
  | [], s => s
  | num :: rest, s => afterAsking rest (s.fetch num).next

/-- Whatever it was asked for before, the source answers a number with the block of that number. -/
def Gives (s : Source) (B : BlockNum → Block) : Prop :=
  ∀ asked num, ((s.afterAsking asked).fetch num).answer = .block (B num)

variable {s : Source} {B : BlockNum → Block}

theorem Gives.answer (h : s.Gives B) (num : BlockNum) : (s.fetch num).answer = .block (B num) := h [] num

theorem Gives.next (h : s.Gives B) (num : BlockNum) : (s.fetch num).next.Gives B :=
  fun asked => h (num :: asked)

theorem Gives.askFrom_eq (h : s.Gives B) (num : BlockNum) (attempt left : Nat) :
    askFrom num attempt left s =
      ⟨.block (B num), [.asked num (s.fetch num).passed (.block (B num))], (s.fetch num).next⟩ := by
  have hAsk : s.ask num = (.asked num (s.fetch num).passed (.block (B num)), .block (B num), (s.fetch num).next) := by
    rw [ask, h.answer num]
  cases left <;> rw [askFrom, hAsk]

/-- A client that gives the same answer each time it is asked for a number. -/
def constant (interval : Nat) (B : BlockNum → Block) (asked : List BlockNum) : Source :=
  .client { interval := interval, answer := fun _ num => .block (B num), asked := asked }

theorem gives_constant (interval : Nat) (B : BlockNum → Block) (asked : List BlockNum) :
    (constant interval B asked).Gives B := by
  intro more
  induction more generalizing asked with
  | nil => exact fun _ => rfl
  | cons num more ih => exact ih (num :: asked)

end Source

variable {τ : Type} {B : BlockNum → Block} {n stop : BlockNum}

/-- The sink accepts whatever it is handed, nobody asks for a stop, and no checkpoint is kept. -/
structure Feed.Unimpeded (f : Feed τ) : Prop where
  opens : ∀ state, (f.sink.opening state).1 = .accepted
  accepts : ∀ state b, (f.sink.deliver state b).1 = .accepted
  going : ∀ j, f.stopped j = false
  stateDir : f.config.stateDir = none

theorem fire_ending_eq_none {sink : Sink τ} (hAccepts : ∀ state b, (sink.deliver state b).1 = .accepted)
    (start : BlockNum) {path : List Node} (hContent : ∀ x ∈ path, x.fired = false → x.content.isSome = true)
    (g : ForkGraph) (state : τ) : (fire sink start path g state).ending = none := by
  induction path generalizing g state with
  | nil => rfl
  | cons x path ih =>
    have hRest : ∀ y ∈ path, y.fired = false → y.content.isSome = true :=
      fun y hy => hContent y (List.mem_cons_of_mem x hy)
    rw [fire]
    by_cases hFired : x.fired = true
    · rw [if_pos hFired]
      exact ih hRest g state
    rw [if_neg hFired]
    by_cases hBelow : x.num < start
    · rw [if_pos hBelow]
      exact ih hRest _ state
    rw [if_neg hBelow]
    obtain ⟨b, hb⟩ := Option.isSome_iff_exists.mp
      (hContent x List.mem_cons_self (Bool.eq_false_iff.mpr hFired))
    have hAccepted := hAccepts state b
    rcases hDeliver : sink.deliver state b with ⟨delivery, state'⟩
    rw [hDeliver] at hAccepted
    cases hAccepted
    simp only [hb, hDeliver]
    exact ih hRest _ state'

namespace Feed

variable {f : Feed τ} {r s : Run τ}

/-! ## Steps -/

/-- The run has processed the blocks of the chain below `n`, and has fired all that it has stored. -/
structure Reached (f : Feed τ) (B : BlockNum → Block) (n : BlockNum) (r : Run τ) : Prop where
  start : f.config.resolvedStart ≤ n
  covers : r.graph.Covers B f.config n
  whole : ∀ x ∈ r.graph.nodes, x = (Node.fresh (B x.num)).asFired
  accepted : r.journal.accepted = (BlockNum.span f.config.start n).map B
  handed : r.journal.handed = (BlockNum.span f.config.start n).map B
  gives : r.source.Gives B
  /-- The block of the resolved start is asked for before the first iteration. -/
  asked : r.pending = none ∧
      r.journal.asked = (BlockNum.span f.config.resolvedStart n).map (fun m => (m, .block (B m))) ∨
    n = f.config.resolvedStart ∧ r.pending = some (B n) ∧ r.journal.asked = [(n, .block (B n))]
  going : r.ending = none → r.next = n ∧ r.cursor.awaited = none

theorem fetch_of_gives (hGives : r.source.Gives B) (num : BlockNum) :
    ∃ s, f.fetch num r = (s, some (B num)) ∧ s.source.Gives B ∧
      s.journal.asked = r.journal.asked ++ [(num, .block (B num))] := by
  refine ⟨_, by rw [fetch, Source.fetchRetrying, hGives.askFrom_eq], hGives.next num, ?_⟩
  simp [Journal.asked, Run.record, Entry.request?]

theorem Reached.exists_takes (h : f.Reached B n r) (hChain : ForkFree B) (hFeed : f.Unimpeded)
    (hRunning : r.ending = none) (hLow : n ≠ BlockNum.highest) :
    ∃ s, f.Takes r (B n) s ∧ f.step r = f.process (B n) s ∧ s.source.Gives B ∧
      s.journal.asked =
        (BlockNum.span f.config.resolvedStart (n + 1)).map (fun m => (m, .block (B m))) := by
  obtain ⟨hNext, -⟩ := h.going hRunning
  have hAbove : r.graph.libNum ≤ r.next := by
    rw [hNext, h.covers.libNum_eq hChain]
    exact hChain.libBelow_le h.start
  have hStep : ∀ s, f.Takes r (B n) s → f.step r = f.process (B n) s :=
    fun s hTakes => step_of_takes hRunning (hFeed.going _) hAbove hTakes
  rw [BlockNum.span_succ h.start hLow, List.map_append]
  obtain ⟨hPending, hAsked⟩ | ⟨hFirst, hPending, hAsked⟩ := h.asked
  · obtain ⟨s, hFetch, hGives, hMore⟩ := fetch_of_gives (f := f) h.gives n
    have hTakes : f.Takes r (B n) s := .fetched hPending (hNext ▸ hFetch)
    exact ⟨s, hTakes, hStep s hTakes, hGives, hMore.trans (congrArg (· ++ _) hAsked)⟩
  · have hTakes : f.Takes r (B n) { r with pending := none } := .pending hPending
    refine ⟨_, hTakes, hStep _ hTakes, h.gives, ?_⟩
    rw [← hFirst, BlockNum.span_eq_nil (UInt64.le_refl n)]
    exact hAsked

theorem goOn_of_stopBlock (last : Link) (hGoing : ∀ j, f.stopped j = false)
    (hStop : f.config.stopBlock = some stop) (hNum : last.num = n) (hLow : n ≠ BlockNum.highest) :
    (f.goOn last r).next = n + 1 ∧
      (f.goOn last r).ending = if n < stop then r.ending else some .finished := by
  rw [goOn, BlockNum.next?, hNum, if_neg hLow, hStop]
  simp only
  by_cases hBefore : n < stop
  · rw [if_pos hBefore, if_neg (UInt64.not_lt.mpr (BlockNum.succ_le_of_lt hBefore)), wait_of_going (hGoing _)]
    exact ⟨rfl, rfl⟩
  · rw [if_neg hBefore, if_pos ((BlockNum.lt_succ_iff hLow).mpr (UInt64.not_lt.mp hBefore))]
    exact ⟨rfl, rfl⟩

theorem whole_purge {target : BlockRef} {last : Node} {graph : ForkGraph} {older : List Node}
    (hSettles : f.Settles (B n) s target last graph)
    (hWhole : ∀ x ∈ s.graph.nodes, x = (Node.fresh (B x.num)).asFired) (hChain : ForkFree B)
    (hNodes : ((s.link (B n)).graph.segmentTo target).nodes = older ++ [.fresh (B n)]) :
    ∀ x ∈ graph.purge.nodes, x = (Node.fresh (B x.num)).asFired := by
  intro x hx
  have hKept := (mem_purge.mp hx).1
  rw [hSettles.nodes_eq, mem_markAll] at hKept
  obtain ⟨y, hy, rfl⟩ := hKept
  rw [Node.markedIn_num]
  obtain hOld | ⟨rfl, -⟩ := mem_link.mp hy
  · have hFired : y.fired = true := by
      rw [hWhole y hOld]
      rfl
    rw [Node.markedIn_of_fired hFired]
    exact hWhole y hOld
  · rw [Node.fresh_num, hChain.num]
    apply markedIn_newlyFired_eq
    rw [hNodes]
    exact List.mem_append_right _ (List.mem_singleton_self _)

/-- Over a fork-free chain the next block connects, and nothing keeps the run from settling the LIB. -/
theorem Processed.exists_settled {r' : Run τ} {older : List Node} (h : f.Processed (B n) s r')
    (hCovers : s.graph.Covers B f.config n) (hChain : ForkFree B) (hFeed : f.Unimpeded)
    (hStart : f.config.resolvedStart ≤ n) (hBelow : ∀ x ∈ s.graph.nodes, x.num < n)
    (hLow : n ≠ BlockNum.highest) (hHead : (s.link (B n)).cursor.head = some (B n).ref)
    (hNodes : ((s.link (B n)).graph.segmentTo (B n).ref).nodes = older ++ [.fresh (B n)])
    (hOlder : ∀ x ∈ older, x.fired = true)
    (hReach : ((s.link (B n)).graph.segmentTo (B n).ref).reachesLib = true) :
    ∃ graph move,
      let passed := f.handOver ((s.link (B n)).graph.segmentTo (B n).ref).nodes (s.check (B n) (B n).ref)
      f.Settles (B n) s (B n).ref (.fresh (B n)) graph ∧
        passed.graph.advanceLib (B n).ref (f.config.libAfter (B n) passed.graph.libNum) = .ok (graph, move) ∧
        r' = f.goOn (B n).link
          (advance (B n) (f.config.libAfter (B n) passed.graph.libNum) graph move passed) := by
  have hEnd : ((s.link (B n)).graph.segmentTo (B n).ref).nodes.getLast? = some (.fresh (B n)) := by
    rw [hNodes, List.getLast?_concat]
  cases h with
  | headless hNone =>
    rw [hHead] at hNone
    cases hNone
  | absent hHead' hPath =>
    cases hHead.symm.trans hHead'
    rw [hNodes] at hPath
    simp at hPath
  | gap hHead' hGap =>
    cases hHead.symm.trans hHead'
    rw [hReach] at hGap
    cases hGap
  | halted hHead' _ hHalt =>
    cases hHead.symm.trans hHead'
    have hContent : ∀ x ∈ ((s.link (B n)).graph.segmentTo (B n).ref).nodes, x.fired = false →
        x.content.isSome = true := by
      intro x hx hUnfired
      rw [hNodes, List.mem_append, List.mem_singleton] at hx
      obtain hx | rfl := hx
      · rw [hOlder x hx] at hUnfired
        cases hUnfired
      · rfl
    rw [fire_ending_eq_none hFeed.accepts _ hContent] at hHalt
    cases hHalt
  | refused hHead' _ hFired hOver hError =>
    cases hHead.symm.trans hHead'
    have hGraph := handOver_graph_of_fired hFired hOver
    refine absurd hError ((hCovers.link hChain hStart).not_libBackward hChain ?_ ?_)
    · rw [hGraph, markAll_lib]
      rfl
    · rw [hGraph, markAll_libReported]
      rfl
  | unsaved hHead' _ hLast hFired hOver hMove hUnsaved =>
    cases hHead.symm.trans hHead'
    cases hEnd.symm.trans hLast
    obtain ⟨hNext, -⟩ := covers_purge hCovers hChain hStart hBelow hLow hNodes hFired hOver hMove
    have hSpec := hNext.snapshot_eq hChain
    rw [BlockNum.back_one_succ hLow] at hSpec
    -- there is a LIB to snapshot, and no directory to write it to
    cases hUnsaved with
    | noLib hSnapshot => cases hSnapshot.symm.trans hSpec
    | write hDir => cases hFeed.stateDir.symm.trans hDir
  | connected hHead' _ hLast hFired hOver hMove hSaved =>
    cases hHead.symm.trans hHead'
    cases hEnd.symm.trans hLast
    subst hOver
    cases hSaved with
    | off => exact ⟨_, _, ⟨hHead, hReach, hEnd, hFired, _, _, rfl, hMove⟩, hMove, rfl⟩
    | on hDir => cases hFeed.stateDir.symm.trans hDir

/-- While the stop block is not passed, an iteration processes one block more, and the stop block's ends the run. -/
theorem Reached.step (h : f.Reached B n r) (hChain : ForkFree B) (hFeed : f.Unimpeded)
    (hStop : f.config.stopBlock = some stop) (hRunning : r.ending = none) (hLow : n ≠ BlockNum.highest) :
    f.Reached B (n + 1) (f.step r) ∧ (f.step r).ending = if n < stop then none else some .finished := by
  obtain ⟨s, hTakes, hStep, hGives, hAsked⟩ := h.exists_takes hChain hFeed hRunning hLow
  rw [hStep]
  have hSame := hTakes.sameBut
  have hEnds : s.ending = none := hTakes.ending_eq.trans hRunning
  have hCovers : s.graph.Covers B f.config n := hSame.graph ▸ h.covers
  have hWhole : ∀ x ∈ s.graph.nodes, x = (Node.fresh (B x.num)).asFired := hSame.graph ▸ h.whole
  have hBelow : ∀ x ∈ s.graph.nodes, x.num < n := by
    intro x hx
    apply (hCovers.fired x hx).mp
    rw [hWhole x hx]
    rfl
  have hHead : (s.link (B n)).cursor.head = some (B n).ref := by
    rw [Run.link_cursor_head, Cursor.fillsGap, hSame.cursor, (h.going hRunning).2]
    rfl
  obtain ⟨hReach, older, hNodes, hOlder⟩ := hCovers.exists_path hChain h.start hBelow
  have hProcessed := f.processed (B n) hEnds
  obtain ⟨graph, move, hSettles, hMove, hAfter⟩ :=
    hProcessed.exists_settled hCovers hChain hFeed h.start hBelow hLow hHead hNodes hOlder hReach
  obtain ⟨hNextCovers, -⟩ := covers_purge hCovers hChain h.start hBelow hLow hNodes hSettles.fired rfl hMove
  -- said once for what was handed over and once for what was accepted of it
  have hDelivered : ∀ p : Entry → Option Block, Entry.IgnoresReports p → (∀ n, p (.note n) = none) →
      (∀ b, p (.handed b .accepted) = some b) →
      s.journal.pick p = (BlockNum.span f.config.start n).map B →
      (f.process (B n) s).journal.pick p = (BlockNum.span f.config.start (n + 1)).map B := by
    intro p hp hNote hHanded hBefore
    rw [hAfter, (f.goOn_resembles _ _).pick_eq hp, pick_advance hp fun _ _ => hNote _,
      pick_handOver_fresh hp hHanded hNodes hOlder hSettles.fired, hBefore, hChain.num,
      BlockNum.map_span_succ _ hLow]
  refine ⟨⟨BlockNum.le_succ_of_le h.start hLow, ?_, ?_, ?_, ?_, ?_, .inl ⟨?_, ?_⟩, fun _ => ⟨?_, ?_⟩⟩, ?_⟩
  · rw [hAfter, (f.goOn_resembles _ _).graph]
    exact hNextCovers
  · rw [hAfter, (f.goOn_resembles _ _).graph]
    exact whole_purge hSettles hWhole hChain hNodes
  · exact hDelivered _ Entry.accepted?_ignoresReports (fun _ => rfl) (fun _ => rfl) (hSame.accepted.trans h.accepted)
  · exact hDelivered _ Entry.handed?_ignoresReports (fun _ => rfl) (fun _ => rfl) (hSame.handed.trans h.handed)
  · rw [(f.process_sameSupply (B n) s).source]
    exact hGives
  · rw [(f.process_sameSupply (B n) s).pending]
    exact hTakes.pending_eq_none
  · exact hProcessed.asked_eq.trans hAsked
  · rw [hAfter]
    exact (goOn_of_stopBlock (B n).link hFeed.going hStop (hChain.num n) hLow).1
  · rw [hAfter, (f.goOn_resembles _ _).cursor]
    rfl
  · rw [hAfter, (goOn_of_stopBlock (B n).link hFeed.going hStop (hChain.num n) hLow).2]
    exact if_congr Iff.rfl hEnds rfl

/-! ## Runs -/

theorem reached_begin (hChain : ForkFree B) (hFeed : f.Unimpeded) {source : Source} (hGives : source.Gives B)
    (sinkState : τ) (disk : Disk) :
    f.Reached B f.config.resolvedStart (f.begin source sinkState disk) ∧
      (f.begin source sinkState disk).ending = none := by
  have hStart : f.config.resolvedStart ≤ f.config.start := Std.min_le_left
  have hNone : (BlockNum.span f.config.start f.config.resolvedStart).map B = [] := by
    rw [BlockNum.span_eq_nil hStart]
    rfl
  rw [begin]
  simp only [hFeed.opens, prepare, hFeed.stateDir, coldStart, fetch, Source.fetchRetrying, Run.record,
    hGives.askFrom_eq]
  refine ⟨⟨UInt64.le_refl _, .startingAt hChain, fun x hx => ?_, ?_, ?_, hGives.next _, .inr ⟨rfl, rfl, rfl⟩,
    fun _ => ⟨rfl, rfl⟩⟩, rfl⟩
  · cases hx
  · exact hNone.symm
  · exact hNone.symm

theorem reached_after (hChain : ForkFree B) (hFeed : f.Unimpeded) (hStop : f.config.stopBlock = some stop)
    {source : Source} (hGives : source.Gives B) (sinkState : τ) (disk : Disk)
    {i : Nat} (hi : f.config.resolvedStart.toNat + i ≤ stop.toNat) :
    ∃ n, n.toNat = f.config.resolvedStart.toNat + i ∧
      f.Reached B n (f.after i (f.begin source sinkState disk)) ∧
      (f.after i (f.begin source sinkState disk)).ending = none := by
  induction i with
  | zero => exact ⟨_, rfl, reached_begin hChain hFeed hGives sinkState disk⟩
  | succ i ih =>
    obtain ⟨n, hn, hReached, hRunning⟩ := ih (by omega)
    have hBefore : n < stop := by
      rw [UInt64.lt_iff_toNat_lt]
      omega
    have hBelow := BlockNum.ne_highest_of_lt hBefore
    obtain ⟨hNext, hEnding⟩ := hReached.step hChain hFeed hStop hRunning hBelow
    refine ⟨n + 1, ?_, hNext, hEnding.trans (if_pos hBefore)⟩
    rw [BlockNum.toNat_succ hBelow, hn]
    omega

theorem Reached.nodes_eq (h : f.Reached B n r) (hChain : ForkFree B) :
    r.graph.nodes =
      (BlockNum.span (f.config.libBelow B n) n).map fun m => (Node.fresh (B m)).asFired := by
  have hAll : r.graph.nodes.filter Node.fired = r.graph.nodes := by
    rw [List.filter_eq_self]
    intro x hx
    rw [h.whole x hx]
    rfl
  have hMap := h.covers.map_fired hChain (p := id) (q := fun m => (Node.fresh (B m)).asFired) h.whole
  rw [hAll, List.map_id] at hMap
  exact hMap

end Feed

theorem Journal.requests_eq_map_asked (j : Journal) : j.requests = j.asked.map Prod.fst := by
  rw [asked, pick, List.map_filterMap]
  refine List.filterMap_congr fun e _ => ?_
  cases e <;> rfl

namespace Session

/-- The number that the stop block makes final, or the resolved start if that is higher. -/
def finalNum (s : Session) (stop : Block) : BlockNum :=
  max s.feed.config.resolvedStart (s.feed.config.finalBy stop)

/-- The session asked for the blocks from the resolved start to the stop block, handed over those from the start
on, and has those from the final one on stored. -/
structure Completes (s : Session) (B : BlockNum → Block) (stop : BlockNum) : Prop where
  ending : s.run.ending = some .finished
  requests : s.run.journal.requests = BlockNum.span s.feed.config.resolvedStart (stop + 1)
  handed : s.run.journal.handed = (BlockNum.span s.feed.config.start (stop + 1)).map B
  accepted : s.run.journal.accepted = (BlockNum.span s.feed.config.start (stop + 1)).map B
  lib : s.run.graph.lib = some (B (s.finalNum (B stop))).ref
  nodes : s.run.graph.nodes =
    (BlockNum.span (s.finalNum (B stop)) (stop + 1)).map fun m => (Node.fresh (B m)).asFired

theorem reached_run {s : Session} (hChain : ForkFree B) (hGives : s.source.Gives B) (hFeed : s.feed.Unimpeded)
    (hStop : s.feed.config.stopBlock = some stop) (hResolved : s.feed.config.resolvedStart ≤ stop)
    (hLow : stop ≠ BlockNum.highest)
    (hLong : stop.toNat - s.feed.config.resolvedStart.toNat < s.iterations) :
    s.feed.Reached B (stop + 1) s.run ∧ s.run.ending = some .finished := by
  rw [UInt64.le_iff_toNat_le] at hResolved
  obtain ⟨n, hn, hReached, hRunning⟩ := Feed.reached_after hChain hFeed hStop hGives s.sinkState s.disk
    (i := stop.toNat - s.feed.config.resolvedStart.toNat) (by omega)
  have hLast : n = stop := by
    rw [← UInt64.toNat_inj]
    omega
  subst hLast
  obtain ⟨hAfter, hEnding⟩ := hReached.step hChain hFeed hStop hRunning hLow
  rw [if_neg (UInt64.lt_irrefl n)] at hEnding
  -- the iterations that are left change nothing
  have hRun : s.run = s.feed.step (s.after (n.toNat - s.feed.config.resolvedStart.toNat)) := by
    obtain ⟨k, hk⟩ := Nat.exists_eq_add_of_lt hLong
    rw [run, hk, show n.toNat - s.feed.config.resolvedStart.toNat + k + 1 =
      k + (n.toNat - s.feed.config.resolvedStart.toNat + 1) by omega, s.feed.after_add]
    exact s.feed.after_of_ended (by rw [Feed.after, beginning, hEnding]; rfl) k
  rw [hRun]
  exact ⟨hAfter, hEnding⟩

/-- Over a fork-free chain, a session that nothing impedes completes as soon as it has taken up the stop block, and
stays so. -/
theorem completes_of_gives {s : Session} (hChain : ForkFree B) (hGives : s.source.Gives B)
    (hFeed : s.feed.Unimpeded) (hStop : s.feed.config.stopBlock = some stop)
    (hStart : s.feed.config.start ≤ stop) (hLow : stop ≠ BlockNum.highest)
    (hLong : stop.toNat - s.feed.config.resolvedStart.toNat < s.iterations) : s.Completes B stop := by
  have hResolved : s.feed.config.resolvedStart ≤ stop := UInt64.le_trans Std.min_le_left hStart
  obtain ⟨hReached, hEnding⟩ := reached_run hChain hGives hFeed hStop hResolved hLow hLong
  have hFinal : s.feed.config.libBelow B (stop + 1) = s.finalNum (B stop) := by
    rw [ForkFree.libBelow_succ hLow, Config.max_libAfter]
    rfl
  refine ⟨hEnding, ?_, hReached.handed, hReached.accepted, ?_, ?_⟩
  -- the run is past its first block
  · obtain ⟨-, hAsked⟩ := hReached.asked.resolve_right fun hFirst =>
      UInt64.not_le.mpr (BlockNum.lt_succ hLow) (hFirst.1 ▸ hResolved)
    rw [Journal.requests_eq_map_asked, hAsked, List.map_map]
    exact List.map_id _
  · rw [hReached.covers.lib, hFinal]
  · rw [hReached.nodes_eq hChain, hFinal]

/-- Each block makes the fourth one before it final. -/
def lateBlock (m : BlockNum) : Block := (Chain.strokes 'a').block m (m.back 4)

theorem forkFree_lateBlock : ForkFree lateBlock :=
  forkFree_strokes fun _ _ hLe => BlockNum.back_mono hLe 4

/-- That chain is followed from below the start on, and blocks that are two deep count as final. -/
def throughToStop : Session where
  sinkType := Unit
  feed := .undisturbed { start := 3, finalized := some 1, stopBlock := some 5, forceFinality := some 2 }
  source := .constant 5 lateBlock []
  sinkState := ()
  disk := .empty
  iterations := 7

theorem completes_throughToStop :
    throughToStop.Completes lateBlock 5 ∧ throughToStop.run.journal.requests = [1, 2, 3, 4, 5] ∧
      throughToStop.run.journal.handed.map Block.num = [3, 4, 5] ∧
      throughToStop.run.graph.libNum = 3 ∧ throughToStop.run.graph.nodes.map Node.num = [3, 4, 5] := by
  have hFeed : throughToStop.feed.Unimpeded := ⟨fun _ => rfl, fun _ _ => rfl, fun _ => rfl, rfl⟩
  have hGives : throughToStop.source.Gives lateBlock := Source.gives_constant 5 lateBlock []
  refine ⟨?_, by decide +kernel⟩
  exact completes_of_gives forkFree_lateBlock hGives hFeed rfl (by decide) (by decide) (by decide)

end Session

end ChainFeed
