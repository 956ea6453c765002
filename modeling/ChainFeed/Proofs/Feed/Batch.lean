import ChainFeed.Proofs.Feed.Consistency
import ChainFeed.Proofs.Feed.Descent
import ChainFeed.Proofs.Feed.Events
import ChainFeed.Proofs.ForkGraph.Walk

/-! # A gap is closed in one batch

An iteration that does not come to the LIB hands nothing over. While the ancestors awaited come in one after the
other, the path that is sought stays the one to the block that they were missing for, and once it reaches the LIB,
all that is due on it is handed over. A block that was not awaited is sought a path to instead.
-/

set_option autoImplicit false

namespace ChainFeed

open ForkGraph

variable {τ : Type}

/-! ## What is due on a path -/

/-- The block was not fired before, and is not numbered below the start. -/
def Node.isDue (start : BlockNum) (n : Node) : Bool :=
  !n.fired && decide (start ≤ n.num)

/-- The blocks that passing the path hands over, oldest first. -/
def Segment.due (start : BlockNum) (path : Segment) : List Block :=
  path.nodes.filterMap (Node.delivered? start)

theorem Node.delivered?_of_not_isDue {start : BlockNum} {n : Node} (h : ¬ n.isDue start = true) :
    n.delivered? start = none := by
  refine if_pos ?_
  by_contra hNot
  simp only [not_or, Bool.not_eq_true, UInt64.not_lt] at hNot
  exact h (by simp [isDue, hNot])

theorem Node.delivered?_of_isDue {start : BlockNum} {n : Node} {b : Block} (h : n.isDue start = true)
    (hContent : n.content = some b) : n.delivered? start = some b := by
  simp only [isDue, Bool.and_eq_true, Bool.not_eq_eq_eq_not, Bool.not_true, decide_eq_true_eq] at h
  exact Node.delivered?_eq_some_iff.mpr ⟨h.1, h.2, hContent⟩

section

variable {start : BlockNum} {path : List Node} (hContent : ∀ n ∈ path, n.fired = false → n.content.isSome = true)
  (hFilled : ∀ n ∈ path, ∀ b, n.content = some b → b.ref = n.block)

include hContent hFilled

/-- No block that is due is left out. -/
theorem map_ref_delivered? :
    (path.filterMap (Node.delivered? start)).map Block.ref = (path.filter (Node.isDue start)).map (·.block) := by
  induction path with
  | nil => rfl
  | cons n path ih =>
    obtain ⟨hFirst, hContent⟩ := List.forall_mem_cons.mp hContent
    obtain ⟨hFits, hFilled⟩ := List.forall_mem_cons.mp hFilled
    have hRest := ih hContent hFilled
    by_cases hDue : n.isDue start = true
    · have hUnfired : n.fired = false := by simpa using (Bool.and_eq_true_iff.mp hDue).1
      obtain ⟨b, hb⟩ := Option.isSome_iff_exists.mp (hFirst hUnfired)
      rw [List.filterMap_cons_some (Node.delivered?_of_isDue hDue hb), List.filter_cons_of_pos hDue, List.map_cons,
        List.map_cons, hRest, hFits b hb]
    · rw [List.filterMap_cons_none (Node.delivered?_of_not_isDue hDue), List.filter_cons_of_neg hDue, hRest]

/-- Firing comes to the end of the path with all that is due accepted, or it ends at the first block that is not. -/
theorem Firing.Passes.hands {firing : Firing τ} {g : ForkGraph} {passed left : List Node} {last : List Entry}
    (h : firing.Passes start path g passed left last) :
    firing.ending = none ∧ passed = path ∧ last = [] ∨
      ∃ b rest e, path.filterMap (Node.delivered? start) = passed.filterMap (Node.delivered? start) ++ b :: rest ∧
        last.filterMap Entry.handed? = [b] ∧ firing.ending = some e ∧
        ((∃ refusal, e = .failed (.delivery b.ref refusal)) ∨ ∃ reason, e = .crashed reason) := by
  obtain ⟨hEnding, -, hLast⟩ | ⟨e, hEnding, hHalt⟩ := h.ending
  · exact .inl ⟨hEnding, (h.of_ending_none hEnding).1, hLast⟩
  · have hHere : ∀ n ∈ left, n ∈ path := fun n hn => h.split ▸ List.mem_append_right passed hn
    right
    rw [h.split, List.filterMap_append]
    cases hHalt with
    | @missing n rest hUnfired hStart hNone =>
      have hSome := hContent n (hHere n List.mem_cons_self) hUnfired
      rw [hNone] at hSome
      cases hSome
    | @refused n rest b refusal hUnfired hStart hSome =>
      have hFits := hFilled n (hHere n List.mem_cons_self) b hSome
      rw [List.filterMap_cons_some (Node.delivered?_eq_some_iff.mpr ⟨hUnfired, hStart, hSome⟩)]
      exact ⟨b, _, _, rfl, rfl, hEnding, .inl ⟨refusal, by rw [hFits]⟩⟩
    | @crashed n rest b reason hUnfired hStart hSome =>
      rw [List.filterMap_cons_some (Node.delivered?_eq_some_iff.mpr ⟨hUnfired, hStart, hSome⟩)]
      exact ⟨b, _, _, rfl, rfl, hEnding, .inr ⟨reason, rfl⟩⟩

end

namespace Run

/-- Nothing was handed over from `r` to `r'`, and the LIB and all files stayed as they were. -/
structure Quiet (r r' : Run τ) : Prop where
  handed : r'.journal.handed = r.journal.handed
  lib : r'.graph.lib = r.graph.lib
  disk : r'.disk = r.disk

theorem quiet_refl (r : Run τ) : r.Quiet r := ⟨rfl, rfl, rfl⟩

theorem Quiet.trans {r s t : Run τ} (h : r.Quiet s) (h' : s.Quiet t) : r.Quiet t :=
  ⟨h'.handed.trans h.handed, h'.lib.trans h.lib, h'.disk.trans h.disk⟩

/-- From `r` to `r'` these blocks were handed over: all of them, or those up to one that was not accepted, which
ended the run. -/
inductive HandsOver (blocks : List Block) (r r' : Run τ) : Prop where
  | all (hHanded : r'.journal.handed = r.journal.handed ++ blocks)
      (hAccepted : r'.journal.accepted = r.journal.accepted ++ blocks)
  | upTo {accepted left : List Block} {b : Block} {e : Ending} (hBlocks : blocks = accepted ++ b :: left)
      (hHanded : r'.journal.handed = r.journal.handed ++ (accepted ++ [b]))
      (hAccepted : r'.journal.accepted = r.journal.accepted ++ accepted) (hEnding : r'.ending = some e)
      (hFailed : (∃ refusal, e = .failed (.delivery b.ref refusal)) ∨ ∃ reason, e = .crashed reason)

theorem HandsOver.of_sameBut {blocks : List Block} {r s r' : Run τ} (h : HandsOver blocks s r') (hSame : r.SameBut s) :
    HandsOver blocks r r' := by
  have hHanded : s.journal.handed = r.journal.handed := hSame.handed
  have hAccepted : s.journal.accepted = r.journal.accepted := hSame.accepted
  cases h with
  | all hAll hAllAccepted => exact .all (hHanded ▸ hAll) (hAccepted ▸ hAllAccepted)
  | upTo hBlocks hSome hSomeAccepted hEnding hFailed =>
    exact .upTo hBlocks (hHanded ▸ hSome) (hAccepted ▸ hSomeAccepted) hEnding hFailed

end Run

namespace Feed

variable {f : Feed τ} {r s r' : Run τ} {b : Block} {target : BlockRef} {reached : Bool}

/-! ## Where the path leads to -/

theorem Unsaved.cursor_eq {last : Link} {r t : Run τ} (h : f.Unsaved last r t) : t.cursor = r.cursor := by
  cases h <;> rfl

/-- Only linking a block gives the cursor another head. -/
theorem Processed.cursor_head (h : f.Processed b r r') : r'.cursor.head = (r.link b).cursor.head := by
  cases h with
  | headless | absent | halted => rfl
  | gap => rw [(f.wait_resembles _).cursor]; rfl
  | refused _ _ _ hOver => subst hOver; rfl
  | unsaved _ _ _ _ hOver _ hUnsaved => subst hOver; rw [hUnsaved.cursor_eq]; rfl
  | connected _ _ _ _ hOver _ hSaved =>
    subst hOver
    rw [(f.goOn_resembles _ _).cursor, hSaved.cursor_eq]
    rfl

theorem Checks.cursor_head (h : f.Checks r b r' reached) :
    r'.cursor.head = if r.cursor.awaited = some b.id then r.cursor.head else some b.ref := by
  obtain ⟨-, hTakes, hProcessed, -⟩ := h
  rw [hProcessed.cursor_head, Run.link_cursor_head, Cursor.fillsGap, hTakes.sameBut.cursor]
  simp only [decide_eq_true_eq]

/-- A block that is fetched is linked, and the path to the head is sought. -/
theorem checks_of_fetch (target : BlockRef)
    (hGoing : r.ending = none ∧ f.stopped r.journal = false ∧ r.graph.libNum ≤ r.next ∧ r.pending = none)
    (hFetched : (f.fetch r.next r).2 = some b)
    (hSought : ((f.fetch r.next r).1.link b).cursor.head = some target ∧
      (((f.fetch r.next r).1.link b).graph.segmentTo target).reachesLib = reached) :
    f.Checks r b (f.step r) reached := by
  obtain ⟨hRunning, hUnstopped, hAbove, hPending⟩ := hGoing
  obtain ⟨hHead, rfl⟩ := hSought
  have hTakes : f.Takes r b (f.fetch r.next r).1 := .fetched hPending (Prod.ext rfl hFetched)
  have hProcessed := f.processed b (hTakes.ending_eq.trans hRunning)
  rw [step_of_takes hRunning hUnstopped hAbove hTakes]
  exact .checked hRunning hTakes hProcessed hHead

/-! ## What is handed over -/

/-- An iteration that does not come to the LIB is quiet. -/
theorem Checks.quiet (h : f.Checks r b r' false) : r.Quiet r' := by
  generalize hReached : false = reached at h
  obtain @⟨s, target, -, hTakes, hProcessed, hHead⟩ := h
  have hSame := hTakes.sameBut
  have hCheck : ∀ target, r.Quiet (s.check b target) := fun target =>
    { handed := (pick_check Entry.handed?_ignoresReports s b target).trans hSame.handed
      lib := (link_lib _ _).trans (congrArg ForkGraph.lib hSame.graph)
      disk := hSame.disk }
  cases hProcessed with
  | headless hNone =>
    rw [hHead] at hNone
    cases hNone
  | @absent target' => exact { hCheck target' with }
  | @gap target' first =>
    have hLike := f.wait_resembles ((s.check b target').awaiting first.parent)
    exact {
      handed := (hLike.pick_eq Entry.handed?_ignoresReports).trans (hCheck target').handed
      lib := (congrArg ForkGraph.lib hLike.graph).trans (hCheck target').lib
      disk := hLike.disk.trans (hCheck target').disk }
  | halted hHead' hReach | refused hHead' hReach | unsaved hHead' hReach | connected hHead' hReach =>
    cases hHead.symm.trans hHead'
    rw [hReach] at hReached
    cases hReached

/-- What firing a path makes of a run. Besides reports and a checkpoint, all that is written comes from the firing; the
run ends as the firing does; and unless something fails, the number after the path's last block is next. -/
structure Delivers (f : Feed τ) (path : List Node) (g : ForkGraph) (s r' : Run τ) : Prop where
  pick : ∀ {α : Type} {p : Entry → Option α}, Entry.IgnoresReports p → (∀ n, p (.note n) = none) →
    (∀ c, p (.stored c) = none) → r'.journal.pick p = s.journal.pick p ++
      (fire f.sink f.config.start path g s.sinkState).entries.filterMap p
  halted : ∀ e, (fire f.sink f.config.start path g s.sinkState).ending = some e → r'.ending = some e
  next : r'.ending = none ∨ r'.ending = some .finished →
    ∃ last, path.getLast? = some last ∧ last.num ≠ BlockNum.highest ∧ r'.next = last.num + 1

theorem Processed.delivers (h : f.Processed b s r') (hHead : (s.link b).cursor.head = some target)
    (hReach : ((s.link b).graph.segmentTo target).reachesLib = true) :
    f.Delivers ((s.link b).graph.segmentTo target).nodes (s.link b).graph s r' := by
  have hOver : ∀ {α : Type} {p : Entry → Option α}, Entry.IgnoresReports p → ∀ path target,
      (f.handOver path (s.check b target)).journal.pick p = s.journal.pick p ++
        (fire f.sink f.config.start path (s.link b).graph s.sinkState).entries.filterMap p := by
    intro α p hp path target
    rw [handOver_journal, Journal.pick_record, pick_check hp]
    rfl
  -- a path that reaches the LIB is fired, unless there is nothing on it
  cases h with
  | headless hNone =>
    rw [hHead] at hNone
    cases hNone
  | gap hHead' hMissed =>
    cases hHead.symm.trans hHead'
    rw [hReach] at hMissed
    cases hMissed
  | absent hHead' hNil =>
    cases hHead.symm.trans hHead'
    rw [hNil]
    refine ⟨fun hp _ _ => ?_, nofun, by simp⟩
    rw [Run.close_journal, pick_check hp]
    exact (List.append_nil _).symm
  | @halted _ e hHead' _ hHalt =>
    cases hHead.symm.trans hHead'
    refine ⟨fun hp _ _ => hOver hp _ _, fun e' hEnding => hHalt.symm.trans hEnding, ?_⟩
    rintro (hNone | hFinished)
    · cases hNone
    · cases hFinished
      exact absurd hHalt (fire_ending_ne (fun _ _ _ hHalts => by cases hHalts) _ _ _ _ _)
  | refused hHead' _ hFired hOver' =>
    cases hHead.symm.trans hHead'
    subst hOver'
    refine ⟨fun hp _ _ => ?_, fun _ hHalt => absurd (hFired.symm.trans hHalt) nofun, by simp⟩
    exact ((resembles_record_note rfl _).pick_eq hp).trans (hOver hp _ _)
  | unsaved hHead' _ _ hFired hOver' _ hUnsaved =>
    cases hHead.symm.trans hHead'
    subst hOver'
    refine ⟨fun hp hNote _ => ?_, fun _ hHalt => absurd (hFired.symm.trans hHalt) nofun, fun hUnfailed => ?_⟩
    · rw [hUnsaved.journal_eq, pick_advance hp fun _ _ => hNote _]
      exact hOver hp _ _
    · cases hUnsaved <;> simp at hUnfailed
  | @connected _ last _ t _ _ hHead' _ hLast hFired hOver' _ hSaved =>
    cases hHead.symm.trans hHead'
    subst hOver'
    refine ⟨fun hp hNote hStored => ?_, fun _ hHalt => absurd (hFired.symm.trans hHalt) nofun, fun hUnfailed => ?_⟩
    · rw [(f.goOn_resembles _ _).pick_eq hp, hSaved.pick_eq hp hStored, pick_advance hp fun _ _ => hNote _]
      exact hOver hp _ _
    · obtain ⟨-, hClosed⟩ | ⟨hLow, hSame | ⟨n, -, hClosed⟩⟩ := f.goOn_cases last.toLink t
      · rw [hClosed] at hUnfailed
        simp [Ending.overflow] at hUnfailed
      · exact ⟨last, hLast, hLow, by rw [hSame]; rfl⟩
      · exact ⟨last, hLast, hLow, by rw [hClosed]; rfl⟩

/-- All that is due on a path that is fired is handed over, as far as the sink accepts it. -/
theorem Delivers.handsOver {path : Segment} {g : ForkGraph} (h : f.Delivers path.nodes g s r')
    (hContent : ∀ n ∈ path.nodes, n.fired = false → n.content.isSome = true)
    (hFilled : ∀ n ∈ path.nodes, ∀ b, n.content = some b → b.ref = n.block) :
    Run.HandsOver (path.due f.config.start) s r' := by
  have hHanded := h.pick Entry.handed?_ignoresReports (fun _ => rfl) (fun _ => rfl)
  have hAccepted := h.pick Entry.accepted?_ignoresReports (fun _ => rfl) (fun _ => rfl)
  obtain ⟨passed, left, last, hPasses⟩ := fire_passes f.sink f.config.start path.nodes g s.sinkState
  rw [hPasses.accepted_eq] at hAccepted
  rw [hPasses.entries, List.filterMap_append, filterMap_deliveries (fun _ => rfl) (fun _ => rfl)] at hHanded
  obtain ⟨-, rfl, rfl⟩ | ⟨b', rest, e, hDue, hLast, hEnding, hFailed⟩ := hPasses.hands hContent hFilled
  · rw [List.filterMap_nil, List.append_nil] at hHanded
    exact .all hHanded hAccepted
  · rw [hLast] at hHanded
    exact .upTo hDue hHanded hAccepted (h.halted e hEnding) hFailed

/-! ## One iteration -/

/-- The iteration from `r` to `r'` linked `b` and sought the path to `target`. If that did not reach the LIB, nothing
was done. If it did, all that is due on it was handed over, and unless something failed the number after `target`'s
is next. -/
structure Seeks (f : Feed τ) (r : Run τ) (b : Block) (target : BlockRef) (reached : Bool) (r' : Run τ) : Prop where
  head : r'.cursor.head = some target
  way : ∃ lib, r.graph.lib = some lib ∧
    (r.graph.link (.fresh b)).Completes lib target ((r.graph.link (.fresh b)).segmentTo target).links reached
  due : (((r.graph.link (.fresh b)).segmentTo target).due f.config.start).map Block.ref =
    (((r.graph.link (.fresh b)).segmentTo target).nodes.filter (Node.isDue f.config.start)).map (·.block)
  missed : reached = false → r.Quiet r'
  handsOver : reached = true → Run.HandsOver (((r.graph.link (.fresh b)).segmentTo target).due f.config.start) r r'
  next : reached = true → r'.ending = none ∨ r'.ending = some .finished →
    ∃ last, (r.graph.link (.fresh b)).find? target.id = some last ∧ last.num ≠ BlockNum.highest ∧
      r'.next = last.num + 1

theorem Checks.seeks (h : f.Checks r b r' reached) (hCoherent : r.Coherent) (hFilled : r.graph.Filled)
    (hTarget : r'.cursor.head = some target) : f.Seeks r b target reached r' := by
  have hQuiet : reached = false → r.Quiet r' := fun hMissed => (hMissed ▸ h).quiet
  obtain @⟨s, target', -, hTakes, hProcessed, hHead⟩ := h
  cases (hProcessed.cursor_head.symm.trans hTarget).symm.trans hHead
  obtain ⟨lib, hLib⟩ := hCoherent.lib
  have hGraph : (s.link b).graph = r.graph.link (.fresh b) := congrArg (·.link (.fresh b)) hTakes.sameBut.graph
  rw [hGraph]
  have hKept : (r.graph.link (.fresh b)).lib = some lib := (link_lib _ _).trans hLib
  have hContent : ∀ n ∈ ((r.graph.link (.fresh b)).segmentTo target).nodes, n.fired = false → n.content.isSome = true :=
    fun n hn => hCoherent.content_link b n (mem_of_mem_segmentTo hn)
  have hFits : ∀ n ∈ ((r.graph.link (.fresh b)).segmentTo target).nodes, ∀ b', n.content = some b' → b'.ref = n.block :=
    fun n hn => hFilled.link b n (mem_of_mem_segmentTo hn)
  have hDelivers : ((r.graph.link (.fresh b)).segmentTo target).reachesLib = true →
      f.Delivers ((r.graph.link (.fresh b)).segmentTo target).nodes (r.graph.link (.fresh b)) s r' :=
    fun hReach => hGraph ▸ hProcessed.delivers hHead (hGraph ▸ hReach)
  refine ⟨hTarget, ⟨lib, hLib, completes_segmentTo hKept target⟩, map_ref_delivered? hContent hFits, hGraph ▸ hQuiet,
    fun hReach => ((hDelivers hReach).handsOver hContent hFits).of_sameBut hTakes.sameBut, fun hReach hUnfailed => ?_⟩
  obtain ⟨last, hLast, hLow, hNext⟩ := (hDelivers hReach).next hUnfailed
  exact ⟨last, (getLast?_segmentTo hKept).symm.trans hLast, hLow, hNext⟩

end Feed

/-! ## All iterations together -/

namespace Session

theorem coherent_after (s : Session) (n : Nat) (hRunning : (s.after n).ending = none) : (s.after n).Coherent :=
  (s.feed.after_induction s.begun.sane (fun _ _ hSane hStepped => hStepped.sane hSane) n).2 hRunning

section

variable {s : Session} {m k : Nat} {b : Nat → Block} (hNone : (s.after m).cursor.awaited = none)
  (hMisses : ∀ i < k, s.feed.Checks (s.after (m + i)) (b i) (s.after (m + i + 1)) false)

include hMisses

theorem quiet_of_misses {i : Nat} (hi : i ≤ k) : (s.after m).Quiet (s.after (m + i)) := by
  induction i with
  | zero => exact Run.quiet_refl _
  | succ i ih => exact (ih (Nat.le_of_lt hi)).trans (hMisses i hi).quiet

include hNone

/-- While the ancestors awaited come in, the head stays the block that the first of them was missing for. -/
theorem cursor_head_of_misses (hAwaited : ∀ i, i + 1 < k → (s.after (m + i + 1)).cursor.awaited = some (b (i + 1)).id)
    {i : Nat} (hi : i < k) : (s.after (m + i + 1)).cursor.head = some (b 0).ref := by
  induction i with
  | zero =>
    rw [(hMisses 0 hi).cursor_head, Nat.add_zero, hNone]
    exact if_neg nofun
  | succ i ih =>
    rw [(hMisses (i + 1) hi).cursor_head]
    exact (if_pos (hAwaited i hi)).trans (ih (by omega))

end

/-- Whatever blocks come in after one that no ancestor was awaited for: as long as each is the ancestor awaited and
the LIB is not reached, nothing is done; the iteration that reaches it hands over what is due on the path to that first
block. An iteration that is given another block than the one awaited seeks the path to that block. -/
theorem gap_closed_in_one_batch {s : Session} {m k : Nat} {b : Nat → Block}
    (hNone : (s.after m).cursor.awaited = none)
    (hMisses : ∀ i < k, s.feed.Checks (s.after (m + i)) (b i) (s.after (m + i + 1)) false)
    (hAwaited : ∀ i, i + 1 < k → (s.after (m + i + 1)).cursor.awaited = some (b (i + 1)).id) :
    (∀ i ≤ k, (s.after m).Quiet (s.after (m + i))) ∧
      ∀ c reached, s.feed.Checks (s.after (m + k)) c (s.after (m + k + 1)) reached →
        s.feed.Seeks (s.after (m + k)) c (if (s.after (m + k)).cursor.awaited = some c.id then (b 0).ref else c.ref)
          reached (s.after (m + k + 1)) := by
  refine ⟨fun i hi => quiet_of_misses hMisses hi, fun c reached hChecks => ?_⟩
  have hRunning : (s.after (m + k)).ending = none := hChecks.processes.1
  refine hChecks.seeks (s.coherent_after _ hRunning) (s.filled_after _) ?_
  rw [hChecks.cursor_head]
  split
  next hFills =>
    cases k with
    -- nothing is awaited yet
    | zero =>
      rw [Nat.add_zero, hNone] at hFills
      cases hFills
    | succ k => exact cursor_head_of_misses hNone hMisses hAwaited (Nat.lt_succ_self k)
  next => rfl

/-- Two ancestors of a block are missing when it comes. The second one is fetched after the first, or another block
is given in its place. -/
def branchingDown (last : Block) : Session where
  sinkType := Unit
  feed := .undisturbed { start := 1, stateDir := some ⟨["state"]⟩ }
  source := .scripted [.plain "1a" 1 "0a" 1, .plain "2a" 2 "1a" 1, .plain "4b" 4 "3b" 1, .plain "3b" 3 "2b" 1, last]
  sinkState := ()
  disk := .empty
  iterations := 5

def branch : Nat → Block
  | 0 => .plain "4b" 4 "3b" 1
  | _ => .plain "3b" 3 "2b" 1

/-- The session in which the ancestor awaited comes. -/
def closingIn : Session := branchingDown (.plain "2b" 2 "1a" 1)

theorem gap_closed_in_one_batch_closingIn :
    (closingIn.after 2).cursor.awaited = none ∧
      (∀ i < 2, closingIn.feed.Checks (closingIn.after (2 + i)) (branch i) (closingIn.after (2 + i + 1)) false) ∧
      (∀ i, i + 1 < 2 → (closingIn.after (2 + i + 1)).cursor.awaited = some (branch (i + 1)).id) ∧
      (∀ i ≤ 2, (closingIn.after 2).Quiet (closingIn.after (2 + i))) ∧
      closingIn.feed.Seeks (closingIn.after 4) (.plain "2b" 2 "1a" 1) ⟨"4b", 4⟩ true closingIn.run := by
  have hNone : (closingIn.after 2).cursor.awaited = none := by decide +kernel
  have hMisses : ∀ i < 2,
      closingIn.feed.Checks (closingIn.after (2 + i)) (branch i) (closingIn.after (2 + i + 1)) false := by
    intro i hi
    refine Feed.checks_of_fetch ⟨"4b", 4⟩ ?_ ?_ ?_ <;> revert i <;> decide +kernel
  have hAwaited : ∀ i, i + 1 < 2 → (closingIn.after (2 + i + 1)).cursor.awaited = some (branch (i + 1)).id := by
    intro i hi
    obtain rfl : i = 0 := by omega
    decide +kernel
  have hReaches : closingIn.feed.Checks (closingIn.after 4) (.plain "2b" 2 "1a" 1) closingIn.run true :=
    Feed.checks_of_fetch ⟨"4b", 4⟩ (by decide +kernel) (by decide +kernel) (by decide +kernel)
  have hFills : (closingIn.after (2 + 2)).cursor.awaited = some (Block.plain "2b" 2 "1a" 1).id := by decide +kernel
  obtain ⟨hQuiet, hSeeks⟩ := gap_closed_in_one_batch hNone hMisses hAwaited
  have hLast := hSeeks _ true hReaches
  rw [if_pos hFills] at hLast
  exact ⟨hNone, hMisses, hAwaited, hQuiet, hLast⟩

example :
    (closingIn.after 4).journal.handed.map Block.id = ["1a", "2a"] ∧
      closingIn.run.journal.handed.map Block.id = ["1a", "2a", "2b", "3b", "4b"] ∧ closingIn.run.next = 5 ∧
      (branchingDown (.plain "3a" 3 "2a" 1)).run.journal.handed.map Block.id = ["1a", "2a", "3a"] := by
  decide +kernel

end Session

end ChainFeed
