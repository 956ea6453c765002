import ChainFeed.Proofs.Feed.Anchor
import ChainFeed.Proofs.ForkGraph.BlockTree

/-! # Sources that keep to what is final

Such a source answers from one tree, and with nothing but the LIB and its descendants. Then every path can
be fired, and with parents numbered as their children declare, none that is awaited lies below the LIB. But
a block reports the LIB as it was when the block was produced. So a block of another branch may report a
lower LIB than the graph's, and that ends the run.
-/

set_option autoImplicit false

namespace ChainFeed

open ForkGraph

variable {τ : Type} {t : BlockTree}

/-- What a run keeps while its source answers from the tree, with the LIB and its descendants only. -/
structure Run.Grows (t : BlockTree) (r : Run τ) : Prop where
  live : r.Live
  agrees : ∀ n ∈ r.graph.nodes, t.Agrees n
  above : t.Contiguous → r.graph.libNum ≤ r.next
  aimed : ∀ lib target, r.graph.lib = some lib → r.cursor.awaited.isSome = true →
    r.cursor.head = some target → t.Descends lib.id target.id
  reported : r.graph.libReported = true →
    ∃ a ∈ r.journal.pick Entry.answer?, a.2.libNum = r.graph.libNum
  pending : ∀ b, r.pending = some b →
    r.JustBegun b ∧ ∃ asked, (asked, b) ∈ r.journal.pick Entry.answer?

/-- Whatever was answered between the two runs is the LIB of the first or descends from it. -/
def Run.SparesLib (t : BlockTree) (r r' : Run τ) : Prop :=
  ∀ lib, r.graph.lib = some lib →
    ∀ a ∈ r'.journal.answers.drop r.journal.answers.length, t.Descends lib.id a.2.id

/-- The violations that can end a run over such a source. -/
inductive BlockTree.Violation (t : BlockTree) (lib : BlockRef) (answers : List (BlockNum × Block)) :
    ForkError → Prop where
  /-- The last block answered reports a LIB below the one that a block of another branch reported. -/
  | backward {earlier : List (BlockNum × Block)} {asked : BlockNum} {b : Block} {a : BlockNum × Block}
      (hAnswers : answers = earlier ++ [(asked, b)]) (hDescends : t.Descends lib.id b.id)
      (hLow : b.libNum < lib.num) (hEarlier : a ∈ earlier) (hReported : a.2.libNum = lib.num)
      (hApart : ¬ t.Descends a.2.id b.id) : Violation t lib answers (.libBackward lib.num b.libNum)
  /-- A parent is not numbered as its child declares. -/
  | below {next : BlockNum} (hLow : next < lib.num) (hNumbers : ¬ t.Contiguous) :
      Violation t lib answers (.belowLib next lib.num)

/-- The run grows on, or has ended by one of these violations if by any. -/
structure Run.Abides (t : BlockTree) (r : Run τ) : Prop where
  running : r.ending = none → r.Grows t
  ended : ∀ e, r.ending = some (.failed (.invariant e)) →
    ∃ lib, r.graph.lib = some lib ∧ t.Violation lib (r.journal.pick Entry.answer?) e

theorem Run.Abides.of_no_violation {r : Run τ} {ending : Ending} (hEnding : r.ending = some ending)
    (hCause : ∀ error, ending ≠ .failed (.invariant error)) : r.Abides t where
  running hRunning := by
    rw [hRunning] at hEnding
    cases hEnding
  ended e hEnd := by
    rw [hEnd] at hEnding
    exact absurd (Option.some.inj hEnding).symm (hCause e)

theorem Config.libAfter_of_le {c : Config} {b : Block} (hForce : c.forceFinality = none)
    (h : b.libNum ≤ b.num) (lib : BlockNum) : c.libAfter b lib = b.libNum := by
  rw [libAfter, hForce]
  exact if_pos h

theorem ForkGraph.Advance.reported {g g' : ForkGraph} {lib head : BlockRef} {num : BlockNum}
    {move : LibMove} {answers : List (BlockNum × Block)} (h : Advance g lib head num g' move)
    (hLib : g.lib = some lib)
    (hBefore : g.libReported = true → ∃ a ∈ answers, a.2.libNum = g.libNum)
    (hNow : ∃ a ∈ answers, a.2.libNum = num) (hReported : g'.libReported = true) :
    ∃ a ∈ answers, a.2.libNum = g'.libNum := by
  cases h with
  | belowStart | notFound => exact hBefore hReported
  | confirmed hSame =>
    rw [hSame, ← libNum_of_lib hLib] at hNow
    exact hNow
  | moved hHigh hFound =>
    rw [← num_of_ancestorAt? hFound] at hNow
    exact hNow

namespace Feed

variable {f : Feed τ}

/-- The block taken up was answered, and it is the LIB or descends from it. -/
theorem Takes.answered {r s r' : Run τ} {b : Block} (hTakes : f.Takes r b s) (hGrows : r.Grows t)
    (hAnswers : r'.journal.pick Entry.answer? = s.journal.pick Entry.answer?)
    (hUnder : r.SparesLib t r') :
    (∃ asked, (asked, b) ∈ r'.journal.pick Entry.answer?) ∧
      ∀ lib, r.graph.lib = some lib → t.Descends lib.id b.id := by
  rcases hTakes.answers_eq with ⟨hPending, hSame⟩ | ⟨-, hMore⟩
  · obtain ⟨⟨hGraph, -⟩, asked, hAsked⟩ := hGrows.pending b hPending
    refine ⟨⟨asked, by rw [hAnswers, hSame]; exact hAsked⟩, fun lib hLib => ?_⟩
    rw [hGraph] at hLib
    cases hLib
    exact .self
  · rw [hAnswers, hMore]
    refine ⟨⟨r.next, List.mem_append_right _ (List.mem_singleton_self _)⟩, fun lib hLib => ?_⟩
    refine hUnder lib hLib (r.next, b) ?_
    rw [Journal.answers_eq_pick, Journal.answers_eq_pick, hAnswers, hMore, List.drop_left]
    exact List.mem_singleton_self _

/-- After a block of the tree was linked, the graph agrees with the tree, and the cursor's head is the
LIB or descends from it. -/
theorem Takes.agrees {r s : Run τ} {b : Block} {asked : BlockNum} (hTakes : f.Takes r b s)
    (hGrows : r.Grows t) (hGiven : t.Gives (asked, b))
    (hUnder : ∀ lib, r.graph.lib = some lib → t.Descends lib.id b.id) :
    (∀ n ∈ (s.link b).graph.nodes, t.Agrees n) ∧
      ∀ lib target, (s.link b).graph.lib = some lib → (s.link b).cursor.head = some target →
        t.Descends lib.id target.id := by
  have hSame := hTakes.sameBut
  constructor
  · intro n hn
    rw [Run.link_graph, hSame.graph] at hn
    rcases mem_link.mp hn with hn | ⟨rfl, -⟩
    · exact hGrows.agrees n hn
    · exact hGiven.agrees
  · intro lib target hLib hHead
    rw [Run.link_graph, link_lib, hSame.graph] at hLib
    rw [Run.link_cursor_head, hSame.cursor] at hHead
    split at hHead
    next hFills =>
      have hAwaited : r.cursor.awaited = some b.id := by simpa [Cursor.fillsGap] using hFills
      exact hGrows.aimed lib target hLib (by rw [hAwaited]; rfl) hHead
    next =>
      cases hHead
      exact hUnder lib hLib

theorem Processed.grows {r s r' : Run τ} {b : Block} {asked : BlockNum} (h : f.Processed b s r')
    (hTakes : f.Takes r b s) (hGrows : r.Grows t) (hForce : f.config.forceFinality = none)
    (hGiven : t.Gives (asked, b)) (hAnswered : (asked, b) ∈ r'.journal.pick Entry.answer?)
    (hUnder : ∀ lib, r.graph.lib = some lib → t.Descends lib.id b.id) (hRunning : r'.ending = none) :
    r'.Grows t := by
  have hLive := h.live hTakes hGrows.live hRunning
  have hPending : r'.pending = none := h.pending_eq.trans hTakes.pending_eq_none
  obtain ⟨hAgrees, hDescends⟩ := hTakes.agrees hGrows hGiven hUnder
  obtain ⟨-, l, hl, hLib, -⟩ := hTakes.linked hGrows.live
  have hReported : (s.link b).graph.libReported = true →
      ∃ a ∈ r'.journal.pick Entry.answer?, a.2.libNum = (s.link b).graph.libNum := by
    intro hReported
    rw [Run.link_graph, link_libReported, hTakes.sameBut.graph] at hReported
    rw [Run.link_graph, link_libNum, hTakes.sameBut.graph]
    obtain ⟨a, ha, hNum⟩ := hGrows.reported hReported
    refine ⟨a, ?_, hNum⟩
    rw [h.answers_eq]
    exact hTakes.answers_subset ha
  cases h with
  | headless | absent | halted | refused => cases hRunning
  | unsaved _ _ _ _ _ _ hUnsaved => exact absurd hRunning hUnsaved.ending_ne_none
  | @gap target first hHead hReach hFirst =>
    rw [f.wait_of_running hRunning] at hLive hPending hReported ⊢
    have hTarget : t.Descends l.id target.id := hDescends l.block target hLib hHead
    refine ⟨hLive, hAgrees, fun hContiguous => ?_, fun lib goal hLib' _ hGoal => ?_, hReported, ?_⟩
    · change (s.link b).graph.libNum ≤ first.parent.num
      rw [libNum_of_lib hLib]
      exact hTarget.le_of_gap hAgrees hContiguous hl hLib hReach hFirst
    · exact hDescends lib goal hLib' hGoal
    · intro c hc
      rw [hPending] at hc
      cases hc
  | @connected target last s' v graph move hHead hReach hLast hFired hOver hMove hSaved =>
    obtain ⟨l', hl', hOld, -, hMeets, hAdvance⟩ := hTakes.advance_of_settled hGrows.live hHead hFired hOver hMove
    obtain ⟨m, hm, hNew, -⟩ := hMeets.anchored_of_advance hl' hOld hReach hAdvance
    obtain ⟨hGraph, hCursor, -⟩ := hSaved.goOn_eq hOver
    obtain ⟨hBelowHighest, hNext⟩ := f.next_goOn_of_running hRunning
    refine ⟨hLive, fun n hn => ?_, fun hContiguous => ?_, fun _ _ _ hAwaited => ?_, fun hNow => ?_, ?_⟩
    · rw [hGraph, mem_purge, hAdvance.nodes_eq] at hn
      obtain ⟨k, hk, rfl⟩ := mem_markAll.mp hn.1
      exact (hAgrees k hk).markedIn _
    · rw [hGraph, purge_libNum, libNum_of_lib hNew, hNext]
      have hLow : m.num ≤ last.num := BlockTree.num_le_of_mem_segmentTo hAgrees hContiguous hm hLast
      exact BlockNum.le_succ_of_le hLow hBelowHighest
    · rw [hCursor] at hAwaited
      cases hAwaited
    · rw [hGraph] at hNow ⊢
      refine hAdvance.reported (by rw [markAll_lib]; exact hOld) (by simpa using hReported) ?_ hNow
      have hLow : b.libNum ≤ b.num := t.libNum_le hGiven.header
      exact ⟨_, hAnswered, (f.config.libAfter_of_le hForce hLow _).symm⟩
    · intro c hc
      rw [hPending] at hc
      cases hc

/-- While a run goes on as it should, a block can end it as a violation only by reporting a LIB below one
that was reported before. -/
theorem Processed.violation {r s r' : Run τ} {b : Block} {asked : BlockNum} {e : ForkError}
    (h : f.Processed b s r') (hTakes : f.Takes r b s) (hGrows : r.Grows t)
    (hForce : f.config.forceFinality = none) (hGiven : t.Gives (asked, b))
    (hUnder : ∀ lib, r.graph.lib = some lib → t.Descends lib.id b.id) (hBefore : r.ending = none)
    (hEnd : r'.ending = some (.failed (.invariant e))) :
    ∃ lib, r.graph.lib = some lib ∧ r'.graph.lib = some lib ∧ r.graph.libReported = true ∧
      b.libNum < lib.num ∧ e = .libBackward lib.num b.libNum := by
  have hRunning : s.ending = none := hTakes.ending_eq.trans hBefore
  obtain ⟨hAgrees, -⟩ := hTakes.agrees hGrows hGiven hUnder
  obtain ⟨⟨goal, hGoal, hMeets⟩, l, hl, hLib, -⟩ := hTakes.linked hGrows.live
  cases h with
  | headless hHead =>
    rw [hGoal] at hHead
    cases hHead
  | absent hHead hPath =>
    cases hGoal.symm.trans hHead
    exact absurd hPath (hMeets.segmentTo_ne_nil hLib (contains_of_mem hl))
  | @gap target first =>
    rcases f.wait_cases ((s.check b target).awaiting first.parent) with hSame | hClosed
    · rw [hSame] at hEnd
      exact absurd (hEnd.symm.trans hRunning) (by simp)
    · rw [hClosed] at hEnd
      cases hEnd
  | @halted target _ hHead hReach hHalt =>
    cases hEnd
    have hContent : ∀ n ∈ ((s.link b).graph.segmentTo target).nodes,
        n.fired = false → n.content.isSome = true :=
      fun n hn _ => (hAgrees n (mem_of_mem_segmentTo hn)).content
    exact absurd hHalt (fire_ending_ne_invariant f.sink f.config.start hContent _ _ e)
  | @refused target s' _ hHead hReach hFired hOver hError =>
    cases hEnd
    have hGraph := handOver_graph_of_fired hFired hOver
    have hOld : r.graph.lib = some l.block := by
      rw [← hLib, Run.link_graph, link_lib, hTakes.sameBut.graph]
    have hStill : s'.graph.lib = some l.block := by
      rw [hGraph, markAll_lib]
      exact hLib
    have hSame : s'.graph.libReported = r.graph.libReported := by
      rw [hGraph, markAll_libReported, Run.link_graph, link_libReported, hTakes.sameBut.graph]
    have hLibNum : b.libNum ≤ b.num := t.libNum_le hGiven.header
    rw [f.config.libAfter_of_le hForce hLibNum] at hError
    obtain ⟨hReported, hLow, hBack⟩ := advanceLib_error hStill hError
    exact ⟨l.block, hOld, hStill, hSame ▸ hReported, hLow, hBack⟩
  | unsaved _ _ _ _ _ _ hUnsaved =>
    cases hUnsaved <;> cases hEnd
  | @connected target last s' v graph move hHead hReach hLast hFired hOver hMove hSaved =>
    have hGoing : v.ending = none := (hSaved.goOn_eq hOver).2.2.trans hRunning
    rcases f.goOn_cases last.toLink v with ⟨-, hClosed⟩ | ⟨-, hSame | ⟨n, -, hClosed⟩⟩
    · rw [hClosed] at hEnd
      cases hEnd
    · rw [hSame] at hEnd
      exact absurd (hEnd.symm.trans hGoing) (by simp)
    · rw [hClosed] at hEnd
      cases hEnd

theorem Processed.abides {r s r' : Run τ} {b : Block} (h : f.Processed b s r') (hTakes : f.Takes r b s)
    (hGrows : r.Grows t) (hBefore : r.ending = none) (hForce : f.config.forceFinality = none)
    (hGiven : ∀ a ∈ r'.journal.pick Entry.answer?, t.Gives a) (hUnder : r.SparesLib t r') :
    r'.Abides t := by
  obtain ⟨⟨asked, hAnswered⟩, hDescends⟩ := hTakes.answered hGrows h.answers_eq hUnder
  have hBlock : t.Gives (asked, b) := hGiven _ hAnswered
  refine ⟨h.grows hTakes hGrows hForce hBlock hAnswered hDescends, fun e hEnd => ?_⟩
  obtain ⟨lib, hOld, hLib, hReported, hLow, rfl⟩ :=
    h.violation hTakes hGrows hForce hBlock hDescends hBefore hEnd
  refine ⟨lib, hLib, ?_⟩
  obtain ⟨a, ha, hNum⟩ := hGrows.reported hReported
  rw [libNum_of_lib hOld] at hNum
  have hMore : r'.journal.pick Entry.answer? = r.journal.pick Entry.answer? ++ [(r.next, b)] := by
    rw [h.answers_eq]
    rcases hTakes.answers_eq with ⟨hPending, -⟩ | ⟨-, hMore⟩
    · -- the LIB that a run starts at was not reported yet
      rw [(hGrows.pending b hPending).1.1] at hReported
      cases hReported
    · exact hMore
  refine .backward hMore (hDescends lib hOld) hLow ha hNum fun hApart => ?_
  have hEarlier : t.Gives a := hGiven a (by rw [hMore]; exact List.mem_append_left _ ha)
  have hUp : a.2.libNum ≤ b.libNum := hApart.libNum_le hEarlier.header hBlock.header
  rw [hNum] at hUp
  exact UInt64.not_lt.mpr hUp hLow

theorem Stepped.abides {r r' : Run τ} (h : f.Stepped r r') (hAbides : r.Abides t)
    (hForce : f.config.forceFinality = none) (hGiven : ∀ a ∈ r'.journal.pick Entry.answer?, t.Gives a)
    (hUnder : r.SparesLib t r') : r'.Abides t := by
  cases h with
  | ended => exact hAbides
  | stopped => exact .of_no_violation rfl (by simp)
  | below hBefore hBelow =>
    refine ⟨fun hRunning => ?_, fun e hEnd => ?_⟩
    · cases hRunning
    · cases hEnd
      rw [Run.close_graph]
      cases hLib : r.graph.lib with
      | none =>
        rw [ForkGraph.libNum, hLib] at hBelow
        exact absurd hBelow (UInt64.not_lt.mpr (UInt64.zero_le))
      | some lib =>
        rw [libNum_of_lib hLib] at hBelow ⊢
        refine ⟨lib, rfl, .below hBelow fun hContiguous => ?_⟩
        have hAbove := (hAbides.running hBefore).above hContiguous
        rw [libNum_of_lib hLib] at hAbove
        exact UInt64.not_lt.mpr hAbove hBelow
  | starved _ _ hFetch =>
    obtain ⟨ending, hEnd, hCause⟩ := f.ending_of_fetch_none hFetch
    exact .of_no_violation hEnd hCause.ne_invariant
  | processed hBefore _ hTakes hProcessed =>
    exact hProcessed.abides hTakes (hAbides.running hBefore) hBefore hForce hGiven hUnder

theorem Begun.abides {disk : Disk} {r : Run τ} (h : f.Begun disk r) (hCold : f.ColdStarts disk)
    (hGiven : ∀ a ∈ r.journal.pick Entry.answer?, t.Gives a) : r.Abides t := by
  cases h with
  | ended hEnding hCause => exact .of_no_violation hEnding hCause.ne_invariant
  | resumed hDir hLoad => exact absurd hLoad (hCold _ _ hDir)
  | @cold b _ hGraph hCursor hNext hPending hEnding hAnswers =>
    have hBegun : r.JustBegun b := ⟨hGraph, hCursor, hPending⟩
    have hNum : b.num = f.config.resolvedStart := by
      rw [hAnswers] at hGiven
      exact (hGiven _ (List.mem_singleton_self _)).num
    refine ⟨fun _ => ⟨live_of_justBegun hBegun, ?_, fun _ => ?_, ?_, ?_, ?_⟩, fun e hEnd => ?_⟩
    · rw [hGraph]
      simp
    · rw [hGraph, hNext, ← hNum]
      exact UInt64.le_refl _
    · rw [hCursor]
      intro _ _ _ hAwaited
      cases hAwaited
    · rw [hGraph]
      intro hReported
      cases hReported
    · intro c hc
      cases hPending.symm.trans hc
      exact ⟨hBegun, f.config.resolvedStart, by rw [hAnswers]; exact List.mem_singleton_self _⟩
    · rw [hEnding] at hEnd
      cases hEnd

end Feed

/-! ## Sessions -/

namespace Session

/-- The source answers from the tree, and while a block is the LIB, with that block or descendants of it. -/
structure Honest (s : Session) (t : BlockTree) : Prop where
  given : ∀ a ∈ s.run.journal.answers, t.Gives a
  final : ∀ k < s.iterations,
    (s.feed.after k s.beginning).SparesLib t (s.feed.after (k + 1) s.beginning)

theorem Honest.of_ancestors {s : Session} (steps : Nat) (hGiven : ∀ a ∈ s.run.journal.answers, t.Gives a)
    (hFinal : ∀ k < s.iterations, ∀ lib ∈ (s.feed.after k s.beginning).graph.lib,
      ∀ a ∈ (s.feed.after (k + 1) s.beginning).journal.answers.drop
        (s.feed.after k s.beginning).journal.answers.length, lib.id ∈ t.ancestors steps a.2.id) :
    s.Honest t where
  given := hGiven
  final k hk lib hLib a ha := BlockTree.descends_of_mem_ancestors (hFinal k hk lib hLib a ha)

theorem Honest.abides {s : Session} (h : s.Honest t) (hCold : s.feed.ColdStarts s.disk)
    (hForce : s.feed.config.forceFinality = none) {k : Nat} (hk : k ≤ s.iterations) :
    (s.feed.after k s.beginning).Abides t := by
  have hGiven : ∀ k ≤ s.iterations,
      ∀ a ∈ (s.feed.after k s.beginning).journal.pick Entry.answer?, t.Gives a :=
    fun k hk a ha => h.given a ((Feed.answers_isPrefix_after s.beginning hk).subset ha)
  induction k with
  | zero => exact s.begun.abides hCold (hGiven 0 hk)
  | succ k ih =>
    have hStep := s.feed.stepped (s.feed.after k s.beginning)
    exact hStep.abides (ih (Nat.le_of_succ_le hk)) hForce (hGiven (k + 1) hk) (h.final k hk)

/-- A session that starts cold over such a source ends as a violation only where the last block reports a
LIB below one that a block of another branch reported, or where a parent is not numbered as declared. -/
theorem violation_of_honest {s : Session} (hCold : s.feed.ColdStarts s.disk)
    (hForce : s.feed.config.forceFinality = none) (hHonest : s.Honest t) {e : ForkError}
    (hEnd : s.run.ending = some (.failed (.invariant e))) :
    ∃ lib, s.run.graph.lib = some lib ∧ t.Violation lib s.run.journal.answers e :=
  (hHonest.abides hCold hForce (Nat.le_refl s.iterations)).ended e hEnd

def branchBefore : List Block :=
  [.plain "100a" 100 "99a" 100, .plain "101a" 101 "100a" 100, .plain "102a" 102 "101a" 101]

/-- A branch above the LIB that `branchBefore` reports, produced while the LIB was lower. -/
def branchSince : List Block :=
  [.plain "100a" 100 "99a" 100, .plain "101a" 101 "100a" 100, .plain "102b" 102 "101a" 100,
    .plain "103b" 103 "102b" 100]

def fallingBack : Session where
  sinkType := Unit
  feed := .undisturbed { start := 100, retries := 1 }
  source := .reorganising 3 branchBefore branchSince
  sinkState := ()
  disk := .empty
  iterations := 5

def bothBranches : BlockTree := .ofBlocks (branchBefore ++ branchSince) (by decide) (by decide)

theorem fallingBack_coldStarts : fallingBack.feed.ColdStarts fallingBack.disk :=
  fallingBack.feed.coldStarts_of_stateDir_eq_none rfl

theorem fallingBack_honest : fallingBack.Honest bothBranches :=
  .of_ancestors 5 (by decide +kernel) (by decide +kernel)

/-- Two blocks whose common parent is numbered above them, whatever they declare. -/
def strayBranch : List Block :=
  [.plain "100b" 100 "105a" 100, .plain "101b" 101 "105a" 100, .plain "105a" 105 "100a" 100]

def strayingOff : Session where
  sinkType := Unit
  feed := .undisturbed { start := 100, retries := 1 }
  source := .reorganising 1 branchBefore strayBranch
  sinkState := ()
  disk := .empty
  iterations := 4

def strayBranches : BlockTree := .ofBlocks (branchBefore ++ strayBranch) (by decide) (by decide)

theorem strayingOff_honest : strayingOff.Honest strayBranches :=
  .of_ancestors 5 (by decide +kernel) (by decide +kernel)

/-- A source that reorganises nothing final, and whose reports never fall along a branch, can still end a
run as a violation, in either way. -/
theorem honest_violations :
    (fallingBack.feed.ColdStarts fallingBack.disk ∧ fallingBack.feed.config.forceFinality = none ∧
      fallingBack.Honest bothBranches ∧ bothBranches.Contiguous ∧
      fallingBack.run.ending = some (.failed (.invariant (.libBackward 101 100)))) ∧
    (strayingOff.feed.ColdStarts strayingOff.disk ∧ strayingOff.feed.config.forceFinality = none ∧
      strayingOff.Honest strayBranches ∧
      strayingOff.run.ending = some (.failed (.invariant (.belowLib 99 100)))) :=
  ⟨⟨fallingBack_coldStarts, rfl, fallingBack_honest, BlockTree.contiguous_ofBlocks (by decide), rfl⟩,
    strayingOff.feed.coldStarts_of_stateDir_eq_none rfl, rfl, strayingOff_honest, rfl⟩

theorem violation_of_honest_fallingBack :
    fallingBack.run.ending = some (.failed (.invariant (.libBackward 101 100))) ∧
      ∃ lib, fallingBack.run.graph.lib = some lib ∧
        bothBranches.Violation lib fallingBack.run.journal.answers (.libBackward 101 100) :=
  ⟨rfl, violation_of_honest fallingBack_coldStarts rfl fallingBack_honest rfl⟩

end Session

end ChainFeed
