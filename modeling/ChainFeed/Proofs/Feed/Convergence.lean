import ChainFeed.Proofs.Feed.Sourced

/-! # Coming back to one chain

Whatever a source did before, once it serves one chain that the LIB is a block of, a run that nothing hinders
goes down that chain until it has closed the gap, and then follows the chain block by block. The path that is
completed first may still be one that was left open before; every path after that ends on the chain.
-/

set_option autoImplicit false

namespace ChainFeed

open ForkGraph

variable {τ : Type}

/-- Blocks are numbered as asked for, and declare the number of their parent. The block numbered `0` has no
parent. -/
structure Numbered (answers : List (BlockNum × Block)) : Prop where
  asked : ∀ a ∈ answers, a.2.num = a.1
  parentNum : ∀ a ∈ answers, a.2.parentNum = a.2.num.back 1
  parent : ∀ a ∈ answers, ∀ a' ∈ answers, a'.2.id = a.2.parentId →
    a.2.num ≠ 0 ∧ a'.2.num = a.2.parentNum

instance (answers : List (BlockNum × Block)) : Decidable (Numbered answers) :=
  decidable_of_iff
    ((∀ a ∈ answers, a.2.num = a.1) ∧ (∀ a ∈ answers, a.2.parentNum = a.2.num.back 1) ∧
      ∀ a ∈ answers, ∀ a' ∈ answers, a'.2.id = a.2.parentId →
        a.2.num ≠ 0 ∧ a'.2.num = a.2.parentNum)
    ⟨fun ⟨hAsked, hParentNum, hParent⟩ => ⟨hAsked, hParentNum, hParent⟩,
      fun h => ⟨h.asked, h.parentNum, h.parent⟩⟩

theorem Numbered.of_subset {answers more : List (BlockNum × Block)} (h : Numbered more)
    (hSub : answers ⊆ more) : Numbered answers where
  asked a ha := h.asked a (hSub ha)
  parentNum a ha := h.parentNum a (hSub ha)
  parent a ha a' ha' := h.parent a (hSub ha) a' (hSub ha')

theorem ForkGraph.Sourced.parent_num_le {g : ForkGraph} {answers : List (BlockNum × Block)}
    (h : g.Sourced answers) (hNumbered : Numbered answers) :
    ∀ n ∈ g.nodes, ∀ p ∈ g.nodes, p.id = n.parent.id → p.num ≤ n.num := by
  intro n hn p hp hId
  obtain ⟨a, ha, hNode, -⟩ := h n hn
  obtain ⟨a', ha', hNode', -⟩ := h p hp
  have hSame : a'.2.id = a.2.parentId :=
    (congrArg Link.id hNode').symm.trans (hId.trans (congrArg (fun l => l.parent.id) hNode))
  obtain ⟨hHigh, hNum⟩ := hNumbered.parent a ha a' ha' hSame
  have hp : p.num = a'.2.num := congrArg Link.num hNode'
  have hn : n.num = a.2.num := congrArg Link.num hNode
  rw [hp, hn, hNum, hNumbered.parentNum a ha, BlockNum.back]
  grind

/-- The last iteration connected the path to `target`. -/
def Run.Connected (r : Run τ) (target : BlockRef) : Prop :=
  r.cursor.awaited = none ∧ r.cursor.head = some target

instance (r : Run τ) (target : BlockRef) : Decidable (r.Connected target) :=
  inferInstanceAs (Decidable (_ ∧ _))

/-- What the head will be once the chain's block with the next number was linked. -/
def Run.goal (c : Chain) (r : Run τ) : Option BlockRef :=
  if r.cursor.awaited = some (c.id r.next) then r.cursor.head else some (c.ref r.next)

theorem Run.goal_of_connected {c : Chain} {r : Run τ} {target : BlockRef} (h : r.Connected target) :
    r.goal c = some (c.ref r.next) := by
  rw [goal, h.1, if_neg (by simp)]

/-- An iteration leaves a gap further down on the way back from the same goal, or it connects the goal. A goal
on the chain leaves the chain fired from the LIB on, and its next block comes next. -/
inductive Run.Approaches (c : Chain) (r r' : Run τ) : Prop where
  | descends (hLib : r'.graph.lib = r.graph.lib) (hFalls : r'.next < r.next) (hGoal : r'.goal c = r.goal c)
      (hAwaits : r'.cursor.awaited ≠ none) : Approaches c r r'
  | connects {target : BlockRef} (hGoal : r.goal c = some target) (hConnected : r'.Connected target)
      (hChain : ∀ t, target = c.ref t → t.next? = some r'.next ∧ c.Fired r'.graph r'.graph.libNum t) :
      Approaches c r r'

namespace Feed

variable {f : Feed τ} {c : Chain} {r r' s : Run τ} {b : Block} {target : BlockRef} {l : BlockNum}

/-- Nothing has hindered the run: nobody stops it, each block was accepted and each checkpoint saved, the source
kept to its numbers and never took a report back, and the chain's ids stood for its own blocks. -/
structure Unhindered (f : Feed τ) (c : Chain) (r : Run τ) : Prop where
  going : ∀ j, f.stopped j = false
  stopBlock : f.config.stopBlock = none
  accepted : ∀ b d, .handed b d ∈ r.journal.entries → d = .accepted
  saved : ∀ e, r.ending ≠ some (.failed (.checkpoint e))
  numbered : Numbered r.journal.answers
  rising : Rising r.journal.answers
  agrees : c.Agrees r.journal.answers
  low : ∀ a ∈ r.journal.answers, a.1 ≠ BlockNum.highest

theorem Unhindered.after {k n : Nat} (h : f.Unhindered c (f.after n r)) (hk : k ≤ n) :
    f.Unhindered c (f.after k r) := by
  have hAnswers : (f.after k r).journal.answers <+: (f.after n r).journal.answers := answers_isPrefix_after r hk
  refine ⟨h.going, h.stopBlock, ?_, ?_, h.numbered.of_subset hAnswers.subset,
    h.rising.sublist hAnswers.sublist, h.agrees.of_subset hAnswers.subset, ?_⟩
  · exact fun b d hHanded => h.accepted b d ((entries_isPrefix_after r hk).subset hHanded)
  · intro e hEnd
    obtain ⟨d, rfl⟩ := Nat.exists_eq_add_of_le' hk
    refine h.saved e ?_
    rw [f.after_add, f.after_of_ended (by rw [hEnd]; rfl), hEnd]
  · exact fun a ha => h.low a (hAnswers.subset ha)

/-- The run goes on with its LIB on the chain, and not above the next number. -/
structure Converging (f : Feed τ) (c : Chain) (r : Run τ) : Prop where
  running : r.ending = none
  grounded : f.Grounded r
  lib : ∃ l, r.graph.lib = some (c.ref l) ∧ l ≤ r.next

/-- The iteration has taken up the chain's block with the next number, and linked it on the way back from
`target`. The LIB is the chain's block numbered `l`. -/
structure Arrives (f : Feed τ) (c : Chain) (r s : Run τ) (b : Block) (target : BlockRef) (l : BlockNum) :
    Prop where
  takes : f.Takes r b s
  link : b.link = c.link r.next
  goal : r.goal c = some target
  head : (s.link b).cursor.head = some target
  meets : (s.link b).graph.Meets target b
  lib : (s.link b).graph.lib = some (c.ref l)
  stored : (s.link b).graph.contains (c.id l) = true
  le : l ≤ r.next
  sourced : (s.link b).graph.Sourced s.journal.answers
  fits : c.Fits (s.link b).graph

theorem Converging.exists_arrives (h : f.Converging c r) (hFree : f.Unhindered c (f.step r))
    (hServed : c.Serves r (f.step r)) :
    ∃ b s target l, f.Arrives c r s b target l ∧ f.Processed b s (f.step r) ∧
      r.graph.lib = some (c.ref l) := by
  obtain ⟨l, hLib, hLe⟩ := h.lib
  have hAbove : r.graph.libNum ≤ r.next := by rwa [libNum_of_lib hLib]
  obtain ⟨b, s, hTakes, hProcessed, hLink⟩ := exists_processed h.running (hFree.going _) hAbove hServed
  have hSame : (f.step r).journal.answers = s.journal.answers := hProcessed.answers_eq
  have hAgrees : c.Agrees s.journal.answers := hSame ▸ hFree.agrees
  replace hLink : b.link = c.link r.next := by
    cases hPending : r.pending with
    | none => exact hLink hPending
    | some first =>
      -- the first block is the LIB itself
      cases hTakes with
      | fetched hNone =>
        rw [hNone] at hPending
        cases hPending
      | pending hPending =>
        obtain ⟨hBegun, hAnswered⟩ := h.grounded.pending b hPending
        have hNum : b.num = r.next := hFree.numbered.asked _ (hSame ▸ hAnswered)
        have hRef : b.ref = c.ref l := by
          rw [hBegun.1] at hLib
          exact Option.some.inj hLib
        have hl : b.num = l := congrArg BlockRef.num hRef
        rw [← hNum, hl]
        exact hAgrees.link _ hAnswered l (congrArg BlockRef.id hRef)
  obtain ⟨⟨target, hHead, hMeets⟩, n, hn, hStill, -⟩ := hTakes.linked (h.grounded.live h.running)
  have hKept : (s.link b).graph.lib = some (c.ref l) := by
    rw [Run.link_graph, link_lib, hTakes.sameBut.graph, hLib]
  have hSourced := hTakes.sourced_link h.grounded
  refine ⟨b, s, target, l, ⟨hTakes, hLink, ?_, hHead, hMeets, hKept, ?_, hLe, hSourced,
    hSourced.fits hAgrees⟩, hProcessed, hLib⟩
  · rw [Run.link_cursor_head, hTakes.sameBut.cursor] at hHead
    rw [← hHead, Run.goal]
    have hId : b.id = c.id r.next := congrArg Link.id hLink
    have hRef : b.ref = c.ref r.next := congrArg Link.block hLink
    simp only [Cursor.fillsGap, hId, hRef, decide_eq_true_eq]
  · rw [hKept, Option.some.injEq] at hStill
    have hId : c.id l = n.id := congrArg BlockRef.id hStill
    exact hId ▸ contains_of_mem hn

namespace Arrives

theorem running (h : f.Arrives c r s b target l) (hProcessed : f.Processed b s r')
    (hGrounded : f.Grounded r) (hRunning : r.ending = none) (hFree : f.Unhindered c r') : r'.ending = none := by
  have hSame : r'.journal.answers = s.journal.answers := hProcessed.answers_eq
  have hOld : s.graph.lib = some (c.ref l) := (link_lib _ _).symm.trans h.lib
  have hNum : b.num = r.next := congrArg Link.num h.link
  refine hProcessed.ending_eq_none (h.takes.ending_eq.trans hRunning) hFree.going hFree.stopBlock h.head
    (h.meets.segmentTo_ne_nil h.lib h.stored) (fun n hn _ => ?_) hOld (fun hReported => ?_) hFree.accepted
    hFree.saved (fun last hLast => ?_)
  · obtain ⟨a, -, -, hContent⟩ := h.sourced n (mem_of_mem_segmentTo hn)
    rw [hContent]
    rfl
  · refine Config.le_libAfter (hNum ▸ h.le) fun hForce => ?_
    rw [h.takes.sameBut.graph] at hOld hReported
    have hReport := h.takes.le_libNum hGrounded.toBacked (hSame ▸ hFree.rising) hForce hReported
    rwa [libNum_of_lib hOld] at hReport
  · obtain ⟨a, ha, hNode, -⟩ := h.sourced last (mem_of_mem_segmentTo (List.mem_of_getLast? hLast))
    have hLastNum : last.num = a.2.num := congrArg Link.num hNode
    rw [← hSame] at ha
    rw [hLastNum, hFree.numbered.asked a ha]
    exact hFree.low a ha

/-- A gap is left where the chain's blocks are not all stored down to the LIB. The chain's next block below is
awaited. -/
theorem gap (h : f.Arrives c r s b target l) (hProcessed : f.Processed b s r') (hFree : f.Unhindered c r')
    (hReach : ((s.link b).graph.segmentTo target).reachesLib = false) :
    ∃ m, l ≤ m ∧ m < r.next ∧ r' = (s.check b target).awaiting (c.ref m) := by
  obtain ⟨first, hFirst, hStep⟩ :=
    hProcessed.gap_of_reachesLib_eq_false h.head (h.meets.segmentTo_ne_nil h.lib h.stored) hReach
  obtain ⟨newer, n, older, hLineage, hId, -⟩ := h.meets
  have hn : n.id = c.id r.next := hId.trans (congrArg Link.id h.link)
  obtain ⟨j, hj, hBlock, hLow⟩ := h.fits.exists_first_of_gap h.lib hLineage hn hReach hFirst
  have hAbove := hLow l rfl h.le
  have hHigh : j ≠ 0 := by grind
  have hSame : r'.journal.answers = s.journal.answers := hProcessed.answers_eq
  have hMissing := h.sourced.toLink_eq (hSame ▸ hFree.agrees)
    (mem_of_mem_segmentTo (List.mem_of_head? hFirst)) hBlock
  have hParent : first.parent = c.ref (j - 1) := by
    have hBack : j.back 1 = j - 1 := if_pos (by grind)
    rw [hMissing, Chain.link, Chain.parentId_of_ne_zero hHigh, hBack]
    rfl
  refine ⟨j - 1, by grind, by grind, ?_⟩
  rw [hStep, hParent]
  exact wait_of_going (hFree.going _)

/-- A path that reaches the LIB is fired as a whole, and the LIB stays on the chain. -/
theorem connected (h : f.Arrives c r s b target l) (hProcessed : f.Processed b s r')
    (hFree : f.Unhindered c r') (hRunning : r'.ending = none)
    (hReach : ((s.link b).graph.segmentTo target).reachesLib = true) :
    r'.Connected target ∧ ∃ l', r'.graph.lib = some (c.ref l') ∧ l' ≤ r'.next ∧
      ∀ t, target = c.ref t → t.next? = some r'.next ∧ c.Fired r'.graph l' t := by
  have hSame : r'.journal.answers = s.journal.answers := hProcessed.answers_eq
  have hParents := h.sourced.parent_num_le (hSame ▸ hFree.numbered)
  have hHead := h.head
  cases hProcessed with
  | headless | absent | halted | refused => cases hRunning
  | unsaved _ _ _ _ _ _ hUnsaved => exact absurd hRunning hUnsaved.ending_ne_none
  | gap hHead' hReach' =>
    cases hHead.symm.trans hHead'
    rw [hReach] at hReach'
    cases hReach'
  | @connected _ last s' t graph move hHead' _ hLast hFired hOver hMove hSaved =>
    cases hHead.symm.trans hHead'
    have hGraph := handOver_graph_of_fired hFired hOver
    have hStill : s'.graph.lib = some (c.ref l) := by rw [hGraph, markAll_lib, h.lib]
    have hAdvance := advance_of_advanceLib hStill hMove
    rw [hGraph] at hAdvance
    -- the new LIB is on the path just fired, and on the chain
    obtain ⟨k, hk, hkId⟩ := contains_iff_exists.mp h.stored
    have hkBlock := h.fits.block_eq hk hkId
    obtain ⟨m, hm, hNew, -, -⟩ :=
      h.meets.anchored_of_advance hk (hkBlock ▸ h.lib) hReach (hkBlock ▸ hAdvance)
    obtain ⟨l', hLib', hUp, -⟩ :=
      h.fits.exists_lib_of_advance h.lib h.le (congrArg Link.id h.link) hAdvance
    obtain ⟨hLow, hNext⟩ := f.next_goOn_of_running hRunning
    obtain ⟨hAfter, hCursor, -⟩ := hSaved.goOn_eq hOver
    refine ⟨⟨congrArg Cursor.awaited hCursor, ?_⟩, l', hAfter ▸ hLib', ?_, ?_⟩
    · rw [hCursor]
      exact hHead
    · have hNum : m.num = l' := congrArg BlockRef.num (Option.some.inj (hNew.symm.trans hLib'))
      rw [hNext, ← hNum]
      exact BlockNum.le_succ_of_le (num_le_of_getLast?_segmentTo hParents hm hLast) hLow
    · rintro t rfl
      have hLastNum : last.num = t :=
        h.fits.num last (mem_of_mem_segmentTo (List.mem_of_getLast? hLast)) t (id_of_getLast?_segmentTo hLast)
      have hForward : last.num.next? = some (last.num + 1) := if_neg hLow
      refine ⟨hNext ▸ hLastNum ▸ hForward, fun i hLow' hHigh' => ?_⟩
      have hDown := h.fits.down_segmentTo h.lib h.stored hReach
      obtain ⟨n, hn, hBlock⟩ := hDown.exists_mem (UInt64.le_trans hUp hLow') hHigh'
      rw [List.mem_reverse] at hn
      refine ⟨_, ?_, ?_, markedIn_newlyFired hn⟩
      · rw [hAfter, mem_purge, hAdvance.nodes_eq, libNum_of_lib hLib', Node.markedIn_num]
        refine ⟨markedIn_mem_markAll (mem_of_mem_segmentTo hn) _, ?_⟩
        have hNum : n.num = i := congrArg BlockRef.num hBlock
        exact hNum ▸ hLow'
      · rw [Node.markedIn_toLink, hBlock]

theorem reachesLib_of_fired (h : f.Arrives c r s b (c.ref r.next) l) {t : BlockNum}
    (hNext : t.next? = some r.next) (hFired : c.Fired r.graph l t) :
    ((s.link b).graph.segmentTo (c.ref r.next)).reachesLib = true := by
  refine h.fits.reachesLib_of_holds h.lib (fun m hLow hHigh => ?_) h.le
  rw [Run.link_graph, h.takes.sameBut.graph]
  rcases BlockNum.le_or_eq_of_next? hNext hHigh with hOld | rfl
  · obtain ⟨n, hn, hId⟩ := contains_iff_exists.mp (hFired.holds m hLow hOld)
    exact contains_iff_exists.mpr ⟨n, mem_link_of_mem hn, hId⟩
  · have hId : b.id = c.id r.next := congrArg Link.id h.link
    exact hId ▸ contains_link_self r.graph (.fresh b)

end Arrives

namespace Converging

theorem step (h : f.Converging c r) (hFree : f.Unhindered c (f.step r)) (hServed : c.Serves r (f.step r)) :
    f.Converging c (f.step r) ∧ r.Approaches c (f.step r) := by
  obtain ⟨b, s, target, l, hArrives, hProcessed, hLib⟩ := h.exists_arrives hFree hServed
  have hRunning := hArrives.running hProcessed h.grounded h.running hFree
  have hGrounded := (f.stepped r).grounded h.grounded
  cases hReach : ((s.link b).graph.segmentTo target).reachesLib with
  | false =>
    obtain ⟨m, hLow, hBelow, hStep⟩ := hArrives.gap hProcessed hFree hReach
    have hKept : (f.step r).graph.lib = some (c.ref l) := hStep ▸ hArrives.lib
    have hNext : (f.step r).next = m := by rw [hStep]; rfl
    refine ⟨⟨hRunning, hGrounded, l, hKept, hNext ▸ hLow⟩,
      .descends (hKept.trans hLib.symm) (hNext ▸ hBelow) ?_ ?_⟩
    · rw [hArrives.goal, Run.goal, hNext, hStep]
      exact (if_pos rfl).trans hArrives.head
    · rw [hStep]
      exact Option.some_ne_none _
  | true =>
    obtain ⟨hConnected, l', hLib', hLe', hTarget⟩ := hArrives.connected hProcessed hFree hRunning hReach
    refine ⟨⟨hRunning, hGrounded, l', hLib', hLe'⟩, .connects hArrives.goal hConnected ?_⟩
    rw [libNum_of_lib hLib']
    exact hTarget

theorem onward (h : f.Converging c r) (hFree : f.Unhindered c (f.step r)) (hServed : c.Serves r (f.step r))
    {t : BlockNum} (hConnected : r.Connected (c.ref t)) (hNext : t.next? = some r.next)
    (hFired : c.Fired r.graph r.graph.libNum t) : (f.step r).Connected (c.ref r.next) := by
  obtain ⟨b, s, target, l, hArrives, hProcessed, hLib⟩ := h.exists_arrives hFree hServed
  have hRunning := hArrives.running hProcessed h.grounded h.running hFree
  cases (Run.goal_of_connected hConnected).symm.trans hArrives.goal
  rw [libNum_of_lib hLib] at hFired
  exact (hArrives.connected hProcessed hFree hRunning (hArrives.reachesLib_of_fired hNext hFired)).1

end Converging

end Feed

/-! ## Sessions -/

namespace Session

/-- What comes of a session, from the boundary after `k` iterations on, once its source serves one chain. -/
structure Converges (s : Session) (c : Chain) (k : Nat) : Prop where
  running : ∀ i, k ≤ i → i ≤ s.iterations → (s.after i).ending = none
  /-- A path is connected within as many iterations as there are numbers from the LIB to the next one. -/
  connects : ∀ i, k ≤ i →
    i + ((s.after i).next.toNat - (s.after i).graph.libNum.toNat) < s.iterations →
    ∃ j, i < j ∧ j ≤ i + ((s.after i).next.toNat - (s.after i).graph.libNum.toNat) + 1 ∧
      ∃ target, (s.after j).Connected target
  /-- At the latest the second path that is connected ends on the chain. -/
  second : ∀ i j target target', k < i → i < j → j ≤ s.iterations → (s.after i).Connected target →
    (s.after j).Connected target' → target' = c.ref target'.num
  /-- After such a path the next number comes next, and all blocks of the chain from the LIB on are fired. -/
  forward : ∀ i t, k < i → i ≤ s.iterations → (s.after i).Connected (c.ref t) →
    t.next? = some (s.after i).next ∧ c.Fired (s.after i).graph (s.after i).graph.libNum t
  /-- And from then on each block is connected at once. -/
  onward : ∀ i t, k < i → i < s.iterations → (s.after i).Connected (c.ref t) →
    (s.after (i + 1)).Connected (c.ref (s.after i).next)

/-- Nothing hinders the session. Since the boundary after `k` iterations one chain is served, and the LIB stays
on it. -/
structure Homing (s : Session) (c : Chain) (k : Nat) : Prop where
  free : s.feed.Unhindered c s.run
  served : c.Serves (s.after k) s.run
  converging : ∀ i, k ≤ i → i ≤ s.iterations → s.feed.Converging c (s.after i)

section

variable {s : Session} {c : Chain} {k i j : Nat} {target target' : BlockRef}

theorem serves_step (hServed : c.Serves (s.after k) s.run) (hk : k ≤ i) (hi : i < s.iterations) :
    c.Serves (s.after i) (s.after (i + 1)) :=
  (hServed.of_isPrefix (Feed.pick_isPrefix_after _ s.beginning hk)).mono
    (Feed.pick_isPrefix_after _ s.beginning hi)

theorem homing_of_serves (hFree : s.feed.Unhindered c s.run) (hServed : c.Serves (s.after k) s.run)
    (hStart : s.feed.Converging c (s.after k)) : s.Homing c k := by
  refine ⟨hFree, hServed, fun i hk => ?_⟩
  induction i, hk using Nat.le_induction with
  | base => exact fun _ => hStart
  | succ i hk ih => exact fun hi => ((ih (by omega)).step (hFree.after hi) (serves_step hServed hk hi)).1

namespace Homing

theorem step (h : s.Homing c k) (hk : k ≤ i) (hi : i < s.iterations) :
    (s.after i).Approaches c (s.after (i + 1)) :=
  ((h.converging i hk (by omega)).step (h.free.after hi) (serves_step h.served hk hi)).2

theorem closer (h : s.Homing c k) (hk : k ≤ i) (hi : i < s.iterations)
    (hLib : (s.after (i + 1)).graph.lib = (s.after i).graph.lib)
    (hFalls : (s.after (i + 1)).next < (s.after i).next) :
    (s.after (i + 1)).next.toNat - (s.after (i + 1)).graph.libNum.toNat <
      (s.after i).next.toNat - (s.after i).graph.libNum.toNat := by
  obtain ⟨l, hOn, hLe⟩ := (h.converging (i + 1) (by omega) hi).lib
  rw [← libNum_congr hLib, libNum_of_lib hOn]
  rw [UInt64.lt_iff_toNat_lt] at hFalls
  rw [UInt64.le_iff_toNat_le] at hLe
  change _ - l.toNat < _ - l.toNat
  omega

theorem exists_connected (h : s.Homing c k) (hk : k ≤ i)
    (hi : i + ((s.after i).next.toNat - (s.after i).graph.libNum.toNat) < s.iterations) :
    ∃ j, i < j ∧ j ≤ i + ((s.after i).next.toNat - (s.after i).graph.libNum.toNat) + 1 ∧
      ∃ target, (s.after j).Connected target := by
  -- by induction on the distance down to the LIB, which every gap makes shorter
  generalize hd : (s.after i).next.toNat - (s.after i).graph.libNum.toNat = d at hi ⊢
  induction d using Nat.strongRecOn generalizing i with
  | ind d ih =>
    cases h.step hk (by omega) with
    | descends hLib hFalls =>
      have hCloser := h.closer hk (by omega) hLib hFalls
      obtain ⟨j, hj, hSoon, hConnected⟩ := ih _ (by omega) (by omega : k ≤ i + 1) rfl (by omega)
      exact ⟨j, by omega, by omega, hConnected⟩
    | connects _ hConnected => exact ⟨i + 1, by omega, by omega, _, hConnected⟩

theorem connected (h : s.Homing c k) (hk : k < i) (hi : i ≤ s.iterations)
    (hConnected : (s.after i).Connected target) :
    (s.after (i - 1)).goal c = some target ∧ ∀ t, target = c.ref t →
      t.next? = some (s.after i).next ∧ c.Fired (s.after i).graph (s.after i).graph.libNum t := by
  obtain ⟨i, rfl⟩ := Nat.exists_eq_succ_of_ne_zero (by omega : i ≠ 0)
  cases h.step (by omega : k ≤ i) hi with
  | descends _ _ _ hAwaits => exact absurd hConnected.1 hAwaits
  | connects hGoal hNow hChain =>
    cases hNow.2.symm.trans hConnected.2
    exact ⟨hGoal, hChain⟩

theorem exists_goal (h : s.Homing c k) (hk : k ≤ i) (hFirst : (s.after i).Connected target) (hij : i ≤ j)
    (hj : j ≤ s.iterations) : ∃ t, (s.after j).goal c = some (c.ref t) := by
  -- a gap keeps the goal, and a connected path leaves the chain's next block as the goal
  induction j, hij using Nat.le_induction with
  | base => exact ⟨_, Run.goal_of_connected hFirst⟩
  | succ j hij ih =>
    obtain ⟨t, ht⟩ := ih (by omega)
    cases h.step (by omega : k ≤ j) hj with
    | descends _ _ hGoal => exact ⟨t, hGoal.trans ht⟩
    | connects _ hNow => exact ⟨_, Run.goal_of_connected hNow⟩

theorem eq_ref_of_connected (h : s.Homing c k) (hk : k < i) (hij : i < j) (hj : j ≤ s.iterations)
    (hFirst : (s.after i).Connected target) (hSecond : (s.after j).Connected target') :
    target' = c.ref target'.num := by
  obtain ⟨t, hGoal⟩ := h.exists_goal (by omega) hFirst (by omega : i ≤ j - 1) (by omega)
  obtain ⟨hAimed, -⟩ := h.connected (by omega) hj hSecond
  cases hGoal.symm.trans hAimed
  rfl

end Homing

/-- A session that started cold and that nothing hinders converges to a chain that is served since a boundary
where its LIB is a block of the chain and not above the next number. -/
theorem converges_of_serves (hCold : s.feed.ColdStarts s.disk) (hFree : s.feed.Unhindered c s.run)
    (hRunning : (s.after k).ending = none) {l : BlockNum} (hLib : (s.after k).graph.lib = some (c.ref l))
    (hLe : l ≤ (s.after k).next) (hServed : c.Serves (s.after k) s.run) : s.Converges c k := by
  have hStart : s.feed.Converging c (s.after k) :=
    ⟨hRunning, Feed.grounded_after s.begun hCold k, l, hLib, hLe⟩
  have hHoming := homing_of_serves hFree hServed hStart
  constructor
  case running => exact fun i hk hi => (hHoming.converging i hk hi).running
  case connects => exact fun i hk hi => hHoming.exists_connected hk hi
  case second =>
    exact fun i j target target' hk hij hj hFirst hSecond =>
      hHoming.eq_ref_of_connected hk hij hj hFirst hSecond
  case forward => exact fun i t hk hi hConnected => (hHoming.connected hk hi hConnected).2 t rfl
  case onward =>
    intro i t hk hi hConnected
    obtain ⟨hNext, hFired⟩ := (hHoming.connected hk (by omega) hConnected).2 t rfl
    exact (hHoming.converging i (by omega) (by omega)).onward (hFree.after hi)
      (serves_step hServed (by omega) hi) hConnected hNext hFired

end

/-- A branch is left open over a block of the chain that is not stored yet, and the chain is served since. -/
def closingGaps : Session where
  sinkType := Unit
  feed := .undisturbed { start := 1 }
  source := .scripted [(Chain.strokes 'a').block 1 1, .plain "b2" 2 ((Chain.strokes 'a').id 1) 1,
    .plain "c3" 3 ((Chain.strokes 'a').id 2) 1, (Chain.strokes 'a').block 2 1, (Chain.strokes 'a').block 4 2,
    (Chain.strokes 'a').block 3 2, (Chain.strokes 'a').block 5 2, (Chain.strokes 'a').block 6 4]
  sinkState := ()
  disk := .empty
  iterations := 8

theorem closingGaps_unhindered : closingGaps.feed.Unhindered (.strokes 'a') closingGaps.run where
  going _ := rfl
  stopBlock := rfl
  accepted b d hHanded := by
    have hAll : ∀ e ∈ closingGaps.run.journal.entries, e.accepted? = e.handed? := by decide +kernel
    have hSame := hAll _ hHanded
    cases d with
    | accepted => rfl
    | refused | crashed => cases hSame
  saved e := by
    have hRunning : closingGaps.run.ending = none := rfl
    rw [hRunning]
    simp
  numbered := by decide +kernel
  rising := by decide +kernel
  agrees := Chain.strokes_agrees (by decide +kernel)
  low := by decide +kernel

theorem converges_closingGaps :
    closingGaps.Converges (.strokes 'a') 3 ∧ (closingGaps.after 4).Connected ⟨"c3", 3⟩ ∧
      (closingGaps.after 6).Connected ((Chain.strokes 'a').ref 4) ∧ (closingGaps.after 8).graph.libNum = 4 :=
  ⟨converges_of_serves (l := 1) (Feed.coldStarts_of_stateDir_eq_none _ rfl) closingGaps_unhindered rfl rfl
    (by decide +kernel) (by decide +kernel), by decide +kernel, by decide +kernel, by decide +kernel⟩

end Session

end ChainFeed
