import ChainFeed.Proofs.Feed.Sourced

/-! # A chain without the LIB

Once the source serves a chain that the LIB is no block of, a run finds its way back to the chain and goes
down it, without handing anything over. It stops when it would have to ask for a number below the LIB's.
No number is below `0`: over a LIB numbered `0` the run asks for the block numbered `0` for ever.
-/

set_option autoImplicit false

namespace ChainFeed

open ForkGraph

variable {τ : Type}

namespace Feed

variable {f : Feed τ} {c : Chain} {lib : BlockRef} {r : Run τ}

/-- The run goes on over the LIB `lib`, and has no block in hand. -/
structure Stranded (f : Feed τ) (lib : BlockRef) (r : Run τ) : Prop where
  running : r.ending = none
  grounded : f.Grounded r
  pending : r.pending = none
  lib : r.graph.lib = some lib

namespace Stranded

theorem apart (h : f.Stranded lib r) (hAgrees : c.Agrees r.journal.answers) (hApart : c.id lib.num ≠ lib.id) :
    (∀ m, c.id m ≠ lib.id) ∧ c.root ≠ lib.id := by
  obtain ⟨a, ha, hLib⟩ := h.grounded.exists_lib h.running
  cases h.lib.symm.trans hLib
  constructor
  · intro m hId
    have hNum : a.2.num = m := congrArg Link.num (hAgrees.link a ha m hId.symm)
    subst hNum
    exact hApart hId
  · exact fun hId => hAgrees.root a ha hId.symm

/-- Each iteration takes up a block of the chain, and the next number is the parent's of a block that is no
higher up. -/
theorem step (h : f.Stranded lib r) (hGoing : ∀ j, f.stopped j = false)
    (hAgrees : c.Agrees (f.step r).journal.answers) (hServed : c.Serves r (f.step r))
    (hApart : c.id lib.num ≠ lib.id) (hAbove : lib.num ≤ r.next) :
    f.Stranded lib (f.step r) ∧ (∃ j, j ≤ r.next ∧ (f.step r).next = j.back 1) ∧
      (f.step r).journal.handed = r.journal.handed ∧
      (f.step r).journal.answers.length = r.journal.answers.length + 1 := by
  have hNotBelow : r.graph.libNum ≤ r.next := by rwa [libNum_of_lib h.lib]
  obtain ⟨b, s, hTakes, hProcessed, hLink⟩ := exists_processed h.running (hGoing _) hNotBelow hServed
  replace hLink := hLink h.pending
  have hSame : (f.step r).journal.answers = s.journal.answers := hProcessed.answers_eq
  have hMore : s.journal.answers = r.journal.answers ++ [(r.next, b)] := by
    rcases hTakes.answers_eq with ⟨hPending, -⟩ | ⟨-, hMore⟩
    · rw [h.pending] at hPending
      cases hPending
    · exact hMore
  rw [hSame] at hAgrees
  obtain ⟨hOff, hRoot⟩ := h.apart (hAgrees.of_subset hTakes.answers_subset) hApart
  obtain ⟨⟨target, hHead, hMeets⟩, l, hl, hLib, -⟩ := hTakes.linked (h.grounded.live h.running)
  have hNodes := hMeets.segmentTo_ne_nil hLib (contains_of_mem hl)
  have hKept : (s.link b).graph.lib = some lib := by
    rw [Run.link_graph, link_lib, hTakes.sameBut.graph, h.lib]
  obtain ⟨newer, n, older, hLineage, hId, hNewer⟩ := hMeets
  have hSourced := hTakes.sourced_link h.grounded
  have hFits := hSourced.fits hAgrees
  have hn : n.id = c.id r.next := hId.trans (congrArg Link.id hLink)
  -- the way back comes to the chain, and so it misses the LIB
  have hReach := hFits.reachesLib_eq_false hKept hOff hRoot hLineage hn (hNewer lib hKept)
  obtain ⟨first, hFirst, hStep⟩ := hProcessed.gap_of_reachesLib_eq_false hHead hNodes hReach
  rw [wait_of_going (hGoing _)] at hStep
  obtain ⟨j, hj, hBlock, -⟩ := hFits.exists_first_of_gap hKept hLineage hn hReach hFirst
  have hMissing := hSourced.toLink_eq hAgrees (mem_of_mem_segmentTo (List.mem_of_head? hFirst)) hBlock
  refine ⟨⟨?_, (f.stepped r).grounded h.grounded, ?_, ?_⟩, ⟨j, hj, ?_⟩, ?_, ?_⟩
  · rw [hStep]
    exact hTakes.ending_eq.trans h.running
  · rw [hStep]
    exact hTakes.pending_eq_none
  · rw [hStep]
    exact hKept
  · rw [hStep]
    exact congrArg (fun k => k.parent.num) hMissing
  · rw [hStep]
    exact (pick_check Entry.handed?_ignoresReports s b target).trans hTakes.sameBut.handed
  · rw [hSame, hMore, List.length_append]
    rfl

/-- Over a LIB numbered above `0` the next number falls with each iteration, until it is below the LIB. -/
theorem after (h : f.Stranded lib r) (hGoing : ∀ j, f.stopped j = false) (hApart : c.id lib.num ≠ lib.id)
    (n : Nat) (hAgrees : c.Agrees (f.after n r).journal.answers)
    (hServed : c.Serves r (f.after n r)) :
    (f.after n r).journal.handed = r.journal.handed ∧
      (f.Stranded lib (f.after n r) ∧
          (f.after n r).journal.answers.length = r.journal.answers.length + n ∧
          (0 < lib.num → (f.after n r).next.toNat + n ≤ r.next.toNat ∧
            n ≤ r.next.toNat - lib.num.toNat + 1) ∨
        0 < lib.num ∧
          (f.after n r).journal.answers.length ≤
            r.journal.answers.length + (r.next.toNat - lib.num.toNat + 1) ∧
          ∃ m < lib.num, (f.after n r).ending = some (.failed (.invariant (.belowLib m lib.num)))) := by
  induction n with
  | zero => exact ⟨rfl, .inl ⟨h, rfl, fun _ => ⟨Nat.le_refl _, Nat.zero_le _⟩⟩⟩
  | succ n ih =>
    have hStep := f.stepped (f.after n r)
    obtain ⟨hHanded, hCase⟩ := ih (hAgrees.of_subset hStep.answers_isPrefix.subset)
      (hServed.mono (hStep.pick_isPrefix _))
    have hNow : c.Serves (f.after n r) (f.after (n + 1) r) :=
      hServed.of_isPrefix (pick_isPrefix_after _ r (Nat.zero_le n))
    rcases hCase with ⟨hStranded, hLength, hFalls⟩ | ⟨hHigh, hLength, hEnded⟩
    · by_cases hBelow : (f.after n r).next < lib.num
      · have hClosed := step_of_below hStranded.running (hGoing _) (by rwa [libNum_of_lib hStranded.lib])
        rw [libNum_of_lib hStranded.lib] at hClosed
        have hHigh : 0 < lib.num := by grind
        change (f.step (f.after n r)).journal.handed = _ ∧ _
        rw [Feed.after, hClosed]
        refine ⟨hHanded, .inr ⟨hHigh, ?_, _, hBelow, rfl⟩⟩
        rw [Run.close_journal, hLength]
        exact Nat.add_le_add_left (hFalls hHigh).2 _
      · have hNotBelow : lib.num ≤ (f.after n r).next := UInt64.not_lt.mp hBelow
        obtain ⟨hStill, ⟨j, hj, hNext⟩, hSame, hMore⟩ :=
          hStranded.step hGoing hAgrees hNow hApart hNotBelow
        refine ⟨hSame.trans hHanded, .inl ⟨hStill, ?_, fun hHigh => ?_⟩⟩
        · rw [Feed.after, hMore, hLength, Nat.add_assoc]
        · obtain ⟨hFall, -⟩ := hFalls hHigh
          have hLower : (f.after (n + 1) r).next < (f.after n r).next := by
            rw [Feed.after, hNext]
            exact BlockNum.back_one_lt hj (UInt64.lt_of_lt_of_le hHigh hNotBelow)
          rw [UInt64.lt_iff_toNat_lt] at hLower
          rw [UInt64.le_iff_toNat_le] at hNotBelow
          omega
    · obtain ⟨m, hm, hEnd⟩ := hEnded
      rw [Feed.after, f.step_of_ended (by rw [hEnd]; rfl)]
      exact ⟨hHanded, .inr ⟨hHigh, hLength, m, hm, hEnd⟩⟩

end Stranded

end Feed

/-! ## Sessions -/

namespace Session

/-- A session started cold, and since the boundary after `k` iterations a chain is served that its LIB is no
block of. Over a LIB numbered above `0` it hands nothing over any more, and ends as soon as it has gone down
below the LIB. Over a LIB numbered `0` it hands nothing over any more either, but does not end. -/
theorem stranded {s : Session} {c : Chain} {lib : BlockRef} {k : Nat} (hk : k ≤ s.iterations)
    (hCold : s.feed.ColdStarts s.disk) (hGoing : ∀ j, s.feed.stopped j = false)
    (hRunning : (s.after k).ending = none) (hPending : (s.after k).pending = none)
    (hLib : (s.after k).graph.lib = some lib) (hApart : c.id lib.num ≠ lib.id)
    (hAgrees : c.Agrees s.run.journal.answers) (hServed : c.Serves (s.after k) s.run) :
    s.run.journal.handed = (s.after k).journal.handed ∧
      (0 < lib.num →
        s.run.journal.answers.length ≤ (s.after k).journal.answers.length +
          ((s.after k).next.toNat - lib.num.toNat + 1) ∧
        (k + ((s.after k).next.toNat - lib.num.toNat + 1) < s.iterations →
          ∃ m < lib.num, s.run.ending = some (.failed (.invariant (.belowLib m lib.num))))) ∧
      (lib.num = 0 → s.run.ending = none) := by
  obtain ⟨n, hn⟩ := Nat.exists_eq_add_of_le' hk
  have hRun : s.run = s.feed.after n (s.after k) := by
    rw [run, hn, Session.after, s.feed.after_add]
  have hStranded : s.feed.Stranded lib (s.after k) :=
    ⟨hRunning, Feed.grounded_after s.begun hCold k, hPending, hLib⟩
  rw [hRun] at hAgrees hServed ⊢
  obtain ⟨hHanded, hCase⟩ := hStranded.after hGoing hApart n hAgrees hServed
  refine ⟨hHanded, fun hHigh => ?_, fun hZero => ?_⟩
  · rcases hCase with ⟨-, hLength, hFalls⟩ | ⟨-, hLength, hEnded⟩
    · have hShort := (hFalls hHigh).2
      rw [hLength]
      exact ⟨Nat.add_le_add_left hShort _, fun hLong => by omega⟩
    · exact ⟨hLength, fun _ => hEnded⟩
  · rcases hCase with ⟨hStill, -⟩ | ⟨hHigh, -⟩
    · exact hStill.running
    · rw [hZero] at hHigh
      exact absurd hHigh (UInt64.lt_irrefl 0)

/-- Two blocks of one chain, numbered from `start`, are followed by a chain that has another block in the
place of the LIB. -/
def turningAway (start : BlockNum) (others : List BlockNum) (iterations : Nat) : Session where
  sinkType := Unit
  feed := .undisturbed { start := start, retries := 1 }
  source := .reorganising 2 [(Chain.strokes 'a').block start start, (Chain.strokes 'a').block (start + 1) start]
    (others.map fun m => (Chain.strokes 'b').block m start)
  sinkState := ()
  disk := .empty
  iterations := iterations

theorem turningAway_coldStarts (start : BlockNum) (others : List BlockNum) (iterations : Nat) :
    (turningAway start others iterations).feed.ColdStarts (turningAway start others iterations).disk :=
  Feed.coldStarts_of_stateDir_eq_none _ rfl

/-- The LIB is numbered `1`: three blocks of the other chain are taken up, and then the number below it would
have to be asked for. -/
theorem stranded_turningAway :
    let s := turningAway 1 [1, 2, 3] 6
    (s.after 2).next = 3 ∧ s.run.journal.requests = [1, 2, 3, 2, 1] ∧
      s.run.journal.handed = (s.after 2).journal.handed ∧
      ∃ m < 1, s.run.ending = some (.failed (.invariant (.belowLib m 1))) := by
  have hLib : ((turningAway 1 [1, 2, 3] 6).after 2).graph.lib = some ((Chain.strokes 'a').ref 1) := rfl
  have hStranded := stranded (c := .strokes 'b') (by decide) (turningAway_coldStarts 1 [1, 2, 3] 6)
    (fun _ => rfl) rfl rfl hLib (by decide) (Chain.strokes_agrees (by decide +kernel)) (by decide +kernel)
  exact ⟨by decide +kernel, by decide +kernel, hStranded.1, (hStranded.2.1 (by decide)).2 (by decide +kernel)⟩

/-- The LIB is numbered `0`: the parent of the other chain's first block is numbered no lower, so that block is
asked for again and again. -/
theorem turningAway_goes_round :
    let s := turningAway 0 [0, 1, 2] 12
    s.feed.ColdStarts s.disk ∧ (∀ j, s.feed.stopped j = false) ∧ s.feed.config.stopBlock = none ∧
      (s.after 2).ending = none ∧ (s.after 2).graph.lib = some ((Chain.strokes 'a').ref 0) ∧
      (s.after 2).next = 2 ∧ (Chain.strokes 'b').id 0 ≠ (Chain.strokes 'a').id 0 ∧
      (∀ a ∈ s.run.journal.answers, ∀ a' ∈ s.run.journal.answers,
        a.2.id = a'.2.id → a.2.link = a'.2.link) ∧
      (Chain.strokes 'b').Agrees s.run.journal.answers ∧ (Chain.strokes 'b').Serves (s.after 2) s.run ∧
      s.run.ending = none ∧ s.run.journal.requests = [0, 1, 2, 1, 0, 0, 0, 0, 0, 0, 0, 0] :=
  ⟨turningAway_coldStarts 0 [0, 1, 2] 12, fun _ => rfl, rfl, rfl, rfl, by decide +kernel, by decide,
    by decide +kernel, Chain.strokes_agrees (by decide +kernel), by decide +kernel, rfl, by decide +kernel⟩

end Session

end ChainFeed
