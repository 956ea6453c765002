import ChainFeed.Proofs.Feed.Sourced

/-! # Reports that never fall

The number that the LIB is asked to move to is cut at the block's own, which falls while a gap is walked.
It is not below the LIB all the same: a block below the LIB is not fetched, and once the LIB was reported no
later report is below it. A forced LIB number is never below the LIB.
-/

set_option autoImplicit false

namespace ChainFeed

open ForkGraph

variable {τ : Type}

/-- A source that answers each number with a block so numbered, and whose reports never fall. -/
structure Steadfast (answers : List (BlockNum × Block)) : Prop where
  asked : ∀ a ∈ answers, a.2.num = a.1
  rising : Rising answers

instance (answers : List (BlockNum × Block)) : Decidable (Steadfast answers) :=
  decidable_of_iff ((∀ a ∈ answers, a.2.num = a.1) ∧ Rising answers)
    ⟨fun h => ⟨h.1, h.2⟩, fun h => ⟨h.asked, h.rising⟩⟩

theorem Steadfast.of_isPrefix {answers more : List (BlockNum × Block)} (h : Steadfast more)
    (hPrefix : answers <+: more) : Steadfast answers where
  asked a ha := h.asked a (hPrefix.subset ha)
  rising := h.rising.sublist hPrefix.sublist

namespace Feed

variable {f : Feed τ}

/-- Once the LIB was reported, no block taken up asks for a LIB below it. -/
theorem Takes.le_libAfter {r s : Run τ} {b : Block} (hTakes : f.Takes r b s) (hBacked : f.Backed r)
    (hAbove : r.graph.libNum ≤ r.next)
    (hSource : f.config.forceFinality = none → Steadfast s.journal.answers)
    (hReported : r.graph.libReported = true) : r.graph.libNum ≤ f.config.libAfter b r.graph.libNum := by
  cases hForce : f.config.forceFinality with
  | some depth =>
    rw [Config.libAfter, hForce]
    exact BlockNum.le_max_right _ _
  | none =>
    obtain ⟨hAsked, hRising⟩ := hSource hForce
    apply Config.le_libAfter
    · have hNum : b.num = r.next := hAsked _ (hBacked.answered hTakes)
      rw [hNum]
      exact hAbove
    · intro _
      exact hTakes.le_libNum hBacked hRising hForce hReported

/-- Only a number below a LIB that was reported ends a run as a LIB moved backward. -/
theorem Processed.reported_of_libBackward {b : Block} {r r' : Run τ} {current requested : BlockNum}
    (h : f.Processed b r r') (hRunning : r.ending = none)
    (hEnd : r'.ending = some (.failed (.invariant (.libBackward current requested)))) :
    r.graph.libReported = true ∧ f.config.libAfter b r.graph.libNum < r.graph.libNum := by
  cases h with
  | headless | absent => cases hEnd
  | @gap target first =>
    obtain hSame | hClosed := f.wait_cases ((r.check b target).awaiting first.parent)
    · rw [hSame] at hEnd
      exact absurd (hEnd.symm.trans hRunning) (Option.some_ne_none _)
    · rw [hClosed] at hEnd
      cases hEnd
  | halted _ _ hHalt =>
    cases hEnd
    exact absurd hHalt (fire_ending_ne (fun _ _ _ hHalts => by cases hHalts) _ _ _ _ _)
  | @refused target s e _ _ hFired hOver hError =>
    cases hEnd
    have hGraph := handOver_graph_of_fired hFired hOver
    cases hLib : s.graph.lib with
    | none =>
      rw [advanceLib, hLib] at hError
      cases hError
    | some lib =>
      obtain ⟨hReported, hLow, -⟩ := advanceLib_error hLib hError
      rw [← libNum_of_lib hLib] at hLow
      rw [hGraph, markAll_libReported, Run.link_graph, link_libReported] at hReported
      rw [hGraph, markAll_libNum, Run.link_graph, link_libNum] at hLow
      exact ⟨hReported, hLow⟩
  | unsaved _ _ _ _ _ _ hUnsaved => cases hUnsaved <;> cases hEnd
  | @connected _ last _ t _ _ _ _ _ _ hOver _ hSaved =>
    have hGoing : t.ending = none := (hSaved.goOn_eq hOver).2.2.trans hRunning
    obtain ⟨-, hClosed⟩ | ⟨-, hSame | ⟨n, -, hClosed⟩⟩ := f.goOn_cases last.toLink t
    · rw [hClosed] at hEnd
      cases hEnd
    · rw [hSame] at hEnd
      exact absurd (hEnd.symm.trans hGoing) (Option.some_ne_none _)
    · rw [hClosed] at hEnd
      cases hEnd

theorem Stepped.not_libBackward {r r' : Run τ} {current requested : BlockNum} (h : f.Stepped r r')
    (hBacked : f.Backed r) (hSource : f.config.forceFinality = none → Steadfast r'.journal.answers)
    (hBefore : r.ending ≠ some (.failed (.invariant (.libBackward current requested)))) :
    r'.ending ≠ some (.failed (.invariant (.libBackward current requested))) := by
  cases h with
  | ended => exact hBefore
  | stopped | below => simp
  | starved _ _ hFetch =>
    obtain ⟨e, hEnd, hOutside⟩ := f.ending_of_fetch_none hFetch
    rw [hEnd]
    exact fun hSame => hOutside.ne_invariant _ (Option.some.inj hSame)
  | @processed b s _ hRunning hAbove hTakes hProcessed =>
    intro hEnd
    rw [Journal.answers_eq_pick, hProcessed.answers_eq, ← Journal.answers_eq_pick] at hSource
    obtain ⟨hReported, hLow⟩ := hProcessed.reported_of_libBackward (hTakes.ending_eq.trans hRunning) hEnd
    rw [hTakes.sameBut.graph] at hReported hLow
    exact UInt64.not_lt.mpr (hTakes.le_libAfter hBacked hAbove hSource hReported) hLow

end Feed

namespace Session

/-- Over a source whose reports never fall, and over any source at all where finality is forced, no run asks
for a LIB below the one it has. -/
theorem never_libBackward {s : Session}
    (hSource : s.feed.config.forceFinality = none → Steadfast s.run.journal.answers)
    (current requested : BlockNum) :
    s.run.ending ≠ some (.failed (.invariant (.libBackward current requested))) := by
  have hSteadfast : ∀ n ≤ s.iterations, s.feed.config.forceFinality = none →
      Steadfast (s.after n).journal.answers := by
    intro n hn hForce
    refine (hSource hForce).of_isPrefix ?_
    exact Feed.answers_isPrefix_after s.beginning hn
  have hLawful : ∀ n ≤ s.iterations,
      (s.after n).ending ≠ some (.failed (.invariant (.libBackward current requested))) := by
    intro n
    induction n with
    | zero => exact fun _ => s.begun.lawful _ _
    | succ n ih =>
      intro hn
      have hBacked : s.feed.Backed (s.after n) := Feed.backed_after s.begun n
      exact (s.feed.stepped (s.after n)).not_libBackward hBacked (hSteadfast (n + 1) hn) (ih (by omega))
  exact hLawful s.iterations (Nat.le_refl _)

/-- Reports rise, though not with the blocks: one is below the start, one above its own block, and one at a
number that the blocks skip. -/
def risingUnevenly : Session where
  sinkType := Unit
  feed := .undisturbed { start := 100, retries := 1 }
  source := .scripted [.plain "100a" 100 "99a" 98, .plain "101a" 101 "100a" 98, .plain "102b" 102 "101b" 99,
    .plain "101b" 101 "100a" 102, .plain "103c" 103 "101b" 102, .plain "104c" 104 "103c" 103,
    .plain "105d" 105 "104d" 103, .plain "104d" 104 "103c" 104]
  sinkState := ()
  disk := .empty
  iterations := 8

/-- Reports fall, but each block that is two deep counts as final. -/
def forcedUpward : Session where
  sinkType := Unit
  feed := .undisturbed { start := 100, retries := 1, forceFinality := some 2 }
  source := .scripted [.plain "100a" 100 "99a" 100, .plain "101a" 101 "100a" 101, .plain "102a" 102 "101a" 99,
    .plain "103a" 103 "102a" 0]
  sinkState := ()
  disk := .empty
  iterations := 4

theorem never_libBackward_uneven :
    (risingUnevenly.run.graph.lib = some ⟨"104d", 104⟩ ∧ risingUnevenly.run.ending = none ∧
      ∀ current requested,
        risingUnevenly.run.ending ≠ some (.failed (.invariant (.libBackward current requested)))) ∧
    (¬ Steadfast forcedUpward.run.journal.answers ∧
      ∀ current requested,
        forcedUpward.run.ending ≠ some (.failed (.invariant (.libBackward current requested)))) := by
  refine ⟨⟨by decide +kernel, rfl, ?_⟩, by decide +kernel, ?_⟩
  · exact never_libBackward fun _ => by decide +kernel
  · exact never_libBackward fun hForce => by cases hForce

end Session

end ChainFeed
