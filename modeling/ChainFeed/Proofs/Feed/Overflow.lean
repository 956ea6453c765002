import ChainFeed.Feed.Limit
import ChainFeed.Proofs.BlockNum
import ChainFeed.Proofs.Checkpoint.Restore
import ChainFeed.Proofs.Checkpoint.RoundTrip
import ChainFeed.Proofs.Feed.Beginning
import ChainFeed.Proofs.Feed.Turn

/-! # Where a run overflows

There is no number after the highest one, and only two places ask for the number after another: right after a
checkpoint was loaded, and at the end of an iteration in which everything went well. All other numbers and
counters stay in range.
-/

set_option autoImplicit false

namespace ChainFeed

variable {τ : Type}

/-! ## Sources and sinks that do not crash -/

/-- No client of the source ever crashes. -/
inductive Source.Calm : Source → Prop where
  | client {c : Client} (hAnswer : ∀ asked num reason, c.answer asked num ≠ .crashed reason) : Calm (.client c)
  | fallback {clients : List Source} (hClients : ∀ s ∈ clients, Calm s) : Calm (.fallback clients)
  | limited {left : Nat} {inner : Source} (hInner : Calm inner) : Calm (.limited left inner)

structure Sink.Calm (sink : Sink τ) : Prop where
  opening : ∀ s reason, (sink.opening s).1 ≠ .crashed reason
  deliver : ∀ s b reason, (sink.deliver s b).1 ≠ .crashed reason

namespace Source

mutual

theorem calm_fetch : ∀ {s : Source}, s.Calm → ∀ num,
    (s.fetch num).next.Calm ∧ ∀ reason, (s.fetch num).answer ≠ .crashed reason
  | .client c, .client hAnswer, num => ⟨.client hAnswer, hAnswer c.asked num⟩
  | .fallback clients, .fallback hClients, num => by
    obtain ⟨hNext, hCalm⟩ := calm_fetchFirst clients hClients 0 num
    refine ⟨.fallback hNext, fun reason => ?_⟩
    rw [fetch]
    simp only
    cases hAnswer : (fetchFirst clients 0 num).answer with
    | none => simp
    | some answer =>
      rintro rfl
      exact hCalm reason hAnswer
  | .limited 0 inner, .limited hInner, num => ⟨.limited hInner, by simp [fetch]⟩
  | .limited (left + 1) inner, .limited hInner, num => by
    obtain ⟨hNext, hCalm⟩ := calm_fetch hInner num
    exact ⟨.limited hNext, hCalm⟩

theorem calm_fetchFirst : ∀ (clients : List Source), (∀ s ∈ clients, s.Calm) → ∀ index num,
    (∀ s ∈ (fetchFirst clients index num).next, s.Calm) ∧
      ∀ reason, (fetchFirst clients index num).answer ≠ some (.crashed reason)
  | [], _, index, num => ⟨by simp [fetchFirst], by simp [fetchFirst]⟩
  | c :: rest, hClients, index, num => by
    obtain ⟨hFirst, hRest⟩ := List.forall_mem_cons.mp hClients
    obtain ⟨hNext, hCalm⟩ := calm_fetch hFirst num
    obtain ⟨hOthers, hNone⟩ := calm_fetchFirst rest hRest (index + 1) num
    rw [fetchFirst]
    simp only
    split
    next e hFailed => exact ⟨List.forall_mem_cons.mpr ⟨hNext, hOthers⟩, hNone⟩
    next hAnswered =>
      refine ⟨List.forall_mem_cons.mpr ⟨hNext, hRest⟩, fun reason hCrashed => ?_⟩
      exact hCalm reason (Option.some.inj hCrashed)

end

theorem scripted_calm (blocks : List Block) : (scripted blocks).Calm := by
  refine .client fun asked num reason hCrashed => ?_
  cases hBlock : blocks[asked.length]? with
  | some b | none =>
    simp only [hBlock] at hCrashed
    cases hCrashed

theorem Calm.askFrom {s : Source} (h : s.Calm) (num : BlockNum) (attempt left : Nat) :
    (askFrom num attempt left s).next.Calm ∧ ∀ reason, (askFrom num attempt left s).fetched ≠ .crashed reason := by
  induction left generalizing attempt s with
  | zero =>
    obtain ⟨hNext, hCalm⟩ := calm_fetch h num
    rw [Source.askFrom, ask]
    cases hAnswer : (s.fetch num).answer with
    | crashed reason => exact absurd hAnswer (hCalm reason)
    | block b => exact ⟨hNext, by simp⟩
    | failed e => exact ⟨hNext, by simp⟩
  | succ left ih =>
    obtain ⟨hNext, hCalm⟩ := calm_fetch h num
    rw [Source.askFrom, ask]
    cases hAnswer : (s.fetch num).answer with
    | crashed reason => exact absurd hAnswer (hCalm reason)
    | block b => exact ⟨hNext, by simp⟩
    | failed e => exact ih hNext (attempt + 1)

theorem askFrom_counts (num : BlockNum) (attempt left : Nat) (s : Source) :
    (∀ num' count attempts e, .note (.attemptFailed num' count attempts e) ∈ (askFrom num attempt left s).entries →
      attempt ≤ count ∧ count < attempts ∧ attempts = attempt + left) ∧
    ∀ failure, (askFrom num attempt left s).fetched = .exhausted failure → failure.attempts = attempt + left := by
  induction left generalizing attempt s with
  | zero =>
    rw [askFrom, ask]
    cases (s.fetch num).answer with
    | crashed | block => simp
    | failed e =>
      refine ⟨by simp, fun failure hExhausted => ?_⟩
      cases hExhausted
      rfl
  | succ left ih =>
    rw [askFrom, ask]
    cases (s.fetch num).answer with
    | crashed | block => simp
    | failed e =>
      obtain ⟨hNotes, hFailure⟩ := ih (attempt + 1) (s.fetch num).next
      refine ⟨fun num' count attempts e' hNote => ?_, fun failure hExhausted => ?_⟩
      · obtain hNote | hNote := List.mem_cons.mp hNote
        · cases hNote
        obtain hNote | hNote := List.mem_cons.mp hNote
        · cases hNote
          omega
        · have hCounts := hNotes num' count attempts e' hNote
          omega
      · have hCounts := hFailure failure hExhausted
        omega

end Source

theorem Sink.Calm.fire {sink : Sink τ} (h : sink.Calm) (start : BlockNum) (path : List Node) (g : ForkGraph) (s : τ)
    (reason : String) : (fire sink start path g s).ending ≠ some (.crashed reason) := by
  induction path generalizing g s with
  | nil => simp [ChainFeed.fire]
  | cons n path ih =>
    rw [ChainFeed.fire]
    by_cases hFired : n.fired = true
    · rw [if_pos hFired]
      exact ih g s
    rw [if_neg hFired]
    by_cases hBelow : n.num < start
    · rw [if_pos hBelow]
      exact ih _ s
    rw [if_neg hBelow]
    cases n.content with
    | none => simp
    | some b =>
      rcases hDeliver : sink.deliver s b with ⟨delivery, s'⟩
      cases delivery with
      | refused refusal => simp [hDeliver]
      | accepted =>
        simp only [hDeliver]
        exact ih _ s'
      | crashed reason' => exact absurd (congrArg Prod.fst hDeliver) (h.deliver s b reason')

/-! ## Iterations in which everything goes well -/

namespace Feed

variable (f : Feed τ)

/-- The iteration from `r` on connects a path: it is fired up to `last`, the LIB is settled and the checkpoint is
saved, all without an error. This leaves `t`. -/
inductive Connects (r : Run τ) (last : Node) (t : Run τ) : Prop where
  | connects {b : Block} {s s' : Run τ} {target : BlockRef} {graph : ForkGraph} {move : LibMove}
      (hRunning : r.ending = none) (hGoing : f.stopped r.journal = false) (hAbove : r.graph.libNum ≤ r.next)
      (hTakes : f.Takes r b s) (hHead : (s.link b).cursor.head = some target)
      (hReach : ((s.link b).graph.segmentTo target).reachesLib = true)
      (hLast : ((s.link b).graph.segmentTo target).nodes.getLast? = some last)
      (hFired : (fire f.sink f.config.start ((s.link b).graph.segmentTo target).nodes
        (s.link b).graph s.sinkState).ending = none)
      (hOver : f.handOver ((s.link b).graph.segmentTo target).nodes (s.check b target) = s')
      (hMove : s'.graph.advanceLib b.ref (f.config.libAfter b s'.graph.libNum) = .ok (graph, move))
      (hSaved : f.Saved last.toLink (advance b (f.config.libAfter b s'.graph.libNum) graph move s') t)

variable {f}

theorem Saved.save_eq {last : Link} {r t : Run τ} (h : f.Saved last r t) : f.save last r = t := by
  cases h with
  | off hDir => rw [save, hDir]
  | on hDir hSnapshot hSave =>
    rw [save, hDir]
    simp only [hSnapshot, hSave]

theorem Connects.step_eq {r t : Run τ} {last : Node} (h : f.Connects r last t) :
    f.step r = f.goOn last.toLink t := by
  obtain @⟨b, s, s', target, graph, move, hRunning, hGoing, hAbove, hTakes, hHead, hReach, hLast, hFired, hOver,
    hMove, hSaved⟩ := h
  have hEnding : s.ending = none := hTakes.ending_eq.trans hRunning
  have hOverRunning : s'.ending = none := by
    rw [← hOver]
    exact hEnding
  obtain ⟨first, hFirst⟩ : ∃ first, ((s.link b).graph.segmentTo target).nodes.head? = some first := by
    cases hNodes : ((s.link b).graph.segmentTo target).nodes with
    | nil =>
      rw [hNodes] at hLast
      cases hLast
    | cons first rest => exact ⟨first, rfl⟩
  have hStored : ∀ n ∈ ((s.link b).graph.segmentTo target).nodes, n ∈ (s.check b target).graph.nodes :=
    fun n hn => ForkGraph.mem_of_mem_segmentTo hn
  have hConnect : f.connect b ((s.link b).graph.segmentTo target).links (s.check b target) =
      advance b (f.config.libAfter b s'.graph.libNum) graph move s' := by
    have hFired' : (fire f.sink f.config.start ((s.link b).graph.segmentTo target).nodes
        (s.check b target).graph (s.check b target).sinkState).ending = none := hFired
    rw [Segment.links, f.connect_eq b hStored (ForkGraph.segmentTo_nodup _ target), hFired', hOver]
    simp only [settle_eq, hMove]
  have hSettled : (advance b (f.config.libAfter b s'.graph.libNum) graph move s').ending = none := hOverRunning
  rw [step_of_takes hRunning hGoing hAbove hTakes, process_eq, hHead]
  simp only [hFirst, hLast, hReach, if_true, hConnect]
  rw [Run.andThen_of_running hSettled, hSaved.save_eq, Run.andThen_of_running (hSaved.ending_eq.trans hSettled)]

/-! ## Runs over calm sources -/

theorem fetch_calm (f : Feed τ) (num : BlockNum) {r : Run τ} (h : r.source.Calm) :
    (f.fetch num r).1.source.Calm ∧ ∀ reason, (f.fetch num r).1.ending = some (.crashed reason) →
      r.ending = some (.crashed reason) := by
  obtain ⟨hNext, hCalm⟩ := h.askFrom num 1 (f.config.retries.toNat - 1)
  unfold fetch
  simp only [Source.fetchRetrying]
  cases hFetched : (Source.askFrom num 1 (f.config.retries.toNat - 1) r.source).fetched with
  | block b => exact ⟨hNext, fun reason hCrashed => hCrashed⟩
  | exhausted failure => exact ⟨hNext, by simp⟩
  | crashed reason => exact absurd hFetched (hCalm reason)

theorem coldStart_calm {num : BlockNum} {r : Run τ} (h : r.source.Calm) (hRunning : r.ending = none) :
    (f.coldStart num r).source.Calm ∧ ∀ reason, (f.coldStart num r).ending ≠ some (.crashed reason) := by
  obtain ⟨hCalm, hEnding⟩ := fetch_calm f num h
  have hFetched : ∀ reason, (f.fetch num r).1.ending ≠ some (.crashed reason) := by
    intro reason hCrashed
    have hBefore := hEnding reason hCrashed
    rw [hRunning] at hBefore
    cases hBefore
  unfold coldStart
  rcases hFetch : f.fetch num r with ⟨r', _ | b⟩
  · rw [hFetch] at hCalm hFetched
    exact ⟨hCalm, hFetched⟩
  · rw [hFetch] at hCalm hFetched
    simp only
    split
    · exact ⟨hCalm, by simp⟩
    · exact ⟨hCalm, hFetched⟩

theorem Takes.calm {r s : Run τ} {b : Block} (h : f.Takes r b s) (hCalm : r.source.Calm) : s.source.Calm := by
  cases h with
  | pending => exact hCalm
  | fetched hPending hFetch =>
    have hFetched := (fetch_calm f r.next hCalm).1
    rw [hFetch] at hFetched
    exact hFetched

theorem Processed.source_eq {r r' : Run τ} {b : Block} (h : f.Processed b r r') : r'.source = r.source := by
  cases h with
  | headless | absent | halted => rfl
  | gap => exact (f.wait_sameSupply _).source
  | refused _ _ _ hOver =>
    subst hOver
    rfl
  | unsaved _ _ _ _ hOver _ hUnsaved =>
    subst hOver
    cases hUnsaved <;> rfl
  | connected _ _ _ _ hOver _ hSaved =>
    subst hOver
    refine (f.goOn_sameSupply _ _).source.trans ?_
    cases hSaved <;> rfl

theorem Stepped.calm {r r' : Run τ} (h : f.Stepped r r') (hCalm : r.source.Calm) : r'.source.Calm := by
  cases h with
  | ended | stopped | below => exact hCalm
  | starved _ _ hFetch =>
    have hFetched := (fetch_calm f r.next hCalm).1
    rw [hFetch] at hFetched
    exact hFetched
  | processed _ _ hTakes hProcessed =>
    rw [hProcessed.source_eq]
    exact hTakes.calm hCalm

/-- An iteration crashes only after everything went well, when it asks for the number after the highest one. -/
theorem exists_connects_of_crashed {r : Run τ} {reason : String} (hSink : f.sink.Calm) (hSource : r.source.Calm)
    (hRunning : r.ending = none) (hCrashed : (f.step r).ending = some (.crashed reason)) :
    Ending.crashed reason = .overflow ∧ ∃ last t, f.Connects r last t ∧ last.num = BlockNum.highest := by
  -- `Stepped` does not tell whether a stop was asked for, which `Connects` has to rule out
  cases hGoing : f.stopped r.journal with
  | true =>
    rw [step, hRunning] at hCrashed
    simp only [hGoing, if_true] at hCrashed
    cases hCrashed
  | false =>
    have hStepped := f.stepped r
    generalize f.step r = r' at hStepped hCrashed
    cases hStepped with
    | ended hEnded =>
      rw [hRunning] at hEnded
      cases hEnded
    | stopped | below => cases hCrashed
    | starved _ _ hFetch =>
      have hBefore := (fetch_calm f r.next hSource).2 reason
      rw [hFetch, hRunning] at hBefore
      cases hBefore hCrashed
    | @processed b s _ _ hAbove hTakes hProcessed =>
      have hEnding : s.ending = none := hTakes.ending_eq.trans hRunning
      cases hProcessed with
      | headless | absent | refused => cases hCrashed
      | @gap target first =>
        have hBefore : ((s.check b target).awaiting first.parent).ending = none := hEnding
        obtain hSame | hClosed := f.wait_cases ((s.check b target).awaiting first.parent)
        · rw [hSame, hBefore] at hCrashed
          cases hCrashed
        · rw [hClosed] at hCrashed
          cases hCrashed
      | halted _ _ hHalt =>
        cases hCrashed
        exact absurd hHalt (hSink.fire _ _ _ _ reason)
      | unsaved _ _ _ _ _ _ hUnsaved => cases hUnsaved <;> cases hCrashed
      | @connected target last s' t graph move hHead hReach hLast hFired hOver hMove hSaved =>
        obtain ⟨hHighest, hClosed⟩ | ⟨hLow, -⟩ := f.goOn_cases last.toLink t
        · rw [hClosed] at hCrashed
          cases hCrashed
          exact ⟨rfl, last, t, .connects hRunning hGoing hAbove hTakes hHead hReach hLast hFired hOver hMove hSaved,
            hHighest⟩
        · have hBefore : t.ending = none := by
            rw [hSaved.ending_eq]
            subst hOver
            exact hEnding
          obtain hStill | hFinished := f.ending_goOn hLow hBefore
          · rw [hStill] at hCrashed
            cases hCrashed
          · rw [hFinished] at hCrashed
            cases hCrashed

end Feed

/-! ## Sessions -/

namespace Session

/-- The sink opens, and there is a checkpoint to resume from, after the highest number. -/
def LoadsHighest (s : Session) : Prop :=
  (s.feed.sink.opening s.sinkState).1 = .accepted ∧ ∃ dir c, s.feed.config.stateDir = some dir ∧
    Checkpoint.load s.disk dir = .ok c ∧ c.lastFired.num = BlockNum.highest

variable {s : Session}

theorem beginning_calm (hSource : s.source.Calm) : s.beginning.source.Calm := by
  cases hOpening : (s.feed.sink.opening s.sinkState).1 with
  | accepted =>
    rw [beginning_of_accepted hOpening, Feed.prepare]
    split
    · exact (Feed.coldStart_calm hSource rfl).1
    · split
      next c hLoad =>
        rw [Run.resume, c.rebuild_eq]
        simp only
        split <;> exact hSource
      next e hLoad => exact (Feed.coldStart_calm (r := s.opened.record _) hSource rfl).1
  | refused | crashed =>
    rw [beginning, Feed.begin]
    simp only [hOpening]
    exact hSource

theorem beginning_crashed (hSink : s.feed.sink.Calm) (hSource : s.source.Calm) {reason : String}
    (hCrashed : s.beginning.ending = some (.crashed reason)) : Ending.crashed reason = .overflow ∧ s.LoadsHighest := by
  cases hOpening : (s.feed.sink.opening s.sinkState).1 with
  | accepted =>
    rw [beginning_of_accepted hOpening, Feed.prepare] at hCrashed
    split at hCrashed
    · exact absurd hCrashed ((Feed.coldStart_calm hSource rfl).2 reason)
    next dir hDir =>
      split at hCrashed
      next c hLoad =>
        rw [Run.resume, c.rebuild_eq, BlockNum.next?] at hCrashed
        by_cases hHighest : c.lastFired.num = BlockNum.highest
        · simp only [if_pos hHighest] at hCrashed
          cases hCrashed
          exact ⟨rfl, hOpening, dir, c, hDir, hLoad, hHighest⟩
        · simp only [if_neg hHighest] at hCrashed
          cases hCrashed
      next e hLoad => exact absurd hCrashed ((Feed.coldStart_calm (r := s.opened.record _) hSource rfl).2 reason)
  | refused =>
    rw [beginning, Feed.begin] at hCrashed
    simp only [hOpening] at hCrashed
    cases hCrashed
  | crashed reason' => exact absurd hOpening (hSink.opening _ reason')

/-- A run that resumes goes on one after the last block fired before, if there is a number for it. -/
theorem beginning_of_load {dir : Path} {c : Checkpoint} (hOpening : (s.feed.sink.opening s.sinkState).1 = .accepted)
    (hDir : s.feed.config.stateDir = some dir) (hLoad : Checkpoint.load s.disk dir = .ok c) :
    (c.lastFired.num = BlockNum.highest → s.beginning.ending = some .overflow) ∧
    (c.lastFired.num ≠ BlockNum.highest → s.beginning.next.toNat = c.lastFired.num.toNat + 1) := by
  have hOpened : Checkpoint.load s.opened.disk dir = .ok c := hLoad
  rw [beginning_of_accepted hOpening, Feed.prepare, hDir]
  simp only [hOpened]
  rw [Run.resume, c.rebuild_eq, BlockNum.next?]
  refine ⟨fun hHighest => ?_, fun hLow => ?_⟩
  · simp only [if_pos hHighest]
    rfl
  · simp only [if_neg hLow]
    exact BlockNum.toNat_succ hLow

theorem calm_after (hSource : s.source.Calm) (n : Nat) : (s.after n).source.Calm :=
  s.feed.after_induction (beginning_calm hSource) (fun _ _ hCalm hStepped => hStepped.calm hCalm) n

theorem ending_after_of_le {k n : Nat} {e : Ending} (h : (s.after k).ending = some e) (hLe : k ≤ n) :
    (s.after n).ending = some e := by
  obtain ⟨m, rfl⟩ := Nat.exists_eq_add_of_le' hLe
  have hSame : s.after (m + k) = s.after k :=
    (s.feed.after_add m k s.beginning).trans (s.feed.after_of_ended (Option.isSome_of_mem h) m)
  rw [hSame]
  exact h

/-- However a run crashes, it asked for the number after the highest one. -/
theorem crashed_after (hSink : s.feed.sink.Calm) (hSource : s.source.Calm) {n : Nat} {reason : String}
    (hCrashed : (s.after n).ending = some (.crashed reason)) :
    Ending.crashed reason = .overflow ∧ (s.LoadsHighest ∨
      ∃ k < n, ∃ last t, s.feed.Connects (s.after k) last t ∧ last.num = BlockNum.highest) := by
  induction n with
  | zero =>
    obtain ⟨hReason, hLoads⟩ := beginning_crashed hSink hSource hCrashed
    exact ⟨hReason, .inl hLoads⟩
  | succ n ih =>
    cases hEnding : (s.after n).ending with
    | none =>
      obtain ⟨hReason, hConnects⟩ := Feed.exists_connects_of_crashed hSink (calm_after hSource n) hEnding hCrashed
      exact ⟨hReason, .inr ⟨n, Nat.lt_succ_self n, hConnects⟩⟩
    | some e =>
      have hStill := ending_after_of_le hEnding (Nat.le_succ n)
      rw [hCrashed, Option.some.injEq] at hStill
      obtain ⟨hReason, hCause⟩ := ih (hStill ▸ hEnding)
      refine ⟨hReason, hCause.imp_right ?_⟩
      rintro ⟨k, hk, hConnects⟩
      exact ⟨k, Nat.lt_succ_of_lt hk, hConnects⟩

/-- All else that a run calculates from block numbers, and the attempts it counts, comes out as it would without
any bound. -/
structure Exact (s : Session) : Prop where
  resuming : ∀ dir c, (s.feed.sink.opening s.sinkState).1 = .accepted → s.feed.config.stateDir = some dir →
    Checkpoint.load s.disk dir = .ok c → c.lastFired.num ≠ BlockNum.highest →
    s.beginning.next.toNat = c.lastFired.num.toNat + 1 ∧
      ∀ n ∈ c.restore.nodes, n.parent.num.toNat = n.num.toNat - 1
  goingOn : ∀ k last t, s.feed.Connects (s.after k) last t → last.num ≠ BlockNum.highest →
    (s.after (k + 1)).next.toNat = last.num.toNat + 1
  settling : ∀ (b : Block) (lib : BlockNum), (s.feed.config.libAfter b lib).toNat =
    match s.feed.config.forceFinality with
    | none => min b.libNum.toNat b.num.toNat
    | some depth => max (max (min b.libNum.toNat b.num.toNat) (b.num.toNat - depth.toNat)) lib.toNat
  attempting : ∀ (source : Source) (num num' : BlockNum) (attempt attempts : Nat) (e : FetchError),
    .note (.attemptFailed num' attempt attempts e) ∈ (source.fetchRetrying num s.feed.config.retries).entries →
      1 ≤ attempt ∧ attempt < attempts ∧ attempts = max 1 s.feed.config.retries.toNat ∧ attempts < UInt32.size
  exhausting : ∀ (source : Source) (num : BlockNum) (failure : FetchFailure),
    (source.fetchRetrying num s.feed.config.retries).fetched = .exhausted failure →
      failure.attempts = max 1 s.feed.config.retries.toNat ∧ failure.attempts < UInt32.size

theorem next_after_of_connects {k : Nat} {last : Node} {t : Run s.sinkType} (h : s.feed.Connects (s.after k) last t)
    (hLow : last.num ≠ BlockNum.highest) : (s.after (k + 1)).next = last.num + 1 := by
  rw [after, Feed.after, ← after, h.step_eq]
  obtain ⟨hHighest, -⟩ | ⟨-, hSame | ⟨note, -, hClosed⟩⟩ := s.feed.goOn_cases last.toLink t
  · exact absurd hHighest hLow
  · rw [hSame]
    rfl
  · rw [hClosed]
    rfl

theorem ending_after_of_connects {k : Nat} {last : Node} {t : Run s.sinkType}
    (h : s.feed.Connects (s.after k) last t) (hHighest : last.num = BlockNum.highest) :
    (s.after (k + 1)).ending = some .overflow := by
  rw [after, Feed.after, ← after, h.step_eq]
  obtain ⟨-, hClosed⟩ | ⟨hLow, -⟩ := s.feed.goOn_cases last.toLink t
  · rw [hClosed]
    rfl
  · exact absurd hHighest hLow

theorem exact_numbers (s : Session) : s.Exact where
  resuming dir c hOpening hDir hLoad hLow := by
    refine ⟨(beginning_of_load hOpening hDir hLoad).2 hLow, fun n hn => ?_⟩
    obtain ⟨stored, -, rfl⟩ := Checkpoint.exists_of_mem_restore hn
    exact BlockNum.toNat_back _ 1
  goingOn k last t hConnects hLow := by
    rw [next_after_of_connects hConnects hLow]
    exact BlockNum.toNat_succ hLow
  settling b lib := by
    rw [Config.libAfter]
    cases s.feed.config.forceFinality with
    | none => exact BlockNum.toNat_min _ _
    | some depth => simp only [BlockNum.toNat_max, BlockNum.toNat_min, BlockNum.toNat_back]
  attempting source num num' attempt attempts e hNote := by
    have hRange : s.feed.config.retries.toNat < UInt32.size := s.feed.config.retries.toNat_lt
    have hCounts := (Source.askFrom_counts num 1 _ source).1 num' attempt attempts e hNote
    simp only [UInt32.size] at hRange ⊢
    omega
  exhausting source num failure hExhausted := by
    have hRange : s.feed.config.retries.toNat < UInt32.size := s.feed.config.retries.toNat_lt
    have hCounts := (Source.askFrom_counts num 1 _ source).2 failure hExhausted
    simp only [UInt32.size] at hRange ⊢
    omega

/-- A run over sources and a sink that never crash overflows where it resumes after the highest number or connects
a path up to it, and nowhere else, and ends in no other crash. -/
theorem overflow_iff (s : Session) (hSink : s.feed.sink.Calm) (hSource : s.source.Calm) (n : Nat) :
    ((s.after n).ending = some .overflow ↔ s.LoadsHighest ∨
      ∃ k < n, ∃ last t, s.feed.Connects (s.after k) last t ∧ last.num = BlockNum.highest) ∧
    ((s.after n).ending = some .overflow ∨ (s.after n).ending = none ∨ (s.after n).ending = some .finished ∨
      ∃ error, (s.after n).ending = some (.failed error)) ∧ s.Exact := by
  refine ⟨⟨fun hOverflow => (crashed_after hSink hSource hOverflow).2, ?_⟩, ?_, s.exact_numbers⟩
  · rintro (⟨hOpening, dir, c, hDir, hLoad, hHighest⟩ | ⟨k, hk, last, t, hConnects, hHighest⟩)
    · have hBegins : (s.after 0).ending = some .overflow := (beginning_of_load hOpening hDir hLoad).1 hHighest
      exact ending_after_of_le hBegins (Nat.zero_le n)
    · exact ending_after_of_le (ending_after_of_connects hConnects hHighest) hk
  · cases hEnding : (s.after n).ending with
    | none => exact .inr (.inl rfl)
    | some e =>
      cases e with
      | finished => exact .inr (.inr (.inl rfl))
      | failed error => exact .inr (.inr (.inr ⟨error, rfl⟩))
      | crashed reason => exact .inl (congrArg some (crashed_after hSink hSource hEnding).1)

/-- A session over a single block that has the highest number. -/
def atTheTop (disk : Disk) (iterations : Nat) : Session where
  sinkType := Unit
  feed := .undisturbed { start := BlockNum.highest, stateDir := some ⟨["state"]⟩ }
  source := .scripted [.plain "1a" BlockNum.highest "0a" 0]
  sinkState := ()
  disk := disk
  iterations := iterations

theorem atTheTop_sink_calm (disk : Disk) (iterations : Nat) : (atTheTop disk iterations).feed.sink.Calm where
  opening s reason hCrashed := by cases hCrashed
  deliver s b reason hCrashed := by cases hCrashed

def topFired : Checkpoint where
  lib := ⟨"1a", BlockNum.highest, ""⟩
  lastFired := ⟨"1a", BlockNum.highest, "0a"⟩
  blocks := [⟨"1a", BlockNum.highest, "0a"⟩]

theorem atTheTop_saves :
    (atTheTop .empty 1).run.disk.read (Checkpoint.path ⟨["state"]⟩) = .ok topFired.bytes := by
  decide +kernel

/-- The run fires the block, saves a checkpoint and overflows, and so does at once each run after it. -/
theorem overflow_iff_atTheTop :
    (∃ last t, (atTheTop .empty 1).feed.Connects (atTheTop .empty 1).beginning last t ∧
      last.num = BlockNum.highest) ∧
    ∀ n, ((atTheTop (atTheTop .empty 1).run.disk n).after n).ending = some .overflow := by
  constructor
  · obtain ⟨⟨hCause, -⟩, -⟩ := overflow_iff (atTheTop .empty 1) (atTheTop_sink_calm _ _) (Source.scripted_calm _) 1
    obtain ⟨-, dir, c, hDir, hLoad, -⟩ | ⟨k, hk, hConnects⟩ := hCause rfl
    · have hNone : (Checkpoint.load .empty ⟨["state"]⟩).toOption.isNone = true := by decide +kernel
      exact absurd hLoad (Feed.coldStarts_of_isNone (atTheTop .empty 1).feed rfl hNone dir c hDir)
    · obtain rfl : k = 0 := by omega
      exact hConnects
  · intro n
    obtain ⟨⟨-, hOverflow⟩, -⟩ := overflow_iff (atTheTop (atTheTop .empty 1).run.disk n) (atTheTop_sink_calm _ _)
      (Source.scripted_calm _) n
    exact hOverflow (.inl ⟨rfl, ⟨["state"]⟩, topFired, rfl, Checkpoint.load_of_read atTheTop_saves, rfl⟩)

end Session

end ChainFeed
