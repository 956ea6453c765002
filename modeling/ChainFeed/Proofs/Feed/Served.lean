import ChainFeed.Feed.Limit
import ChainFeed.Proofs.Feed.Anchor
import ChainFeed.Proofs.ForkGraph.Chain

/-! # Runs that nobody stops, over a source that serves one chain

Such a run takes up a block in every iteration until it ends by itself, and each block that it asked for is
the chain's.
-/

set_option autoImplicit false

namespace ChainFeed

variable {τ : Type}

namespace Entry

/-- The number asked for, and what was answered. -/
def request? : Entry → Option (BlockNum × Answer)
  | asked num _ answer => some (num, answer)
  | _ => none

theorem request?_ignoresReports : IgnoresReports request? := ⟨fun _ => rfl, fun _ _ => rfl⟩

end Entry

def Answer.link? : Answer → Option Link
  | block b => some b.link
  | _ => none

theorem Answer.link?_eq_some_iff {answer : Answer} {l : Link} :
    answer.link? = some l ↔ ∃ b, answer = .block b ∧ b.link = l := by
  cases answer <;> simp [link?]

namespace Journal

def asked (j : Journal) : List (BlockNum × Answer) := j.pick Entry.request?

end Journal

namespace Chain

/-- Whatever was asked for between the two runs was answered with the chain's block of that number. -/
def Serves (c : Chain) (r r' : Run τ) : Prop :=
  ∀ q ∈ r'.journal.asked.drop r.journal.asked.length, q.2.link? = some (c.link q.1)

instance (c : Chain) (r r' : Run τ) : Decidable (c.Serves r r') :=
  inferInstanceAs (Decidable (∀ q ∈ _, _))

/-- Under an id of the chain only its own block is answered, and the parent of its first block never. -/
structure Agrees (c : Chain) (answers : List (BlockNum × Block)) : Prop where
  link : ∀ a ∈ answers, ∀ m, a.2.id = c.id m → a.2.link = c.link m
  root : ∀ a ∈ answers, a.2.id ≠ c.root

variable {c : Chain}

theorem Serves.of_isPrefix {r s r' : Run τ} (h : c.Serves r r') (hPrefix : r.journal.asked <+: s.journal.asked) :
    c.Serves s r' := by
  intro q hq
  refine h q (List.mem_of_mem_drop (i := s.journal.asked.length - r.journal.asked.length) ?_)
  rwa [List.drop_drop, Nat.add_sub_cancel' hPrefix.length_le]

theorem Serves.mono {r r' s : Run τ} (h : c.Serves r s) (hPrefix : r'.journal.asked <+: s.journal.asked) :
    c.Serves r r' := by
  intro q hq
  exact h q ((hPrefix.drop _).subset hq)

/-! ## A chain of strokes -/

def block (c : Chain) (m libNum : BlockNum) : Block := .plain (c.id m) m (c.parentId m) libNum

/-- The chain whose ids are a letter with as many strokes as the number says. -/
def strokes (letter : Char) : Chain where
  id m := String.ofList (letter :: List.replicate m.toNat '-')
  root := String.ofList [letter, '?']

theorem strokes_id_injective {letter : Char} {m n : BlockNum}
    (h : (strokes letter).id m = (strokes letter).id n) : m = n := by
  have hLength := congrArg (fun id => id.toList.length) h
  simpa [strokes, UInt64.toNat_inj] using hLength

theorem strokes_id_ne_root (letter : Char) (m : BlockNum) :
    (strokes letter).id m ≠ (strokes letter).root := by
  intro h
  have hChars := congrArg String.toList h
  simp only [strokes, String.toList_ofList, List.cons.injEq, true_and] at hChars
  have hStroke : '?' ∈ List.replicate m.toNat '-' := hChars ▸ List.mem_singleton_self '?'
  exact absurd (List.eq_of_mem_replicate hStroke) (by decide)

/-- Answers agree with such a chain that are blocks of it, or have ids with another letter. -/
theorem strokes_agrees {letter : Char} {answers : List (BlockNum × Block)}
    (h : ∀ a ∈ answers, a.2.link = (strokes letter).link a.2.num ∨ a.2.id.toList.head? ≠ some letter) :
    (strokes letter).Agrees answers where
  link a ha m hId := by
    rcases h a ha with hLink | hOther
    · have hSame : (strokes letter).id a.2.num = (strokes letter).id m :=
        (congrArg Link.id hLink).symm.trans hId
      rw [hLink, strokes_id_injective hSame]
    · exact absurd (by rw [hId]; simp [strokes]) hOther
  root a ha hId := by
    rcases h a ha with hLink | hOther
    · exact strokes_id_ne_root letter a.2.num ((congrArg Link.id hLink).symm.trans hId)
    · exact absurd (by rw [hId]; simp [strokes]) hOther

theorem Agrees.of_subset {answers more : List (BlockNum × Block)} (h : c.Agrees more)
    (hSub : answers ⊆ more) : c.Agrees answers where
  link a ha := h.link a (hSub ha)
  root a ha := h.root a (hSub ha)

end Chain

namespace Feed

variable {f : Feed τ}

/-! ## Requests -/

theorem fetch_asked {num : BlockNum} {r r' : Run τ} {got : Option Block} (h : f.fetch num r = (r', got)) :
    ∃ failed answer, r'.journal.asked = r.journal.asked ++ (failed ++ [(num, answer)]) ∧
      ∀ b, answer = .block b → got = some b := by
  obtain ⟨before, passed, answer, hEntries, -, hConcludes⟩ :=
    Source.askFrom_entries num 1 (f.config.retries.toNat - 1) r.source
  refine ⟨before.filterMap Entry.request?, answer, ?_⟩
  unfold fetch Source.fetchRetrying at h
  revert hEntries hConcludes h
  rcases Source.askFrom num 1 (f.config.retries.toNat - 1) r.source with ⟨fetched, entries, next⟩
  intro h hEntries hConcludes
  simp only at h hEntries hConcludes
  subst hEntries
  cases hConcludes <;> cases h <;> simp [Journal.asked, Entry.request?]

theorem Processed.asked_eq {b : Block} {r r' : Run τ} (h : f.Processed b r r') :
    r'.journal.asked = r.journal.asked :=
  h.pick_eq Entry.request?_ignoresReports (fun _ _ => rfl) (fun _ => rfl) fun _ _ _ => rfl

/-! ## Iterations -/

theorem step_of_below {r : Run τ} (hRunning : r.ending = none) (hGoing : f.stopped r.journal = false)
    (hBelow : r.next < r.graph.libNum) :
    f.step r = r.close (.failed (.invariant (.belowLib r.next r.graph.libNum))) := by
  rw [step, hRunning]
  simp only [hGoing, checkAboveLib, if_pos hBelow]
  rfl

/-- While requests are answered with the chain's blocks, a run that is not stopped takes up a block. -/
theorem exists_processed {c : Chain} {r : Run τ} (hRunning : r.ending = none)
    (hGoing : f.stopped r.journal = false) (hAbove : r.graph.libNum ≤ r.next)
    (hServed : c.Serves r (f.step r)) :
    ∃ b s, f.Takes r b s ∧ f.Processed b s (f.step r) ∧ (r.pending = none → b.link = c.link r.next) := by
  cases hPending : r.pending with
  | some b =>
    have hTakes : f.Takes r b { r with pending := none } := .pending hPending
    rw [step_of_takes hRunning hGoing hAbove hTakes]
    exact ⟨b, _, hTakes, f.processed b hRunning, fun hNone => by cases hNone⟩
  | none =>
    rcases hFetch : f.fetch r.next r with ⟨s, got⟩
    obtain ⟨failed, answer, hAsked, hGot⟩ := fetch_asked hFetch
    have hLast : (r.next, answer) ∈ s.journal.asked.drop r.journal.asked.length := by
      rw [hAsked, List.drop_left]
      exact List.mem_append_right _ (List.mem_singleton_self _)
    cases got with
    | none =>
      have hCheck : checkAboveLib r.next r.graph.libNum = .ok () := if_neg (UInt64.not_lt.mpr hAbove)
      have hStep : f.step r = s := by
        simp only [step, hRunning, hGoing, hCheck, hPending, hFetch, Bool.false_eq_true, if_false]
      obtain ⟨b, hb, -⟩ := Answer.link?_eq_some_iff.mp (hServed _ (hStep ▸ hLast))
      cases hGot b hb
    | some b =>
      have hTakes : f.Takes r b s := .fetched hPending hFetch
      have hProcessed := f.processed b (hTakes.ending_eq.trans hRunning)
      rw [step_of_takes hRunning hGoing hAbove hTakes] at hServed ⊢
      obtain ⟨b', hb', hLink⟩ :=
        Answer.link?_eq_some_iff.mp (hServed (r.next, answer) (hProcessed.asked_eq ▸ hLast))
      cases hGot b' hb'
      exact ⟨b, s, hTakes, hProcessed, fun _ => hLink⟩

theorem wait_of_going {r : Run τ} (hGoing : f.stopped r.journal = false) : f.wait r = r := by
  rw [wait, hGoing, Bool.and_false]
  rfl

theorem goOn_of_going {last : Link} {r : Run τ} (hGoing : f.stopped r.journal = false)
    (hStop : f.config.stopBlock = none) (hLow : last.num ≠ BlockNum.highest) :
    f.goOn last r = { r with next := last.num + 1 } := by
  rw [goOn, BlockNum.next?, if_neg hLow, hStop]
  exact wait_of_going hGoing

/-- Where the way back to the head's target stops short of the LIB, the missing parent is awaited. -/
theorem Processed.gap_of_reachesLib_eq_false {b : Block} {r r' : Run τ} {target : BlockRef}
    (h : f.Processed b r r') (hHead : (r.link b).cursor.head = some target)
    (hPath : ((r.link b).graph.segmentTo target).nodes ≠ [])
    (hReach : ((r.link b).graph.segmentTo target).reachesLib = false) :
    ∃ first, ((r.link b).graph.segmentTo target).nodes.head? = some first ∧
      r' = f.wait ((r.check b target).awaiting first.parent) := by
  cases h with
  | headless hHead' =>
    rw [hHead] at hHead'
    cases hHead'
  | absent hHead' hNil =>
    cases hHead.symm.trans hHead'
    exact absurd hNil hPath
  | @gap _ first hHead' _ hFirst =>
    cases hHead.symm.trans hHead'
    exact ⟨first, hFirst, rfl⟩
  | halted hHead' hReach' | refused hHead' hReach' | unsaved hHead' hReach' | connected hHead' hReach' =>
    cases hHead.symm.trans hHead'
    rw [hReach] at hReach'
    cases hReach'

/-- A firing that halts has handed over a block that was not accepted, or lacks the content of one. -/
theorem exists_handed_of_halted {sink : Sink τ} {start : BlockNum} {path : List Node} {g : ForkGraph}
    {state : τ} {e : Ending} (hEnding : (fire sink start path g state).ending = some e)
    (hContent : ∀ n ∈ path, n.fired = false → n.content.isSome = true) :
    ∃ b d, .handed b d ∈ (fire sink start path g state).entries ∧ d ≠ .accepted := by
  obtain ⟨passed, left, last, h⟩ := fire_passes sink start path g state
  rcases h.ending with ⟨hNone, -, -⟩ | ⟨_, -, hHalt⟩
  · rw [hNone] at hEnding
    cases hEnding
  · rw [h.entries]
    cases hHalt with
    | @missing n rest hUnfired _ hNone =>
      have hSome := hContent n (by rw [h.split]; simp) hUnfired
      rw [hNone] at hSome
      cases hSome
    | refused | crashed =>
      exact ⟨_, _, List.mem_append_right _ (List.mem_singleton_self _), by simp⟩

/-- A run goes on after a block if nobody stops it, each block is accepted and each checkpoint saved, and the
report is not below the LIB. -/
theorem Processed.ending_eq_none {b : Block} {r r' : Run τ} {target lib : BlockRef} (h : f.Processed b r r')
    (hRunning : r.ending = none) (hGoing : ∀ j, f.stopped j = false) (hStop : f.config.stopBlock = none)
    (hHead : (r.link b).cursor.head = some target) (hPath : ((r.link b).graph.segmentTo target).nodes ≠ [])
    (hContent : ∀ n ∈ ((r.link b).graph.segmentTo target).nodes, n.fired = false → n.content.isSome = true)
    (hLib : r.graph.lib = some lib)
    (hReport : r.graph.libReported = true → lib.num ≤ f.config.libAfter b lib.num)
    (hAccepted : ∀ b d, .handed b d ∈ r'.journal.entries → d = .accepted)
    (hSaved : ∀ e, r'.ending ≠ some (.failed (.checkpoint e)))
    (hLow : ∀ last, ((r.link b).graph.segmentTo target).nodes.getLast? = some last →
      last.num ≠ BlockNum.highest) : r'.ending = none := by
  cases h with
  | headless hHead' =>
    rw [hHead] at hHead'
    cases hHead'
  | absent hHead' hNil =>
    cases hHead.symm.trans hHead'
    exact absurd hNil hPath
  | gap =>
    rw [wait_of_going (hGoing _)]
    exact hRunning
  | @halted _ e hHead' _ hHalt =>
    cases hHead.symm.trans hHead'
    obtain ⟨b', d, hHanded, hRefused⟩ := exists_handed_of_halted hHalt hContent
    refine absurd (hAccepted b' d ?_) hRefused
    rw [Run.close_journal, handOver_journal, Journal.entries_record]
    exact List.mem_append_right _ hHanded
  | @refused _ s e hHead' _ hFired hOver hError =>
    have hGraph := handOver_graph_of_fired hFired hOver
    have hStill : s.graph.lib = some lib := by
      rw [hGraph, ForkGraph.markAll_lib, Run.link_graph, ForkGraph.link_lib, hLib]
    obtain ⟨hReported, hBack, -⟩ := ForkGraph.advanceLib_error hStill hError
    rw [ForkGraph.libNum_of_lib hStill] at hBack
    rw [hGraph, ForkGraph.markAll_libReported, Run.link_graph, ForkGraph.link_libReported] at hReported
    exact absurd hBack (UInt64.not_lt.mpr (hReport hReported))
  | unsaved _ _ _ _ _ _ hUnsaved => cases hUnsaved <;> exact absurd rfl (hSaved _)
  | @connected _ last s t graph move hHead' _ hLast _ hOver _ hSaved' =>
    cases hHead.symm.trans hHead'
    rw [goOn_of_going (hGoing _) hStop (hLow last hLast)]
    exact (hSaved'.goOn_eq hOver).2.2.trans hRunning

end Feed

end ChainFeed
