import ChainFeed.Proofs.Checkpoint.Restore
import ChainFeed.Proofs.Feed.Anchor

/-! # A run never loses track of its own blocks

Errors that only a run's own bookkeeping could cause do not occur, whatever the source answers, whatever a
file holds and however the sink behaves. A run that goes on has a LIB, a block that was not fired has its
content, and while an ancestor is awaited the cursor's head is stored.
-/

set_option autoImplicit false

namespace ChainFeed

open ForkGraph

variable {τ : Type}

/-- A block that should be stored is not, or the LIB was set twice or never. -/
inductive RunError.Internal : RunError → Prop where
  | blockMissing {id : BlockId} : Internal (.invariant (.blockMissing id))
  | libMissing : Internal (.invariant .libMissing)
  | libPresent {lib : BlockRef} : Internal (.invariant (.libPresent lib))
  | noLib : Internal (.checkpoint .noLib)

/-- The run has returned no such error. -/
def Run.Sane (r : Run τ) : Prop :=
  ¬ ∃ error, RunError.Internal error ∧ r.ending = some (.failed error)

/-- What a run relies on in its next iteration. -/
structure Run.Coherent (r : Run τ) : Prop where
  lib : ∃ lib, r.graph.lib = some lib
  content : ∀ n ∈ r.graph.nodes, n.fired = false → n.content.isSome = true
  head : ∀ id, r.cursor.awaited = some id →
    ∃ target, r.cursor.head = some target ∧ r.graph.contains target.id = true

theorem Checkpoint.save_ne_noLib (c : Checkpoint) (device : Device) (d : Disk) (dir : Path) :
    (c.save device d dir).outcome ≠ .error .noLib := by
  unfold save
  simp only
  split
  · simp
  · split <;> simp

namespace Run

theorem Sane.of_ending {r : Run τ} {e : Ending} (hEnding : r.ending = some e)
    (hCause : ∀ error, RunError.Internal error → e ≠ .failed error) : r.Sane := by
  rintro ⟨error, hInternal, hFailed⟩
  exact hCause error hInternal (Option.some.inj (hEnding.symm.trans hFailed))

theorem Sane.of_running {r : Run τ} (h : r.ending = none) : r.Sane := by
  rintro ⟨error, -, hFailed⟩
  rw [h] at hFailed
  cases hFailed

theorem Sane.of_outside {r : Run τ} {e : Ending} (hEnding : r.ending = some e) (h : e.Outside) : r.Sane := by
  refine .of_ending hEnding fun error hInternal => ?_
  cases hInternal with
  | blockMissing | libMissing | libPresent => exact h.ne_invariant _
  | noLib => exact h.ne_checkpoint _

/-- Once a block was linked, the cursor's head is stored. -/
theorem Coherent.exists_head {r : Run τ} (h : r.Coherent) (b : Block) :
    ∃ target, (r.link b).cursor.head = some target ∧ (r.link b).graph.contains target.id = true := by
  rw [link_cursor_head, link_graph]
  by_cases hFills : r.cursor.fillsGap b = true
  · obtain ⟨target, hHead, hStored⟩ := h.head b.id (by simpa [Cursor.fillsGap] using hFills)
    obtain ⟨n, hn, hId⟩ := contains_iff_exists.mp hStored
    rw [if_pos hFills]
    exact ⟨target, hHead, contains_iff_exists.mpr ⟨n, mem_link_of_mem hn, hId⟩⟩
  · rw [if_neg hFills]
    exact ⟨b.ref, rfl, contains_link_self r.graph (.fresh b)⟩

theorem Coherent.content_link {r : Run τ} (h : r.Coherent) (b : Block) :
    ∀ n ∈ (r.link b).graph.nodes, n.fired = false → n.content.isSome = true := by
  intro n hn hUnfired
  obtain hn | ⟨rfl, -⟩ := mem_link.mp hn
  · exact h.content n hn hUnfired
  · rfl

end Run

namespace Feed

variable {f : Feed τ}

/-- Firing a path to its end ends nothing, and it is cut short by the sink only. -/
theorem halt_ne_internal {path : List Node} {g : ForkGraph} {s : τ} {e : Ending}
    (hContent : ∀ n ∈ path, n.fired = false → n.content.isSome = true)
    (hHalt : (fire f.sink f.config.start path g s).ending = some e) (error : RunError)
    (hInternal : error.Internal) : e ≠ .failed error := by
  obtain ⟨passed, left, last, hPasses⟩ := fire_passes f.sink f.config.start path g s
  obtain ⟨hNone, -⟩ | ⟨e', hEnding, hLast⟩ := hPasses.ending
  · rw [hHalt] at hNone
    cases hNone
  cases hHalt.symm.trans hEnding
  rintro rfl
  cases hLast with
  | @missing n rest hUnfired _ hNone =>
    have hSome := hContent n (by rw [hPasses.split]; simp) hUnfired
    rw [hNone] at hSome
    cases hSome
  | refused => cases hInternal

theorem Settles.exists_lib_left {r : Run τ} {b : Block} {target : BlockRef} {last : Node} {graph : ForkGraph}
    (h : f.Settles b r target last graph) : ∃ lib, graph.purge.lib = some lib := by
  obtain ⟨s, move, -, hMove⟩ := h.moved
  obtain ⟨lib, hLib⟩ := lib_of_advanceLib hMove
  cases advance_of_advanceLib hLib hMove with
  | belowStart | confirmed | notFound => exact ⟨lib, hLib⟩
  | moved => exact ⟨_, rfl⟩

theorem Settles.coherent {r r' : Run τ} {b : Block} {target : BlockRef} {last : Node} {graph : ForkGraph}
    (h : f.Settles b r target last graph) (hCoherent : r.Coherent) (hGraph : r'.graph = graph.purge)
    (hAwaited : r'.cursor.awaited = none) : r'.Coherent := by
  refine ⟨hGraph ▸ h.exists_lib_left, fun n hn hUnfired => ?_, fun id hId => ?_⟩
  · rw [hGraph, mem_purge, h.nodes_eq] at hn
    obtain ⟨m, hm, rfl⟩ := mem_markAll.mp hn.1
    rw [Node.markedIn_fired, Bool.or_eq_false_iff] at hUnfired
    rw [Node.markedIn_content]
    exact hCoherent.content_link b m hm hUnfired.2
  · rw [hAwaited] at hId
    cases hId

theorem Unsaved.sane {last : Link} {r r' : Run τ} {lib : BlockRef} (h : f.Unsaved last r r')
    (hLib : r.graph.lib = some lib) : r'.Sane := by
  cases h with
  | noLib hSnapshot =>
    rw [Checkpoint.snapshot, hLib] at hSnapshot
    cases hSnapshot
  | write _ _ hSave =>
    refine .of_ending rfl fun error hInternal => ?_
    rintro ⟨rfl⟩
    cases hInternal
    exact Checkpoint.save_ne_noLib _ _ _ _ hSave

theorem Processed.sane {r r' : Run τ} {b : Block} (h : f.Processed b r r') (hRunning : r.ending = none)
    (hCoherent : r.Coherent) : r'.Sane ∧ (r'.ending = none → r'.Coherent) := by
  obtain ⟨target, hHead, hStored⟩ := hCoherent.exists_head b
  obtain ⟨lib, hLib⟩ := hCoherent.lib
  have hKept : (r.link b).graph.lib = some lib := (link_lib _ _).trans hLib
  cases h with
  | headless hNone =>
    rw [hHead] at hNone
    cases hNone
  | absent hHead' hNil =>
    cases hHead.symm.trans hHead'
    exact absurd hNil (segmentTo_ne_nil hKept hStored)
  | @gap target first hHead' =>
    cases hHead.symm.trans hHead'
    have hLike := f.wait_resembles ((r.check b target).awaiting first.parent)
    have hAwaiting : ((r.check b target).awaiting first.parent).ending = none := hRunning
    constructor
    · obtain hSame | hClosed := f.wait_cases ((r.check b target).awaiting first.parent)
      · rw [hSame]
        exact .of_running hAwaiting
      · rw [hClosed]
        exact .of_ending rfl fun error _ => by simp
    · intro _
      refine ⟨?_, ?_, fun _ _ => ?_⟩
      · rw [hLike.graph]
        exact ⟨lib, hKept⟩
      · rw [hLike.graph]
        exact hCoherent.content_link b
      · rw [hLike.graph, hLike.cursor]
        exact ⟨target, hHead, hStored⟩
  | halted _ _ hHalt =>
    refine ⟨.of_ending rfl fun error hInternal => ?_, by simp⟩
    exact halt_ne_internal (fun n hn => hCoherent.content_link b n (mem_of_mem_segmentTo hn)) hHalt error hInternal
  | refused _ _ hFired hOver hError =>
    rw [handOver_graph_of_fired hFired hOver] at hError
    obtain ⟨-, -, rfl⟩ := advanceLib_error (by rw [markAll_lib]; exact hKept) hError
    refine ⟨.of_ending rfl fun error hInternal => ?_, by simp⟩
    cases hInternal <;> simp
  | unsaved hHead' hReach hLast hFired hOver hMove hUnsaved =>
    have hSettles : f.Settles b r _ _ _ := ⟨hHead', hReach, hLast, hFired, _, _, hOver, hMove⟩
    obtain ⟨new, hNew⟩ := hSettles.exists_lib_left
    exact ⟨hUnsaved.sane hNew, fun hGoing => absurd hGoing hUnsaved.ending_ne_none⟩
  | connected hHead' hReach hLast hFired hOver hMove hSaved =>
    have hSettles : f.Settles b r _ _ _ := ⟨hHead', hReach, hLast, hFired, _, _, hOver, hMove⟩
    obtain ⟨hGraph, hCursor, hEnding⟩ := hSaved.goOn_eq hOver
    constructor
    · obtain ⟨-, hClosed⟩ | ⟨-, hSame | ⟨_, -, hClosed⟩⟩ := f.goOn_cases _ _
      · rw [hClosed]
        exact .of_ending rfl fun error _ => by simp [Ending.overflow]
      · rw [hSame]
        exact .of_running (hEnding.trans hRunning)
      · rw [hClosed]
        exact .of_ending rfl fun error _ => by simp
    · exact fun _ => hSettles.coherent hCoherent hGraph (by rw [hCursor]; rfl)

theorem Stepped.sane {r r' : Run τ} (h : f.Stepped r r') (hSane : r.Sane ∧ (r.ending = none → r.Coherent)) :
    r'.Sane ∧ (r'.ending = none → r'.Coherent) := by
  cases h with
  | ended => exact hSane
  | stopped => exact ⟨.of_ending rfl fun error _ => by simp, by simp⟩
  | below =>
    refine ⟨.of_ending rfl fun error hInternal => ?_, by simp⟩
    cases hInternal <;> simp
  | starved _ _ hFetch =>
    obtain ⟨e, hEnding, hOutside⟩ := f.ending_of_fetch_none hFetch
    refine ⟨.of_outside hEnding hOutside, fun hGoing => ?_⟩
    rw [hEnding] at hGoing
    cases hGoing
  | processed hRunning _ hTakes hProcessed =>
    have hSame := hTakes.sameBut
    obtain ⟨hLib, hContent, hHead⟩ := hSane.2 hRunning
    refine hProcessed.sane (hTakes.ending_eq.trans hRunning) ⟨?_, ?_, ?_⟩
    · rwa [hSame.graph]
    · rwa [hSame.graph]
    · rwa [hSame.graph, hSame.cursor]

theorem Begun.sane {disk : Disk} {r : Run τ} (h : f.Begun disk r) :
    r.Sane ∧ (r.ending = none → r.Coherent) := by
  cases h with
  | ended hEnding hOutside =>
    refine ⟨.of_outside hEnding hOutside, fun hGoing => ?_⟩
    rw [hEnding] at hGoing
    cases hGoing
  | cold _ hGraph hCursor _ _ hEnding =>
    refine ⟨.of_running hEnding, fun _ => ⟨⟨_, by rw [hGraph]; rfl⟩, ?_, ?_⟩⟩
    · rw [hGraph]
      exact fun n hn => absurd hn List.not_mem_nil
    · rw [hCursor]
      exact fun id hId => by cases hId
  | resumed _ _ hGraph hCursor _ hNext =>
    constructor
    · obtain ⟨-, hEnding⟩ | ⟨-, hEnding, -⟩ := hNext
      · exact .of_ending hEnding fun error _ => by simp [Ending.overflow]
      · exact .of_running hEnding
    · intro _
      refine ⟨⟨_, hGraph ▸ Checkpoint.restore_lib _⟩, ?_, ?_⟩
      · intro n hn hUnfired
        -- what a file holds was fired
        rw [hGraph] at hn
        obtain ⟨s, -, rfl⟩ := Checkpoint.exists_of_mem_restore hn
        cases hUnfired
      · rw [hCursor]
        exact fun id hId => by cases hId

/-- The runs of one poller. Each is begun with the source and the sink as the one before left them, however
far that came, and over whatever disk. -/
inductive Calls (config : Config) (sink : Sink τ) : Run τ → Prop where
  | first {f : Feed τ} (hConfig : f.config = config) (hSink : f.sink = sink) (source : Source)
      (sinkState : τ) (disk : Disk) (n : Nat) :
      Calls config sink (f.after n (f.begin source sinkState disk))
  | again {f : Feed τ} {r : Run τ} (hBefore : Calls config sink r) (hConfig : f.config = config)
      (hSink : f.sink = sink) (disk : Disk) (n : Nat) :
      Calls config sink (f.after n (f.begin r.source r.sinkState disk))

theorem sane_after (f : Feed τ) (source : Source) (sinkState : τ) (disk : Disk) (n : Nat) :
    (f.after n (f.begin source sinkState disk)).Sane :=
  (f.after_induction (f.begin_begun source sinkState disk).sane (fun _ _ hSane hStep => hStep.sane hSane) n).1

/-- No run of a poller returns an error that only its own bookkeeping could cause. -/
theorem Calls.no_internal_error {config : Config} {sink : Sink τ} {r : Run τ} (h : Calls config sink r) :
    ¬ ∃ error, RunError.Internal error ∧ r.ending = some (.failed error) := by
  cases h with
  | first => exact sane_after _ _ _ _ _
  | again => exact sane_after _ _ _ _ _

/-- A file whose LIB is not among its blocks, with a block twice and a block that is numbered below its
parent. -/
def crooked : Checkpoint where
  lib := ⟨"x", 3, ""⟩
  lastFired := ⟨"7q", 7, "6q"⟩
  blocks := [⟨"9a", 9, "8a"⟩, ⟨"4a", 4, "9a"⟩, ⟨"9a", 2, "zz"⟩]

def crookedDisk : Disk := ⟨[("state", .folder [("cursor.json", .file crooked.bytes)])]⟩

def crookedFeed : Feed Unit := .undisturbed { start := 1, retries := 1, stateDir := some ⟨["state"]⟩ }

/-- Goes round in a circle, and then asks for a block below the LIB. -/
def goingRound : Run Unit :=
  crookedFeed.after 3 (crookedFeed.begin (.scripted
    [.plain "8c" 8 "4a" 0, .plain "8a" 2 "8c" 0, .plain "8d" 8 "x" 3]) () crookedDisk)

/-- Goes on from the file once more, up to where the source has no block. -/
def goingAgain : Run Unit :=
  crookedFeed.after 2 (crookedFeed.begin goingRound.source goingRound.sinkState crookedDisk)

theorem Calls.no_internal_error_goingAgain :
    (goingRound.ending.isSome ∧ goingAgain.ending.isSome ∧ goingAgain.journal.handed.length = 1) ∧
      ¬ ∃ error, RunError.Internal error ∧ goingAgain.ending = some (.failed error) := by
  have hCalls : Calls crookedFeed.config crookedFeed.sink goingAgain :=
    .again (.first rfl rfl _ _ _ 3) rfl rfl _ 2
  exact ⟨by decide +kernel, hCalls.no_internal_error⟩

end Feed

end ChainFeed
