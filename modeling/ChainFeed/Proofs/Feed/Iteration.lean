import ChainFeed.Proofs.Feed.Record
import ChainFeed.Proofs.ForkGraph.Segment

/-! # What an iteration does

The ways in which an iteration can go are listed once, each with the run it makes. Whatever is said of
every run is proved for each of these ways and then follows by induction on the number of iterations.
-/

set_option autoImplicit false

namespace ChainFeed

variable {τ : Type}

namespace Run

@[simp] theorem record_graph (r : Run τ) (es : List Entry) : (r.record es).graph = r.graph := rfl

@[simp] theorem record_cursor (r : Run τ) (es : List Entry) : (r.record es).cursor = r.cursor := rfl

@[simp] theorem record_next (r : Run τ) (es : List Entry) : (r.record es).next = r.next := rfl

@[simp] theorem record_pending (r : Run τ) (es : List Entry) : (r.record es).pending = r.pending := rfl

@[simp] theorem record_disk (r : Run τ) (es : List Entry) : (r.record es).disk = r.disk := rfl

@[simp] theorem record_ending (r : Run τ) (es : List Entry) : (r.record es).ending = r.ending := rfl

@[simp] theorem record_journal (r : Run τ) (es : List Entry) :
    (r.record es).journal = r.journal.record es := rfl

@[simp] theorem close_graph (r : Run τ) (e : Ending) : (r.close e).graph = r.graph := rfl

@[simp] theorem close_cursor (r : Run τ) (e : Ending) : (r.close e).cursor = r.cursor := rfl

@[simp] theorem close_next (r : Run τ) (e : Ending) : (r.close e).next = r.next := rfl

@[simp] theorem close_pending (r : Run τ) (e : Ending) : (r.close e).pending = r.pending := rfl

@[simp] theorem close_disk (r : Run τ) (e : Ending) : (r.close e).disk = r.disk := rfl

@[simp] theorem close_ending (r : Run τ) (e : Ending) : (r.close e).ending = some e := rfl

@[simp] theorem close_journal (r : Run τ) (e : Ending) : (r.close e).journal = r.journal := rfl

/-- The run `r'` wrote entries after those of `r`, each of the kind `P`. -/
def Writes (P : Entry → Prop) (r r' : Run τ) : Prop :=
  ∃ more, r'.journal.entries = r.journal.entries ++ more ∧ ∀ e ∈ more, P e

namespace Writes

variable {P Q : Entry → Prop} {r s t : Run τ}

theorem refl (r : Run τ) : r.Writes P r := ⟨[], (List.append_nil _).symm, by simp⟩

theorem record {more : List Entry} (h : ∀ e ∈ more, P e) (r : Run τ) : r.Writes P (r.record more) :=
  ⟨more, Journal.entries_record _ _, h⟩

theorem mono (h : r.Writes P s) (hMore : ∀ e, P e → Q e) : r.Writes Q s := by
  obtain ⟨more, hEntries, hKind⟩ := h
  exact ⟨more, hEntries, fun e he => hMore e (hKind e he)⟩

theorem trans (h : r.Writes P s) (h' : s.Writes P t) : r.Writes P t := by
  obtain ⟨more, hEntries, hKind⟩ := h
  obtain ⟨others, hEntries', hKind'⟩ := h'
  refine ⟨more ++ others, by rw [hEntries', hEntries, List.append_assoc], fun e he => ?_⟩
  exact (List.mem_append.mp he).elim (hKind e) (hKind' e)

theorem isPrefix (h : r.Writes P s) : r.journal.entries <+: s.journal.entries := by
  obtain ⟨more, hEntries, -⟩ := h
  exact ⟨more, hEntries.symm⟩

theorem pick_eq (h : r.Writes P s) {α : Type} {p : Entry → Option α} (hp : ∀ e, P e → p e = none) :
    s.journal.pick p = r.journal.pick p := by
  obtain ⟨more, hEntries, hKind⟩ := h
  rw [Journal.pick, hEntries, List.filterMap_append,
    List.filterMap_eq_nil_iff.mpr fun e he => hp e (hKind e he), List.append_nil, Journal.pick]

end Writes

theorem andThen_of_running {r : Run τ} (h : r.ending = none) (go : Run τ → Run τ) : r.andThen go = go r := by
  rw [andThen, h]

theorem andThen_of_ended {r : Run τ} {e : Ending} (h : r.ending = some e) (go : Run τ → Run τ) :
    r.andThen go = r := by
  rw [andThen, h]

def check (r : Run τ) (b : Block) (target : BlockRef) : Run τ :=
  let path := (r.link b).graph.segmentTo target
  (r.link b).record ((path.note? target).toList.map .note ++ [
    .note (.segmentChecked target path.length path.reachesLib),
    .event (.segmentChecked target path.length path.reachesLib)])

def awaiting (r : Run τ) (missing : BlockRef) : Run τ :=
  { r with cursor := r.cursor.awaiting missing, next := missing.num }

end Run

namespace Feed

variable (f : Feed τ)

/-- The run with the path fired as far as the sink let it. -/
def handOver (path : List Node) (r : Run τ) : Run τ :=
  let fired := fire f.sink f.config.start path r.graph r.sinkState
  { r with
    cursor := r.cursor.connected
    graph := fired.graph
    sinkState := fired.sinkState }.record fired.entries

/-- The run with the LIB moved as `move` tells, and `graph` purged. -/
def advance (b : Block) (num : BlockNum) (graph : ForkGraph) (move : LibMove) (r : Run τ) : Run τ :=
  let notes := (move.note? b.ref num).toList.map .note
  let moved := move.newLib?.toList.map fun lib => .event (.libSet lib)
  let purged := if graph.belowLib.isEmpty then [] else [.event (.purged graph.belowLib)]
  { r.record [.note (.settingLib b.ref num)] with graph := graph.purge }.record (notes ++ moved ++ purged)

/-- How saving the checkpoint of a path that ends with `last` can go well. -/
inductive Saved (last : Link) (r : Run τ) : Run τ → Prop where
  | off (hDir : f.config.stateDir = none) : Saved last r r
  | on {dir path : Path} {c : Checkpoint} (hDir : f.config.stateDir = some dir)
      (hSnapshot : Checkpoint.snapshot r.graph last = .ok c)
      (hSave : (c.save (f.device r.journal) r.disk dir).outcome = .ok path) :
      Saved last r ({ r with disk := (c.save (f.device r.journal) r.disk dir).disk }.record [
        .stored c,
        .note (.saved path last.block c.lib.ref c.blocks.length),
        .event (.saved c.lib.ref last.block c.blocks.length)])

/-- How it can fail. -/
inductive Unsaved (last : Link) (r : Run τ) : Run τ → Prop where
  | noLib {e : CheckpointError} (hSnapshot : Checkpoint.snapshot r.graph last = .error e) :
      Unsaved last r (r.close (.failed (.checkpoint e)))
  | write {dir : Path} {c : Checkpoint} {e : CheckpointError} (hDir : f.config.stateDir = some dir)
      (hSnapshot : Checkpoint.snapshot r.graph last = .ok c)
      (hSave : (c.save (f.device r.journal) r.disk dir).outcome = .error e) :
      Unsaved last r ({ r with disk := (c.save (f.device r.journal) r.disk dir).disk }.close
        (.failed (.checkpoint e)))

/-- What processing the block `b` makes of a run. -/
inductive Processed (b : Block) (r : Run τ) : Run τ → Prop where
  | headless (hHead : (r.link b).cursor.head = none) :
      Processed b r ((r.link b).close (.failed (.invariant (.blockMissing b.id))))
  | absent {target : BlockRef} (hHead : (r.link b).cursor.head = some target)
      (hPath : ((r.link b).graph.segmentTo target).nodes = []) :
      Processed b r ((r.check b target).close (.failed (.invariant (.blockMissing target.id))))
  | gap {target : BlockRef} {first : Node} (hHead : (r.link b).cursor.head = some target)
      (hReach : ((r.link b).graph.segmentTo target).reachesLib = false)
      (hFirst : ((r.link b).graph.segmentTo target).nodes.head? = some first) :
      Processed b r (f.wait ((r.check b target).awaiting first.parent))
  | halted {target : BlockRef} {e : Ending} (hHead : (r.link b).cursor.head = some target)
      (hReach : ((r.link b).graph.segmentTo target).reachesLib = true)
      (hHalt : (fire f.sink f.config.start ((r.link b).graph.segmentTo target).nodes
        (r.link b).graph r.sinkState).ending = some e) :
      Processed b r ((f.handOver ((r.link b).graph.segmentTo target).nodes (r.check b target)).close e)
  /-- The reported LIB number is an error. -/
  | refused {target : BlockRef} {s : Run τ} {e : ForkError}
      (hHead : (r.link b).cursor.head = some target)
      (hReach : ((r.link b).graph.segmentTo target).reachesLib = true)
      (hFired : (fire f.sink f.config.start ((r.link b).graph.segmentTo target).nodes
        (r.link b).graph r.sinkState).ending = none)
      (hOver : f.handOver ((r.link b).graph.segmentTo target).nodes (r.check b target) = s)
      (hError : s.graph.advanceLib b.ref (f.config.libAfter b s.graph.libNum) = .error e) :
      Processed b r ((s.record [.note (.settingLib b.ref (f.config.libAfter b s.graph.libNum))]).close
        (.failed (.invariant e)))
  /-- The LIB was settled, but no checkpoint could be saved. -/
  | unsaved {target : BlockRef} {last : Node} {s r' : Run τ} {graph : ForkGraph} {move : LibMove}
      (hHead : (r.link b).cursor.head = some target)
      (hReach : ((r.link b).graph.segmentTo target).reachesLib = true)
      (hLast : ((r.link b).graph.segmentTo target).nodes.getLast? = some last)
      (hFired : (fire f.sink f.config.start ((r.link b).graph.segmentTo target).nodes
        (r.link b).graph r.sinkState).ending = none)
      (hOver : f.handOver ((r.link b).graph.segmentTo target).nodes (r.check b target) = s)
      (hMove : s.graph.advanceLib b.ref (f.config.libAfter b s.graph.libNum) = .ok (graph, move))
      (hUnsaved : f.Unsaved last.toLink (advance b (f.config.libAfter b s.graph.libNum) graph move s) r') :
      Processed b r r'
  | connected {target : BlockRef} {last : Node} {s t : Run τ} {graph : ForkGraph} {move : LibMove}
      (hHead : (r.link b).cursor.head = some target)
      (hReach : ((r.link b).graph.segmentTo target).reachesLib = true)
      (hLast : ((r.link b).graph.segmentTo target).nodes.getLast? = some last)
      (hFired : (fire f.sink f.config.start ((r.link b).graph.segmentTo target).nodes
        (r.link b).graph r.sinkState).ending = none)
      (hOver : f.handOver ((r.link b).graph.segmentTo target).nodes (r.check b target) = s)
      (hMove : s.graph.advanceLib b.ref (f.config.libAfter b s.graph.libNum) = .ok (graph, move))
      (hSaved : f.Saved last.toLink (advance b (f.config.libAfter b s.graph.libNum) graph move s) t) :
      Processed b r (f.goOn last.toLink t)

theorem saved_or_unsaved (last : Link) {r : Run τ} (hRunning : r.ending = none) :
    f.Saved last r (f.save last r) ∧ (f.save last r).ending = none ∨
      f.Unsaved last r (f.save last r) ∧ (f.save last r).ending.isSome := by
  unfold save
  cases hDir : f.config.stateDir with
  | none => exact .inl ⟨.off hDir, hRunning⟩
  | some dir =>
    cases hSnapshot : Checkpoint.snapshot r.graph last with
    | error e => exact .inr ⟨.noLib hSnapshot, rfl⟩
    | ok c =>
      simp only
      cases hSave : (c.save (f.device r.journal) r.disk dir).outcome with
      | error e => exact .inr ⟨.write hDir hSnapshot hSave, rfl⟩
      | ok path => exact .inl ⟨.on hDir hSnapshot hSave, hRunning⟩

theorem connect_eq (b : Block) {path : List Node} {r : Run τ} (hStored : ∀ n ∈ path, n ∈ r.graph.nodes)
    (hDistinct : (path.map Node.id).Nodup) :
    f.connect b (path.map Node.toLink) r =
      match (fire f.sink f.config.start path r.graph r.sinkState).ending with
      | some ending => (f.handOver path r).close ending
      | none => f.settle b (f.handOver path r) := by
  unfold connect
  rw [fireLinks_eq_fire f.sink f.config.start hStored hDistinct]
  rfl

theorem settle_eq (b : Block) (r : Run τ) :
    f.settle b r =
      match r.graph.advanceLib b.ref (f.config.libAfter b r.graph.libNum) with
      | .error e =>
        (r.record [.note (.settingLib b.ref (f.config.libAfter b r.graph.libNum))]).close
          (.failed (.invariant e))
      | .ok (graph, move) => advance b (f.config.libAfter b r.graph.libNum) graph move r := rfl

theorem process_eq (b : Block) (r : Run τ) :
    f.process b r =
      match (r.link b).cursor.head with
      | none => (r.link b).close (.failed (.invariant (.blockMissing b.id)))
      | some target =>
        match ((r.link b).graph.segmentTo target).nodes.head?,
            ((r.link b).graph.segmentTo target).nodes.getLast? with
        | some first, some last =>
          if ((r.link b).graph.segmentTo target).reachesLib then
            ((f.connect b ((r.link b).graph.segmentTo target).links (r.check b target)).andThen
              (f.save last.toLink)).andThen (f.goOn last.toLink)
          else
            f.wait ((r.check b target).awaiting first.parent)
        | _, _ => (r.check b target).close (.failed (.invariant (.blockMissing target.id))) := rfl

theorem processed (b : Block) {r : Run τ} (hRunning : r.ending = none) :
    f.Processed b r (f.process b r) := by
  rw [process_eq]
  cases hHead : (r.link b).cursor.head with
  | none => exact .headless hHead
  | some target =>
    simp only
    cases hFirst : ((r.link b).graph.segmentTo target).nodes.head? with
    | none => exact .absent hHead (List.head?_eq_none_iff.mp hFirst)
    | some first =>
      cases hLast : ((r.link b).graph.segmentTo target).nodes.getLast? with
      | none =>
        rw [List.getLast?_eq_none_iff.mp hLast] at hFirst
        cases hFirst
      | some last =>
        cases hReach : ((r.link b).graph.segmentTo target).reachesLib with
        | false => exact .gap hHead hReach hFirst
        | true =>
          simp only [if_true]
          have hStored : ∀ n ∈ ((r.link b).graph.segmentTo target).nodes, n ∈ (r.check b target).graph.nodes :=
            fun _ hn => ForkGraph.mem_of_mem_segmentTo hn
          rw [Segment.links, f.connect_eq b hStored (ForkGraph.segmentTo_nodup _ target)]
          cases hFired : (fire f.sink f.config.start ((r.link b).graph.segmentTo target).nodes
              (r.check b target).graph (r.check b target).sinkState).ending with
          | some e => exact .halted hHead hReach hFired
          | none =>
            simp only
            generalize hOver : f.handOver ((r.link b).graph.segmentTo target).nodes (r.check b target) = s
            have hOverRunning : s.ending = none := by rw [← hOver]; exact hRunning
            rw [settle_eq]
            cases hMove : s.graph.advanceLib b.ref (f.config.libAfter b s.graph.libNum) with
            | error e => exact .refused hHead hReach hFired hOver hMove
            | ok moved =>
              obtain ⟨graph, move⟩ := moved
              have hSettled : (advance b (f.config.libAfter b s.graph.libNum) graph move s).ending = none :=
                hOverRunning
              simp only [Run.andThen_of_running hSettled]
              rcases f.saved_or_unsaved last.toLink hSettled with ⟨hSaved, hGoesOn⟩ | ⟨hUnsaved, hEnded⟩
              · rw [Run.andThen_of_running hGoesOn]
                exact .connected hHead hReach hLast hFired hOver hMove hSaved
              · obtain ⟨e, hEnd⟩ := Option.isSome_iff_exists.mp hEnded
                rw [Run.andThen_of_ended hEnd]
                exact .unsaved hHead hReach hLast hFired hOver hMove hUnsaved

/-! ## Waiting and going on -/

/-- Waiting changes nothing, or ends the run with a note. -/
theorem wait_cases (r : Run τ) :
    f.wait r = r ∨ f.wait r = (r.record [.note (.stoppedWaiting r.next)]).close .finished := by
  unfold wait
  split
  · exact .inr rfl
  · exact .inl rfl

/-- Going on sets the next number, if there is one, and changes nothing else unless it ends the run, with a report
at most. -/
theorem goOn_cases (last : Link) (r : Run τ) :
    last.num = BlockNum.highest ∧ f.goOn last r = r.close .overflow ∨
      last.num ≠ BlockNum.highest ∧
        (f.goOn last r = { r with next := last.num + 1 } ∨
          ∃ n : Note, ((Entry.note n).linked? = none ∧ (Entry.note n).unfound? = none) ∧
            f.goOn last r = ({ r with next := last.num + 1 }.record [.note n]).close .finished) := by
  unfold goOn BlockNum.next?
  by_cases hHighest : last.num = BlockNum.highest
  · rw [if_pos hHighest]
    exact .inl ⟨hHighest, rfl⟩
  · rw [if_neg hHighest]
    refine .inr ⟨hHighest, ?_⟩
    have hWait : f.wait { r with next := last.num + 1 } = { r with next := last.num + 1 } ∨
        ∃ n : Note, ((Entry.note n).linked? = none ∧ (Entry.note n).unfound? = none) ∧
          f.wait { r with next := last.num + 1 } =
            ({ r with next := last.num + 1 }.record [.note n]).close .finished := by
      rcases f.wait_cases { r with next := last.num + 1 } with h | h
      · exact .inl h
      · exact .inr ⟨_, ⟨rfl, rfl⟩, h⟩
    simp only
    split
    · exact hWait
    · split
      · exact .inr ⟨_, ⟨rfl, rfl⟩, rfl⟩
      · exact hWait

theorem ending_goOn {last : Link} {r : Run τ} (hLow : last.num ≠ BlockNum.highest)
    (hRunning : r.ending = none) :
    (f.goOn last r).ending = none ∨ (f.goOn last r).ending = some .finished := by
  rcases f.goOn_cases last r with ⟨hHighest, -⟩ | ⟨-, hSame | ⟨_, -, hClosed⟩⟩
  · exact absurd hHighest hLow
  · rw [hSame]
    exact .inl hRunning
  · rw [hClosed]
    exact .inr rfl

theorem wait_of_running {r : Run τ} (h : (f.wait r).ending = none) : f.wait r = r := by
  rcases f.wait_cases r with hSame | hClosed
  · exact hSame
  · rw [hClosed] at h
    cases h

theorem goOn_of_running {last : Link} {r : Run τ} (h : (f.goOn last r).ending = none) :
    last.num ≠ BlockNum.highest ∧ f.goOn last r = { r with next := last.num + 1 } := by
  rcases f.goOn_cases last r with ⟨-, hClosed⟩ | ⟨hLow, hSame | ⟨n, -, hClosed⟩⟩
  · rw [hClosed] at h
    cases h
  · exact ⟨hLow, hSame⟩
  · rw [hClosed] at h
    cases h

theorem next_goOn_of_running {last : Link} {r : Run τ} (h : (f.goOn last r).ending = none) :
    last.num ≠ BlockNum.highest ∧ (f.goOn last r).next = last.num + 1 := by
  obtain ⟨hLow, hSame⟩ := f.goOn_of_running h
  rw [hSame]
  exact ⟨hLow, rfl⟩

/-! ## Fetching -/

/-- The block an iteration takes up, with the run that it is processed in. -/
inductive Takes (r : Run τ) (b : Block) : Run τ → Prop where
  | pending (hPending : r.pending = some b) : Takes r b { r with pending := none }
  | fetched {r' : Run τ} (hPending : r.pending = none) (hFetch : f.fetch r.next r = (r', some b)) :
      Takes r b r'

/-- What an iteration makes of a run. -/
inductive Stepped (r : Run τ) : Run τ → Prop where
  | ended (hEnded : r.ending.isSome) : Stepped r r
  | stopped (hRunning : r.ending = none) :
      Stepped r ((r.record [.note (.stopRequested r.next)]).close .finished)
  | below (hRunning : r.ending = none) (hBelow : r.next < r.graph.libNum) :
      Stepped r (r.close (.failed (.invariant (.belowLib r.next r.graph.libNum))))
  | starved {r' : Run τ} (hRunning : r.ending = none) (hPending : r.pending = none)
      (hFetch : f.fetch r.next r = (r', none)) : Stepped r r'
  | processed {b : Block} {s r' : Run τ} (hRunning : r.ending = none) (hAbove : r.graph.libNum ≤ r.next)
      (hTakes : f.Takes r b s) (hProcessed : f.Processed b s r') : Stepped r r'

theorem fetch_keeps_ending {num : BlockNum} {r r' : Run τ} {b : Block}
    (h : f.fetch num r = (r', some b)) : r'.ending = r.ending := by
  unfold fetch at h
  simp only at h
  split at h <;> cases h
  rfl

theorem stepped (r : Run τ) : f.Stepped r (f.step r) := by
  unfold step
  split
  next hEnded => exact .ended (by rw [hEnded]; rfl)
  next hRunning =>
    split
    · exact .stopped hRunning
    · unfold checkAboveLib
      by_cases hBelow : r.next < r.graph.libNum
      · rw [if_pos hBelow]
        exact .below hRunning hBelow
      · rw [if_neg hBelow]
        have hAbove : r.graph.libNum ≤ r.next := UInt64.not_lt.mp hBelow
        simp only
        split
        next b hPending => exact .processed hRunning hAbove (.pending hPending) (f.processed b hRunning)
        next hPending =>
          split
          next r' hFetch => exact .starved hRunning hPending hFetch
          next r' b hFetch =>
            exact .processed hRunning hAbove (.fetched hPending hFetch)
              (f.processed b ((f.fetch_keeps_ending hFetch).trans hRunning))

/-- An iteration that nothing keeps from taking up a block processes it. -/
theorem step_of_takes {f : Feed τ} {r s : Run τ} {b : Block} (hRunning : r.ending = none)
    (hGoing : f.stopped r.journal = false) (hAbove : r.graph.libNum ≤ r.next) (hTakes : f.Takes r b s) :
    f.step r = f.process b s := by
  have hCheck : checkAboveLib r.next r.graph.libNum = .ok () := if_neg (UInt64.not_lt.mpr hAbove)
  rw [step, hRunning]
  simp only [hGoing, Bool.false_eq_true, if_false, hCheck]
  cases hTakes with
  | pending hPending => rw [hPending, hRunning]
  | fetched hPending hFetch =>
    rw [hPending]
    simp only [hFetch]

/-- What holds at first and is kept by each iteration holds throughout. -/
theorem after_induction {P : Run τ → Prop} {r : Run τ} (hStart : P r)
    (hStep : ∀ s s', P s → f.Stepped s s' → P s') (n : Nat) : P (f.after n r) := by
  induction n with
  | zero => exact hStart
  | succ n ih => exact hStep _ _ ih (f.stepped _)

end Feed

end ChainFeed
