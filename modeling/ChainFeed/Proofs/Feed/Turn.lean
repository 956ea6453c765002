import ChainFeed.Proofs.Feed.Request
import ChainFeed.Proofs.ForkGraph.Segment

/-! # What processing a block leaves

Processing a block links it, then may fire the path to the cursor's head, and then may settle the LIB.
How far that went tells the graph that is left and the blocks that were accepted on the way; events and
notes tell nothing more.
-/

set_option autoImplicit false

namespace ChainFeed

variable {τ : Type}

/-! ## Stages -/

namespace Run

@[simp] theorem link_graph (r : Run τ) (b : Block) : (r.link b).graph = r.graph.link (.fresh b) := rfl

@[simp] theorem check_graph (r : Run τ) (b : Block) (target : BlockRef) :
    (r.check b target).graph = r.graph.link (.fresh b) := rfl

def added (r : Run τ) (b : Block) : Entry :=
  .note (.blockAdded b.ref (r.graph.contains b.id) (r.graph.knows b.parentId) (r.cursor.fillsGap b)
    (r.link b).cursor.state)

theorem link_journal (r : Run τ) (b : Block) : (r.link b).journal = r.journal.record [r.added b] := rfl

theorem link_reports (r : Run τ) (b : Block) : r.Writes Entry.IsReport (r.link b) :=
  ⟨[r.added b], Journal.entries_record _ _, List.forall_mem_singleton.mpr (.note rfl)⟩

theorem check_reports (r : Run τ) (b : Block) (target : BlockRef) :
    r.Writes Entry.IsReport (r.check b target) := by
  refine (r.link_reports b).trans (.record (fun e he => ?_) _)
  simp only [Segment.note?, List.mem_append, List.mem_map, Option.mem_toList, List.mem_cons,
    List.not_mem_nil, or_false] at he
  rcases he with ⟨n, hn, rfl⟩ | rfl | rfl
  · split at hn <;> cases hn
    exact .note rfl
  · exact .note rfl
  · exact .event _

end Run

namespace Feed

variable (f : Feed τ)

theorem handOver_journal (path : List Node) (r : Run τ) :
    (f.handOver path r).journal =
      r.journal.record (fire f.sink f.config.start path r.graph r.sinkState).entries := rfl

@[simp] theorem advance_graph (b : Block) (num : BlockNum) (graph : ForkGraph) (move : LibMove)
    (r : Run τ) : (advance b num graph move r).graph = graph.purge := rfl

/-- Only a move that misses the LIB is told by more than reports. -/
theorem advance_writes (b : Block) (num : BlockNum) (graph : ForkGraph) (move : LibMove) (r : Run τ) :
    r.Writes (fun e => e.IsReport ∨ ∃ current, move = .notFound current ∧ e = .note (.libNotFound num b.ref current))
      (advance b num graph move r) := by
  refine (Run.Writes.record (List.forall_mem_singleton.mpr (.inl (.note rfl))) r).trans (.record (fun e he => ?_) _)
  simp only [List.mem_append, List.mem_map, Option.mem_toList] at he
  rcases he with (⟨n, hn, rfl⟩ | ⟨lib, -, rfl⟩) | he
  · cases move with
    | confirmed => cases hn
    | belowStart | moved =>
      cases hn
      exact .inl (.note rfl)
    | notFound current =>
      cases hn
      exact .inr ⟨current, rfl, rfl⟩
  · exact .inl (.event _)
  · split at he
    · cases he
    · rw [List.mem_singleton.mp he]
      exact .inl (.event _)

theorem pick_advance {α : Type} {p : Entry → Option α} (hp : Entry.IgnoresReports p) {b : Block} {num : BlockNum}
    {move : LibMove}
    (hMissed : ∀ current, move = .notFound current → p (.note (.libNotFound num b.ref current)) = none)
    (graph : ForkGraph) (r : Run τ) : (advance b num graph move r).journal.pick p = r.journal.pick p := by
  refine (advance_writes b num graph move r).pick_eq fun e he => ?_
  obtain hReport | ⟨current, hMove, rfl⟩ := he
  · exact hp.eq_none_of_isReport hReport
  · exact hMissed current hMove

/-- A run that differs from `r` in the number fetched next and in how it ended at most, and says no more
than `r` but in reports. -/
structure Resembles (r r' : Run τ) : Prop where
  graph : r'.graph = r.graph
  cursor : r'.cursor = r.cursor
  pending : r'.pending = r.pending
  disk : r'.disk = r.disk
  reports : r.Writes Entry.IsReport r'

theorem resembles_record_note {r : Run τ} {n : Note} (hn : (Entry.note n).unfound? = none) (e : Ending) :
    Resembles r ((r.record [.note n]).close e) :=
  ⟨rfl, rfl, rfl, rfl, .record (List.forall_mem_singleton.mpr (.note hn)) r⟩

theorem Resembles.trans_next {r r' : Run τ} {next : BlockNum} (h : Resembles { r with next := next } r') :
    Resembles r r' :=
  ⟨h.graph, h.cursor, h.pending, h.disk, h.reports⟩

theorem resembles_refl (r : Run τ) : Resembles r r := ⟨rfl, rfl, rfl, rfl, .refl r⟩

theorem stop_resembles (r : Run τ) :
    Resembles r ((r.record [.note (.stopRequested r.next)]).close .finished) :=
  resembles_record_note rfl _

theorem Resembles.pick_eq {α : Type} {p : Entry → Option α} {r r' : Run τ} (h : Resembles r r')
    (hp : Entry.IgnoresReports p) : r'.journal.pick p = r.journal.pick p :=
  h.reports.pick_eq fun _ => hp.eq_none_of_isReport

theorem wait_resembles (r : Run τ) : Resembles r (f.wait r) := by
  rcases f.wait_cases r with h | h
  · rw [h]
    exact resembles_refl r
  · rw [h]
    exact resembles_record_note rfl _

theorem goOn_resembles (last : Link) (r : Run τ) : Resembles r (f.goOn last r) := by
  rcases f.goOn_cases last r with ⟨-, h⟩ | ⟨-, h | ⟨n, hn, h⟩⟩
  · rw [h]
    exact ⟨rfl, rfl, rfl, rfl, .refl r⟩
  · rw [h]
    exact (resembles_refl _).trans_next
  · rw [h]
    exact (resembles_record_note hn.2 _).trans_next

variable {f}

theorem Saved.graph_eq {last : Link} {r t : Run τ} (h : f.Saved last r t) : t.graph = r.graph := by
  cases h <;> rfl

theorem Saved.writes {last : Link} {r t : Run τ} (h : f.Saved last r t) :
    r.Writes (fun e => e.IsReport ∨ ∃ c, e = .stored c) t := by
  cases h with
  | off => exact .refl r
  | on hDir hSnapshot hSave =>
    refine .record (fun e he => ?_) _
    simp only [List.mem_cons, List.not_mem_nil, or_false] at he
    rcases he with rfl | rfl | rfl
    · exact .inr ⟨_, rfl⟩
    · exact .inl (.note rfl)
    · exact .inl (.event _)

theorem Saved.pick_eq {α : Type} {p : Entry → Option α} {last : Link} {r t : Run τ}
    (h : f.Saved last r t) (hp : Entry.IgnoresReports p) (hStored : ∀ c, p (.stored c) = none) :
    t.journal.pick p = r.journal.pick p := by
  refine h.writes.pick_eq ?_
  rintro e (hReport | ⟨c, rfl⟩)
  · exact hp.eq_none_of_isReport hReport
  · exact hStored c

theorem Saved.checkpoints_cases {last : Link} {r t : Run τ} (h : f.Saved last r t) :
    t.journal.pick Entry.checkpoint? = r.journal.pick Entry.checkpoint? ∨
      ∃ c, Checkpoint.snapshot r.graph last = .ok c ∧
        t.journal.pick Entry.checkpoint? = r.journal.pick Entry.checkpoint? ++ [c] := by
  cases h with
  | off => exact .inl rfl
  | on hDir hSnapshot hSave => exact .inr ⟨_, hSnapshot, Journal.pick_record _ _ _⟩

theorem Unsaved.graph_eq {last : Link} {r t : Run τ} (h : f.Unsaved last r t) : t.graph = r.graph := by
  cases h <;> rfl

theorem Unsaved.journal_eq {last : Link} {r t : Run τ} (h : f.Unsaved last r t) :
    t.journal = r.journal := by
  cases h <;> rfl

end Feed

/-! ## Turns -/

/-- What processing `b` makes of a graph, and the blocks accepted meanwhile. -/
inductive Turn (start : BlockNum) (b : Block) (g : ForkGraph) : ForkGraph → List Block → Prop where
  | linked : Turn start b g (g.link (.fresh b)) []
  | halted {target : BlockRef} {passed left : List Node}
      (hReach : ((g.link (.fresh b)).segmentTo target).reachesLib = true)
      (hPath : ((g.link (.fresh b)).segmentTo target).nodes = passed ++ left)
      (hContent : ∀ n ∈ passed, n.fired = false → start ≤ n.num → n.content.isSome) :
      Turn start b g ((g.link (.fresh b)).markAll (newlyFired passed))
        (passed.filterMap (Node.delivered? start))
  | settled {target lib : BlockRef} {path : List Node} {num : BlockNum} {g' : ForkGraph} {move : LibMove}
      (hLib : g.lib = some lib) (hReach : ((g.link (.fresh b)).segmentTo target).reachesLib = true)
      (hPath : ((g.link (.fresh b)).segmentTo target).nodes = path)
      (hMove : ForkGraph.Advance ((g.link (.fresh b)).markAll (newlyFired path)) lib b.ref num g' move)
      (hContent : ∀ n ∈ path, n.fired = false → start ≤ n.num → n.content.isSome) :
      Turn start b g g'.purge (path.filterMap (Node.delivered? start))

namespace Feed

variable {f : Feed τ}

theorem handOver_passes (path : List Node) (r : Run τ) :
    ∃ passed left, path = passed ++ left ∧
      (∀ n ∈ passed, n.fired = false → f.config.start ≤ n.num → n.content.isSome) ∧
      (f.handOver path r).graph = r.graph.markAll (newlyFired passed) ∧
      (f.handOver path r).journal.pick Entry.accepted? =
        r.journal.pick Entry.accepted? ++ passed.filterMap (Node.delivered? f.config.start) ∧
      ((fire f.sink f.config.start path r.graph r.sinkState).ending = none → passed = path) := by
  obtain ⟨passed, left, last, h⟩ := fire_passes f.sink f.config.start path r.graph r.sinkState
  refine ⟨passed, left, h.split, h.content, h.graph, ?_, fun hEnding => (h.of_ending_none hEnding).1⟩
  rw [handOver_journal, Journal.pick_record, h.accepted_eq]

theorem lib_of_advanceLib {g g' : ForkGraph} {head : BlockRef} {num : BlockNum} {move : LibMove}
    (h : g.advanceLib head num = .ok (g', move)) : ∃ lib, g.lib = some lib := by
  cases hLib : g.lib with
  | some lib => exact ⟨lib, rfl⟩
  | none =>
    rw [ForkGraph.advanceLib, hLib] at h
    cases h

theorem pick_link {α : Type} {p : Entry → Option α} (hp : Entry.IgnoresReports p) (r : Run τ) (b : Block) :
    (r.link b).journal.pick p = r.journal.pick p :=
  (r.link_reports b).pick_eq fun _ => hp.eq_none_of_isReport

theorem pick_check {α : Type} {p : Entry → Option α} (hp : Entry.IgnoresReports p) (r : Run τ) (b : Block)
    (target : BlockRef) : (r.check b target).journal.pick p = r.journal.pick p :=
  (r.check_reports b target).pick_eq fun _ => hp.eq_none_of_isReport

theorem turn_of_settled {r s : Run τ} {b : Block} {target : BlockRef} {num : BlockNum}
    {graph : ForkGraph} {move : LibMove} (hReach : ((r.link b).graph.segmentTo target).reachesLib = true)
    (hFired : (fire f.sink f.config.start ((r.link b).graph.segmentTo target).nodes
      (r.link b).graph r.sinkState).ending = none)
    (hOver : f.handOver ((r.link b).graph.segmentTo target).nodes (r.check b target) = s)
    (hMove : s.graph.advanceLib b.ref num = .ok (graph, move)) :
    ∃ accepted, Turn f.config.start b r.graph graph.purge accepted ∧
      (advance b num graph move s).journal.pick Entry.accepted? =
        r.journal.pick Entry.accepted? ++ accepted := by
  obtain ⟨passed, left, -, hContent, hGraph, hAccepted, hWhole⟩ :=
    handOver_passes (f := f) ((r.link b).graph.segmentTo target).nodes (r.check b target)
  have hPassed := hWhole hFired
  subst hPassed
  rw [hOver] at hGraph hAccepted
  obtain ⟨lib, hLib⟩ := lib_of_advanceLib hMove
  have hBefore : r.graph.lib = some lib := by rw [← hLib, hGraph]; simp
  have hAdvance := ForkGraph.advance_of_advanceLib hLib hMove
  rw [hGraph] at hAdvance
  refine ⟨_, .settled hBefore hReach rfl hAdvance hContent, ?_⟩
  rw [pick_advance Entry.accepted?_ignoresReports fun _ _ => rfl, hAccepted,
    pick_check Entry.accepted?_ignoresReports, Run.link_graph]

theorem pick_handOver {α : Type} {p : Entry → Option α} (hp : Entry.IgnoresReports p)
    (hHanded : ∀ b d, p (.handed b d) = none) (path : List Node) (r : Run τ) :
    (f.handOver path r).journal.pick p = r.journal.pick p := by
  obtain ⟨passed, left, last, h⟩ := fire_passes f.sink f.config.start path r.graph r.sinkState
  rw [handOver_journal, Journal.pick_record, h.filterMap_entries_eq_nil hHanded hp.event,
    List.append_nil]

theorem Processed.turn {b : Block} {r r' : Run τ} (h : f.Processed b r r') :
    ∃ accepted, Turn f.config.start b r.graph r'.graph accepted ∧
      r'.journal.pick Entry.accepted? = r.journal.pick Entry.accepted? ++ accepted := by
  cases h with
  | headless =>
    refine ⟨[], .linked, ?_⟩
    rw [Run.close_journal, pick_link Entry.accepted?_ignoresReports, List.append_nil]
  | absent =>
    refine ⟨[], .linked, ?_⟩
    rw [Run.close_journal, pick_check Entry.accepted?_ignoresReports, List.append_nil]
  | gap =>
    refine ⟨[], ?_, ?_⟩
    · rw [(f.wait_resembles _).graph]
      exact .linked
    · rw [(f.wait_resembles _).pick_eq Entry.accepted?_ignoresReports, List.append_nil]
      exact pick_check Entry.accepted?_ignoresReports _ _ _
  | @halted target _ _ hReach =>
    obtain ⟨passed, left, hPath, hContent, hGraph, hAccepted, -⟩ :=
      handOver_passes (f := f) ((r.link b).graph.segmentTo target).nodes (r.check b target)
    refine ⟨passed.filterMap (Node.delivered? f.config.start), ?_, ?_⟩
    · rw [Run.close_graph, hGraph]
      exact .halted hReach hPath hContent
    · rw [Run.close_journal, hAccepted, pick_check Entry.accepted?_ignoresReports]
  | @refused target s e hHead hReach hFired hOver hError =>
    obtain ⟨passed, left, hPath, hContent, hGraph, hAccepted, -⟩ :=
      handOver_passes (f := f) ((r.link b).graph.segmentTo target).nodes (r.check b target)
    rw [hOver] at hGraph hAccepted
    refine ⟨passed.filterMap (Node.delivered? f.config.start), ?_, ?_⟩
    · rw [Run.close_graph, Run.record_graph, hGraph]
      exact .halted hReach hPath hContent
    · rw [Run.close_journal, Run.record_journal, Journal.pick_record, hAccepted,
        pick_check Entry.accepted?_ignoresReports]
      simp [Entry.accepted?]
  | @unsaved target last s r' graph move hHead hReach hLast hFired hOver hMove hUnsaved =>
    obtain ⟨accepted, hTurn, hAccepted⟩ := turn_of_settled hReach hFired hOver hMove
    refine ⟨accepted, ?_, ?_⟩
    · rw [hUnsaved.graph_eq]
      exact hTurn
    · rw [hUnsaved.journal_eq, hAccepted]
  | @connected target last s t graph move hHead hReach hLast hFired hOver hMove hSaved =>
    obtain ⟨accepted, hTurn, hAccepted⟩ := turn_of_settled hReach hFired hOver hMove
    refine ⟨accepted, ?_, ?_⟩
    · rw [(f.goOn_resembles _ _).graph, hSaved.graph_eq]
      exact hTurn
    · rw [(f.goOn_resembles _ _).pick_eq Entry.accepted?_ignoresReports,
        hSaved.pick_eq Entry.accepted?_ignoresReports (fun _ => rfl), hAccepted]

/-- Processing `b` fires the path to the head, and then does not find the LIB that it seeks at `num`. -/
inductive Misses (f : Feed τ) (b : Block) (r : Run τ) (current : BlockRef) : BlockNum → Prop where
  | missed {target : BlockRef} {s : Run τ} {graph : ForkGraph} (hHead : (r.link b).cursor.head = some target)
      (hReach : ((r.link b).graph.segmentTo target).reachesLib = true)
      (hFired : (fire f.sink f.config.start ((r.link b).graph.segmentTo target).nodes
        (r.link b).graph r.sinkState).ending = none)
      (hOver : f.handOver ((r.link b).graph.segmentTo target).nodes (r.check b target) = s)
      (hMove : s.graph.advanceLib b.ref (f.config.libAfter b s.graph.libNum) = .ok (graph, .notFound current)) :
      Misses f b r current (f.config.libAfter b s.graph.libNum)

/-- What is written once the path to the head was fired. -/
inductive Settling (f : Feed τ) (b : Block) (r : Run τ) : Entry → Prop where
  | report {e : Entry} (hReport : e.IsReport) : Settling f b r e
  | missed {num : BlockNum} {current : BlockRef} (hMissed : f.Misses b r current num) :
      Settling f b r (.note (.libNotFound num b.ref current))
  | stored (c : Checkpoint) : Settling f b r (.stored c)

/-- Processing a block writes reports, or it fires the path to the head and settles the LIB after that. -/
theorem Processed.writes {b : Block} {r r' : Run τ} (h : f.Processed b r r') :
    r.Writes Entry.IsReport r' ∨
      ∃ target, (r.link b).cursor.head = some target ∧ ((r.link b).graph.segmentTo target).reachesLib = true ∧
        (f.handOver ((r.link b).graph.segmentTo target).nodes (r.check b target)).Writes (f.Settling b r) r' := by
  have hAdvance : ∀ {target : BlockRef} {s : Run τ} {graph : ForkGraph} {move : LibMove},
      (r.link b).cursor.head = some target → ((r.link b).graph.segmentTo target).reachesLib = true →
      (fire f.sink f.config.start ((r.link b).graph.segmentTo target).nodes
        (r.link b).graph r.sinkState).ending = none →
      f.handOver ((r.link b).graph.segmentTo target).nodes (r.check b target) = s →
      s.graph.advanceLib b.ref (f.config.libAfter b s.graph.libNum) = .ok (graph, move) →
      s.Writes (f.Settling b r) (advance b (f.config.libAfter b s.graph.libNum) graph move s) := by
    intro target s graph move hHead hReach hFired hOver hMove
    refine (advance_writes _ _ _ _ _).mono ?_
    rintro e (hReport | ⟨current, rfl, rfl⟩)
    · exact .report hReport
    · exact .missed (.missed hHead hReach hFired hOver hMove)
  cases h with
  | headless => exact .inl (r.link_reports b)
  | absent => exact .inl (r.check_reports b _)
  | gap => exact .inl ((r.check_reports b _).trans (f.wait_resembles _).reports)
  | halted hHead hReach => exact .inr ⟨_, hHead, hReach, .refl _⟩
  | refused hHead hReach _ hOver =>
    subst hOver
    exact .inr ⟨_, hHead, hReach, .record (List.forall_mem_singleton.mpr (.report (.note rfl))) _⟩
  | unsaved hHead hReach _ hFired hOver hMove hUnsaved =>
    refine .inr ⟨_, hHead, hReach, ?_⟩
    rw [hOver, Run.Writes, hUnsaved.journal_eq]
    exact hAdvance hHead hReach hFired hOver hMove
  | connected hHead hReach _ hFired hOver hMove hSaved =>
    refine .inr ⟨_, hHead, hReach, ?_⟩
    rw [hOver]
    refine (hAdvance hHead hReach hFired hOver hMove).trans (hSaved.writes.mono ?_ |>.trans ?_)
    · rintro e (hReport | ⟨c, rfl⟩)
      · exact .report hReport
      · exact .stored c
    · exact (f.goOn_resembles _ _).reports.mono fun _ => .report

theorem Settling.eq_none {α : Type} {p : Entry → Option α} {b : Block} {r : Run τ} {e : Entry}
    (h : f.Settling b r e) (hp : Entry.IgnoresReports p) (hStored : ∀ c, p (.stored c) = none)
    (hMissed : ∀ num current, f.Misses b r current num → p (.note (.libNotFound num b.ref current)) = none) :
    p e = none := by
  cases h with
  | report hReport => exact hp.eq_none_of_isReport hReport
  | missed hMisses => exact hMissed _ _ hMisses
  | stored c => exact hStored c

/-- Processing a block writes deliveries, a checkpoint and reports, and a note if it misses the LIB. -/
theorem Processed.pick_eq {α : Type} {p : Entry → Option α} {b : Block} {r r' : Run τ}
    (h : f.Processed b r r') (hp : Entry.IgnoresReports p) (hHanded : ∀ b d, p (.handed b d) = none)
    (hStored : ∀ c, p (.stored c) = none)
    (hMissed : ∀ num current, f.Misses b r current num → p (.note (.libNotFound num b.ref current)) = none) :
    r'.journal.pick p = r.journal.pick p := by
  obtain hReports | ⟨target, -, -, hSettling⟩ := h.writes
  · exact hReports.pick_eq fun _ => hp.eq_none_of_isReport
  · rw [hSettling.pick_eq fun e he => he.eq_none hp hStored hMissed, pick_handOver hp hHanded, pick_check hp]

/-- Processing a block asks the source nothing. -/
theorem Processed.answers_eq {b : Block} {r r' : Run τ} (h : f.Processed b r r') :
    r'.journal.pick Entry.answer? = r.journal.pick Entry.answer? :=
  h.pick_eq Entry.answer?_ignoresReports (fun _ _ => rfl) (fun _ => rfl) fun _ _ _ => rfl

theorem Unsaved.pending_eq {last : Link} {r t : Run τ} (h : f.Unsaved last r t) :
    t.pending = r.pending := by
  cases h <;> rfl

theorem Saved.pending_eq {last : Link} {r t : Run τ} (h : f.Saved last r t) : t.pending = r.pending := by
  cases h <;> rfl

theorem Saved.ending_eq {last : Link} {r t : Run τ} (h : f.Saved last r t) : t.ending = r.ending := by
  cases h <;> rfl

theorem Processed.pending_eq {b : Block} {r r' : Run τ} (h : f.Processed b r r') :
    r'.pending = r.pending := by
  cases h with
  | headless | absent | halted => rfl
  | gap => exact (f.wait_resembles _).pending
  | refused _ _ _ hOver =>
    subst hOver
    rfl
  | unsaved _ _ _ _ hOver _ hUnsaved =>
    subst hOver
    exact hUnsaved.pending_eq
  | connected _ _ _ _ hOver _ hSaved =>
    subst hOver
    exact (f.goOn_resembles _ _).pending.trans hSaved.pending_eq

/-- What is handed over is the content of a stored block. -/
theorem Processed.handed_cases {b : Block} {r r' : Run τ} (h : f.Processed b r r') {b' : Block}
    (hb : b' ∈ r'.journal.handed) :
    b' ∈ r.journal.handed ∨ ∃ n ∈ (r.link b).graph.nodes, n.content = some b' := by
  have hp := Entry.handed?_ignoresReports
  rw [Journal.handed_eq_pick] at hb ⊢
  obtain hReports | ⟨target, -, -, hSettling⟩ := h.writes
  · rw [hReports.pick_eq fun _ => hp.eq_none_of_isReport] at hb
    exact .inl hb
  rw [hSettling.pick_eq fun e he => he.eq_none hp (fun _ => rfl) fun _ _ _ => rfl, handOver_journal,
    Journal.pick_record, pick_check hp] at hb
  refine (List.mem_append.mp hb).imp_right fun hNew => ?_
  obtain ⟨passed, left, last, hPasses⟩ := fire_passes f.sink f.config.start
    ((r.link b).graph.segmentTo target).nodes (r.check b target).graph (r.check b target).sinkState
  obtain ⟨n, hn, hContent⟩ := hPasses.exists_content hNew
  exact ⟨n, ForkGraph.mem_of_mem_segmentTo hn, hContent⟩

/-- Processing `b` fired the path to `target`, which ends with `last`, and settled the LIB, which left `graph`
to be purged. -/
structure Settles (f : Feed τ) (b : Block) (r : Run τ) (target : BlockRef) (last : Node)
    (graph : ForkGraph) : Prop where
  head : (r.link b).cursor.head = some target
  reach : ((r.link b).graph.segmentTo target).reachesLib = true
  last : ((r.link b).graph.segmentTo target).nodes.getLast? = some last
  fired : (fire f.sink f.config.start ((r.link b).graph.segmentTo target).nodes
    (r.link b).graph r.sinkState).ending = none
  moved : ∃ s move, f.handOver ((r.link b).graph.segmentTo target).nodes (r.check b target) = s ∧
    s.graph.advanceLib b.ref (f.config.libAfter b s.graph.libNum) = .ok (graph, move)

/-- A checkpoint that is put in place was taken of the graph that is left, once the LIB was settled. -/
theorem Processed.checkpoints_cases {b : Block} {r r' : Run τ} (h : f.Processed b r r') :
    r'.journal.checkpoints = r.journal.checkpoints ∨
      ∃ c target last graph, f.Settles b r target last graph ∧ r'.graph = graph.purge ∧
        Checkpoint.snapshot graph.purge last.toLink = .ok c ∧
        r'.journal.checkpoints = r.journal.checkpoints ++ [c] := by
  have hp := Entry.checkpoint?_ignoresReports
  have hOver : ∀ path target, (f.handOver path (r.check b target)).journal.pick Entry.checkpoint? =
      r.journal.pick Entry.checkpoint? :=
    fun path target => (pick_handOver hp (fun _ _ => rfl) path _).trans (pick_check hp r b target)
  rw [Journal.checkpoints_eq_pick, Journal.checkpoints_eq_pick]
  cases h with
  | headless => exact .inl (pick_link hp r b)
  | absent => exact .inl (pick_check hp r b _)
  | gap => exact .inl (((f.wait_resembles _).pick_eq hp).trans (pick_check hp r b _))
  | halted => exact .inl (hOver _ _)
  | refused _ _ _ hOver' =>
    subst hOver'
    exact .inl (((resembles_record_note rfl _).pick_eq hp).trans (hOver _ _))
  | unsaved _ _ _ _ hOver' _ hUnsaved =>
    subst hOver'
    rw [hUnsaved.journal_eq, pick_advance hp fun _ _ => rfl]
    exact .inl (hOver _ _)
  | connected hHead hReach hLast hFired hOver' hMove hSaved =>
    have hSettles : f.Settles b r _ _ _ := ⟨hHead, hReach, hLast, hFired, _, _, hOver', hMove⟩
    subst hOver'
    rw [(f.goOn_resembles _ _).pick_eq hp, (f.goOn_resembles _ _).graph, hSaved.graph_eq]
    have hSaves := hSaved.checkpoints_cases
    rw [pick_advance hp fun _ _ => rfl, hOver] at hSaves
    exact hSaves.imp_right fun ⟨c, hSnapshot, hMore⟩ => ⟨c, _, _, _, hSettles, rfl, hSnapshot, hMore⟩

/-- What holds of the checkpoints before an iteration, and of one that is taken of the graph that it leaves, holds of
all after it. -/
theorem Processed.forall_checkpoints {b : Block} {r s r' : Run τ} {P : Checkpoint → Prop} (h : f.Processed b s r')
    (hTakes : f.Takes r b s) (hBefore : ∀ c ∈ r.journal.checkpoints, P c)
    (hNew : ∀ c target last graph, f.Settles b s target last graph → r'.graph = graph.purge →
      Checkpoint.snapshot graph.purge last.toLink = .ok c → P c) : ∀ c ∈ r'.journal.checkpoints, P c := by
  have hSame : s.journal.checkpoints = r.journal.checkpoints := hTakes.sameBut.checkpoints
  obtain hKept | ⟨d, target, last, graph, hSettles, hGraph, hSnapshot, hMore⟩ := h.checkpoints_cases
  · rw [hKept, hSame]
    exact hBefore
  · rw [hMore, hSame]
    intro c hc
    obtain hc | hc := List.mem_append.mp hc
    · exact hBefore c hc
    · rw [List.mem_singleton.mp hc]
      exact hNew d target last graph hSettles hGraph hSnapshot

/-! ## Journals only grow -/

theorem record_isPrefix (j : Journal) (more : List Entry) : j.entries <+: (j.record more).entries := by
  rw [Journal.entries_record]
  exact List.prefix_append _ _

theorem Processed.entries_isPrefix {b : Block} {r r' : Run τ} (h : f.Processed b r r') :
    r.journal.entries <+: r'.journal.entries := by
  obtain hReports | ⟨target, -, -, hSettling⟩ := h.writes
  · exact hReports.isPrefix
  · exact ((r.check_reports b target).isPrefix.trans (record_isPrefix _ _)).trans hSettling.isPrefix

theorem Stepped.entries_isPrefix {r r' : Run τ} (h : f.Stepped r r') :
    r.journal.entries <+: r'.journal.entries := by
  rcases h.idle_or_processed with ⟨-, hIdle, -⟩ | ⟨-, -, b, s, hTakes, hProcessed⟩
  · exact hIdle.requests.isPrefix
  · exact hTakes.sameBut.requests.isPrefix.trans hProcessed.entries_isPrefix

theorem Stepped.pick_isPrefix {α : Type} (p : Entry → Option α) {r r' : Run τ} (h : f.Stepped r r') :
    r.journal.pick p <+: r'.journal.pick p :=
  h.entries_isPrefix.filterMap p

theorem Stepped.answers_isPrefix {r r' : Run τ} (h : f.Stepped r r') :
    r.journal.pick Entry.answer? <+: r'.journal.pick Entry.answer? :=
  h.pick_isPrefix Entry.answer?

theorem entries_isPrefix_after (r : Run τ) {k n : Nat} (h : k ≤ n) :
    (f.after k r).journal.entries <+: (f.after n r).journal.entries := by
  induction h with
  | refl => exact List.prefix_refl _
  | step _ ih => exact ih.trans (f.stepped _).entries_isPrefix

theorem pick_isPrefix_after {α : Type} (p : Entry → Option α) (r : Run τ) {k n : Nat} (h : k ≤ n) :
    (f.after k r).journal.pick p <+: (f.after n r).journal.pick p :=
  (entries_isPrefix_after r h).filterMap p

theorem answers_isPrefix_after (r : Run τ) {k n : Nat} (h : k ≤ n) :
    (f.after k r).journal.pick Entry.answer? <+: (f.after n r).journal.pick Entry.answer? :=
  pick_isPrefix_after Entry.answer? r h

end Feed

end ChainFeed
