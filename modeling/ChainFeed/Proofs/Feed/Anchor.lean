import ChainFeed.Proofs.Feed.Beginning
import ChainFeed.Proofs.Feed.Turn

/-! # The LIB of a run stays stored

While a run goes on, its LIB is a stored block that was fired, under its own number. The ancestor that a
run waits for is where the way back from the cursor's head stops; so the block that was just linked lies
on the way back from the head, and the LIB moves along the path that was just fired.
-/

set_option autoImplicit false

namespace ChainFeed

namespace ForkGraph

/-- The LIB is stored, and was fired. -/
def Anchored (g : ForkGraph) : Prop :=
  ∃ l ∈ g.nodes, l.fired = true ∧ g.lib = some l.block

/-- The way back from `target` comes to `b`, and not to the LIB before that. -/
def Meets (g : ForkGraph) (target : BlockRef) (b : Block) : Prop :=
  ∃ newer n older, g.lineage target.id = newer ++ n :: older ∧ n.id = b.id ∧
    ∀ lib, g.lib = some lib → lib.id ∉ newer.map Node.id

variable {g : ForkGraph} {lib target : BlockRef} {b : Block}

/-- A path to the LIB leads over the block met on the way, which comes after the LIB or is the LIB. -/
theorem Meets.exists_segment (h : g.Meets target b) (hLib : g.lib = some lib)
    (hStored : g.contains lib.id = true) (hReach : (g.segmentTo target).reachesLib = true) :
    ∃ l rest later n sooner, (g.segmentTo target).nodes = l :: rest ∧
      (l :: rest).reverse = later ++ n :: sooner ∧ later ++ n :: sooner <+: g.lineage target.id ∧
      l ∈ n :: sooner ∧ l.id = lib.id ∧ n.id = b.id := by
  obtain ⟨before, l, hNodes, hCut, hl, hBefore⟩ := segmentTo_eq_cons hLib hStored hReach
  obtain ⟨newer, n, older, hLineage, hn, hNewer⟩ := h
  have hMet : newer ++ [n] <+: g.lineage target.id := ⟨older, by rw [hLineage]; simp⟩
  have hEnd : newer ++ [n] <+: before ++ [l] := by
    rcases List.prefix_or_prefix_of_prefix hMet hCut with hShort | hShort
    · exact hShort
    -- the cut comes no sooner than at the node met, since the LIB is not among the newer ones
    · rcases List.prefix_concat_iff.mp hShort with hEq | hProper
      · rw [hEq]
      · have hMem : l ∈ newer := hProper.subset (List.mem_append_right _ (List.mem_singleton_self l))
        exact absurd (List.mem_map.mpr ⟨l, hMem, hl⟩) (hNewer lib hLib)
  obtain ⟨sooner, hSooner⟩ := hEnd
  have hSplit : before ++ [l] = newer ++ n :: sooner := by rw [← hSooner]; simp
  refine ⟨l, before.reverse, newer, n, sooner, hNodes, ?_, hSplit ▸ hCut, ?_, hl, hn⟩
  · rw [List.reverse_cons, List.reverse_reverse, hSplit]
  · have hLast : (before ++ [l]).getLast? = some l := List.getLast?_concat
    rw [hSplit, List.getLast?_append_cons] at hLast
    exact List.mem_of_getLast? hLast

theorem Meets.segmentTo_ne_nil (h : g.Meets target b) (hLib : g.lib = some lib)
    (hStored : g.contains lib.id = true) : (g.segmentTo target).nodes ≠ [] := by
  cases hReach : (g.segmentTo target).reachesLib with
  | true =>
    obtain ⟨l, rest, -, -, -, hNodes, -⟩ := h.exists_segment hLib hStored hReach
    rw [hNodes]
    exact List.cons_ne_nil l rest
  | false =>
    obtain ⟨newer, n, older, hLineage, -⟩ := h
    rw [(segmentTo_of_not_reachesLib hLib hReach).2.1, hLineage]
    simp

/-- Once a path to the LIB was fired, the LIB may move along it, and the new one stays stored. -/
theorem Meets.anchored_of_advance (h : g.Meets target b) {l : Node} (hl : l ∈ g.nodes)
    (hLib : g.lib = some l.block) (hReach : (g.segmentTo target).reachesLib = true) {num : BlockNum}
    {g' : ForkGraph} {move : LibMove}
    (hMove : Advance (g.markAll (newlyFired (g.segmentTo target).nodes)) l.block b.ref num g' move) :
    ∃ m ∈ (g.segmentTo target).nodes, g'.lib = some m.block ∧
      m.markedIn (newlyFired (g.segmentTo target).nodes) ∈ g'.purge.nodes ∧
      (m.markedIn (newlyFired (g.segmentTo target).nodes)).fired = true := by
  obtain ⟨l', rest, later, n, sooner, hNodes, hReverse, hPrefix, hMem, hl', hn⟩ :=
    h.exists_segment hLib (contains_of_mem hl) hReach
  have hStored : ∀ m ∈ (g.segmentTo target).nodes, m ∈ g.nodes := fun m hm => mem_of_mem_segmentTo hm
  have hFired : ∀ m ∈ (g.segmentTo target).nodes,
      (m.markedIn (newlyFired (g.segmentTo target).nodes)).fired = true :=
    fun m hm => markedIn_newlyFired hm
  -- whichever block of the path is the LIB now, purging leaves it
  have hKept : ∀ m ∈ (g.segmentTo target).nodes, g'.lib = some m.block →
      m.markedIn (newlyFired (g.segmentTo target).nodes) ∈ g'.purge.nodes := by
    intro m hm hNew
    rw [mem_purge, hMove.nodes_eq, libNum_of_lib hNew, Node.markedIn_num]
    exact ⟨markedIn_mem_markAll (hStored m hm) _, UInt64.le_refl _⟩
  have hOld : l ∈ (g.segmentTo target).nodes := by
    have hFirst : l' ∈ (g.segmentTo target).nodes := by rw [hNodes]; exact List.mem_cons_self
    rwa [← eq_of_id_eq (hStored l' hFirst) hl hl']
  cases hMove with
  | belowStart | confirmed | notFound =>
    exact ⟨l, hOld, by simpa using hLib, hKept l hOld (by simpa using hLib), hFired l hOld⟩
  | @moved new hHigh hFound =>
    rw [ancestorAt?_markAll] at hFound
    have hLow : l'.num ≤ num := by
      have hFirst : l' ∈ (g.segmentTo target).nodes := by rw [hNodes]; exact List.mem_cons_self
      rw [eq_of_id_eq (hStored l' hFirst) hl hl']
      exact UInt64.le_of_lt hHigh
    obtain ⟨m, hm, rfl, -⟩ := exists_mem_of_ancestorAt? hPrefix hn.symm hMem hLow hFound
    have hPath : m ∈ (g.segmentTo target).nodes := by
      rw [hNodes, ← List.mem_reverse, hReverse]
      exact List.mem_append_right _ hm
    exact ⟨m, hPath, rfl, hKept m hPath rfl, hFired m hPath⟩

end ForkGraph

open ForkGraph

/-- The ancestor awaited is where the way back from the head stops, short of the LIB. -/
def Cursor.Aimed (c : Cursor) (g : ForkGraph) : Prop :=
  ∀ id, c.awaited = some id →
    ∃ target, c.head = some target ∧ g.lineage target.id ≠ [] ∧
      walkTarget (g.lineage target.id) target.id = id ∧
      (∀ lib, g.lib = some lib → lib.id ∉ (g.lineage target.id).map Node.id) ∧
      (id ∈ (g.lineage target.id).map Node.id ∨ g.contains id = false)

namespace Run

variable {τ : Type}

/-- A run that has not come to its LIB yet has just begun with it. -/
def JustBegun (r : Run τ) (b : Block) : Prop :=
  r.graph = .startingAt b.ref ∧ r.cursor = .start ∧ r.pending = some b

structure Live (r : Run τ) : Prop where
  anchored : r.graph.Anchored ∨ ∃ b, r.JustBegun b
  aimed : r.cursor.Aimed r.graph

theorem link_cursor_head (r : Run τ) (b : Block) :
    (r.link b).cursor.head = if r.cursor.fillsGap b then r.cursor.head else some b.ref := rfl

/-- After a block was linked, the way back from the head leads over it. -/
theorem exists_meets_of_aimed {r : Run τ} (h : r.cursor.Aimed r.graph) (b : Block) :
    ∃ target, (r.link b).cursor.head = some target ∧ (r.link b).graph.Meets target b := by
  rw [link_cursor_head]
  by_cases hFills : r.cursor.fillsGap b = true
  · rw [if_pos hFills]
    obtain ⟨target, hHead, -, hNext, hLib, hStop⟩ := h b.id (by simpa [Cursor.fillsGap] using hFills)
    refine ⟨target, hHead, ?_⟩
    by_cases hCircle : b.id ∈ (r.graph.lineage target.id).map Node.id
    · obtain ⟨n, hn, hId⟩ := List.mem_map.mp hCircle
      have hSame : (r.link b).graph = r.graph :=
        link_of_contains (contains_iff_exists.mpr ⟨n, mem_of_mem_lineage hn, hId⟩)
      obtain ⟨newer, older, hSplit⟩ := List.append_of_mem hn
      rw [hSame]
      refine ⟨newer, n, older, hSplit, hId, fun lib hl hMem => hLib lib hl ?_⟩
      rw [hSplit, List.map_append]
      exact List.mem_append_left _ hMem
    · have hAbsent : r.graph.contains (Node.fresh b).id = false := hStop.resolve_left hCircle
      obtain ⟨older, hOlder⟩ := lineage_append_prefix_link hAbsent hNext
      refine ⟨r.graph.lineage target.id, .fresh b, older, by rw [link_graph, ← hOlder]; simp, rfl, ?_⟩
      intro lib hl
      rw [link_graph, link_lib] at hl
      exact hLib lib hl
  · rw [if_neg hFills]
    have hStored : (r.link b).graph.contains b.id = true := contains_link_self r.graph (.fresh b)
    obtain ⟨n, older, hLineage, hId⟩ := exists_lineage_eq_cons hStored
    exact ⟨b.ref, rfl, [], n, older, hLineage, hId, by simp⟩

end Run

namespace Feed

variable {τ : Type} {f : Feed τ}

/-- A run that has just begun takes up its start block, which is then the only one stored. -/
theorem Takes.of_justBegun {r s : Run τ} {b c : Block} (hTakes : f.Takes r b s) (hBegun : r.JustBegun c) :
    b = c ∧ (s.link b).graph.lib = some b.ref ∧ (s.link b).graph.nodes = [.fresh b] := by
  have hFirst : b = c := by
    cases hTakes with
    | pending hPending => exact Option.some.inj (hPending.symm.trans hBegun.2.2)
    | fetched hPending => cases hPending.symm.trans hBegun.2.2
  subst hFirst
  rw [Run.link_graph, hTakes.sameBut.graph, hBegun.1]
  exact ⟨rfl, rfl, rfl⟩

/-- When a live run has linked a block, the LIB is stored. It was fired, but for the very first block. -/
theorem Takes.linked {r s : Run τ} {b : Block} (hTakes : f.Takes r b s) (h : r.Live) :
    (∃ target, (s.link b).cursor.head = some target ∧ (s.link b).graph.Meets target b) ∧
      ∃ l ∈ (s.link b).graph.nodes, (s.link b).graph.lib = some l.block ∧
        (l.fired = true ∨ r.JustBegun b ∧ l = .fresh b) := by
  have hSame := hTakes.sameBut
  refine ⟨Run.exists_meets_of_aimed (by rw [hSame.cursor, hSame.graph]; exact h.aimed) b, ?_⟩
  rcases h.anchored with ⟨l, hl, hFired, hLib⟩ | ⟨first, hBegun⟩
  · rw [Run.link_graph, hSame.graph, link_lib]
    exact ⟨l, mem_link_of_mem hl, hLib, .inl hFired⟩
  · obtain ⟨rfl, hLib, hOnly⟩ := hTakes.of_justBegun hBegun
    exact ⟨.fresh b, hOnly ▸ List.mem_singleton_self _, hLib, .inr ⟨hBegun, rfl⟩⟩

@[simp] theorem advance_cursor (b : Block) (num : BlockNum) (graph : ForkGraph) (move : LibMove)
    (r : Run τ) : (advance b num graph move r).cursor = r.cursor := rfl

@[simp] theorem handOver_cursor (path : List Node) (r : Run τ) :
    (f.handOver path r).cursor = r.cursor.connected := rfl

theorem Saved.cursor_eq {last : Link} {r t : Run τ} (h : f.Saved last r t) : t.cursor = r.cursor := by
  cases h <;> rfl

/-- How a run goes on once the LIB was settled and the checkpoint saved. -/
theorem Saved.goOn_eq {r s t : Run τ} {b : Block} {target : BlockRef} {path : List Node} {num : BlockNum}
    {graph : ForkGraph} {move : LibMove} {last : Link}
    (h : f.Saved last (advance b num graph move s) t) (hOver : f.handOver path (r.check b target) = s) :
    (f.goOn last t).graph = graph.purge ∧ (f.goOn last t).cursor = (r.link b).cursor.connected ∧
      t.ending = r.ending := by
  subst hOver
  refine ⟨(f.goOn_resembles _ _).graph.trans h.graph_eq, ?_, h.ending_eq⟩
  rw [(f.goOn_resembles _ _).cursor, h.cursor_eq, advance_cursor, handOver_cursor]
  rfl

theorem Unsaved.ending_ne_none {last : Link} {r t : Run τ} (h : f.Unsaved last r t) :
    t.ending ≠ none := by
  cases h <;> simp

theorem handOver_graph_of_fired {s s' : Run τ} {b : Block} {target : BlockRef}
    (hFired : (fire f.sink f.config.start ((s.link b).graph.segmentTo target).nodes
      (s.link b).graph s.sinkState).ending = none)
    (hOver : f.handOver ((s.link b).graph.segmentTo target).nodes (s.check b target) = s') :
    s'.graph = (s.link b).graph.markAll (newlyFired ((s.link b).graph.segmentTo target).nodes) := by
  obtain ⟨passed, left, -, -, hGraph, -, hWhole⟩ :=
    handOver_passes (f := f) ((s.link b).graph.segmentTo target).nodes (s.check b target)
  rw [← hOver, hGraph, hWhole hFired]
  rfl

/-- The LIB of a live run is settled on the graph as firing the path left it. -/
theorem Takes.advance_of_settled {r s s' : Run τ} {b : Block} {target : BlockRef} {num : BlockNum}
    {graph : ForkGraph} {move : LibMove} (hTakes : f.Takes r b s) (hLive : r.Live)
    (hHead : (s.link b).cursor.head = some target)
    (hFired : (fire f.sink f.config.start ((s.link b).graph.segmentTo target).nodes
      (s.link b).graph s.sinkState).ending = none)
    (hOver : f.handOver ((s.link b).graph.segmentTo target).nodes (s.check b target) = s')
    (hMove : s'.graph.advanceLib b.ref num = .ok (graph, move)) :
    ∃ l ∈ (s.link b).graph.nodes, (s.link b).graph.lib = some l.block ∧ s'.graph.libNum = l.num ∧
      (s.link b).graph.Meets target b ∧
      Advance ((s.link b).graph.markAll (newlyFired ((s.link b).graph.segmentTo target).nodes)) l.block b.ref num
        graph move := by
  obtain ⟨⟨goal, hGoal, hMeets⟩, l, hl, hLib, -⟩ := hTakes.linked hLive
  cases hGoal.symm.trans hHead
  have hGraph := handOver_graph_of_fired hFired hOver
  have hStill : s'.graph.lib = some l.block := by
    rw [hGraph, markAll_lib]
    exact hLib
  have hAdvance := advance_of_advanceLib hStill hMove
  rw [hGraph] at hAdvance
  exact ⟨l, hl, hLib, libNum_of_lib hStill, hMeets, hAdvance⟩

/-- When a path to the LIB was fired and the LIB was settled, the LIB is a block of that path. -/
theorem Settles.exists_lib {r s : Run τ} {b : Block} {target : BlockRef} {last : Node} {graph : ForkGraph}
    (h : f.Settles b s target last graph) (hTakes : f.Takes r b s) (hLive : r.Live) :
    ∃ l ids num move, (s.link b).graph.lib = some l ∧
      Advance ((s.link b).graph.markAll ids) l b.ref num graph move ∧
      ∃ m ∈ ((s.link b).graph.segmentTo target).nodes, graph.lib = some m.block ∧
        m.markedIn ids ∈ graph.purge.nodes ∧ (m.markedIn ids).fired = true := by
  obtain ⟨s', move, hOver, hMove⟩ := h.moved
  obtain ⟨l, hl, hLib, -, hMeets, hAdvance⟩ := hTakes.advance_of_settled hLive h.head h.fired hOver hMove
  exact ⟨l.block, _, _, _, hLib, hAdvance, hMeets.anchored_of_advance hl hLib h.reach hAdvance⟩

/-- Settling the LIB leaves the nodes as firing the path left them, until they are purged. -/
theorem Settles.nodes_eq {r : Run τ} {b : Block} {target : BlockRef} {last : Node} {graph : ForkGraph}
    (h : f.Settles b r target last graph) :
    graph.nodes = ((r.link b).graph.markAll (newlyFired ((r.link b).graph.segmentTo target).nodes)).nodes := by
  obtain ⟨s, move, rfl, hMove⟩ := h.moved
  obtain ⟨lib, hLib⟩ := lib_of_advanceLib hMove
  rw [(advance_of_advanceLib hLib hMove).nodes_eq, handOver_graph_of_fired h.fired rfl]

theorem Settles.anchored {r s : Run τ} {b : Block} {target : BlockRef} {last : Node} {graph : ForkGraph}
    (h : f.Settles b s target last graph) (hTakes : f.Takes r b s) (hLive : r.Live) :
    graph.purge.Anchored := by
  obtain ⟨_, _, _, _, -, -, m, -, hNew, hKept, hMarked⟩ := h.exists_lib hTakes hLive
  exact ⟨_, hKept, hMarked, by simpa using hNew⟩

/-- The LIB is what it was, unless it was settled. -/
theorem Processed.lib_cases {b : Block} {r r' : Run τ} (h : f.Processed b r r') :
    r'.graph.lib = r.graph.lib ∨
      ∃ target last graph, f.Settles b r target last graph ∧ r'.graph = graph.purge := by
  have hOver : ∀ path target, (f.handOver path (r.check b target)).graph.lib = r.graph.lib := by
    intro path target
    obtain ⟨passed, -, -, -, hGraph, -, -⟩ := handOver_passes (f := f) path (r.check b target)
    rw [hGraph, markAll_lib, Run.check_graph, link_lib]
  cases h with
  | headless | absent => exact .inl (link_lib _ _)
  | gap =>
    rw [(f.wait_resembles _).graph]
    exact .inl (link_lib _ _)
  | halted => exact .inl (hOver _ _)
  | refused _ _ _ hFired =>
    subst hFired
    exact .inl (hOver _ _)
  | unsaved hHead hReach hLast hFired hOver hMove hUnsaved =>
    exact .inr ⟨_, _, _, ⟨hHead, hReach, hLast, hFired, _, _, hOver, hMove⟩, hUnsaved.graph_eq⟩
  | connected hHead hReach hLast hFired hOver hMove hSaved =>
    exact .inr ⟨_, _, _, ⟨hHead, hReach, hLast, hFired, _, _, hOver, hMove⟩,
      (f.goOn_resembles _ _).graph.trans hSaved.graph_eq⟩

theorem Processed.live {r s r' : Run τ} {b : Block} (h : f.Processed b s r') (hTakes : f.Takes r b s)
    (hLive : r.Live) (hRunning : r'.ending = none) : r'.Live := by
  obtain ⟨⟨goal, hGoal, hMeets⟩, l, hl, hLib, hFirst⟩ := hTakes.linked hLive
  cases h with
  | headless | absent | halted | refused => cases hRunning
  | unsaved _ _ _ _ _ _ hUnsaved => exact absurd hRunning hUnsaved.ending_ne_none
  | @gap target first hHead hReach hNext =>
    obtain ⟨hMissed, hNodes, hStop⟩ := segmentTo_of_not_reachesLib hLib hReach
    rw [hNodes, List.head?_reverse] at hNext
    have hEnd : walkTarget ((s.link b).graph.lineage target.id) target.id = first.parent.id := by
      rw [walkTarget, hNext]
    have hLike := f.wait_resembles ((s.check b target).awaiting first.parent)
    refine ⟨.inl ?_, ?_⟩
    · refine ⟨l, hLike.graph ▸ hl, hFirst.resolve_right ?_, hLike.graph ▸ hLib⟩
      -- the very first block is the LIB itself
      rintro ⟨-, rfl⟩
      obtain ⟨newer, n, older, hLineage, hn, -⟩ := hMeets
      cases hGoal.symm.trans hHead
      exact hMissed (List.mem_map.mpr ⟨n, by rw [hLineage]; simp, hn⟩)
    · rw [hLike.graph, hLike.cursor]
      intro id hId
      have hId : first.parent.id = id := Option.some.inj hId
      refine ⟨target, hHead, ?_, hEnd.trans hId, ?_, ?_⟩
      · intro hNil
        change (s.link b).graph.lineage target.id = [] at hNil
        rw [hNil] at hNext
        cases hNext
      · intro lib hl'
        cases hLib.symm.trans hl'
        exact hMissed
      · rw [← hId, ← hEnd]
        exact hStop.imp_right And.left
  | @connected target last s' t graph move hHead hReach hLast hFired hOver hMove hSaved =>
    obtain ⟨hGraph, hCursor, -⟩ := hSaved.goOn_eq hOver
    have hSettles : f.Settles b s target last graph := ⟨hHead, hReach, hLast, hFired, _, _, hOver, hMove⟩
    refine ⟨.inl ?_, ?_⟩
    · rw [hGraph]
      exact hSettles.anchored hTakes hLive
    · rw [hCursor]
      intro id hId
      cases hId

theorem Stepped.live {r r' : Run τ} (h : f.Stepped r r') (hLive : r.ending = none → r.Live)
    (hRunning : r'.ending = none) : r'.Live := by
  rcases h.idle_or_processed with ⟨hEnded, -⟩ | ⟨hBefore, -, b, s, hTakes, hProcessed⟩
  · exact absurd hRunning hEnded
  · exact hProcessed.live hTakes (hLive hBefore) hRunning

theorem live_of_anchored {r : Run τ} (hAnchored : r.graph.Anchored) (hCursor : r.cursor = .start) :
    r.Live where
  anchored := .inl hAnchored
  aimed id hId := by
    rw [hCursor] at hId
    cases hId

theorem live_of_justBegun {r : Run τ} {b : Block} (h : r.JustBegun b) : r.Live where
  anchored := .inr ⟨b, h⟩
  aimed id hId := by
    rw [h.2.1] at hId
    cases hId

theorem live_after {r : Run τ} (hStart : r.ending = none → r.Live) (n : Nat)
    (hRunning : (f.after n r).ending = none) : (f.after n r).Live :=
  f.after_induction (P := fun r => r.ending = none → r.Live) hStart
    (fun _ _ hLive hStep => hStep.live hLive) n hRunning

end Feed

end ChainFeed
