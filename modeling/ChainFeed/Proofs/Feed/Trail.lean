import ChainFeed.Proofs.Feed.Succession

/-! # The LIB climbs one chain

The LIB moves only when a path was fired to its end. It then moves up that path, from the node where the
path begins to one further along. So the LIBs of a run are met, in order, on one chain of blocks that were
fired, each the parent of the next.
-/

set_option autoImplicit false

namespace ChainFeed

open ForkGraph

variable {τ : Type}

/-- A chain goes on with what comes after its last block on another one. -/
theorem Ascends.append_asFired {chain more : List Node} {x l : Node} (h : Ascends chain)
    (hLast : chain.getLast? = some x) (hSame : x.id = l.id) (hMore : Ascends (l :: more)) :
    Ascends (chain ++ more.map Node.asFired) := by
  obtain ⟨hNext, hRest⟩ := List.isChain_cons.mp hMore
  refine List.isChain_append.mpr ⟨h, (List.isChain_map _).mpr hRest, fun y hy z hz => ?_⟩
  cases hLast.symm.trans hy
  rw [List.head?_map] at hz
  obtain ⟨k, hk, rfl⟩ := Option.map_eq_some_iff.mp hz
  exact (hNext k hk).trans hSame.symm

namespace Feed

/-- The iteration from `r` to `r'` fired `path` to its end, which left the graph `g`, and settled the LIB. -/
inductive Fires (f : Feed τ) (r r' : Run τ) : List Node → ForkGraph → Prop where
  | fired {b : Block} {s : Run τ} {target : BlockRef} {last : Node} {graph : ForkGraph}
      (hTakes : f.Takes r b s) (hProcessed : f.Processed b s r')
      (hSettles : f.Settles b s target last graph) (hGraph : r'.graph = graph.purge) :
      Fires f r r' ((s.link b).graph.segmentTo target).nodes
        (f.handOver ((s.link b).graph.segmentTo target).nodes (s.check b target)).graph

/-- The iteration from `r` to `r'` moved the LIB from `old` up to `new`, along a path from the one over the
other that was fired just before. -/
structure Raises (f : Feed τ) (r r' : Run τ) (old new : BlockRef) : Prop where
  before : r.graph.lib = some old
  after : r'.graph.lib = some new
  higher : old.num < new.num
  along : ∃ path g l between m rest, f.Fires r r' path g ∧ g.lib = some old ∧
    (∀ n ∈ path, n.asFired ∈ g.nodes) ∧ Ascends path ∧
    path = l :: (between ++ m :: rest) ∧ l.block = old ∧ m.block = new
  kept : ∃ n ∈ r'.graph.nodes, n.block = new ∧ n.fired = true

/-- The graphs that the run has had in its first `n` iterations: before and after each of them, and where a
path was just fired. -/
inductive Shows (f : Feed τ) (r : Run τ) (n : Nat) : ForkGraph → Prop where
  | boundary {k : Nat} (hk : k ≤ n) : Shows f r n (f.after k r).graph
  | fired {k : Nat} {path : List Node} {g : ForkGraph} (hk : k < n)
      (hFires : f.Fires (f.after k r) (f.after (k + 1) r) path g) : Shows f r n g

/-- The LIBs of the first `n` iterations, in order. -/
def libs (f : Feed τ) (r : Run τ) : Nat → List BlockRef
  | 0 => r.graph.lib.toList
  | n + 1 =>
    if (f.after (n + 1) r).graph.lib = (f.after n r).graph.lib then f.libs r n
    else f.libs r n ++ (f.after (n + 1) r).graph.lib.toList

variable {f : Feed τ}

theorem Settles.handOver_graph {b : Block} {s : Run τ} {target : BlockRef} {last : Node}
    {graph : ForkGraph} (h : f.Settles b s target last graph) :
    (f.handOver ((s.link b).graph.segmentTo target).nodes (s.check b target)).graph =
      (s.link b).graph.markAll (newlyFired ((s.link b).graph.segmentTo target).nodes) :=
  handOver_graph_of_fired h.fired rfl

theorem Settles.lib_eq_or_raises {r s r' : Run τ} {b : Block} {target : BlockRef} {last : Node}
    {graph : ForkGraph} (h : f.Settles b s target last graph) (hTakes : f.Takes r b s)
    (hProcessed : f.Processed b s r') (hLive : r.Live) (hGraph : r'.graph = graph.purge) :
    r'.graph.lib = r.graph.lib ∨ ∃ old new, f.Raises r r' old new := by
  obtain ⟨-, l, hl, hLib, -⟩ := hTakes.linked hLive
  obtain ⟨lib, ids, num, move, hLib', hMove, m, hm, hNew, hKept, hFired⟩ := h.exists_lib hTakes hLive
  cases hLib.symm.trans hLib'
  have hBefore : r.graph.lib = some l.block := by
    rw [← hLib, Run.link_graph, link_lib, hTakes.sameBut.graph]
  have hAfter : r'.graph.lib = some m.block := by
    rw [hGraph, purge_lib, hNew]
  by_cases hSame : m.block = l.block
  · left
    rw [hAfter, hBefore, hSame]
  right
  refine ⟨l.block, m.block, hBefore, hAfter, ?_, ?_, ?_⟩
  · cases hMove with
    | belowStart | confirmed | notFound =>
      have hStill : some l.block = some m.block := by
        rw [← hNew]
        simpa using hLib.symm
      exact absurd (Option.some.inj hStill).symm hSame
    | moved hHigh hFound =>
      cases hNew
      rwa [num_of_ancestorAt? hFound]
  · obtain ⟨newer, l', hNodes, -, hId, -⟩ := segmentTo_eq_cons hLib (contains_of_mem hl) h.reach
    have hStored : ∀ n ∈ ((s.link b).graph.segmentTo target).nodes, n ∈ (s.link b).graph.nodes :=
      fun n hn => mem_of_mem_segmentTo hn
    have hFirst : l' = l := eq_of_id_eq (hStored l' (hNodes ▸ List.mem_cons_self)) hl hId
    subst hFirst
    have hAbove : m ∈ newer.reverse := by
      rw [hNodes, List.mem_cons] at hm
      exact hm.resolve_left fun hOld => hSame (congrArg (fun n : Node => n.block) hOld)
    obtain ⟨between, rest, hSplit⟩ := List.append_of_mem hAbove
    refine ⟨_, _, l', between, m, rest, .fired hTakes hProcessed h hGraph, ?_, fun n hn => ?_,
      ascends_segmentTo _ target, by rw [hNodes, hSplit], rfl, rfl⟩
    · rw [h.handOver_graph, markAll_lib]
      exact hLib
    · rw [h.handOver_graph, ← markedIn_newlyFired_eq hn]
      exact markedIn_mem_markAll (hStored n hn) _
  · rw [hGraph]
    exact ⟨_, hKept, by simp, hFired⟩

/-- An iteration leaves the LIB where it is, or moves it up the path that it fired. -/
theorem Stepped.lib_eq_or_raises {r r' : Run τ} (h : f.Stepped r r') (hLive : r.ending = none → r.Live) :
    r'.graph.lib = r.graph.lib ∨ ∃ old new, f.Raises r r' old new := by
  obtain ⟨-, hIdle, -⟩ | ⟨hRunning, -, b, s, hTakes, hProcessed⟩ := h.idle_or_processed
  · exact .inl (congrArg ForkGraph.lib hIdle.graph)
  · obtain hSame | ⟨target, last, graph, hSettles, hGraph⟩ := hProcessed.lib_cases
    · exact .inl (hSame.trans (congrArg ForkGraph.lib hTakes.sameBut.graph))
    · exact hSettles.lib_eq_or_raises hTakes hProcessed (hLive hRunning) hGraph

theorem Shows.succ {r : Run τ} {n : Nat} {g : ForkGraph} (h : f.Shows r n g) : f.Shows r (n + 1) g := by
  cases h with
  | boundary hk => exact .boundary (Nat.le_succ_of_le hk)
  | fired hk hFires => exact .fired (Nat.lt_succ_of_lt hk) hFires

/-! ## The chain -/

/-- The chain leads from parent to child up to the LIB, over every LIB there was, and its blocks were fired. -/
structure Trail (f : Feed τ) (r : Run τ) (n : Nat) (chain : List Node) : Prop where
  ascends : Ascends chain
  libs : (f.libs r n).Sublist (chain.map fun m => m.block)
  tip : (chain.getLast?.map fun m => m.block) = (f.after n r).graph.lib
  fired : ∀ m ∈ chain, m.fired = true ∧ ∃ g, f.Shows r n g ∧ m ∈ g.nodes

variable {r : Run τ} {n : Nat} {chain : List Node}

theorem Trail.same (h : f.Trail r n chain)
    (hSame : (f.after (n + 1) r).graph.lib = (f.after n r).graph.lib) : f.Trail r (n + 1) chain where
  ascends := h.ascends
  libs := by
    rw [Feed.libs, if_pos hSame]
    exact h.libs
  tip := h.tip.trans hSame.symm
  fired m hm := by
    obtain ⟨hFired, g, hShows, hg⟩ := h.fired m hm
    exact ⟨hFired, g, hShows.succ, hg⟩

theorem Trail.raise (h : f.Trail r n chain) {old new : BlockRef}
    (hRaises : f.Raises (f.after n r) (f.after (n + 1) r) old new) :
    ∃ more, f.Trail r (n + 1) (chain ++ more) := by
  obtain ⟨path, g, l, between, m, rest, hFires, -, hMarked, hAscends, rfl, hOld, hNew⟩ := hRaises.along
  have hMoved : (f.after (n + 1) r).graph.lib ≠ (f.after n r).graph.lib := by
    rw [hRaises.after, hRaises.before]
    intro hEq
    have hHigher := hRaises.higher
    rw [Option.some.inj hEq] at hHigher
    exact absurd hHigher (UInt64.lt_irrefl _)
  have hTip := h.tip
  rw [hRaises.before, Option.map_eq_some_iff] at hTip
  obtain ⟨x, hx, hBlock⟩ := hTip
  refine ⟨(between ++ [m]).map Node.asFired, ?_, ?_, ?_, ?_⟩
  · have hPart : Ascends (l :: (between ++ [m])) := List.IsChain.prefix hAscends ⟨rest, by simp⟩
    exact h.ascends.append_asFired hx (congrArg BlockRef.id (hBlock.trans hOld.symm)) hPart
  · rw [Feed.libs, if_neg hMoved, List.map_append]
    refine h.libs.append ?_
    rw [hRaises.after, ← hNew]
    simp
  · rw [hRaises.after, ← hNew]
    simp
  · intro y hy
    obtain hy | hy := List.mem_append.mp hy
    · obtain ⟨hFired, g', hShows, hg⟩ := h.fired y hy
      exact ⟨hFired, g', hShows.succ, hg⟩
    · obtain ⟨z, hz, rfl⟩ := List.mem_map.mp hy
      refine ⟨rfl, g, .fired (Nat.lt_succ_self n) hFires, hMarked z ?_⟩
      simp only [List.mem_append, List.mem_cons, List.not_mem_nil, or_false] at hz ⊢
      tauto

/-- The run has only its start block `b`, as the LIB, and has not fired it. It has ended so, unless it is yet to take
up that block. -/
structure Unfired (f : Feed τ) (r : Run τ) (n : Nat) (b : Block) : Prop where
  begun : (f.after n r).ending = none → n = 0 ∧ (f.after n r).JustBegun b
  lib : (f.after n r).graph.lib = some b.ref
  libs : f.libs r n = [b.ref]
  unfired : ∀ m ∈ (f.after n r).graph.nodes, m.fired = false

/-- The first iteration stores the start block and nothing else. -/
theorem Processed.of_justBegun {r s r' : Run τ} {b c : Block} (h : f.Processed b s r')
    (hTakes : f.Takes r b s) (hBegun : r.JustBegun c) :
    b = c ∧ r'.graph.lib = some c.ref ∧ ∃ ids, ∀ n ∈ r'.graph.nodes, n = (Node.fresh c).markedIn ids := by
  obtain ⟨rfl, -, hNodes⟩ := hTakes.of_justBegun hBegun
  have hGraph : s.graph = .startingAt b.ref := hTakes.sameBut.graph.trans hBegun.1
  have hOnly : ∀ n ∈ (s.link b).graph.nodes, n = .fresh b := fun n hn => List.mem_singleton.mp (hNodes ▸ hn)
  refine ⟨rfl, ?_, ?_⟩
  · obtain hSame | ⟨target, last, graph, hSettles, hLeft⟩ := h.lib_cases
    · rw [hSame, hGraph]
      rfl
    · obtain ⟨-, -, -, -, -, -, m, hm, hLib, -⟩ := hSettles.exists_lib hTakes (live_of_justBegun hBegun)
      rw [hOnly m (mem_of_mem_segmentTo hm)] at hLib
      rw [hLeft]
      exact hLib
  · have hMarked : ∀ ids, ∀ n ∈ ((s.link b).graph.markAll ids).nodes, n = (Node.fresh b).markedIn ids := by
      intro ids n hn
      obtain ⟨m, hm, rfl⟩ := mem_markAll.mp hn
      rw [hOnly m hm]
    obtain ⟨ids, hLeft⟩ | ⟨ids, lib, graph, move, -, hMove, hLeft⟩ := h.graph_cases
    · rw [hLeft]
      exact ⟨ids, hMarked ids⟩
    · rw [hLeft]
      exact ⟨ids, fun n hn => hMarked ids n (hMove.nodes_eq ▸ (mem_purge.mp hn).1)⟩

theorem Unfired.step {b : Block} (h : f.Unfired r n b) :
    f.Unfired r (n + 1) b ∨ ∃ chain, f.Trail r (n + 1) chain := by
  have hStep : f.Stepped (f.after n r) (f.after (n + 1) r) := f.stepped _
  obtain ⟨hEnded, hIdle, -⟩ | ⟨hRunning, -, c, s, hTakes, hProcessed⟩ := hStep.idle_or_processed
  · have hSame : (f.after (n + 1) r).graph = (f.after n r).graph := hIdle.graph
    left
    refine ⟨fun hRunning => absurd hRunning hEnded, hSame ▸ h.lib, ?_, hSame ▸ h.unfired⟩
    rw [Feed.libs, if_pos (congrArg ForkGraph.lib hSame)]
    exact h.libs
  have hBegun := (h.begun hRunning).2
  obtain ⟨rfl, hLib, ids, hOnly⟩ := hProcessed.of_justBegun hTakes hBegun
  have hLibs : f.libs r (n + 1) = [c.ref] := by
    rw [Feed.libs, if_pos (hLib.trans h.lib.symm)]
    exact h.libs
  by_cases hFired : ∃ m ∈ (f.after (n + 1) r).graph.nodes, m.fired = true
  · obtain ⟨m, hm, hFired⟩ := hFired
    have hBlock : m.block = c.ref := by
      rw [hOnly m hm, Node.markedIn_toLink]
      rfl
    right
    refine ⟨[m], List.isChain_singleton m, ?_, ?_, fun k hk => ?_⟩
    · rw [hLibs, List.map_singleton, hBlock]
    · rw [hLib, ← hBlock]
      rfl
    · rw [List.mem_singleton.mp hk]
      exact ⟨hFired, _, .boundary (Nat.le_refl _), hm⟩
  · have hUnfired : ∀ m ∈ (f.after (n + 1) r).graph.nodes, m.fired = false :=
      fun m hm => Bool.eq_false_iff.mpr fun hMarked => hFired ⟨m, hm, hMarked⟩
    left
    refine ⟨fun hGoing => ?_, hLib, hLibs, hUnfired⟩
    -- a run that goes on has fired its LIB
    obtain ⟨m, hm, hMarked, -⟩ | ⟨d, hAgain⟩ :=
      (hProcessed.live hTakes (live_of_justBegun hBegun) hGoing).anchored
    · exact absurd ⟨m, hm, hMarked⟩ hFired
    · have hPending := hAgain.2.2
      rw [hProcessed.pending_eq, hTakes.pending_eq_none] at hPending
      cases hPending

theorem Trail.of_anchored (hAnchored : r.graph.Anchored) : ∃ chain, f.Trail r 0 chain := by
  obtain ⟨l, hl, hFired, hLib⟩ := hAnchored
  refine ⟨[l], List.isChain_singleton l, ?_, hLib.symm, fun m hm => ?_⟩
  · rw [Feed.libs, hLib]
    exact List.Sublist.refl _
  · rw [List.mem_singleton.mp hm]
    exact ⟨hFired, _, .boundary (Nat.le_refl 0), hl⟩

theorem Begun.trail {disk : Disk} (h : f.Begun disk r)
    (hFile : ∀ dir c, f.config.stateDir = some dir → Checkpoint.load disk dir = .ok c → c.restore.Anchored) :
    (∃ chain, f.Trail r 0 chain) ∨ ∃ b, r.pending = some b ∧ f.Unfired r 0 b := by
  cases h with
  | ended _ _ hGraph =>
    have hNone : r.graph.lib = none := by
      rw [hGraph]
      rfl
    left
    refine ⟨[], List.isChain_nil, ?_, hNone.symm, by simp⟩
    rw [Feed.libs, hNone]
    exact List.Sublist.refl _
  | @cold b _ hGraph hCursor _ hPending =>
    right
    refine ⟨b, hPending, fun _ => ⟨rfl, hGraph, hCursor, hPending⟩, ?_, ?_, fun m hm => ?_⟩
    · change r.graph.lib = _
      rw [hGraph]
      rfl
    · rw [Feed.libs, hGraph]
      rfl
    · change m ∈ r.graph.nodes at hm
      rw [hGraph] at hm
      cases hm
  | resumed hDir hLoad hGraph => exact .inl (Trail.of_anchored (hGraph ▸ hFile _ _ hDir hLoad))

theorem trail_after (hLive : ∀ n, (f.after n r).ending = none → (f.after n r).Live)
    {first : Option Block} (hStart : (∃ chain, f.Trail r 0 chain) ∨ ∃ b, first = some b ∧ f.Unfired r 0 b)
    (n : Nat) : (∃ chain, f.Trail r n chain) ∨ ∃ b, first = some b ∧ f.Unfired r n b := by
  induction n with
  | zero => exact hStart
  | succ n ih =>
    obtain ⟨chain, hTrail⟩ | ⟨b, hFirst, hUnfired⟩ := ih
    · obtain hSame | ⟨old, new, hRaises⟩ := (f.stepped (f.after n r)).lib_eq_or_raises (hLive n)
      · exact .inl ⟨chain, hTrail.same hSame⟩
      · obtain ⟨more, hMore⟩ := hTrail.raise hRaises
        exact .inl ⟨_, hMore⟩
    · obtain hStill | hTrail := hUnfired.step
      · exact .inr ⟨b, hFirst, hStill⟩
      · exact .inl hTrail

end Feed

namespace Session

/-- The LIBs of a session's first `n` iterations, in order. -/
def libs (s : Session) (n : Nat) : List BlockRef := s.feed.libs s.beginning n

/-- Whatever the sources answer, the LIB moves only up a path that was just fired. So all LIBs of a run lie in
order on one chain of fired blocks, unless a cold start has not fired its start block: then that block is the only LIB
there was, and the run has ended, but for before its first iteration. -/
theorem libs_climb_one_chain {sessions : List Session} (h : Succession sessions) {s : Session}
    (hs : s ∈ sessions) (n : Nat) :
    (∀ k < n, (s.after (k + 1)).graph.lib = (s.after k).graph.lib ∨
      ∃ old new, s.feed.Raises (s.after k) (s.after (k + 1)) old new) ∧
    ∃ chain, Ascends chain ∧ (s.libs n).Sublist (chain.map fun m => m.block) ∧
      ((∀ m ∈ chain, m.fired = true ∧ ∃ g, s.feed.Shows s.beginning n g ∧ m ∈ g.nodes) ∨
        ∃ b, s.StartsWith b ∧ chain = [.fresh b] ∧ (∀ m ∈ (s.after n).graph.nodes, m.fired = false) ∧
          ((s.after n).ending = none → n = 0)) := by
  obtain ⟨hFile, hLive⟩ := h.live hs
  refine ⟨fun k _ => (s.feed.stepped (s.after k)).lib_eq_or_raises (hLive k), ?_⟩
  have hStart := s.begun.trail hFile
  obtain ⟨chain, hTrail⟩ | ⟨b, hFirst, hUnfired⟩ := Feed.trail_after hLive hStart n
  · exact ⟨chain, hTrail.ascends, hTrail.libs, .inl hTrail.fired⟩
  · refine ⟨[.fresh b], List.isChain_singleton _, ?_, .inr ⟨b, startsWith_of_firstBlock? hFirst, rfl,
      hUnfired.unfired, fun hRunning => (hUnfired.begun hRunning).1⟩⟩
    rw [libs, hUnfired.libs]
    exact List.Sublist.refl _

/-- It is resumed on another branch, which becomes final in one go. -/
def branchedAway : Session where
  sinkType := Unit
  feed := .undisturbed { start := 4, stateDir := some ⟨["state"]⟩ }
  source := .scripted [.plain "4b" 4 "3b" 2, .plain "3b" 3 "2a" 2, .plain "5b" 5 "4b" 4]
  sinkState := ()
  disk := settlingDown.run.disk
  iterations := 3

theorem libs_climb_one_chain_branchedAway :
    branchedAway.libs 3 = [⟨"2a", 2⟩, ⟨"4b", 4⟩] ∧
    (∀ k < 3, (branchedAway.after (k + 1)).graph.lib = (branchedAway.after k).graph.lib ∨
      ∃ old new, branchedAway.feed.Raises (branchedAway.after k) (branchedAway.after (k + 1)) old new) ∧
    ∃ chain, Ascends chain ∧ (branchedAway.libs 3).Sublist (chain.map fun m => m.block) ∧
      ((∀ m ∈ chain, m.fired = true ∧ ∃ g, branchedAway.feed.Shows branchedAway.beginning 3 g ∧ m ∈ g.nodes) ∨
        ∃ b, branchedAway.StartsWith b ∧ chain = [.fresh b] ∧
          (∀ m ∈ (branchedAway.after 3).graph.nodes, m.fired = false) ∧
          ((branchedAway.after 3).ending = none → 3 = 0)) := by
  have hSuccession : Succession [settlingDown, branchedAway] := succession_settlingDown rfl rfl
  have hLast : branchedAway ∈ [settlingDown, branchedAway] := by simp
  exact ⟨by decide +kernel, libs_climb_one_chain hSuccession hLast 3⟩

/-- The sink refuses the block that the session starts with. -/
def refusedAtStart : Session where
  sinkType := Unit
  feed := {
    config := { start := 100 }
    sink := .judging .accepted fun _ => .refused (.rejected "not this one")
    stopped _ := false
    device _ := .sound }
  source := .scripted [.plain "100a" 100 "99a" 100]
  sinkState := ()
  disk := .empty
  iterations := 1

/-- Its LIB lies on no chain of fired blocks, though it has ended. -/
theorem not_libs_on_fired_chain :
    refusedAtStart.run.ending ≠ none ∧
    ¬ ∃ chain, Ascends chain ∧ (refusedAtStart.libs 1).Sublist (chain.map fun m => m.block) ∧
      ∀ m ∈ chain, m.fired = true ∧
        ∃ g, refusedAtStart.feed.Shows refusedAtStart.beginning 1 g ∧ m ∈ g.nodes := by
  have hCold : refusedAtStart.feed.ColdStarts refusedAtStart.disk := Feed.coldStarts_of_stateDir_eq_none _ rfl
  have hSuccession : Succession ([] ++ [refusedAtStart]) := .snoc .nil (.inl hCold)
  have hLive := (hSuccession.live (List.mem_singleton_self _)).2
  have hUnfired : ∀ k ≤ 1, ∀ m ∈ (refusedAtStart.after k).graph.nodes, m.fired = false := by decide +kernel
  have hLibs : refusedAtStart.libs 1 = [⟨"100a", 100⟩] := by decide +kernel
  refine ⟨Option.isSome_iff_ne_none.mp (by decide +kernel), ?_⟩
  rintro ⟨chain, -, hSub, hChain⟩
  rw [hLibs, List.singleton_sublist] at hSub
  obtain ⟨m, hm, -⟩ := List.mem_map.mp hSub
  obtain ⟨hFired, g, hShows, hg⟩ := hChain m hm
  cases hShows with
  | boundary hk => cases (hUnfired _ hk m hg).symm.trans hFired
  | @fired k _ _ hk hFires =>
    cases hFires with
    | @fired b s target last graph hTakes hProcessed hSettles hGraph =>
      -- a path that was fired to its end would leave the LIB fired
      have hRunning : (refusedAtStart.after k).ending = none := by
        cases Nat.lt_one_iff.mp hk
        exact Option.isNone_iff_eq_none.mp (by decide +kernel)
      obtain ⟨l, hl, hMarked, -⟩ := hSettles.anchored hTakes (hLive k hRunning)
      cases (hUnfired (k + 1) hk l (hGraph ▸ hl)).symm.trans hMarked

end Session

end ChainFeed
