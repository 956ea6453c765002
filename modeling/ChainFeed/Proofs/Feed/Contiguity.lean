import ChainFeed.Proofs.Feed.Descent
import ChainFeed.Proofs.ForkGraph.Purge

/-! # The LIB keeps up on contiguous chains

Where the parent of each block is numbered one lower, the way back from a block to the LIB has a block at every
number in between. So whatever number a block that connects makes final, the LIB moves to it at once.
-/

set_option autoImplicit false

namespace ChainFeed

open ForkGraph

variable {τ : Type}

section

variable {answers : List (BlockNum × Block)}

/-- A parent that was ever answered is numbered one below its child. So the parent of a block numbered `0` never
was. -/
def Contiguous (answers : List (BlockNum × Block)) : Prop :=
  ∀ a ∈ answers, ∀ a' ∈ answers, a'.2.id = a.2.parentId → a'.2.num.next? = some a.2.num

instance (answers : List (BlockNum × Block)) : Decidable (Contiguous answers) :=
  inferInstanceAs (Decidable (∀ a ∈ answers, ∀ a' ∈ answers, _ → _))

/-- The node's block was answered, and its parent, if at all, one number lower. -/
def Node.Joined (answers : List (BlockNum × Block)) (n : Node) : Prop :=
  n.Answered answers ∧ ∀ a ∈ answers, a.2.id = n.parent.id → a.2.num.next? = some n.num

theorem Node.Joined.lasting : Lasting (Joined answers) where
  markedIn h ids := ⟨Answered.lasting.markedIn h.1 ids, by simpa using h.2⟩
  restored h := ⟨Answered.lasting.restored h.1, h.2⟩

theorem Node.Joined.falls {n : Node} (h : n.Joined answers) : n.Falls answers :=
  fun a ha hId => BlockNum.lt_of_next? (h.2 a ha hId)

theorem Contiguous.joined (h : Contiguous answers) {a : BlockNum × Block} (ha : a ∈ answers) :
    (Node.fresh a.2).Joined answers :=
  ⟨⟨a, ha, rfl⟩, fun a' ha' hId => h a ha a' ha' hId⟩

/-- On the way back to a block, the first one that is numbered at most `k` is numbered `k`. -/
theorem Follows.exists_find? {id : BlockId} {n l : Node} {path : List Node} {k : BlockNum}
    (h : Follows id (n :: path)) (hJoined : ∀ m ∈ n :: path, m.Joined answers) (hl : l ∈ n :: path)
    (hLow : l.num ≤ k) (hHigh : k ≤ n.num) :
    ∃ m, (n :: path).find? (fun m => m.num ≤ k) = some m ∧ m.num = k := by
  induction path generalizing id n with
  | nil =>
    cases List.mem_singleton.mp hl
    exact ⟨l, by simp [hLow], UInt64.le_antisymm hLow hHigh⟩
  | cons p path ih =>
    by_cases hHere : n.num ≤ k
    · exact ⟨n, by simp [hHere], UInt64.le_antisymm hHere hHigh⟩
    have hOlder : l ∈ p :: path := by
      obtain rfl | hOlder := List.mem_cons.mp hl
      · exact absurd hLow hHere
      · exact hOlder
    have hRest : ∀ m ∈ p :: path, m.Joined answers := fun m hm => hJoined m (List.mem_cons_of_mem n hm)
    -- the number below that of `n` is its parent's
    obtain ⟨a, ha, hBlock⟩ := (hRest p List.mem_cons_self).1
    have hNext : p.num.next? = some n.num := by
      rw [Node.num, ← hBlock]
      exact (hJoined n List.mem_cons_self).2 a ha ((congrArg BlockRef.id hBlock).trans h.2.1)
    have hBelow : k ≤ p.num := by
      refine (BlockNum.le_or_eq_of_next? hNext hHigh).resolve_right fun hSame => ?_
      exact hHere (hSame ▸ UInt64.le_refl _)
    obtain ⟨m, hFind, hNum⟩ := ih h.2 hRest hOlder hBelow
    exact ⟨m, by rw [List.find?_cons_of_neg (by simpa using hHere), hFind], hNum⟩

theorem Follows.falling_of_joined {id : BlockId} {path : List Node} (h : Follows id path)
    (hJoined : ∀ n ∈ path, n.Joined answers) : path.Pairwise fun n m => m.num < n.num :=
  h.falling (fun n hn => (hJoined n hn).1) fun n hn => (hJoined n hn).falls

/-! ## The LIB on the way back -/

variable {c : Config} {g g' : ForkGraph} {lib : BlockRef} {b : Block} {n l : Node} {path : List Node}
  {move : LibMove} {ids : List BlockId}

/-- A block that is joined to the LIB moves the LIB to the number that it makes final, unless the LIB is there
already. -/
theorem ForkGraph.Advance.exists_joined
    (h : Advance (g.markAll ids) lib b.ref (c.libAfter b lib.num) g' move) (hLib : g.lib = some lib)
    (hFollows : Follows b.id (n :: path)) (hStored : ∀ m ∈ n :: path, m ∈ g.nodes)
    (hJoined : ∀ m ∈ n :: path, m.Joined answers) (hNum : n.num = b.num) (hl : l ∈ n :: path)
    (hBlock : l.block = lib) :
    (∀ k, move ≠ .notFound k) ∧
      ∃ m ∈ n :: path, g'.lib = some m.block ∧ m.num = max lib.num (c.finalBy b) := by
  have hFalling := hFollows.falling_of_joined hJoined
  have hStays : (g.markAll ids).lib = some l.block := by
    rw [markAll_lib, hLib, hBlock]
  have hLow : l.num ≤ b.num := by
    rw [← hNum]
    exact num_le_head_of_falling hFalling hl
  subst hBlock
  -- every number from the LIB to the block is found
  have hFound : l.num ≤ c.libAfter b l.num → ∃ m ∈ n :: path,
      (g.markAll ids).ancestorAt? b.ref (c.libAfter b l.num) = some m.block ∧ m.num = c.libAfter b l.num := by
    intro hAbove
    have hHigh : c.libAfter b l.num ≤ n.num := by
      rw [hNum]
      refine UInt64.le_trans (BlockNum.le_max_right l.num _) ?_
      rw [c.max_libAfter]
      exact BlockNum.max_le hLow (c.finalBy_le b)
    obtain ⟨m, hFind, hm⟩ := hFollows.exists_find? hJoined hl hAbove hHigh
    refine ⟨m, List.mem_of_find?_eq_some hFind, ?_, hm⟩
    rw [ancestorAt?_markAll]
    obtain ⟨rest, hRest⟩ := prefix_lineage hFollows hStored (nodup_of_falling hFalling hStored)
    refine ancestorAt?_eq_some_iff.mpr ⟨m, ?_, hm, rfl⟩
    rw [Block.ref, ← hRest, List.find?_append, hFind]
    rfl
  rw [← c.max_libAfter]
  cases h with
  | belowStart _ hBelow =>
    refine ⟨by simp, l, hl, hStays, ?_⟩
    exact (BlockNum.max_eq_left (UInt64.le_of_lt hBelow)).symm
  | confirmed hSame =>
    refine ⟨by simp, l, hl, hStays, ?_⟩
    rw [hSame]
    exact (BlockNum.max_eq_left (UInt64.le_refl _)).symm
  | @moved new hHigh hAncestor =>
    obtain ⟨m, hm, hAt, hNum⟩ := hFound (UInt64.le_of_lt hHigh)
    refine ⟨by simp, m, hm, hAncestor.symm.trans hAt, ?_⟩
    rw [hNum]
    exact (BlockNum.max_eq_right (UInt64.le_of_lt hHigh)).symm
  | notFound hHigh hAbsent =>
    obtain ⟨m, -, hAt, -⟩ := hFound (UInt64.le_of_lt hHigh)
    cases hAbsent.symm.trans hAt

/-- A block that is joined to the new LIB is joined to it after the purge. -/
theorem ForkGraph.mem_lineage_purge {m : Node} {id : BlockId} (hNodes : g'.nodes = (g.markAll ids).nodes)
    (hLib : g'.lib = some m.block) (hFollows : Follows id path) (hStored : ∀ n ∈ path, n ∈ g.nodes)
    (hFalling : path.Pairwise fun n m => m.num < n.num) (hm : m ∈ path) :
    m.markedIn ids ∈ g'.purge.lineage id := by
  have hMarked : g'.lineage id = (g.lineage id).map (Node.markedIn ids) := by
    refine lineage_map (Node.markedIn_id ids) (fun n => by rw [Node.markedIn_toLink]) ?_ id
    rw [hNodes, nodes_markAll]
  obtain ⟨more, hMore⟩ := prefix_lineage hFollows hStored (nodup_of_falling hFalling hStored)
  obtain ⟨newer, older, rfl⟩ := List.append_of_mem hm
  have hHigh : ∀ n ∈ newer ++ [m], m.num ≤ n.num := by
    rw [← List.singleton_append, ← List.append_assoc] at hFalling
    exact fun n hn => num_last_le_of_falling (List.pairwise_append.mp hFalling).1 hn
  have hKept : ∀ n ∈ (newer ++ [m]).map (Node.markedIn ids), decide (m.block.num ≤ n.num) = true := by
    intro n hn
    obtain ⟨k, hk, rfl⟩ := List.mem_map.mp hn
    rw [Node.markedIn_num]
    exact decide_eq_true (hHigh k hk)
  rw [lineage_purge, hMarked, ← hMore, libNum_of_lib hLib,
    show newer ++ m :: older ++ more = (newer ++ [m]) ++ (older ++ more) by simp, List.map_append,
    List.takeWhile_append_of_pos hKept]
  simp

end

namespace Feed

variable {f : Feed τ} {answers : List (BlockNum × Block)} {Q : Node → Prop}

/-- Where all that is stored is joined, settling the LIB brings it to the number that the block makes final. -/
theorem Takes.lib_of_joined {r s s' : Run τ} {b : Block} {target : BlockRef} {graph : ForkGraph} {move : LibMove}
    (hTakes : f.Takes r b s) (hLive : r.Live) (hKeeps : (s.link b).graph.Keeps (Node.Joined answers) Q)
    (hSteady : SteadyNumbers answers) (hAnswered : (Node.fresh b).Answered answers)
    (hHead : (s.link b).cursor.head = some target)
    (hReach : ((s.link b).graph.segmentTo target).reachesLib = true)
    (hFired : (fire f.sink f.config.start ((s.link b).graph.segmentTo target).nodes
      (s.link b).graph s.sinkState).ending = none)
    (hOver : f.handOver ((s.link b).graph.segmentTo target).nodes (s.check b target) = s')
    (hMove : s'.graph.advanceLib b.ref (f.config.libAfter b s'.graph.libNum) = .ok (graph, move)) :
    (∀ k, move ≠ .notFound k) ∧
      ∃ m ∈ graph.purge.lineage b.id, graph.purge.lib = some m.block ∧
        m.num = max r.graph.libNum (f.config.finalBy b) ∧ m.num ≤ b.num := by
  obtain ⟨l, hl, hLib, hStill, hMeets, hAdvance⟩ := hTakes.advance_of_settled hLive hHead hFired hOver hMove
  rw [hStill] at hAdvance
  have hLibNum : r.graph.libNum = l.num := by
    rw [← hTakes.sameBut.graph, ← link_libNum s.graph (.fresh b)]
    exact libNum_of_lib hLib
  obtain ⟨l', rest, later, n, sooner, hNodes, -, hPrefix, hMem, hl', hn⟩ :=
    hMeets.exists_segment hLib (contains_of_mem hl) hReach
  obtain ⟨hFollows, hStored⟩ := follows_of_isPrefix hPrefix
  rw [hn] at hFollows
  have hSame := eq_of_id_eq (hStored l' hMem) hl hl'
  subst hSame
  have hJoined : ∀ m ∈ n :: sooner, m.Joined answers := fun m hm => (hKeeps m (hStored m hm)).1
  have hNum : n.num = b.num := (hJoined n List.mem_cons_self).1.num_eq hAnswered hSteady hn
  have hFalling := hFollows.falling_of_joined hJoined
  obtain ⟨hFound, m, hm, hNew, hMax⟩ :=
    hAdvance.exists_joined hLib hFollows hStored hJoined hNum hMem rfl
  refine ⟨hFound, m.markedIn _, mem_lineage_purge hAdvance.nodes_eq hNew hFollows hStored hFalling hm, ?_, ?_, ?_⟩
  · rw [purge_lib, Node.markedIn_toLink]
    exact hNew
  · rw [Node.markedIn_num, hLibNum]
    exact hMax
  · rw [Node.markedIn_num, ← hNum]
    exact num_le_head_of_falling hFalling hm

end Feed

namespace Feed

variable {f : Feed τ}

/-! ## The LIB after an iteration -/

variable {answers : List (BlockNum × Block)} {Q : Node → Prop}

/-- An iteration that comes to the LIB, and ends without an error if at all, brings the LIB to the number
that its block makes final. -/
theorem Checks.lib_of_joined {r r' : Run τ} {b : Block} (h : f.Checks r b r' true)
    (hUpholds : r.Upholds (Node.Joined answers) Q) (hAdmits : f.Admits (Node.Joined answers) Q r r')
    (hSteady : SteadyNumbers answers) (hEnding : r'.ending = none ∨ r'.ending = some .finished) :
    ∃ m ∈ r'.graph.lineage b.id, r'.graph.lib = some m.block ∧
      m.num = max r.graph.libNum (f.config.finalBy b) ∧ m.num ≤ b.num := by
  generalize hReached : true = reached at h
  obtain @⟨s, target, hRunning, hTakes, hProcessed, hHead⟩ := h
  have hKeeps := hAdmits.keeps_link hRunning hTakes hProcessed hUpholds.keeps
  have hAnswered := (hAdmits b ⟨hRunning, s, hTakes, hProcessed⟩).1.1
  cases hProcessed with
  | headless | absent | refused => simp at hEnding
  | gap hSome hMissed =>
    cases hSome.symm.trans hHead
    cases hMissed.symm.trans hReached.symm
  | halted _ _ hHalt =>
    obtain hNone | hFinished := hEnding
    · cases hNone
    · cases hFinished
      exact absurd hHalt (fire_ending_ne (fun _ _ _ hHalts => by cases hHalts) _ _ _ _ _)
  | unsaved _ _ _ _ _ _ hUnsaved => cases hUnsaved <;> simp at hEnding
  | connected hSome hReach _ hFired hOver hMove hSaved =>
    obtain ⟨-, hLib⟩ := hTakes.lib_of_joined (hUpholds.live hRunning) hKeeps hSteady hAnswered hSome hReach
      hFired hOver hMove
    rw [(hSaved.goOn_eq hOver).1]
    exact hLib

/-- Where all that is stored is joined, an iteration does not say that the LIB was not found. -/
theorem Stepped.unfound_of_joined {r r' : Run τ} (h : f.Stepped r r')
    (hUpholds : r.Upholds (Node.Joined answers) Q) (hAdmits : f.Admits (Node.Joined answers) Q r r')
    (hSteady : SteadyNumbers answers) :
    r'.journal.pick Entry.unfound? = r.journal.pick Entry.unfound? := by
  have hp := Entry.unfound?_ignoresReports
  have hRequests : ∀ s : Run τ, r.SameBut s → s.journal.pick Entry.unfound? = r.journal.pick Entry.unfound? :=
    fun s hSame => hSame.requests.pick_eq fun _ => hp.eq_none_of_isRequest fun _ _ _ => rfl
  obtain ⟨-, hIdle, -⟩ | ⟨hRunning, -, b, s, hTakes, hProcessed⟩ := h.idle_or_processed
  · exact hRequests r' hIdle
  rw [← hRequests s hTakes.sameBut]
  refine hProcessed.pick_eq hp (fun _ _ => rfl) (fun _ => rfl) ?_
  rintro _ current ⟨hHead, hReach, hFired, hOver, hMove⟩
  have hKeeps := hAdmits.keeps_link hRunning hTakes hProcessed hUpholds.keeps
  have hAnswered := (hAdmits b ⟨hRunning, s, hTakes, hProcessed⟩).1.1
  exact absurd rfl ((hTakes.lib_of_joined (hUpholds.live hRunning) hKeeps hSteady hAnswered hHead hReach hFired hOver
    hMove).1 current)

end Feed

namespace Session

/-- On contiguous chains, no iteration says that the LIB was not found. -/
theorem unfound_after {sessions : List Session} (h : Succession sessions)
    (hSteady : SteadyNumbers (answers sessions)) (hContiguous : Contiguous (answers sessions))
    {s : Session} (hs : s ∈ sessions) :
    ∀ k ≤ s.iterations, (s.after k).journal.pick Entry.unfound? = [] := by
  have hJoined : ∀ a ∈ answers sessions, (Node.fresh a.2).Joined (answers sessions) :=
    fun a ha => hContiguous.joined ha
  intro k
  induction k with
  | zero =>
    have hOpening : ∀ e : Entry, e.IsOpening → e.unfound? = none :=
      fun _ => Entry.unfound?_ignoresReports.eq_none_of_isOpening (fun _ => rfl) fun _ _ _ => rfl
    exact fun _ => s.begun.untouched.pick_eq_nil hOpening
  | succ k ih =>
    intro hk
    have hUpholds := h.upholds_of_answers hJoined hs Node.Joined.lasting (Nat.le_of_lt hk)
    have hStep := (s.feed.stepped (s.after k)).unfound_of_joined hUpholds
      (admits_of_answers hJoined hs hk) hSteady
    exact hStep.trans (ih (Nat.le_of_lt hk))

/-- On contiguous chains, each iteration that comes to the LIB and ends without an error brings the LIB to the
number that its block makes final, on the block's own way back. No run says that the LIB was not found. -/
theorem lib_keeps_up {sessions : List Session} (h : Succession sessions)
    (hSteady : SteadyNumbers (answers sessions)) (hContiguous : Contiguous (answers sessions))
    {s : Session} (hs : s ∈ sessions) :
    (∀ k < s.iterations, ∀ b, s.feed.Checks (s.after k) b (s.after (k + 1)) true →
      (s.after (k + 1)).ending = none ∨ (s.after (k + 1)).ending = some .finished →
      ∃ m ∈ (s.after (k + 1)).graph.lineage b.id, (s.after (k + 1)).graph.lib = some m.block ∧
        m.num = max (s.after k).graph.libNum (s.feed.config.finalBy b) ∧ m.num ≤ b.num) ∧
    ∀ num head lib, .note (.libNotFound num head lib) ∉ s.run.journal.entries := by
  have hJoined : ∀ a ∈ answers sessions, (Node.fresh a.2).Joined (answers sessions) :=
    fun a ha => hContiguous.joined ha
  constructor
  · intro k hk b hChecks hEnding
    have hUpholds := h.upholds_of_answers hJoined hs Node.Joined.lasting (Nat.le_of_lt hk)
    exact hChecks.lib_of_joined hUpholds (admits_of_answers hJoined hs hk) hSteady hEnding
  intro num head lib hMem
  have hPicked : num ∈ (s.after s.iterations).journal.pick Entry.unfound? :=
    List.mem_filterMap.mpr ⟨_, hMem, rfl⟩
  rw [unfound_after h hSteady hContiguous hs s.iterations (Nat.le_refl _)] at hPicked
  cases hPicked

/-- The session that settles down is resumed where the source has left the last block that it handed over. A report
above all the blocks makes the last one final. -/
def rejoining : Session where
  sinkType := Unit
  feed := .undisturbed { start := 1, stateDir := some ⟨["state"]⟩ }
  source := .scripted [.plain "4b" 4 "3b" 2, .plain "3b" 3 "2a" 3, .plain "5b" 5 "4b" 9]
  sinkState := ()
  disk := settlingDown.run.disk
  iterations := 3

theorem lib_keeps_up_rejoining :
    (rejoining.after 0).graph.lib = some ⟨"2a", 2⟩ ∧ (rejoining.after 2).graph.lib = some ⟨"3b", 3⟩ ∧
    rejoining.run.graph.lib = some ⟨"5b", 5⟩ ∧ rejoining.run.ending = none ∧
    (∀ k < 3, ∀ b, rejoining.feed.Checks (rejoining.after k) b (rejoining.after (k + 1)) true →
      (rejoining.after (k + 1)).ending = none ∨ (rejoining.after (k + 1)).ending = some .finished →
      ∃ m ∈ (rejoining.after (k + 1)).graph.lineage b.id,
        (rejoining.after (k + 1)).graph.lib = some m.block ∧
        m.num = max (rejoining.after k).graph.libNum (rejoining.feed.config.finalBy b) ∧
        m.num ≤ b.num) ∧
    ∀ num head lib, .note (.libNotFound num head lib) ∉ rejoining.run.journal.entries := by
  have hSuccession : Succession [settlingDown, rejoining] := succession_settlingDown rfl rfl
  have hSteady : SteadyNumbers (answers [settlingDown, rejoining]) := by decide +kernel
  have hContiguous : Contiguous (answers [settlingDown, rejoining]) := by decide +kernel
  have hLast : rejoining ∈ [settlingDown, rejoining] := by simp
  refine ⟨?_, ?_, ?_, ?_, lib_keeps_up hSuccession hSteady hContiguous hLast⟩
  · decide +kernel
  · decide +kernel
  · decide +kernel
  · exact Option.isNone_iff_eq_none.mp (by decide +kernel)

end Session

end ChainFeed
