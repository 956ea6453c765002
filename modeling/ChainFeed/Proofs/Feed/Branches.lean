import ChainFeed.Proofs.Feed.Descent

/-! # Numbers rise along each branch

A path is fired from the LIB on, with rising numbers, and leaves none of its blocks unfired. So a block that is
handed over later than another is numbered higher, or it lies on a branch of its own. Numbers do fall back
where a branch above the LIB connects after another one was fired.
-/

set_option autoImplicit false

namespace ChainFeed

open ForkGraph

variable {τ : Type}

section

variable {answers : List (BlockNum × Block)}

/-- The block `id` is `root`, or the way back from it leads over answered blocks to `root`. -/
inductive ComesFrom (answers : List (BlockNum × Block)) (root : BlockId) : BlockId → Prop where
  | self : ComesFrom answers root root
  | child {a : BlockNum × Block} (ha : a ∈ answers) (hParent : ComesFrom answers root a.2.parentId) :
      ComesFrom answers root a.2.id

/-- Neither of the blocks comes from the other. -/
def Apart (answers : List (BlockNum × Block)) (b b' : Block) : Prop :=
  ¬ ComesFrom answers b.id b'.id ∧ ¬ ComesFrom answers b'.id b.id

/-- An id keeps its number and its parent, and the parent is numbered lower, if it was ever answered. -/
structure SteadyBlocks (answers : List (BlockNum × Block)) : Prop extends SteadyNumbers answers where
  parent : ∀ a ∈ answers, ∀ a' ∈ answers, a.2.id = a'.2.id → a.2.parentId = a'.2.parentId
  lower : ∀ a ∈ answers, ∀ a' ∈ answers, a'.2.id = a.2.parentId → a'.2.num < a.2.num

instance (answers : List (BlockNum × Block)) : Decidable (SteadyBlocks answers) :=
  decidable_of_iff
    (SteadyNumbers answers ∧
      (∀ a ∈ answers, ∀ a' ∈ answers, a.2.id = a'.2.id → a.2.parentId = a'.2.parentId) ∧
      ∀ a ∈ answers, ∀ a' ∈ answers, a'.2.id = a.2.parentId → a'.2.num < a.2.num)
    ⟨fun h => ⟨h.1, h.2.1, h.2.2⟩, fun h => ⟨h.toSteadyNumbers, h.parent, h.lower⟩⟩

/-- Whatever comes from an answered block, other than this block, was answered with a higher number. -/
theorem ComesFrom.eq_or_lt {root id : BlockId} (h : ComesFrom answers root id)
    (hSteady : SteadyBlocks answers) {a : BlockNum × Block} (ha : a ∈ answers) (hRoot : a.2.id = root) :
    root = id ∨ ∃ a' ∈ answers, a'.2.id = id ∧ a.2.num < a'.2.num := by
  induction h with
  | self => exact .inl rfl
  | @child c hc _ ih =>
    right
    refine ⟨c, hc, rfl, ?_⟩
    obtain hParent | ⟨p, hp, hId, hLower⟩ := ih
    · exact hSteady.lower c hc a ha (hRoot.trans hParent)
    · exact UInt64.lt_trans hLower (hSteady.lower c hc p hp hId)

theorem ComesFrom.num_lt {a a' : BlockNum × Block} (h : ComesFrom answers a.2.id a'.2.id)
    (hSteady : SteadyBlocks answers) (ha : a ∈ answers) (ha' : a' ∈ answers) (hOther : a.2.id ≠ a'.2.id) :
    a.2.num < a'.2.num := by
  obtain hSame | ⟨c, hc, hId, hLower⟩ := h.eq_or_lt hSteady ha rfl
  · exact absurd hSame hOther
  · rwa [← hSteady.same c hc a' ha' hId]

/-- The node is linked as a block that was answered, and has no other content. -/
structure Node.Heard (answers : List (BlockNum × Block)) (n : Node) : Prop where
  linked : ∃ a ∈ answers, a.2.ref = n.block ∧ a.2.parentId = n.parent.id
  content : ∀ b, n.content = some b → b.ref = n.block

theorem Node.Heard.lasting : Lasting (Heard answers) where
  markedIn h ids := ⟨by simpa using h.linked, by simpa using h.content⟩
  restored h := ⟨h.linked, fun _ hContent => by cases hContent⟩

theorem Node.heard_fresh {a : BlockNum × Block} (ha : a ∈ answers) : (Node.fresh a.2).Heard answers where
  linked := ⟨a, ha, rfl, rfl⟩
  content b hb := by
    cases hb
    rfl

namespace Node.Heard

variable {n : Node} {a : BlockNum × Block}

theorem answered (h : n.Heard answers) : n.Answered answers := by
  obtain ⟨a, ha, hBlock, -⟩ := h.linked
  exact ⟨a, ha, hBlock⟩

theorem num_eq (h : n.Heard answers) (hSteady : SteadyBlocks answers) (ha : a ∈ answers)
    (hId : a.2.id = n.id) : a.2.num = n.num := by
  obtain ⟨c, hc, hBlock⟩ := h.answered
  rw [Node.num, ← hBlock]
  exact hSteady.same a ha c hc (hId.trans (congrArg BlockRef.id hBlock).symm)

theorem parent_eq (h : n.Heard answers) (hSteady : SteadyBlocks answers) (ha : a ∈ answers)
    (hId : a.2.id = n.id) : a.2.parentId = n.parent.id := by
  obtain ⟨c, hc, hBlock, hParent⟩ := h.linked
  rw [← hParent]
  exact hSteady.parent a ha c hc (hId.trans (congrArg BlockRef.id hBlock).symm)

theorem falls (h : n.Heard answers) (hSteady : SteadyBlocks answers) : n.Falls answers := by
  obtain ⟨c, hc, hBlock, hParent⟩ := h.linked
  intro a ha hId
  rw [Node.num, ← hBlock]
  exact hSteady.lower c hc a ha (hId.trans hParent.symm)

theorem num_lt (h : n.Heard answers) (hSteady : SteadyBlocks answers) (ha : a ∈ answers)
    (hFrom : ComesFrom answers a.2.id n.id) (hOther : a.2.id ≠ n.id) : a.2.num < n.num := by
  obtain hSame | ⟨c, hc, hId, hLower⟩ := hFrom.eq_or_lt hSteady ha rfl
  · exact absurd hSame hOther
  · rwa [← h.num_eq hSteady hc hId]

theorem comesFrom_parent (h : n.Heard answers) (hSteady : SteadyBlocks answers) {root : BlockId}
    (hFrom : ComesFrom answers root n.id) (hOther : root ≠ n.id) : ComesFrom answers root n.parent.id := by
  generalize hId : n.id = id at hFrom hOther
  cases hFrom with
  | self => exact absurd rfl hOther
  | child hc hParent =>
    rw [← h.parent_eq hSteady hc hId.symm]
    exact hParent

end Node.Heard

/-- A way back from a block passes each block that it comes from, down to the block where the way ends. -/
theorem Follows.exists_of_comesFrom {id : BlockId} {n l : Node} {older : List Node}
    (h : Follows id (n :: older)) (hHeard : ∀ m ∈ n :: older, m.Heard answers)
    (hSteady : SteadyBlocks answers) (hLast : (n :: older).getLast? = some l) {a : BlockNum × Block}
    (ha : a ∈ answers) (hFrom : ComesFrom answers a.2.id id) (hHigh : l.num < a.2.num) :
    ∃ m ∈ n :: older, m.id = a.2.id := by
  induction older generalizing id n with
  | nil =>
    obtain ⟨rfl, -⟩ := h
    cases hLast
    refine ⟨n, List.mem_singleton_self n, ?_⟩
    by_contra hOther
    have hBelow := (hHeard n (List.mem_singleton_self n)).num_lt hSteady ha hFrom (Ne.symm hOther)
    exact UInt64.lt_irrefl _ (UInt64.lt_trans hBelow hHigh)
  | cons p older ih =>
    obtain ⟨rfl, hRest⟩ := h
    by_cases hHere : a.2.id = n.id
    · exact ⟨n, List.mem_cons_self, hHere.symm⟩
    · have hParent := (hHeard n List.mem_cons_self).comesFrom_parent hSteady hFrom hHere
      obtain ⟨m, hm, hId⟩ := ih hRest (fun m hm => hHeard m (List.mem_cons_of_mem n hm)) hLast hParent
      exact ⟨m, List.mem_cons_of_mem n hm, hId⟩

end

/-! ## Turns -/

/-- A turn that passes the nodes, which a path to the LIB begins with. -/
structure Turn.Passes (start : BlockNum) (b : Block) (g g' : ForkGraph) (accepted : List Block)
    (passed : List Node) : Prop where
  accepted : accepted = passed.filterMap (Node.delivered? start)
  path : passed = [] ∨ ∃ target left, ((g.link (.fresh b)).segmentTo target).reachesLib = true ∧
    ((g.link (.fresh b)).segmentTo target).nodes = passed ++ left
  kept : ∀ n ∈ (g.link (.fresh b)).nodes, g'.libNum ≤ n.num → n.markedIn (newlyFired passed) ∈ g'.nodes
  libNum : g.libNum ≤ g'.libNum

/-- What was accepted was answered, and whatever it comes from above the LIB was fired. -/
structure FiredBack (answers : List (BlockNum × Block)) (g : ForkGraph) (accepted : List Block) : Prop where
  answered : ∀ c ∈ accepted, ∃ a ∈ answers, a.2.ref = c.ref
  fired : ∀ c ∈ accepted, ∀ a ∈ answers, ComesFrom answers a.2.id c.id → g.libNum < a.2.num →
    ∃ n ∈ g.nodes, n.fired = true ∧ n.id = a.2.id

theorem Turn.exists_passes {start : BlockNum} {b : Block} {g g' : ForkGraph} {accepted : List Block}
    (h : Turn start b g g' accepted) : ∃ passed, Turn.Passes start b g g' accepted passed := by
  cases h with
  | linked =>
    refine ⟨[], rfl, .inl rfl, fun n hn _ => ?_, ?_⟩
    · rw [Node.markedIn, if_neg (by simp [newlyFired])]
      exact hn
    · rw [link_libNum]
      exact UInt64.le_refl _
  | halted hReach hPath =>
    refine ⟨_, rfl, .inr ⟨_, _, hReach, hPath⟩, fun n hn _ => markedIn_mem_markAll hn _, ?_⟩
    rw [markAll_libNum, link_libNum]
    exact UInt64.le_refl _
  | settled hLib hReach hPath hMove =>
    refine ⟨_, rfl, .inr ⟨_, [], hReach, by simpa using hPath⟩, fun n hn hHigh => ?_, ?_⟩
    · rw [mem_purge, hMove.nodes_eq, Node.markedIn_num]
      exact ⟨markedIn_mem_markAll hn _, hHigh⟩
    · have hUp := hMove.libNum_le (by simpa using hLib)
      rwa [markAll_libNum, link_libNum] at hUp

section

variable {answers : List (BlockNum × Block)} {start : BlockNum} {b : Block} {g g' : ForkGraph}
  {accepted past : List Block} {passed : List Node} {n l : Node}
  (hPasses : Turn.Passes start b g g' accepted passed)
  (hHeard : ∀ n ∈ (g.link (.fresh b)).nodes, n.Heard answers)

include hPasses

theorem Turn.Passes.mem_link (hn : n ∈ passed) : n ∈ (g.link (.fresh b)).nodes := by
  obtain rfl | ⟨target, left, -, hPath⟩ := hPasses.path
  · cases hn
  · exact mem_of_mem_segmentTo (hPath ▸ List.mem_append_left left hn)

include hHeard

theorem Turn.Passes.exists_unfired {c : Block} (hc : c ∈ accepted) :
    ∃ n ∈ passed, n.fired = false ∧ c.ref = n.block := by
  rw [hPasses.accepted] at hc
  obtain ⟨n, hn, hDelivered⟩ := List.mem_filterMap.mp hc
  obtain ⟨hUnfired, -, hContent⟩ := Node.delivered?_eq_some_iff.mp hDelivered
  exact ⟨n, hn, hUnfired, (hHeard n (hPasses.mem_link hn)).content c hContent⟩

variable (hSteady : SteadyBlocks answers)

include hSteady

theorem Turn.Passes.rising : passed.Pairwise fun m n => m.num < n.num := by
  obtain rfl | ⟨target, left, -, hPath⟩ := hPasses.path
  · exact .nil
  have hStored : ∀ n ∈ ((g.link (.fresh b)).segmentTo target).nodes.reverse, n.Heard answers :=
    fun n hn => hHeard n (mem_of_mem_segmentTo (List.mem_reverse.mp hn))
  have hFalling := ((g.link (.fresh b)).follows_segmentTo target).falling
    (fun n hn => (hStored n hn).answered) fun n hn => (hStored n hn).falls hSteady
  rw [List.pairwise_reverse, hPath] at hFalling
  exact (List.pairwise_append.mp hFalling).1

theorem Turn.Passes.accepted_rising : accepted.Pairwise fun c c' => c.num < c'.num := by
  have hNum : ∀ k ∈ passed, ∀ c, k.delivered? start = some c → c.num = k.num := by
    intro k hk c hc
    obtain ⟨-, -, hContent⟩ := Node.delivered?_eq_some_iff.mp hc
    exact congrArg BlockRef.num ((hHeard k (hPasses.mem_link hk)).content c hContent)
  rw [hPasses.accepted, List.pairwise_filterMap]
  apply (hPasses.rising hHeard hSteady).imp_of_mem
  intro m n hm hn hLower c hc c' hc'
  rw [hNum m hm c hc, hNum n hn c' hc']
  exact hLower

variable (hl : l ∈ (g.link (.fresh b)).nodes) (hLib : (g.link (.fresh b)).lib = some l.block)

include hl hLib

omit hHeard hSteady in
theorem Turn.Passes.head_eq (hn : n ∈ passed) : ∃ rest, passed = l :: rest := by
  obtain rfl | ⟨target, left, hReach, hPath⟩ := hPasses.path
  · cases hn
  obtain ⟨newer, l', hNodes, -, hId, -⟩ := segmentTo_eq_cons hLib (contains_of_mem hl) hReach
  cases passed with
  | nil => cases hn
  | cons m rest =>
    rw [hPath, List.cons_append] at hNodes
    obtain ⟨rfl, -⟩ := List.cons.inj hNodes
    refine ⟨rest, ?_⟩
    rw [eq_of_id_eq (hPasses.mem_link List.mem_cons_self) hl hId]

theorem Turn.Passes.libNum_lt (hFired : l.fired = true) (hn : n ∈ passed) (hUnfired : n.fired = false) :
    g.libNum < n.num := by
  obtain ⟨rest, hHead⟩ := hPasses.head_eq hl hLib hn
  have hRising := hPasses.rising hHeard hSteady
  rw [hHead] at hn hRising
  obtain rfl | hNewer := List.mem_cons.mp hn
  · rw [hFired] at hUnfired
    cases hUnfired
  · rw [← link_libNum g (.fresh b), libNum_of_lib hLib]
    exact (List.pairwise_cons.mp hRising).1 n hNewer

theorem Turn.Passes.exists_of_comesFrom (hn : n ∈ passed) {a : BlockNum × Block} (ha : a ∈ answers)
    (hFrom : ComesFrom answers a.2.id n.id) (hHigh : l.num < a.2.num) : ∃ m ∈ passed, m.id = a.2.id := by
  obtain ⟨rest, hHead⟩ := hPasses.head_eq hl hLib hn
  obtain rfl | ⟨target, left, -, hPath⟩ := hPasses.path
  · cases hn
  obtain ⟨sooner, later, hSplit⟩ := List.append_of_mem hn
  -- turned round, the nodes up to this one are the way back from it to the LIB
  have hReverse : ((g.link (.fresh b)).segmentTo target).nodes.reverse =
      (left.reverse ++ later.reverse) ++ n :: sooner.reverse := by
    rw [hPath, hSplit]
    simp
  have hPrefix := (g.link (.fresh b)).segmentTo_reverse_isPrefix target
  rw [hReverse] at hPrefix
  obtain ⟨hFollows, hStored⟩ := follows_of_isPrefix hPrefix
  have hFirst : (sooner ++ [n]).head? = some l := by
    have hWhole : ((sooner ++ [n]) ++ later).head? = some l := by
      rw [List.append_assoc]
      exact congrArg List.head? (hSplit.symm.trans hHead)
    rwa [List.head?_append_of_ne_nil _ (by simp)] at hWhole
  have hLast : (n :: sooner.reverse).getLast? = some l := by
    rw [← hFirst, ← List.getLast?_reverse, List.reverse_append]
    rfl
  obtain ⟨m, hm, hId⟩ := hFollows.exists_of_comesFrom (fun m hm => hHeard m (hStored m hm)) hSteady hLast ha
    hFrom hHigh
  refine ⟨m, ?_, hId⟩
  rw [hSplit]
  simp only [List.mem_cons, List.mem_reverse, List.mem_append] at hm ⊢
  tauto

theorem FiredBack.turn (h : FiredBack answers g past) : FiredBack answers g' (past ++ accepted) where
  answered c hc := by
    obtain hc | hc := List.mem_append.mp hc
    · exact h.answered c hc
    · obtain ⟨n, hn, -, hBlock⟩ := hPasses.exists_unfired hHeard hc
      rw [hBlock]
      exact (hHeard n (hPasses.mem_link hn)).answered
  fired c hc a ha hFrom hHigh := by
    -- what is stored under an id above the LIB stays stored
    have hKept : ∀ n ∈ (g.link (.fresh b)).nodes, n.id = a.2.id →
        n.markedIn (newlyFired passed) ∈ g'.nodes := by
      intro n hn hId
      apply hPasses.kept n hn
      rw [← (hHeard n hn).num_eq hSteady ha hId.symm]
      exact UInt64.le_of_lt hHigh
    obtain hc | hc := List.mem_append.mp hc
    · obtain ⟨n, hn, hFired, hId⟩ := h.fired c hc a ha hFrom (UInt64.lt_of_le_of_lt hPasses.libNum hHigh)
      refine ⟨_, hKept n (mem_link_of_mem hn) hId, ?_, by simpa using hId⟩
      rw [Node.markedIn_of_fired hFired, hFired]
    · obtain ⟨n, hn, -, hBlock⟩ := hPasses.exists_unfired hHeard hc
      have hLow : l.num < a.2.num := by
        apply UInt64.lt_of_le_of_lt _ hHigh
        rw [Node.num, ← libNum_of_lib hLib, link_libNum]
        exact hPasses.libNum
      rw [show c.id = n.id from congrArg BlockRef.id hBlock] at hFrom
      obtain ⟨m, hm, hId⟩ := hPasses.exists_of_comesFrom hHeard hSteady hl hLib hn ha hFrom hLow
      exact ⟨_, hKept m (hPasses.mem_link hm) hId, markedIn_newlyFired hm, by simpa using hId⟩

/-- What a turn accepts is numbered above the LIB. Next to what was accepted before, it is numbered higher or
lies apart. -/
theorem FiredBack.rises (h : FiredBack answers g past) (hFired : l.fired = true) {c c' : Block} (hc : c ∈ past)
    (hc' : c' ∈ accepted) : g.libNum < c'.num ∧ (c.num < c'.num ∨ Apart answers c c') := by
  obtain ⟨n, hn, hUnfired, hBlock⟩ := hPasses.exists_unfired hHeard hc'
  have hStored := hPasses.mem_link hn
  obtain ⟨a, ha, hRef⟩ := h.answered c hc
  obtain ⟨a', ha', hRef'⟩ := (hHeard n hStored).answered
  obtain ⟨hId, hNum⟩ := BlockRef.mk.inj hRef
  obtain ⟨hId', hNum'⟩ := BlockRef.mk.inj (hRef'.trans hBlock.symm)
  have hNode : a'.2.id = n.id := congrArg BlockRef.id hRef'
  have hAbove : g.libNum < a'.2.num := by
    rw [(hHeard n hStored).num_eq hSteady ha' hNode]
    exact hPasses.libNum_lt hHeard hSteady hl hLib hFired hn hUnfired
  -- the later block was not fired before, so the earlier one does not come from it
  have hNot : ¬ ComesFrom answers a'.2.id a.2.id := by
    intro hFrom
    obtain ⟨m, hm, hmFired, hmId⟩ := h.fired c hc a' ha' (hId ▸ hFrom) hAbove
    have hSame : m = n := eq_of_id_eq (mem_link_of_mem hm) hStored (hmId.trans hNode)
    rw [hSame, hUnfired] at hmFired
    cases hmFired
  rw [Apart, ← hId, ← hId', ← hNum, ← hNum']
  refine ⟨hAbove, ?_⟩
  by_cases hFrom : ComesFrom answers a.2.id a'.2.id
  · left
    apply hFrom.num_lt hSteady ha ha'
    intro hSame
    exact hNot (hSame ▸ .self)
  · exact .inr ⟨hFrom, hNot⟩

end

/-! ## Runs -/

/-- A run over steady blocks: nothing was accepted before its first block was taken up. -/
structure Run.Unbroken (answers : List (BlockNum × Block)) (r : Run τ) : Prop where
  accepted : FiredBack answers r.graph r.journal.accepted
  begun : ∀ b, r.pending = some b → r.journal.accepted = []

namespace Feed

variable {f : Feed τ} {answers : List (BlockNum × Block)} {Q : Node → Prop}

theorem Begun.unbroken {disk : Disk} {r : Run τ} (h : f.Begun disk r) : r.Unbroken answers := by
  have hNone : r.journal.accepted = [] := h.untouched.accepted
  refine ⟨⟨?_, ?_⟩, fun _ _ => hNone⟩ <;> rw [hNone] <;> simp

/-- The run from `r` to `r'` accepted these blocks, with rising numbers above the LIB. Next to what was accepted
before, each is numbered higher or lies apart. -/
structure Rises (answers : List (BlockNum × Block)) (r r' : Run τ) (more : List Block) : Prop where
  accepted : r'.journal.accepted = r.journal.accepted ++ more
  rising : more.Pairwise fun c c' => c.num < c'.num
  apart : ∀ c ∈ r.journal.accepted, ∀ c' ∈ more,
    r.graph.libNum < c'.num ∧ (c.num < c'.num ∨ Apart answers c c')

theorem Stepped.rises {r r' : Run τ} (h : f.Stepped r r') (hUnbroken : r.Unbroken answers)
    (hUpholds : r.Upholds (Node.Heard answers) Q) (hAdmits : f.Admits (Node.Heard answers) Q r r')
    (hSteady : SteadyBlocks answers) : r'.Unbroken answers ∧ ∃ more, Rises answers r r' more := by
  obtain ⟨-, hIdle, hPending, -⟩ | ⟨hRunning, -, b, s, hTakes, hProcessed⟩ := h.idle_or_processed
  · have hSame : r'.journal.accepted = r.journal.accepted := hIdle.accepted
    refine ⟨⟨?_, ?_⟩, [], ⟨by rw [hSame, List.append_nil], .nil, by simp⟩⟩
    · rw [hIdle.graph, hSame]
      exact hUnbroken.accepted
    · rw [hPending, hSame]
      exact hUnbroken.begun
  obtain ⟨more, hTurn, hMore⟩ := hProcessed.turn
  obtain ⟨passed, hPasses⟩ := hTurn.exists_passes
  have hAccepted : r'.journal.accepted = r.journal.accepted ++ more :=
    hMore.trans (congrArg (· ++ more) hTakes.sameBut.accepted)
  have hHeard : ∀ n ∈ (s.link b).graph.nodes, n.Heard answers :=
    fun n hn => (hAdmits.keeps_link hRunning hTakes hProcessed hUpholds.keeps n hn).1
  obtain ⟨-, l, hl, hLib, hFirst⟩ := hTakes.linked (hUpholds.live hRunning)
  have hBefore : FiredBack answers s.graph r.journal.accepted := by
    rw [hTakes.sameBut.graph]
    exact hUnbroken.accepted
  have hRising := hPasses.accepted_rising hHeard hSteady
  refine ⟨⟨?_, fun c hc => ?_⟩, more, hAccepted, hRising, fun c hc c' hc' => ?_⟩
  · rw [hAccepted]
    exact hBefore.turn hPasses hHeard hSteady hl hLib
  · rw [hProcessed.pending_eq, hTakes.pending_eq_none] at hc
    cases hc
  · obtain hFired | ⟨hBegun, -⟩ := hFirst
    · rw [← hTakes.sameBut.graph]
      exact hBefore.rises hPasses hHeard hSteady hl hLib hFired hc hc'
    · rw [hUnbroken.begun b hBegun.2.2] at hc
      cases hc

end Feed

namespace Session

theorem Succession.rises {sessions : List Session} (h : Succession sessions)
    (hSteady : SteadyBlocks (answers sessions)) {s : Session} (hs : s ∈ sessions) {k : Nat}
    (hk : k < s.iterations) (hUnbroken : (s.after k).Unbroken (answers sessions)) :
    (s.after (k + 1)).Unbroken (answers sessions) ∧
      ∃ more, Feed.Rises (answers sessions) (s.after k) (s.after (k + 1)) more := by
  have hHeard : ∀ a ∈ answers sessions, (Node.fresh a.2).Heard (answers sessions) := fun _ => Node.heard_fresh
  have hUpholds := h.upholds_of_answers hHeard hs Node.Heard.lasting (Nat.le_of_lt hk)
  exact (s.feed.stepped (s.after k)).rises hUnbroken hUpholds (admits_of_answers hHeard hs hk) hSteady

theorem pairwise_of_rises {answers : List (BlockNum × Block)} {s : Session} {n : Nat}
    (h : ∀ k < n, ∃ more, Feed.Rises answers (s.after k) (s.after (k + 1)) more) :
    (s.after n).journal.accepted.Pairwise fun c c' => c.num < c'.num ∨ Apart answers c c' := by
  induction n with
  | zero =>
    have hNone : (s.after 0).journal.accepted = [] := s.begun.untouched.accepted
    rw [hNone]
    exact .nil
  | succ n ih =>
    have hBefore := ih fun k hk => h k (Nat.lt_succ_of_lt hk)
    obtain ⟨more, hAccepted, hRising, hApart⟩ := h n (Nat.lt_succ_self n)
    rw [hAccepted, List.pairwise_append]
    refine ⟨hBefore, hRising.imp fun hLower => .inl hLower, ?_⟩
    intro c hc c' hc'
    exact (hApart c hc c' hc').2

/-- Over steady blocks, each iteration hands over blocks with rising numbers, above the LIB as soon as anything
was handed over before. Next to what was handed over before, a block is numbered higher, or neither comes from
the other. -/
theorem accepted_rises {sessions : List Session} (h : Succession sessions)
    (hSteady : SteadyBlocks (answers sessions)) {s : Session} (hs : s ∈ sessions) :
    (∀ k < s.iterations, ∃ more, Feed.Rises (answers sessions) (s.after k) (s.after (k + 1)) more) ∧
    s.run.journal.accepted.Pairwise fun c c' => c.num < c'.num ∨ Apart (answers sessions) c c' := by
  have hUnbroken : ∀ k ≤ s.iterations, (s.after k).Unbroken (answers sessions) := by
    intro k
    induction k with
    | zero => exact fun _ => s.begun.unbroken
    | succ k ih =>
      intro hk
      exact (h.rises hSteady hs hk (ih (Nat.le_of_lt hk))).1
  have hRises : ∀ k < s.iterations,
      ∃ more, Feed.Rises (answers sessions) (s.after k) (s.after (k + 1)) more :=
    fun k hk => (h.rises hSteady hs hk (hUnbroken k (Nat.le_of_lt hk))).2
  exact ⟨hRises, pairwise_of_rises hRises⟩

/-- The session that settles down is resumed where the last block it handed over has two children. -/
def overtaking : Session where
  sinkType := Unit
  feed := .undisturbed { start := 1, stateDir := some ⟨["state"]⟩ }
  source := .scripted [.plain "4a" 4 "3a" 2, .plain "5c" 5 "4c" 2, .plain "4c" 4 "3a" 2]
  sinkState := ()
  disk := settlingDown.run.disk
  iterations := 3

theorem accepted_rises_overtaking :
    overtaking.run.journal.accepted.map Block.id = ["4a", "4c", "5c"] ∧
    (∀ k < 3, ∃ more, Feed.Rises (answers [settlingDown, overtaking]) (overtaking.after k)
      (overtaking.after (k + 1)) more) ∧
    overtaking.run.journal.accepted.Pairwise fun c c' =>
      c.num < c'.num ∨ Apart (answers [settlingDown, overtaking]) c c' := by
  have hSuccession : Succession [settlingDown, overtaking] := succession_settlingDown rfl rfl
  have hSteady : SteadyBlocks (answers [settlingDown, overtaking]) := by decide +kernel
  have hLast : overtaking ∈ [settlingDown, overtaking] := by simp
  exact ⟨by decide +kernel, accepted_rises hSuccession hSteady hLast⟩

/-- A source that turns to other blocks once three were handed over. -/
def turnedTo (since : List Block) : Session where
  sinkType := Unit
  feed := .undisturbed { start := 100, retries := 1 }
  source := .reorganising 3
    [.plain "100a" 100 "99a" 100, .plain "101a" 101 "100a" 100, .plain "102a" 102 "101a" 100] since
  sinkState := ()
  disk := .empty
  iterations := 6

/-- It turns to a branch that leaves the first one at the LIB. -/
def besideTheFirst : Session :=
  turnedTo [.plain "101b" 101 "100a" 100, .plain "102b" 102 "101b" 100, .plain "103b" 103 "102b" 100]

/-- It turns to a block whose parent is numbered above it, whatever it declares. -/
def behindTheFirst : Session :=
  turnedTo [.plain "101c" 101 "102a" 100, .plain "102c" 102 "101c" 100, .plain "103c" 103 "102c" 100]

/-- Numbers fall back where a branch connects after another was handed over, and where a parent is not numbered
as declared, even along one branch. -/
theorem accepted_falls_back :
    (SteadyBlocks besideTheFirst.run.journal.answers ∧
      (∀ a ∈ besideTheFirst.run.journal.answers,
        a.2.parentNum.next? = some a.2.num ∧ a.2.Declares besideTheFirst.run.journal.answers) ∧
      besideTheFirst.run.journal.accepted.map Block.num = [100, 101, 102, 101, 102, 103] ∧
      ¬ besideTheFirst.run.journal.accepted.Pairwise fun c c' => c.num < c'.num) ∧
    (SteadyNumbers behindTheFirst.run.journal.answers ∧
      (∀ a ∈ behindTheFirst.run.journal.answers, a.2.parentNum.next? = some a.2.num ∧
        ∀ a' ∈ behindTheFirst.run.journal.answers, a.2.id = a'.2.id → a.2.parentId = a'.2.parentId) ∧
      behindTheFirst.run.journal.accepted.map Block.id =
        ["100a", "101a", "102a", "101c", "102c", "103c"] ∧
      ¬ (behindTheFirst.run.journal.accepted.Pairwise fun c c' => c.num < c'.num) ∧
      ComesFrom behindTheFirst.run.journal.answers "102a" "101c") := by
  refine ⟨⟨?_, ?_, ?_, ?_⟩, ?_, ?_, ?_, ?_, ?_⟩
  · decide +kernel
  · decide +kernel
  · decide +kernel
  · decide +kernel
  · decide +kernel
  · decide +kernel
  · decide +kernel
  · decide +kernel
  · have hAnswered : (101, Block.plain "101c" 101 "102a" 100) ∈ behindTheFirst.run.journal.answers := by
      decide +kernel
    exact .child hAnswered .self

end Session

end ChainFeed
