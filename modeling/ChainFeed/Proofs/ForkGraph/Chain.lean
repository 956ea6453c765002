import ChainFeed.Proofs.ForkGraph.Segment

/-! # Chains in a fork graph

A chain has one block at every number. Where its ids stand for its own blocks only, a walk that has come
to one of them goes on down the chain, number by number, until it comes to one that is not stored.
-/

set_option autoImplicit false

namespace ChainFeed

open ForkGraph

/-- The block numbered `0` has the parent id `root`. -/
structure Chain where
  id : BlockNum → BlockId
  root : BlockId

namespace Chain

variable (c : Chain)

def parentId (m : BlockNum) : BlockId := if m = 0 then c.root else c.id (m - 1)

def ref (m : BlockNum) : BlockRef := ⟨c.id m, m⟩

def link (m : BlockNum) : Link := ⟨c.ref m, ⟨c.parentId m, m.back 1⟩⟩

/-- What is stored under an id of the chain is the chain's block. -/
structure Fits (g : ForkGraph) : Prop where
  num : ∀ n ∈ g.nodes, ∀ m, n.id = c.id m → n.num = m
  parent : ∀ n ∈ g.nodes, ∀ m, n.id = c.id m → n.parent.id = c.parentId m
  root : ∀ n ∈ g.nodes, n.id ≠ c.root

/-- The path goes down the chain from one number to another. -/
inductive Down : BlockNum → BlockNum → List Node → Prop where
  | stop {m : BlockNum} {n : Node} (hNode : n.block = c.ref m) (hParent : n.parent.id = c.parentId m) :
      Down m m [n]
  | step {m j : BlockNum} {n : Node} {path : List Node} (hNode : n.block = c.ref m) (hHigh : m ≠ 0)
      (hPath : Down (m - 1) j path) : Down m j (n :: path)

/-- The chain's blocks from one number to another are stored. -/
def Holds (g : ForkGraph) (low high : BlockNum) : Prop :=
  ∀ m, low ≤ m → m ≤ high → g.contains (c.id m) = true

/-- They are stored as fired. -/
def Fired (g : ForkGraph) (low high : BlockNum) : Prop :=
  ∀ m, low ≤ m → m ≤ high → ∃ n ∈ g.nodes, n.block = c.ref m ∧ n.fired = true

variable {c} {m j k : BlockNum} {path : List Node}

theorem Fired.holds {g : ForkGraph} {low high : BlockNum} (h : c.Fired g low high) : c.Holds g low high := by
  intro m hLow hHigh
  obtain ⟨n, hn, hBlock, -⟩ := h m hLow hHigh
  exact contains_iff_exists.mpr ⟨n, hn, congrArg BlockRef.id hBlock⟩

theorem parentId_of_ne_zero (h : m ≠ 0) : c.parentId m = c.id (m - 1) := if_neg h

/-! ## Going down -/

namespace Down

theorem le (h : c.Down m j path) : j ≤ m := by
  induction h with
  | stop => exact UInt64.le_refl _
  | step _ hHigh _ ih => grind

theorem exists_of_mem (h : c.Down m j path) {n : Node} (hn : n ∈ path) :
    ∃ k, j ≤ k ∧ k ≤ m ∧ n.block = c.ref k := by
  induction h with
  | stop hNode =>
    cases List.mem_singleton.mp hn
    exact ⟨_, UInt64.le_refl _, UInt64.le_refl _, hNode⟩
  | step hNode hHigh hPath ih =>
    have hLe := hPath.le
    rcases List.mem_cons.mp hn with rfl | hn
    · exact ⟨_, by grind, UInt64.le_refl _, hNode⟩
    · obtain ⟨k, hLow, hUp, hBlock⟩ := ih hn
      exact ⟨k, hLow, by grind, hBlock⟩

theorem exists_mem (h : c.Down m j path) (hLow : j ≤ k) (hUp : k ≤ m) : ∃ n ∈ path, n.block = c.ref k := by
  induction h with
  | stop hNode =>
    cases UInt64.le_antisymm hLow hUp
    exact ⟨_, List.mem_singleton_self _, hNode⟩
  | @step m j n path hNode hHigh _ ih =>
    by_cases hHere : k = m
    · subst hHere
      exact ⟨n, List.mem_cons_self, hNode⟩
    · obtain ⟨l, hl, hBlock⟩ := ih hLow (by grind)
      exact ⟨l, List.mem_cons_of_mem n hl, hBlock⟩

theorem exists_head? (h : c.Down m j path) : ∃ n, path.head? = some n ∧ n.block = c.ref m := by
  cases h with
  | stop hNode | step hNode => exact ⟨_, rfl, hNode⟩

theorem exists_getLast? (h : c.Down m j path) :
    ∃ n, path.getLast? = some n ∧ n.block = c.ref j ∧ n.parent.id = c.parentId j := by
  induction h with
  | stop hNode hParent => exact ⟨_, rfl, hNode, hParent⟩
  | step _ _ hPath ih =>
    obtain ⟨n, hLast, hn⟩ := ih
    exact ⟨n, by rw [List.getLast?_cons, hLast]; rfl, hn⟩

theorem walkTarget_eq (h : c.Down m j path) (id : BlockId) : walkTarget path id = c.parentId j := by
  obtain ⟨n, hLast, -, hParent⟩ := h.exists_getLast?
  rw [walkTarget, hLast]
  exact hParent

/-- Down the chain, the first block numbered at most `k` is the one numbered `k`. -/
theorem exists_find? (h : c.Down m j path) (hLow : j ≤ k) (hUp : k ≤ m) :
    ∃ n, path.find? (fun n => n.num ≤ k) = some n ∧ n.block = c.ref k := by
  induction h with
  | @stop m n hNode =>
    cases UInt64.le_antisymm hLow hUp
    have hNum : n.num = k := congrArg BlockRef.num hNode
    exact ⟨n, by simp [hNum], hNode⟩
  | @step m j n path hNode hHigh _ ih =>
    have hNum : n.num = m := congrArg BlockRef.num hNode
    by_cases hHere : k = m
    · subst hHere
      exact ⟨n, by simp [hNum], hNode⟩
    · obtain ⟨l, hFind, hBlock⟩ := ih hLow (by grind)
      refine ⟨l, ?_, hBlock⟩
      rw [List.find?_cons_of_neg (by rw [hNum]; grind), hFind]

end Down

/-! ## Ways back that come to the chain -/

namespace Fits

variable {g : ForkGraph} {target lib : BlockRef} {l : BlockNum} {newer older : List Node} {n : Node}

theorem block_eq (h : c.Fits g) (hn : n ∈ g.nodes) (hId : n.id = c.id m) : n.block = c.ref m := by
  rw [ref, ← hId, ← h.num n hn m hId]
  rfl

theorem exists_down (h : c.Fits g) (hStored : ∀ k ∈ n :: path, k ∈ g.nodes) (hId : n.id = c.id m)
    (hPath : Follows n.parent.id path) : ∃ j, c.Down m j (n :: path) := by
  induction path generalizing n m with
  | nil =>
    have hn := hStored n List.mem_cons_self
    exact ⟨m, .stop (h.block_eq hn hId) (h.parent n hn m hId)⟩
  | cons p path ih =>
    have hn := hStored n List.mem_cons_self
    have hp := hStored p (by simp)
    have hParent : p.id = c.parentId m := hPath.1.trans (h.parent n hn m hId)
    have hHigh : m ≠ 0 := by
      rintro rfl
      exact h.root p hp hParent
    obtain ⟨j, hDown⟩ := ih (fun k hk => hStored k (List.mem_cons_of_mem n hk))
      (hParent.trans (parentId_of_ne_zero hHigh)) hPath.2
    exact ⟨j, .step (h.block_eq hn hId) hHigh hDown⟩

theorem exists_down_lineage (h : c.Fits g) (hLineage : g.lineage target.id = newer ++ n :: older)
    (hId : n.id = c.id m) : ∃ j, c.Down m j (n :: older) := by
  have hFollows := g.lineage_follows target.id
  rw [hLineage] at hFollows
  refine h.exists_down (fun k hk => ?_) hId (follows_append.mp hFollows).2.2
  exact mem_of_mem_lineage (hLineage ▸ List.mem_append_right newer hk)

theorem exists_down_lineage_self (h : c.Fits g) (hLineage : g.lineage (c.id m) = n :: older) :
    ∃ j, c.Down m j (n :: older) := by
  have hFollows := g.lineage_follows (c.id m)
  rw [hLineage] at hFollows
  exact h.exists_down (fun k hk => mem_of_mem_lineage (hLineage ▸ hk)) hFollows.1 hFollows.2

theorem walkTarget_lineage (hLineage : g.lineage target.id = newer ++ n :: older)
    (hDown : c.Down m j (n :: older)) : walkTarget (g.lineage target.id) target.id = c.parentId j := by
  rw [hLineage, walkTarget, List.getLast?_append_cons]
  exact hDown.walkTarget_eq target.id

/-- Where the LIB is no block of the chain, a way back that comes to the chain misses the LIB. -/
theorem reachesLib_eq_false (h : c.Fits g) (hLib : g.lib = some lib) (hOff : ∀ m, c.id m ≠ lib.id)
    (hRoot : c.root ≠ lib.id) (hLineage : g.lineage target.id = newer ++ n :: older)
    (hId : n.id = c.id m) (hNewer : lib.id ∉ newer.map Node.id) :
    (g.segmentTo target).reachesLib = false := by
  obtain ⟨j, hDown⟩ := h.exists_down_lineage hLineage hId
  rw [Bool.eq_false_iff]
  intro hReach
  rcases segmentTo_of_reachesLib hLib hReach with ⟨hMeets, -⟩ | ⟨-, hNext, -⟩
  · rw [hLineage, List.map_append, List.mem_append] at hMeets
    obtain ⟨k, hk, hkId⟩ := List.mem_map.mp (hMeets.resolve_left hNewer)
    obtain ⟨_, -, -, hBlock⟩ := hDown.exists_of_mem hk
    exact hOff _ ((congrArg BlockRef.id hBlock).symm.trans hkId)
  · rw [walkTarget_lineage hLineage hDown] at hNext
    unfold parentId at hNext
    split at hNext
    · exact hRoot hNext
    · exact hOff _ hNext

/-- A gap that is left on the way back lies below the block that the way came to the chain with. It lies
above the LIB, if that is further down the chain. -/
theorem exists_first_of_gap (h : c.Fits g) (hLib : g.lib = some lib)
    (hLineage : g.lineage target.id = newer ++ n :: older) (hId : n.id = c.id m)
    (hReach : (g.segmentTo target).reachesLib = false) {first : Node}
    (hFirst : (g.segmentTo target).nodes.head? = some first) :
    ∃ j, j ≤ m ∧ first.block = c.ref j ∧ ∀ l, lib = c.ref l → l ≤ m → l < j := by
  obtain ⟨j, hDown⟩ := h.exists_down_lineage hLineage hId
  obtain ⟨hMissed, hNodes, -⟩ := segmentTo_of_not_reachesLib hLib hReach
  obtain ⟨last, hLast, hBlock, -⟩ := hDown.exists_getLast?
  rw [hNodes, List.head?_reverse, hLineage, List.getLast?_append_cons, hLast, Option.some.injEq] at hFirst
  subst hFirst
  refine ⟨j, hDown.le, hBlock, ?_⟩
  rintro l rfl hUp
  refine UInt64.not_le.mp fun hLow => hMissed ?_
  obtain ⟨k, hk, hkBlock⟩ := hDown.exists_mem hLow hUp
  rw [hLineage, List.map_append, List.mem_append]
  exact .inr (List.mem_map.mpr ⟨k, hk, congrArg BlockRef.id hkBlock⟩)

/-- A LIB on the chain stays on it when a block of the chain reports a number. -/
theorem exists_lib_of_advance (h : c.Fits g) (hLib : g.lib = some (c.ref l)) (hUp : l ≤ m)
    {head : BlockRef} (hHead : head.id = c.id m) {ids : List BlockId} {num : BlockNum} {g' : ForkGraph}
    {move : LibMove} (hMove : Advance (g.markAll ids) (c.ref l) head num g' move) :
    ∃ l', g'.lib = some (c.ref l') ∧ l ≤ l' ∧ l' ≤ m := by
  have hOld : (g.markAll ids).lib = some (c.ref l) := (g.markAll_lib ids).trans hLib
  cases hMove with
  | belowStart | confirmed | notFound => exact ⟨l, hOld, UInt64.le_refl l, hUp⟩
  | @moved new hHigh hFound =>
    rw [ancestorAt?_markAll] at hFound
    obtain ⟨n, hFind, hNum, rfl⟩ := ancestorAt?_eq_some_iff.mp hFound
    have hMem := List.mem_of_find?_eq_some hFind
    rw [hHead] at hMem
    cases hLineage : g.lineage (c.id m) with
    | nil =>
      rw [hLineage] at hMem
      cases hMem
    | cons x older =>
      obtain ⟨j, hDown⟩ := h.exists_down_lineage_self hLineage
      rw [hLineage] at hMem
      obtain ⟨k, -, hkUp, hBlock⟩ := hDown.exists_of_mem hMem
      have hk : k = num := (congrArg BlockRef.num hBlock).symm.trans hNum
      refine ⟨k, congrArg some hBlock, ?_, hkUp⟩
      rw [hk]
      exact UInt64.le_of_lt hHigh

/-- A segment from a LIB on the chain to a block of the chain is the chain between the two. -/
theorem down_segmentTo (h : c.Fits g) (hLib : g.lib = some (c.ref l)) (hStored : g.contains (c.id l) = true)
    (hReach : (g.segmentTo (c.ref m)).reachesLib = true) :
    c.Down m l (g.segmentTo (c.ref m)).nodes.reverse := by
  obtain ⟨before, last, hNodes, ⟨more, hPrefix⟩, hLast, -⟩ := segmentTo_eq_cons hLib hStored hReach
  have hReverse : (g.segmentTo (c.ref m)).nodes.reverse = before ++ [last] := by rw [hNodes]; simp
  have hMem : ∀ n ∈ before ++ [last], n ∈ g.nodes := by
    intro n hn
    exact mem_of_mem_lineage (hPrefix ▸ List.mem_append_left more hn)
  have hFollows := g.lineage_follows (c.ref m).id
  rw [← hPrefix] at hFollows
  obtain ⟨x, path, hSplit⟩ : ∃ x path, before ++ [last] = x :: path := by
    cases before with
    | nil => exact ⟨last, [], rfl⟩
    | cons x before => exact ⟨x, before ++ [last], rfl⟩
  rw [hReverse, hSplit]
  rw [hSplit] at hMem hFollows
  obtain ⟨j, hDown⟩ := h.exists_down hMem hFollows.1 (follows_append.mp hFollows).1.2
  -- the chain is followed down to the LIB, which has its own number
  obtain ⟨n, hEnd, hBlock, -⟩ := hDown.exists_getLast?
  rw [← hSplit, List.getLast?_concat, Option.some.injEq] at hEnd
  subst hEnd
  have hStop : last.num = l := h.num last (hMem last (by rw [← hSplit]; simp)) l hLast
  have hj : j = l := (congrArg BlockRef.num hBlock).symm.trans hStop
  exact hj ▸ hDown

/-! ## Stretches of the chain -/

theorem exists_down_of_holds (h : c.Fits g) (hHolds : c.Holds g l m) (hLe : l ≤ m) :
    ∃ j, j ≤ l ∧ c.Down m j (g.lineage (c.id m)) := by
  obtain ⟨n, older, hLineage, -⟩ := exists_lineage_eq_cons (hHolds m hLe (UInt64.le_refl m))
  obtain ⟨j, hDown⟩ := h.exists_down_lineage_self hLineage
  refine ⟨j, ?_, hLineage ▸ hDown⟩
  rw [← UInt64.not_lt]
  intro hLow
  have hHigh : j ≠ 0 := by grind
  have hNext : walkTarget (g.lineage (c.id m)) (c.id m) = c.id (j - 1) := by
    rw [hLineage, hDown.walkTarget_eq, parentId_of_ne_zero hHigh]
  -- the block below is stored, so the walk would have to have met it above
  have hBelow : g.contains (c.id (j - 1)) = true := by
    have hj := hDown.le
    exact hHolds (j - 1) (by grind) (by grind)
  have hMet := mem_lineage_of_contains_walkTarget (hNext ▸ hBelow)
  rw [hNext] at hMet
  obtain ⟨k, hk, hkId⟩ := List.mem_map.mp hMet
  have hNum : k.num = j - 1 := h.num k (mem_of_mem_lineage hk) _ hkId
  rw [hLineage] at hk
  obtain ⟨i, hi, -, hBlock⟩ := hDown.exists_of_mem hk
  have hi' : i = j - 1 := (congrArg BlockRef.num hBlock).symm.trans hNum
  grind

theorem reachesLib_of_holds (h : c.Fits g) (hLib : g.lib = some (c.ref l)) (hHolds : c.Holds g l m)
    (hLe : l ≤ m) : (g.segmentTo (c.ref m)).reachesLib = true := by
  obtain ⟨j, hLow, hDown⟩ := h.exists_down_of_holds hHolds hLe
  obtain ⟨n, hn, hBlock⟩ := hDown.exists_mem hLow hLe
  rw [← Bool.not_eq_false]
  intro hReach
  exact (segmentTo_of_not_reachesLib hLib hReach).1
    (List.mem_map.mpr ⟨n, hn, congrArg BlockRef.id hBlock⟩)

theorem ancestorAt?_of_holds (h : c.Fits g) (hHolds : c.Holds g l m) (hLow : l ≤ k) (hUp : k ≤ m) :
    g.ancestorAt? (c.ref m) k = some (c.ref k) := by
  obtain ⟨j, hj, hDown⟩ := h.exists_down_of_holds hHolds (UInt64.le_trans hLow hUp)
  obtain ⟨n, hFind, hBlock⟩ := hDown.exists_find? (UInt64.le_trans hj hLow) hUp
  exact ancestorAt?_eq_some_iff.mpr ⟨n, hFind, congrArg BlockRef.num hBlock, hBlock⟩

end Fits

end Chain

end ChainFeed
