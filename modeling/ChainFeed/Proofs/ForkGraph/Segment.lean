import ChainFeed.Proofs.ForkGraph.Path

/-! # Segments and the LIB

A segment that reaches a stored LIB starts with the LIB's node, and a block found back along it at a
number above the LIB lies on it. So the LIB moves along the segment only, and only upward.
-/

set_option autoImplicit false

namespace ChainFeed.ForkGraph

variable {g : ForkGraph} {lib : BlockRef}

/-! ## Segments -/

/-- A segment reaches the LIB by meeting its node, or by stopping at its id where it has no node. -/
theorem segmentTo_of_reachesLib {target : BlockRef} (hLib : g.lib = some lib)
    (hReach : (g.segmentTo target).reachesLib = true) :
    (lib.id ∈ (g.lineage target.id).map Node.id ∧
      (g.segmentTo target).nodes = (cutAfter lib.id (g.lineage target.id)).reverse) ∨
    (g.contains lib.id = false ∧ walkTarget (g.lineage target.id) target.id = lib.id ∧
      (g.segmentTo target).nodes = (g.lineage target.id).reverse) := by
  unfold segmentTo at hReach ⊢
  simp only [libId_of_lib hLib, List.any_eq_true, decide_eq_true_eq, List.mem_map] at hReach ⊢
  split
  next h => exact .inl ⟨h, rfl⟩
  next h =>
    rw [if_neg h] at hReach
    simp only [Segment.reachesLib, decide_eq_true_eq] at hReach
    split at hReach
    · cases hReach
    next hAbsent =>
      split at hReach
      next hNext =>
        rw [Bool.not_eq_true, hNext] at hAbsent
        exact .inr ⟨hAbsent, hNext, rfl⟩
      · cases hReach

/-- A segment that does not reach the LIB is the whole lineage. It stops at a parent that is missing, or
goes round in a circle. -/
theorem segmentTo_of_not_reachesLib {target : BlockRef} (hLib : g.lib = some lib)
    (hReach : (g.segmentTo target).reachesLib = false) :
    lib.id ∉ (g.lineage target.id).map Node.id ∧
    (g.segmentTo target).nodes = (g.lineage target.id).reverse ∧
    (walkTarget (g.lineage target.id) target.id ∈ (g.lineage target.id).map Node.id ∨
      g.contains (walkTarget (g.lineage target.id) target.id) = false ∧
        walkTarget (g.lineage target.id) target.id ≠ lib.id) := by
  unfold segmentTo at hReach ⊢
  simp only [libId_of_lib hLib, List.any_eq_true, decide_eq_true_eq] at hReach ⊢
  split
  next h =>
    rw [if_pos h] at hReach
    cases hReach
  next h =>
    rw [if_neg h] at hReach
    simp only [Segment.reachesLib, decide_eq_false_iff_not] at hReach
    refine ⟨by simpa using h, rfl, ?_⟩
    cases hNext : g.contains (walkTarget (g.lineage target.id) target.id) with
    | true => exact .inl (mem_lineage_of_contains_walkTarget hNext)
    | false =>
      refine .inr ⟨rfl, fun hEq => hReach ?_⟩
      rw [hNext, if_neg (by simp), if_pos hEq]

theorem segmentTo_ne_nil {target : BlockRef} (hLib : g.lib = some lib)
    (hStored : g.contains target.id = true) : (g.segmentTo target).nodes ≠ [] := by
  have hLineage := lineage_ne_nil hStored
  cases hReach : (g.segmentTo target).reachesLib with
  | true =>
    obtain ⟨hMeets, hNodes⟩ | ⟨-, -, hNodes⟩ := segmentTo_of_reachesLib hLib hReach
    · obtain ⟨newer, l, hCut, -⟩ := cutAfter_eq_concat hMeets
      rw [hNodes, hCut]
      simp
    · rw [hNodes]
      exact fun hNil => hLineage (List.reverse_eq_nil_iff.mp hNil)
  | false =>
    rw [(segmentTo_of_not_reachesLib hLib hReach).2.1]
    exact fun hNil => hLineage (List.reverse_eq_nil_iff.mp hNil)

theorem segmentTo_eq_cons {target : BlockRef} (hLib : g.lib = some lib)
    (hStored : g.contains lib.id = true) (hReach : (g.segmentTo target).reachesLib = true) :
    ∃ newer l, (g.segmentTo target).nodes = l :: newer.reverse ∧ newer ++ [l] <+: g.lineage target.id ∧
      l.id = lib.id ∧ lib.id ∉ newer.map Node.id := by
  rcases segmentTo_of_reachesLib hLib hReach with ⟨hMeets, hNodes⟩ | ⟨hAbsent, -, -⟩
  · obtain ⟨newer, l, hCut, hl, hNewer⟩ := cutAfter_eq_concat hMeets
    refine ⟨newer, l, ?_, hCut ▸ cutAfter_isPrefix lib.id _, hl, hNewer⟩
    rw [hNodes, hCut, List.reverse_append]
    rfl
  · rw [hStored] at hAbsent
    cases hAbsent

/-- A segment is the lineage of its target, or a beginning of it, turned round. -/
theorem segmentTo_reverse_isPrefix (g : ForkGraph) (target : BlockRef) :
    (g.segmentTo target).nodes.reverse <+: g.lineage target.id := by
  unfold segmentTo
  split
  · exact List.nil_prefix
  · simp only
    split
    · rw [List.reverse_reverse]
      exact cutAfter_isPrefix _ _
    · rw [List.reverse_reverse]

theorem mem_lineage_of_mem_segmentTo {target : BlockRef} {n : Node}
    (hn : n ∈ (g.segmentTo target).nodes) : n ∈ g.lineage target.id :=
  (g.segmentTo_reverse_isPrefix target).subset (List.mem_reverse.mpr hn)

theorem mem_of_mem_segmentTo {target : BlockRef} {n : Node} (hn : n ∈ (g.segmentTo target).nodes) :
    n ∈ g.nodes :=
  mem_of_mem_lineage (mem_lineage_of_mem_segmentTo hn)

theorem segmentTo_nodup (g : ForkGraph) (target : BlockRef) :
    ((g.segmentTo target).nodes.map Node.id).Nodup := by
  rw [← List.nodup_reverse, ← List.map_reverse]
  exact (g.lineage_nodup target.id).sublist ((g.segmentTo_reverse_isPrefix target).sublist.map Node.id)

theorem follows_segmentTo (g : ForkGraph) (target : BlockRef) :
    Follows target.id (g.segmentTo target).nodes.reverse := by
  obtain ⟨more, hMore⟩ := g.segmentTo_reverse_isPrefix target
  have hFollows := g.lineage_follows target.id
  rw [← hMore] at hFollows
  exact (follows_append.mp hFollows).1

theorem id_of_getLast?_segmentTo {target : BlockRef} {last : Node}
    (h : (g.segmentTo target).nodes.getLast? = some last) : last.id = target.id := by
  rw [← List.head?_reverse] at h
  obtain ⟨rest, hNodes⟩ := List.head?_eq_some_iff.mp h
  have hFollows := g.follows_segmentTo target
  rw [hNodes] at hFollows
  exact hFollows.1

/-- Where no parent is numbered above its child, no block of a segment is numbered above the last. -/
theorem num_le_of_getLast?_segmentTo {target : BlockRef} {m last : Node}
    (hParents : ∀ n ∈ g.nodes, ∀ p ∈ g.nodes, p.id = n.parent.id → p.num ≤ n.num)
    (hm : m ∈ (g.segmentTo target).nodes) (hLast : (g.segmentTo target).nodes.getLast? = some last) :
    m.num ≤ last.num := by
  have hFollows := g.follows_segmentTo target
  rw [← List.head?_reverse] at hLast
  obtain ⟨older, hNodes⟩ := List.head?_eq_some_iff.mp hLast
  rw [hNodes] at hFollows
  rw [← List.mem_reverse, hNodes] at hm
  refine hFollows.num_le hParents (fun n hn => ?_) m hm
  rw [← hNodes] at hn
  exact mem_of_mem_segmentTo (List.mem_reverse.mp hn)

theorem num_le_head_of_falling {n m : Node} {path : List Node}
    (hFalling : (n :: path).Pairwise fun n m => m.num < n.num) (hm : m ∈ n :: path) : m.num ≤ n.num := by
  obtain rfl | hOlder := List.mem_cons.mp hm
  · exact UInt64.le_refl _
  · exact UInt64.le_of_lt ((List.pairwise_cons.mp hFalling).1 m hOlder)

theorem num_last_le_of_falling {n m : Node} {path : List Node}
    (hFalling : (path ++ [m]).Pairwise fun n m => m.num < n.num) (hn : n ∈ path ++ [m]) : m.num ≤ n.num := by
  obtain hNewer | hSame := List.mem_append.mp hn
  · exact UInt64.le_of_lt ((List.pairwise_append.mp hFalling).2.2 n hNewer m (List.mem_singleton_self m))
  · rw [List.mem_singleton.mp hSame]
    exact UInt64.le_refl _

/-- Where numbers fall, the way back along a segment from its last block to another one passes no block that is
numbered below that one. -/
theorem exists_way {target : BlockRef} {m last : Node} (hm : m ∈ (g.segmentTo target).nodes)
    (hLast : (g.segmentTo target).nodes.getLast? = some last)
    (hFalling : (g.segmentTo target).nodes.reverse.Pairwise fun n k => k.num < n.num) :
    ∃ way, Follows target.id way ∧ way.head? = some last ∧ way.getLast? = some m ∧
      ∀ n ∈ way, n ∈ (g.segmentTo target).nodes ∧ m.num ≤ n.num := by
  obtain ⟨newer, older, hSplit⟩ := List.append_of_mem (List.mem_reverse.mpr hm)
  have hWhole : (g.segmentTo target).nodes.reverse = (newer ++ [m]) ++ older := by
    rw [hSplit]
    simp
  have hFollows := g.follows_segmentTo target
  rw [hWhole] at hFollows
  refine ⟨newer ++ [m], (follows_append.mp hFollows).1, ?_, List.getLast?_concat, fun n hn => ⟨?_, ?_⟩⟩
  · rw [← List.head?_reverse, hSplit] at hLast
    cases newer <;> exact hLast
  · rw [← List.mem_reverse, hWhole]
    exact List.mem_append_left _ hn
  · rw [hWhole] at hFalling
    exact num_last_le_of_falling (List.pairwise_append.mp hFalling).1 hn

/-- A path along which numbers fall uses no node twice. -/
theorem nodup_of_falling {path : List Node} (hFalling : path.Pairwise fun n m => m.num < n.num)
    (hStored : ∀ n ∈ path, n ∈ g.nodes) : (path.map Node.id).Nodup := by
  rw [List.Nodup, List.pairwise_map]
  refine hFalling.imp_of_mem fun {n m} hn hm hLower hSame => ?_
  rw [eq_of_id_eq (hStored n hn) (hStored m hm) hSame] at hLower
  exact UInt64.lt_irrefl _ hLower

/-- A path that comes to the LIB without using a node twice shows that the LIB is reached. -/
theorem reachesLib_of_follows {target : BlockRef} {path : List Node} (hLib : g.lib = some lib)
    (hFollows : Follows target.id path) (hStored : ∀ n ∈ path, n ∈ g.nodes)
    (hNodup : (path.map Node.id).Nodup) (hMeets : lib.id ∈ path.map Node.id) :
    (g.segmentTo target).reachesLib = true := by
  rw [← Bool.not_eq_false]
  intro hReach
  have hWay := (prefix_lineage hFollows hStored hNodup).map Node.id
  exact (segmentTo_of_not_reachesLib hLib hReach).1 (hWay.subset hMeets)

/-! ## Ancestors by number -/

theorem ancestorAt?_eq_some_iff {head new : BlockRef} {num : BlockNum} :
    g.ancestorAt? head num = some new ↔
      ∃ n, (g.lineage head.id).find? (fun n => n.num ≤ num) = some n ∧ n.num = num ∧ n.block = new := by
  unfold ancestorAt?
  cases (g.lineage head.id).find? fun n => n.num ≤ num with
  | none => simp
  | some n => by_cases hNum : n.num = num <;> simp [hNum]

theorem num_of_ancestorAt? {head new : BlockRef} {num : BlockNum} (h : g.ancestorAt? head num = some new) :
    new.num = num := by
  obtain ⟨n, -, hNum, rfl⟩ := ancestorAt?_eq_some_iff.mp h
  exact hNum

/-- From any of its nodes on, a way back is a path of stored nodes. -/
theorem follows_of_isPrefix {id : BlockId} {later sooner : List Node} {n : Node}
    (hPath : later ++ n :: sooner <+: g.lineage id) :
    Follows n.id (n :: sooner) ∧ ∀ m ∈ n :: sooner, m ∈ g.nodes := by
  obtain ⟨more, hMore⟩ := hPath
  constructor
  · have hAll := g.lineage_follows id
    rw [← hMore, List.append_assoc] at hAll
    obtain ⟨-, hBack⟩ := follows_append.mp hAll
    have hFrom : Follows n.id ((n :: sooner) ++ more) := ⟨rfl, hBack.2⟩
    exact (follows_append.mp hFrom).1
  · intro m hm
    have hMember : m ∈ g.lineage id := by
      rw [← hMore]
      exact List.mem_append_left _ (List.mem_append_right _ hm)
    exact mem_of_mem_lineage hMember

/-- On a path down to a block that is numbered at most `num`, the block numbered `num` lies on the path
itself, on the way back from where it was sought. -/
theorem exists_mem_of_ancestorAt? {target head new : BlockRef} {num : BlockNum}
    {later sooner : List Node} {n l : Node}
    (hPath : later ++ n :: sooner <+: g.lineage target.id) (hHead : head.id = n.id)
    (hl : l ∈ n :: sooner) (hLow : l.num ≤ num) (h : g.ancestorAt? head num = some new) :
    ∃ m ∈ n :: sooner, m.block = new ∧ m.num = num := by
  obtain ⟨hFollows, hStored⟩ := follows_of_isPrefix hPath
  obtain ⟨more, hMore⟩ := hPath
  have hNodup : ((n :: sooner).map Node.id).Nodup := by
    refine (g.lineage_nodup target.id).sublist (List.Sublist.map _ ?_)
    rw [← hMore, List.append_assoc]
    exact (List.sublist_append_left _ _).trans (List.sublist_append_right _ _)
  obtain ⟨rest, hRest⟩ := prefix_lineage hFollows hStored hNodup
  obtain ⟨m, hFind, hNum, rfl⟩ := ancestorAt?_eq_some_iff.mp h
  rw [hHead, ← hRest, List.find?_append] at hFind
  cases hHere : (n :: sooner).find? fun k => k.num ≤ num with
  | none =>
    have hNone := List.find?_eq_none.mp hHere l hl
    exact absurd hLow (by simpa using hNone)
  | some k =>
    rw [hHere, Option.some_or, Option.some.injEq] at hFind
    subst hFind
    exact ⟨k, List.mem_of_find?_eq_some hHere, rfl, hNum⟩

/-! ## Moves of the LIB -/

/-- Only a number below a LIB that the source reported is an error. -/
theorem advanceLib_error {head : BlockRef} {num : BlockNum} {e : ForkError} (hLib : g.lib = some lib)
    (h : g.advanceLib head num = .error e) :
    g.libReported = true ∧ num < lib.num ∧ e = .libBackward lib.num num := by
  unfold advanceLib checkMonotonic at h
  simp only [hLib] at h
  split at h
  · cases h
  next hKept =>
    by_cases hLow : num < lib.num
    · rw [if_pos hLow] at h
      refine ⟨by simpa [hLow] using hKept, hLow, ?_⟩
      cases h
      rfl
    · rw [if_neg hLow] at h
      simp only at h
      split at h
      · cases h
      · split at h <;> cases h

/-- What a reported number did to the LIB. -/
inductive Advance (g : ForkGraph) (lib head : BlockRef) (num : BlockNum) : ForkGraph → LibMove → Prop where
  | belowStart (hUnreported : g.libReported = false) (hLow : num < lib.num) :
      Advance g lib head num g (.belowStart lib)
  | confirmed (hSame : num = lib.num) :
      Advance g lib head num { g with libReported := true } .confirmed
  | moved {new : BlockRef} (hHigh : lib.num < num) (hFound : g.ancestorAt? head num = some new) :
      Advance g lib head num { g with lib := some new, libReported := true } (.moved lib new)
  | notFound (hHigh : lib.num < num) (hAbsent : g.ancestorAt? head num = none) :
      Advance g lib head num g (.notFound lib)

theorem advance_of_advanceLib {head : BlockRef} {num : BlockNum} {g' : ForkGraph} {move : LibMove}
    (hLib : g.lib = some lib) (h : g.advanceLib head num = .ok (g', move)) :
    Advance g lib head num g' move := by
  unfold advanceLib checkMonotonic at h
  split at h
  · cases h
  next current hCurrent =>
    cases hLib.symm.trans hCurrent
    split at h
    next hKept =>
      cases h
      rw [Bool.and_eq_true, Bool.not_eq_true', decide_eq_true_eq] at hKept
      exact .belowStart hKept.1 hKept.2
    next =>
      by_cases hLow : num < lib.num
      · rw [if_pos hLow] at h
        cases h
      · rw [if_neg hLow] at h
        simp only at h
        split at h
        next hSame =>
          cases h
          exact .confirmed hSame
        next hOther =>
          have hHigh : lib.num < num := by grind
          split at h
          next new hFound =>
            cases h
            exact .moved hHigh hFound
          next hAbsent =>
            cases h
            exact .notFound hHigh hAbsent

namespace Advance

variable {head : BlockRef} {num : BlockNum} {g' : ForkGraph} {move : LibMove}

theorem nodes_eq (h : Advance g lib head num g' move) : g'.nodes = g.nodes := by
  cases h <;> rfl

/-- The LIB is numbered as reported, or nothing has changed. -/
theorem libNum_cases (h : Advance g lib head num g' move) (hLib : g.lib = some lib) :
    g'.libNum = num ∨ g'.libReported = g.libReported ∧ g'.libNum = g.libNum := by
  cases h with
  | belowStart | notFound => exact .inr ⟨rfl, rfl⟩
  | confirmed hSame =>
    left
    rw [hSame, ← libNum_of_lib hLib]
    rfl
  | moved hHigh hFound => exact .inl (num_of_ancestorAt? hFound)

theorem libNum_le (h : Advance g lib head num g' move) (hLib : g.lib = some lib) :
    g.libNum ≤ g'.libNum := by
  cases h with
  | belowStart | confirmed | notFound => exact UInt64.le_refl _
  | moved hHigh hFound =>
    rw [← num_of_ancestorAt? hFound] at hHigh
    rw [libNum_of_lib hLib]
    exact UInt64.le_of_lt hHigh

/-- A LIB that is left behind is purged. -/
theorem libId_of_mem_purge {l n : Node} (h : Advance g l.block head num g' move) (hl : l ∈ g.nodes)
    (hLib : g.lib = some l.block) (hn : n ∈ g'.purge.nodes) (hOld : g.libId = some n.id) :
    g'.purge.libId = some n.id := by
  obtain ⟨hStored, hAbove⟩ := mem_purge.mp hn
  rw [h.nodes_eq] at hStored
  cases h with
  | belowStart | confirmed | notFound => exact hOld
  | moved hHigh hFound =>
    rw [libId_of_lib hLib, Option.some.injEq] at hOld
    rw [← eq_of_id_eq hl hStored hOld, libNum_of_lib rfl, num_of_ancestorAt? hFound] at hAbove
    exact absurd hHigh (UInt64.not_lt.mpr hAbove)

end Advance

end ChainFeed.ForkGraph
