import ChainFeed.Proofs.BlockNum
import ChainFeed.Proofs.Checkpoint.Restore
import ChainFeed.Proofs.Feed.Beginning
import ChainFeed.Proofs.ForkGraph.Chain
import Mathlib.Data.List.Sort

/-! # Fork-free chains

Where a chain has no forks, its blocks and the configuration alone tell what a run has stored as fired, and
where its LIB is, once it has processed the blocks below a number. A graph that was read back from a checkpoint
holds the same, though it has forgotten the contents and whether the LIB was reported.
-/

set_option autoImplicit false

namespace ChainFeed

open ForkGraph

/-- Each block has its number and hangs on the block before it. The reported LIB never falls. -/
structure ForkFree (B : BlockNum → Block) : Prop where
  num : ∀ n, (B n).num = n
  parent : ∀ n, n ≠ 0 → (B n).parentId = (B (n - 1)).id
  root : ∀ n, (B n).id ≠ (B 0).parentId
  distinct : ∀ m n, (B m).id = (B n).id → m = n
  libNum : ∀ m n, m ≤ n → (B m).libNum ≤ (B n).libNum

def Chain.ofBlocks (B : BlockNum → Block) : Chain where
  id m := (B m).id
  root := (B 0).parentId

variable {B : BlockNum → Block} {c : Config} {n m : BlockNum}

namespace ForkFree

theorem ref_eq (h : ForkFree B) (m : BlockNum) : (B m).ref = (Chain.ofBlocks B).ref m := by
  rw [Block.ref, h.num]
  rfl

theorem parentId_eq (h : ForkFree B) (m : BlockNum) : (B m).parentId = (Chain.ofBlocks B).parentId m := by
  unfold Chain.parentId
  split
  next hZero =>
    subst hZero
    rfl
  next hHigh => exact h.parent m hHigh

end ForkFree

/-! ## The LIB -/

theorem Config.libAfter_le_max (c : Config) (b : Block) (lib : BlockNum) : c.libAfter b lib ≤ max b.num lib := by
  unfold libAfter
  have hReport : min b.libNum b.num ≤ b.num := Std.min_le_right
  cases c.forceFinality with
  | none => exact UInt64.le_trans hReport (BlockNum.le_max_left _ _)
  | some depth =>
    refine BlockNum.max_le (UInt64.le_trans ?_ (BlockNum.le_max_left _ _)) (BlockNum.le_max_right _ _)
    exact BlockNum.max_le hReport (BlockNum.back_le _ _)

/-- The number of the LIB once all blocks below `n` were processed, from the resolved start on. -/
def Config.libBelow (c : Config) (B : BlockNum → Block) (n : BlockNum) : BlockNum :=
  max c.resolvedStart (c.libAfter (B (n.back 1)) c.resolvedStart)

namespace ForkFree

theorem libAfter_mono (h : ForkFree B) (hLe : m ≤ n) (lib : BlockNum) :
    c.libAfter (B m) lib ≤ c.libAfter (B n) lib := by
  have hReport : min (B m).libNum (B m).num ≤ min (B n).libNum (B n).num := by
    rw [h.num, h.num]
    exact Std.le_min_iff.mpr
      ⟨UInt64.le_trans Std.min_le_left (h.libNum m n hLe), UInt64.le_trans Std.min_le_right hLe⟩
  unfold Config.libAfter
  cases c.forceFinality with
  | none => exact hReport
  | some depth =>
    have hDeep := BlockNum.back_mono hLe depth
    rw [← h.num m, ← h.num n] at hDeep
    refine BlockNum.max_le (UInt64.le_trans ?_ (BlockNum.le_max_left _ _)) (BlockNum.le_max_right _ _)
    exact BlockNum.max_le (UInt64.le_trans hReport (BlockNum.le_max_left _ _))
      (UInt64.le_trans hDeep (BlockNum.le_max_right _ _))

theorem libBelow_le (h : ForkFree B) (hStart : c.resolvedStart ≤ n) : c.libBelow B n ≤ n := by
  refine BlockNum.max_le hStart (UInt64.le_trans (c.libAfter_le_max _ _) (BlockNum.max_le ?_ hStart))
  rw [h.num]
  exact BlockNum.back_le n 1

theorem libBelow_start (h : ForkFree B) : c.libBelow B c.resolvedStart = c.resolvedStart :=
  UInt64.le_antisymm (h.libBelow_le (UInt64.le_refl _)) (BlockNum.le_max_left _ _)

/-- What a block reports over that LIB is what it reports over the first. -/
theorem libAfter_libBelow (h : ForkFree B) (n : BlockNum) :
    c.libAfter (B n) (c.libBelow B n) = c.libAfter (B n) c.resolvedStart := by
  have hBelow := h.libAfter_mono (c := c) (BlockNum.back_le n 1) c.resolvedStart
  unfold Config.libBelow
  unfold Config.libAfter at hBelow ⊢
  cases hForce : c.forceFinality with
  | none => rfl
  | some depth =>
    rw [hForce] at hBelow
    simp only at hBelow ⊢
    refine UInt64.le_antisymm ?_ ?_
    · exact BlockNum.max_le (BlockNum.le_max_left _ _) (BlockNum.max_le (BlockNum.le_max_right _ _) hBelow)
    · exact BlockNum.max_le (BlockNum.le_max_left _ _)
        (UInt64.le_trans (BlockNum.le_max_left _ _) (BlockNum.le_max_right _ _))

theorem libBelow_succ (hLow : n ≠ BlockNum.highest) :
    c.libBelow B (n + 1) = max c.resolvedStart (c.libAfter (B n) c.resolvedStart) := by
  rw [Config.libBelow, BlockNum.back_one_succ hLow]

theorem libBelow_le_succ (h : ForkFree B) (hLow : n ≠ BlockNum.highest) :
    c.libBelow B n ≤ c.libBelow B (n + 1) := by
  rw [libBelow_succ hLow]
  exact BlockNum.max_le (BlockNum.le_max_left _ _)
    (UInt64.le_trans (h.libAfter_mono (BlockNum.back_le n 1) _) (BlockNum.le_max_right _ _))

end ForkFree

/-! ## Nodes -/

/-- The node is linked as the block is. What a checkpoint leaves out is the parent's number. -/
structure Node.Represents (x : Node) (b : Block) : Prop where
  block : x.block = b.ref
  parentId : x.parent.id = b.parentId
  parentNum : b.parentNum = b.num.back 1 → x.parent.num = b.parentNum

namespace Node

variable {x : Node} {b : Block}

theorem represents_fresh (b : Block) : (fresh b).Represents b := ⟨rfl, rfl, fun _ => rfl⟩

theorem represents_restored (b : Block) : (StoredRef.ofLink b.link).node.Represents b := ⟨rfl, rfl, Eq.symm⟩

theorem Represents.of_toLink_eq {y : Node} (h : x.Represents b) (hLink : y.toLink = x.toLink) :
    y.Represents b where
  block := by
    rw [hLink]
    exact h.block
  parentId := by
    rw [hLink]
    exact h.parentId
  parentNum := by
    rw [hLink]
    exact h.parentNum

theorem Represents.ofLink_eq (h : x.Represents b) : StoredRef.ofLink x.toLink = .ofLink b.link := by
  unfold StoredRef.ofLink
  rw [h.block, h.parentId]
  rfl

theorem Represents.toLink_eq (h : x.Represents b) (hNum : b.parentNum = b.num.back 1) : x.toLink = b.link := by
  have hParent : x.parent = b.parentRef := by
    have hId := h.parentId
    have hNum := h.parentNum hNum
    revert hId hNum
    rcases x.parent with ⟨id, num⟩
    rintro rfl rfl
    rfl
  rw [Block.link, ← h.block, ← hParent]

end Node

namespace ForkGraph

/-- The links of the stored blocks that were fired. -/
def firedLinks (g : ForkGraph) : List Link := (g.nodes.filter Node.fired).map Node.toLink

/-- The graph of a run that has processed all blocks below `n`. The block numbered `n` may be stored already, but
was not fired. -/
structure Covers (g : ForkGraph) (B : BlockNum → Block) (c : Config) (n : BlockNum) : Prop where
  lib : g.lib = some (B (c.libBelow B n)).ref
  reported : g.libReported = true → c.resolvedStart ≤ c.libAfter (B (n.back 1)) c.resolvedStart
  represents : ∀ x ∈ g.nodes, x.Represents (B x.num)
  le : ∀ x ∈ g.nodes, c.libBelow B n ≤ x.num
  fired : ∀ x ∈ g.nodes, x.fired = true ↔ x.num < n
  stored : ∀ m, c.libBelow B n ≤ m → m < n → g.contains (B m).id = true

namespace Covers

variable {g : ForkGraph}

theorem id_eq (h : g.Covers B c n) {x : Node} (hx : x ∈ g.nodes) : x.id = (B x.num).id :=
  congrArg BlockRef.id (h.represents x hx).block

theorem num_of_id_eq (h : g.Covers B c n) (hChain : ForkFree B) {x : Node} (hx : x ∈ g.nodes)
    (hId : x.id = (B m).id) : x.num = m :=
  hChain.distinct _ _ ((h.id_eq hx).symm.trans hId)

theorem fits (h : g.Covers B c n) (hChain : ForkFree B) : (Chain.ofBlocks B).Fits g where
  num _ hx _ hId := h.num_of_id_eq hChain hx hId
  parent x hx m hId := by
    rw [(h.represents x hx).parentId, h.num_of_id_eq hChain hx hId, hChain.parentId_eq]
  root x hx := by
    rw [h.id_eq hx]
    exact hChain.root _

/-! ### What is fired -/

theorem map_num_fired (h : g.Covers B c n) (hChain : ForkFree B) :
    (g.nodes.filter Node.fired).map Node.num = BlockNum.span (c.libBelow B n) n := by
  refine List.Pairwise.eq_of_mem_iff (r := (· < ·)) ?_ (BlockNum.span_pairwise _ _) fun m => ?_
  · rw [List.pairwise_map]
    refine (g.sorted.filter _).imp_of_mem fun {x y} hx hy hBefore => ?_
    rcases hBefore with hNum | ⟨hNum, hId⟩
    · exact hNum
    · rw [h.id_eq (List.mem_filter.mp hx).1, h.id_eq (List.mem_filter.mp hy).1, hNum] at hId
      exact absurd hId (String.lt_irrefl _)
  · rw [BlockNum.mem_span, List.mem_map]
    constructor
    · rintro ⟨x, hx, rfl⟩
      obtain ⟨hx, hFired⟩ := List.mem_filter.mp hx
      exact ⟨h.le x hx, (h.fired x hx).mp hFired⟩
    · rintro ⟨hLow, hHigh⟩
      obtain ⟨x, hx, hId⟩ := contains_iff_exists.mp (h.stored m hLow hHigh)
      have hNum := h.num_of_id_eq hChain hx hId
      exact ⟨x, List.mem_filter.mpr ⟨hx, (h.fired x hx).mpr (hNum ▸ hHigh)⟩, hNum⟩

theorem map_fired {α : Type} (h : g.Covers B c n) (hChain : ForkFree B) {p : Node → α} {q : BlockNum → α}
    (hSame : ∀ x ∈ g.nodes, p x = q x.num) :
    (g.nodes.filter Node.fired).map p = (BlockNum.span (c.libBelow B n) n).map q := by
  rw [← h.map_num_fired hChain, List.map_map]
  exact List.map_congr_left fun x hx => hSame x (List.mem_filter.mp hx).1

theorem storedRefs_eq (h : g.Covers B c n) (hChain : ForkFree B) :
    g.firedLinks.map StoredRef.ofLink =
      (BlockNum.span (c.libBelow B n) n).map fun m => .ofLink (B m).link := by
  rw [firedLinks, List.map_map]
  exact h.map_fired hChain fun x hx => (h.represents x hx).ofLink_eq

theorem firedLinks_eq (h : g.Covers B c n) (hChain : ForkFree B)
    (hParents : ∀ m, (B m).parentNum = m.back 1) :
    g.firedLinks = (BlockNum.span (c.libBelow B n) n).map fun m => (B m).link := by
  refine h.map_fired hChain fun x hx => (h.represents x hx).toLink_eq ?_
  rw [hParents, hChain.num]

/-! ### Beginnings -/

theorem startingAt (hChain : ForkFree B) :
    (ForkGraph.startingAt (B c.resolvedStart).ref).Covers B c c.resolvedStart where
  lib := by rw [hChain.libBelow_start]; rfl
  reported h := by cases h
  represents x hx := by cases hx
  le x hx := by cases hx
  fired x hx := by cases hx
  stored m hLow hHigh := by
    rw [hChain.libBelow_start] at hLow
    exact absurd hHigh (UInt64.not_lt.mpr hLow)

/-! ### The next block -/

theorem link (h : g.Covers B c n) (hChain : ForkFree B) (hStart : c.resolvedStart ≤ n) :
    (g.link (.fresh (B n))).Covers B c n where
  lib := by rw [link_lib, h.lib]
  reported := by
    rw [link_libReported]
    exact h.reported
  represents x hx := by
    rcases mem_link.mp hx with hx | ⟨rfl, -⟩
    · exact h.represents x hx
    · rw [Node.fresh_num, hChain.num]
      exact Node.represents_fresh (B n)
  le x hx := by
    rcases mem_link.mp hx with hx | ⟨rfl, -⟩
    · exact h.le x hx
    · rw [Node.fresh_num, hChain.num]
      exact hChain.libBelow_le hStart
  fired x hx := by
    rcases mem_link.mp hx with hx | ⟨rfl, -⟩
    · exact h.fired x hx
    · rw [Node.fresh_num, hChain.num, Node.fresh_fired]
      simp
  stored m hLow hHigh := by
    obtain ⟨x, hx, hId⟩ := contains_iff_exists.mp (h.stored m hLow hHigh)
    exact contains_iff_exists.mpr ⟨x, mem_link_of_mem hx, hId⟩

theorem holds_link (h : g.Covers B c n) : (Chain.ofBlocks B).Holds (g.link (.fresh (B n))) (c.libBelow B n) n := by
  intro m hLow hHigh
  by_cases hNew : m = n
  · subst hNew
    exact contains_link_self g (.fresh (B m))
  · obtain ⟨x, hx, hId⟩ := contains_iff_exists.mp (h.stored m hLow (UInt64.lt_of_le_of_ne hHigh hNew))
    exact contains_iff_exists.mpr ⟨x, mem_link_of_mem hx, hId⟩

/-- Once the next block is linked, it is the last of a path from the LIB, and the only one not fired before. -/
theorem exists_path (h : g.Covers B c n) (hChain : ForkFree B) (hStart : c.resolvedStart ≤ n)
    (hFired : ∀ x ∈ g.nodes, x.num < n) :
    ((g.link (.fresh (B n))).segmentTo (B n).ref).reachesLib = true ∧
      ∃ older, ((g.link (.fresh (B n))).segmentTo (B n).ref).nodes = older ++ [.fresh (B n)] ∧
        ∀ x ∈ older, x.fired = true := by
  have hLinked := h.link hChain hStart
  have hFits := hLinked.fits hChain
  have hLe := hChain.libBelow_le (c := c) hStart
  have hHolds := h.holds_link
  have hLib : (g.link (.fresh (B n))).lib = some ((Chain.ofBlocks B).ref (c.libBelow B n)) := by
    rw [hLinked.lib, hChain.ref_eq]
  rw [hChain.ref_eq]
  have hReach := hFits.reachesLib_of_holds hLib hHolds hLe
  refine ⟨hReach, ?_⟩
  have hDown := hFits.down_segmentTo hLib (hHolds _ (UInt64.le_refl _) hLe) hReach
  have hNodup := (g.link (.fresh (B n))).segmentTo_nodup ((Chain.ofBlocks B).ref n)
  have hStored : ∀ x ∈ ((g.link (.fresh (B n))).segmentTo ((Chain.ofBlocks B).ref n)).nodes,
      x ∈ g.nodes ∨ x = .fresh (B n) :=
    fun x hx => (mem_link.mp (mem_of_mem_segmentTo hx)).imp_right And.left
  obtain ⟨last, hLast, hBlock⟩ := hDown.exists_head?
  rw [List.head?_reverse] at hLast
  obtain ⟨older, hSplit⟩ := List.getLast?_eq_some_iff.mp hLast
  rw [hSplit] at hStored hNodup ⊢
  -- all other stored blocks are numbered below the new one
  have hNew : last = .fresh (B n) := by
    refine (hStored last (List.mem_append_right _ (List.mem_singleton_self _))).resolve_left fun hOld => ?_
    have hNum : last.num = n := congrArg BlockRef.num hBlock
    exact UInt64.lt_irrefl n (hNum ▸ hFired last hOld)
  subst hNew
  refine ⟨older, rfl, fun x hx => ?_⟩
  rcases hStored x (List.mem_append_left _ hx) with hOld | rfl
  · exact (h.fired x hOld).mpr (hFired x hOld)
  · rw [List.map_append, List.nodup_append] at hNodup
    exact absurd rfl (hNodup.2.2 _ (List.mem_map_of_mem hx) _ (List.mem_singleton_self _))

theorem libNum_eq (h : g.Covers B c n) (hChain : ForkFree B) : g.libNum = c.libBelow B n := by
  rw [libNum_of_lib h.lib, Block.ref, hChain.num]

/-- The next block's report is no error, whatever was marked meanwhile. -/
theorem not_libBackward (h : g.Covers B c n) (hChain : ForkFree B) {g' : ForkGraph} (hLib : g'.lib = g.lib)
    (hSame : g'.libReported = g.libReported) {head : BlockRef} {e : ForkError} :
    g'.advanceLib head (c.libAfter (B n) g'.libNum) ≠ .error e := by
  intro hError
  obtain ⟨hReported, hBack, -⟩ := advanceLib_error (hLib.trans h.lib) hError
  rw [libNum_congr hLib, h.libNum_eq hChain, hChain.libAfter_libBelow, Block.ref, hChain.num] at hBack
  refine absurd hBack (UInt64.not_lt.mpr (BlockNum.max_le ?_ ?_))
  · exact UInt64.le_trans (h.reported (hSame ▸ hReported)) (hChain.libAfter_mono (BlockNum.back_le n 1) _)
  · exact hChain.libAfter_mono (BlockNum.back_le n 1) _

section Settled

variable {g' : ForkGraph} {move : LibMove} {ids : List BlockId}

/-- The next block's report moves the LIB to where it belongs. -/
theorem lib_of_advance (h : g.Covers B c n) (hChain : ForkFree B) (hStart : c.resolvedStart ≤ n)
    (hLow : n ≠ BlockNum.highest)
    (hMove : Advance ((g.link (.fresh (B n))).markAll ids) (B (c.libBelow B n)).ref (B n).ref
      (c.libAfter (B n) (c.libBelow B n)) g' move) :
    g'.lib = some (B (c.libBelow B (n + 1))).ref ∧
      (g'.libReported = true → c.resolvedStart ≤ c.libAfter (B n) c.resolvedStart) := by
  have hLinked := h.link hChain hStart
  have hFirst : c.resolvedStart ≤ c.libBelow B n := BlockNum.le_max_left _ _
  have hNum : (B (c.libBelow B n)).ref.num = c.libBelow B n := hChain.num _
  have hFound : c.libBelow B n ≤ c.libAfter (B n) c.resolvedStart →
      ((g.link (.fresh (B n))).markAll ids).ancestorAt? (B n).ref (c.libAfter (B n) c.resolvedStart) =
        some (B (c.libAfter (B n) c.resolvedStart)).ref := by
    intro hAbove
    rw [ancestorAt?_markAll, hChain.ref_eq, hChain.ref_eq]
    refine (hLinked.fits hChain).ancestorAt?_of_holds h.holds_link hAbove ?_
    refine UInt64.le_trans (c.libAfter_le_max _ _) (BlockNum.max_le ?_ hStart)
    rw [hChain.num]
    exact UInt64.le_refl n
  rw [hChain.libAfter_libBelow] at hMove
  rw [ForkFree.libBelow_succ hLow]
  cases hMove with
  | belowStart hUnreported hBack =>
    rw [hNum] at hBack
    have hSame : max c.resolvedStart (c.libAfter (B n) c.resolvedStart) = c.libBelow B n := by
      refine UInt64.le_antisymm (BlockNum.max_le hFirst (UInt64.le_of_lt hBack)) ?_
      rw [← ForkFree.libBelow_succ hLow]
      exact hChain.libBelow_le_succ hLow
    refine ⟨by rw [hSame, markAll_lib, hLinked.lib], fun hReported => ?_⟩
    rw [hUnreported] at hReported
    cases hReported
  | confirmed hSame =>
    rw [hNum] at hSame
    rw [hSame, BlockNum.max_eq_right hFirst]
    exact ⟨(markAll_lib _ _).trans hLinked.lib, fun _ => hFirst⟩
  | @moved new hHigh hAncestor =>
    rw [hNum] at hHigh
    have hAbove := UInt64.le_of_lt hHigh
    rw [hFound hAbove, Option.some.injEq] at hAncestor
    rw [BlockNum.max_eq_right (UInt64.le_trans hFirst hAbove), hAncestor]
    exact ⟨rfl, fun _ => UInt64.le_trans hFirst hAbove⟩
  | notFound hHigh hAbsent =>
    rw [hNum] at hHigh
    rw [hFound (UInt64.le_of_lt hHigh)] at hAbsent
    cases hAbsent

/-- Once the next block was fired and the LIB settled, one block more is processed. -/
theorem settled (h : g.Covers B c n) (hChain : ForkFree B) (hStart : c.resolvedStart ≤ n)
    (hFired : ∀ x ∈ g.nodes, x.num < n) (hLow : n ≠ BlockNum.highest) (hIds : (B n).id ∈ ids)
    (hMove : Advance ((g.link (.fresh (B n))).markAll ids) (B (c.libBelow B n)).ref (B n).ref
      (c.libAfter (B n) (c.libBelow B n)) g' move) :
    g'.purge.Covers B c (n + 1) ∧ ∀ x ∈ g'.purge.nodes, x.num < n + 1 := by
  obtain ⟨hLib, hReported⟩ := h.lib_of_advance hChain hStart hLow hMove
  have hLinked := h.link hChain hStart
  have hLibNum : g'.libNum = c.libBelow B (n + 1) := by rw [libNum_of_lib hLib, Block.ref, hChain.num]
  have hNodes : ∀ x, x ∈ g'.purge.nodes ↔
      (∃ y ∈ (g.link (.fresh (B n))).nodes, y.markedIn ids = x) ∧ c.libBelow B (n + 1) ≤ x.num := by
    intro x
    rw [mem_purge, hMove.nodes_eq, mem_markAll, hLibNum]
  have hBelow : ∀ x ∈ g'.purge.nodes, x.num < n + 1 := by
    intro x hx
    obtain ⟨⟨y, hy, rfl⟩, -⟩ := (hNodes x).mp hx
    rw [Node.markedIn_num, BlockNum.lt_succ_iff hLow]
    rcases mem_link.mp hy with hOld | ⟨rfl, -⟩
    · exact UInt64.le_of_lt (hFired y hOld)
    · rw [Node.fresh_num, hChain.num]
      exact UInt64.le_refl n
  refine ⟨⟨hLib, ?_, ?_, fun x hx => ((hNodes x).mp hx).2, ?_, ?_⟩, hBelow⟩
  · rw [BlockNum.back_one_succ hLow]
    exact hReported
  · intro x hx
    obtain ⟨⟨y, hy, rfl⟩, -⟩ := (hNodes x).mp hx
    rw [Node.markedIn_num]
    exact (hLinked.represents y hy).of_toLink_eq (Node.markedIn_toLink ids y)
  · intro x hx
    refine iff_of_true ?_ (hBelow x hx)
    obtain ⟨⟨y, hy, rfl⟩, -⟩ := (hNodes x).mp hx
    rw [Node.markedIn_fired, Bool.or_eq_true, decide_eq_true_eq]
    rcases mem_link.mp hy with hOld | ⟨rfl, -⟩
    · exact .inr ((h.fired y hOld).mpr (hFired y hOld))
    · exact .inl hIds
  · intro m hAbove hBelow
    have hAboveOld := UInt64.le_trans (hChain.libBelow_le_succ hLow) hAbove
    obtain ⟨y, hy, hId⟩ := contains_iff_exists.mp
      (h.holds_link m hAboveOld ((BlockNum.lt_succ_iff hLow).mp hBelow))
    refine contains_iff_exists.mpr ⟨y.markedIn ids, (hNodes _).mpr ⟨⟨y, hy, rfl⟩, ?_⟩, ?_⟩
    · rw [Node.markedIn_num, hLinked.num_of_id_eq hChain hy hId]
      exact hAbove
    · rw [Node.markedIn_id]
      exact hId

end Settled

end Covers

end ForkGraph

/-! ## Checkpoints -/

/-- The checkpoint of a run that has processed all blocks below `n`. -/
def Config.checkpointBelow (c : Config) (B : BlockNum → Block) (n : BlockNum) : Checkpoint where
  lib := ⟨(B (c.libBelow B n)).id, c.libBelow B n, ""⟩
  lastFired := .ofLink (B (n.back 1)).link
  blocks := (BlockNum.span (c.libBelow B n) n).map fun m => .ofLink (B m).link

namespace ForkGraph.Covers

variable {g : ForkGraph}

theorem snapshot_eq (h : g.Covers B c n) (hChain : ForkFree B) :
    Checkpoint.snapshot g (B (n.back 1)).link = .ok (c.checkpointBelow B n) := by
  refine Checkpoint.snapshot_eq_ok_iff.mpr ⟨_, h.lib, ?_, rfl, ?_⟩
  · rw [Block.ref, hChain.num]
    rfl
  · have hRefs := h.storedRefs_eq hChain
    rw [firedLinks, List.map_map] at hRefs
    exact hRefs.symm

/-- What is read back from a checkpoint covers the same blocks. -/
theorem restore (hChain : ForkFree B) : (c.checkpointBelow B n).restore.Covers B c n := by
  have hDistinct : ((c.checkpointBelow B n).blocks.map StoredRef.id).Nodup := by
    rw [Config.checkpointBelow, List.map_map, List.Nodup, List.pairwise_map]
    refine (BlockNum.span_pairwise _ _).imp fun {m k} hLt hId => ?_
    exact UInt64.lt_irrefl m (hChain.distinct m k hId ▸ hLt)
  have hNodes : ∀ x, x ∈ (c.checkpointBelow B n).restore.nodes ↔
      ∃ m, (c.libBelow B n ≤ m ∧ m < n) ∧ x = (StoredRef.ofLink (B m).link).node := by
    intro x
    rw [Checkpoint.mem_restore_iff hDistinct]
    simp only [Config.checkpointBelow, List.mem_map, BlockNum.mem_span]
    constructor
    · rintro ⟨_, ⟨m, hm, rfl⟩, rfl⟩
      exact ⟨m, hm, rfl⟩
    · rintro ⟨m, hm, rfl⟩
      exact ⟨_, ⟨m, hm, rfl⟩, rfl⟩
  have hNum : ∀ m, ((StoredRef.ofLink (B m).link).node).num = m := fun m => hChain.num m
  refine ⟨?_, ?_, ?_, ?_, ?_, ?_⟩
  · rw [Checkpoint.restore_lib, Block.ref, hChain.num]
    rfl
  · rw [Checkpoint.restore_libReported]
    exact fun h => by cases h
  · intro x hx
    obtain ⟨m, -, rfl⟩ := (hNodes x).mp hx
    rw [hNum]
    exact Node.represents_restored (B m)
  · intro x hx
    obtain ⟨m, ⟨hLow, -⟩, rfl⟩ := (hNodes x).mp hx
    rw [hNum]
    exact hLow
  · intro x hx
    obtain ⟨m, ⟨-, hHigh⟩, rfl⟩ := (hNodes x).mp hx
    rw [hNum]
    exact iff_of_true rfl hHigh
  · intro m hLow hHigh
    exact contains_iff_exists.mpr ⟨_, (hNodes _).mpr ⟨m, ⟨hLow, hHigh⟩, rfl⟩, rfl⟩

end ForkGraph.Covers

end ChainFeed
