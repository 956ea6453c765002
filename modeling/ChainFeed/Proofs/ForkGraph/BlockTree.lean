import ChainFeed.Proofs.BlockNum
import ChainFeed.Proofs.ForkGraph.Segment

/-! # The tree that a source answers from

Under an id such a source always knows the same block, and the LIB number that a block reports never
falls from a parent to its child. A graph of its blocks follows the parents of the tree, so a way back
that has not met an ancestor yet still leads to it.
-/

set_option autoImplicit false

namespace ChainFeed

structure Header where
  num : BlockNum
  parentId : BlockId
  libNum : BlockNum
  deriving DecidableEq, Repr

def Block.header (b : Block) : Header where
  num := b.num
  parentId := b.parentId
  libNum := b.libNum

/-- The blocks of a source, each under its id. -/
structure BlockTree where
  header? : BlockId → Option Header
  libNum_le : ∀ {id : BlockId} {h : Header}, header? id = some h → h.libNum ≤ h.num
  parent_libNum_le : ∀ {id : BlockId} {h p : Header},
    header? id = some h → header? h.parentId = some p → p.libNum ≤ h.libNum

namespace BlockTree

variable {t : BlockTree}

/-- A block comes one number after its parent. -/
def Contiguous (t : BlockTree) : Prop :=
  ∀ id h p, t.header? id = some h → t.header? h.parentId = some p → p.num.next? = some h.num

/-- The block is `root`, or descends from it. -/
inductive Descends (t : BlockTree) (root : BlockId) : BlockId → Prop where
  | self : Descends t root root
  | child {id : BlockId} {h : Header} (hHeader : t.header? id = some h)
      (hParent : Descends t root h.parentId) : Descends t root id

/-- The block is known where its ancestor is, and what never falls from a parent to its child has not
fallen. -/
theorem Descends.exists_le {root id : BlockId} {r : Header} (h : t.Descends root id)
    (hRoot : t.header? root = some r) {value : Header → BlockNum}
    (hUp : ∀ id h p, t.header? id = some h → t.header? h.parentId = some p → value p ≤ value h) :
    ∃ h, t.header? id = some h ∧ value r ≤ value h := by
  induction h with
  | self => exact ⟨r, hRoot, UInt64.le_refl _⟩
  | child hHeader hParent ih =>
    obtain ⟨p, hp, hLe⟩ := ih
    exact ⟨_, hHeader, UInt64.le_trans hLe (hUp _ _ _ hHeader hp)⟩

theorem Descends.libNum_le {root id : BlockId} {r h : Header} (hDescends : t.Descends root id)
    (hRoot : t.header? root = some r) (hHeader : t.header? id = some h) : r.libNum ≤ h.libNum := by
  have hUp : ∀ id h p, t.header? id = some h → t.header? h.parentId = some p → p.libNum ≤ h.libNum :=
    fun _ _ _ hChild hParent => t.parent_libNum_le hChild hParent
  obtain ⟨h', hHeader', hLe⟩ := hDescends.exists_le hRoot hUp
  cases hHeader.symm.trans hHeader'
  exact hLe

theorem Descends.exists_num_le {root id : BlockId} {r : Header} (hDescends : t.Descends root id)
    (hContiguous : t.Contiguous) (hRoot : t.header? root = some r) :
    ∃ h, t.header? id = some h ∧ r.num ≤ h.num :=
  hDescends.exists_le hRoot fun _ _ _ hChild hParent =>
    UInt64.le_of_lt (BlockNum.lt_of_next? (hContiguous _ _ _ hChild hParent))

/-- The ids met on the way back from a block, within so many steps. -/
def ancestors (t : BlockTree) : Nat → BlockId → List BlockId
  | 0, id => [id]
  | steps + 1, id =>
    match t.header? id with
    | none => [id]
    | some h => id :: t.ancestors steps h.parentId

theorem descends_of_mem_ancestors {steps : Nat} {root id : BlockId} (h : root ∈ t.ancestors steps id) :
    t.Descends root id := by
  induction steps generalizing id with
  | zero =>
    rw [List.mem_singleton.mp h]
    exact .self
  | succ steps ih =>
    rw [ancestors] at h
    split at h
    · rw [List.mem_singleton.mp h]
      exact .self
    next hHeader =>
      rcases List.mem_cons.mp h with rfl | h
      · exact .self
      · exact .child hHeader (ih h)

/-- An answer of the source: a block of the tree, numbered as asked, that declares its parent to be
numbered one lower. -/
structure Gives (t : BlockTree) (a : BlockNum × Block) : Prop where
  num : a.2.num = a.1
  header : t.header? a.2.id = some a.2.header
  parentNum : a.2.num ≠ 0 → a.2.parentNum.next? = some a.2.num

/-- The node has its content still, and is linked as the tree has it. -/
structure Agrees (t : BlockTree) (n : Node) : Prop where
  header : ∃ libNum, t.header? n.id = some ⟨n.num, n.parent.id, libNum⟩
  parentNum : n.num ≠ 0 → n.parent.num.next? = some n.num
  content : n.content.isSome = true

instance (t : BlockTree) (a : BlockNum × Block) : Decidable (t.Gives a) :=
  decidable_of_iff
    (a.2.num = a.1 ∧ t.header? a.2.id = some a.2.header ∧
      (a.2.num ≠ 0 → a.2.parentNum.next? = some a.2.num))
    ⟨fun ⟨hNum, hHeader, hParent⟩ => ⟨hNum, hHeader, hParent⟩, fun h => ⟨h.num, h.header, h.parentNum⟩⟩

theorem Gives.agrees {asked : BlockNum} {b : Block} (h : t.Gives (asked, b)) : t.Agrees (.fresh b) where
  header := ⟨b.libNum, h.header⟩
  parentNum := h.parentNum
  content := rfl

theorem Agrees.markedIn {n : Node} (h : t.Agrees n) (ids : List BlockId) : t.Agrees (n.markedIn ids) where
  header := by
    obtain ⟨libNum, hHeader⟩ := h.header
    exact ⟨libNum, by simpa using hHeader⟩
  parentNum := by simpa using h.parentNum
  content := by simpa using h.content

theorem Agrees.num_le {m n : Node} (hm : t.Agrees m) (hn : t.Agrees n) (hContiguous : t.Contiguous)
    (h : t.Descends m.id n.id) : m.num ≤ n.num := by
  obtain ⟨_, hm⟩ := hm.header
  obtain ⟨_, hn⟩ := hn.header
  obtain ⟨h', hHeader, hLe⟩ := h.exists_num_le hContiguous hm
  cases hn.symm.trans hHeader
  exact hLe

theorem Agrees.le_parent_num {l n : Node} (hl : t.Agrees l) (hn : t.Agrees n)
    (hContiguous : t.Contiguous) (h : t.Descends l.id n.parent.id) : l.num ≤ n.parent.num := by
  obtain ⟨_, hHeaderL⟩ := hl.header
  obtain ⟨_, hHeaderN⟩ := hn.header
  obtain ⟨p, hParent, hLe⟩ := h.exists_num_le hContiguous hHeaderL
  have hNext : p.num.next? = some n.num := hContiguous _ _ _ hHeaderN hParent
  have hHigh : n.num ≠ 0 := by
    have hLow := BlockNum.lt_of_next? hNext
    grind
  rw [BlockNum.eq_of_next? (hn.parentNum hHigh) hNext]
  exact hLe

/-! ## Ways back -/

section Path

variable {id root : BlockId} {path : List Node}

/-- A path of the tree that has not met an ancestor of its first block leads on to it. -/
theorem Descends.walkTarget (h : t.Descends root id) (hPath : Follows id path)
    (hAgrees : ∀ n ∈ path, t.Agrees n) (hRoot : root ∉ path.map Node.id) :
    t.Descends root (ForkGraph.walkTarget path id) := by
  induction path generalizing id with
  | nil => exact h
  | cons n path ih =>
    obtain ⟨rfl, hRest⟩ := hPath
    rw [List.map_cons, List.mem_cons, not_or] at hRoot
    obtain ⟨_, hHeader⟩ := (hAgrees n List.mem_cons_self).header
    rw [ForkGraph.walkTarget_cons]
    refine ih ?_ hRest (fun m hm => hAgrees m (List.mem_cons_of_mem n hm)) hRoot.2
    cases h with
    | self => exact absurd rfl hRoot.1
    | child hHeader' hParent =>
      cases hHeader.symm.trans hHeader'
      exact hParent

theorem descends_of_mem {m : Node} (hPath : Follows id path) (hAgrees : ∀ n ∈ path, t.Agrees n)
    (hm : m ∈ path) : t.Descends m.id id := by
  induction path generalizing id with
  | nil => cases hm
  | cons n path ih =>
    obtain ⟨rfl, hRest⟩ := hPath
    rcases List.mem_cons.mp hm with rfl | hm
    · exact .self
    · obtain ⟨_, hHeader⟩ := (hAgrees n List.mem_cons_self).header
      exact .child hHeader (ih hRest (fun k hk => hAgrees k (List.mem_cons_of_mem n hk)) hm)

end Path

/-! ## Graphs of the tree -/

section Graph

variable {g : ForkGraph} {target : BlockRef}

/-- What a gap is closed with next is not numbered below the LIB. -/
theorem Descends.le_of_gap {l first : Node} (h : t.Descends l.id target.id)
    (hAgrees : ∀ n ∈ g.nodes, t.Agrees n) (hContiguous : t.Contiguous) (hl : l ∈ g.nodes)
    (hLib : g.lib = some l.block) (hReach : (g.segmentTo target).reachesLib = false)
    (hFirst : (g.segmentTo target).nodes.head? = some first) : l.num ≤ first.parent.num := by
  have hStored : first ∈ g.nodes := ForkGraph.mem_of_mem_segmentTo (List.mem_of_head? hFirst)
  obtain ⟨hMissed, hNodes, -⟩ := ForkGraph.segmentTo_of_not_reachesLib hLib hReach
  rw [hNodes, List.head?_reverse] at hFirst
  have hNext := h.walkTarget (g.lineage_follows target.id)
    (fun n hn => hAgrees n (ForkGraph.mem_of_mem_lineage hn)) hMissed
  rw [ForkGraph.walkTarget, hFirst] at hNext
  exact (hAgrees l hl).le_parent_num (hAgrees first hStored) hContiguous hNext

theorem num_le_of_mem_segmentTo {m last : Node} (hAgrees : ∀ n ∈ g.nodes, t.Agrees n)
    (hContiguous : t.Contiguous) (hm : m ∈ (g.segmentTo target).nodes)
    (hLast : (g.segmentTo target).nodes.getLast? = some last) : m.num ≤ last.num := by
  have hStored : ∀ n ∈ (g.segmentTo target).nodes, t.Agrees n :=
    fun n hn => hAgrees n (ForkGraph.mem_of_mem_segmentTo hn)
  refine (hStored m hm).num_le (hStored last (List.mem_of_getLast? hLast)) hContiguous ?_
  rw [ForkGraph.id_of_getLast?_segmentTo hLast]
  exact descends_of_mem (g.lineage_follows target.id)
    (fun n hn => hAgrees n (ForkGraph.mem_of_mem_lineage hn)) (ForkGraph.mem_lineage_of_mem_segmentTo hm)

end Graph

/-! ## The tree of a list of blocks -/

section OfBlocks

variable {blocks : List Block}

theorem exists_of_find?_header {id : BlockId} {h : Header}
    (hFind : (blocks.find? fun b => b.id = id).map Block.header = some h) :
    ∃ b ∈ blocks, b.id = id ∧ b.header = h := by
  obtain ⟨b, hb, rfl⟩ := Option.map_eq_some_iff.mp hFind
  exact ⟨b, List.mem_of_find?_eq_some hb, by simpa using List.find?_some hb, rfl⟩

/-- The first block of the list with an id is the one that it stands for. -/
def ofBlocks (blocks : List Block) (hLib : ∀ b ∈ blocks, b.libNum ≤ b.num)
    (hParent : ∀ b ∈ blocks, ∀ p ∈ blocks, p.id = b.parentId → p.libNum ≤ b.libNum) : BlockTree where
  header? id := (blocks.find? fun b => b.id = id).map Block.header
  libNum_le hFind := by
    obtain ⟨b, hb, -, rfl⟩ := exists_of_find?_header hFind
    exact hLib b hb
  parent_libNum_le hFind hFindParent := by
    obtain ⟨b, hb, -, rfl⟩ := exists_of_find?_header hFind
    obtain ⟨p, hp, hId, rfl⟩ := exists_of_find?_header hFindParent
    exact hParent b hb p hp hId

theorem contiguous_ofBlocks {hLib : ∀ b ∈ blocks, b.libNum ≤ b.num}
    {hParent : ∀ b ∈ blocks, ∀ p ∈ blocks, p.id = b.parentId → p.libNum ≤ b.libNum}
    (hNext : ∀ b ∈ blocks, ∀ p ∈ blocks, p.id = b.parentId → p.num.next? = some b.num) :
    (ofBlocks blocks hLib hParent).Contiguous := by
  intro id h p hFind hFindParent
  obtain ⟨b, hb, -, rfl⟩ := exists_of_find?_header hFind
  obtain ⟨q, hq, hId, rfl⟩ := exists_of_find?_header hFindParent
  exact hNext b hb q hq hId

end OfBlocks

end BlockTree

end ChainFeed
