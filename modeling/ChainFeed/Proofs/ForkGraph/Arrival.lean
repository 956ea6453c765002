import ChainFeed.Checkpoint.Basic
import ChainFeed.Proofs.ForkGraph.Purge

/-! # Blocks that arrive in another order

The first node with an id is stored as it came, and later ones are passed over. So a graph is known by the first
node of each id, in whatever order nodes with different ids came in. All that is asked of it can be read off these
nodes in any order, as a table might list them: they are looked up by their ids, and what is listed is sorted.
-/

set_option autoImplicit false

namespace ChainFeed

namespace BlockRef

variable {a b c : BlockRef}

instance (a b : BlockRef) : Decidable (a.Before b) :=
  inferInstanceAs (Decidable (_ ∨ _))

theorem Before.asymm (h : a.Before b) : ¬ b.Before a := by
  unfold Before at *
  grind

theorem not_before_trans (hab : ¬ b.Before a) (hbc : ¬ c.Before b) : ¬ c.Before a := by
  unfold Before at *
  grind

/-- The list sorted by the block of each element. -/
def sortOn {α : Type} (ref : α → BlockRef) (l : List α) : List α :=
  l.mergeSort fun a b => !decide ((ref b).Before (ref a))

theorem sortOn_pairwise {α : Type} (ref : α → BlockRef) (l : List α) :
    (sortOn ref l).Pairwise fun a b => ¬ (ref b).Before (ref a) := by
  have hSorted : (sortOn ref l).Pairwise fun a b => (!decide ((ref b).Before (ref a))) = true := by
    refine List.pairwise_mergeSort (fun a b c hab hbc => ?_) (fun a b => ?_) l
    · simp only [Bool.not_eq_true', decide_eq_false_iff_not] at hab hbc ⊢
      exact not_before_trans hab hbc
    · simp only [Bool.or_eq_true, Bool.not_eq_true', decide_eq_false_iff_not]
      exact Classical.or_iff_not_imp_left.mpr fun h => (Classical.not_not.mp h).asymm
  exact hSorted.imp fun h => by simpa using h

/-- There is one way only to list elements in the order of their blocks, if no two have the same. -/
theorem sortOn_eq {α : Type} {ref : α → BlockRef} {l sorted : List α} (hPerm : l.Perm sorted)
    (hSorted : sorted.Pairwise fun a b => (ref a).Before (ref b)) : sortOn ref l = sorted := by
  have hSame : (sortOn ref l).Perm sorted := (List.mergeSort_perm l _).trans hPerm
  refine List.Perm.eq_of_pairwise (fun a b ha hb hab hba => ?_) (sortOn_pairwise ref l)
    (hSorted.imp Before.asymm) hSame
  have hApart : sorted.Pairwise fun a b => (ref a).Before (ref b) ∨ (ref b).Before (ref a) := hSorted.imp .inl
  by_contra hNe
  have : Std.Symm fun a b => (ref a).Before (ref b) ∨ (ref b).Before (ref a) := ⟨fun _ _ => Or.symm⟩
  exact (hApart.forall (hSame.mem_iff.mp ha) hb hNe).elim hba hab

end BlockRef

namespace Node

variable {nodes table : List Node}

theorem find?_eq_some_iff (hDistinct : (nodes.map Node.id).Nodup) {id : BlockId} {n : Node} :
    nodes.find? (fun m => m.id = id) = some n ↔ n ∈ nodes ∧ n.id = id := by
  constructor
  · intro hFind
    exact ⟨List.mem_of_find?_eq_some hFind, by simpa using List.find?_some hFind⟩
  · rintro ⟨hn, rfl⟩
    cases hFind : nodes.find? fun m => m.id = n.id with
    | none => simpa using List.find?_eq_none.mp hFind n hn
    | some m =>
      have hId : m.id = n.id := by simpa using List.find?_some hFind
      rw [List.inj_on_of_nodup_map hDistinct (List.mem_of_find?_eq_some hFind) hn hId]

/-- Nodes with ids of their own are looked up alike in any order. -/
theorem find?_perm (hPerm : table.Perm nodes) (hDistinct : (nodes.map Node.id).Nodup) (id : BlockId) :
    table.find? (fun n => n.id = id) = nodes.find? (fun n => n.id = id) := by
  have hDistinct' : (table.map Node.id).Nodup := (hPerm.map Node.id).nodup_iff.mpr hDistinct
  apply Option.ext
  intro n
  rw [find?_eq_some_iff hDistinct', find?_eq_some_iff hDistinct, hPerm.mem_iff]

/-- A walk only looks nodes up, so their order does not matter to it. -/
theorem walkBack_perm (hPerm : table.Perm nodes) (hDistinct : (nodes.map Node.id).Nodup) (steps : Nat)
    (id : BlockId) : walkBack steps table id = walkBack steps nodes id := by
  induction steps generalizing table nodes id with
  | zero => rfl
  | succ steps ih =>
    have hOnce : table.Pairwise fun m n => decide (m.id = id) = true → decide (n.id = id) = true → False := by
      refine (List.pairwise_map.mp ((hPerm.map Node.id).nodup_iff.mpr hDistinct)).imp fun hNe hm hn => hNe ?_
      rw [of_decide_eq_true hm, of_decide_eq_true hn]
    -- No other node has the id, so taking it out leaves the same nodes on both sides.
    have hRest : ((nodes.eraseP fun m => m.id = id).map Node.id).Nodup :=
      hDistinct.sublist (List.eraseP_sublist.map Node.id)
    rw [walkBack, walkBack, find?_perm hPerm hDistinct]
    cases nodes.find? fun n => n.id = id with
    | none => rfl
    | some n =>
      simp only
      rw [ih (hPerm.eraseP _ hOnce) hRest]

end Node

namespace ForkGraph

/-! ## What is stored -/

def linkNodes (g : ForkGraph) (nodes : List Node) : ForkGraph :=
  nodes.foldl link g

theorem linkNodes_cons (g : ForkGraph) (n : Node) (nodes : List Node) :
    g.linkNodes (n :: nodes) = (g.link n).linkNodes nodes := rfl

theorem linkNodes_lib (g : ForkGraph) (nodes : List Node) :
    (g.linkNodes nodes).lib = g.lib ∧ (g.linkNodes nodes).libReported = g.libReported := by
  induction nodes generalizing g with
  | nil => exact ⟨rfl, rfl⟩
  | cons n nodes ih =>
    obtain ⟨hLib, hReported⟩ := ih (g.link n)
    exact ⟨hLib.trans (g.link_lib n), hReported.trans (g.link_libReported n)⟩

theorem find?_link (g : ForkGraph) (n : Node) (id : BlockId) :
    (g.link n).find? id = (g.find? id).or ([n].find? fun m => m.id = id) := by
  cases hOld : g.find? id with
  | some m =>
    have hId : m.id = id := by simpa using List.find?_some hOld
    rw [Option.some_or, ← hId, find?_of_mem (mem_link_of_mem (List.mem_of_find?_eq_some hOld))]
  | none =>
    have hAbsent : ∀ m ∈ g.nodes, m.id ≠ id := by simpa [find?] using hOld
    rw [Option.none_or]
    by_cases hId : n.id = id
    · have hNew : g.contains n.id = false := by rw [contains, hId, hOld]; rfl
      rw [List.find?_cons_of_pos (by simpa using hId), ← hId, find?_of_mem (mem_link.mpr (.inr ⟨rfl, hNew⟩))]
    · rw [List.find?_cons_of_neg (by simpa using hId), List.find?_nil, find?, List.find?_eq_none]
      intro m hm
      obtain hm | ⟨rfl, -⟩ := mem_link.mp hm
      · simpa using hAbsent m hm
      · simpa using hId

/-- Of the nodes with an id, the first one is stored. -/
theorem find?_linkNodes (g : ForkGraph) (nodes : List Node) (id : BlockId) :
    (g.linkNodes nodes).find? id = (g.nodes ++ nodes).find? fun n => n.id = id := by
  induction nodes generalizing g with
  | nil => rw [List.append_nil, linkNodes, List.foldl_nil, find?]
  | cons n nodes ih =>
    rw [linkNodes_cons, ih, List.find?_append, List.find?_append, ← find?, find?_link, ← find?, Option.or_assoc,
      ← List.find?_append, List.singleton_append]

/-- A graph is known by what is found in it. -/
theorem eq_of_find?_eq {g h : ForkGraph} (hLib : g.lib = h.lib) (hReported : g.libReported = h.libReported)
    (hFind : ∀ id, g.find? id = h.find? id) : g = h := by
  -- The nodes of both are sorted, so it is enough that they are the same ones.
  refine ForkGraph.ext hLib hReported (List.Perm.eq_of_pairwise ?_ g.sorted h.sorted ?_)
  · intro m n _ _ hmn hnm
    exact absurd hnm (BlockRef.Before.asymm hmn)
  · refine (List.perm_ext_iff_of_nodup (.of_map Node.id g.distinct) (.of_map Node.id h.distinct)).mpr fun n => ?_
    have hSame := hFind n.id
    rw [Option.ext_iff] at hSame
    simpa [find?, Node.find?_eq_some_iff g.distinct, Node.find?_eq_some_iff h.distinct] using hSame n

/-! ## What is read off a table -/

/-- The table lists the first entry of each id, in any order. -/
structure Tabulates (table entries : List Node) : Prop where
  distinct : (table.map Node.id).Nodup
  mem_iff : ∀ n, n ∈ table ↔ entries.find? (fun m => m.id = n.id) = some n

/-- What is asked of the graph has the answers that the table gives. -/
structure ReadsOff (g : ForkGraph) (table : List Node) : Prop where
  ascending : g.links.Pairwise fun l m => l.block.Before m.block
  once : (g.links.map Link.id).Nodup
  links : g.links = BlockRef.sortOn Link.block (table.map Node.toLink)
  found : ∀ id, g.find? id = table.find? fun n => n.id = id
  size : g.size = table.length
  lineage : ∀ id, g.lineage id = Node.walkBack table.length table id
  gone : g.belowLib = BlockRef.sortOn id ((table.filter fun n => n.num < g.libNum).map fun n => n.block)
  kept : g.purge.nodes = BlockRef.sortOn (fun n => n.block) (table.filter fun n => g.libNum ≤ n.num)
  snapshot : ∀ last, Checkpoint.snapshot g last = match g.lib with
    | none => .error .noLib
    | some lib => .ok {
        lib := ⟨lib.id, lib.num, ""⟩
        lastFired := .ofLink last
        blocks := ((BlockRef.sortOn Link.block (table.map Node.toLink)).filter fun l =>
          (table.find? fun n => n.id = l.id).any Node.fired).map .ofLink }

theorem tabulates_iff_perm {g : ForkGraph} {table nodes : List Node} :
    Tabulates table (g.nodes ++ nodes) ↔ table.Perm (g.linkNodes nodes).nodes := by
  have hDistinct := (g.linkNodes nodes).distinct
  have hFirst : ∀ n, (g.nodes ++ nodes).find? (fun m => m.id = n.id) = some n ↔ n ∈ (g.linkNodes nodes).nodes := by
    intro n
    rw [← find?_linkNodes, find?, Node.find?_eq_some_iff hDistinct, and_iff_left rfl]
  constructor
  · intro h
    refine (List.perm_ext_iff_of_nodup (.of_map Node.id h.distinct) (.of_map Node.id hDistinct)).mpr fun n => ?_
    rw [h.mem_iff, hFirst]
  · intro hPerm
    exact ⟨(hPerm.map Node.id).nodup_iff.mpr hDistinct, fun n => by rw [hFirst, hPerm.mem_iff]⟩

section

variable {g : ForkGraph} {table : List Node} (hPerm : table.Perm g.nodes)

include hPerm

theorem sortOn_toLink : BlockRef.sortOn Link.block (table.map Node.toLink) = g.links :=
  BlockRef.sortOn_eq (hPerm.map Node.toLink) (List.pairwise_map.mpr g.sorted)

theorem lineage_of_perm (id : BlockId) : g.lineage id = Node.walkBack table.length table id := by
  have hReversed : table.Perm g.nodes.reverse := hPerm.trans g.nodes.reverse_perm.symm
  have hDistinct : (g.nodes.reverse.map Node.id).Nodup := (g.nodes.reverse_perm.map Node.id).nodup_iff.mpr g.distinct
  rw [lineage, ← hPerm.length_eq, Node.walkBack_perm hReversed hDistinct]

theorem filter_any_fired :
    (g.links.filter fun l => (table.find? fun n => n.id = l.id).any Node.fired) =
      (g.nodes.filter Node.fired).map Node.toLink := by
  rw [links, List.filter_map]
  refine congrArg _ (List.filter_congr fun n hn => ?_)
  have hFound : (table.find? fun m => m.id = n.id) = some n :=
    (Node.find?_perm hPerm g.distinct n.id).trans (find?_of_mem hn)
  exact congrArg (Option.any Node.fired) hFound

theorem readsOff_of_perm : g.ReadsOff table where
  ascending := List.pairwise_map.mpr g.sorted
  once := by
    rw [links, List.map_map]
    exact g.distinct
  links := (sortOn_toLink hPerm).symm
  found id := (Node.find?_perm hPerm g.distinct id).symm
  size := hPerm.length_eq.symm
  lineage := lineage_of_perm hPerm
  gone := (BlockRef.sortOn_eq ((hPerm.filter _).map _) g.belowLib_ascending).symm
  kept := (BlockRef.sortOn_eq (hPerm.filter _) (g.sorted.filter _)).symm
  snapshot last := by
    rw [sortOn_toLink hPerm, filter_any_fired hPerm, List.map_map]
    rfl

end

/-! ## Other orders -/

/-- The entries in another order, in which those with the same id keep theirs. -/
structure Reorders (entries other : List Node) : Prop where
  perm : other.Perm entries
  sameId : ∀ id, (other.filter fun n => n.id = id) = entries.filter fun n => n.id = id

theorem Reorders.find?_eq {entries other : List Node} (h : Reorders entries other) (id : BlockId) :
    (other.find? fun n => n.id = id) = entries.find? fun n => n.id = id := by
  rw [← List.head?_filter, ← List.head?_filter, h.sameId]

/-- Entries that are linked in another order make the same graph. It holds the first entry of each id as a whole,
and answers as any table of these entries does. -/
theorem linkNodes_of_reorders (g : ForkGraph) {entries other : List Node} (h : Reorders entries other) :
    g.linkNodes other = g.linkNodes entries ∧
      (∀ id, (g.linkNodes entries).find? id = (g.nodes ++ entries).find? fun n => n.id = id) ∧
      ∀ table, Tabulates table (g.nodes ++ other) → (g.linkNodes entries).ReadsOff table := by
  obtain ⟨hLib, hReported⟩ := g.linkNodes_lib entries
  obtain ⟨hLib', hReported'⟩ := g.linkNodes_lib other
  have hSame : g.linkNodes other = g.linkNodes entries := by
    refine eq_of_find?_eq (hLib'.trans hLib.symm) (hReported'.trans hReported.symm) fun id => ?_
    rw [find?_linkNodes, find?_linkNodes, List.find?_append, List.find?_append, h.find?_eq]
  refine ⟨hSame, g.find?_linkNodes entries, fun table hTable => ?_⟩
  rw [← hSame]
  exact readsOff_of_perm (tabulates_iff_perm.mp hTable)

/-- Blocks of one number, a block below the LIB, and an id that comes twice, with another number the second time. -/
def crossing : List Node :=
  [.restored ⟨"101b", 101⟩ ⟨"100a", 100⟩, .restored ⟨"101a", 101⟩ ⟨"100a", 100⟩,
    { Node.restored ⟨"101a", 103⟩ ⟨"102a", 102⟩ with fired := false }, .restored ⟨"99a", 99⟩ ⟨"98a", 98⟩]

def crossed : List Node :=
  [.restored ⟨"99a", 99⟩ ⟨"98a", 98⟩, .restored ⟨"101a", 101⟩ ⟨"100a", 100⟩,
    .restored ⟨"101b", 101⟩ ⟨"100a", 100⟩, { Node.restored ⟨"101a", 103⟩ ⟨"102a", 102⟩ with fired := false }]

theorem linkNodes_of_reorders_crossing :
    ∃ g, empty.initLib ⟨"100a", 100⟩ = .ok g ∧ Reorders crossing crossed ∧ Tabulates (crossed.take 3) crossed ∧
      g.linkNodes crossed = g.linkNodes crossing ∧ (g.linkNodes crossing).ReadsOff (crossed.take 3) := by
  have hReorders : Reorders crossing crossed := by
    refine ⟨by decide, fun id => ?_⟩
    simp only [crossing, crossed, Node.id, Node.restored, List.filter_cons, List.filter_nil]
    grind
  refine ⟨_, rfl, hReorders, ?_⟩
  have hTable : Tabulates (crossed.take 3) crossed := tabulates_iff_perm (g := empty).mpr (by decide +kernel)
  obtain ⟨hSame, -, hReads⟩ := linkNodes_of_reorders { empty with lib := some ⟨"100a", 100⟩ } hReorders
  exact ⟨hTable, hSame, hReads _ hTable⟩

example :
    (empty.linkNodes crossing).links.map Link.id = ["99a", "101a", "101b"] ∧
      ((empty.linkNodes crossing).find? "101a").map Node.num = some 101 := by
  decide +kernel

end ForkGraph

end ChainFeed
