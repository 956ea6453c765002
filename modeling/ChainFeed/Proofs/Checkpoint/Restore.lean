import ChainFeed.Checkpoint.Basic
import ChainFeed.Proofs.ForkGraph.Stored

/-! # Restored graphs

Restoring a checkpoint links its blocks one after the other, each as a fired node without content.
-/

set_option autoImplicit false

namespace ChainFeed

namespace ForkGraph

/-- The graph with the nodes of stored blocks linked in order. -/
def linkAll (g : ForkGraph) (blocks : List StoredRef) : ForkGraph :=
  blocks.foldl (fun g s => g.link s.node) g

theorem linkAll_lib (g : ForkGraph) (blocks : List StoredRef) : (g.linkAll blocks).lib = g.lib := by
  induction blocks generalizing g with
  | nil => rfl
  | cons s blocks ih => exact (ih (g.link s.node)).trans (g.link_lib s.node)

theorem linkAll_libReported (g : ForkGraph) (blocks : List StoredRef) :
    (g.linkAll blocks).libReported = g.libReported := by
  induction blocks generalizing g with
  | nil => rfl
  | cons s blocks ih => exact (ih (g.link s.node)).trans (g.link_libReported s.node)

theorem mem_of_mem_linkAll {g : ForkGraph} {blocks : List StoredRef} {n : Node}
    (h : n ∈ (g.linkAll blocks).nodes) : n ∈ g.nodes ∨ ∃ s ∈ blocks, n = s.node := by
  induction blocks generalizing g with
  | nil => exact .inl h
  | cons s blocks ih =>
    rcases ih (g := g.link s.node) h with hLinked | ⟨t, ht, rfl⟩
    · rcases mem_link.mp hLinked with hOld | ⟨rfl, -⟩
      · exact .inl hOld
      · exact .inr ⟨s, List.mem_cons_self, rfl⟩
    · exact .inr ⟨t, List.mem_cons_of_mem s ht, rfl⟩

theorem mem_linkAll_of_mem {g : ForkGraph} {blocks : List StoredRef} {n : Node} (h : n ∈ g.nodes) :
    n ∈ (g.linkAll blocks).nodes := by
  induction blocks generalizing g with
  | nil => exact h
  | cons s blocks ih => exact ih (mem_link_of_mem h)

theorem mem_linkAll {g : ForkGraph} {blocks : List StoredRef} (hDistinct : (blocks.map StoredRef.id).Nodup)
    (hNew : ∀ s ∈ blocks, g.contains s.id = false) {s : StoredRef} (hs : s ∈ blocks) :
    s.node ∈ (g.linkAll blocks).nodes := by
  induction blocks generalizing g with
  | nil => cases hs
  | cons t blocks ih =>
    rw [List.map_cons, List.nodup_cons] at hDistinct
    rcases List.mem_cons.mp hs with rfl | hs
    · exact mem_linkAll_of_mem (g := g.link s.node) (mem_link.mpr (.inr ⟨rfl, hNew s List.mem_cons_self⟩))
    · refine ih (g := g.link t.node) hDistinct.2 (fun k hk => ?_) hs
      have hOld := hNew k (List.mem_cons_of_mem t hk)
      rw [Bool.eq_false_iff] at hOld ⊢
      intro hLinked
      obtain ⟨m, hm, hId⟩ := contains_iff_exists.mp hLinked
      rcases mem_link.mp hm with hm | ⟨rfl, -⟩
      · exact hOld (contains_iff_exists.mpr ⟨m, hm, hId⟩)
      · exact hDistinct.1 (List.mem_map.mpr ⟨k, hk, hId.symm⟩)

end ForkGraph

namespace Checkpoint

variable (c : Checkpoint)

theorem restore_eq_linkAll : c.restore = ForkGraph.linkAll { ForkGraph.empty with lib := some c.lib.ref } c.blocks :=
  rfl

@[simp] theorem restore_lib : c.restore.lib = some c.lib.ref := by
  rw [restore_eq_linkAll, ForkGraph.linkAll_lib]

@[simp] theorem restore_libReported : c.restore.libReported = false := by
  rw [restore_eq_linkAll, ForkGraph.linkAll_libReported]
  rfl

variable {c}

theorem exists_of_mem_restore {n : Node} (h : n ∈ c.restore.nodes) : ∃ s ∈ c.blocks, n = s.node :=
  (ForkGraph.mem_of_mem_linkAll h).resolve_left (List.not_mem_nil)

theorem mem_restore_iff (hDistinct : (c.blocks.map StoredRef.id).Nodup) {n : Node} :
    n ∈ c.restore.nodes ↔ ∃ s ∈ c.blocks, n = s.node := by
  constructor
  · exact exists_of_mem_restore
  · rintro ⟨s, hs, rfl⟩
    exact ForkGraph.mem_linkAll hDistinct (fun _ _ => rfl) hs

/-! ## Snapshots -/

theorem snapshot_eq_ok_iff {g : ForkGraph} {last : Link} :
    snapshot g last = .ok c ↔
      ∃ lib, g.lib = some lib ∧ c.lib = ⟨lib.id, lib.num, ""⟩ ∧ c.lastFired = .ofLink last ∧
        c.blocks = (g.nodes.filter Node.fired).map fun n => .ofLink n.toLink := by
  unfold snapshot
  cases g.lib with
  | none => simp
  | some lib =>
    simp only [Except.ok.injEq, Option.some.injEq, exists_eq_left']
    constructor
    · rintro rfl
      exact ⟨rfl, rfl, rfl⟩
    · rintro ⟨hLib, hLast, hBlocks⟩
      cases c
      simp_all

theorem distinct_of_snapshot {g : ForkGraph} {last : Link} (h : snapshot g last = .ok c) :
    (c.blocks.map StoredRef.id).Nodup := by
  obtain ⟨lib, -, -, -, hBlocks⟩ := snapshot_eq_ok_iff.mp h
  rw [hBlocks, List.map_map]
  exact g.distinct.sublist (List.filter_sublist.map Node.id)

theorem ascending_of_snapshot {g : ForkGraph} {last : Link} (h : snapshot g last = .ok c) :
    c.blocks.Pairwise fun s t => s.num < t.num ∨ s.num = t.num ∧ s.id < t.id := by
  obtain ⟨lib, -, -, -, hBlocks⟩ := snapshot_eq_ok_iff.mp h
  rw [hBlocks, List.pairwise_map]
  exact (g.sorted.filter _).imp id

theorem mem_blocks_of_snapshot {g : ForkGraph} {last : Link} (h : snapshot g last = .ok c) {s : StoredRef} :
    s ∈ c.blocks ↔ ∃ n ∈ g.nodes, n.fired = true ∧ s = .ofLink n.toLink := by
  obtain ⟨lib, -, -, -, hBlocks⟩ := snapshot_eq_ok_iff.mp h
  rw [hBlocks, List.mem_map]
  constructor
  · rintro ⟨n, hn, rfl⟩
    obtain ⟨hStored, hFired⟩ := List.mem_filter.mp hn
    exact ⟨n, hStored, hFired, rfl⟩
  · rintro ⟨n, hStored, hFired, rfl⟩
    exact ⟨n, List.mem_filter.mpr ⟨hStored, hFired⟩, rfl⟩

theorem libNum_of_snapshot {g : ForkGraph} {last : Link} (h : snapshot g last = .ok c) :
    c.restore.libNum = g.libNum := by
  obtain ⟨lib, hLib, hStored, -, -⟩ := snapshot_eq_ok_iff.mp h
  rw [ForkGraph.libNum_of_lib c.restore_lib, ForkGraph.libNum_of_lib hLib, hStored]
  rfl

/-- The graph of a snapshot holds the fired nodes of the graph it was taken of, with their contents gone
and their parents' numbers guessed. -/
theorem mem_restore_of_snapshot {g : ForkGraph} {last : Link} (h : snapshot g last = .ok c) {n : Node} :
    n ∈ c.restore.nodes ↔ ∃ m ∈ g.nodes, m.fired = true ∧ n = (StoredRef.ofLink m.toLink).node := by
  rw [mem_restore_iff (distinct_of_snapshot h)]
  constructor
  · rintro ⟨s, hs, rfl⟩
    obtain ⟨m, hm, hFired, rfl⟩ := (mem_blocks_of_snapshot h).mp hs
    exact ⟨m, hm, hFired, rfl⟩
  · rintro ⟨m, hm, hFired, rfl⟩
    exact ⟨_, (mem_blocks_of_snapshot h).mpr ⟨m, hm, hFired, rfl⟩, rfl⟩

end Checkpoint

end ChainFeed
