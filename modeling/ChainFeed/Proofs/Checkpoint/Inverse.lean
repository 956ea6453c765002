import Mathlib.Data.List.Sort
import ChainFeed.Proofs.Checkpoint.Restore
import ChainFeed.Proofs.ForkGraph.Purge

/-! # Snapshots read back

A snapshot keeps the fired part of a graph, under the LIB that the graph has, and reading it back loses only the
contents and the parents' numbers. A second snapshot is the first one again. Segments lead over the same blocks as
before if no fired block above the LIB has an unfired parent.
-/

set_option autoImplicit false

namespace ChainFeed

open ForkGraph

namespace Node

/-- What a checkpoint gives back of a node. -/
def readBack (n : Node) : Node := .restored n.block ⟨n.parent.id, n.num.back 1⟩

@[simp] theorem readBack_block (n : Node) : n.readBack.block = n.block := rfl

@[simp] theorem readBack_id (n : Node) : n.readBack.id = n.id := rfl

@[simp] theorem readBack_parent_id (n : Node) : n.readBack.parent.id = n.parent.id := rfl

theorem not_before_self (n : Node) : ¬ n.Before n := by
  rintro (hNum | ⟨-, hId⟩)
  · exact UInt64.lt_irrefl _ hNum
  · exact String.lt_irrefl _ hId

instance : Std.Irrefl Before := ⟨not_before_self⟩

instance : Std.Antisymm Before := ⟨fun m _ h h' => absurd (h.trans h') m.not_before_self⟩

end Node

namespace ForkGraph

variable {g : ForkGraph} {lib : BlockRef}

/-! ## Segments of fired blocks -/

/-- Walking back over fired blocks leads to fired blocks, as long as the LIB is not passed. -/
def FiredBackToLib (g : ForkGraph) : Prop :=
  ∀ n ∈ g.nodes, n.fired = true → g.libId ≠ some n.id → ∀ p ∈ g.nodes, p.id = n.parent.id → p.fired = true

theorem fired_of_follows (h : g.FiredBackToLib) {id : BlockId} {path : List Node} (hFollows : Follows id path)
    (hStored : ∀ n ∈ path, n ∈ g.nodes) (hLib : ∀ n ∈ path.dropLast, g.libId ≠ some n.id)
    (hHead : ∀ n, path.head? = some n → n.fired = true) : ∀ n ∈ path, n.fired = true := by
  induction path generalizing id with
  | nil => simp
  | cons n path ih =>
    have hFired := hHead n rfl
    refine List.forall_mem_cons.mpr ⟨hFired, ?_⟩
    cases path with
    | nil => simp
    | cons p path =>
      rw [List.dropLast_cons_cons] at hLib
      have hParent : p.fired = true :=
        h n (hStored n (by simp)) hFired (hLib n (by simp)) p (hStored p (by simp)) hFollows.2.1
      refine ih hFollows.2 (fun m hm => hStored m (List.mem_cons_of_mem n hm))
        (fun m hm => hLib m (List.mem_cons_of_mem n hm)) fun m hm => ?_
      cases hm
      exact hParent

theorem fired_of_mem_segmentTo (h : g.FiredBackToLib) (hLib : g.lib = some lib) {n : Node} (hn : n ∈ g.nodes)
    (hFired : n.fired = true) : ∀ m ∈ (g.segmentTo n.block).nodes, m.fired = true := by
  intro m hm
  refine fired_of_follows h (g.follows_segmentTo n.block)
    (fun k hk => mem_of_mem_segmentTo (List.mem_reverse.mp hk)) ?_ ?_ m (List.mem_reverse.mpr hm)
  · intro k hk hIsLib
    rw [List.dropLast_reverse, List.mem_reverse] at hk
    rw [libId_of_lib hLib, Option.some.injEq] at hIsLib
    exact ne_lib_of_mem_tail hLib hk hIsLib.symm
  · intro k hk
    rw [List.head?_reverse] at hk
    have hStored := mem_of_mem_segmentTo (List.mem_of_getLast? hk)
    rw [eq_of_id_eq hStored hn (id_of_getLast?_segmentTo hk), hFired]

theorem cutAfter_map {change : Node → Node} (hId : ∀ n, (change n).id = n.id) (id : BlockId) (path : List Node) :
    cutAfter id (path.map change) = (cutAfter id path).map change := by
  induction path with
  | nil => rfl
  | cons n path ih =>
    rw [List.map_cons, cutAfter, cutAfter, hId, ih]
    split <;> rfl

/-- A change that leaves ids and parents alone leaves the way of each segment alone. -/
theorem segmentTo_map {h : ForkGraph} {change : Node → Node} (hId : ∀ n, (change n).id = n.id)
    (hParent : ∀ n, (change n).parent.id = n.parent.id) (hNodes : h.nodes = g.nodes.map change)
    (hLib : h.libId = g.libId) (target : BlockRef) :
    h.segmentTo target = ⟨(g.segmentTo target).nodes.map change, (g.segmentTo target).stop⟩ := by
  have hIds : (Node.id ∘ change) = Node.id := funext hId
  have hContains : ∀ id, h.contains id = g.contains id := by
    intro id
    rw [Bool.eq_iff_iff, contains_iff, contains_iff, hNodes, List.map_map, hIds]
  have hAny : ∀ id, (fun n : Node => decide (n.id = id)) ∘ change = fun n => decide (n.id = id) := by
    intro id
    funext n
    rw [Function.comp, hId]
  have hTarget : walkTarget ((g.lineage target.id).map change) target.id =
      walkTarget (g.lineage target.id) target.id := by
    rw [walkTarget, walkTarget, List.getLast?_map]
    cases (g.lineage target.id).getLast? with
    | none => rfl
    | some oldest => exact hParent oldest
  unfold segmentTo
  rw [hLib, lineage_map hId hParent hNodes]
  cases g.libId with
  | none => rfl
  | some lib =>
    simp only [List.any_map, hAny, hTarget, hContains, cutAfter_map hId]
    split <;> simp only [List.map_reverse]

end ForkGraph

namespace Checkpoint

variable {g : ForkGraph} {last : Link} {c : Checkpoint}

/-! ## The graph of a snapshot -/

theorem nodes_restore (h : snapshot g last = .ok c) :
    c.restore.nodes = (g.nodes.filter Node.fired).map Node.readBack := by
  have hSorted : ((g.nodes.filter Node.fired).map Node.readBack).Pairwise Node.Before :=
    List.pairwise_map.mpr (g.sorted.filter _)
  refine List.Pairwise.eq_of_mem_iff c.restore.sorted hSorted fun n => ?_
  rw [mem_restore_of_snapshot h, List.mem_map]
  constructor
  · rintro ⟨m, hm, hFired, rfl⟩
    exact ⟨m, List.mem_filter.mpr ⟨hm, hFired⟩, rfl⟩
  · rintro ⟨m, hm, rfl⟩
    obtain ⟨hStored, hFired⟩ := List.mem_filter.mp hm
    exact ⟨m, hStored, hFired, rfl⟩

/-- A snapshot of the graph that was read back is the one that it was read from. -/
theorem snapshot_restore (h : snapshot g last = .ok c) {l : Link} (hl : StoredRef.ofLink l = c.lastFired) :
    snapshot c.restore l = .ok c := by
  obtain ⟨lib, -, hLib, -, hBlocks⟩ := snapshot_eq_ok_iff.mp h
  have hAllFired : ∀ n ∈ (g.nodes.filter Node.fired).map Node.readBack, n.fired = true := by
    intro n hn
    obtain ⟨m, -, rfl⟩ := List.mem_map.mp hn
    rfl
  refine snapshot_eq_ok_iff.mpr ⟨_, c.restore_lib, by rw [hLib]; rfl, hl.symm, ?_⟩
  rw [hBlocks, nodes_restore h, List.filter_eq_self.mpr hAllFired, List.map_map]
  rfl

/-- The graph `h` is what is read back from `c`. It is the fired part of `g`, and `c` is a snapshot of it as well. -/
structure Mirrors (c : Checkpoint) (g : ForkGraph) (lib : BlockRef) (h : ForkGraph) : Prop where
  rebuilt : c.rebuild = .ok h
  lib : h.lib = some lib
  nodes : h.nodes = (g.nodes.filter Node.fired).map Node.readBack
  again : ∀ l, StoredRef.ofLink l = c.lastFired → snapshot h l = .ok c

theorem exists_mirrors {lib : BlockRef} (hLib : g.lib = some lib) (last : Link) :
    ∃ c h, snapshot g last = .ok c ∧ c.Mirrors g lib h := by
  obtain ⟨c, hSnapshot⟩ : ∃ c, snapshot g last = .ok c := ⟨_, by rw [snapshot, hLib]⟩
  obtain ⟨lib', hLib', hStored, -, -⟩ := snapshot_eq_ok_iff.mp hSnapshot
  cases hLib.symm.trans hLib'
  exact ⟨c, c.restore, hSnapshot, c.rebuild_eq, by rw [c.restore_lib, hStored]; rfl, nodes_restore hSnapshot,
    fun l hl => snapshot_restore hSnapshot hl⟩

/-- From a fired block, the graph that was read back leads over the same blocks, and as far. -/
theorem segmentTo_restore (h : snapshot g last = .ok c) (hBack : g.FiredBackToLib) {n : Node} (hn : n ∈ g.nodes)
    (hFired : n.fired = true) :
    c.restore.segmentTo n.block =
      ⟨(g.segmentTo n.block).nodes.map Node.readBack, (g.segmentTo n.block).stop⟩ := by
  obtain ⟨lib, hLib, hStored, -, -⟩ := snapshot_eq_ok_iff.mp h
  have hSame : c.restore.libId = (g.keep Node.fired).libId := by
    rw [libId_of_lib c.restore_lib, libId_of_lib (g := g.keep Node.fired) hLib, hStored]
    rfl
  rw [segmentTo_map Node.readBack_id Node.readBack_parent_id (nodes_restore h) hSame n.block,
    segmentTo_keep hLib (fired_of_mem_segmentTo hBack hLib hn hFired)]

end Checkpoint

end ChainFeed
