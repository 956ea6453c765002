import ChainFeed.ForkGraph.Finality
import Mathlib.Data.List.Nodup

/-! # What a fork graph stores

An id is stored once, so a stored node is known by its id. Each change of the graph is told by the
nodes that are there afterwards.
-/

set_option autoImplicit false

namespace ChainFeed

def Node.asFired (n : Node) : Node := { n with fired := true }

@[simp] theorem Node.asFired_fired (n : Node) : n.asFired.fired = true := rfl

@[simp] theorem Node.asFired_toLink (n : Node) : n.asFired.toLink = n.toLink := rfl

/-- The node as it stands once the blocks of `ids` were fired. -/
def Node.markedIn (ids : List BlockId) (n : Node) : Node :=
  if n.id ∈ ids then n.asFired else n

@[simp] theorem Node.markedIn_toLink (ids : List BlockId) (n : Node) : (n.markedIn ids).toLink = n.toLink := by
  unfold markedIn
  split <;> rfl

@[simp] theorem Node.markedIn_id (ids : List BlockId) (n : Node) : (n.markedIn ids).id = n.id := by
  rw [Node.id, markedIn_toLink, Node.id]

@[simp] theorem Node.markedIn_num (ids : List BlockId) (n : Node) : (n.markedIn ids).num = n.num := by
  rw [Node.num, markedIn_toLink, Node.num]

@[simp] theorem Node.markedIn_content (ids : List BlockId) (n : Node) :
    (n.markedIn ids).content = n.content := by
  unfold markedIn
  split <;> rfl

@[simp] theorem Node.markedIn_fired (ids : List BlockId) (n : Node) :
    (n.markedIn ids).fired = (decide (n.id ∈ ids) || n.fired) := by
  unfold markedIn
  split
  next h => simp [h]
  next h => simp [h]

theorem Node.markedIn_of_fired {n : Node} (h : n.fired = true) (ids : List BlockId) : n.markedIn ids = n := by
  unfold markedIn
  split
  · rw [asFired, ← h]
  · rfl

@[simp] theorem Node.fresh_id (b : Block) : (Node.fresh b).id = b.id := rfl

@[simp] theorem Node.fresh_num (b : Block) : (Node.fresh b).num = b.num := rfl

@[simp] theorem Node.fresh_fired (b : Block) : (Node.fresh b).fired = false := rfl

@[simp] theorem Node.fresh_content (b : Block) : (Node.fresh b).content = some b := rfl

@[simp] theorem Node.fresh_parent (b : Block) : (Node.fresh b).parent = b.parentRef := rfl

namespace ForkGraph

theorem eq_of_id_eq {g : ForkGraph} {m n : Node} (hm : m ∈ g.nodes) (hn : n ∈ g.nodes)
    (h : m.id = n.id) : m = n :=
  List.inj_on_of_nodup_map g.distinct hm hn h

theorem contains_iff_exists {g : ForkGraph} {id : BlockId} :
    g.contains id = true ↔ ∃ n ∈ g.nodes, n.id = id := by
  rw [contains_iff, List.mem_map]

theorem contains_of_mem {g : ForkGraph} {n : Node} (hn : n ∈ g.nodes) : g.contains n.id = true :=
  contains_iff_exists.mpr ⟨n, hn, rfl⟩

theorem find?_of_mem {g : ForkGraph} {n : Node} (hn : n ∈ g.nodes) : g.find? n.id = some n := by
  cases hFind : g.find? n.id with
  | none =>
    have hStored := contains_of_mem hn
    rw [contains, hFind] at hStored
    cases hStored
  | some m =>
    have hId : m.id = n.id := by simpa using List.find?_some hFind
    rw [eq_of_id_eq (List.mem_of_find?_eq_some hFind) hn hId]

theorem libNum_of_lib {g : ForkGraph} {lib : BlockRef} (h : g.lib = some lib) : g.libNum = lib.num := by
  rw [libNum, h]

theorem libId_of_lib {g : ForkGraph} {lib : BlockRef} (h : g.lib = some lib) : g.libId = some lib.id := by
  rw [libId, h]
  rfl

theorem libNum_congr {g h : ForkGraph} (hLib : g.lib = h.lib) : g.libNum = h.libNum := by
  rw [libNum, libNum, hLib]

/-! ## Linking -/

@[simp] theorem link_lib (g : ForkGraph) (n : Node) : (g.link n).lib = g.lib := by
  unfold link
  split <;> rfl

@[simp] theorem link_libReported (g : ForkGraph) (n : Node) :
    (g.link n).libReported = g.libReported := by
  unfold link
  split <;> rfl

@[simp] theorem link_libNum (g : ForkGraph) (n : Node) : (g.link n).libNum = g.libNum :=
  libNum_congr (g.link_lib n)

theorem mem_link {g : ForkGraph} {n m : Node} :
    m ∈ (g.link n).nodes ↔ m ∈ g.nodes ∨ m = n ∧ g.contains n.id = false := by
  unfold link
  split
  next h => simp [h]
  next h =>
    rw [Bool.not_eq_true] at h
    simp only [Node.mem_insertSorted, h, and_true]
    exact or_comm

theorem mem_link_of_mem {g : ForkGraph} {n m : Node} (hm : m ∈ g.nodes) : m ∈ (g.link n).nodes :=
  mem_link.mpr (.inl hm)

theorem contains_link_self (g : ForkGraph) (n : Node) : (g.link n).contains n.id = true := by
  cases h : g.contains n.id with
  | true =>
    obtain ⟨m, hm, hId⟩ := contains_iff_exists.mp h
    exact contains_iff_exists.mpr ⟨m, mem_link_of_mem hm, hId⟩
  | false => exact contains_of_mem (mem_link.mpr (.inr ⟨rfl, h⟩))

theorem link_of_contains {g : ForkGraph} {n : Node} (h : g.contains n.id = true) : g.link n = g := by
  rw [link, dif_pos h]

/-! ## Marks -/

def markAll (g : ForkGraph) (ids : List BlockId) : ForkGraph :=
  ids.foldl (fun g id => g.mark id true) g

@[simp] theorem mark_lib (g : ForkGraph) (id : BlockId) (fired : Bool) :
    (g.mark id fired).lib = g.lib := rfl

@[simp] theorem mark_libReported (g : ForkGraph) (id : BlockId) (fired : Bool) :
    (g.mark id fired).libReported = g.libReported := rfl

theorem mem_mark_of_ne {g : ForkGraph} {id : BlockId} {fired : Bool} {n : Node} (hn : n ∈ g.nodes)
    (hOther : n.id ≠ id) : n ∈ (g.mark id fired).nodes :=
  List.mem_map.mpr ⟨n, hn, if_neg hOther⟩

@[simp] theorem markAll_nil (g : ForkGraph) : g.markAll [] = g := rfl

@[simp] theorem markAll_cons (g : ForkGraph) (id : BlockId) (ids : List BlockId) :
    g.markAll (id :: ids) = (g.mark id true).markAll ids := rfl

@[simp] theorem markAll_lib (g : ForkGraph) (ids : List BlockId) : (g.markAll ids).lib = g.lib := by
  induction ids generalizing g with
  | nil => rfl
  | cons id ids ih => rw [markAll_cons, ih, mark_lib]

@[simp] theorem markAll_libReported (g : ForkGraph) (ids : List BlockId) :
    (g.markAll ids).libReported = g.libReported := by
  induction ids generalizing g with
  | nil => rfl
  | cons id ids ih => rw [markAll_cons, ih, mark_libReported]

@[simp] theorem markAll_libNum (g : ForkGraph) (ids : List BlockId) :
    (g.markAll ids).libNum = g.libNum :=
  libNum_congr (g.markAll_lib ids)

theorem nodes_markAll (g : ForkGraph) (ids : List BlockId) :
    (g.markAll ids).nodes = g.nodes.map (Node.markedIn ids) := by
  induction ids generalizing g with
  | nil =>
    have hSame : Node.markedIn [] = id := by
      funext n
      simp [Node.markedIn]
    rw [markAll_nil, hSame, List.map_id]
  | cons id ids ih =>
    rw [markAll_cons, ih, mark, List.map_map]
    apply List.map_congr_left
    intro n _
    unfold Node.markedIn
    by_cases hId : n.id = id
    · simp only [Function.comp, List.mem_cons, hId, true_or, if_true]
      split <;> rfl
    · simp only [Function.comp, List.mem_cons, hId, false_or, if_false]

theorem mem_markAll {g : ForkGraph} {ids : List BlockId} {m : Node} :
    m ∈ (g.markAll ids).nodes ↔ ∃ n ∈ g.nodes, n.markedIn ids = m := by
  rw [nodes_markAll, List.mem_map]

theorem markedIn_mem_markAll {g : ForkGraph} {n : Node} (hn : n ∈ g.nodes) (ids : List BlockId) :
    n.markedIn ids ∈ (g.markAll ids).nodes :=
  mem_markAll.mpr ⟨n, hn, rfl⟩

/-! ## Purging -/

@[simp] theorem purge_lib (g : ForkGraph) : g.purge.lib = g.lib := rfl

@[simp] theorem purge_libNum (g : ForkGraph) : g.purge.libNum = g.libNum := rfl

theorem mem_purge {g : ForkGraph} {n : Node} :
    n ∈ g.purge.nodes ↔ n ∈ g.nodes ∧ g.libNum ≤ n.num := by
  simp [purge, keep, List.mem_filter]

end ForkGraph

end ChainFeed
