import ChainFeed.Block

/-! # The fork graph

Blocks above and at the last irreversible block (LIB), each with the parent it was linked under.
The graph keeps its nodes in ascending order of number, then id, and holds an id once. So two graphs
with the same blocks are equal, in whatever order the blocks arrived.
-/

set_option autoImplicit false

namespace ChainFeed

/-- A stored block. The content is missing for a block that was read back from a checkpoint. A block
is fired once it was handed to the sink, or passed over because it lies below the start. -/
structure Node extends Link where
  content : Option Block
  fired : Bool
  deriving DecidableEq, Repr

namespace Node

def id (n : Node) : BlockId := n.block.id

def num (n : Node) : BlockNum := n.block.num

/-- The node of a block that was just fetched. -/
def fresh (b : Block) : Node where
  toLink := b.link
  content := some b
  fired := false

/-- The node of a block whose content is gone because it was fired in an earlier run. -/
def restored (block parent : BlockRef) : Node where
  block := block
  parent := parent
  content := none
  fired := true

/-- The order of stored blocks: by number, then by id. -/
def Before (m n : Node) : Prop :=
  m.num < n.num ∨ m.num = n.num ∧ m.id < n.id

instance (m n : Node) : Decidable (m.Before n) :=
  inferInstanceAs (Decidable (_ ∨ _))

theorem Before.trans {l m n : Node} (h : l.Before m) (h' : m.Before n) : l.Before n := by
  unfold Before at *
  grind

theorem before_total {m n : Node} (h : m.id ≠ n.id) : m.Before n ∨ n.Before m := by
  unfold Before
  grind

/-- The nodes with `n` put where the order wants it. -/
def insertSorted (n : Node) : List Node → List Node
  | [] => [n]
  | m :: rest => if n.Before m then n :: m :: rest else m :: insertSorted n rest

theorem mem_insertSorted {n m : Node} {nodes : List Node} :
    m ∈ insertSorted n nodes ↔ m = n ∨ m ∈ nodes := by
  induction nodes with
  | nil => simp [insertSorted]
  | cons hd rest ih =>
    rw [insertSorted]
    split
    · simp
    · simp only [List.mem_cons, ih]
      grind

theorem insertSorted_perm (n : Node) (nodes : List Node) :
    (insertSorted n nodes).Perm (n :: nodes) := by
  induction nodes with
  | nil => exact .refl _
  | cons hd rest ih =>
    rw [insertSorted]
    split
    · exact .refl _
    · exact (ih.cons hd).trans (.swap n hd rest)

theorem insertSorted_pairwise {n : Node} {nodes : List Node} (sorted : nodes.Pairwise Before)
    (new : n.id ∉ nodes.map Node.id) : (insertSorted n nodes).Pairwise Before := by
  induction nodes with
  | nil => simp [insertSorted]
  | cons m rest ih =>
    obtain ⟨least, sorted⟩ := List.pairwise_cons.1 sorted
    simp only [List.map_cons, List.mem_cons, not_or] at new
    rw [insertSorted]
    split
    next h =>
      refine List.pairwise_cons.2 ⟨fun k hk => ?_, List.pairwise_cons.2 ⟨least, sorted⟩⟩
      rcases List.mem_cons.1 hk with rfl | hk
      · exact h
      · exact h.trans (least k hk)
    next h =>
      refine List.pairwise_cons.2 ⟨fun k hk => ?_, ih sorted new.2⟩
      rcases mem_insertSorted.1 hk with rfl | hk
      · exact (before_total new.1).resolve_left h
      · exact least k hk

end Node

/-- `libReported` tells whether the source itself reported the LIB, rather than the run starting at
it. -/
structure ForkGraph where
  lib : Option BlockRef
  libReported : Bool
  nodes : List Node
  sorted : nodes.Pairwise Node.Before
  distinct : (nodes.map Node.id).Nodup

namespace ForkGraph

def empty : ForkGraph where
  lib := none
  libReported := false
  nodes := []
  sorted := .nil
  distinct := .nil

@[ext] theorem ext {g h : ForkGraph} (lib : g.lib = h.lib) (reported : g.libReported = h.libReported)
    (nodes : g.nodes = h.nodes) : g = h := by
  cases g; cases h; simp_all

/-- The number of the LIB, `0` before there is one. -/
def libNum (g : ForkGraph) : BlockNum :=
  match g.lib with
  | some lib => lib.num
  | none => 0

def libId (g : ForkGraph) : Option BlockId :=
  g.lib.map BlockRef.id

def find? (g : ForkGraph) (id : BlockId) : Option Node :=
  g.nodes.find? fun n => n.id = id

def contains (g : ForkGraph) (id : BlockId) : Bool :=
  (g.find? id).isSome

theorem contains_iff {g : ForkGraph} {id : BlockId} :
    g.contains id = true ↔ id ∈ g.nodes.map Node.id := by
  simp [contains, find?]

/-- Whether a block with this parent id hangs on something known: a stored block or the LIB. -/
def knows (g : ForkGraph) (id : BlockId) : Bool :=
  g.contains id || g.libId = some id

/-- The stored blocks with their parents, ascending. -/
def links (g : ForkGraph) : List Link :=
  g.nodes.map Node.toLink

def size (g : ForkGraph) : Nat :=
  g.nodes.length

/-- Store a node. The first node with an id stays: linking the id again changes nothing. -/
def link (g : ForkGraph) (n : Node) : ForkGraph :=
  if h : g.contains n.id then g
  else
    { g with
      nodes := Node.insertSorted n g.nodes
      sorted := Node.insertSorted_pairwise g.sorted (fun hn => h (contains_iff.2 hn))
      distinct := by
        have new : n.id ∉ g.nodes.map Node.id := fun hn => h (contains_iff.2 hn)
        exact (((Node.insertSorted_perm n g.nodes).map Node.id).nodup_iff).2
          (List.nodup_cons.2 ⟨new, g.distinct⟩) }

/-- The graph with the fired mark of the block `id` set to `fired`. -/
def mark (g : ForkGraph) (id : BlockId) (fired : Bool) : ForkGraph where
  lib := g.lib
  libReported := g.libReported
  nodes := g.nodes.map fun n => if n.id = id then { n with fired := fired } else n
  sorted := List.pairwise_map.2 <| g.sorted.imp fun {m n} h => by
    have same : ∀ k : Node, (if k.id = id then { k with fired := fired } else k : Node).toLink = k.toLink := by
      intro k; split <;> rfl
    unfold Node.Before Node.num Node.id at *
    rwa [same m, same n]
  distinct := by
    rw [List.map_map]
    have same : (Node.id ∘ fun n : Node => if n.id = id then { n with fired := fired } else n) = Node.id := by
      funext n
      simp only [Function.comp]
      split <;> rfl
    rw [same]
    exact g.distinct

/-- The graph with only the nodes that pass the test. -/
def keep (g : ForkGraph) (test : Node → Bool) : ForkGraph where
  lib := g.lib
  libReported := g.libReported
  nodes := g.nodes.filter test
  sorted := g.sorted.filter test
  distinct := g.distinct.sublist (List.filter_sublist.map Node.id)

end ForkGraph

end ChainFeed
