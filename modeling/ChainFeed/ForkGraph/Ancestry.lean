import ChainFeed.ForkGraph.Basic

/-! # Walking back through parents

Every question about ancestry is asked of the lineage of an id: the stored nodes met by following
parents, newest first. A walk uses a node once, so it ends at the first parent that is not stored or
that was met before.
-/

set_option autoImplicit false

namespace ChainFeed

/-- The walk from `id` through `nodes`, of at most `steps` nodes. A node that was met is taken out, so
`nodes.length` steps are always enough. -/
def Node.walkBack : Nat → List Node → BlockId → List Node
  | 0, _, _ => []
  | steps + 1, nodes, id =>
    match nodes.find? fun n => n.id = id with
    | none => []
    | some n => n :: Node.walkBack steps (nodes.eraseP fun m => m.id = id) n.parent.id

/-- Why a walk towards the LIB stopped: at the LIB, at a parent that is not stored, or at a block it
had met before. -/
inductive WalkEnd where
  | atLib
  | atGap
  | atCycle
  deriving DecidableEq, Repr

/-- A path of stored blocks, oldest first, with the reason it does not go further back. -/
structure Segment where
  nodes : List Node
  stop : WalkEnd
  deriving DecidableEq, Repr

namespace Segment

def reachesLib (s : Segment) : Bool := s.stop = .atLib

def length (s : Segment) : Nat := s.nodes.length

def links (s : Segment) : List Link := s.nodes.map Node.toLink

end Segment

namespace ForkGraph

/-- The stored nodes from `id` back through parents, newest first. Parents are mostly numbered lower,
so the nodes are searched downward. -/
def lineage (g : ForkGraph) (id : BlockId) : List Node :=
  Node.walkBack g.nodes.length g.nodes.reverse id

/-- The first id that the walk from `id` does not pass: the parent of its oldest node. -/
def walkTarget (nodes : List Node) (id : BlockId) : BlockId :=
  match nodes.getLast? with
  | some oldest => oldest.parent.id
  | none => id

/-- The nodes up to and including the first one with the given id. -/
def cutAfter (id : BlockId) : List Node → List Node
  | [] => []
  | n :: rest => if n.id = id then [n] else n :: cutAfter id rest

/-- The path from the LIB to `target`: it starts at the LIB if that is stored and at its child
otherwise. Where the walk does not reach the LIB, the path is what it collected until it stopped. -/
def segmentTo (g : ForkGraph) (target : BlockRef) : Segment :=
  match g.libId with
  | none => ⟨[], .atGap⟩
  | some lib =>
    let nodes := g.lineage target.id
    if nodes.any fun n => n.id = lib then
      ⟨(cutAfter lib nodes).reverse, .atLib⟩
    else
      let next := walkTarget nodes target.id
      let stop := if g.contains next then .atCycle else if next = lib then .atLib else .atGap
      ⟨nodes.reverse, stop⟩

/-- The stored blocks above the LIB number on the way back from `head`, oldest first. They need not
hang on the LIB. -/
def reversiblePath (g : ForkGraph) (head : BlockRef) : List Link :=
  (((g.lineage head.id).takeWhile fun n => g.libNum < n.num).map Node.toLink).reverse

/-- The block numbered `num` on the way back from `head`. Numbers are expected to fall along the way,
so the first node at or below `num` decides. -/
def ancestorAt? (g : ForkGraph) (head : BlockRef) (num : BlockNum) : Option BlockRef :=
  match (g.lineage head.id).find? fun n => n.num ≤ num with
  | some n => if n.num = num then some n.block else none
  | none => none

end ForkGraph

end ChainFeed
