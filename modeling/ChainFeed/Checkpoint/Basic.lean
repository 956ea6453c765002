import ChainFeed.Disk.Basic
import ChainFeed.ForkGraph.Finality
import ChainFeed.Text.Quoted

/-! # Checkpoints

What a run persists: the LIB, the last block of the path fired just before, and every fired block the
fork graph still holds. Parent numbers and blocks that were never fired are left out.
-/

set_option autoImplicit false

namespace ChainFeed

structure StoredRef where
  id : BlockId
  num : BlockNum
  previousId : BlockId
  deriving DecidableEq, Repr

namespace StoredRef

def ref (s : StoredRef) : BlockRef := ⟨s.id, s.num⟩

def ofLink (l : Link) : StoredRef := ⟨l.block.id, l.block.num, l.parent.id⟩

/-- The node of a stored block. Its parent is taken to be one number lower. -/
def node (s : StoredRef) : Node :=
  .restored s.ref ⟨s.previousId, s.num.back 1⟩

end StoredRef

structure Checkpoint where
  lib : StoredRef
  lastFired : StoredRef
  blocks : List StoredRef
  deriving DecidableEq, Repr

inductive CheckpointError where
  | read (path : Path) (cause : DiskError)
  | decode (path : Path)
  | write (path : Path) (cause : DiskError)
  | noLib
  deriving DecidableEq, Repr

def CheckpointError.message : CheckpointError → String
  | read path cause => s!"unable to read cursor file {Text.quoted path.text}: {cause.message}"
  | decode path => s!"unable to decode cursor file {Text.quoted path.text}: not a cursor document"
  | write path cause => s!"unable to write cursor file {Text.quoted path.text}: {cause.message}"
  | noLib => "fork db has no lib to save"

namespace Checkpoint

/-- The checkpoint of a graph whose path up to `last` was just fired. -/
def snapshot (g : ForkGraph) (last : Link) : Except CheckpointError Checkpoint :=
  match g.lib with
  | none => .error .noLib
  | some lib => .ok {
      lib := ⟨lib.id, lib.num, ""⟩
      lastFired := .ofLink last
      blocks := (g.nodes.filter Node.fired).map fun n => .ofLink n.toLink }

/-- The fork graph of a checkpoint: every block stored in it is a fired one. -/
def restore (c : Checkpoint) : ForkGraph :=
  c.blocks.foldl (fun g s => g.link s.node) { ForkGraph.empty with lib := some c.lib.ref }

/-- Build the fork graph of a checkpoint up from an empty one: first its LIB, then its blocks. -/
def rebuild (c : Checkpoint) : Except ForkError ForkGraph :=
  match ForkGraph.empty.initLib c.lib.ref with
  | .error e => .error e
  | .ok g => .ok (c.blocks.foldl (fun g s => g.link s.node) g)

theorem rebuild_eq (c : Checkpoint) : c.rebuild = .ok c.restore := rfl

end Checkpoint

end ChainFeed
