import ChainFeed.Block

/-! # The cursor

The cursor holds the head of the path that is to be linked to the LIB. Normally that is the block
just fetched. While a missing ancestor is awaited, the head stays where it was, so that the whole
branch is fired at once when the gap closes; any other block starts a new head.
-/

set_option autoImplicit false

namespace ChainFeed

/-- Whether the last block went on from the one before it. It is only reported. -/
inductive SegmentState where
  | continuous
  | divergent
  deriving DecidableEq, Repr

def SegmentState.text : SegmentState → String
  | continuous => "continuous"
  | divergent => "divergent"

structure Cursor where
  state : SegmentState
  head : Option BlockRef
  lastAdded : Option BlockRef
  awaited : Option BlockId
  deriving DecidableEq, Repr

namespace Cursor

def start : Cursor where
  state := .continuous
  head := none
  lastAdded := none
  awaited := none

/-- Whether `b` is the ancestor that was found missing. -/
def fillsGap (c : Cursor) (b : Block) : Bool :=
  c.awaited = some b.id

/-- Whether `b` declares the block added before it as its parent. -/
def extendsLast (c : Cursor) (b : Block) : Bool :=
  match c.lastAdded with
  | some last => last.id = b.parentId
  | none => false

/-- The cursor after `b` was linked; `seenParent` tells whether its parent was known then. -/
def add (c : Cursor) (b : Block) (seenParent : Bool) : Cursor where
  state := if seenParent && c.extendsLast b then .continuous else .divergent
  head := if c.fillsGap b then c.head else some b.ref
  lastAdded := some b.ref
  awaited := c.awaited

/-- The path to the head reached the LIB. -/
def connected (c : Cursor) : Cursor :=
  { c with awaited := none, state := .continuous }

/-- The path to the head stopped at `missing`, which is fetched next. -/
def awaiting (c : Cursor) (missing : BlockRef) : Cursor :=
  { c with awaited := some missing.id, state := .divergent }

end Cursor

end ChainFeed
