/-! # Blocks and references to them

A block is known by its id. Its number is the height the source gives it, and the parent id and
parent number are what the source declares; nothing ties a block's number to its parent's.
-/

set_option autoImplicit false

namespace ChainFeed

/-- The height of a block. Heights fill the whole 64-bit range. -/
abbrev BlockNum := UInt64

/-- The highest number a block can have. -/
def BlockNum.highest : BlockNum := 18446744073709551615

/-- The number after `n`; the highest number has none. -/
def BlockNum.next? (n : BlockNum) : Option BlockNum :=
  if n = BlockNum.highest then none else some (n + 1)

/-- The number `k` below `n`, and `0` if there is no such number. -/
def BlockNum.back (n k : BlockNum) : BlockNum :=
  if k ≤ n then n - k else 0

/-- Identity of a block, chosen by the source and never interpreted. -/
abbrev BlockId := String

/-- A block's id together with its number. -/
structure BlockRef where
  id : BlockId
  num : BlockNum
  deriving DecidableEq, Repr

def BlockRef.text (r : BlockRef) : String :=
  s!"#{r.num} ({r.id})"

/-- A block and its declared parent. -/
structure Link where
  block : BlockRef
  parent : BlockRef
  deriving DecidableEq, Repr

namespace Link

def id (l : Link) : BlockId := l.block.id

def num (l : Link) : BlockNum := l.block.num

end Link

/-- Encoded content of a block, with the URL that names its encoding. -/
structure Payload where
  typeUrl : String
  value : List UInt8
  deriving DecidableEq, Repr

/-- A block as the source described it when it was asked.

`libNum` is the number of the last irreversible block the source reported with it, and `timestamp`
counts nanoseconds. -/
structure Block where
  id : BlockId
  num : BlockNum
  parentId : BlockId
  parentNum : BlockNum
  libNum : BlockNum
  timestamp : UInt64
  payload : Payload
  deriving DecidableEq, Repr

namespace Block

def ref (b : Block) : BlockRef := ⟨b.id, b.num⟩

def parentRef (b : Block) : BlockRef := ⟨b.parentId, b.parentNum⟩

def link (b : Block) : Link := ⟨b.ref, b.parentRef⟩

end Block

end ChainFeed
