import ChainFeed.Block

/-! # Events

What a run tells its observers, each time after the fact.
-/

set_option autoImplicit false

namespace ChainFeed

/-- How much a log line matters. -/
inductive Level where
  | debug
  | info
  | warn
  deriving DecidableEq, Repr

inductive Event where
  | fetched (block parent : BlockRef)
  | segmentChecked (target : BlockRef) (length : Nat) (reachedLib : Bool)
  | fired (block : BlockRef)
  | libSet (lib : BlockRef)
  | purged (blocks : List BlockRef)
  | saved (lib lastFired : BlockRef) (blockCount : Nat)
  | loaded (lib lastFired : BlockRef) (blockCount : Nat)
  deriving DecidableEq, Repr

inductive EventKind where
  | fetched
  | segmentChecked
  | fired
  | libSet
  | purged
  | saved
  | loaded
  deriving DecidableEq, Repr

namespace EventKind

def all : List EventKind :=
  [fetched, segmentChecked, fired, libSet, purged, saved, loaded]

def name : EventKind → String
  | fetched => "FetchBlock"
  | segmentChecked => "CheckSegment"
  | fired => "FireBlock"
  | libSet => "SetLib"
  | purged => "PurgeBlocks"
  | saved => "SaveState"
  | loaded => "LoadState"

end EventKind

namespace Event

def kind : Event → EventKind
  | fetched .. => .fetched
  | segmentChecked .. => .segmentChecked
  | fired .. => .fired
  | libSet .. => .libSet
  | purged .. => .purged
  | saved .. => .saved
  | loaded .. => .loaded

/-- The steps of the inner loop are logged less loudly. -/
def level : Event → Level
  | fetched .. => .debug
  | segmentChecked .. => .debug
  | _ => .info

/-- What the event's log line says after its name and time. -/
def columns : Event → List String
  | fetched block parent => [toString block.num, block.id, toString parent.num, parent.id]
  | segmentChecked target length reached =>
    [toString target.num, target.id, toString length, toString reached]
  | fired block => [toString block.num, block.id]
  | libSet lib => [toString lib.num, lib.id]
  | purged blocks =>
    [toString blocks.length, (blocks.getLast?.map fun b => toString b.num).getD ""]
  | saved lib lastFired count => [toString lib.num, toString lastFired.num, toString count]
  | loaded lib lastFired count => [toString lib.num, toString lastFired.num, toString count]

/-- The event's log line; `time` is its time as text. -/
def line (time : String) (e : Event) : String :=
  ", ".intercalate (e.kind.name :: time :: e.columns)

end Event

end ChainFeed
