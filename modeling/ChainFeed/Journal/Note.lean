import ChainFeed.Checkpoint.Basic
import ChainFeed.Cursor
import ChainFeed.Journal.Event
import ChainFeed.Source.Basic

/-! # Notes

The log lines of a run. A note keeps what it reports; its text is derived.
-/

set_option autoImplicit false

namespace ChainFeed

inductive Note where
  | starting (start : BlockNum) (finalized : Option BlockNum) (resolved : BlockNum)
  | loaded (lastFired lib : BlockRef) (blockCount : Nat)
  | loadFailed (resolved : BlockNum) (error : CheckpointError)
  | libInitialized (lib : BlockRef)
  | clientFailed (failure : ClientFailure)
  | attemptFailed (num : BlockNum) (attempt attempts : Nat) (error : FetchError)
  | blockAdded (block : BlockRef) (seen seenParent fillsGap : Bool) (state : SegmentState)
  | cycle (target : BlockRef)
  | segmentChecked (target : BlockRef) (length : Nat) (reachedLib : Bool)
  | settingLib (block : BlockRef) (num : BlockNum)
  | libKept (num : BlockNum) (lib : BlockRef)
  | libMoved (old new : BlockRef)
  | libNotFound (num : BlockNum) (head lib : BlockRef)
  | saved (path : Path) (lastFired lib : BlockRef) (blockCount : Nat)
  | stopRequested (next : BlockNum)
  | stoppedWaiting (next : BlockNum)
  | stopBlockFinal (num : BlockNum)
  deriving Repr

namespace Note

def level : Note → Level
  | starting .. => .info
  | loaded .. => .info
  | loadFailed .. => .warn
  | cycle .. => .warn
  | libNotFound .. => .warn
  | saved .. => .info
  | stopRequested .. => .info
  | stoppedWaiting .. => .info
  | stopBlockFinal .. => .info
  | _ => .debug

def optionalNum : Option BlockNum → String
  | none => "None"
  | some n => s!"Some({n})"

def text : Note → String
  | starting start finalized resolved =>
    s!"starting poller, start block #{start}, finalized block {optionalNum finalized}, resolved start block #{resolved}"
  | loaded lastFired lib count =>
    s!"loaded cursor, last fired block {lastFired.text}, lib {lib.text}, {count} blocks"
  | loadFailed resolved error =>
    s!"unable to load cursor file, initializing a new fork db at #{resolved}: {error.message}"
  | libInitialized lib => s!"initializing fork db lib at {lib.text}"
  | clientFailed f => s!"client {f.index} failed to fetch block #{f.num}: {f.error.message}"
  | attemptFailed num attempt attempts error =>
    s!"fetching block #{num} failed (attempt {attempt}/{attempts}): {error.message}"
  | blockAdded block seen seenParent fillsGap state =>
    s!"cursor added block {block.text} (seen: {seen}, parent seen: {seenParent}, fills gap: {fillsGap}), state {state.text}"
  | cycle target => s!"cycle detected in fork db while walking back from {target.text}"
  | segmentChecked target length reached =>
    s!"checked if block {target.text} is a complete segment: {length} blocks, reached lib: {reached}"
  | settingLib block num => s!"setting lib from block {block.text} to #{num}"
  | libKept num lib => s!"source lib #{num} is below the starting lib {lib.text}, keeping it"
  | libMoved old new => s!"moving lib from {old.text} to {new.text}"
  | libNotFound num head lib =>
    s!"unable to find block #{num} in the chain of {head.text}, not moving lib from {lib.text}"
  | saved path lastFired lib count =>
    s!"saved cursor {Text.quoted path.text}, last fired block {lastFired.text}, lib {lib.text}, {count} blocks"
  | stopRequested next => s!"stop requested, next block would have been #{next}"
  | stoppedWaiting next => s!"stop requested while waiting to fetch block #{next}"
  | stopBlockFinal num => s!"stop block #{num} is final, stopping"

end Note

/-- The note of a walk to `target`, if it went round in a circle. -/
def Segment.note? (s : Segment) (target : BlockRef) : Option Note :=
  if s.stop = .atCycle then some (.cycle target) else none

/-- The note of a reported LIB number `num`, seen from `head`. -/
def LibMove.note? (head : BlockRef) (num : BlockNum) : LibMove → Option Note
  | belowStart current => some (.libKept num current)
  | confirmed => none
  | moved old new => some (.libMoved old new)
  | notFound current => some (.libNotFound num head current)

end ChainFeed
