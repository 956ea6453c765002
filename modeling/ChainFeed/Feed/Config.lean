import ChainFeed.Checkpoint.Basic
import ChainFeed.Sink.Basic
import ChainFeed.Source.Retry

/-! # What a run is asked to do, and how it may end

The numbers in a configuration bound what is delivered: nothing below the start, and nothing more once
the stop block is final.
-/

set_option autoImplicit false

namespace ChainFeed

/-- `retryDelay` is in milliseconds. With `forceFinality` a block counts as final once it is that many
blocks deep, whatever the source reports. -/
structure Config where
  start : BlockNum
  finalized : Option BlockNum := none
  stopBlock : Option BlockNum := none
  retries : UInt32 := 4
  retryDelay : Nat := 1000
  forceFinality : Option BlockNum := none
  stateDir : Option Path := none
  logEvents : Bool := false
  deriving DecidableEq, Repr

/-- The first block to ask for is never ahead of what the source has finalized. -/
def resolveStart (start finalized : BlockNum) : BlockNum :=
  min start finalized

namespace Config

def resolvedStart (c : Config) : BlockNum :=
  resolveStart c.start (c.finalized.getD c.start)

/-- The LIB number to set after `b` completed a path, over a LIB numbered `lib`. A report above `b`
means that `b` itself is final. -/
def libAfter (c : Config) (b : Block) (lib : BlockNum) : BlockNum :=
  let reported := min b.libNum b.num
  match c.forceFinality with
  | none => reported
  | some depth => max (max reported (b.num.back depth)) lib

end Config

inductive RunError where
  | fetch (num : BlockNum) (failure : FetchFailure)
  | opening (refusal : Refusal)
  | delivery (block : BlockRef) (refusal : Refusal)
  | invariant (error : ForkError)
  | checkpoint (error : CheckpointError)
  deriving Repr

def RunError.message : RunError → String
  | fetch num failure =>
    s!"unable to fetch block #{num} after {failure.attempts} attempts: {failure.error.message}"
  | opening refusal => s!"unable to initialize block handler: {refusal.message}"
  | delivery block refusal => s!"firing block {block.text}: {refusal.message}"
  | invariant error => s!"invariant violation: {error.message}"
  | checkpoint error => error.message

inductive Ending where
  | finished
  | failed (error : RunError)
  | crashed (reason : String)
  deriving Repr

/-- There is no block number after the highest one. -/
def Ending.overflow : Ending := .crashed "attempt to add with overflow"

end ChainFeed
