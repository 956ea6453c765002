import ChainFeed.Checkpoint.Store
import ChainFeed.Feed.Firing

/-! # Runs

A run is followed from one iteration to the next. It begins from a checkpoint, or by fetching the start
block and taking it as the LIB. Each iteration processes one block: it is linked, the path to the
cursor's head is sought, and if that reaches the LIB its blocks are fired, the LIB advances, what is
below it is purged, and a checkpoint is saved. If it does not, the missing ancestor is fetched next.
-/

set_option autoImplicit false

namespace ChainFeed

/-- What surrounds a run. Whether a stop was asked for, and how the device treats a save, may depend on
everything the run did before. -/
structure Feed (τ : Type) where
  config : Config
  sink : Sink τ
  stopped : Journal → Bool
  device : Journal → Device

/-- `next` is the number to fetch next, unless a block is still `pending`. -/
structure Run (τ : Type) where
  graph : ForkGraph
  cursor : Cursor
  next : BlockNum
  pending : Option Block
  source : Source
  sinkState : τ
  disk : Disk
  journal : Journal
  ending : Option Ending

namespace Run

variable {τ : Type}

def record (r : Run τ) (entries : List Entry) : Run τ :=
  { r with journal := r.journal.record entries }

def close (r : Run τ) (ending : Ending) : Run τ :=
  { r with ending := some ending }

/-- What to do next, unless the run has ended. -/
def andThen (r : Run τ) (go : Run τ → Run τ) : Run τ :=
  match r.ending with
  | none => go r
  | some _ => r

/-- Link `b` and bring the cursor up to date. -/
def link (r : Run τ) (b : Block) : Run τ :=
  let seen := r.graph.contains b.id
  let seenParent := r.graph.knows b.parentId
  let cursor := r.cursor.add b seenParent
  { r with graph := r.graph.link (.fresh b), cursor := cursor }.record
    [.note (.blockAdded b.ref seen seenParent (r.cursor.fillsGap b) cursor.state)]

/-- Begin right after the last block fired before the checkpoint. -/
def resume (r : Run τ) (c : Checkpoint) : Run τ :=
  match c.rebuild with
  | .error e => r.close (.failed (.invariant e))
  | .ok graph =>
    let r := { r with graph := graph }.record [
      .note (.libInitialized c.lib.ref),
      .note (.loaded c.lastFired.ref c.lib.ref c.blocks.length),
      .event (.loaded c.lib.ref c.lastFired.ref c.blocks.length)]
    match c.lastFired.num.next? with
    | none => r.close .overflow
    | some next => { r with next := next }

end Run

namespace Feed

variable {τ : Type} (f : Feed τ)

/-- Fetch the block `num`. Without one, the run has ended. -/
def fetch (num : BlockNum) (r : Run τ) : Run τ × Option Block :=
  let got := r.source.fetchRetrying num f.config.retries
  let r := { r with source := got.next }.record got.entries
  match got.fetched with
  | .block b => (r.record [.event (.fetched b.ref b.parentRef)], some b)
  | .exhausted failure => (r.close (.failed (.fetch num failure)), none)
  | .crashed reason => (r.close (.crashed reason), none)

/-- Begin with the block numbered `num` as the LIB. -/
def coldStart (num : BlockNum) (r : Run τ) : Run τ :=
  match f.fetch num r with
  | (r, none) => r
  | (r, some b) =>
    match r.graph.initLib b.ref with
    | .error e => r.close (.failed (.invariant e))
    | .ok graph =>
      { r with graph := graph, next := num, pending := some b }.record [.note (.libInitialized b.ref)]

/-- Resume if there is a checkpoint to resume from. -/
def prepare (r : Run τ) : Run τ :=
  let num := f.config.resolvedStart
  match f.config.stateDir with
  | none => f.coldStart num r
  | some dir =>
    match Checkpoint.load r.disk dir with
    | .ok c => r.resume c
    | .error e => f.coldStart num (r.record [.note (.loadFailed num e)])

/-- A new run over a source, a sink's state and a disk. -/
def begin (source : Source) (sinkState : τ) (disk : Disk) : Run τ :=
  let opened := f.sink.opening sinkState
  let r : Run τ := {
    graph := .empty
    cursor := .start
    next := 0
    pending := none
    source := source
    sinkState := opened.2
    disk := disk
    journal := Journal.empty.record [.opened opened.1]
    ending := none }
  match opened.1 with
  | .refused refusal => r.close (.failed (.opening refusal))
  | .crashed reason => r.close (.crashed reason)
  | .accepted =>
    f.prepare (r.record [.note (.starting f.config.start f.config.finalized f.config.resolvedStart)])

/-- Save a checkpoint of the path that ends with `last`, if the run keeps any. -/
def save (last : Link) (r : Run τ) : Run τ :=
  match f.config.stateDir with
  | none => r
  | some dir =>
    match Checkpoint.snapshot r.graph last with
    | .error e => r.close (.failed (.checkpoint e))
    | .ok c =>
      let saving := c.save (f.device r.journal) r.disk dir
      let r := { r with disk := saving.disk }
      match saving.outcome with
      | .error e => r.close (.failed (.checkpoint e))
      | .ok path => r.record [
          .stored c,
          .note (.saved path last.block c.lib.ref c.blocks.length),
          .event (.saved c.lib.ref last.block c.blocks.length)]

/-- Advance the LIB after `b` completed a path, and purge what is below it. -/
def settle (b : Block) (r : Run τ) : Run τ :=
  let num := f.config.libAfter b r.graph.libNum
  let r := r.record [.note (.settingLib b.ref num)]
  match r.graph.advanceLib b.ref num with
  | .error e => r.close (.failed (.invariant e))
  | .ok (graph, move) =>
    let notes := (move.note? b.ref num).toList.map .note
    let moved := move.newLib?.toList.map fun lib => .event (.libSet lib)
    let purged := if graph.belowLib.isEmpty then [] else [.event (.purged graph.belowLib)]
    { r with graph := graph.purge }.record (notes ++ moved ++ purged)

/-- Fire the path to the cursor's head, which reached the LIB with block `b`. -/
def connect (b : Block) (path : List Link) (r : Run τ) : Run τ :=
  let fired := fireLinks f.sink f.config.start path r.graph r.sinkState
  let r := { r with
    cursor := r.cursor.connected
    graph := fired.graph
    sinkState := fired.sinkState }.record fired.entries
  match fired.ending with
  | some ending => r.close ending
  | none => f.settle b r

/-- Wait for the next iteration, if the source wants that, and end if a stop is asked for meanwhile. -/
def wait (r : Run τ) : Run τ :=
  if r.source.interval ≠ 0 && f.stopped r.journal then
    (r.record [.note (.stoppedWaiting r.next)]).close .finished
  else r

/-- Go on after the path that ends with `last`, unless the stop block is final. -/
def goOn (last : Link) (r : Run τ) : Run τ :=
  match last.num.next? with
  | none => r.close .overflow
  | some next =>
    let r := { r with next := next }
    match f.config.stopBlock with
    | none => f.wait r
    | some stop =>
      if stop < next then (r.record [.note (.stopBlockFinal stop)]).close .finished
      else f.wait r

/-- Process one block. -/
def process (b : Block) (r : Run τ) : Run τ :=
  let r := r.link b
  match r.cursor.head with
  | none => r.close (.failed (.invariant (.blockMissing b.id)))
  | some target =>
    let path := r.graph.segmentTo target
    let r := r.record ((path.note? target).toList.map .note ++ [
      .note (.segmentChecked target path.length path.reachesLib),
      .event (.segmentChecked target path.length path.reachesLib)])
    match path.nodes.head?, path.nodes.getLast? with
    | some first, some last =>
      if path.reachesLib then
        ((f.connect b path.links r).andThen (f.save last.toLink)).andThen (f.goOn last.toLink)
      else
        f.wait { r with cursor := r.cursor.awaiting first.parent, next := first.parent.num }
    | _, _ => r.close (.failed (.invariant (.blockMissing target.id)))

/-- One iteration. A run that has ended stays as it is. -/
def step (r : Run τ) : Run τ :=
  match r.ending with
  | some _ => r
  | none =>
    if f.stopped r.journal then (r.record [.note (.stopRequested r.next)]).close .finished
    else
      match checkAboveLib r.next r.graph.libNum with
      | .error e => r.close (.failed (.invariant e))
      | .ok () =>
        match r.pending with
        | some b => f.process b { r with pending := none }
        | none =>
          match f.fetch r.next r with
          | (r, none) => r
          | (r, some b) => f.process b r

/-- The run after `n` iterations. -/
def after : Nat → Run τ → Run τ
  | 0, r => r
  | n + 1, r => f.step (after n r)

/-- The run when it ends, or after `n` iterations if it does not end before. -/
def untilEnd : Nat → Run τ → Run τ
  | 0, r => r
  | n + 1, r =>
    match r.ending with
    | some _ => r
    | none => untilEnd n (f.step r)

/-- The run over a source that answers so many requests only. Every block that is processed spends a
request, so the run is over after one iteration more. -/
def runLimited (requests : Nat) (source : Source) (sinkState : τ) (disk : Disk) : Run τ :=
  f.untilEnd (requests + 1) (f.begin (.limited requests source) sinkState disk)

end Feed

end ChainFeed
