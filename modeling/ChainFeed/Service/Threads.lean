import ChainFeed.Service.Basic

/-! # The threads of a service

The worker publishes events to a queue until it returns or crashes. The dispatcher takes events from the
queue, and looks for a request to shut down before each time it waits for one; it calls the observers of an
event one after the other. Whoever lets go of the service joins the worker first, then requests the shutdown,
then joins the dispatcher. A service that nobody observes has neither queue nor dispatcher. `Step` is any move
one of the three can make.
-/

set_option autoImplicit false

namespace ChainFeed

/-- Where the worker stands: running, leaving with its end of the queue closed, or ended. -/
inductive WorkerPhase where
  | running
  | leaving (outcome : Outcome)
  | ended (outcome : Outcome)

/-- Where the dispatcher stands: before it looks for a shutdown request, waiting for an event, emptying the
queue after a request, calling the observers of an event, or ended. -/
inductive DispatcherPhase where
  | looking
  | waiting
  | draining
  /-- `left` are the calls still to be made, and `asked` tells whether a shutdown request was seen. -/
  | calling (left : List Reaction) (asked : Bool)
  | ended
  deriving DecidableEq, Repr

/-- The ways to let go of a service. -/
inductive Release where
  | join
  | stop
  | drop
  deriving DecidableEq, Repr

/-- One thing that whoever lets go of a service does. -/
inductive OwnerMove where
  | askStop
  | joinWorker
  | requestShutdown
  | joinDispatcher
  deriving DecidableEq, Repr

namespace OwnerMove

/-- Waiting for both threads. -/
def waitingFor (s : Subscriptions) : List OwnerMove :=
  .joinWorker :: if s.isEmpty then [] else [.requestShutdown, .joinDispatcher]

/-- Dropping a service that was waited for before: the requests are sent again, and no thread is left to join. -/
def droppingAgain (s : Subscriptions) : List OwnerMove :=
  .askStop :: if s.isEmpty then [] else [.requestShutdown]

end OwnerMove

/-- What is done to let go of a service. One that was joined or stopped is dropped afterwards. -/
def Release.moves (s : Subscriptions) : Release → List OwnerMove
  | join => OwnerMove.waitingFor s ++ OwnerMove.droppingAgain s
  | stop => .askStop :: OwnerMove.waitingFor s ++ OwnerMove.droppingAgain s
  | drop => .askStop :: OwnerMove.waitingFor s

/-- Where whoever owns the service stands: holding it, or letting go of it with these moves left. -/
inductive OwnerPhase where
  | holding
  | releasing (left : List OwnerMove)
  deriving DecidableEq, Repr

/-- `published` are all events so far, `queue` those that the dispatcher has not taken, and `result` is what
joining the worker brought. -/
structure Threads where
  worker : WorkerPhase
  published : List Event
  queue : List Event
  stopAsked : Bool
  shutdown : Bool
  dispatcher : DispatcherPhase
  owner : OwnerPhase
  result : Option Outcome
  reactions : List Reaction

namespace Threads

/-- The owner has let go of the service. -/
def Released (t : Threads) : Prop :=
  t.owner = .releasing []

def start (s : Subscriptions) : Threads where
  worker := .running
  published := []
  queue := []
  stopAsked := false
  shutdown := false
  dispatcher := if s.isEmpty then .ended else .looking
  owner := .holding
  result := none
  reactions := []

/-- What the worker publishes and when it ends is left open, whether it was asked to stop or not, so that these
are the moves of every run. A wait for an event may time out at any moment. -/
inductive Step (s : Subscriptions) : Threads → Threads → Prop where
  | publish {t : Threads} {e : Event} (running : t.worker = .running) :
      Step s t { t with
        published := t.published ++ [e]
        queue := if s.isEmpty then t.queue else t.queue ++ [e] }
  /-- The worker returns or crashes, and its end of the queue is closed on the way out. -/
  | leave {t : Threads} {outcome : Outcome} (running : t.worker = .running) :
      Step s t { t with worker := .leaving outcome }
  | workerEnds {t : Threads} {outcome : Outcome} (leaving : t.worker = .leaving outcome) :
      Step s t { t with worker := .ended outcome }
  | seesShutdown {t : Threads} (looking : t.dispatcher = .looking) (asked : t.shutdown = true) :
      Step s t { t with dispatcher := .draining }
  | seesNothing {t : Threads} (looking : t.dispatcher = .looking) (quiet : t.shutdown = false) :
      Step s t { t with dispatcher := .waiting }
  | receive {t : Threads} {e : Event} {rest : List Event} (waiting : t.dispatcher = .waiting)
      (front : t.queue = e :: rest) :
      Step s t { t with queue := rest, dispatcher := .calling (s.reactions e) false }
  | timeout {t : Threads} (waiting : t.dispatcher = .waiting) :
      Step s t { t with dispatcher := .looking }
  | hangup {t : Threads} (waiting : t.dispatcher = .waiting) (idle : t.queue = [])
      (gone : t.worker ≠ .running) :
      Step s t { t with dispatcher := .ended }
  | drain {t : Threads} {e : Event} {rest : List Event} (draining : t.dispatcher = .draining)
      (front : t.queue = e :: rest) :
      Step s t { t with queue := rest, dispatcher := .calling (s.reactions e) true }
  | drained {t : Threads} (draining : t.dispatcher = .draining) (idle : t.queue = []) :
      Step s t { t with dispatcher := .ended }
  | call {t : Threads} {r : Reaction} {left : List Reaction} {asked : Bool}
      (calling : t.dispatcher = .calling (r :: left) asked) :
      Step s t { t with dispatcher := .calling left asked, reactions := t.reactions ++ [r] }
  | called {t : Threads} {asked : Bool} (calling : t.dispatcher = .calling [] asked) :
      Step s t { t with dispatcher := if asked then .draining else .looking }
  | release {t : Threads} (way : Release) (holding : t.owner = .holding) :
      Step s t { t with owner := .releasing (way.moves s) }
  | askStop {t : Threads} {left : List OwnerMove} (next : t.owner = .releasing (.askStop :: left)) :
      Step s t { t with stopAsked := true, owner := .releasing left }
  | joinWorker {t : Threads} {left : List OwnerMove} {outcome : Outcome}
      (next : t.owner = .releasing (.joinWorker :: left)) (gone : t.worker = .ended outcome) :
      Step s t { t with result := some outcome, owner := .releasing left }
  | requestShutdown {t : Threads} {left : List OwnerMove}
      (next : t.owner = .releasing (.requestShutdown :: left)) :
      Step s t { t with shutdown := true, owner := .releasing left }
  | joinDispatcher {t : Threads} {left : List OwnerMove}
      (next : t.owner = .releasing (.joinDispatcher :: left)) (gone : t.dispatcher = .ended) :
      Step s t { t with owner := .releasing left }

/-- States that some interleaving of moves leads to. -/
inductive Reachable (s : Subscriptions) : Threads → Prop where
  | start : Reachable s (start s)
  | step {t u : Threads} (before : Reachable s t) (move : Step s t u) : Reachable s u

end Threads

end ChainFeed
