import ChainFeed.Service.Dispatch

/-! # The service

A run in the background, with a dispatcher that passes its events on. Joining, stopping or dropping the
service waits for both, so by then every event was dispatched.
-/

set_option autoImplicit false

namespace ChainFeed

/-- What a background run comes to. It is lost if it crashed. -/
inductive Outcome where
  | finished
  | failed (error : RunError)
  | lost
  deriving Repr

namespace Outcome

def ofEnding : Ending → Outcome
  | .finished => finished
  | .failed error => failed error
  | .crashed _ => lost

def lostMessage : String := "poller driver thread panicked"

end Outcome

structure Service (τ : Type) where
  feed : Feed τ
  subscriptions : Subscriptions

/-- What a service leaves: its run, and the reactions to the run's events. -/
structure Report (τ : Type) where
  run : Run τ
  reactions : List Reaction

namespace Service

variable {τ : Type} (s : Service τ)

/-- The report of a run over a source that answers so many requests only. -/
def report (requests : Nat) (source : Source) (sinkState : τ) (disk : Disk) : Report τ :=
  let run := s.feed.runLimited requests source sinkState disk
  ⟨run, s.subscriptions.dispatch run.journal.events⟩

/-- The service of an owner that waits for the first block to be handed over, and asks the service to stop then. -/
def stoppedAtDelivery : Service τ :=
  { s with feed := { s.feed with stopped := fun j => !j.handed.isEmpty } }

/-- Whether an owner that waits for the first block only finds the run over, before it asks for a stop. -/
def finishedAtOnce (requests : Nat) (source : Source) (sinkState : τ) (disk : Disk) : Bool :=
  let feed := { s.feed with stopped := fun _ => false }
  (feed.step (feed.begin (.limited requests source) sinkState disk)).ending.isSome

end Service

end ChainFeed
