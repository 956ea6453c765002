import ChainFeed.Feed.Run

/-! # Dispatching events

Events reach their observers in the order of publication. For each event the default logger, if it is
on, comes before the handler registered for that kind of event.
-/

set_option autoImplicit false

namespace ChainFeed

structure Subscriptions where
  logging : Bool
  kinds : List EventKind
  deriving DecidableEq, Repr

inductive Reaction where
  | logged (e : Event)
  | handled (e : Event)
  deriving DecidableEq, Repr

namespace Subscriptions

/-- Whether nobody observes anything. Then events are not published at all. -/
def isEmpty (s : Subscriptions) : Bool :=
  !s.logging && s.kinds.isEmpty

def reactions (s : Subscriptions) (e : Event) : List Reaction :=
  (if s.logging then [.logged e] else []) ++ (if s.kinds.contains e.kind then [.handled e] else [])

def dispatch (s : Subscriptions) (events : List Event) : List Reaction :=
  events.flatMap s.reactions

end Subscriptions

end ChainFeed
