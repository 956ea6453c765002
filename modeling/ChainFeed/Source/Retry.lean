import ChainFeed.Journal.Basic

/-! # Asking again

A request that fails is repeated a bounded number of times. The delay between attempts is not part of
what is observed.
-/

set_option autoImplicit false

namespace ChainFeed

/-- A source that failed every time: the attempts made and the last error. -/
structure FetchFailure where
  attempts : Nat
  error : FetchError
  deriving Repr

inductive Fetched where
  | block (b : Block)
  | exhausted (failure : FetchFailure)
  | crashed (reason : String)
  deriving Repr

/-- What came of a request, what was written to the journal, and the source afterwards. -/
structure Retried where
  fetched : Fetched
  entries : List Entry
  next : Source

namespace Source

/-- Ask once. -/
def ask (s : Source) (num : BlockNum) : Entry × Answer × Source :=
  let reply := s.fetch num
  (.asked num reply.passed reply.answer, reply.answer, reply.next)

/-- Ask as attempt number `attempt`, and up to `left` times more. -/
def askFrom (num : BlockNum) (attempt : Nat) : Nat → Source → Retried
  | left, s =>
    match s.ask num with
    | (entry, .block b, s) => ⟨.block b, [entry], s⟩
    | (entry, .crashed reason, s) => ⟨.crashed reason, [entry], s⟩
    | (entry, .failed e, s) =>
      match left with
      | 0 => ⟨.exhausted ⟨attempt, e⟩, [entry], s⟩
      | left + 1 =>
        let more := askFrom num (attempt + 1) left s
        ⟨more.fetched, entry :: .note (.attemptFailed num attempt (attempt + left + 1) e) :: more.entries,
          more.next⟩

/-- Ask up to `count` times, and once at least. -/
def fetchRetrying (s : Source) (num : BlockNum) (count : UInt32) : Retried :=
  askFrom num 1 (count.toNat - 1) s

end Source

end ChainFeed
