import ChainFeed.Block

/-! # Sources of blocks

A source answers requests for the block at a number. A client stands for any outside party: its answer
depends on everything it was asked before. Sources combine: one may fall back over several clients, or
stop answering after a number of requests.
-/

set_option autoImplicit false

namespace ChainFeed

inductive FetchError where
  | notFound (num : BlockNum)
  | source (text : String)
  | allFailed (num : BlockNum) (failures : List FetchError)
  deriving Repr

def FetchError.message : FetchError → String
  | notFound num => s!"block #{num} is not available yet"
  | source text => s!"source error: {text}"
  | allFailed num failures => s!"all {failures.length} clients failed to fetch block #{num}"

/-- The answer to one request. A client that crashes takes the run down with it. -/
inductive Answer where
  | block (b : Block)
  | failed (e : FetchError)
  | crashed (reason : String)
  deriving Repr

/-- `answer` is given the numbers asked for before, latest first, and the number in hand. `interval` is
the wait in milliseconds between two iterations. -/
structure Client where
  interval : Nat
  answer : List BlockNum → BlockNum → Answer
  asked : List BlockNum

inductive Source where
  | client (c : Client)
  /-- Asks its clients in order until one answers. -/
  | fallback (clients : List Source)
  /-- Answers so many requests only. -/
  | limited (left : Nat) (inner : Source)

/-- A client of a fallback that failed, by position. -/
structure ClientFailure where
  index : Nat
  num : BlockNum
  error : FetchError
  deriving Repr

/-- An answer, the failures passed over on the way to it, and the source afterwards. -/
structure Reply where
  answer : Answer
  passed : List ClientFailure
  next : Source

/-- The reply of the first client that did not fail, if there is one. -/
structure FirstReply where
  answer : Option Answer
  failures : List FetchError
  passed : List ClientFailure
  next : List Source

namespace Source

def limitReached : FetchError := .source "fetch limit"

mutual

def fetch : Source → BlockNum → Reply
  | client c, num => ⟨c.answer c.asked num, [], client { c with asked := num :: c.asked }⟩
  | fallback clients, num =>
    let first := fetchFirst clients 0 num
    ⟨first.answer.getD (.failed (.allFailed num first.failures)), first.passed, fallback first.next⟩
  | limited 0 inner, _ => ⟨.failed limitReached, [], limited 0 inner⟩
  | limited (left + 1) inner, num =>
    let reply := fetch inner num
    ⟨reply.answer, reply.passed, limited left reply.next⟩

/-- The clients are numbered from `index`. -/
def fetchFirst : List Source → Nat → BlockNum → FirstReply
  | [], _, _ => ⟨none, [], [], []⟩
  | c :: rest, index, num =>
    let reply := fetch c num
    match reply.answer with
    | .failed e =>
      let first := fetchFirst rest (index + 1) num
      ⟨first.answer, e :: first.failures, reply.passed ++ ⟨index, num, e⟩ :: first.passed,
        reply.next :: first.next⟩
    | answer => ⟨some answer, [], reply.passed, reply.next :: rest⟩

end

/-- The wait between two iterations: a fallback has its first client's. -/
def interval : Source → Nat
  | client c => c.interval
  | fallback [] => 0
  | fallback (c :: _) => interval c
  | limited _ inner => interval inner

/-- The source that a limited run leaves to the next run, which has a limit of its own. -/
def unlimited : Source → Source
  | limited _ inner => inner
  | s => s

def clientCount? : Source → Option Nat
  | fallback clients => some clients.length
  | limited _ inner => clientCount? inner
  | client _ => none

end Source

end ChainFeed
