import ChainFeed.Source.Retry
import Mathlib.Data.List.Basic

/-! # The calls behind a request

A request to a fallback is told as calls of its clients, one after the other, each of the client as the calls before
it left it. An attempt calls the clients in their order and stops with the first answer that is not a failure; where
all clients fail the next attempt begins anew with the first. So all that is asked, answered and left behind follows
from how many attempts failed, and from how many clients failed in the last one.
-/

set_option autoImplicit false

namespace ChainFeed

/-- What an answer makes of a request, unless it is a failure. -/
def Answer.fetched? : Answer → Option Fetched
  | block b => some (.block b)
  | crashed reason => some (.crashed reason)
  | failed _ => none

/-- The answer to an attempt. -/
def Entry.attempt? : Entry → Option Answer
  | .asked _ _ answer => some answer
  | _ => none

namespace Source

/-- The calls of clients, each by its position: the answers in order, and the clients afterwards. -/
def callAll (num : BlockNum) : List Nat → List Source → List Answer × List Source
  | [], clients => ([], clients)
  | i :: calls, clients =>
    match clients[i]? with
    | none => callAll num calls clients
    | some c =>
      let others := callAll num calls (clients.set i (c.fetch num).next)
      ((c.fetch num).answer :: others.1, others.2)

/-- The calls of all `count` clients in their order, so many times. -/
def rounds (count times : Nat) : List Nat :=
  (List.replicate times (List.range count)).flatten

/-- A request for `num` of at most `tries` attempts, numbered up to `highest`, over the clients. -/
inductive Sought (num : BlockNum) (tries highest : Nat) (clients : List Source) (r : Retried) : Prop where
  /-- The attempts of `failures` fail, each by one error from every client. In the next one the clients of `errors`
  fail, and the one behind them does not. -/
  | answered (failures : List (List FetchError)) (errors : List FetchError) {answer : Answer} {after : List Source}
      (hTries : failures.length < tries) (hClient : errors.length < clients.length)
      (hFailures : ∀ es ∈ failures, es.length = clients.length)
      (hCalls : callAll num (rounds clients.length failures.length ++ List.range (errors.length + 1)) clients =
        ((failures.flatten ++ errors).map .failed ++ [answer], after))
      (hAttempts : r.entries.filterMap Entry.attempt? =
        failures.map (fun es => .failed (.allFailed num es)) ++ [answer])
      (hFetched : answer.fetched? = some r.fetched) (hNext : r.next = .fallback after)
  /-- All attempts fail, the last one by the errors of `last`. -/
  | exhausted (failures : List (List FetchError)) {last : List FetchError} {after : List Source}
      (hTries : failures.length + 1 = tries) (hFailures : ∀ es ∈ failures ++ [last], es.length = clients.length)
      (hCalls : callAll num (rounds clients.length tries) clients = ((failures.flatten ++ last).map .failed, after))
      (hAttempts : r.entries.filterMap Entry.attempt? =
        (failures ++ [last]).map fun es => .failed (.allFailed num es))
      (hFetched : r.fetched = .exhausted ⟨highest, .allFailed num last⟩) (hNext : r.next = .fallback after)

variable {num : BlockNum} {clients : List Source}

/-! ## Calls one after the other -/

theorem callAll_append (calls more : List Nat) (clients : List Source) :
    callAll num (calls ++ more) clients =
      ((callAll num calls clients).1 ++ (callAll num more (callAll num calls clients).2).1,
        (callAll num more (callAll num calls clients).2).2) := by
  induction calls generalizing clients with
  | nil => rfl
  | cons i calls ih =>
    rw [List.cons_append, callAll, callAll]
    cases clients[i]? with
    | none => exact ih clients
    | some c => simp only [ih, List.cons_append]

/-- Calls of all clients but the first one. -/
theorem callAll_map_succ (calls : List Nat) (c : Source) (clients : List Source) :
    callAll num (calls.map Nat.succ) (c :: clients) =
      ((callAll num calls clients).1, c :: (callAll num calls clients).2) := by
  induction calls generalizing clients with
  | nil => rfl
  | cons i calls ih =>
    rw [List.map_cons, callAll, callAll, List.getElem?_cons_succ]
    cases clients[i]? with
    | none => exact ih clients
    | some d => simp only [List.set_cons_succ, ih]

theorem callAll_range_succ (count : Nat) (c : Source) (clients : List Source) :
    callAll num (List.range (count + 1)) (c :: clients) =
      ((c.fetch num).answer :: (callAll num (List.range count) clients).1,
        (c.fetch num).next :: (callAll num (List.range count) clients).2) := by
  rw [List.range_succ_eq_map, callAll, List.getElem?_cons_zero]
  simp only [List.set_cons_zero, callAll_map_succ]

theorem length_callAll (calls : List Nat) (clients : List Source) :
    (callAll num calls clients).2.length = clients.length := by
  induction calls generalizing clients with
  | nil => rfl
  | cons i calls ih =>
    rw [callAll]
    cases clients[i]? with
    | none => exact ih clients
    | some c => exact (ih _).trans List.length_set

theorem rounds_succ (count times : Nat) : rounds count (times + 1) = List.range count ++ rounds count times := by
  rw [rounds, List.replicate_succ, List.flatten_cons, rounds]

/-! ## One attempt -/

/-- What comes of calling the clients once in their order: all fail, or all before one that does not. -/
inductive Round (num : BlockNum) (clients : List Source) (first : FirstReply) : Prop where
  | failed (hLength : first.failures.length = clients.length)
      (hCalls : callAll num (List.range clients.length) clients = (first.failures.map .failed, first.next))
      (hAnswer : first.answer = none)
  | answered (errors : List FetchError) {answer : Answer} {fetched : Fetched}
      (hClient : errors.length < clients.length)
      (hCalls : callAll num (List.range (errors.length + 1)) clients = (errors.map .failed ++ [answer], first.next))
      (hAnswer : first.answer = some answer) (hFetched : answer.fetched? = some fetched)

theorem round_fetchFirst (num : BlockNum) (clients : List Source) (index : Nat) :
    Round num clients (fetchFirst clients index num) := by
  induction clients generalizing index with
  | nil => exact .failed rfl rfl rfl
  | cons c clients ih =>
    have hStops : ∀ answer fetched, (c.fetch num).answer = answer → answer.fetched? = some fetched →
        Round num (c :: clients) ⟨some answer, [], (c.fetch num).passed, (c.fetch num).next :: clients⟩ := by
      rintro answer fetched rfl hFetched
      refine .answered [] (Nat.zero_lt_succ _) ?_ rfl hFetched
      rw [List.length_nil, callAll_range_succ]
      rfl
    rw [fetchFirst]
    cases hAnswer : (c.fetch num).answer with
    | block b => exact hStops _ (.block b) hAnswer rfl
    | crashed reason => exact hStops _ (.crashed reason) hAnswer rfl
    | failed e =>
      cases ih (index + 1) with
      | failed hLength hCalls hNone =>
        refine .failed (congrArg (· + 1) hLength) ?_ hNone
        rw [List.length_cons, callAll_range_succ, hCalls, hAnswer]
        rfl
      | answered errors hClient hCalls hSome hFetched =>
        refine .answered (e :: errors) (Nat.succ_lt_succ hClient) ?_ hSome hFetched
        rw [List.length_cons, callAll_range_succ, hCalls, hAnswer]
        rfl

/-! ## All attempts -/

theorem fetch_fallback (clients : List Source) (num : BlockNum) :
    (Source.fallback clients).fetch num =
      ⟨(fetchFirst clients 0 num).answer.getD (.failed (.allFailed num (fetchFirst clients 0 num).failures)),
        (fetchFirst clients 0 num).passed, .fallback (fetchFirst clients 0 num).next⟩ := by
  rw [fetch]

/-- A request whose first attempt failed goes on with the clients that this attempt left. -/
theorem Sought.cons {tries highest : Nat} {first : FirstReply} {r : Retried} {note : Note}
    (hLength : first.failures.length = clients.length)
    (hCalls : callAll num (List.range clients.length) clients = (first.failures.map .failed, first.next))
    (h : Sought num tries highest first.next r) :
    Sought num (tries + 1) highest clients ⟨r.fetched,
      .asked num first.passed (.failed (.allFailed num first.failures)) :: .note note :: r.entries, r.next⟩ := by
  have hClients : first.next.length = clients.length := by
    have hKept := @length_callAll num (List.range clients.length) clients
    rw [hCalls] at hKept
    exact hKept
  cases h with
  | answered failures errors hTries hClient hFailures hCalls' hAttempts hFetched hNext =>
    rw [hClients] at hClient hFailures hCalls'
    refine .answered (first.failures :: failures) errors (Nat.succ_lt_succ hTries) hClient
      (List.forall_mem_cons.mpr ⟨hLength, hFailures⟩) ?_ (congrArg (_ :: ·) hAttempts) hFetched hNext
    rw [List.length_cons, rounds_succ, List.append_assoc, callAll_append, hCalls, hCalls', List.flatten_cons]
    simp only [List.map_append, List.append_assoc]
  | exhausted failures hTries hFailures hCalls' hAttempts hFetched hNext =>
    rw [hClients] at hFailures hCalls'
    refine .exhausted (first.failures :: failures) (congrArg (· + 1) hTries)
      (List.forall_mem_cons.mpr ⟨hLength, hFailures⟩) ?_ (congrArg (_ :: ·) hAttempts) hFetched hNext
    rw [rounds_succ, callAll_append, hCalls, hCalls', List.flatten_cons]
    simp only [List.map_append, List.append_assoc]

/-- The first answer that is not a failure ends a request. -/
theorem askFrom_of_fetched {s next : Source} {answer : Answer} {passed : List ClientFailure} {fetched : Fetched}
    (hFetch : s.fetch num = ⟨answer, passed, next⟩) (hFetched : answer.fetched? = some fetched) (attempt left : Nat) :
    askFrom num attempt left s = ⟨fetched, [.asked num passed answer], next⟩ := by
  cases answer with
  | failed e => cases hFetched
  | block b =>
    cases hFetched
    cases left <;> rw [askFrom, ask, hFetch]
  | crashed reason =>
    cases hFetched
    cases left <;> rw [askFrom, ask, hFetch]

theorem sought_of_fetched {first : FirstReply} {errors : List FetchError} {answer : Answer} {fetched : Fetched}
    (hFetch : (Source.fallback clients).fetch num = ⟨answer, first.passed, .fallback first.next⟩)
    (hClient : errors.length < clients.length)
    (hCalls : callAll num (List.range (errors.length + 1)) clients = (errors.map .failed ++ [answer], first.next))
    (hFetched : answer.fetched? = some fetched) (attempt left highest : Nat) :
    Sought num (left + 1) highest clients (askFrom num attempt left (.fallback clients)) := by
  rw [askFrom_of_fetched hFetch hFetched]
  exact .answered [] errors (Nat.zero_lt_succ _) hClient (by simp) hCalls rfl hFetched rfl

-- By induction on the attempts that are left: an attempt that fails leaves the clients as its calls left them, and
-- the rest of the request is one over these clients.
theorem sought_askFrom (num : BlockNum) (attempt left : Nat) (clients : List Source) :
    Sought num (left + 1) (attempt + left) clients (askFrom num attempt left (.fallback clients)) := by
  induction left generalizing attempt clients with
  | zero =>
    have hFetch := fetch_fallback clients num
    have hRound := round_fetchFirst num clients 0
    generalize fetchFirst clients 0 num = first at hFetch hRound
    cases hRound with
    | failed hLength hCalls hAnswer =>
      rw [hAnswer, Option.getD_none] at hFetch
      rw [askFrom, ask, hFetch]
      refine .exhausted [] rfl (List.forall_mem_singleton.mpr hLength) ?_ rfl rfl rfl
      rw [rounds_succ, rounds, List.replicate_zero, List.flatten_nil, List.append_nil]
      exact hCalls
    | answered errors hClient hCalls hAnswer hFetched =>
      rw [hAnswer, Option.getD_some] at hFetch
      exact sought_of_fetched hFetch hClient hCalls hFetched attempt 0 _
  | succ left ih =>
    have hFetch := fetch_fallback clients num
    have hRound := round_fetchFirst num clients 0
    generalize fetchFirst clients 0 num = first at hFetch hRound
    cases hRound with
    | failed hLength hCalls hAnswer =>
      rw [hAnswer, Option.getD_none] at hFetch
      have hRest := ih (attempt + 1) first.next
      rw [Nat.add_right_comm] at hRest
      rw [askFrom, ask, hFetch]
      exact hRest.cons hLength hCalls
    | answered errors hClient hCalls hAnswer hFetched =>
      rw [hAnswer, Option.getD_some] at hFetch
      exact sought_of_fetched hFetch hClient hCalls hFetched attempt (left + 1) _

/-- A request over a fallback makes exactly these calls. It makes at most the attempts that were asked for, and one
at least. -/
theorem sought_fetchRetrying (num : BlockNum) (clients : List Source) (count : UInt32) :
    Sought num (max count 1).toNat (max count 1).toNat clients
      ((Source.fallback clients).fetchRetrying num count) := by
  have hSought := sought_askFrom num 1 (count.toNat - 1) clients
  have hTries : (max count 1).toNat = count.toNat - 1 + 1 := by
    rw [UInt32.toNat_max]
    have hOne : (1 : UInt32).toNat = 1 := rfl
    omega
  rw [hTries, fetchRetrying]
  rwa [Nat.add_comm 1] at hSought

end Source

end ChainFeed
