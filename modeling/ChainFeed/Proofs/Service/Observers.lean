import Mathlib.Logic.Relation
import ChainFeed.Service.Threads

/-! # Observers see every event once

What the dispatcher has called for, what it has still to call for and what waits in the queue are, in this order,
the calls for all events published, at any moment and however the threads interleave. A shutdown is requested only
after the worker ended, so the dispatcher cannot leave an event behind, whichever of its two ways it ends. And the
threads never get stuck before the service is let go of.
-/

set_option autoImplicit false

namespace ChainFeed

namespace Reaction

def logged? : Reaction → Option Event
  | logged e => some e
  | handled _ => none

def handled? : Reaction → Option Event
  | logged _ => none
  | handled e => some e

end Reaction

namespace Subscriptions

variable {s : Subscriptions}

/-- `reactions` are the calls for `events`: one after the other, for each event the logger first and then the
handler of its kind. So the logger saw all events, and each handler all events of its kind. -/
structure Observed (s : Subscriptions) (events : List Event) (reactions : List Reaction) : Prop where
  together : reactions = events.flatMap fun e =>
    (if s.logging = true then [.logged e] else []) ++ (if e.kind ∈ s.kinds then [.handled e] else [])
  logged : reactions.filterMap Reaction.logged? = if s.logging = true then events else []
  handled : ∀ kind, (reactions.filterMap Reaction.handled?).filter (fun e => decide (e.kind = kind)) =
    if kind ∈ s.kinds then events.filter (fun e => decide (e.kind = kind)) else []

theorem dispatch_append (s : Subscriptions) (before after : List Event) :
    s.dispatch (before ++ after) = s.dispatch before ++ s.dispatch after :=
  List.flatMap_append

theorem dispatch_cons (s : Subscriptions) (e : Event) (rest : List Event) :
    s.dispatch (e :: rest) = s.reactions e ++ s.dispatch rest :=
  rfl

theorem dispatch_singleton (s : Subscriptions) (e : Event) : s.dispatch [e] = s.reactions e :=
  List.append_nil _

theorem reactions_eq (s : Subscriptions) (e : Event) :
    s.reactions e =
      (if s.logging = true then [.logged e] else []) ++ (if e.kind ∈ s.kinds then [.handled e] else []) := by
  simp only [reactions, List.contains_iff_mem]

theorem reactions_of_isEmpty (h : s.isEmpty = true) (e : Event) : s.reactions e = [] := by
  obtain ⟨hLogging, hKinds⟩ : s.logging = false ∧ s.kinds = [] := by simpa [isEmpty] using h
  simp [reactions, hLogging, hKinds]

theorem length_reactions_le (s : Subscriptions) (e : Event) : (s.reactions e).length ≤ 2 := by
  simp only [reactions, List.length_append]
  split <;> split <;> simp

theorem logged?_reactions (s : Subscriptions) (e : Event) :
    (s.reactions e).filterMap Reaction.logged? = if s.logging = true then [e] else [] := by
  rw [reactions_eq]
  split <;> split <;> rfl

theorem handled?_reactions (s : Subscriptions) (e : Event) :
    (s.reactions e).filterMap Reaction.handled? = if e.kind ∈ s.kinds then [e] else [] := by
  rw [reactions_eq]
  split <;> split <;> rfl

theorem observed_dispatch (s : Subscriptions) (events : List Event) : s.Observed events (s.dispatch events) where
  together := congrArg (events.flatMap ·) (funext s.reactions_eq)
  logged := by
    induction events with
    | nil => cases s.logging <;> rfl
    | cons e rest ih =>
      rw [dispatch_cons, List.filterMap_append, logged?_reactions, ih]
      cases s.logging <;> rfl
  handled kind := by
    induction events with
    | nil => exact (ite_self _).symm
    | cons e rest ih =>
      rw [dispatch_cons, List.filterMap_append, handled?_reactions, List.filter_append, ih]
      by_cases hKind : e.kind = kind
      · subst hKind
        split <;> simp
      · split <;> split <;> simp [hKind]

end Subscriptions

/-- The calls that the dispatcher has still to make for the event that it took. -/
def DispatcherPhase.pending : DispatcherPhase → List Reaction
  | calling left _ => left
  | _ => []

/-- The dispatcher saw the request to shut down. -/
def DispatcherPhase.Asked : DispatcherPhase → Prop
  | draining => True
  | calling _ asked => asked = true
  | _ => False

def WorkerPhase.distance : WorkerPhase → Nat
  | running => 2
  | leaving _ => 1
  | ended _ => 0

def DispatcherPhase.distance : DispatcherPhase → Nat
  | looking => 2
  | waiting => 1
  | draining => 1
  | calling left _ => left.length + 3
  | ended => 0

def OwnerPhase.distance : OwnerPhase → Nat
  | holding => 7
  | releasing left => left.length

namespace Threads

variable {s : Subscriptions} {t u : Threads}

/-! ## Nothing is lost on the way -/

/-- Calls made, calls to make and events in the queue make up what was published. -/
def Conserves (s : Subscriptions) (t : Threads) : Prop :=
  t.reactions ++ t.dispatcher.pending ++ s.dispatch t.queue = s.dispatch t.published

theorem conserves_start (s : Subscriptions) : Conserves s (start s) := by
  unfold Conserves start
  cases s.isEmpty <;> rfl

theorem Conserves.step (h : Conserves s t) (move : Step s t u) : Conserves s u := by
  unfold Conserves at h ⊢
  cases move with
  | @publish e running =>
    rw [Subscriptions.dispatch_append, ← h, Subscriptions.dispatch_singleton]
    by_cases hEmpty : s.isEmpty = true
    · simp only [if_pos hEmpty, Subscriptions.reactions_of_isEmpty hEmpty, List.append_nil]
    · simp only [if_neg hEmpty, Subscriptions.dispatch_append, Subscriptions.dispatch_singleton, List.append_assoc]
  | receive waiting front =>
    rw [← h, waiting, front, Subscriptions.dispatch_cons]
    simp only [DispatcherPhase.pending, List.append_nil, List.append_assoc]
  | drain draining front =>
    rw [← h, draining, front, Subscriptions.dispatch_cons]
    simp only [DispatcherPhase.pending, List.append_nil, List.append_assoc]
  | call calling =>
    rw [← h, calling]
    simp only [DispatcherPhase.pending, List.append_assoc, List.singleton_append]
  | @called asked calling =>
    rw [← h, calling]
    cases asked <;> rfl
  | seesShutdown looking asked => rwa [looking] at h
  | seesNothing looking quiet => rwa [looking] at h
  | timeout waiting => rwa [waiting] at h
  | hangup waiting idle gone => rwa [waiting] at h
  | drained draining idle => rwa [draining] at h
  | leave | workerEnds | release | askStop | joinWorker | requestShutdown | joinDispatcher => exact h

theorem Reachable.conserves (h : Reachable s t) : Conserves s t := by
  induction h with
  | start => exact conserves_start s
  | step _ move ih => exact ih.step move

/-! ## The order of letting go -/

/-- What letting go has come to with these moves left. A request to shut down never comes before joining the
worker. -/
structure Releasing (t : Threads) (left : List OwnerMove) : Prop where
  worker : .joinWorker ∈ left ∨ ∃ outcome, t.worker = .ended outcome ∧ t.result = some outcome
  dispatcher : .joinDispatcher ∈ left ∨ t.dispatcher = .ended
  order : left.Pairwise fun a b => a = .requestShutdown → b ≠ .joinWorker

structure Orderly (s : Subscriptions) (t : Threads) : Prop where
  requested : t.shutdown = true → ∃ outcome, t.worker = .ended outcome
  asked : t.dispatcher.Asked → t.shutdown = true
  unobserved : s.isEmpty = true → t.dispatcher = .ended
  drained : t.dispatcher = .ended → t.queue = [] ∧ (s.isEmpty = true ∨ t.worker ≠ .running)
  releasing : ∀ left, t.owner = .releasing left → Releasing t left

theorem releasing_moves (s : Subscriptions) (way : Release) (h : s.isEmpty = true → t.dispatcher = .ended) :
    Releasing t (way.moves s) := by
  cases hEmpty : s.isEmpty with
  | true =>
    refine ⟨.inl ?_, .inr (h hEmpty), ?_⟩ <;>
      cases way <;> simp [Release.moves, OwnerMove.waitingFor, OwnerMove.droppingAgain, hEmpty]
  | false =>
    refine ⟨.inl ?_, .inl ?_, ?_⟩ <;>
      cases way <;> simp [Release.moves, OwnerMove.waitingFor, OwnerMove.droppingAgain, hEmpty]

theorem orderly_start (s : Subscriptions) : Orderly s (start s) where
  requested := nofun
  asked h := by
    revert h
    unfold start
    cases s.isEmpty <;> exact nofun
  unobserved h := if_pos h
  drained h := ⟨rfl, .inl (by
    revert h
    unfold start
    cases s.isEmpty <;> simp)⟩
  releasing := nofun

/-- When a shutdown is requested, the worker has been joined. -/
theorem Releasing.worker_ended {left : List OwnerMove} (h : Releasing t (.requestShutdown :: left)) :
    ∃ outcome, t.worker = .ended outcome := by
  obtain hMem | ⟨outcome, hEnded, -⟩ := h.worker
  · have hLater := List.mem_of_ne_of_mem (by decide) hMem
    exact absurd rfl ((List.pairwise_cons.mp h.order).1 _ hLater rfl)
  · exact ⟨outcome, hEnded⟩

/-- What was joined stays joined after a move that joins nobody. -/
theorem Releasing.tail {m : OwnerMove} {left : List OwnerMove} (h : Releasing t (m :: left))
    (hWorker : m ≠ .joinWorker) (hDispatcher : m ≠ .joinDispatcher) : Releasing t left where
  worker := h.worker.imp_left (List.mem_of_ne_of_mem hWorker.symm)
  dispatcher := h.dispatcher.imp_left (List.mem_of_ne_of_mem hDispatcher.symm)
  order := (List.pairwise_cons.mp h.order).2

/-- A worker that has not ended may move on: no shutdown was requested yet, and joining it is still to come. -/
theorem Orderly.worker_moves (h : Orderly s t) (hGoing : ∀ outcome, t.worker ≠ .ended outcome)
    {phase : WorkerPhase} {published queue : List Event}
    (hOver : t.dispatcher = .ended → queue = [] ∧ (s.isEmpty = true ∨ phase ≠ .running)) :
    Orderly s { t with worker := phase, published := published, queue := queue } where
  requested hAsked := absurd (h.requested hAsked) (not_exists.mpr hGoing)
  asked := h.asked
  unobserved := h.unobserved
  drained := hOver
  releasing left hLeft :=
    have hOld := h.releasing left hLeft
    { worker := .inl (hOld.worker.resolve_right fun ⟨outcome, hEnded, _⟩ => hGoing outcome hEnded)
      dispatcher := hOld.dispatcher
      order := hOld.order }

/-- A dispatcher that has not ended may move on: joining it is still to come. -/
theorem Orderly.dispatcher_moves (h : Orderly s t) (hGoing : t.dispatcher ≠ .ended)
    {phase : DispatcherPhase} {queue : List Event} {reactions : List Reaction}
    (hAsked : phase.Asked → t.shutdown = true) (hOver : phase = .ended → queue = [] ∧ t.worker ≠ .running) :
    Orderly s { t with dispatcher := phase, queue := queue, reactions := reactions } where
  requested := h.requested
  asked := hAsked
  unobserved hEmpty := absurd (h.unobserved hEmpty) hGoing
  drained hEnded := ⟨(hOver hEnded).1, .inr (hOver hEnded).2⟩
  releasing left hLeft :=
    have hOld := h.releasing left hLeft
    { worker := hOld.worker
      dispatcher := .inl (hOld.dispatcher.resolve_right hGoing)
      order := hOld.order }

/-- The owner may move on to `left` if what it has joined has ended. -/
theorem Orderly.owner_moves (h : Orderly s t) {stopAsked shutdown : Bool} {result : Option Outcome}
    {left : List OwnerMove} (hKept : t.shutdown = true → shutdown = true)
    (hRequested : shutdown = true → ∃ outcome, t.worker = .ended outcome)
    (hReleasing : Releasing { t with result := result } left) :
    Orderly s { t with
      stopAsked := stopAsked, shutdown := shutdown, result := result, owner := .releasing left } where
  requested := hRequested
  asked hAsked := hKept (h.asked hAsked)
  unobserved := h.unobserved
  drained := h.drained
  releasing left' hLeft := by
    cases hLeft
    exact ⟨hReleasing.worker, hReleasing.dispatcher, hReleasing.order⟩

theorem Orderly.step (h : Orderly s t) (move : Step s t u) : Orderly s u := by
  -- a dispatcher that saw the request finds the worker ended
  have hGone (hAsked : t.dispatcher.Asked) : t.worker ≠ .running := by
    obtain ⟨outcome, hEnded⟩ := h.requested (h.asked hAsked)
    rw [hEnded]
    exact nofun
  cases move with
  | @publish e running =>
    refine h.worker_moves (by simp [running]) fun hEnded => ?_
    obtain ⟨hQueue, hEmpty | hGone⟩ := h.drained hEnded
    · exact ⟨(if_pos hEmpty).trans hQueue, .inl hEmpty⟩
    · exact absurd running hGone
  | leave running =>
    exact h.worker_moves (by simp [running]) fun hEnded => ⟨(h.drained hEnded).1, .inr nofun⟩
  | workerEnds leaving =>
    exact h.worker_moves (by simp [leaving]) fun hEnded => ⟨(h.drained hEnded).1, .inr nofun⟩
  | seesShutdown looking asked => exact h.dispatcher_moves (by simp [looking]) (fun _ => asked) nofun
  | seesNothing looking => exact h.dispatcher_moves (by simp [looking]) nofun nofun
  | receive waiting => exact h.dispatcher_moves (by simp [waiting]) nofun nofun
  | timeout waiting => exact h.dispatcher_moves (by simp [waiting]) nofun nofun
  | hangup waiting idle gone => exact h.dispatcher_moves (by simp [waiting]) nofun fun _ => ⟨idle, gone⟩
  | drain draining =>
    exact h.dispatcher_moves (by simp [draining]) (fun _ => h.asked (draining ▸ trivial)) nofun
  | drained draining idle =>
    exact h.dispatcher_moves (by simp [draining]) nofun fun _ => ⟨idle, hGone (draining ▸ trivial)⟩
  | call calling =>
    exact h.dispatcher_moves (by simp [calling]) (fun hAsked => h.asked (calling ▸ hAsked)) nofun
  | @called asked calling =>
    cases asked with
    | true => exact h.dispatcher_moves (by simp [calling]) (fun _ => h.asked (calling ▸ rfl)) nofun
    | false => exact h.dispatcher_moves (by simp [calling]) nofun nofun
  | release way holding => exact h.owner_moves id h.requested (releasing_moves s way h.unobserved)
  | askStop next => exact h.owner_moves id h.requested ((h.releasing _ next).tail nofun nofun)
  | @joinWorker left outcome next gone =>
    have hLeft := h.releasing _ next
    have hJoined : Releasing { t with result := some outcome } left :=
      { worker := .inr ⟨outcome, gone, rfl⟩
        dispatcher := hLeft.dispatcher.imp_left (List.mem_of_ne_of_mem (by decide))
        order := (List.pairwise_cons.mp hLeft.order).2 }
    exact h.owner_moves id h.requested hJoined
  | requestShutdown next =>
    have hLeft := h.releasing _ next
    exact h.owner_moves (fun _ => rfl) (fun _ => hLeft.worker_ended) (hLeft.tail nofun nofun)
  | @joinDispatcher left next gone =>
    have hLeft := h.releasing _ next
    have hJoined : Releasing t left :=
      { worker := hLeft.worker.imp_left (List.mem_of_ne_of_mem (by decide))
        dispatcher := .inr gone
        order := (List.pairwise_cons.mp hLeft.order).2 }
    exact h.owner_moves id h.requested hJoined

theorem Reachable.orderly (h : Reachable s t) : Orderly s t := by
  induction h with
  | start => exact orderly_start s
  | step _ move ih => exact ih.step move

/-! ## Once the service is let go of -/

theorem Orderly.emptied (h : Orderly s t) (hReleased : t.Released) :
    (∃ outcome, t.worker = .ended outcome ∧ t.result = some outcome) ∧ t.dispatcher = .ended ∧ t.queue = [] := by
  have hLast := h.releasing [] hReleased
  have hEnded := hLast.dispatcher.resolve_left nofun
  exact ⟨hLast.worker.resolve_left nofun, hEnded, (h.drained hEnded).1⟩

theorem Reachable.reactions_eq_dispatch (h : Reachable s t) (hReleased : t.Released) :
    t.reactions = s.dispatch t.published := by
  obtain ⟨-, hEnded, hQueue⟩ := h.orderly.emptied hReleased
  rw [← h.conserves, hEnded, hQueue]
  simp only [DispatcherPhase.pending, Subscriptions.dispatch, List.flatMap_nil, List.append_nil]

/-- However the threads interleaved and however often a wait timed out: once the service was joined, stopped or
dropped, both threads have ended, and the observers saw all events that the worker published. -/
theorem Reachable.observed (h : Reachable s t) (hReleased : t.Released) :
    s.Observed t.published t.reactions ∧
      (∃ outcome, t.worker = .ended outcome ∧ t.result = some outcome) ∧ t.dispatcher = .ended := by
  obtain ⟨hResult, hEnded, -⟩ := h.orderly.emptied hReleased
  refine ⟨?_, hResult, hEnded⟩
  rw [h.reactions_eq_dispatch hReleased]
  exact s.observed_dispatch t.published

def watching : Subscriptions := ⟨true, [.fired]⟩

/-- A wait times out, and the shutdown is requested while one event waits in the queue and another one is being
dispatched. -/
theorem stopped_reachable :
    ∃ t, Reachable watching t ∧ t.Released ∧ t.published = [.fired ⟨"1a", 1⟩, .libSet ⟨"1a", 1⟩, .fired ⟨"2a", 2⟩] := by
  have hFirst := (Reachable.start (s := watching)).step (.seesNothing rfl rfl) |>.step (.timeout rfl)
    |>.step (.publish (e := .fired ⟨"1a", 1⟩) rfl) |>.step (.seesNothing rfl rfl) |>.step (.receive rfl rfl)
    |>.step (.call rfl) |>.step (.publish (e := .libSet ⟨"1a", 1⟩) rfl)
  have hLeft := hFirst.step (.publish (e := .fired ⟨"2a", 2⟩) rfl) |>.step (.release .stop rfl) |>.step (.askStop rfl)
    |>.step (@Step.leave _ _ .finished rfl) |>.step (.workerEnds rfl) |>.step (.joinWorker rfl rfl)
    |>.step (.requestShutdown rfl)
  have hDrained := hLeft.step (.call rfl) |>.step (.called rfl) |>.step (.seesShutdown rfl rfl)
    |>.step (.drain rfl rfl) |>.step (.call rfl) |>.step (.called rfl) |>.step (.drain rfl rfl) |>.step (.call rfl)
    |>.step (.call rfl) |>.step (.called rfl) |>.step (.drained rfl rfl)
  have hReleased := hDrained.step (.joinDispatcher rfl rfl) |>.step (.askStop rfl) |>.step (.requestShutdown rfl)
  exact ⟨_, hReleased, rfl, rfl⟩

theorem stopped_observed :
    ∃ t, Reachable watching t ∧ t.Released ∧
      watching.Observed [.fired ⟨"1a", 1⟩, .libSet ⟨"1a", 1⟩, .fired ⟨"2a", 2⟩] t.reactions ∧
      ∃ outcome, t.worker = .ended outcome ∧ t.result = some outcome := by
  obtain ⟨t, hReachable, hReleased, hPublished⟩ := stopped_reachable
  obtain ⟨hObserved, hResult, -⟩ := hReachable.observed hReleased
  exact ⟨t, hReachable, hReleased, hPublished ▸ hObserved, hResult⟩

/-- So what was observed is what the report of the run says, whichever run the worker did. -/
theorem Reachable.reactions_eq_report {τ : Type} {service : Service τ} {requests : Nat} {source : Source}
    {sinkState : τ} {disk : Disk} (h : Reachable service.subscriptions t) (hReleased : t.Released)
    (hRun : t.published = (service.feed.runLimited requests source sinkState disk).journal.events) :
    t.reactions = (service.report requests source sinkState disk).reactions := by
  rw [h.reactions_eq_dispatch hReleased, hRun]
  rfl

/-! ## Letting go comes to an end -/

/-- A bound on the moves that are left until the service is let go of, once the worker publishes no more. -/
def distance (t : Threads) : Nat :=
  t.worker.distance + t.dispatcher.distance + 6 * t.queue.length + t.owner.distance

/-- Once the worker has ended, a dispatcher that has not ended can go on. -/
theorem exists_step_of_dispatcher (s : Subscriptions) {outcome : Outcome} (hWorker : t.worker = .ended outcome)
    (h : t.dispatcher ≠ .ended) : ∃ u, Step s t u ∧ u.distance < t.distance := by
  cases hDispatcher : t.dispatcher with
  | looking =>
    cases hShutdown : t.shutdown with
    | true => exact ⟨_, .seesShutdown hDispatcher hShutdown, by simp [distance, hDispatcher, DispatcherPhase.distance]⟩
    | false => exact ⟨_, .seesNothing hDispatcher hShutdown, by simp [distance, hDispatcher, DispatcherPhase.distance]⟩
  | waiting =>
    cases hQueue : t.queue with
    | nil =>
      exact ⟨_, .hangup hDispatcher hQueue (by simp [hWorker]),
        by simp [distance, hDispatcher, DispatcherPhase.distance]⟩
    | cons e rest =>
      have hCalls := s.length_reactions_le e
      refine ⟨_, .receive hDispatcher hQueue, ?_⟩
      simp only [distance, hDispatcher, hQueue, DispatcherPhase.distance, List.length_cons]
      omega
  | draining =>
    cases hQueue : t.queue with
    | nil =>
      exact ⟨_, .drained hDispatcher hQueue, by simp [distance, hDispatcher, DispatcherPhase.distance]⟩
    | cons e rest =>
      have hCalls := s.length_reactions_le e
      refine ⟨_, .drain hDispatcher hQueue, ?_⟩
      simp only [distance, hDispatcher, hQueue, DispatcherPhase.distance, List.length_cons]
      omega
  | calling left asked =>
    cases left with
    | nil =>
      refine ⟨_, .called hDispatcher, ?_⟩
      cases asked <;> simp [distance, hDispatcher, DispatcherPhase.distance]
    | cons r left => exact ⟨_, .call hDispatcher, by simp [distance, hDispatcher, DispatcherPhase.distance]⟩
  | ended => exact absurd hDispatcher h

/-- Once both threads have ended, the owner can go on. -/
theorem exists_step_of_owner (s : Subscriptions) {outcome : Outcome} (hWorker : t.worker = .ended outcome)
    (hDispatcher : t.dispatcher = .ended) (h : ¬ t.Released) : ∃ u, Step s t u ∧ u.distance < t.distance := by
  cases hOwner : t.owner with
  | holding =>
    exact ⟨_, .release .join hOwner, by
      cases hEmpty : s.isEmpty <;> simp [distance, hOwner, OwnerPhase.distance, Release.moves,
        OwnerMove.waitingFor, OwnerMove.droppingAgain, hEmpty]⟩
  | releasing left =>
    cases left with
    | nil => exact absurd hOwner h
    | cons m left =>
      cases m with
      | askStop => exact ⟨_, .askStop hOwner, by simp [distance, hOwner, OwnerPhase.distance]⟩
      | joinWorker => exact ⟨_, .joinWorker hOwner hWorker, by simp [distance, hOwner, OwnerPhase.distance]⟩
      | requestShutdown => exact ⟨_, .requestShutdown hOwner, by simp [distance, hOwner, OwnerPhase.distance]⟩
      | joinDispatcher =>
        exact ⟨_, .joinDispatcher hOwner hDispatcher, by simp [distance, hOwner, OwnerPhase.distance]⟩

/-- The threads never get stuck: until the service is let go of, one of them can make a move that brings the end
closer. -/
theorem exists_step_of_not_released (s : Subscriptions) (h : ¬ t.Released) :
    ∃ u, Step s t u ∧ u.distance < t.distance := by
  cases hWorker : t.worker with
  | running =>
    exact ⟨{ t with worker := .leaving .lost }, .leave hWorker, by simp [distance, hWorker, WorkerPhase.distance]⟩
  | leaving outcome => exact ⟨_, .workerEnds hWorker, by simp [distance, hWorker, WorkerPhase.distance]⟩
  | ended outcome =>
    by_cases hDispatcher : t.dispatcher = .ended
    · exact exists_step_of_owner s hWorker hDispatcher h
    · exact exists_step_of_dispatcher s hWorker hDispatcher

/-- Whatever the threads have done, they can go on until the service is let go of. -/
theorem exists_released (s : Subscriptions) (t : Threads) :
    ∃ u, Relation.ReflTransGen (Step s) t u ∧ u.Released := by
  induction hDistance : t.distance using Nat.strongRecOn generalizing t with
  | ind d ih =>
    by_cases hReleased : t.Released
    · exact ⟨t, .refl, hReleased⟩
    · obtain ⟨u, hStep, hCloser⟩ := exists_step_of_not_released s hReleased
      obtain ⟨v, hSteps, hEnd⟩ := ih u.distance (hDistance ▸ hCloser) u rfl
      exact ⟨v, .head hStep hSteps, hEnd⟩

end Threads

end ChainFeed
