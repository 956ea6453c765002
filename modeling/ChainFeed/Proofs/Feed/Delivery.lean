import ChainFeed.Proofs.Checkpoint.Restore
import ChainFeed.Proofs.Feed.Beginning
import ChainFeed.Proofs.Feed.Turn

/-! # A block is handed over once

A block that was accepted stays in the fork graph as a fired node until the LIB has passed its number,
and then no block of that number is linked any more. So an id that keeps its number is never accepted
twice, however the source reorganises.
-/

set_option autoImplicit false

namespace ChainFeed

/-- A number is answered with a block of that number, and an id is always given with the same number. -/
structure SteadyNumbers (answers : List (BlockNum × Block)) : Prop where
  asked : ∀ a ∈ answers, a.2.num = a.1
  same : ∀ a ∈ answers, ∀ a' ∈ answers, a.2.id = a'.2.id → a.2.num = a'.2.num

instance (answers : List (BlockNum × Block)) : Decidable (SteadyNumbers answers) :=
  decidable_of_iff
    ((∀ a ∈ answers, a.2.num = a.1) ∧
      ∀ a ∈ answers, ∀ a' ∈ answers, a.2.id = a'.2.id → a.2.num = a'.2.num)
    ⟨fun h => ⟨h.1, h.2⟩, fun h => ⟨h.asked, h.same⟩⟩

theorem SteadyNumbers.of_subset {answers more : List (BlockNum × Block)} (h : SteadyNumbers more)
    (hSub : answers ⊆ more) : SteadyNumbers answers where
  asked a ha := h.asked a (hSub ha)
  same a ha a' ha' := h.same a (hSub ha) a' (hSub ha')

/-- What a graph keeps of the blocks accepted so far, and what ties its contents to the answers. -/
structure Ledger (g : ForkGraph) (answers : List (BlockNum × Block)) (accepted : List Block) : Prop where
  once : (accepted.map Block.id).Nodup
  answered : ∀ b ∈ accepted, ∃ num, (num, b) ∈ answers
  kept : ∀ b ∈ accepted,
    b.num < g.libNum ∨ ∃ n ∈ g.nodes, n.fired = true ∧ n.id = b.id ∧ n.num = b.num
  content : ∀ n ∈ g.nodes, ∀ b, n.content = some b →
    n.id = b.id ∧ n.num = b.num ∧ g.libNum ≤ n.num ∧ ∃ num, (num, b) ∈ answers

namespace Ledger

variable {g : ForkGraph} {answers : List (BlockNum × Block)} {accepted : List Block}

theorem of_no_content {g : ForkGraph} (h : ∀ n ∈ g.nodes, n.content = none) : Ledger g [] [] where
  once := List.nodup_nil
  answered := by simp
  kept := by simp
  content n hn b hb := by
    rw [h n hn] at hb
    cases hb

theorem of_subset {more : List (BlockNum × Block)} (h : Ledger g answers accepted)
    (hSub : answers ⊆ more) : Ledger g more accepted where
  once := h.once
  answered b hb := (h.answered b hb).imp fun _ ha => hSub ha
  kept := h.kept
  content n hn b hb := by
    obtain ⟨hId, hNum, hLow, num, ha⟩ := h.content n hn b hb
    exact ⟨hId, hNum, hLow, num, hSub ha⟩

theorem id_not_mem (h : Ledger g answers accepted) (hSteady : SteadyNumbers answers) {n : Node}
    {b : Block} (hn : n ∈ g.nodes) (hUnfired : n.fired = false) (hContent : n.content = some b) :
    b.id ∉ accepted.map Block.id := by
  intro hSeen
  obtain ⟨a, ha, hId⟩ := List.mem_map.mp hSeen
  obtain ⟨hNodeId, hNodeNum, hLow, numB, hb⟩ := h.content n hn b hContent
  obtain ⟨numA, haAnswered⟩ := h.answered a ha
  have hNum : a.num = b.num := hSteady.same _ haAnswered _ hb hId
  rcases h.kept a ha with hPassed | ⟨m, hm, hFired, hmId, -⟩
  · rw [hNum, ← hNodeNum] at hPassed
    exact absurd hPassed (UInt64.not_lt.mpr hLow)
  · have hSame : m = n := ForkGraph.eq_of_id_eq hm hn (by rw [hmId, hId, hNodeId])
    rw [hSame, hUnfired] at hFired
    cases hFired

theorem link (h : Ledger g answers accepted) {b : Block} {num : BlockNum} (hb : (num, b) ∈ answers)
    (hAbove : g.libNum ≤ b.num) : Ledger (g.link (.fresh b)) answers accepted where
  once := h.once
  answered := h.answered
  kept a ha := by
    rw [ForkGraph.link_libNum]
    refine (h.kept a ha).imp_right ?_
    rintro ⟨n, hn, hFired⟩
    exact ⟨n, ForkGraph.mem_link_of_mem hn, hFired⟩
  content n hn c hc := by
    rw [ForkGraph.link_libNum]
    rcases ForkGraph.mem_link.mp hn with hn | ⟨rfl, -⟩
    · exact h.content n hn c hc
    · rw [Node.fresh_content, Option.some.injEq] at hc
      subst hc
      exact ⟨rfl, rfl, hAbove, num, hb⟩

theorem delivered_nodup (h : Ledger g answers accepted) {start : BlockNum} {passed : List Node}
    (hStored : ∀ n ∈ passed, n ∈ g.nodes) (hNodup : (passed.map Node.id).Nodup) :
    ((passed.filterMap (Node.delivered? start)).map Block.id).Nodup := by
  have hIds : (passed.filterMap (Node.delivered? start)).map Block.id =
      (passed.filter fun n => (n.delivered? start).isSome).map Node.id := by
    clear hNodup
    induction passed with
    | nil => rfl
    | cons n passed ih =>
      have hRest := ih fun m hm => hStored m (List.mem_cons_of_mem n hm)
      cases hDelivered : n.delivered? start with
      | none => simp [hDelivered, hRest]
      | some b =>
        obtain ⟨-, -, hContent⟩ := Node.delivered?_eq_some_iff.mp hDelivered
        obtain ⟨hId, -⟩ := h.content n (hStored n List.mem_cons_self) b hContent
        simp [hDelivered, hRest, hId]
  rw [hIds]
  exact hNodup.sublist (List.filter_sublist.map Node.id)

/-- Firing nodes of the graph keeps the ledger: what is accepted is marked. -/
theorem fire (h : Ledger g answers accepted) (hSteady : SteadyNumbers answers) {start : BlockNum}
    {passed : List Node} (hStored : ∀ n ∈ passed, n ∈ g.nodes) (hNodup : (passed.map Node.id).Nodup) :
    Ledger (g.markAll (newlyFired passed)) answers
      (accepted ++ passed.filterMap (Node.delivered? start)) where
  once := by
    rw [List.map_append, List.nodup_append]
    refine ⟨h.once, h.delivered_nodup hStored hNodup, ?_⟩
    intro id hId id' hId' hEq
    obtain ⟨b, hb, rfl⟩ := List.mem_map.mp hId'
    obtain ⟨n, hn, hDelivered⟩ := List.mem_filterMap.mp hb
    obtain ⟨hUnfired, -, hContent⟩ := Node.delivered?_eq_some_iff.mp hDelivered
    exact h.id_not_mem hSteady (hStored n hn) hUnfired hContent (hEq ▸ hId)
  answered b hb := by
    rcases List.mem_append.mp hb with hb | hb
    · exact h.answered b hb
    · obtain ⟨n, hn, hDelivered⟩ := List.mem_filterMap.mp hb
      obtain ⟨-, -, hContent⟩ := Node.delivered?_eq_some_iff.mp hDelivered
      exact (h.content n (hStored n hn) b hContent).2.2.2
  kept b hb := by
    rw [ForkGraph.markAll_libNum]
    rcases List.mem_append.mp hb with hb | hb
    · refine (h.kept b hb).imp_right ?_
      rintro ⟨n, hn, hFired, hId, hNum⟩
      exact ⟨_, ForkGraph.markedIn_mem_markAll hn _, by simp [hFired], by simpa using hId, by simpa using hNum⟩
    · obtain ⟨n, hn, hDelivered⟩ := List.mem_filterMap.mp hb
      obtain ⟨hUnfired, -, hContent⟩ := Node.delivered?_eq_some_iff.mp hDelivered
      obtain ⟨hId, hNum, -⟩ := h.content n (hStored n hn) b hContent
      have hMarked : n.id ∈ newlyFired passed := mem_newlyFired.mpr ⟨n, hn, hUnfired, rfl⟩
      exact .inr ⟨_, ForkGraph.markedIn_mem_markAll (hStored n hn) _, by simp [hMarked], by simpa using hId,
        by simpa using hNum⟩
  content m hm b hb := by
    obtain ⟨n, hn, rfl⟩ := ForkGraph.mem_markAll.mp hm
    rw [Node.markedIn_content] at hb
    rw [ForkGraph.markAll_libNum, Node.markedIn_id, Node.markedIn_num]
    exact h.content n hn b hb

/-- Moving the LIB and purging keeps the ledger: a number that was purged is below the LIB. -/
theorem settle (h : Ledger g answers accepted) {lib head : BlockRef} {num : BlockNum} {g' : ForkGraph}
    {move : LibMove} (hLib : g.lib = some lib) (hMove : ForkGraph.Advance g lib head num g' move) :
    Ledger g'.purge answers accepted where
  once := h.once
  answered := h.answered
  kept b hb := by
    rw [ForkGraph.purge_libNum]
    rcases h.kept b hb with hPassed | ⟨n, hn, hFired, hId, hNum⟩
    · exact .inl (UInt64.lt_of_lt_of_le hPassed (hMove.libNum_le hLib))
    · by_cases hLow : n.num < g'.libNum
      · exact .inl (hNum ▸ hLow)
      · have hKept := ForkGraph.mem_purge.mpr ⟨hMove.nodes_eq ▸ hn, UInt64.not_lt.mp hLow⟩
        exact .inr ⟨n, hKept, hFired, hId, hNum⟩
  content n hn b hb := by
    obtain ⟨hn, hAbove⟩ := ForkGraph.mem_purge.mp hn
    obtain ⟨hId, hNum, -, hAnswered⟩ := h.content n (hMove.nodes_eq ▸ hn) b hb
    exact ⟨hId, hNum, hAbove, hAnswered⟩

/-- A turn keeps the ledger, if the block was answered and does not lie below the LIB. -/
theorem turn (h : Ledger g answers accepted) (hSteady : SteadyNumbers answers) {start : BlockNum}
    {b : Block} {num : BlockNum} {g' : ForkGraph} {more : List Block} (hb : (num, b) ∈ answers)
    (hAbove : g.libNum ≤ b.num) (hTurn : Turn start b g g' more) :
    Ledger g' answers (accepted ++ more) := by
  have hLinked := h.link hb hAbove
  cases hTurn with
  | linked =>
    rw [List.append_nil]
    exact hLinked
  | @halted target passed left _ hPath =>
    refine hLinked.fire hSteady (fun n hn => ?_) ?_
    · exact ForkGraph.mem_of_mem_segmentTo (hPath ▸ List.mem_append_left _ hn)
    · have hNodup := ForkGraph.segmentTo_nodup (g.link (.fresh b)) target
      rw [hPath, List.map_append] at hNodup
      exact (List.nodup_append.mp hNodup).1
  | settled hLib _ hPath hMove =>
    subst hPath
    refine (hLinked.fire hSteady (fun n hn => ForkGraph.mem_of_mem_segmentTo hn)
      (ForkGraph.segmentTo_nodup _ _)).settle ?_ hMove
    rw [ForkGraph.markAll_lib, ForkGraph.link_lib, hLib]

end Ledger

variable {τ : Type}

/-- The ledger of a run, on top of what was answered and accepted before it. -/
structure Run.Accounts (answers : List (BlockNum × Block)) (accepted : List Block) (r : Run τ) : Prop where
  ledger : Ledger r.graph (answers ++ r.journal.pick Entry.answer?)
    (accepted ++ r.journal.pick Entry.accepted?)
  pending : ∀ b, r.pending = some b → (r.next, b) ∈ r.journal.pick Entry.answer?

namespace Feed

variable {f : Feed τ}

theorem accounts_of_begun {answers : List (BlockNum × Block)} {accepted : List Block} {disk : Disk}
    {r : Run τ} (h : f.Begun disk r) (hLedger : Ledger r.graph answers accepted) :
    r.Accounts answers accepted where
  ledger := by
    rw [h.untouched.accepted, List.append_nil]
    exact hLedger.of_subset (List.subset_append_left _ _)
  pending b hb := by
    cases h with
    | ended _ _ _ hPending | resumed _ _ _ _ hPending =>
      rw [hPending] at hb
      cases hb
    | cold _ _ _ hNext hPending _ hAnswers =>
      rw [hPending, Option.some.injEq] at hb
      rw [hNext, hAnswers, hb]
      exact List.mem_singleton_self _

theorem Begun.accounts {disk : Disk} {r : Run τ} (h : f.Begun disk r) : r.Accounts [] [] := by
  refine accounts_of_begun h (.of_no_content fun n hn => ?_)
  cases h with
  | ended _ _ hGraph | cold _ hGraph =>
    rw [hGraph] at hn
    cases hn
  | resumed _ _ hGraph =>
    rw [hGraph] at hn
    obtain ⟨s, -, rfl⟩ := Checkpoint.exists_of_mem_restore hn
    rfl

theorem Stepped.accounts {answers : List (BlockNum × Block)} {accepted : List Block} {r r' : Run τ}
    (h : f.Stepped r r') (hAccounts : r.Accounts answers accepted)
    (hSteady : SteadyNumbers (answers ++ r'.journal.pick Entry.answer?)) :
    r'.Accounts answers accepted := by
  have hPrefix := h.answers_isPrefix
  rcases h.idle_or_processed with ⟨-, hIdle, hPending, hAnswers⟩ | ⟨-, hAbove, b, s, hTakes, hProcessed⟩
  · constructor
    · rw [hIdle.graph, hIdle.accepted, hAnswers]
      exact hAccounts.ledger
    · rw [hPending, hIdle.next, hAnswers]
      exact hAccounts.pending
  · have hSame := hTakes.sameBut
    have hAnswers : s.journal.pick Entry.answer? = r'.journal.pick Entry.answer? :=
      hProcessed.answers_eq.symm
    have hb : (r.next, b) ∈ s.journal.pick Entry.answer? := hTakes.mem_answers hAccounts.pending
    rw [hAnswers] at hb
    have hNum : b.num = r.next := hSteady.asked _ (List.mem_append_right _ hb)
    have hOld : Ledger s.graph (answers ++ r'.journal.pick Entry.answer?)
        (accepted ++ s.journal.pick Entry.accepted?) := by
      rw [hSame.graph, hSame.accepted]
      exact hAccounts.ledger.of_subset ((List.prefix_append_right_inj answers).mpr hPrefix).subset
    obtain ⟨more, hTurn, hMore⟩ := hProcessed.turn
    refine ⟨?_, fun c hc => ?_⟩
    · rw [hMore, ← List.append_assoc]
      refine hOld.turn hSteady (List.mem_append_right _ hb) ?_ hTurn
      rw [hSame.graph, hNum]
      exact hAbove
    · rw [hProcessed.pending_eq, hTakes.pending_eq_none] at hc
      cases hc

theorem accounts_after {answers : List (BlockNum × Block)} {accepted : List Block} {r : Run τ}
    (hStart : r.Accounts answers accepted) (n : Nat)
    (hSteady : SteadyNumbers (answers ++ (f.after n r).journal.pick Entry.answer?)) :
    (f.after n r).Accounts answers accepted := by
  induction n with
  | zero => exact hStart
  | succ n ih =>
    have hStep := f.stepped (f.after n r)
    have hPrefix := (List.prefix_append_right_inj answers).mpr hStep.answers_isPrefix
    exact hStep.accounts (ih (hSteady.of_subset hPrefix.subset)) hSteady

/-- No block id is handed over successfully twice. -/
theorem accepted_once (f : Feed τ) (source : Source) (sinkState : τ) (disk : Disk) (n : Nat)
    (hSteady : SteadyNumbers (f.after n (f.begin source sinkState disk)).journal.answers) :
    ((f.after n (f.begin source sinkState disk)).journal.accepted.map Block.id).Nodup :=
  (accounts_after (f.begin_begun source sinkState disk).accounts n hSteady).ledger.once

/-- Two branches change places twice, and a block of the first comes again. -/
def switching : List Block := [
  .plain "1a" 1 "0a" 0, .plain "2a" 2 "1a" 0, .plain "3b" 3 "2b" 0, .plain "2b" 2 "1a" 0,
  .plain "4a" 4 "3a" 1, .plain "3a" 3 "2a" 1, .plain "5c" 5 "4c" 1, .plain "4a" 4 "3a" 1]

theorem accepted_once_switching :
    let f := undisturbed { start := 1 }
    let r := f.after 8 (f.begin (.scripted switching) () .empty)
    SteadyNumbers r.journal.answers ∧
      r.journal.accepted.map Block.id = ["1a", "2a", "2b", "3b", "3a", "4a"] ∧
      (r.journal.accepted.map Block.id).Nodup := by
  have hSteady : SteadyNumbers ((undisturbed { start := 1 }).after 8
      ((undisturbed { start := 1 }).begin (.scripted switching) () .empty)).journal.answers := by
    decide +kernel
  exact ⟨hSteady, by decide +kernel, accepted_once _ _ _ _ 8 hSteady⟩

end Feed

end ChainFeed
