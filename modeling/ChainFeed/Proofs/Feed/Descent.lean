import ChainFeed.Proofs.Feed.Delivery
import ChainFeed.Proofs.Feed.Succession

/-! # Walks towards the LIB go down

Where every block declares its parent's own number, below its own, numbers fall along the way back from the
cursor's head. So each iteration that does not come to the LIB asks for a lower number than it was given,
and only so many of them can follow one another above the LIB.
-/

set_option autoImplicit false

namespace ChainFeed

open ForkGraph

variable {τ : Type}

section

variable {answers : List (BlockNum × Block)}

/-- The node's block was answered, with the node's number. -/
def Node.Answered (answers : List (BlockNum × Block)) (n : Node) : Prop :=
  ∃ a ∈ answers, a.2.ref = n.block

/-- The parent was never answered, or with lower numbers only. -/
def Node.Falls (answers : List (BlockNum × Block)) (n : Node) : Prop :=
  ∀ a ∈ answers, a.2.id = n.parent.id → a.2.num < n.num

theorem Node.Answered.lasting : Lasting (Answered answers) where
  markedIn h ids := by simpa [Answered] using h
  restored h := h

theorem Node.Falls.lasting : Lasting (Falls answers) where
  markedIn h ids := by simpa [Falls] using h
  restored h := h

theorem Node.Answered.num_eq {m n : Node} (hm : m.Answered answers) (hn : n.Answered answers)
    (hSteady : SteadyNumbers answers) (hId : m.id = n.id) : m.num = n.num := by
  obtain ⟨a, ha, hBlock⟩ := hm
  obtain ⟨a', ha', hBlock'⟩ := hn
  have hSame : a.2.id = a'.2.id :=
    (congrArg BlockRef.id hBlock).trans (hId.trans (congrArg BlockRef.id hBlock').symm)
  calc
    m.num = a.2.num := (congrArg BlockRef.num hBlock).symm
    _ = a'.2.num := hSteady.same a ha a' ha' hSame
    _ = n.num := congrArg BlockRef.num hBlock'

/-- Along a path back through answered blocks, numbers fall from each one to all that come after it. -/
theorem Follows.falling {id : BlockId} {path : List Node} (h : Follows id path)
    (hAnswered : ∀ n ∈ path, n.Answered answers) (hFalls : ∀ n ∈ path, n.Falls answers) :
    path.Pairwise fun n m => m.num < n.num := by
  refine h.pairwise_num fun n hn p hp hParent => ?_
  obtain ⟨a, ha, hBlock⟩ := hAnswered p hp
  rw [Node.num, ← hBlock]
  exact hFalls n hn a ha ((congrArg BlockRef.id hBlock).trans hParent)

/-- The block declares its parent's own number, which is below its own. -/
structure Block.Declares (answers : List (BlockNum × Block)) (b : Block) : Prop where
  lower : b.parentNum < b.num
  parent : ∀ a ∈ answers, a.2.id = b.parentId → a.2.num = b.parentNum

instance (answers : List (BlockNum × Block)) (b : Block) : Decidable (b.Declares answers) :=
  decidable_of_iff (b.parentNum < b.num ∧ ∀ a ∈ answers, a.2.id = b.parentId → a.2.num = b.parentNum)
    ⟨fun h => ⟨h.1, h.2⟩, fun h => ⟨h.lower, h.parent⟩⟩

/-- The declared parent is numbered lower, and was never answered with a number that is not lower. -/
def Node.Descends (answers : List (BlockNum × Block)) (n : Node) : Prop :=
  n.parent.num < n.num ∧ n.Falls answers

theorem Node.Descends.lasting : Lasting (Descends answers) where
  markedIn h ids := by simpa [Descends, Falls] using h
  restored {n} h := by
    refine ⟨?_, h.2⟩
    -- a parent that is read back is taken to be one number lower, whatever was declared
    have hPositive : 0 < n.num := UInt64.lt_of_le_of_lt UInt64.zero_le h.1
    exact BlockNum.back_one_lt (UInt64.le_refl _) hPositive

/-- Where a way back stops, the parent is numbered below the block that it started from. -/
theorem Follows.parent_num_lt {id : BlockId} {n oldest : Node} {older : List Node}
    (h : Follows id (n :: older)) (hAnswered : ∀ m ∈ n :: older, m.Answered answers)
    (hDescends : ∀ m ∈ n :: older, m.Descends answers)
    (hOldest : (n :: older).getLast? = some oldest) : oldest.parent.num < n.num := by
  have hLast : oldest ∈ n :: older := List.mem_of_getLast? hOldest
  have hFalling := h.falling hAnswered fun m hm => (hDescends m hm).2
  exact UInt64.lt_of_lt_of_le (hDescends oldest hLast).1 (num_le_head_of_falling hFalling hLast)

theorem Block.Declares.descends {b : Block} (h : b.Declares answers) : (Node.fresh b).Descends answers := by
  refine ⟨h.lower, fun a ha hId => ?_⟩
  rw [h.parent a ha hId]
  exact h.lower

end

namespace Feed

variable {f : Feed τ} {answers : List (BlockNum × Block)}

/-- The iteration from `r` to `r'` processed `b`, and the way back from the cursor's head reached the LIB or
not. -/
inductive Checks (f : Feed τ) (r : Run τ) (b : Block) (r' : Run τ) : Bool → Prop where
  | checked {s : Run τ} {target : BlockRef} (hRunning : r.ending = none) (hTakes : f.Takes r b s)
      (hProcessed : f.Processed b s r') (hHead : (s.link b).cursor.head = some target) :
      Checks f r b r' ((s.link b).graph.segmentTo target).reachesLib

theorem Checks.processes {r r' : Run τ} {b : Block} {reached : Bool} (h : f.Checks r b r' reached) :
    f.Processes r b r' := by
  obtain ⟨hRunning, hTakes, hProcessed, -⟩ := h
  exact ⟨hRunning, _, hTakes, hProcessed⟩

theorem Stepped.ended_or_checks {r r' : Run τ} (h : f.Stepped r r') :
    r'.ending ≠ none ∨ r.graph.libNum ≤ r.next ∧ ∃ b reached, f.Checks r b r' reached := by
  obtain ⟨hEnded, -⟩ | ⟨hRunning, hAbove, b, s, hTakes, hProcessed⟩ := h.idle_or_processed
  · exact .inl hEnded
  cases hHead : (s.link b).cursor.head with
  | some target => exact .inr ⟨hAbove, b, _, .checked hRunning hTakes hProcessed hHead⟩
  | none =>
    left
    cases hProcessed with
    | headless => simp
    | absent hSome | gap hSome | halted hSome | refused hSome | unsaved hSome | connected hSome =>
      rw [hHead] at hSome
      cases hSome

theorem next_wait (f : Feed τ) (r : Run τ) : (f.wait r).next = r.next := by
  obtain hSame | hClosed := f.wait_cases r
  · rw [hSame]
  · rw [hClosed]
    rfl

/-- Where the LIB is not reached, the run asks next for the parent at which the way back stops. -/
theorem Processed.next_of_missed {s r' : Run τ} {b : Block} {target lib : BlockRef} (h : f.Processed b s r')
    (hHead : (s.link b).cursor.head = some target) (hLib : (s.link b).graph.lib = some lib)
    (hReach : ((s.link b).graph.segmentTo target).reachesLib = false)
    (hStored : (s.link b).graph.lineage target.id ≠ []) :
    r'.graph.lib = some lib ∧
      ∃ oldest, ((s.link b).graph.lineage target.id).getLast? = some oldest ∧ r'.next = oldest.parent.num := by
  obtain ⟨-, hNodes, -⟩ := segmentTo_of_not_reachesLib hLib hReach
  have hPath : ((s.link b).graph.segmentTo target).nodes ≠ [] := by
    rw [hNodes]
    exact fun hNil => hStored (List.reverse_eq_nil_iff.mp hNil)
  obtain ⟨first, hFirst, rfl⟩ := h.gap_of_reachesLib_eq_false hHead hPath hReach
  rw [hNodes, List.head?_reverse] at hFirst
  refine ⟨?_, first, hFirst, f.next_wait _⟩
  rw [(f.wait_resembles _).graph]
  exact hLib

/-- An iteration that does not come to the LIB leaves it where it is, and asks for a number below the one that
it was given. -/
theorem Checks.descends {r r' : Run τ} {b : Block} (h : f.Checks r b r' false)
    (hUpholds : r.Upholds (Node.Answered answers) (Node.Descends answers))
    (hAdmits : f.Admits (Node.Answered answers) (Node.Descends answers) r r')
    (hSteady : SteadyNumbers answers) : r'.graph.libNum = r.graph.libNum ∧ r'.next < b.num := by
  generalize hReached : false = reached at h
  obtain @⟨s, target, hRunning, hTakes, hProcessed, hHead⟩ := h
  have hKeeps := hAdmits.keeps_link hRunning hTakes hProcessed hUpholds.keeps
  obtain ⟨⟨goal, hGoal, hMeets⟩, l, -, hLib, -⟩ := hTakes.linked (hUpholds.live hRunning)
  cases hGoal.symm.trans hHead
  obtain ⟨newer, n, older, hLineage, hId, -⟩ := hMeets
  obtain ⟨hMissed, -, -⟩ := segmentTo_of_not_reachesLib hLib hReached.symm
  have hStored : (s.link b).graph.lineage target.id ≠ [] := by
    rw [hLineage]
    simp
  obtain ⟨hSame, oldest, hOldest, hNext⟩ :=
    hProcessed.next_of_missed hHead hLib hReached.symm hStored
  constructor
  · rw [libNum_of_lib hSame, ← libNum_of_lib hLib, Run.link_graph, link_libNum, hTakes.sameBut.graph]
  -- no node on the way is the LIB, so all of them keep both laws
  have hLaws : ∀ m ∈ n :: older, m.Answered answers ∧ m.Descends answers := by
    intro m hm
    have hWay : m ∈ (s.link b).graph.lineage target.id := hLineage ▸ List.mem_append_right _ hm
    obtain ⟨hAnswered, hIsLib | hDescends⟩ := hKeeps m (mem_of_mem_lineage hWay)
    · rw [libId_of_lib hLib, Option.some.injEq] at hIsLib
      exact absurd (hIsLib ▸ List.mem_map_of_mem hWay) hMissed
    · exact ⟨hAnswered, hDescends⟩
  have hFollows := (s.link b).graph.lineage_follows target.id
  rw [hLineage] at hFollows hOldest
  rw [List.getLast?_append_cons] at hOldest
  have hAnswered := (hAdmits b ⟨hRunning, s, hTakes, hProcessed⟩).1
  have hNum : n.num = b.num := (hLaws n List.mem_cons_self).1.num_eq hAnswered hSteady hId
  rw [hNext, ← hNum]
  exact (follows_append.mp hFollows).2.parent_num_lt (fun m hm => (hLaws m hm).1)
    (fun m hm => (hLaws m hm).2) hOldest

end Feed

namespace Session

/-- All that the sessions were answered. -/
def answers (sessions : List Session) : List (BlockNum × Block) :=
  sessions.flatMap fun s => s.run.journal.answers

theorem mem_answers_of_processes {sessions : List Session} {s : Session} (hs : s ∈ sessions) {k : Nat}
    (hk : k < s.iterations) {b : Block} (h : s.feed.Processes (s.after k) b (s.after (k + 1))) :
    ((s.after k).next, b) ∈ answers sessions := by
  obtain ⟨-, t, hTakes, hProcessed⟩ := h
  have hAnswered := (Feed.backed_after s.begun k).answered hTakes
  rw [Journal.answers_eq_pick, ← hProcessed.answers_eq] at hAnswered
  have hLater : (s.after (k + 1)).journal.pick Entry.answer? ⊆ s.run.journal.pick Entry.answer? :=
    (Feed.answers_isPrefix_after s.beginning hk).subset
  refine List.mem_flatMap.mpr ⟨s, hs, ?_⟩
  rw [Journal.answers_eq_pick]
  exact hLater hAnswered

section

variable {sessions : List Session} {P : Node → Prop} (hAnswers : ∀ a ∈ answers sessions, P (.fresh a.2))
  {s : Session} (hs : s ∈ sessions) {k : Nat}

include hAnswers hs

theorem admits_of_answers (hk : k < s.iterations) :
    s.feed.Admits P (fun _ => True) (s.after k) (s.after (k + 1)) :=
  fun _ hb => ⟨hAnswers _ (mem_answers_of_processes hs hk hb), .inr trivial⟩

/-- A law of all blocks that were answered holds of all that is stored. -/
theorem Succession.upholds_of_answers (h : Succession sessions) (hP : Node.Lasting P)
    (hk : k ≤ s.iterations) : (s.after k).Upholds P fun _ => True :=
  h.upholds_after hP Node.lasting_true (fun _ hs _ hk => admits_of_answers hAnswers hs hk) hs hk

end

theorem exists_end_of_misses {s : Session}
    (hMissed : ∀ k < s.iterations, ∀ b, s.feed.Checks (s.after k) b (s.after (k + 1)) false →
      (s.after (k + 1)).graph.libNum = (s.after k).graph.libNum ∧ (s.after (k + 1)).next < (s.after k).next)
    (k : Nat) :
    ∃ i ≤ (s.after k).next.toNat + 1 - (s.after k).graph.libNum.toNat,
      (∀ j < i, ∃ b, s.feed.Checks (s.after (k + j)) b (s.after (k + j + 1)) false) ∧
      (k + i < s.iterations → (s.after (k + i + 1)).ending ≠ none ∨
        ∃ b, s.feed.Checks (s.after (k + i)) b (s.after (k + i + 1)) true) := by
  -- the room between the LIB and the number asked for shrinks with each miss
  induction hRoom : (s.after k).next.toNat + 1 - (s.after k).graph.libNum.toNat
    using Nat.strong_induction_on generalizing k with
  | _ room ih =>
    by_cases hk : k < s.iterations
    · obtain hEnded | ⟨hAbove, b, reached, hChecks⟩ := (s.feed.stepped (s.after k)).ended_or_checks
      · exact ⟨0, Nat.zero_le _, by simp, fun _ => .inl hEnded⟩
      cases reached with
      | true => exact ⟨0, Nat.zero_le _, by simp, fun _ => .inr ⟨b, hChecks⟩⟩
      | false =>
        obtain ⟨hLib, hLower⟩ := hMissed k hk b hChecks
        rw [UInt64.lt_iff_toNat_lt] at hLower
        rw [UInt64.le_iff_toNat_le] at hAbove
        obtain ⟨i, hi, hMisses, hThen⟩ := ih _ (by rw [hLib, ← hRoom]; omega) (k + 1) rfl
        have hShift : ∀ j, k + 1 + j = k + (j + 1) := by omega
        refine ⟨i + 1, by rw [hLib] at hi; omega, fun j hj => ?_, fun hLong => ?_⟩
        · cases j with
          | zero => exact ⟨b, hChecks⟩
          | succ j => exact hShift j ▸ hMisses j (by omega)
        · exact hShift i ▸ hThen (by omega)
    · exact ⟨0, Nat.zero_le _, by simp, fun hLong => absurd hLong hk⟩

/-- If each block but the LIB declares its parent's own number, below its own, then an iteration that does not
come to the LIB asks for a number below the one it was given. So after no more of them than there are numbers
from the LIB to the one asked for, an iteration comes to the LIB or the run ends. -/
theorem walks_descend {sessions : List Session} (h : Succession sessions)
    (hSteady : SteadyNumbers (answers sessions))
    (hDeclares : ∀ s ∈ sessions, ∀ k < s.iterations, ∀ b,
      s.feed.Processes (s.after k) b (s.after (k + 1)) →
        (s.after k).graph.libId = some b.id ∨ b.Declares (answers sessions))
    {s : Session} (hs : s ∈ sessions) :
    (∀ k < s.iterations, ∀ b, s.feed.Checks (s.after k) b (s.after (k + 1)) false →
      b.num = (s.after k).next ∧ (s.after (k + 1)).next < b.num) ∧
    ∀ k, ∃ i ≤ (s.after k).next.toNat + 1 - (s.after k).graph.libNum.toNat,
      (∀ j < i, ∃ b, s.feed.Checks (s.after (k + j)) b (s.after (k + j + 1)) false) ∧
      (k + i < s.iterations → (s.after (k + i + 1)).ending ≠ none ∨
        ∃ b, s.feed.Checks (s.after (k + i)) b (s.after (k + i + 1)) true) := by
  have hAdmits : ∀ s ∈ sessions, ∀ k < s.iterations,
      s.feed.Admits (Node.Answered (answers sessions)) (Node.Descends (answers sessions))
        (s.after k) (s.after (k + 1)) :=
    fun s hs k hk b hb => ⟨⟨_, mem_answers_of_processes hs hk hb, rfl⟩,
      (hDeclares s hs k hk b hb).imp_right Block.Declares.descends⟩
  have hMissed : ∀ k < s.iterations, ∀ b, s.feed.Checks (s.after k) b (s.after (k + 1)) false →
      b.num = (s.after k).next ∧ (s.after (k + 1)).graph.libNum = (s.after k).graph.libNum ∧
        (s.after (k + 1)).next < b.num := by
    intro k hk b hChecks
    have hUpholds := h.upholds_after Node.Answered.lasting Node.Descends.lasting hAdmits hs (Nat.le_of_lt hk)
    refine ⟨?_, hChecks.descends hUpholds (hAdmits s hs k hk) hSteady⟩
    exact hSteady.asked _ (mem_answers_of_processes hs hk hChecks.processes)
  refine ⟨fun k hk b hChecks => ?_, exists_end_of_misses fun k hk b hChecks => ?_⟩
  · obtain ⟨hNum, -, hLower⟩ := hMissed k hk b hChecks
    exact ⟨hNum, hLower⟩
  · obtain ⟨hNum, hLib, hLower⟩ := hMissed k hk b hChecks
    exact ⟨hLib, hNum ▸ hLower⟩

/-- The session that settles down is resumed where the source turns to another branch at each request. -/
def losingWay : Session where
  sinkType := Unit
  feed := .undisturbed { start := 4, stateDir := some ⟨["state"]⟩ }
  source := .scripted [.plain "4b" 4 "3b" 2, .plain "3c" 3 "2c" 2, .plain "2d" 2 "1d" 2]
  sinkState := ()
  disk := settlingDown.run.disk
  iterations := 4

theorem walks_descend_losingWay :
    (losingWay.after 3).ending = none ∧ losingWay.run.ending.isSome = true ∧
    (∀ k < 4, ∀ b, losingWay.feed.Checks (losingWay.after k) b (losingWay.after (k + 1)) false →
      b.num = (losingWay.after k).next ∧ (losingWay.after (k + 1)).next < b.num) ∧
    ∃ i ≤ 3, (∀ j < i, ∃ b, losingWay.feed.Checks (losingWay.after j) b (losingWay.after (j + 1)) false) ∧
      (i < 4 → (losingWay.after (i + 1)).ending ≠ none ∨
        ∃ b, losingWay.feed.Checks (losingWay.after i) b (losingWay.after (i + 1)) true) := by
  have hSuccession : Succession [settlingDown, losingWay] := succession_settlingDown rfl rfl
  have hSteady : SteadyNumbers (answers [settlingDown, losingWay]) := by decide +kernel
  have hAll : ∀ a ∈ answers [settlingDown, losingWay], a.2.Declares (answers [settlingDown, losingWay]) := by
    decide +kernel
  have hLast : losingWay ∈ [settlingDown, losingWay] := by simp
  obtain ⟨hLower, hBound⟩ := walks_descend hSuccession hSteady
    (fun s hs k hk b hb => .inr (hAll _ (mem_answers_of_processes hs hk hb))) hLast
  have hRoom : (losingWay.after 0).next.toNat + 1 - (losingWay.after 0).graph.libNum.toNat = 3 := by
    decide +kernel
  obtain ⟨i, hi, hMisses, hThen⟩ := hBound 0
  rw [hRoom] at hi
  simp only [Nat.zero_add] at hMisses hThen
  exact ⟨by decide +kernel, by decide +kernel, hLower, i, hi, hMisses, hThen⟩

end Session

end ChainFeed
