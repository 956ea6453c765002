import ChainFeed.Proofs.Checkpoint.Inverse
import ChainFeed.Proofs.Feed.Descent

/-! # The snapshots of a run

A path is fired from the LIB on, so the parent of a fired block was fired too, unless the block is the LIB. Purging
may take the parent away, and then all that was ever answered under its id is numbered below the LIB. A checkpoint
hands that on, so the graph of each checkpoint leads from its blocks over the blocks that the run itself would see.
-/

set_option autoImplicit false

namespace ChainFeed

open ForkGraph

variable {τ : Type}

namespace ForkGraph

/-- The parent of a fired block is stored and was fired, or it lies below the LIB, unless the block is the LIB. -/
def FiredDown (answers : List (BlockNum × Block)) (g : ForkGraph) : Prop :=
  ∀ n ∈ g.nodes, n.fired = true → g.libId = some n.id ∨ (∃ p ∈ g.nodes, p.id = n.parent.id ∧ p.fired = true) ∨
    ∀ a ∈ answers, a.2.id = n.parent.id → a.2.num < g.libNum

section

variable {answers : List (BlockNum × Block)} {g g' : ForkGraph}

theorem FiredDown.link (h : g.FiredDown answers) (b : Block) : (g.link (.fresh b)).FiredDown answers := by
  intro n hn hFired
  rw [libId, link_lib, ← libId, link_libNum]
  obtain hOld | ⟨rfl, -⟩ := mem_link.mp hn
  · obtain hIsLib | ⟨p, hp, hParent⟩ | hBelow := h n hOld hFired
    · exact .inl hIsLib
    · exact .inr (.inl ⟨p, mem_link_of_mem hp, hParent⟩)
    · exact .inr (.inr hBelow)
  · cases hFired

/-- On a segment, a block comes right after its parent. -/
theorem head_or_parent_of_mem_segmentTo {target : BlockRef} {passed left : List Node}
    (hPath : (g.segmentTo target).nodes = passed ++ left) {n : Node} (hn : n ∈ passed) :
    passed.head? = some n ∨ ∃ p ∈ passed, p.id = n.parent.id := by
  obtain ⟨sooner, later, rfl⟩ := List.append_of_mem hn
  obtain rfl | ⟨before, p, rfl⟩ := List.eq_nil_or_concat sooner
  · exact .inl rfl
  · right
    have hChain := List.isChain_reverse.mp (g.follows_segmentTo target).isChain
    rw [hPath, List.concat_eq_append, List.append_assoc, List.append_assoc, List.singleton_append,
      List.cons_append, List.isChain_append_cons_cons] at hChain
    exact ⟨p, by simp, hChain.2.1.symm⟩

theorem FiredDown.fire (h : g.FiredDown answers) {target : BlockRef} {passed left : List Node}
    (hPath : (g.segmentTo target).nodes = passed ++ left)
    (hHead : ∀ n, passed.head? = some n → g.libId = some n.id) :
    (g.markAll (newlyFired passed)).FiredDown answers := by
  intro m hm hFired
  obtain ⟨n, hn, rfl⟩ := mem_markAll.mp hm
  rw [libId, markAll_lib, ← libId, markAll_libNum, Node.markedIn_id, Node.markedIn_toLink]
  rw [Node.markedIn_fired, Bool.or_eq_true, decide_eq_true_eq, mem_newlyFired] at hFired
  obtain ⟨k, hk, -, hId⟩ | hBefore := hFired
  · have hStored : ∀ p ∈ passed, p ∈ g.nodes :=
      fun p hp => mem_of_mem_segmentTo (hPath ▸ List.mem_append_left left hp)
    cases eq_of_id_eq (hStored k hk) hn hId
    obtain hFirst | ⟨p, hp, hParent⟩ := head_or_parent_of_mem_segmentTo hPath hk
    · exact .inl (hHead n hFirst)
    · exact .inr (.inl ⟨_, markedIn_mem_markAll (hStored p hp) _, by simpa using hParent, markedIn_newlyFired hp⟩)
  · obtain hIsLib | ⟨p, hp, hParent, hpFired⟩ | hBelow := h n hn hBefore
    · exact .inl hIsLib
    · exact .inr (.inl ⟨_, markedIn_mem_markAll hp _, by simpa using hParent, by simp [hpFired]⟩)
    · exact .inr (.inr hBelow)

/-- A parent that is purged is known to lie below the LIB from then on. -/
theorem FiredDown.settle (h : g.FiredDown answers) (hAnswered : ∀ n ∈ g.nodes, n.Answered answers)
    (hSteady : SteadyNumbers answers) {l : Node} (hl : l ∈ g.nodes) (hLib : g.lib = some l.block)
    {head : BlockRef} {num : BlockNum} {move : LibMove} (hMove : Advance g l.block head num g' move) :
    g'.purge.FiredDown answers := by
  intro n hn hFired
  have hStored : n ∈ g.nodes := hMove.nodes_eq ▸ (mem_purge.mp hn).1
  rw [purge_libNum]
  obtain hIsLib | ⟨p, hp, hParent, hpFired⟩ | hBelow := h n hStored hFired
  · exact .inl (hMove.libId_of_mem_purge hl hLib hn hIsLib)
  · by_cases hKept : g'.libNum ≤ p.num
    · exact .inr (.inl ⟨p, mem_purge.mpr ⟨hMove.nodes_eq ▸ hp, hKept⟩, hParent, hpFired⟩)
    · right
      right
      intro a ha hId
      obtain ⟨a', ha', hBlock⟩ := hAnswered p hp
      have hNum : a.2.num = p.num := by
        rw [hSteady.same a ha a' ha' (hId.trans (hParent.symm.trans (congrArg BlockRef.id hBlock).symm))]
        exact congrArg BlockRef.num hBlock
      rw [hNum]
      exact UInt64.not_le.mp hKept
  · exact .inr (.inr fun a ha hId => UInt64.lt_of_lt_of_le (hBelow a ha hId) (hMove.libNum_le hLib))

theorem FiredDown.turn (h : g.FiredDown answers) {b : Block}
    (hAnswered : ∀ n ∈ (g.link (.fresh b)).nodes, n.Answered answers) (hSteady : SteadyNumbers answers) {l : Node}
    (hl : l ∈ (g.link (.fresh b)).nodes) (hLib : (g.link (.fresh b)).lib = some l.block) {start : BlockNum}
    {accepted : List Block} (hTurn : Turn start b g g' accepted) : g'.FiredDown answers := by
  have hLinked := h.link b
  have hHead : ∀ {target : BlockRef} {passed left : List Node},
      ((g.link (.fresh b)).segmentTo target).reachesLib = true →
      ((g.link (.fresh b)).segmentTo target).nodes = passed ++ left →
      ∀ n, passed.head? = some n → (g.link (.fresh b)).libId = some n.id := by
    intro target passed left hReach hPath n hFirst
    obtain ⟨newer, l', hNodes, -, hId, -⟩ := segmentTo_eq_cons hLib (contains_of_mem hl) hReach
    obtain ⟨rest, rfl⟩ := List.head?_eq_some_iff.mp hFirst
    rw [hPath, List.cons_append] at hNodes
    rw [(List.cons.inj hNodes).1, hId]
    exact libId_of_lib hLib
  cases hTurn with
  | linked => exact hLinked
  | halted hReach hPath => exact hLinked.fire hPath (hHead hReach hPath)
  | @settled target lib path num graph move hOld hReach hPath hMove =>
    have hWhole : ((g.link (.fresh b)).segmentTo target).nodes = path ++ [] := by simpa using hPath
    have hFired := hLinked.fire hWhole (hHead hReach hWhole)
    rw [link_lib, hOld, Option.some.injEq] at hLib
    subst hLib
    rw [← Node.markedIn_toLink (newlyFired path) l] at hMove hOld
    refine hFired.settle (fun m hm => ?_) hSteady (markedIn_mem_markAll hl _) (by simpa using hOld) hMove
    obtain ⟨n, hn, rfl⟩ := mem_markAll.mp hm
    exact Node.Answered.lasting.markedIn (hAnswered n hn) _

theorem FiredDown.restore (h : g.FiredDown answers) {last : Link} {c : Checkpoint}
    (hSnapshot : Checkpoint.snapshot g last = .ok c) : c.restore.FiredDown answers := by
  obtain ⟨lib, hLib, hStored, -, -⟩ := Checkpoint.snapshot_eq_ok_iff.mp hSnapshot
  have hSame : c.restore.libId = g.libId := by
    rw [libId_of_lib c.restore_lib, libId_of_lib hLib, hStored]
    rfl
  intro m hm _
  obtain ⟨n, hn, hFired, rfl⟩ := (Checkpoint.mem_restore_of_snapshot hSnapshot).mp hm
  rw [hSame, Checkpoint.libNum_of_snapshot hSnapshot]
  obtain hIsLib | ⟨p, hp, hParent, hpFired⟩ | hBelow := h n hn hFired
  · exact .inl hIsLib
  · exact .inr (.inl ⟨_, (Checkpoint.mem_restore_of_snapshot hSnapshot).mpr ⟨p, hp, hpFired, rfl⟩, hParent, rfl⟩)
  · exact .inr (.inr hBelow)

/-- Once all below the LIB is purged, a parent that lies below the LIB is not stored. -/
theorem FiredDown.firedBackToLib (h : g.FiredDown answers) (hAnswered : ∀ n ∈ g.nodes, n.Answered answers)
    (hAbove : ∀ n ∈ g.nodes, g.libNum ≤ n.num) : g.FiredBackToLib := by
  intro n hn hFired hOther p hp hId
  obtain hIsLib | ⟨p', hp', hParent, hpFired⟩ | hBelow := h n hn hFired
  · exact absurd hIsLib hOther
  · rw [eq_of_id_eq hp hp' (hId.trans hParent.symm)]
    exact hpFired
  · obtain ⟨a, ha, hBlock⟩ := hAnswered p hp
    have hLow := hBelow a ha ((congrArg BlockRef.id hBlock).trans hId)
    rw [show a.2.num = p.num from congrArg BlockRef.num hBlock] at hLow
    exact absurd hLow (UInt64.not_lt.mpr (hAbove p hp))

end

end ForkGraph

/-! ## Runs -/

/-- The graph of the run and the graphs of its checkpoints hold fired blocks with their fired parents. -/
structure Run.FiredDown (answers : List (BlockNum × Block)) (r : Run τ) : Prop where
  graph : r.graph.FiredDown answers
  checkpoints : ∀ c ∈ r.journal.checkpoints, c.restore.FiredDown answers

namespace Feed

variable {f : Feed τ} {answers : List (BlockNum × Block)}

theorem Stepped.firedDown {r r' : Run τ} {Q : Node → Prop} (h : f.Stepped r r') (hDown : r.FiredDown answers)
    (hUpholds : r.Upholds (Node.Answered answers) Q) (hAdmits : f.Admits (Node.Answered answers) Q r r')
    (hSteady : SteadyNumbers answers) : r'.FiredDown answers := by
  obtain ⟨-, hIdle, -⟩ | ⟨hRunning, -, b, s, hTakes, hProcessed⟩ := h.idle_or_processed
  · refine ⟨hIdle.graph ▸ hDown.graph, ?_⟩
    rw [Journal.checkpoints_eq_pick, hIdle.checkpoints]
    exact hDown.checkpoints
  have hKeeps := hAdmits.keeps_link hRunning hTakes hProcessed hUpholds.keeps
  obtain ⟨-, l, hl, hLib, -⟩ := hTakes.linked (hUpholds.live hRunning)
  obtain ⟨accepted, hTurn, -⟩ := hProcessed.turn
  have hGraph : r'.graph.FiredDown answers := by
    have hBefore := hDown.graph
    rw [← hTakes.sameBut.graph] at hBefore
    exact hBefore.turn (fun n hn => (hKeeps n hn).1) hSteady hl hLib hTurn
  exact ⟨hGraph, hProcessed.forall_checkpoints hTakes hDown.checkpoints fun c _ _ _ _ hPurged hSnapshot =>
    (hPurged ▸ hGraph).restore hSnapshot⟩

theorem Begun.firedDown {disk : Disk} {r : Run τ} (h : f.Begun disk r)
    (hFile : ∀ dir c, f.config.stateDir = some dir → Checkpoint.load disk dir = .ok c →
      c.restore.FiredDown answers) : r.FiredDown answers := by
  refine ⟨?_, ?_⟩
  · cases h with
    | ended _ _ hGraph | cold _ hGraph =>
      rw [hGraph]
      exact fun n hn => absurd hn List.not_mem_nil
    | resumed hDir hLoad hGraph => exact hGraph ▸ hFile _ _ hDir hLoad
  · rw [Journal.checkpoints_eq_pick, h.untouched.checkpoints]
    exact fun c hc => absurd hc List.not_mem_nil

/-- An iteration saves one checkpoint at most. That is a snapshot of the graph that it leaves, with all below the LIB
purged. -/
theorem Stepped.checkpoints_cases {r r' : Run τ} (h : f.Stepped r r') :
    r'.journal.checkpoints = r.journal.checkpoints ∨
      ∃ c last, r'.journal.checkpoints = r.journal.checkpoints ++ [c] ∧ Checkpoint.snapshot r'.graph last = .ok c ∧
        ∀ n ∈ r'.graph.nodes, r'.graph.libNum ≤ n.num := by
  obtain ⟨-, hIdle, -⟩ | ⟨-, -, b, s, hTakes, hProcessed⟩ := h.idle_or_processed
  · exact .inl hIdle.checkpoints
  have hBefore : s.journal.checkpoints = r.journal.checkpoints := hTakes.sameBut.checkpoints
  obtain hKept | ⟨c, target, last, graph, -, hPurged, hSnapshot, hMore⟩ := hProcessed.checkpoints_cases
  · exact .inl (hKept.trans hBefore)
  · rw [hPurged]
    exact .inr ⟨c, last.toLink, hBefore ▸ hMore, hSnapshot, fun n hn => (mem_purge.mp hn).2⟩

end Feed

/-- From each fired block of `g`, what is read back from `c` leads over the same blocks, and comes to the LIB if `g`
does. -/
def Checkpoint.Retraces (c : Checkpoint) (g : ForkGraph) : Prop :=
  ∀ n ∈ g.nodes, n.fired = true →
    (c.restore.segmentTo n.block).links.map Link.block = (g.segmentTo n.block).links.map Link.block ∧
      (c.restore.segmentTo n.block).reachesLib = (g.segmentTo n.block).reachesLib

theorem Checkpoint.retraces_of_snapshot {g : ForkGraph} {last : Link} {c : Checkpoint}
    (h : snapshot g last = .ok c) (hBack : g.FiredBackToLib) : c.Retraces g := by
  intro n hn hFired
  rw [segmentTo_restore h hBack hn hFired]
  refine ⟨?_, rfl⟩
  simp only [Segment.links, List.map_map]
  rfl

namespace Session

/-- The session saved `c` in its iteration `k`. -/
def Saves (s : Session) (k : Nat) (c : Checkpoint) : Prop :=
  (s.after (k + 1)).journal.checkpoints = (s.after k).journal.checkpoints ++ [c]

instance (s : Session) (k : Nat) (c : Checkpoint) : Decidable (s.Saves k c) :=
  inferInstanceAs (Decidable (_ = _))

theorem exists_saves_of_mem (s : Session) (n : Nat) :
    ∀ c ∈ (s.after n).journal.checkpoints, ∃ k < n, s.Saves k c := by
  induction n with
  | zero =>
    intro c hc
    rw [Journal.checkpoints_eq_pick, show s.after 0 = s.beginning from rfl, s.begun.untouched.checkpoints] at hc
    cases hc
  | succ n ih =>
    intro c hc
    have hEarlier : c ∈ (s.after n).journal.checkpoints → ∃ k < n + 1, s.Saves k c := by
      intro hc
      obtain ⟨k, hk, hSaves⟩ := ih c hc
      exact ⟨k, Nat.lt_succ_of_lt hk, hSaves⟩
    have hStep : s.feed.Stepped (s.after n) (s.after (n + 1)) := s.feed.stepped _
    obtain hKept | ⟨d, -, hMore, -⟩ := hStep.checkpoints_cases
    · exact hEarlier (hKept ▸ hc)
    · rw [hMore, List.mem_append, List.mem_singleton] at hc
      obtain hc | rfl := hc
      · exact hEarlier hc
      · exact ⟨n, Nat.lt_succ_self n, hMore⟩

section

variable {sessions : List Session} (h : Succession sessions) (hSteady : SteadyNumbers (answers sessions))
  {s : Session} (hs : s ∈ sessions)

include h hs

theorem Succession.answered {k : Nat} (hk : k ≤ s.iterations) :
    (s.after k).Upholds (Node.Answered (answers sessions)) fun _ => True :=
  h.upholds_of_answers (fun a ha => ⟨a, ha, rfl⟩) hs Node.Answered.lasting hk

include hSteady

theorem Succession.firedDown_of_resumes
    (hFile : s.Resumes fun c => c.restore.FiredDown (answers sessions)) {k : Nat} (hk : k ≤ s.iterations) :
    (s.after k).FiredDown (answers sessions) := by
  induction k with
  | zero => exact s.begun.firedDown hFile
  | succ k ih =>
    have hAdmits := admits_of_answers (P := Node.Answered (answers sessions)) (fun a ha => ⟨a, ha, rfl⟩) hs hk
    exact (s.feed.stepped (s.after k)).firedDown (ih (Nat.le_of_succ_le hk)) (h.answered hs (Nat.le_of_succ_le hk))
      hAdmits hSteady

theorem Succession.firedDown_after {k : Nat} (hk : k ≤ s.iterations) :
    (s.after k).FiredDown (answers sessions) := by
  have hFile := h.resumes (P := fun c => c.restore.FiredDown (answers sessions)) fun s hs hFile =>
    (h.firedDown_of_resumes hSteady hs hFile (Nat.le_refl s.iterations)).checkpoints
  exact h.firedDown_of_resumes hSteady hs (hFile s hs) hk

theorem Succession.retraces {k : Nat} (hk : k < s.iterations) {c : Checkpoint} (hSaves : s.Saves k c) :
    (∃ last, Checkpoint.snapshot (s.after (k + 1)).graph last = .ok c) ∧ c.Retraces (s.after (k + 1)).graph := by
  have hStep : s.feed.Stepped (s.after k) (s.after (k + 1)) := s.feed.stepped _
  unfold Saves at hSaves
  obtain hKept | ⟨d, last, hMore, hSnapshot, hAbove⟩ := hStep.checkpoints_cases
  · rw [hKept] at hSaves
    simp at hSaves
  · rw [hSaves, List.append_cancel_left_eq, List.singleton_inj] at hMore
    subst hMore
    have hDown := (h.firedDown_after hSteady hs hk).graph
    have hAnswered := (h.answered hs hk).keeps
    exact ⟨⟨last, hSnapshot⟩, Checkpoint.retraces_of_snapshot hSnapshot
      (hDown.firedBackToLib (fun n hn => (hAnswered n hn).1) hAbove)⟩

end

/-- Taking a snapshot and reading it back are inverse on the fired part of any graph that has a LIB. In a run, what
is read back from a checkpoint leads from each of its blocks over the same blocks as the graph that was saved. -/
theorem snapshots_invert :
    (∀ (g : ForkGraph) (lib : BlockRef) (last : Link), g.lib = some lib →
      ∃ c h, Checkpoint.snapshot g last = .ok c ∧ c.Mirrors g lib h) ∧
    ∀ sessions, Succession sessions → SteadyNumbers (answers sessions) → ∀ s ∈ sessions,
      (∀ c ∈ s.run.journal.checkpoints, ∃ k < s.iterations, s.Saves k c) ∧
      ∀ k < s.iterations, ∀ c, s.Saves k c →
        (∃ last, Checkpoint.snapshot (s.after (k + 1)).graph last = .ok c) ∧ c.Retraces (s.after (k + 1)).graph :=
  ⟨fun _ _ last hLib => Checkpoint.exists_mirrors hLib last, fun _ h hSteady s hs =>
    ⟨s.exists_saves_of_mem s.iterations, fun _ hk _ hSaves => h.retraces hSteady hs hk hSaves⟩⟩

/-- A fired branch is left for another one, on which the LIB then moves. A block of a third branch is never fired. -/
def leavingBranch : Session where
  sinkType := Unit
  feed := .undisturbed { start := 1, retries := 1, stateDir := some ⟨["state"]⟩ }
  source := .scripted [.plain "1a" 1 "0a" 1, .plain "2a" 2 "1a" 1, .plain "3c" 3 "2c" 1, .plain "2b" 2 "1a" 1,
    .plain "3b" 3 "2b" 1, .plain "4b" 4 "3b" 2]
  sinkState := ()
  disk := .empty
  iterations := 6

/-- What that session leaves. -/
def leftBranch : Checkpoint where
  lib := ⟨"2b", 2, ""⟩
  lastFired := ⟨"4b", 4, "3b"⟩
  blocks := [⟨"2a", 2, "1a"⟩, ⟨"2b", 2, "1a"⟩, ⟨"3b", 3, "2b"⟩, ⟨"4b", 4, "3b"⟩]

/-- The next session goes on from there. -/
def stayingOnBranch : Session where
  sinkType := Unit
  feed := .undisturbed { start := 1, retries := 1, stateDir := some ⟨["state"]⟩ }
  source := .scripted [.plain "5b" 5 "4b" 3]
  sinkState := ()
  disk := leavingBranch.run.disk
  iterations := 1

/-- What the next session leaves. -/
def stayedOnBranch : Checkpoint where
  lib := ⟨"3b", 3, ""⟩
  lastFired := ⟨"5b", 5, "4b"⟩
  blocks := [⟨"3b", 3, "2b"⟩, ⟨"4b", 4, "3b"⟩, ⟨"5b", 5, "4b"⟩]

theorem snapshots_invert_stayingOnBranch :
    (leavingBranch.after 6).graph.lib = some ⟨"2b", 2⟩ ∧
    (∃ c h, Checkpoint.snapshot (leavingBranch.after 6).graph ⟨⟨"4b", 4⟩, ⟨"3b", 3⟩⟩ = .ok c ∧
      c.Mirrors (leavingBranch.after 6).graph ⟨"2b", 2⟩ h) ∧
    Succession [leavingBranch, stayingOnBranch] ∧ SteadyNumbers (answers [leavingBranch, stayingOnBranch]) ∧
    (leavingBranch.Saves 5 leftBranch ∧ leftBranch.Retraces (leavingBranch.after 6).graph) ∧
    stayingOnBranch.Saves 0 stayedOnBranch ∧ stayedOnBranch.Retraces (stayingOnBranch.after 1).graph := by
  have hLib : (leavingBranch.after 6).graph.lib = some ⟨"2b", 2⟩ := by decide +kernel
  have hNone : (Checkpoint.load leavingBranch.disk ⟨["state"]⟩).toOption.isNone = true := by decide +kernel
  have hStored : leftBranch ∈ leavingBranch.run.journal.checkpoints := by decide +kernel
  have hRead : stayingOnBranch.disk.read (Checkpoint.path ⟨["state"]⟩) = .ok leftBranch.bytes := by
    decide +kernel
  have hSuccession : Succession [leavingBranch, stayingOnBranch] := .pair rfl hNone rfl hStored hRead
  have hSteady : SteadyNumbers (answers [leavingBranch, stayingOnBranch]) := by decide +kernel
  have hLeft : leavingBranch.Saves 5 leftBranch := by decide +kernel
  have hStayed : stayingOnBranch.Saves 0 stayedOnBranch := by decide +kernel
  obtain ⟨hMirrors, hRetraces⟩ := snapshots_invert
  obtain ⟨-, hFirst⟩ := hRetraces _ hSuccession hSteady leavingBranch (by simp)
  obtain ⟨-, hSecond⟩ := hRetraces _ hSuccession hSteady stayingOnBranch (by simp)
  exact ⟨hLib, hMirrors _ _ _ hLib, hSuccession, hSteady,
    ⟨hLeft, (hFirst 5 (by decide) _ hLeft).2⟩, hStayed, (hSecond 0 (by decide) _ hStayed).2⟩

/-- The block that was never fired is stored when the file is written, and is not read back from it. -/
example :
    (leavingBranch.after 6).graph.nodes.map Node.id = ["2a", "2b", "3b", "3c", "4b"] ∧
      leftBranch.restore.nodes.map Node.id = ["2a", "2b", "3b", "4b"] := by
  decide +kernel

end Session

end ChainFeed
