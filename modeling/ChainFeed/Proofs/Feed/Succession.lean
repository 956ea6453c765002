import ChainFeed.Proofs.Checkpoint.RoundTrip
import ChainFeed.Proofs.Feed.Order
import ChainFeed.Proofs.Feed.Sourced

/-! # Sessions that take over from one another

Each session starts cold, or resumes from a file that an earlier one wrote, under whatever configuration.
What a file hands on is told by laws for the stored blocks. The LIB may break the second law: it is purged
as soon as another block is the LIB.
-/

set_option autoImplicit false

namespace ChainFeed

open ForkGraph

variable {τ : Type} {P Q : Node → Prop}

/-- A law for nodes that is not broken by marking a node, nor by storing it and reading it back. -/
structure Node.Lasting (Q : Node → Prop) : Prop where
  markedIn : ∀ {n : Node}, Q n → ∀ ids, Q (n.markedIn ids)
  restored : ∀ {n : Node}, Q n → Q (StoredRef.ofLink n.toLink).node

theorem Node.lasting_true : Lasting fun _ => True :=
  ⟨fun _ _ => trivial, fun _ => trivial⟩

namespace ForkGraph

/-- The stored blocks keep the first law, and all but the LIB the second as well. -/
def Keeps (P Q : Node → Prop) (g : ForkGraph) : Prop :=
  ∀ n ∈ g.nodes, P n ∧ (g.libId = some n.id ∨ Q n)

namespace Keeps

variable {g : ForkGraph}

theorem link (h : g.Keeps P Q) {b : Block} (hNew : P (.fresh b) ∧ (g.libId = some b.id ∨ Q (.fresh b))) :
    (g.link (.fresh b)).Keeps P Q := by
  intro n hn
  rw [libId, link_lib, ← libId]
  obtain hn | ⟨rfl, -⟩ := mem_link.mp hn
  · exact h n hn
  · exact hNew

theorem markAll (h : g.Keeps P Q) (hP : Node.Lasting P) (hQ : Node.Lasting Q) (ids : List BlockId) :
    (g.markAll ids).Keeps P Q := by
  intro m hm
  obtain ⟨n, hn, rfl⟩ := mem_markAll.mp hm
  rw [libId, markAll_lib, ← libId, Node.markedIn_id]
  obtain ⟨hFirst, hSecond⟩ := h n hn
  exact ⟨hP.markedIn hFirst ids, hSecond.imp_right fun hLaw => hQ.markedIn hLaw ids⟩

theorem purge (h : g.Keeps P Q) {l : Node} (hl : l ∈ g.nodes) (hLib : g.lib = some l.block)
    {head : BlockRef} {num : BlockNum} {g' : ForkGraph} {move : LibMove}
    (hMove : Advance g l.block head num g' move) : g'.purge.Keeps P Q := by
  intro n hn
  have hStored : n ∈ g.nodes := hMove.nodes_eq ▸ (mem_purge.mp hn).1
  -- the old LIB may break the second law, but it is purged if it is not the LIB any more
  exact (h n hStored).imp_right fun hSecond => hSecond.imp_left (hMove.libId_of_mem_purge hl hLib hn)

theorem restore (h : g.Keeps P Q) (hP : Node.Lasting P) (hQ : Node.Lasting Q) {last : Link} {c : Checkpoint}
    (hSnapshot : Checkpoint.snapshot g last = .ok c) : c.restore.Keeps P Q := by
  intro n hn
  obtain ⟨m, hm, -, rfl⟩ := (Checkpoint.mem_restore_of_snapshot hSnapshot).mp hn
  obtain ⟨lib, hLib, hStored, -, -⟩ := Checkpoint.snapshot_eq_ok_iff.mp hSnapshot
  obtain ⟨hFirst, hSecond⟩ := h m hm
  refine ⟨hP.restored hFirst, hSecond.imp (fun hSame => ?_) fun hLaw => hQ.restored hLaw⟩
  rw [libId_of_lib hLib] at hSame
  rw [libId_of_lib c.restore_lib, hStored]
  exact hSame

end Keeps

end ForkGraph

/-- A run that resumes from the checkpoint has its LIB stored, and its blocks keep the laws. -/
structure Checkpoint.Upholds (P Q : Node → Prop) (c : Checkpoint) : Prop where
  anchored : c.restore.Anchored
  keeps : c.restore.Keeps P Q

structure Run.Upholds (P Q : Node → Prop) (r : Run τ) : Prop where
  live : r.ending = none → r.Live
  keeps : r.graph.Keeps P Q
  checkpoints : ∀ c ∈ r.journal.checkpoints, c.Upholds P Q

namespace Feed

variable {f : Feed τ}

/-- The iteration from `r` to `r'` took up the block `b` and processed it. -/
def Processes (f : Feed τ) (r : Run τ) (b : Block) (r' : Run τ) : Prop :=
  r.ending = none ∧ ∃ s, f.Takes r b s ∧ f.Processed b s r'

/-- The block that the iteration from `r` to `r'` took up keeps the laws, or it is the LIB and keeps the
first. -/
def Admits (f : Feed τ) (P Q : Node → Prop) (r r' : Run τ) : Prop :=
  ∀ b, f.Processes r b r' → P (.fresh b) ∧ (r.graph.libId = some b.id ∨ Q (.fresh b))

theorem Admits.keeps_link {r s r' : Run τ} {b : Block} (h : f.Admits P Q r r') (hRunning : r.ending = none)
    (hTakes : f.Takes r b s) (hProcessed : f.Processed b s r') (hKeeps : r.graph.Keeps P Q) :
    (s.link b).graph.Keeps P Q := by
  rw [Run.link_graph, hTakes.sameBut.graph]
  exact hKeeps.link (h b ⟨hRunning, s, hTakes, hProcessed⟩)

section

variable (hP : Node.Lasting P) (hQ : Node.Lasting Q)

include hP hQ

theorem Processed.upholds {r s r' : Run τ} {b : Block} (h : f.Processed b s r') (hTakes : f.Takes r b s)
    (hRunning : r.ending = none) (hUpholds : r.Upholds P Q) (hAdmits : f.Admits P Q r r') :
    r'.Upholds P Q := by
  have hLive := hUpholds.live hRunning
  have hSame := hTakes.sameBut
  have hLinked := hAdmits.keeps_link hRunning hTakes h hUpholds.keeps
  obtain ⟨-, l, hl, hLib, -⟩ := hTakes.linked hLive
  have hKeeps : r'.graph.Keeps P Q := by
    obtain ⟨ids, hGraph⟩ | ⟨ids, lib, graph, move, hOld, hMove, hGraph⟩ := h.graph_cases
    · rw [hGraph]
      exact hLinked.markAll hP hQ ids
    · rw [hGraph]
      rw [Run.link_graph, link_lib, hOld, Option.some.injEq] at hLib
      subst hLib
      rw [← Node.markedIn_toLink ids l] at hMove hOld
      exact (hLinked.markAll hP hQ ids).purge (markedIn_mem_markAll hl ids) (by simpa using hOld) hMove
  refine ⟨h.live hTakes hLive, hKeeps, h.forall_checkpoints hTakes hUpholds.checkpoints ?_⟩
  intro c target last graph hSettles hGraph hSnapshot
  exact ⟨anchored_of_snapshot hSnapshot (hSettles.anchored hTakes hLive), (hGraph ▸ hKeeps).restore hP hQ hSnapshot⟩

theorem Stepped.upholds {r r' : Run τ} (h : f.Stepped r r') (hUpholds : r.Upholds P Q)
    (hAdmits : f.Admits P Q r r') : r'.Upholds P Q := by
  obtain ⟨hEnded, hIdle, -⟩ | ⟨hRunning, -, b, s, hTakes, hProcessed⟩ := h.idle_or_processed
  · refine ⟨fun hRunning => absurd hRunning hEnded, hIdle.graph ▸ hUpholds.keeps, ?_⟩
    rw [Journal.checkpoints_eq_pick, hIdle.checkpoints]
    exact hUpholds.checkpoints
  · exact hProcessed.upholds hP hQ hTakes hRunning hUpholds hAdmits

end

theorem Begun.upholds {disk : Disk} {r : Run τ} (h : f.Begun disk r)
    (hFile : ∀ dir c, f.config.stateDir = some dir → Checkpoint.load disk dir = .ok c → c.Upholds P Q) :
    r.Upholds P Q := by
  have hNone : ∀ c ∈ r.journal.checkpoints, c.Upholds P Q := by
    rw [Journal.checkpoints_eq_pick, h.untouched.checkpoints]
    exact fun c hc => absurd hc List.not_mem_nil
  cases h with
  | ended hEnding _ hGraph =>
    refine ⟨fun hRunning => ?_, fun n hn => ?_, hNone⟩
    · rw [hRunning] at hEnding
      cases hEnding
    · rw [hGraph] at hn
      cases hn
  | cold _ hGraph hCursor _ hPending =>
    refine ⟨fun _ => live_of_justBegun ⟨hGraph, hCursor, hPending⟩, fun n hn => ?_, hNone⟩
    rw [hGraph] at hn
    cases hn
  | resumed hDir hLoad hGraph hCursor =>
    obtain ⟨hAnchored, hKeeps⟩ := hFile _ _ hDir hLoad
    exact ⟨fun _ => live_of_anchored (hGraph ▸ hAnchored) hCursor, hGraph ▸ hKeeps, hNone⟩

end Feed

namespace Session

/-- What the session resumes from, if it does. -/
def Resumes (P : Checkpoint → Prop) (s : Session) : Prop :=
  ∀ dir c, s.feed.config.stateDir = some dir → Checkpoint.load s.disk dir = .ok c → P c

theorem upholds_after {s : Session} (hP : Node.Lasting P) (hQ : Node.Lasting Q)
    (hFile : s.Resumes (Checkpoint.Upholds P Q)) (n : Nat)
    (hAdmits : ∀ k < n, s.feed.Admits P Q (s.after k) (s.after (k + 1))) : (s.after n).Upholds P Q := by
  induction n with
  | zero => exact s.begun.upholds hFile
  | succ n ih =>
    have hBefore := ih fun k hk => hAdmits k (Nat.lt_succ_of_lt hk)
    exact (s.feed.stepped (s.after n)).upholds hP hQ hBefore (hAdmits n (Nat.lt_succ_self n))

/-- Each of the sessions starts cold, or from a file that an earlier one wrote. -/
inductive Succession : List Session → Prop where
  | nil : Succession []
  | snoc {earlier : List Session} {s : Session} (hEarlier : Succession earlier)
      (hDisk : s.feed.ColdStarts s.disk ∨
        ∃ dir, s.feed.config.stateDir = some dir ∧ ∃ e ∈ earlier, ∃ c ∈ e.run.journal.checkpoints,
          s.disk.read (Checkpoint.path dir) = .ok c.bytes) :
      Succession (earlier ++ [s])

namespace Succession

variable {sessions : List Session}

theorem pair {first second : Session} {dir : Path} {c : Checkpoint}
    (hDir : first.feed.config.stateDir = some dir)
    (hNone : (Checkpoint.load first.disk dir).toOption.isNone = true)
    (hDir' : second.feed.config.stateDir = some dir) (hc : c ∈ first.run.journal.checkpoints)
    (hRead : second.disk.read (Checkpoint.path dir) = .ok c.bytes) : Succession [first, second] := by
  have hFirst : Succession ([] ++ [first]) := .snoc .nil (.inl (Feed.coldStarts_of_isNone _ hDir hNone))
  exact .snoc hFirst (.inr ⟨dir, hDir', first, List.mem_singleton_self _, c, hc, hRead⟩)

/-- What each session hands on if it was handed it, every session that resumes is handed. -/
theorem resumes {P : Checkpoint → Prop} (h : Succession sessions)
    (hHanded : ∀ s ∈ sessions, s.Resumes P → ∀ c ∈ s.run.journal.checkpoints, P c) :
    ∀ s ∈ sessions, s.Resumes P := by
  induction h with
  | nil => simp
  | @snoc earlier last hEarlier hDisk ih =>
    have hBefore := ih fun s hs => hHanded s (List.mem_append_left _ hs)
    intro s hs
    obtain hs | hs := List.mem_append.mp hs
    · exact hBefore s hs
    · rw [List.mem_singleton.mp hs]
      intro dir c hDir hLoad
      obtain hCold | ⟨dir', hDir', e, he, d, hd, hRead⟩ := hDisk
      · exact absurd hLoad (hCold dir c hDir)
      · cases hDir.symm.trans hDir'
        cases hLoad.symm.trans (Checkpoint.load_of_read hRead)
        exact hHanded e (List.mem_append_left _ he) (hBefore e he) _ hd

theorem upholds (h : Succession sessions) (hP : Node.Lasting P) (hQ : Node.Lasting Q)
    (hAdmits : ∀ s ∈ sessions, ∀ k < s.iterations, s.feed.Admits P Q (s.after k) (s.after (k + 1))) :
    ∀ s ∈ sessions, s.Resumes (Checkpoint.Upholds P Q) :=
  h.resumes fun s hs hFile => (s.upholds_after hP hQ hFile s.iterations (hAdmits s hs)).checkpoints

theorem upholds_after (h : Succession sessions) (hP : Node.Lasting P) (hQ : Node.Lasting Q)
    (hAdmits : ∀ s ∈ sessions, ∀ k < s.iterations, s.feed.Admits P Q (s.after k) (s.after (k + 1)))
    {s : Session} (hs : s ∈ sessions) {k : Nat} (hk : k ≤ s.iterations) : (s.after k).Upholds P Q :=
  s.upholds_after hP hQ (h.upholds hP hQ hAdmits s hs) k
    fun j hj => hAdmits s hs j (Nat.lt_of_lt_of_le hj hk)

/-- Whatever the sources answer, a session that resumes has its LIB stored, and so it is live while it goes
on. -/
theorem live (h : Succession sessions) {s : Session} (hs : s ∈ sessions) :
    s.Resumes (fun c => c.restore.Anchored) ∧ ∀ n, (s.after n).ending = none → (s.after n).Live := by
  have hAdmits : ∀ s : Session, ∀ k,
      s.feed.Admits (fun _ => True) (fun _ => True) (s.after k) (s.after (k + 1)) :=
    fun _ _ _ _ => ⟨trivial, .inr trivial⟩
  have hFile := h.upholds Node.lasting_true Node.lasting_true (fun s _ k _ => hAdmits s k) s hs
  exact ⟨fun dir c hDir hLoad => (hFile dir c hDir hLoad).anchored,
    fun n => (s.upholds_after Node.lasting_true Node.lasting_true hFile n fun k _ => hAdmits s k).live⟩

end Succession

/-- Three blocks, of which the second is final when the third comes. -/
def settlingDown : Session where
  sinkType := Unit
  feed := .undisturbed { start := 1, stateDir := some ⟨["state"]⟩ }
  source := .scripted [.plain "1a" 1 "0a" 1, .plain "2a" 2 "1a" 1, .plain "3a" 3 "2a" 2]
  sinkState := ()
  disk := .empty
  iterations := 3

/-- What that session leaves. -/
def settledDown : Checkpoint where
  lib := ⟨"2a", 2, ""⟩
  lastFired := ⟨"3a", 3, "2a"⟩
  blocks := [⟨"2a", 2, "1a"⟩, ⟨"3a", 3, "2a"⟩]

/-- A session that finds the disk as that session leaves it takes over from it. -/
theorem succession_settlingDown {s : Session} (hDir : s.feed.config.stateDir = some ⟨["state"]⟩)
    (hDisk : s.disk = settlingDown.run.disk) : Succession [settlingDown, s] := by
  have hNone : (Checkpoint.load settlingDown.disk ⟨["state"]⟩).toOption.isNone = true := by decide +kernel
  have hStored : settledDown ∈ settlingDown.run.journal.checkpoints := by decide +kernel
  have hRead : settlingDown.run.disk.read (Checkpoint.path ⟨["state"]⟩) = .ok settledDown.bytes := by
    decide +kernel
  exact .pair rfl hNone hDir hStored (hDisk ▸ hRead)

end Session

end ChainFeed
