import ChainFeed.Proofs.BlockNum
import ChainFeed.Proofs.Checkpoint.Restore
import ChainFeed.Proofs.Feed.Served

/-! # What a run knows from its source

Whatever a run that started cold has stored was answered, and is stored as it was answered. And as soon as
a LIB was reported, no run has one above the highest report.
-/

set_option autoImplicit false

namespace ChainFeed

open ForkGraph

variable {τ : Type}

/-- Each node stands for a block that was answered, with its content. -/
def ForkGraph.Sourced (g : ForkGraph) (answers : List (BlockNum × Block)) : Prop :=
  ∀ n ∈ g.nodes, ∃ a ∈ answers, n.toLink = a.2.link ∧ n.content = some a.2

/-- A LIB that the source reported is not numbered above all reports. -/
def ForkGraph.Reported (g : ForkGraph) (answers : List (BlockNum × Block)) : Prop :=
  g.libReported = true → ∃ a ∈ answers, g.libNum ≤ a.2.libNum

/-- No LIB is reported below one that was reported before. -/
def Rising (answers : List (BlockNum × Block)) : Prop :=
  answers.Pairwise fun a a' => a.2.libNum ≤ a'.2.libNum

instance (answers : List (BlockNum × Block)) : Decidable (Rising answers) :=
  inferInstanceAs (Decidable (answers.Pairwise _))

namespace ForkGraph

variable {g g' : ForkGraph} {answers more : List (BlockNum × Block)}

theorem Sourced.of_subset (h : g.Sourced answers) (hSub : answers ⊆ more) : g.Sourced more := by
  intro n hn
  obtain ⟨a, ha, hNode⟩ := h n hn
  exact ⟨a, hSub ha, hNode⟩

theorem Sourced.link (h : g.Sourced answers) {a : BlockNum × Block} (ha : a ∈ answers) :
    (g.link (.fresh a.2)).Sourced answers := by
  intro n hn
  rcases mem_link.mp hn with hn | ⟨rfl, -⟩
  · exact h n hn
  · exact ⟨a, ha, rfl, rfl⟩

theorem Sourced.markAll (h : g.Sourced answers) (ids : List BlockId) : (g.markAll ids).Sourced answers := by
  intro n hn
  obtain ⟨m, hm, rfl⟩ := mem_markAll.mp hn
  rw [Node.markedIn_toLink, Node.markedIn_content]
  exact h m hm

theorem Sourced.purge (h : g.Sourced answers) (hNodes : g'.nodes = g.nodes) : g'.purge.Sourced answers := by
  intro n hn
  exact h n (hNodes ▸ (mem_purge.mp hn).1)

theorem Reported.of_subset (h : g.Reported answers) (hSub : answers ⊆ more) : g.Reported more := by
  intro hReported
  obtain ⟨a, ha, hLe⟩ := h hReported
  exact ⟨a, hSub ha, hLe⟩

theorem Sourced.fits {c : Chain} (h : g.Sourced answers) (hAgrees : c.Agrees answers) : c.Fits g where
  num n hn m hId := by
    obtain ⟨a, ha, hNode, -⟩ := h n hn
    have hSame := hNode.trans (hAgrees.link a ha m ((congrArg Link.id hNode).symm.trans hId))
    exact congrArg Link.num hSame
  parent n hn m hId := by
    obtain ⟨a, ha, hNode, -⟩ := h n hn
    have hSame := hNode.trans (hAgrees.link a ha m ((congrArg Link.id hNode).symm.trans hId))
    exact congrArg (fun l => l.parent.id) hSame
  root n hn := by
    obtain ⟨a, ha, hNode, -⟩ := h n hn
    intro hId
    exact hAgrees.root a ha ((congrArg Link.id hNode).symm.trans hId)

theorem Sourced.toLink_eq {c : Chain} {m : BlockNum} {n : Node} (h : g.Sourced answers)
    (hAgrees : c.Agrees answers) (hn : n ∈ g.nodes) (hBlock : n.block = c.ref m) : n.toLink = c.link m := by
  obtain ⟨a, ha, hNode, -⟩ := h n hn
  refine hNode.trans (hAgrees.link a ha m ?_)
  exact (congrArg Link.id hNode).symm.trans (congrArg BlockRef.id hBlock)

end ForkGraph

/-- A report below neither the LIB nor the LIB's number is no way back. -/
theorem Config.le_libAfter {c : Config} {b : Block} {lib : BlockNum} (hNum : lib ≤ b.num)
    (hReport : c.forceFinality = none → lib ≤ b.libNum) : lib ≤ c.libAfter b lib := by
  unfold libAfter
  cases hForce : c.forceFinality with
  | none => exact Std.le_min_iff.mpr ⟨hReport hForce, hNum⟩
  | some depth => exact BlockNum.le_max_right _ _

theorem Config.libAfter_le {c : Config} {b : Block} {lib : BlockNum} (hForce : c.forceFinality = none) :
    c.libAfter b lib ≤ b.libNum := by
  rw [libAfter, hForce]
  exact Std.min_le_left

/-- The number that `b` makes final, wherever the LIB is by then. -/
def Config.finalBy (c : Config) (b : Block) : BlockNum :=
  match c.forceFinality with
  | none => min b.libNum b.num
  | some depth => max (min b.libNum b.num) (b.num.back depth)

theorem Config.max_libAfter (c : Config) (b : Block) (lib : BlockNum) :
    max lib (c.libAfter b lib) = max lib (c.finalBy b) := by
  unfold libAfter finalBy
  cases c.forceFinality with
  | none => rfl
  | some depth => exact BlockNum.max_max_self _ _

theorem Config.finalBy_le (c : Config) (b : Block) : c.finalBy b ≤ b.num := by
  unfold finalBy
  cases c.forceFinality with
  | none => exact Std.min_le_right
  | some depth => exact BlockNum.max_le Std.min_le_right (BlockNum.back_le _ _)

namespace Feed

variable {f : Feed τ}

/-- Processing a block links it, may mark nodes, and then may settle the LIB. -/
theorem Processed.graph_cases {b : Block} {r r' : Run τ} (h : f.Processed b r r') :
    (∃ ids, r'.graph = (r.graph.link (.fresh b)).markAll ids) ∨
      ∃ ids lib graph move, r.graph.lib = some lib ∧
        Advance ((r.graph.link (.fresh b)).markAll ids) lib b.ref (f.config.libAfter b r.graph.libNum)
          graph move ∧ r'.graph = graph.purge := by
  have hSettled : ∀ {target : BlockRef} {s : Run τ} {graph : ForkGraph} {move : LibMove},
      (fire f.sink f.config.start ((r.link b).graph.segmentTo target).nodes
        (r.link b).graph r.sinkState).ending = none →
      f.handOver ((r.link b).graph.segmentTo target).nodes (r.check b target) = s →
      s.graph.advanceLib b.ref (f.config.libAfter b s.graph.libNum) = .ok (graph, move) →
      ∃ ids lib, r.graph.lib = some lib ∧
        Advance ((r.graph.link (.fresh b)).markAll ids) lib b.ref (f.config.libAfter b r.graph.libNum)
          graph move := by
    intro target s graph move hFired hOver hMove
    have hGraph := handOver_graph_of_fired hFired hOver
    obtain ⟨lib, hLib⟩ := lib_of_advanceLib hMove
    have hAdvance := advance_of_advanceLib hLib hMove
    rw [hGraph] at hLib hAdvance
    rw [markAll_libNum, Run.link_graph, link_libNum] at hAdvance
    exact ⟨_, lib, by simpa using hLib, hAdvance⟩
  cases h with
  | headless | absent => exact .inl ⟨[], rfl⟩
  | gap => exact .inl ⟨[], (f.wait_resembles _).graph⟩
  | halted =>
    obtain ⟨passed, -, -, -, hGraph, -, -⟩ := handOver_passes (f := f) _ (r.check b _)
    exact .inl ⟨_, hGraph⟩
  | refused _ _ hFired hOver =>
    have hGraph := handOver_graph_of_fired hFired hOver
    exact .inl ⟨_, hGraph⟩
  | unsaved _ _ _ hFired hOver hMove hUnsaved =>
    obtain ⟨ids, lib, hLib, hAdvance⟩ := hSettled hFired hOver hMove
    exact .inr ⟨ids, lib, _, _, hLib, hAdvance, hUnsaved.graph_eq⟩
  | connected _ _ _ hFired hOver hMove hSaved =>
    obtain ⟨ids, lib, hLib, hAdvance⟩ := hSettled hFired hOver hMove
    exact .inr ⟨ids, lib, _, _, hLib, hAdvance, (f.goOn_resembles _ _).graph.trans hSaved.graph_eq⟩

/-! ## Reports -/

theorem Processed.reported {b : Block} {asked : BlockNum} {r r' : Run τ} (h : f.Processed b r r')
    (hForce : f.config.forceFinality = none) (hb : (asked, b) ∈ r'.journal.answers)
    (hBefore : r.graph.Reported r'.journal.answers) : r'.graph.Reported r'.journal.answers := by
  rcases h.graph_cases with ⟨ids, hGraph⟩ | ⟨ids, lib, graph, move, hLib, hAdvance, hGraph⟩
  · rw [hGraph]
    intro hReported
    rw [markAll_libReported, link_libReported] at hReported
    rw [markAll_libNum, link_libNum]
    exact hBefore hReported
  · rw [hGraph]
    intro hReported
    rcases hAdvance.libNum_cases (by simpa using hLib) with hNum | ⟨hSame, hNum⟩
    · refine ⟨_, hb, ?_⟩
      rw [purge_libNum, hNum]
      exact Config.libAfter_le hForce
    · rw [purge_libNum, hNum, markAll_libNum, link_libNum]
      refine hBefore ?_
      have hStill : graph.libReported = true := hReported
      rw [hSame, markAll_libReported, link_libReported] at hStill
      exact hStill

/-- What ties a run to what its source answered. -/
structure Backed (f : Feed τ) (r : Run τ) : Prop where
  reported : f.config.forceFinality = none → r.graph.Reported r.journal.answers
  pending : ∀ b, r.pending = some b → r.JustBegun b ∧ (r.next, b) ∈ r.journal.answers

theorem Begun.backed {disk : Disk} {r : Run τ} (h : f.Begun disk r) : f.Backed r := by
  constructor
  · rintro - hReported
    cases h with
    | ended _ _ hGraph | cold _ hGraph =>
      rw [hGraph] at hReported
      cases hReported
    | resumed _ _ hGraph =>
      rw [hGraph, Checkpoint.restore_libReported] at hReported
      cases hReported
  · intro b hb
    cases h with
    | ended _ _ _ hPending | resumed _ _ _ _ hPending =>
      rw [hPending] at hb
      cases hb
    | cold _ hGraph hCursor hNext hPending _ hAnswers =>
      cases hPending.symm.trans hb
      refine ⟨⟨hGraph, hCursor, hPending⟩, ?_⟩
      rw [hNext, Journal.answers_eq_pick, hAnswers]
      exact List.mem_singleton_self _

theorem Backed.answered {r s : Run τ} {b : Block} (h : f.Backed r) (hTakes : f.Takes r b s) :
    (r.next, b) ∈ s.journal.answers :=
  hTakes.mem_answers fun c hc => (h.pending c hc).2

theorem Stepped.backed {r r' : Run τ} (h : f.Stepped r r') (hBacked : f.Backed r) : f.Backed r' := by
  rcases h.idle_or_processed with ⟨-, hIdle, hPending, hAnswers⟩ | ⟨-, -, b, s, hTakes, hProcessed⟩
  · constructor
    · rw [hIdle.graph, Journal.answers_eq_pick, hAnswers]
      exact hBacked.reported
    · intro c hc
      obtain ⟨⟨hGraph, hCursor, -⟩, hAnswered⟩ := hBacked.pending c (hPending ▸ hc)
      refine ⟨⟨hIdle.graph.trans hGraph, hIdle.cursor.trans hCursor, hc⟩, ?_⟩
      rw [hIdle.next, Journal.answers_eq_pick, hAnswers]
      exact hAnswered
  · have hSame : r'.journal.answers = s.journal.answers := hProcessed.answers_eq
    constructor
    · intro hForce
      refine hProcessed.reported hForce (hSame ▸ hBacked.answered hTakes) ?_
      rw [hSame, hTakes.sameBut.graph]
      exact (hBacked.reported hForce).of_subset hTakes.answers_subset
    · intro c hc
      rw [hProcessed.pending_eq, hTakes.pending_eq_none] at hc
      cases hc

theorem backed_after {disk : Disk} {r : Run τ} (h : f.Begun disk r) (n : Nat) : f.Backed (f.after n r) :=
  f.after_induction h.backed (fun _ _ hBacked hStep => hStep.backed hBacked) n

/-- While reports rise, none of them is below the LIB. -/
theorem Takes.le_libNum {r s : Run τ} {b : Block} (hTakes : f.Takes r b s) (h : f.Backed r)
    (hRising : Rising s.journal.answers) (hForce : f.config.forceFinality = none)
    (hReported : r.graph.libReported = true) : r.graph.libNum ≤ b.libNum := by
  rcases hTakes.answers_eq with ⟨hPending, -⟩ | ⟨-, hMore⟩
  · rw [(h.pending b hPending).1.1] at hReported
    cases hReported
  · obtain ⟨a, ha, hLe⟩ := h.reported hForce hReported
    rw [Rising, Journal.answers_eq_pick, hMore, List.pairwise_append] at hRising
    exact UInt64.le_trans hLe (hRising.2.2 a ha _ (List.mem_singleton_self _))

/-! ## Nodes -/

theorem Processed.sourced {b : Block} {asked : BlockNum} {r r' : Run τ} (h : f.Processed b r r')
    (hb : (asked, b) ∈ r'.journal.answers) (hBefore : r.graph.Sourced r'.journal.answers) :
    r'.graph.Sourced r'.journal.answers := by
  have hLinked := hBefore.link hb
  rcases h.graph_cases with ⟨ids, hGraph⟩ | ⟨ids, lib, graph, move, -, hAdvance, hGraph⟩
  · rw [hGraph]
    exact hLinked.markAll ids
  · rw [hGraph]
    exact (hLinked.markAll ids).purge hAdvance.nodes_eq

theorem Stepped.sourced {r r' : Run τ} (h : f.Stepped r r') (hBacked : f.Backed r)
    (hSourced : r.graph.Sourced r.journal.answers) : r'.graph.Sourced r'.journal.answers := by
  rcases h.idle_or_processed with ⟨-, hIdle, -, hAnswers⟩ | ⟨-, -, b, s, hTakes, hProcessed⟩
  · rw [hIdle.graph, Journal.answers_eq_pick, hAnswers]
    exact hSourced
  · have hSame : r'.journal.answers = s.journal.answers := hProcessed.answers_eq
    refine hProcessed.sourced (hSame ▸ hBacked.answered hTakes) ?_
    rw [hSame, hTakes.sameBut.graph]
    exact hSourced.of_subset hTakes.answers_subset

/-- In a run that started cold, every node is a block that was answered, and the LIB stays stored. -/
structure Grounded (f : Feed τ) (r : Run τ) : Prop extends f.Backed r where
  sourced : r.graph.Sourced r.journal.answers
  live : r.ending = none → r.Live

theorem Takes.sourced_link {r s : Run τ} {b : Block} (hTakes : f.Takes r b s) (h : f.Grounded r) :
    (s.link b).graph.Sourced s.journal.answers := by
  rw [Run.link_graph, hTakes.sameBut.graph]
  exact (h.sourced.of_subset hTakes.answers_subset).link (h.answered hTakes)

theorem Stepped.grounded {r r' : Run τ} (h : f.Stepped r r') (hBefore : f.Grounded r) : f.Grounded r' :=
  ⟨h.backed hBefore.toBacked, h.sourced hBefore.toBacked hBefore.sourced, h.live hBefore.live⟩

theorem grounded_after {disk : Disk} {r : Run τ} (h : f.Begun disk r) (hCold : f.ColdStarts disk) (n : Nat) :
    f.Grounded (f.after n r) := by
  have hStart : f.Grounded r := by
    refine ⟨h.backed, ?_, fun hRunning => ?_⟩
    · cases h with
      | ended _ _ hGraph | cold _ hGraph =>
        rw [hGraph]
        exact fun n hn => absurd hn List.not_mem_nil
      | resumed hDir hLoad => exact absurd hLoad (hCold _ _ hDir)
    · cases h with
      | ended hEnding =>
        rw [hRunning] at hEnding
        cases hEnding
      | cold _ hGraph hCursor _ hPending => exact live_of_justBegun ⟨hGraph, hCursor, hPending⟩
      | resumed hDir hLoad => exact absurd hLoad (hCold _ _ hDir)
  exact f.after_induction hStart (fun _ _ hBefore hStep => hStep.grounded hBefore) n

theorem Grounded.exists_lib {r : Run τ} (h : f.Grounded r) (hRunning : r.ending = none) :
    ∃ a ∈ r.journal.answers, r.graph.lib = some a.2.ref := by
  rcases (h.live hRunning).anchored with ⟨l, hl, -, hLib⟩ | ⟨b, hBegun⟩
  · obtain ⟨a, ha, hNode, -⟩ := h.sourced l hl
    exact ⟨a, ha, hLib.trans (congrArg (fun k => some k.block) hNode)⟩
  · exact ⟨_, (h.pending b hBegun.2.2).2, by rw [hBegun.1]; rfl⟩

end Feed

end ChainFeed
