import ChainFeed.Feed.Firing
import ChainFeed.Proofs.ForkGraph.Stored

/-! # What firing does

Firing a path passes its nodes one by one, oldest first, and halts at the first that cannot be passed.
The nodes passed are marked, and those among them that were neither fired before nor lie below the start
were accepted by the sink, in order. A path of distinct stored nodes needs no look-up on the way: each
is still found as it was at first.
-/

set_option autoImplicit false

namespace ChainFeed

/-- Fire nodes taken from the graph before. -/
def fire {τ : Type} (sink : Sink τ) (start : BlockNum) : List Node → ForkGraph → τ → Firing τ
  | [], g, s => ⟨g, s, [], none⟩
  | n :: rest, g, s =>
    if n.fired then fire sink start rest g s
    else if n.num < start then fire sink start rest (g.mark n.id true) s
    else
      match n.content with
      | none => ⟨g, s, [], some (.failed (.invariant (.blockMissing n.id)))⟩
      | some b =>
        match sink.deliver s b with
        | (.refused refusal, s) =>
          ⟨g, s, [.handed b (.refused refusal)], some (.failed (.delivery n.block refusal))⟩
        | (.crashed reason, s) => ⟨g, s, [.handed b (.crashed reason)], some (.crashed reason)⟩
        | (.accepted, s) =>
          let more := fire sink start rest (g.mark n.id true) s
          ⟨more.graph, more.sinkState,
            .handed b .accepted :: .event (.fired n.block) :: more.entries, more.ending⟩

/-- The links of a path of distinct stored nodes are fired as the nodes are. -/
theorem fireLinks_eq_fire {τ : Type} (sink : Sink τ) (start : BlockNum) {path : List Node} {g : ForkGraph}
    (hStored : ∀ n ∈ path, n ∈ g.nodes) (hDistinct : (path.map Node.id).Nodup) (s : τ) :
    fireLinks sink start (path.map Node.toLink) g s = fire sink start path g s := by
  induction path generalizing g s with
  | nil => rfl
  | cons n path ih =>
    rw [List.map_cons, List.nodup_cons] at hDistinct
    have hFind : g.find? n.toLink.id = some n := ForkGraph.find?_of_mem (hStored n List.mem_cons_self)
    have hRest : ∀ m ∈ path, m ∈ g.nodes := fun m hm => hStored m (List.mem_cons_of_mem n hm)
    -- marking the first node leaves the others as they are
    have hMarked : ∀ m ∈ path, m ∈ (g.mark n.id true).nodes := by
      intro m hm
      have hOther : m.id ≠ n.id := fun hId => hDistinct.1 (hId ▸ List.mem_map_of_mem hm)
      exact ForkGraph.mem_mark_of_ne (hRest m hm) hOther
    rw [List.map_cons, fireLinks, fire, hFind]
    change (if n.fired then _ else if n.num < start then _ else _) = _
    by_cases hFired : n.fired = true
    · rw [if_pos hFired, if_pos hFired]
      exact ih hRest hDistinct.2 s
    rw [if_neg hFired, if_neg hFired]
    by_cases hBelow : n.num < start
    · rw [if_pos hBelow, if_pos hBelow]
      exact ih hMarked hDistinct.2 s
    rw [if_neg hBelow, if_neg hBelow]
    cases n.content with
    | none => rfl
    | some b =>
      rcases hDeliver : sink.deliver s b with ⟨delivery, s'⟩
      cases delivery with
      | refused | crashed => simp only [hDeliver]
      | accepted =>
        have hMore : fireLinks sink start (path.map Node.toLink) (g.mark n.toLink.id true) s' =
            fire sink start path (g.mark n.id true) s' := ih hMarked hDistinct.2 s'
        simp only [hDeliver, hMore]

/-- What passing a node writes to the journal: nothing if it was fired before or lies below the start. -/
def Node.deliveries (start : BlockNum) (n : Node) : List Entry :=
  if n.fired ∨ n.num < start then []
  else
    match n.content with
    | none => []
    | some b => [.handed b .accepted, .event (.fired n.block)]

def newlyFired (path : List Node) : List BlockId :=
  (path.filter fun n => !n.fired).map Node.id

/-- How firing comes to a halt at the first of the nodes left, and what that writes to the journal. -/
inductive Halt (start : BlockNum) : List Node → List Entry → Ending → Prop where
  | missing {n : Node} {rest : List Node} (hUnfired : n.fired = false) (hStart : start ≤ n.num)
      (hContent : n.content = none) :
      Halt start (n :: rest) [] (.failed (.invariant (.blockMissing n.id)))
  | refused {n : Node} {rest : List Node} {b : Block} {refusal : Refusal} (hUnfired : n.fired = false)
      (hStart : start ≤ n.num) (hContent : n.content = some b) :
      Halt start (n :: rest) [.handed b (.refused refusal)] (.failed (.delivery n.block refusal))
  | crashed {n : Node} {rest : List Node} {b : Block} {reason : String} (hUnfired : n.fired = false)
      (hStart : start ≤ n.num) (hContent : n.content = some b) :
      Halt start (n :: rest) [.handed b (.crashed reason)] (.crashed reason)

/-- The nodes passed, those left, and what the first of these did to end it. -/
structure Firing.Passes {τ : Type} (firing : Firing τ) (start : BlockNum) (path : List Node)
    (g : ForkGraph) (passed left : List Node) (last : List Entry) : Prop where
  split : path = passed ++ left
  graph : firing.graph = g.markAll (newlyFired passed)
  entries : firing.entries = passed.flatMap (Node.deliveries start) ++ last
  content : ∀ n ∈ passed, n.fired = false → start ≤ n.num → n.content.isSome
  ending : firing.ending = none ∧ left = [] ∧ last = [] ∨
    ∃ e, firing.ending = some e ∧ Halt start left last e

section

variable {τ : Type} (sink : Sink τ) (start : BlockNum)

theorem newlyFired_cons_of_fired {n : Node} {path : List Node} (h : n.fired = true) :
    newlyFired (n :: path) = newlyFired path := by
  simp [newlyFired, h]

theorem newlyFired_cons_of_not_fired {n : Node} {path : List Node} (h : n.fired = false) :
    newlyFired (n :: path) = n.id :: newlyFired path := by
  simp [newlyFired, h]

theorem mem_newlyFired {path : List Node} {id : BlockId} :
    id ∈ newlyFired path ↔ ∃ n ∈ path, n.fired = false ∧ n.id = id := by
  simp [newlyFired, and_assoc]

theorem newlyFired_of_fired {path : List Node} (h : ∀ n ∈ path, n.fired = true) : newlyFired path = [] := by
  rw [newlyFired, List.map_eq_nil_iff, List.filter_eq_nil_iff]
  intro n hn
  simp [h n hn]

theorem markedIn_newlyFired {path : List Node} {n : Node} (hn : n ∈ path) :
    (n.markedIn (newlyFired path)).fired = true := by
  rw [Node.markedIn_fired, Bool.or_eq_true, decide_eq_true_eq]
  cases hUnfired : n.fired with
  | true => exact .inr rfl
  | false => exact .inl (mem_newlyFired.mpr ⟨n, hn, hUnfired, rfl⟩)

theorem markedIn_newlyFired_eq {path : List Node} {n : Node} (hn : n ∈ path) :
    n.markedIn (newlyFired path) = n.asFired := by
  unfold Node.markedIn
  split
  · rfl
  next hOld =>
    have hFired : n.fired = true := by
      rw [← Bool.not_eq_false]
      exact fun hUnfired => hOld (mem_newlyFired.mpr ⟨n, hn, hUnfired, rfl⟩)
    rw [Node.asFired, ← hFired]

theorem fire_passes (path : List Node) (g : ForkGraph) (s : τ) :
    ∃ passed left last, (fire sink start path g s).Passes start path g passed left last := by
  induction path generalizing g s with
  | nil => exact ⟨[], [], [], rfl, rfl, rfl, by simp, .inl ⟨rfl, rfl, rfl⟩⟩
  | cons n path ih =>
    rw [fire]
    by_cases hFired : n.fired = true
    · obtain ⟨passed, left, last, h⟩ := ih g s
      rw [if_pos hFired]
      refine ⟨n :: passed, left, last, by rw [h.split]; rfl, ?_, ?_, ?_, h.ending⟩
      · rw [h.graph, newlyFired_cons_of_fired hFired]
      · rw [h.entries, List.flatMap_cons, Node.deliveries, if_pos (.inl hFired)]
        rfl
      · intro m hm hUnfired
        rcases List.mem_cons.mp hm with rfl | hm
        · rw [hFired] at hUnfired
          cases hUnfired
        · exact h.content m hm hUnfired
    rw [if_neg hFired]
    rw [Bool.not_eq_true] at hFired
    by_cases hBelow : n.num < start
    · obtain ⟨passed, left, last, h⟩ := ih (g.mark n.id true) s
      rw [if_pos hBelow]
      refine ⟨n :: passed, left, last, by rw [h.split]; rfl, ?_, ?_, ?_, h.ending⟩
      · rw [h.graph, newlyFired_cons_of_not_fired hFired, ForkGraph.markAll_cons]
      · rw [h.entries, List.flatMap_cons, Node.deliveries, if_pos (.inr hBelow)]
        rfl
      · intro m hm hUnfired hStart
        rcases List.mem_cons.mp hm with rfl | hm
        · exact absurd hBelow (UInt64.not_lt.mpr hStart)
        · exact h.content m hm hUnfired hStart
    rw [if_neg hBelow]
    have hStart : start ≤ n.num := UInt64.not_lt.mp hBelow
    cases hContent : n.content with
    | none =>
      exact ⟨[], n :: path, [], rfl, rfl, rfl, by simp, .inr ⟨_, rfl, .missing hFired hStart hContent⟩⟩
    | some b =>
      rcases hDeliver : sink.deliver s b with ⟨delivery, s'⟩
      simp only [hDeliver]
      cases delivery with
      | refused refusal =>
        exact ⟨[], n :: path, _, rfl, rfl, rfl, by simp, .inr ⟨_, rfl, .refused hFired hStart hContent⟩⟩
      | crashed reason =>
        exact ⟨[], n :: path, _, rfl, rfl, rfl, by simp, .inr ⟨_, rfl, .crashed hFired hStart hContent⟩⟩
      | accepted =>
        obtain ⟨passed, left, last, h⟩ := ih (g.mark n.id true) s'
        refine ⟨n :: passed, left, last, by rw [h.split]; rfl, ?_, ?_, ?_, h.ending⟩
        · rw [newlyFired_cons_of_not_fired hFired, ForkGraph.markAll_cons, ← h.graph]
        · rw [List.flatMap_cons, Node.deliveries, if_neg (by simp [hFired, hBelow]), hContent,
            List.append_assoc, ← h.entries]
          rfl
        · intro m hm hUnfired hStart'
          rcases List.mem_cons.mp hm with rfl | hm
          · rw [hContent]
            rfl
          · exact h.content m hm hUnfired hStart'

end

theorem Firing.Passes.of_ending_none {τ : Type} {firing : Firing τ} {start : BlockNum}
    {path passed left : List Node} {g : ForkGraph} {last : List Entry}
    (h : firing.Passes start path g passed left last) (hEnding : firing.ending = none) :
    passed = path ∧ left = [] ∧ last = [] := by
  rcases h.ending with ⟨-, hLeft, hLast⟩ | ⟨e, hEnd, -⟩
  · have hSplit := h.split
    rw [hLeft, List.append_nil] at hSplit
    exact ⟨hSplit.symm, hLeft, hLast⟩
  · rw [hEnding] at hEnd
    cases hEnd

/-- Firing ends in no way but those in which it halts. -/
theorem fire_ending_ne {τ : Type} {e : Ending} (hNever : ∀ start rest entries, ¬ Halt start rest entries e)
    (sink : Sink τ) (start : BlockNum) (path : List Node) (g : ForkGraph) (s : τ) :
    (fire sink start path g s).ending ≠ some e := by
  obtain ⟨passed, left, last, h⟩ := fire_passes sink start path g s
  obtain ⟨hNone, -⟩ | ⟨e', hEnding, hHalt⟩ := h.ending
  · rw [hNone]
    simp
  · intro hSame
    cases hEnding.symm.trans hSame
    exact hNever _ _ _ hHalt

/-- Firing misses no block where each node that was not fired has its content. -/
theorem fire_ending_ne_invariant {τ : Type} (sink : Sink τ) (start : BlockNum) {path : List Node}
    (hContent : ∀ n ∈ path, n.fired = false → n.content.isSome = true) (g : ForkGraph) (s : τ)
    (error : ForkError) : (fire sink start path g s).ending ≠ some (.failed (.invariant error)) := by
  obtain ⟨passed, left, last, h⟩ := fire_passes sink start path g s
  rcases h.ending with ⟨hEnding, -, -⟩ | ⟨e, hEnding, hHalt⟩
  · rw [hEnding]
    simp
  · rw [hEnding]
    cases hHalt with
    | @missing n rest hUnfired hStart hNone =>
      have hSome := hContent n (by rw [h.split]; simp) hUnfired
      rw [hNone] at hSome
      cases hSome
    | refused | crashed => simp

end ChainFeed
