import ChainFeed.Proofs.Feed.Succession

/-! # Where firing breaks off

Firing goes through its links one by one, whatever they are: an id may come more than once, or have no node. It
passes a link, which may hand the link's block over, or it halts there. What it passed is marked, and nothing else
changes, so the graph tells exactly how far it came.
-/

set_option autoImplicit false

namespace ChainFeed

open ForkGraph

variable {τ : Type}

/-- The sink accepts the blocks in turn, and comes from one state to another. -/
inductive Sink.Accepts (sink : Sink τ) : τ → List Block → τ → Prop where
  | nil (s : τ) : Accepts sink s [] s
  | cons {s s' t : τ} {b : Block} {blocks : List Block} (hDeliver : sink.deliver s b = (.accepted, s'))
      (hRest : Accepts sink s' blocks t) : Accepts sink s (b :: blocks) t

/-- The link is one of the links, and none before it has its id. -/
def Link.FirstIn (l : Link) (links : List Link) : Prop :=
  ∃ before after, links = before ++ l :: after ∧ l.id ∉ before.map Link.id

theorem Link.firstIn_cons {l k : Link} {links : List Link} :
    l.FirstIn (k :: links) ↔ l = k ∨ l.id ≠ k.id ∧ l.FirstIn links := by
  constructor
  · rintro ⟨before, after, hSplit, hFirst⟩
    cases before with
    | nil => exact .inl (List.cons.inj hSplit).1.symm
    | cons m before =>
      rw [List.cons_append] at hSplit
      obtain ⟨rfl, hRest⟩ := List.cons.inj hSplit
      rw [List.map_cons, List.mem_cons, not_or] at hFirst
      exact .inr ⟨hFirst.1, before, after, hRest, hFirst.2⟩
  · rintro (rfl | ⟨hOther, before, after, rfl, hFirst⟩)
    · exact ⟨[], links, rfl, by simp⟩
    · exact ⟨k :: before, after, rfl, by simp [hOther, hFirst]⟩

namespace ForkGraph

variable {g : ForkGraph} {start : BlockNum}

/-- The link has a node that was not fired yet, and is not numbered below the start. -/
def Due (g : ForkGraph) (start : BlockNum) (l : Link) : Prop :=
  ∃ n ∈ g.nodes, n.id = l.id ∧ n.fired = false ∧ start ≤ l.num

theorem mark_of_fired {n : Node} (hn : n ∈ g.nodes) (hFired : n.fired = true) : g.mark n.id true = g := by
  refine ForkGraph.ext rfl rfl ?_
  refine (List.map_congr_left fun m hm => ?_).trans (List.map_id _)
  split
  next hId =>
    cases eq_of_id_eq hm hn hId
    rw [← hFired]
    rfl
  · rfl

/-- A mark leaves the nodes that are not fired, but for the one that it fires. -/
theorem mem_mark_of_unfired {n : Node} {id : BlockId} (hUnfired : n.fired = false) :
    n ∈ (g.mark id true).nodes ↔ n ∈ g.nodes ∧ n.id ≠ id := by
  constructor
  · intro hn
    obtain ⟨m, hm, rfl⟩ := List.mem_map.mp hn
    by_cases hId : m.id = id
    · rw [if_pos hId] at hUnfired
      cases hUnfired
    · rw [if_neg hId]
      exact ⟨hm, hId⟩
  · rintro ⟨hn, hOther⟩
    exact mem_mark_of_ne hn hOther

theorem contains_mark (g : ForkGraph) (id other : BlockId) : (g.mark id true).contains other = g.contains other := by
  have hIds : (g.markAll [id]).nodes.map Node.id = g.nodes.map Node.id := by
    rw [nodes_markAll, List.map_map]
    exact List.map_congr_left fun n _ => n.markedIn_id [id]
  rw [Bool.eq_iff_iff, contains_iff, contains_iff, ← hIds]
  rfl

theorem due_mark {l : Link} {id : BlockId} : (g.mark id true).Due start l ↔ l.id ≠ id ∧ g.Due start l := by
  constructor
  · rintro ⟨n, hn, hId, hUnfired, hStart⟩
    obtain ⟨hStored, hOther⟩ := (mem_mark_of_unfired hUnfired).mp hn
    exact ⟨hId ▸ hOther, n, hStored, hId, hUnfired, hStart⟩
  · rintro ⟨hOther, n, hn, hId, hUnfired, hStart⟩
    exact ⟨n, (mem_mark_of_unfired hUnfired).mpr ⟨hn, hId.symm ▸ hOther⟩, hId, hUnfired, hStart⟩

end ForkGraph

/-! ## One link -/

/-- How a link is passed, with what is handed over for it. -/
inductive PassesLink (sink : Sink τ) (start : BlockNum) (g : ForkGraph) (s : τ) (l : Link) :
    List (Link × Block) → τ → Prop where
  | skipped {n : Node} (hn : n ∈ g.nodes) (hId : n.id = l.id) (hSkip : n.fired = true ∨ l.num < start) :
      PassesLink sink start g s l [] s
  | accepted {n : Node} {b : Block} {s' : τ} (hn : n ∈ g.nodes) (hId : n.id = l.id) (hUnfired : n.fired = false)
      (hStart : start ≤ l.num) (hContent : n.content = some b) (hDeliver : sink.deliver s b = (.accepted, s')) :
      PassesLink sink start g s l [(l, b)] s'

/-- How firing halts at a link, with what that writes to the journal. -/
inductive HaltsAt (sink : Sink τ) (start : BlockNum) (g : ForkGraph) (s : τ) (l : Link) :
    List Entry → τ → Ending → Prop where
  | unknown (hAbsent : g.contains l.id = false) :
      HaltsAt sink start g s l [] s (.failed (.invariant (.blockMissing l.id)))
  | empty {n : Node} (hn : n ∈ g.nodes) (hId : n.id = l.id) (hUnfired : n.fired = false) (hStart : start ≤ l.num)
      (hContent : n.content = none) :
      HaltsAt sink start g s l [] s (.failed (.invariant (.blockMissing l.id)))
  | refused {n : Node} {b : Block} {refusal : Refusal} {s' : τ} (hn : n ∈ g.nodes) (hId : n.id = l.id)
      (hUnfired : n.fired = false) (hStart : start ≤ l.num) (hContent : n.content = some b)
      (hDeliver : sink.deliver s b = (.refused refusal, s')) :
      HaltsAt sink start g s l [.handed b (.refused refusal)] s' (.failed (.delivery l.block refusal))
  | crashed {n : Node} {b : Block} {reason : String} {s' : τ} (hn : n ∈ g.nodes) (hId : n.id = l.id)
      (hUnfired : n.fired = false) (hStart : start ≤ l.num) (hContent : n.content = some b)
      (hDeliver : sink.deliver s b = (.crashed reason, s')) :
      HaltsAt sink start g s l [.handed b (.crashed reason)] s' (.crashed reason)

/-- What handing blocks over writes to the journal if the sink accepts them. -/
def deliveries (handed : List (Link × Block)) : List Entry :=
  handed.flatMap fun h => [.handed h.2 .accepted, .event (.fired h.1.block)]

section

variable {sink : Sink τ} {start : BlockNum} {g : ForkGraph} {s s' t : τ} {l k : Link} {now handed : List (Link × Block)}
  {last : List Entry} {e : Ending}

theorem PassesLink.contains (h : PassesLink sink start g s l now s') : g.contains l.id = true := by
  cases h with
  | skipped hn hId | accepted hn hId => exact contains_iff_exists.mpr ⟨_, hn, hId⟩

theorem PassesLink.accepts (h : PassesLink sink start g s l now s') {blocks : List Block}
    (hRest : sink.Accepts s' blocks t) : sink.Accepts s (now.map Prod.snd ++ blocks) t := by
  cases h with
  | skipped => exact hRest
  | accepted _ _ _ _ _ hDeliver => exact .cons hDeliver hRest

/-- The link's block is handed over if the link is due. -/
theorem PassesLink.mem_iff (h : PassesLink sink start g s l now s') :
    k ∈ now.map Prod.fst ↔ k = l ∧ g.Due start k := by
  cases h with
  | skipped hn hId hSkip =>
    refine ⟨fun hk => absurd hk List.not_mem_nil, ?_⟩
    rintro ⟨rfl, m, hm, hSame, hUnfired, hStart⟩
    cases eq_of_id_eq hm hn (hSame.trans hId.symm)
    obtain hFired | hLow := hSkip
    · rw [hUnfired] at hFired
      cases hFired
    · exact absurd hLow (UInt64.not_lt.mpr hStart)
  | accepted hn hId hUnfired hStart =>
    rw [List.map_singleton, List.mem_singleton]
    refine ⟨fun hSame => ⟨hSame, ?_⟩, And.left⟩
    rw [hSame]
    exact ⟨_, hn, hId, hUnfired, hStart⟩

/-- Firing does not halt at the node that was just marked, and marking it makes no difference to the others. -/
theorem HaltsAt.of_mark (h : HaltsAt sink start (g.mark k.id true) s l last s' e) (hk : g.contains k.id = true) :
    l.id ≠ k.id ∧ HaltsAt sink start g s l last s' e := by
  have hBefore : ∀ {n : Node}, n ∈ (g.mark k.id true).nodes → n.id = l.id → n.fired = false →
      l.id ≠ k.id ∧ n ∈ g.nodes := by
    intro n hn hId hUnfired
    obtain ⟨hStored, hOther⟩ := (mem_mark_of_unfired hUnfired).mp hn
    exact ⟨hId ▸ hOther, hStored⟩
  cases h with
  | unknown hAbsent =>
    rw [contains_mark] at hAbsent
    refine ⟨fun hSame => ?_, .unknown hAbsent⟩
    rw [hSame, hk] at hAbsent
    cases hAbsent
  | empty hn hId hUnfired hStart hContent =>
    obtain ⟨hOther, hStored⟩ := hBefore hn hId hUnfired
    exact ⟨hOther, .empty hStored hId hUnfired hStart hContent⟩
  | refused hn hId hUnfired hStart hContent hDeliver =>
    obtain ⟨hOther, hStored⟩ := hBefore hn hId hUnfired
    exact ⟨hOther, .refused hStored hId hUnfired hStart hContent hDeliver⟩
  | crashed hn hId hUnfired hStart hContent hDeliver =>
    obtain ⟨hOther, hStored⟩ := hBefore hn hId hUnfired
    exact ⟨hOther, .crashed hStored hId hUnfired hStart hContent hDeliver⟩

variable (sink start l g s)

/-- Firing passes its first link, marks it and goes on with the others, or it halts there. -/
theorem fireLinks_cons (rest : List Link) :
    (∃ now s', PassesLink sink start g s l now s' ∧
      fireLinks sink start (l :: rest) g s =
        let more := fireLinks sink start rest (g.mark l.id true) s'
        ⟨more.graph, more.sinkState, deliveries now ++ more.entries, more.ending⟩) ∨
    ∃ last s' e, HaltsAt sink start g s l last s' e ∧ fireLinks sink start (l :: rest) g s = ⟨g, s', last, some e⟩ := by
  rw [fireLinks]
  cases hFind : g.find? l.id with
  | none => exact .inr ⟨_, _, _, .unknown (by rw [contains, hFind]; rfl), rfl⟩
  | some n =>
    have hn : n ∈ g.nodes := List.mem_of_find?_eq_some hFind
    have hId : n.id = l.id := by simpa using List.find?_some hFind
    simp only
    by_cases hFired : n.fired = true
    · rw [if_pos hFired, ← hId, mark_of_fired hn hFired]
      exact .inl ⟨_, _, .skipped hn hId (.inl hFired), rfl⟩
    rw [if_neg hFired]
    rw [Bool.not_eq_true] at hFired
    by_cases hBelow : l.num < start
    · rw [if_pos hBelow]
      exact .inl ⟨_, _, .skipped hn hId (.inr hBelow), rfl⟩
    rw [if_neg hBelow]
    have hStart : start ≤ l.num := UInt64.not_lt.mp hBelow
    cases hContent : n.content with
    | none => exact .inr ⟨_, _, _, .empty hn hId hFired hStart hContent, rfl⟩
    | some b =>
      rcases hDeliver : sink.deliver s b with ⟨delivery, s'⟩
      simp only [hDeliver]
      cases delivery with
      | refused refusal => exact .inr ⟨_, _, _, .refused hn hId hFired hStart hContent hDeliver, rfl⟩
      | crashed reason => exact .inr ⟨_, _, _, .crashed hn hId hFired hStart hContent hDeliver, rfl⟩
      | accepted => exact .inl ⟨_, _, .accepted hn hId hFired hStart hContent hDeliver, rfl⟩

end

/-! ## All links -/

/-- What comes of firing `links`: those passed, those left, and what was handed over on the way. Only the links
passed are marked. If some are left, firing halted at the first of them, which none before has the id of. -/
structure Firing.Fires (firing : Firing τ) (sink : Sink τ) (start : BlockNum) (links : List Link) (g : ForkGraph)
    (s : τ) (passed left : List Link) (handed : List (Link × Block)) : Prop where
  split : links = passed ++ left
  stored : ∀ l ∈ passed, g.contains l.id = true
  inOrder : (handed.map Prod.fst).Sublist passed
  once : (handed.map fun h => h.1.id).Nodup
  due : ∀ l, l ∈ handed.map Prod.fst ↔ l.FirstIn passed ∧ g.Due start l
  content : ∀ h ∈ handed, ∃ n ∈ g.nodes, n.id = h.1.id ∧ n.content = some h.2
  graph : firing.graph = g.markAll (passed.map Link.id)
  ending : ∃ s' last, sink.Accepts s (handed.map Prod.snd) s' ∧ firing.entries = deliveries handed ++ last ∧
    (left = [] ∧ last = [] ∧ firing.sinkState = s' ∧ firing.ending = none ∨
      ∃ l rest e, left = l :: rest ∧ l.id ∉ passed.map Link.id ∧
        HaltsAt sink start g s' l last firing.sinkState e ∧ firing.ending = some e)

section

variable {sink : Sink τ} {start : BlockNum} {g : ForkGraph} {s s' : τ} {l : Link} {now : List (Link × Block)}

theorem PassesLink.now_cases (h : PassesLink sink start g s l now s') :
    now = [] ∨ ∃ b, now = [(l, b)] ∧ ∃ n ∈ g.nodes, n.id = l.id ∧ n.content = some b := by
  cases h with
  | skipped => exact .inl rfl
  | accepted hn hId _ _ hContent => exact .inr ⟨_, rfl, _, hn, hId, hContent⟩

theorem Firing.Fires.cons {more : Firing τ} {rest passed left : List Link} {handed : List (Link × Block)}
    (h : more.Fires sink start rest (g.mark l.id true) s' passed left handed)
    (hPasses : PassesLink sink start g s l now s') :
    Firing.Fires ⟨more.graph, more.sinkState, deliveries now ++ more.entries, more.ending⟩ sink start (l :: rest) g s
      (l :: passed) left (now ++ handed) := by
  have hNow := hPasses.now_cases
  have hLater : ∀ k ∈ handed.map Prod.fst, k.FirstIn passed ∧ k.id ≠ l.id ∧ g.Due start k :=
    fun k hk => ((h.due k).mp hk).imp_right due_mark.mp
  refine ⟨by rw [h.split]; rfl, ?_, ?_, ?_, fun k => ?_, ?_, h.graph, ?_⟩
  · refine List.forall_mem_cons.mpr ⟨hPasses.contains, fun k hk => ?_⟩
    rw [← contains_mark g l.id]
    exact h.stored k hk
  · obtain rfl | ⟨b, rfl, -⟩ := hNow
    · exact h.inOrder.cons l
    · exact h.inOrder.cons_cons l
  · obtain rfl | ⟨b, rfl, -⟩ := hNow
    · exact h.once
    · refine List.nodup_cons.mpr ⟨fun hAgain => ?_, h.once⟩
      obtain ⟨k, hk, hId⟩ := List.mem_map.mp hAgain
      exact (hLater k.1 (List.mem_map_of_mem hk)).2.1 hId
  · rw [List.map_append, List.mem_append, Link.firstIn_cons, h.due, due_mark, or_and_right, hPasses.mem_iff]
    tauto
  · intro x hx
    obtain hx | hx := List.mem_append.mp hx
    · obtain rfl | ⟨b, rfl, hContent⟩ := hNow
      · cases hx
      · cases List.mem_singleton.mp hx
        exact hContent
    · obtain ⟨n, hn, hId, hContent⟩ := h.content x hx
      have hMarked : n ∈ (g.markAll [l.id]).nodes := hn
      obtain ⟨m, hm, rfl⟩ := mem_markAll.mp hMarked
      exact ⟨m, hm, by simpa using hId, by simpa using hContent⟩
  · obtain ⟨t, last, hAccepts, hEntries, hEnd⟩ := h.ending
    refine ⟨t, last, ?_, ?_, hEnd.imp_right ?_⟩
    · rw [List.map_append]
      exact hPasses.accepts hAccepts
    · simp only [hEntries, deliveries, List.flatMap_append, List.append_assoc]
    · rintro ⟨k, others, e, hLeft, hNew, hHalts, hEnding⟩
      obtain ⟨hOther, hHalts⟩ := hHalts.of_mark hPasses.contains
      exact ⟨k, others, e, hLeft, by simpa [hOther] using hNew, hHalts, hEnding⟩

variable (sink start g s)

theorem fireLinks_fires (links : List Link) :
    ∃ passed left handed, (fireLinks sink start links g s).Fires sink start links g s passed left handed := by
  induction links generalizing g s with
  | nil =>
    refine ⟨[], [], [], rfl, by simp, List.Sublist.slnil, List.nodup_nil, fun l => ?_, by simp, rfl, s, [], .nil s, rfl,
      .inl ⟨rfl, rfl, rfl, rfl⟩⟩
    simp [Link.FirstIn]
  | cons l rest ih =>
    obtain ⟨now, s', hPasses, hMore⟩ | ⟨last, s', e, hHalts, hHere⟩ := fireLinks_cons sink start g s l rest
    · obtain ⟨passed, left, handed, h⟩ := ih (g.mark l.id true) s'
      rw [hMore]
      exact ⟨l :: passed, left, now ++ handed, h.cons hPasses⟩
    · rw [hHere]
      refine ⟨[], l :: rest, [], rfl, by simp, List.nil_sublist _, List.nodup_nil, fun k => ?_, by simp, rfl, s, last,
        .nil s, rfl, .inr ⟨l, rest, e, rfl, by simp, hHalts, rfl⟩⟩
      simp [Link.FirstIn]

end

/-! ## An iteration -/

theorem ForkGraph.links_markAll (g : ForkGraph) (ids : List BlockId) : (g.markAll ids).links = g.links := by
  rw [links, nodes_markAll, List.map_map]
  exact List.map_congr_left fun n _ => n.markedIn_toLink ids

namespace Feed

variable {f : Feed τ}

/-- From `r` to `r'` the block `b` was linked, and firing broke off at `block`. -/
structure BrokenOff (f : Feed τ) (r : Run τ) (b : Block) (r' : Run τ) (block : BlockRef) : Prop where
  processes : f.Processes r b r'
  lib : r'.graph.lib = r.graph.lib ∧ r'.graph.libReported = r.graph.libReported
  links : r'.graph.links = (r.graph.link (.fresh b)).links
  disk : r'.disk = r.disk
  unfired : ∃ n ∈ r'.graph.nodes, n.block = block ∧ n.fired = false

/-- Only firing comes to an end with a block that was refused. -/
theorem Processed.fired_of_delivery {b : Block} {r r' : Run τ} {block : BlockRef} {refusal : Refusal}
    (h : f.Processed b r r') (hRunning : r.ending = none)
    (hEnd : r'.ending = some (.failed (.delivery block refusal))) :
    r'.disk = r.disk ∧ ∃ target, r'.graph =
        (fire f.sink f.config.start ((r.link b).graph.segmentTo target).nodes (r.link b).graph r.sinkState).graph ∧
      (fire f.sink f.config.start ((r.link b).graph.segmentTo target).nodes (r.link b).graph r.sinkState).ending =
        some (.failed (.delivery block refusal)) := by
  cases h with
  | headless | absent | refused => cases hEnd
  | @gap target first =>
    obtain hSame | hClosed := f.wait_cases ((r.check b target).awaiting first.parent)
    · rw [hSame] at hEnd
      exact absurd (hEnd.symm.trans hRunning) (Option.some_ne_none _)
    · rw [hClosed] at hEnd
      cases hEnd
  | @halted target e _ _ hHalt =>
    cases hEnd
    exact ⟨rfl, target, rfl, hHalt⟩
  | unsaved _ _ _ _ _ _ hUnsaved => cases hUnsaved <;> cases hEnd
  | @connected target last s t graph move _ _ _ _ hOver _ hSaved =>
    have hOpen : t.ending = none := (hSaved.goOn_eq hOver).2.2.trans hRunning
    obtain ⟨-, hClosed⟩ | ⟨-, hSame | ⟨n, -, hClosed⟩⟩ := f.goOn_cases last.toLink t
    · rw [hClosed] at hEnd
      cases hEnd
    · rw [hSame] at hEnd
      exact absurd (hEnd.symm.trans hOpen) (Option.some_ne_none _)
    · rw [hClosed] at hEnd
      cases hEnd

theorem Stepped.brokenOff {r r' : Run τ} {block : BlockRef} {refusal : Refusal} (h : f.Stepped r r')
    (hRunning : r.ending = none) (hEnd : r'.ending = some (.failed (.delivery block refusal))) :
    ∃ b, f.BrokenOff r b r' block := by
  cases h with
  | ended hEnded =>
    rw [hRunning] at hEnded
    cases hEnded
  | stopped | below => cases hEnd
  | starved _ _ hFetch =>
    obtain ⟨e, hEnding, hOutside⟩ := f.ending_of_fetch_none hFetch
    cases hEnding.symm.trans hEnd
    cases hOutside
  | @processed b s r' _ _ hTakes hProcessed =>
    obtain ⟨hDisk, target, hGraph, hFired⟩ :=
      hProcessed.fired_of_delivery (hTakes.ending_eq.trans hRunning) hEnd
    obtain ⟨passed, left, last, hPasses⟩ := fire_passes f.sink f.config.start
      ((s.link b).graph.segmentTo target).nodes (s.link b).graph s.sinkState
    rw [hPasses.graph, Run.link_graph, hTakes.sameBut.graph] at hGraph
    refine ⟨b, ⟨hRunning, s, hTakes, hProcessed⟩, ?_, ?_, hDisk.trans hTakes.sameBut.disk, ?_⟩
    · simp [hGraph]
    · rw [hGraph, links_markAll]
    obtain ⟨hNone, -⟩ | ⟨e, hEnding, hHalt⟩ := hPasses.ending
    · rw [hNone] at hFired
      cases hFired
    cases hEnding.symm.trans hFired
    have hNodup := (s.link b).graph.segmentTo_nodup target
    have hStored : ∀ n ∈ left, n ∈ (s.link b).graph.nodes :=
      fun n hn => mem_of_mem_segmentTo (hPasses.split ▸ List.mem_append_right passed hn)
    rw [hPasses.split, List.map_append, List.nodup_append] at hNodup
    cases hHalt with
    | @refused n rest c _ hUnfired _ _ =>
      -- the node's id was not passed, so it was not marked
      have hNew : n.id ∉ newlyFired passed := by
        intro hMarked
        obtain ⟨m, hm, -, hId⟩ := mem_newlyFired.mp hMarked
        exact hNodup.2.2 _ (List.mem_map_of_mem hm) _ (List.mem_map_of_mem List.mem_cons_self) hId
      have hn := hStored n List.mem_cons_self
      rw [Run.link_graph, hTakes.sameBut.graph] at hn
      refine ⟨n, ?_, rfl, hUnfired⟩
      rw [hGraph]
      exact mem_markAll.mpr ⟨n, hn, if_neg hNew⟩

end Feed

/-- Firing any links hands over, in order and once each, the blocks that are due, up to where it halts, and marks
what it passed. So an iteration that ends with a refused block has linked its own block and marked others, and has
changed nothing else that is stored. -/
theorem firing_interrupted (f : Feed τ) :
    (∀ (sink : Sink τ) start g s links, ∃ passed left handed,
      (fireLinks sink start links g s).Fires sink start links g s passed left handed) ∧
    ∀ r block refusal, r.ending = none → (f.step r).ending = some (.failed (.delivery block refusal)) →
      ∃ b, f.BrokenOff r b (f.step r) block :=
  ⟨fireLinks_fires, fun r _ _ hRunning hEnd => (f.stepped r).brokenOff hRunning hEnd⟩

namespace Session

/-- A block comes before its parent, and the sink refuses it once the parent has come. -/
def refusingThird : Session where
  sinkType := Unit
  feed := {
    config := { start := 1, stateDir := some ⟨["state"]⟩ }
    sink := .judging .accepted fun b => if b.num = 3 then .refused (.rejected "no room") else .accepted
    stopped := fun _ => false
    device := fun _ => .sound }
  source := .scripted [.plain "1a" 1 "0a" 1, .plain "3a" 3 "2a" 2, .plain "2a" 2 "1a" 1]
  sinkState := ()
  disk := .empty
  iterations := 3

/-- A block twice, an id that is not stored, and another block after that. -/
def strayLinks : List Link :=
  [⟨⟨"3a", 3⟩, ⟨"2a", 2⟩⟩, ⟨⟨"3a", 3⟩, ⟨"2a", 2⟩⟩, ⟨⟨"9x", 9⟩, ⟨"8x", 8⟩⟩, ⟨⟨"1a", 1⟩, ⟨"0a", 1⟩⟩]

theorem firing_interrupted_refusingThird :
    (∃ passed left handed, (fireLinks (.judging .accepted fun _ => .accepted) 1 strayLinks
        (refusingThird.after 2).graph ()).Fires (.judging .accepted fun _ => .accepted) 1 strayLinks
        (refusingThird.after 2).graph () passed left handed) ∧
    (refusingThird.after 2).ending = none ∧
    (refusingThird.after 3).ending = some (.failed (.delivery ⟨"3a", 3⟩ (.rejected "no room"))) ∧
    ∃ b, refusingThird.feed.BrokenOff (refusingThird.after 2) b (refusingThird.after 3) ⟨"3a", 3⟩ := by
  have hRunning : (refusingThird.after 2).ending = none := rfl
  have hRefused : (refusingThird.feed.step (refusingThird.after 2)).ending =
      some (.failed (.delivery ⟨"3a", 3⟩ (.rejected "no room"))) := rfl
  obtain ⟨hFires, hBreaks⟩ := firing_interrupted refusingThird.feed
  exact ⟨hFires (.judging .accepted fun _ => .accepted) 1 _ () strayLinks, hRunning, hRefused,
    hBreaks _ _ _ hRunning hRefused⟩

example :
    let firing := fireLinks (.judging .accepted fun _ => .accepted) 1 strayLinks (refusingThird.after 2).graph ()
    (firing.entries.filterMap Entry.handed?).map Block.id = ["3a"] ∧
      firing.graph.nodes.map (fun n => (n.id, n.fired)) = [("1a", true), ("3a", true)] := by
  decide +kernel

end Session

end ChainFeed
