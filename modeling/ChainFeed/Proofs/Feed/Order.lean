import ChainFeed.Proofs.Feed.Anchor
import ChainFeed.Proofs.Checkpoint.Restore

/-! # Parents come first

When the sink accepts a block that is not the first of its path, its declared parent is stored and fired, and
it lies below the start or was accepted before. For a path is fired from its LIB on, each node behind its
parent, and every fired node was accounted for in this way when it was marked.
-/

set_option autoImplicit false

namespace ChainFeed

variable {τ : Type} {sink : Sink τ} {start : BlockNum} {past : List Block}

/-! ## Acceptances -/

/-- On the way along the path, the sink accepts `b` right after the entries `before` were written. By then the graph
is `g'`. -/
inductive Sink.AcceptsAlong (sink : Sink τ) (start : BlockNum) (path : List Link) (g : ForkGraph) (s : τ)
    (before : List Entry) (b : Block) (g' : ForkGraph) : Prop where
  | passing {passed left : List Link} {l : Link} {t : τ} {n : Node} (hPath : path = passed ++ l :: left)
      (hPassed : fireLinks sink start passed g s = ⟨g', t, before, none⟩) (hFound : g'.find? l.id = some n)
      (hUnfired : n.fired = false) (hStart : start ≤ l.num) (hContent : n.content = some b)
      (hAccepted : (sink.deliver t b).1 = .accepted) : AcceptsAlong sink start path g s before b g'

namespace Sink

variable {g g' : ForkGraph} {s s' : τ} {l : Link} {n : Node} {path : List Link} {before : List Entry} {b : Block}

/-- What the sink accepts further on, it accepts behind a link that firing passes. -/
theorem AcceptsAlong.cons {g'' : ForkGraph} (h : sink.AcceptsAlong start path g' s' before b g'') (said : List Entry)
    (hPasses : ∀ rest, fireLinks sink start (l :: rest) g s =
      let more := fireLinks sink start rest g' s'
      ⟨more.graph, more.sinkState, said ++ more.entries, more.ending⟩) :
    sink.AcceptsAlong start (l :: path) g s (said ++ before) b g'' := by
  cases h with
  | @passing passed left m _ _ hPath hPassed hFound hUnfired hStart hContent hAccepted =>
    have hWhole : l :: path = (l :: passed) ++ m :: left := congrArg (l :: ·) hPath
    refine .passing hWhole ?_ hFound hUnfired hStart hContent hAccepted
    rw [hPasses, hPassed]

/-- What the journal says was accepted, the sink accepted on the way. -/
theorem exists_accepts (h : before ++ [.handed b .accepted] <+: (fireLinks sink start path g s).entries) :
    ∃ g', sink.AcceptsAlong start path g s before b g' := by
  induction path generalizing g s before with
  | nil => simp [fireLinks] at h
  | cons l path ih =>
    cases hFound : g.find? l.id with
    | none => simp [fireLinks, hFound] at h
    | some n =>
      by_cases hFired : n.fired = true
      · have hPasses : ∀ rest, fireLinks sink start (l :: rest) g s = fireLinks sink start rest g s := by
          intro rest
          rw [fireLinks, hFound]
          exact if_pos hFired
        rw [hPasses] at h
        exact (ih h).imp fun _ hAccepts => hAccepts.cons [] hPasses
      by_cases hBelow : l.num < start
      · have hPasses : ∀ rest, fireLinks sink start (l :: rest) g s =
            fireLinks sink start rest (g.mark l.id true) s := by
          intro rest
          rw [fireLinks, hFound]
          exact (if_neg hFired).trans (if_pos hBelow)
        rw [hPasses] at h
        exact (ih h).imp fun _ hAccepts => hAccepts.cons [] hPasses
      cases hContent : n.content with
      | none => simp [fireLinks, hFound, hFired, hBelow, hContent] at h
      | some c =>
        rcases hDeliver : sink.deliver s c with ⟨delivery, s'⟩
        cases delivery with
        | refused | crashed =>
          simp only [fireLinks, hFound, hFired, hBelow, hContent, hDeliver, Bool.false_eq_true, if_false] at h
          have hSame := h.subset (List.mem_append_right before (List.mem_singleton_self _))
          cases List.mem_singleton.mp hSame
        | accepted =>
          have hPasses : ∀ rest, fireLinks sink start (l :: rest) g s =
              let more := fireLinks sink start rest (g.mark l.id true) s'
              ⟨more.graph, more.sinkState, [.handed c .accepted, .event (.fired l.block)] ++ more.entries,
                more.ending⟩ := by
            intro rest
            simp only [fireLinks, hFound, hFired, hBelow, hContent, hDeliver, Bool.false_eq_true, if_false]
            rfl
          rw [hPasses] at h
          -- the block is this node's, or it is accepted further on
          rcases before with - | ⟨e, - | ⟨e', before⟩⟩ <;>
            simp only [List.nil_append, List.cons_append, List.cons_prefix_cons] at h
          · cases h.1
            have hPath : l :: path = [] ++ l :: path := rfl
            exact ⟨g, .passing hPath rfl hFound (Bool.eq_false_iff.mpr hFired) (UInt64.not_lt.mp hBelow) hContent
              (congrArg Prod.fst hDeliver)⟩
          · cases h.2.1
          · obtain ⟨rfl, rfl, h⟩ := h
            exact (ih h).imp fun _ hAccepts => hAccepts.cons _ hPasses

end Sink

/-! ## Accounts of the nodes -/

/-- The node lies below the start, or its block was accepted. -/
def Accounted (start : BlockNum) (past : List Block) (n : Node) : Prop :=
  n.num < start ∨ ∃ a ∈ past, a.id = n.id

/-- What a node tells of its block, and of what was accepted by the time that it was fired. -/
structure Vouched (start : BlockNum) (past : List Block) (n : Node) : Prop where
  content : ∀ b, n.content = some b → n.id = b.id ∧ n.parent.id = b.parentId
  fired : n.fired = true → Accounted start past n

/-- Each node of the graph is vouched for. -/
def Sound (start : BlockNum) (past : List Block) (g : ForkGraph) : Prop :=
  ∀ n ∈ g.nodes, Vouched start past n

theorem Accounted.append {n : Node} (h : Accounted start past n) (more : List Block) :
    Accounted start (past ++ more) n :=
  h.imp_right fun ⟨a, ha, hId⟩ => ⟨a, List.mem_append_left more ha, hId⟩

/-- A node that is passed is accounted for with what is accepted on the way. -/
theorem Vouched.accounted {n : Node} {passed : List Node} (h : Vouched start past n) (hn : n ∈ passed)
    (hContent : n.fired = false → start ≤ n.num → n.content.isSome) :
    Accounted start (past ++ passed.filterMap (Node.delivered? start)) n := by
  cases hFired : n.fired with
  | true => exact (h.fired hFired).append _
  | false =>
    by_cases hBelow : n.num < start
    · exact .inl hBelow
    have hStart : start ≤ n.num := UInt64.not_lt.mp hBelow
    obtain ⟨b, hb⟩ := Option.isSome_iff_exists.mp (hContent hFired hStart)
    have hDelivered : n.delivered? start = some b := Node.delivered?_eq_some_iff.mpr ⟨hFired, hStart, hb⟩
    exact .inr ⟨b, List.mem_append_right _ (List.mem_filterMap.mpr ⟨n, hn, hDelivered⟩), (h.content b hb).1.symm⟩

namespace Sound

variable {g : ForkGraph}

theorem append (h : Sound start past g) (more : List Block) : Sound start (past ++ more) g :=
  fun n hn => ⟨(h n hn).content, fun hFired => ((h n hn).fired hFired).append more⟩

theorem of_subset {g' : ForkGraph} (h : Sound start past g) (hSub : g'.nodes ⊆ g.nodes) : Sound start past g' :=
  fun n hn => h n (hSub hn)

theorem link (h : Sound start past g) (b : Block) : Sound start past (g.link (.fresh b)) := by
  intro n hn
  rcases ForkGraph.mem_link.mp hn with hn | ⟨rfl, -⟩
  · exact h n hn
  · refine ⟨fun c hc => ?_, fun hFired => by cases hFired⟩
    cases hc
    exact ⟨rfl, rfl⟩

theorem fire {passed : List Node} (h : Sound start past g) (hStored : ∀ n ∈ passed, n ∈ g.nodes)
    (hContent : ∀ n ∈ passed, n.fired = false → start ≤ n.num → n.content.isSome) :
    Sound start (past ++ passed.filterMap (Node.delivered? start)) (g.markAll (newlyFired passed)) := by
  intro m hm
  obtain ⟨n, hn, rfl⟩ := ForkGraph.mem_markAll.mp hm
  refine ⟨fun b hb => ?_, fun hFired => ?_⟩
  · rw [Node.markedIn_content] at hb
    rw [Node.markedIn_id, Node.markedIn_toLink]
    exact (h n hn).content b hb
  · rw [Accounted, Node.markedIn_num, Node.markedIn_id]
    rw [Node.markedIn_fired, Bool.or_eq_true, decide_eq_true_eq] at hFired
    rcases hFired with hNew | hOld
    · obtain ⟨k, hk, -, hId⟩ := mem_newlyFired.mp hNew
      have hSame : k = n := ForkGraph.eq_of_id_eq (hStored k hk) hn hId
      exact (h n hn).accounted (hSame ▸ hk) (hContent n (hSame ▸ hk))
    · exact ((h n hn).fired hOld).append _

/-- Processing a block leaves the graph sound with what is accepted meanwhile. -/
theorem turn {g' : ForkGraph} {b : Block} {accepted : List Block} (h : Sound start past g)
    (hTurn : Turn start b g g' accepted) : Sound start (past ++ accepted) g' := by
  have hLinked := h.link b
  cases hTurn with
  | linked => exact hLinked.append []
  | @halted target passed left _ hPath hContent =>
    refine hLinked.fire (fun n hn => ?_) hContent
    have hOnPath : n ∈ ((g.link (.fresh b)).segmentTo target).nodes := by
      rw [hPath]
      exact List.mem_append_left left hn
    exact ForkGraph.mem_of_mem_segmentTo hOnPath
  | settled _ _ hPath hMove hContent =>
    subst hPath
    refine (hLinked.fire (fun n hn => ForkGraph.mem_of_mem_segmentTo hn) hContent).of_subset fun n hn => ?_
    rw [← hMove.nodes_eq]
    exact (ForkGraph.mem_purge.mp hn).1

end Sound

/-! ## Paths -/

/-- The nodes of a path come from its first node on, each after its parent. -/
def Ascends (path : List Node) : Prop :=
  List.IsChain (fun m n : Node => n.parent.id = m.id) path

theorem ascends_segmentTo (g : ForkGraph) (target : BlockRef) : Ascends (g.segmentTo target).nodes :=
  List.isChain_reverse.mp (g.follows_segmentTo target).isChain

/-- The parent of `b` is stored and fired, and it lies below the start or was accepted. -/
def ForkGraph.HasParent (g : ForkGraph) (start : BlockNum) (past : List Block) (b : Block) : Prop :=
  ∃ p ∈ g.nodes, p.id = b.parentId ∧ p.fired = true ∧ Accounted start past p

/-- The sink accepts the block of the path's first node, or one whose parent is there. -/
theorem Sink.AcceptsAlong.first_or_hasParent {g g' : ForkGraph} {s : τ} {path : List Node} {before : List Entry}
    {b : Block} (h : sink.AcceptsAlong start (path.map Node.toLink) g s before b g')
    (hStored : ∀ n ∈ path, n ∈ g.nodes) (hDistinct : (path.map Node.id).Nodup) (hAscends : Ascends path)
    (hSound : Sound start past g) :
    (∃ n rest, path = n :: rest ∧ n.fired = false ∧ n.content = some b ∧ before = []) ∨
      g'.HasParent start (past ++ before.filterMap Entry.accepted?) b := by
  obtain ⟨hPath, hPassed, hFound, hUnfired, -, hContent, -⟩ := h
  obtain ⟨passed, rest, rfl, rfl, hRest⟩ := List.map_eq_append_iff.mp hPath
  obtain ⟨n, left, rfl, rfl, -⟩ := List.map_eq_cons_iff.mp hRest
  -- firing passed all of the nodes before `n`, and marked them
  have hStoredPassed : ∀ m ∈ passed, m ∈ g.nodes := fun m hm => hStored m (List.mem_append_left _ hm)
  rw [List.map_append] at hDistinct
  rw [fireLinks_eq_fire sink start hStoredPassed (List.nodup_append.mp hDistinct).1] at hPassed
  obtain ⟨_, _, _, hPasses⟩ := fire_passes sink start passed g s
  obtain ⟨hWhole, -, hLast⟩ := hPasses.of_ending_none (by rw [hPassed])
  rw [hPassed, hWhole, hLast] at hPasses
  have hGraph : g' = g.markAll (newlyFired passed) := hPasses.graph
  have hn : n ∈ g.nodes := hStored n (by simp)
  have hMarked : g'.find? n.id = some (n.markedIn (newlyFired passed)) := by
    rw [hGraph, ← Node.markedIn_id (newlyFired passed) n]
    exact ForkGraph.find?_of_mem (ForkGraph.markedIn_mem_markAll hn _)
  cases hMarked.symm.trans hFound
  rw [Node.markedIn_content] at hContent
  have hParentId := (hSound n hn).content b hContent
  rcases List.eq_nil_or_concat passed with rfl | ⟨older, p, rfl⟩
  · rw [Node.markedIn_fired, Bool.or_eq_false_iff] at hUnfired
    exact .inl ⟨n, left, rfl, hUnfired.2, hContent, hPasses.entries⟩
  · have hp : p ∈ older.concat p := by simp
    have hParent : n.parent.id = p.id := by
      rw [List.concat_eq_append] at hAscends
      exact (List.isChain_append.mp hAscends).2.2 p (by simp) n (by simp)
    have hKept := ForkGraph.markedIn_mem_markAll (hStoredPassed p hp) (newlyFired (older.concat p))
    have hVouched := (hSound.fire hStoredPassed hPasses.content) _ hKept
    refine .inr ⟨_, hGraph ▸ hKept, ?_, markedIn_newlyFired hp, ?_⟩
    · rw [Node.markedIn_id, ← hParent, hParentId.2]
    · rw [hPasses.accepted_eq]
      exact hVouched.fired (markedIn_newlyFired hp)

/-! ## Checkpoints -/

theorem anchored_of_snapshot {g : ForkGraph} {last : Link} {c : Checkpoint}
    (h : Checkpoint.snapshot g last = .ok c) (hAnchored : g.Anchored) : c.restore.Anchored := by
  obtain ⟨l, hl, hFired, hLib⟩ := hAnchored
  obtain ⟨lib, hLib', hStored, -, -⟩ := Checkpoint.snapshot_eq_ok_iff.mp h
  cases hLib.symm.trans hLib'
  refine ⟨_, (Checkpoint.mem_restore_of_snapshot h).mpr ⟨l, hl, hFired, rfl⟩, rfl, ?_⟩
  rw [Checkpoint.restore_lib, hStored]
  rfl

/-- A checkpoint that a run can resume from: its LIB is one of its blocks, and each block is accounted
for. -/
def Reliable (start : BlockNum) (past : List Block) (c : Checkpoint) : Prop :=
  c.restore.Anchored ∧ Sound start past c.restore

theorem Reliable.append {c : Checkpoint} (h : Reliable start past c) (more : List Block) :
    Reliable start (past ++ more) c :=
  ⟨h.1, h.2.append more⟩

/-- The checkpoint of a graph with a stored LIB is reliable. -/
theorem reliable_of_snapshot {g : ForkGraph} {last : Link} {c : Checkpoint}
    (h : Checkpoint.snapshot g last = .ok c) (hAnchored : g.Anchored) (hSound : Sound start past g) :
    Reliable start past c := by
  refine ⟨anchored_of_snapshot h hAnchored, fun n hn => ?_⟩
  obtain ⟨m, hm, hFired, rfl⟩ := (Checkpoint.mem_restore_of_snapshot h).mp hn
  refine ⟨fun b hb => ?_, fun _ => (hSound m hm).fired hFired⟩
  cases hb

end ChainFeed
