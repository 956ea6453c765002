import ChainFeed.Proofs.Feed.Order
import ChainFeed.Proofs.Checkpoint.RoundTrip

/-! # Runs that go on from one another

A run that resumes from the file of an earlier run takes over what that run had accounted for. So over
all runs with one configuration, each block that is handed over comes after its parent.
-/

set_option autoImplicit false

namespace ChainFeed

variable {τ : Type} {f : Feed τ} {start : BlockNum} {first : Option Block} {past : List Block} {r r' : Run τ}
  {before : List Entry} {b : Block}

/-! ## Where an acceptance comes from -/

theorem concat_isPrefix_append {α : Type} {a : α} {l more before : List α} (h : before ++ [a] <+: l ++ more) :
    before ++ [a] <+: l ∨ ∃ others, before = l ++ others ∧ others ++ [a] <+: more := by
  rcases List.prefix_or_prefix_of_prefix h (List.prefix_append l more) with hShort | hLong
  · exact .inl hShort
  rcases List.prefix_concat_iff.mp hLong with rfl | ⟨others, rfl⟩
  · exact .inl (List.prefix_refl _)
  · rw [List.append_assoc, List.prefix_append_right_inj] at h
    exact .inr ⟨others, rfl, h⟩

theorem Run.Writes.accepted_isPrefix {P : Entry → Prop} (h : r.Writes P r') (hP : ∀ e, P e → e.accepted? = none)
    (hAccepted : before ++ [.handed b .accepted] <+: r'.journal.entries) :
    before ++ [.handed b .accepted] <+: r.journal.entries := by
  obtain ⟨more, hEntries, hKind⟩ := h
  rw [hEntries] at hAccepted
  obtain hOld | ⟨others, -, hNew⟩ := concat_isPrefix_append hAccepted
  · exact hOld
  · cases hP _ (hKind _ (hNew.subset (List.mem_append_right others (List.mem_singleton_self _))))

namespace Feed

/-- The iteration from `r` takes up a block and fires the path to the head, on which the sink accepts `b` right after
the entries `before` were written. By then the graph is `g`. -/
inductive Accepts (f : Feed τ) (r : Run τ) (before : List Entry) (b : Block) (g : ForkGraph) : Prop where
  | firing {c : Block} {s : Run τ} {target : BlockRef} {said : List Entry} (hRunning : r.ending = none)
      (hTakes : f.Takes r c s) (hHead : (s.link c).cursor.head = some target)
      (hReach : ((s.link c).graph.segmentTo target).reachesLib = true)
      (hAccepts : f.sink.AcceptsAlong f.config.start ((s.link c).graph.segmentTo target).links (s.link c).graph s.sinkState
        said b g)
      (hBefore : before = (s.check c target).journal.entries ++ said) : Accepts f r before b g

theorem Stepped.accepted_cases (h : f.Stepped r r')
    (hAccepted : before ++ [.handed b .accepted] <+: r'.journal.entries) :
    before ++ [.handed b .accepted] <+: r.journal.entries ∨ ∃ g, f.Accepts r before b g := by
  have hRequest : ∀ e : Entry, e.IsRequest → e.accepted? = none :=
    fun _ => Entry.accepted?_ignoresReports.eq_none_of_isRequest fun _ _ _ => rfl
  have hReport : ∀ e : Entry, e.IsReport → e.accepted? = none :=
    fun _ => Entry.accepted?_ignoresReports.eq_none_of_isReport
  obtain ⟨-, hIdle, -⟩ | ⟨hRunning, -, c, s, hTakes, hProcessed⟩ := h.idle_or_processed
  · exact .inl (hIdle.requests.accepted_isPrefix hRequest hAccepted)
  have hTaken := hTakes.sameBut.requests
  obtain hReports | ⟨target, hHead, hReach, hSettling⟩ := hProcessed.writes
  · exact .inl (hTaken.accepted_isPrefix hRequest (hReports.accepted_isPrefix hReport hAccepted))
  have hHanded := hSettling.accepted_isPrefix
    (fun e he => he.eq_none Entry.accepted?_ignoresReports (fun _ => rfl) fun _ _ _ => rfl) hAccepted
  rw [handOver_journal, Journal.entries_record] at hHanded
  obtain hOld | ⟨said, hBefore, hNew⟩ := concat_isPrefix_append hHanded
  · have hLinked := (s.check_reports c target).accepted_isPrefix hReport hOld
    exact .inl (hTaken.accepted_isPrefix hRequest hLinked)
  · have hStored : ∀ n ∈ ((s.link c).graph.segmentTo target).nodes, n ∈ (s.link c).graph.nodes :=
      fun n hn => ForkGraph.mem_of_mem_segmentTo hn
    have hFires := fireLinks_eq_fire f.sink f.config.start hStored (ForkGraph.segmentTo_nodup _ target) s.sinkState
    obtain ⟨g, hAccepts⟩ := Sink.exists_accepts (hFires ▸ hNew)
    exact .inr ⟨g, .firing hRunning hTakes hHead hReach hAccepts hBefore⟩

/-- Each block that a run accepted since `r` was accepted in one of its iterations. -/
theorem exists_accepts_of_after (n : Nat) (hNone : r.journal.pick Entry.accepted? = [])
    (hAccepted : before ++ [.handed b .accepted] <+: (f.after n r).journal.entries) :
    ∃ k < n, ∃ g, f.Accepts (f.after k r) before b g := by
  induction n with
  | zero =>
    have hMem : b ∈ r.journal.pick Entry.accepted? :=
      List.mem_filterMap.mpr ⟨_, hAccepted.subset (List.mem_append_right before (List.mem_singleton_self _)), rfl⟩
    rw [hNone] at hMem
    cases hMem
  | succ n ih =>
    obtain hOld | hNew := (f.stepped (f.after n r)).accepted_cases hAccepted
    · obtain ⟨k, hk, hAccepts⟩ := ih hOld
      exact ⟨k, Nat.lt_succ_of_lt hk, hAccepts⟩
    · exact ⟨n, Nat.lt_succ_self n, hNew⟩

end Feed

/-! ## Runs -/

/-- What a run has accepted, on top of what was accepted before it, accounts for its graph and its checkpoints. -/
structure Run.Orderly (start : BlockNum) (first : Option Block) (past : List Block) (r : Run τ) : Prop where
  sound : Sound start (past ++ r.journal.pick Entry.accepted?) r.graph
  checkpoints : ∀ c ∈ r.journal.checkpoints, Reliable start (past ++ r.journal.pick Entry.accepted?) c
  begun : ∀ b, r.pending = some b → first = some b ∧ r.journal.pick Entry.accepted? = []

namespace Feed

theorem Processed.orderly {s : Run τ} (h : f.Processed b s r') (hTakes : f.Takes r b s) (hLive : r.Live)
    (hOrderly : r.Orderly f.config.start first past) : r'.Orderly f.config.start first past := by
  obtain ⟨accepted, hTurn, hAccepted⟩ := h.turn
  rw [hTakes.sameBut.graph] at hTurn
  rw [hTakes.sameBut.accepted] at hAccepted
  have hSound : Sound f.config.start (past ++ r'.journal.pick Entry.accepted?) r'.graph := by
    rw [hAccepted, ← List.append_assoc]
    exact hOrderly.sound.turn hTurn
  refine ⟨hSound, h.forall_checkpoints hTakes (fun c hc => ?_) fun c target last graph hSettles hGraph hSnapshot => ?_,
    fun c hc => ?_⟩
  · rw [hAccepted, ← List.append_assoc]
    exact (hOrderly.checkpoints c hc).append accepted
  · exact reliable_of_snapshot hSnapshot (hSettles.anchored hTakes hLive) (hGraph ▸ hSound)
  · rw [h.pending_eq, hTakes.pending_eq_none] at hc
    cases hc

theorem Stepped.orderly (h : f.Stepped r r') (hLive : r.ending = none → r.Live)
    (hOrderly : r.Orderly f.config.start first past) : r'.Orderly f.config.start first past := by
  rcases h.idle_or_processed with ⟨-, hIdle, hPending, -⟩ | ⟨hRunning, -, b, s, hTakes, hProcessed⟩
  · have hCheckpoints : r'.journal.checkpoints = r.journal.checkpoints := hIdle.checkpoints
    obtain ⟨hSound, hReliable, hBegun⟩ := hOrderly
    refine ⟨?_, ?_, ?_⟩
    · rwa [hIdle.graph, hIdle.accepted]
    · rwa [hCheckpoints, hIdle.accepted]
    · rwa [hPending, hIdle.accepted]
  · exact hProcessed.orderly hTakes (hLive hRunning) hOrderly

theorem orderly_after (hLive : r.ending = none → r.Live) (hOrderly : r.Orderly f.config.start first past) (n : Nat) :
    (f.after n r).Orderly f.config.start first past := by
  induction n with
  | zero => exact hOrderly
  | succ n ih => exact (f.stepped (f.after n r)).orderly (live_after hLive n) ih

theorem Begun.orderly {disk : Disk} (h : f.Begun disk r)
    (hReliable : ∀ dir c, f.config.stateDir = some dir → Checkpoint.load disk dir = .ok c →
      Reliable f.config.start past c) :
    (r.ending = none → r.Live) ∧ r.Orderly f.config.start r.pending past := by
  have hUntouched := h.untouched
  have hOrderly : Sound f.config.start past r.graph → r.Orderly f.config.start r.pending past := by
    intro hSound
    have hNone : r.journal.checkpoints = [] := hUntouched.checkpoints
    refine ⟨hSound.append _, ?_, fun b hb => ⟨hb, hUntouched.accepted⟩⟩
    rw [hNone]
    simp
  cases h with
  | ended hEnding _ hGraph =>
    refine ⟨fun hRunning => ?_, hOrderly fun n hn => ?_⟩
    · rw [hRunning] at hEnding
      cases hEnding
    · rw [hGraph] at hn
      cases hn
  | cold _ hGraph hCursor _ hPending =>
    refine ⟨fun _ => live_of_justBegun ⟨hGraph, hCursor, hPending⟩, hOrderly fun n hn => ?_⟩
    rw [hGraph] at hn
    cases hn
  | resumed hDir hLoad hGraph hCursor =>
    obtain ⟨hAnchored, hSound⟩ := hReliable _ _ hDir hLoad
    refine ⟨fun _ => live_of_anchored (hGraph ▸ hAnchored) hCursor, hOrderly ?_⟩
    rw [hGraph]
    exact hSound

/-! ## Parents -/

/-- The path to the LIB begins with a fired block, but for the start block's own. -/
theorem Takes.path_eq_cons {s : Run τ} {target : BlockRef} (hTakes : f.Takes r b s)
    (hLive : r.Live) (hOrderly : r.Orderly start first past) (hHead : (s.link b).cursor.head = some target)
    (hReach : ((s.link b).graph.segmentTo target).reachesLib = true) :
    ∃ l path, ((s.link b).graph.segmentTo target).nodes = l :: path ∧
      (l.fired = true ∨
        path = [] ∧ l.content = first ∧ (s.check b target).journal.pick Entry.accepted? = []) := by
  obtain ⟨⟨goal, hGoal, hMeets⟩, l, hl, hLib, hFirst⟩ := hTakes.linked hLive
  cases hGoal.symm.trans hHead
  obtain ⟨l', path, -, -, -, hNodes, -, -, -, hId, -⟩ :=
    hMeets.exists_segment hLib (ForkGraph.contains_of_mem hl) hReach
  have hStored : ∀ n ∈ l' :: path, n ∈ (s.link b).graph.nodes :=
    fun n hn => ForkGraph.mem_of_mem_segmentTo (hNodes ▸ hn)
  have hSame : l' = l := ForkGraph.eq_of_id_eq (hStored l' List.mem_cons_self) hl hId
  subst hSame
  refine ⟨l', path, hNodes, ?_⟩
  rcases hFirst with hFired | ⟨hBegun, hFresh⟩
  · exact .inl hFired
  · obtain ⟨hFirst, hNone⟩ := hOrderly.begun b hBegun.2.2
    refine .inr ⟨?_, by rw [hFresh, hFirst]; rfl, ?_⟩
    · obtain ⟨-, -, hOnly⟩ := hTakes.of_justBegun hBegun
      have hDistinct := ForkGraph.segmentTo_nodup (s.link b).graph target
      rw [hNodes, List.map_cons, List.nodup_cons] at hDistinct
      cases path with
      | nil => rfl
      | cons n path =>
        have hn : n = .fresh b := List.mem_singleton.mp (hOnly ▸ hStored n (by simp))
        exact absurd (List.mem_map.mpr ⟨n, List.mem_cons_self, by rw [hn, hFresh]⟩) hDistinct.1
    · rw [pick_check Entry.accepted?_ignoresReports, hTakes.sameBut.accepted, hNone]

theorem Accepts.running {g : ForkGraph} (h : f.Accepts r before b g) : r.ending = none := by
  cases h
  assumption

/-- The sink accepts the start block as the first of all, or a block whose parent is there. -/
theorem Accepts.first_or_hasParent {g : ForkGraph} (h : f.Accepts r before b g) (hLive : r.Live)
    (hOrderly : r.Orderly f.config.start first past) :
    (first = some b ∧ before.filterMap Entry.accepted? = []) ∨
      g.HasParent f.config.start (past ++ before.filterMap Entry.accepted?) b := by
  obtain @⟨c, s, target, said, -, hTakes, hHead, hReach, hAccepts, hBefore⟩ := h
  have hSame := hTakes.sameBut
  have hChecked : (s.check c target).journal.pick Entry.accepted? = r.journal.pick Entry.accepted? :=
    (pick_check Entry.accepted?_ignoresReports s c target).trans hSame.accepted
  have hSound : Sound f.config.start (past ++ r.journal.pick Entry.accepted?) (s.link c).graph := by
    rw [Run.link_graph, hSame.graph]
    exact hOrderly.sound.link c
  obtain ⟨l, path, hNodes, hFirst⟩ := hTakes.path_eq_cons hLive hOrderly hHead hReach
  rw [hBefore, List.filterMap_append, ← Journal.pick, hChecked, ← List.append_assoc]
  obtain ⟨n, rest, hPath, hUnfired, hContent, hNothing⟩ | hParent := hAccepts.first_or_hasParent
    (fun n hn => ForkGraph.mem_of_mem_segmentTo hn) (ForkGraph.segmentTo_nodup _ target)
    (ascends_segmentTo _ target) hSound
  · cases hNodes.symm.trans hPath
    obtain hFired | ⟨-, hStart, hNone⟩ := hFirst
    · cases hUnfired.symm.trans hFired
    · rw [hChecked] at hNone
      exact .inl ⟨hStart.symm.trans hContent, by rw [hNone, hNothing]; rfl⟩
  · exact .inr hParent

end Feed

/-! ## Sessions -/

namespace Session

def history (sessions : List Session) : List Entry := sessions.flatMap entries

/-- Sessions with one configuration. Each starts cold, or from a file that an earlier one wrote. -/
inductive Sequence (config : Config) : List Session → Prop where
  | nil : Sequence config []
  | snoc {earlier : List Session} {s : Session} (hEarlier : Sequence config earlier)
      (hConfig : s.feed.config = config)
      (hDisk : s.feed.ColdStarts s.disk ∨
        ∃ dir, config.stateDir = some dir ∧ ∃ e ∈ earlier, ∃ c ∈ e.run.journal.checkpoints,
          s.disk.read (Checkpoint.path dir) = .ok c.bytes) :
      Sequence config (earlier ++ [s])

theorem Sequence.config_eq {config : Config} {sessions : List Session} (h : Sequence config sessions) {s : Session}
    (hs : s ∈ sessions) : s.feed.config = config := by
  induction h with
  | nil => cases hs
  | snoc _ hConfig _ ih =>
    obtain hs | hs := List.mem_append.mp hs
    · exact ih hs
    · rw [List.mem_singleton.mp hs]
      exact hConfig

/-- What is accepted in the sessions before accounts for what each session takes over. -/
theorem Sequence.orderly {config : Config} {sessions : List Session} (h : Sequence config sessions) :
    ∀ earlier s later, sessions = earlier ++ s :: later →
      (s.beginning.ending = none → s.beginning.Live) ∧
        ∀ n, (s.after n).Orderly config.start s.firstBlock? ((history earlier).filterMap Entry.accepted?) := by
  induction h with
  | nil =>
    intro earlier s later hSplit
    simp at hSplit
  | @snoc before t hEarlier hConfig hDisk ih =>
    intro earlier s later hSplit
    rcases List.eq_nil_or_concat later with rfl | ⟨others, last, rfl⟩
    · obtain ⟨rfl, hLast⟩ := List.append_inj' hSplit rfl
      have hSame : s = t := (List.cons.inj hLast).1.symm
      subst hSame
      subst hConfig
      have hReliable : ∀ dir c, s.feed.config.stateDir = some dir → Checkpoint.load s.disk dir = .ok c →
          Reliable s.feed.config.start ((history before).filterMap Entry.accepted?) c := by
        intro dir c hDir hLoad
        rcases hDisk with hCold | ⟨dir', hDir', e, he, d, hd, hRead⟩
        · exact absurd hLoad (hCold dir c hDir)
        · cases hDir.symm.trans hDir'
          cases hLoad.symm.trans (Checkpoint.load_of_read hRead)
          obtain ⟨older, newer, rfl⟩ := List.append_of_mem he
          have hEarlier := ((ih older e newer rfl).2 e.iterations).checkpoints c hd
          have hHistory : history (older ++ e :: newer) = history older ++ e.entries ++ history newer := by
            simp [history]
          rw [hHistory, List.filterMap_append, List.filterMap_append]
          exact hEarlier.append _
      obtain ⟨hLive, hOrderly⟩ := s.begun.orderly hReliable
      exact ⟨hLive, Feed.orderly_after hLive hOrderly⟩
    · have hAll : before ++ [t] = earlier ++ s :: others ++ [last] := by
        rw [hSplit]
        simp
      obtain ⟨hBefore, -⟩ := List.append_inj' hAll rfl
      exact ih earlier s others hBefore

/-- In a sequence of sessions, a block that is accepted is the start block of a cold start, and then it is the first
that its session accepts; or else its parent is stored and fired by the time that the sink accepts the block, and
the parent lies below the start or was accepted before. -/
theorem accepted_after_parent {config : Config} {earlier later : List Session} {s : Session}
    (hSequence : Sequence config (earlier ++ s :: later)) {before after : List Entry} {b : Block}
    (hHanded : s.entries = before ++ .handed b .accepted :: after) :
    ∃ k < s.iterations, ∃ g, s.feed.Accepts (s.after k) before b g ∧
      ((s.StartsWith b ∧ before.filterMap Entry.accepted? = []) ∨
        g.HasParent config.start ((history earlier ++ before).filterMap Entry.accepted?) b) := by
  obtain ⟨hLive, hOrderly⟩ := hSequence.orderly earlier s later rfl
  have hAccepted : before ++ [.handed b .accepted] <+: s.run.journal.entries := by
    refine ⟨after, ?_⟩
    rw [List.append_assoc]
    exact hHanded.symm
  obtain ⟨k, hk, g, hAccepts⟩ := Feed.exists_accepts_of_after s.iterations s.begun.untouched.accepted hAccepted
  have hConfig : s.feed.config = config := hSequence.config_eq (List.mem_append_right _ List.mem_cons_self)
  subst hConfig
  refine ⟨k, hk, g, hAccepts, ?_⟩
  rw [List.filterMap_append]
  obtain ⟨hFirst, hNone⟩ | hParent :=
    hAccepts.first_or_hasParent (Feed.live_after hLive k hAccepts.running) (hOrderly k)
  · exact .inl ⟨startsWith_of_firstBlock? hFirst, hNone⟩
  · exact .inr hParent

/-- The start block lies below the start, so it is passed over. -/
def passingOver : Session where
  sinkType := Unit
  feed := .undisturbed { start := 3, finalized := some 2, stateDir := some ⟨["state"]⟩ }
  source := .scripted [.plain "2a" 2 "1a" 0, .plain "3a" 3 "2a" 2, .plain "4b" 4 "3b" 2]
  sinkState := ()
  disk := .empty
  iterations := 3

/-- What that session leaves. -/
def passedOver : Checkpoint where
  lib := ⟨"2a", 2, ""⟩
  lastFired := ⟨"3a", 3, "2a"⟩
  blocks := [⟨"2a", 2, "1a"⟩, ⟨"3a", 3, "2a"⟩]

/-- A branch from the block that the session before passed over. -/
def branchingOff : Session where
  sinkType := Unit
  feed := .undisturbed { start := 3, finalized := some 2, stateDir := some ⟨["state"]⟩ }
  source := .scripted [.plain "4b" 4 "3b" 2, .plain "3b" 3 "2a" 2]
  sinkState := ()
  disk := passingOver.run.disk
  iterations := 2

theorem accepted_after_parent_branchingOff :
    ∃ before after, branchingOff.entries = before ++ .handed (.plain "3b" 3 "2a" 2) .accepted :: after ∧
      ∃ k < branchingOff.iterations, ∃ g,
        branchingOff.feed.Accepts (branchingOff.after k) before (.plain "3b" 3 "2a" 2) g ∧
        ((branchingOff.StartsWith (.plain "3b" 3 "2a" 2) ∧ before.filterMap Entry.accepted? = []) ∨
          g.HasParent branchingOff.feed.config.start
            ((history [passingOver] ++ before).filterMap Entry.accepted?) (.plain "3b" 3 "2a" 2)) := by
  have hNone : (Checkpoint.load passingOver.disk ⟨["state"]⟩).toOption.isNone = true := by decide +kernel
  have hCold : passingOver.feed.ColdStarts passingOver.disk := Feed.coldStarts_of_isNone _ rfl hNone
  have hStored : passedOver ∈ passingOver.run.journal.checkpoints := by decide +kernel
  have hRead : branchingOff.disk.read (Checkpoint.path ⟨["state"]⟩) = .ok passedOver.bytes := by
    decide +kernel
  have hSequence : Sequence branchingOff.feed.config ([passingOver] ++ branchingOff :: []) :=
    .snoc (.snoc .nil rfl (.inl hCold)) rfl
      (.inr ⟨_, rfl, passingOver, List.mem_singleton_self _, _, hStored, hRead⟩)
  obtain ⟨before, after, hHanded⟩ :
      ∃ before after, branchingOff.entries = before ++ .handed (.plain "3b" 3 "2a" 2) .accepted :: after :=
    Journal.exists_entries_of_mem_accepted (by decide +kernel)
  exact ⟨before, after, hHanded, accepted_after_parent hSequence hHanded⟩

end Session

end ChainFeed
