import ChainFeed.Proofs.Feed.Growth
import ChainFeed.Proofs.Feed.Resume
import ChainFeed.Proofs.Feed.Trail

/-! # Events tell what happened

An iteration tells of the block that it fetched and the path that it checked, then of the blocks that were accepted,
then of a new LIB, then of the blocks removed below it, and last of the checkpoint put in place. It tells neither
more nor less than it did, however far it came. So the events of a run are a journal of what was accepted, of the
LIBs, of what the graph lost and of the checkpoints.
-/

set_option autoImplicit false

namespace ChainFeed

open ForkGraph

variable {τ : Type}

namespace Event

def fired? : Event → Option BlockRef
  | fired block => some block
  | _ => none

def libSet? : Event → Option BlockRef
  | libSet lib => some lib
  | _ => none

def purged? : Event → Option (List BlockRef)
  | purged blocks => some blocks
  | _ => none

/-- The LIB, the last block fired and the number of blocks. -/
def saved? : Event → Option (BlockRef × BlockRef × Nat)
  | saved lib lastFired blockCount => some (lib, lastFired, blockCount)
  | _ => none

end Event

/-! ## What an iteration tells -/

/-- What an iteration did that it has to tell: after its `opening` events, the blocks accepted, the LIB set, the
blocks removed and the checkpoint put in place. -/
structure Told where
  opening : List Event
  fired : List Block
  lib : Option BlockRef
  gone : List BlockRef
  saved : Option Checkpoint

def Checkpoint.event (c : Checkpoint) : Event := .saved c.lib.ref c.lastFired.ref c.blocks.length

def Told.events (t : Told) : List Event :=
  t.opening ++ t.fired.map (fun b => .fired b.ref) ++ t.lib.toList.map .libSet ++
    (if t.gone.isEmpty then [] else [.purged t.gone]) ++ t.saved.toList.map Checkpoint.event

/-- The iteration from `r` to `r'` did what `t` says, and told that and no more. -/
structure Feed.Tells (f : Feed τ) (r r' : Run τ) (t : Told) : Prop where
  opening : ∀ e ∈ t.opening, e.kind = .fetched ∨ e.kind = .segmentChecked
  lib : t.lib = none ∧ r'.graph.lib = r.graph.lib ∨
    ∃ old new, t.lib = some new ∧ r.graph.lib = some old ∧ r'.graph.lib = some new ∧ old.num < new.num
  /-- What was removed is what was there, or was stored meanwhile, and is there no more. -/
  journal : ∃ linked, r.journal.Grows r'.journal t.events t.fired linked t.saved.toList ∧
    (r.graph.refs ++ linked).Perm (t.gone ++ r'.graph.refs)
  ascending : t.gone.Pairwise BlockRef.Before
  below : ∀ b ∈ t.gone, b.num < r'.graph.libNum
  unsaved : t.saved = none → ∀ dir, f.config.stateDir = some dir → Checkpoint.Intact dir r.disk r'.disk
  written : ∀ c, t.saved = some c → ∃ dir, f.config.stateDir = some dir ∧
    r'.disk.read (Checkpoint.path dir) = .ok c.bytes

/-! ## Iterations -/

namespace Feed

variable {f : Feed τ}

theorem tells_of_takenIn {b : Block} {s r' : Run τ} {opening : List Event} {blocks : List Block}
    (h : TakenIn b s r' opening blocks) (hOpening : ∀ e ∈ opening, e.kind = .fetched ∨ e.kind = .segmentChecked) :
    f.Tells s r' ⟨opening, blocks, none, [], none⟩ where
  opening := hOpening
  lib := .inl ⟨rfl, h.lib⟩
  journal := by
    refine ⟨s.graph.adds b, ?_, ?_⟩
    · simpa [Told.events] using h.journal
    · rw [h.refs]
      exact s.graph.refs_link_perm b
  ascending := .nil
  below _ hb := absurd hb List.not_mem_nil
  unsaved _ dir _ := h.disk ▸ Checkpoint.intact_refl dir s.disk
  written _ hSaved := by cases hSaved

/-- The LIB was settled after that, and a checkpoint saved or not. -/
theorem tells_of_settled {b : Block} {s s' r' : Run τ} {opening : List Event} {blocks : List Block} {num : BlockNum}
    {graph : ForkGraph} {move : LibMove} (saved : Option Checkpoint) (h : TakenIn b s s' opening blocks)
    (hOpening : ∀ e ∈ opening, e.kind = .fetched ∨ e.kind = .segmentChecked)
    (hMove : s'.graph.advanceLib b.ref num = .ok (graph, move)) (hGraph : r'.graph = graph.purge)
    (hSaved : (advance b num graph move s').journal.Grows r'.journal (saved.toList.map Checkpoint.event) [] []
      saved.toList)
    (hUnsaved : saved = none → ∀ dir, f.config.stateDir = some dir → Checkpoint.Intact dir s'.disk r'.disk)
    (hWritten : ∀ c, saved = some c → ∃ dir, f.config.stateDir = some dir ∧
      r'.disk.read (Checkpoint.path dir) = .ok c.bytes) :
    f.Tells s r' ⟨opening, blocks, move.newLib?, graph.belowLib, saved⟩ := by
  obtain ⟨lib, hOld⟩ := lib_of_advanceLib hMove
  have hAdvance := advance_of_advanceLib hOld hMove
  refine ⟨hOpening, ?_, ⟨s.graph.adds b, ?_, ?_⟩, graph.belowLib_ascending, fun c hc => ?_, ?_, hWritten⟩
  · rw [hGraph, purge_lib]
    obtain ⟨hNone, hSame⟩ | ⟨new, hSome, hNew, hHigher⟩ := hAdvance.newLib?_cases
    · exact .inl ⟨hNone, hSame.trans h.lib⟩
    · exact .inr ⟨lib, new, hSome, h.lib.symm.trans hOld, hNew, hHigher⟩
  · have hJournal := (h.journal.trans (advance_grows b num graph move s')).trans hSaved
    simpa [Told.events] using hJournal
  · have hStored : graph.refs = (s.graph.link (.fresh b)).refs := by
      rw [← h.refs, refs, refs, hAdvance.nodes_eq]
    rw [hGraph]
    exact (hStored ▸ s.graph.refs_link_perm b).trans graph.refs_purge_perm
  · rw [hGraph, purge_libNum]
    obtain ⟨n, -, rfl, hLow⟩ := mem_belowLib.mp hc
    exact hLow
  · rw [← h.disk]
    exact hUnsaved

theorem Saved.tells {last : Link} {r t : Run τ} (h : f.Saved last r t) :
    ∃ saved : Option Checkpoint,
      r.journal.Grows t.journal (saved.toList.map Checkpoint.event) [] [] saved.toList ∧
      (saved = none → ∀ dir, f.config.stateDir = some dir → Checkpoint.Intact dir r.disk t.disk) ∧
      ∀ c, saved = some c → ∃ dir, f.config.stateDir = some dir ∧
        t.disk.read (Checkpoint.path dir) = .ok c.bytes := by
  cases h with
  | off => exact ⟨none, r.journal.grows_refl, fun _ dir _ => Checkpoint.intact_refl dir r.disk, by simp⟩
  | @on dir path c hDir hSnapshot hSave =>
    obtain ⟨lib, -, -, hLast, -⟩ := Checkpoint.snapshot_eq_ok_iff.mp hSnapshot
    have hGrows := r.journal.grows_record [.stored c, .note (.saved path last.block c.lib.ref c.blocks.length),
      .event (.saved c.lib.ref last.block c.blocks.length)]
    have hEvent : c.event = .saved c.lib.ref last.block c.blocks.length := by
      rw [Checkpoint.event, hLast]
      rfl
    refine ⟨some c, ?_, by simp, fun c' hSome => ?_⟩
    · rw [Option.toList_some, List.map_singleton, hEvent]
      exact hGrows
    · cases hSome
      exact ⟨dir, hDir, Checkpoint.read_of_save_ok hSave⟩

theorem Processed.tells {b : Block} {s r' : Run τ} (h : f.Processed b s r') (hFilled : s.graph.Filled) :
    ∃ t, f.Tells s r' t := by
  have hOpening : ∀ target, ∀ e ∈ [s.checked b target], e.kind = .fetched ∨ e.kind = .segmentChecked :=
    fun target => List.forall_mem_singleton.mpr (.inr rfl)
  cases h with
  | headless =>
    have hLinked := takenIn_link s b
    exact ⟨_, tells_of_takenIn (hLinked.quietly (Journal.grows_refl _) rfl rfl) fun e he => absurd he List.not_mem_nil⟩
  | @absent target =>
    have hChecked := takenIn_check s b target
    exact ⟨_, tells_of_takenIn (hChecked.quietly (Journal.grows_refl _) rfl rfl) (hOpening target)⟩
  | @gap target first =>
    have hLike := f.wait_resembles ((s.check b target).awaiting first.parent)
    have hTaken := (takenIn_check s b target).quietly (f.wait_grows ((s.check b target).awaiting first.parent))
      hLike.graph hLike.disk
    exact ⟨_, tells_of_takenIn hTaken (hOpening target)⟩
  | @halted target =>
    obtain ⟨blocks, hHanded⟩ := takenIn_handOver (f := f) hFilled b target
    exact ⟨_, tells_of_takenIn (hHanded.quietly (Journal.grows_refl _) rfl rfl) (hOpening target)⟩
  | @refused target _ _ _ _ _ hOver =>
    subst hOver
    obtain ⟨blocks, hHanded⟩ := takenIn_handOver (f := f) hFilled b target
    exact ⟨_, tells_of_takenIn (hHanded.quietly (Journal.grows_note (by rfl) _) rfl rfl) (hOpening target)⟩
  | @unsaved target _ _ _ _ _ _ _ _ _ hOver hMove hUnsaved =>
    subst hOver
    obtain ⟨blocks, hHanded⟩ := takenIn_handOver (f := f) hFilled b target
    refine ⟨_, tells_of_settled none hHanded (hOpening target) hMove hUnsaved.graph_eq ?_ ?_ ?_⟩
    · rw [hUnsaved.journal_eq]
      exact Journal.grows_refl _
    · exact fun _ _ hDir => hUnsaved.intact hDir
    · exact fun c hNone => by cases hNone
  | @connected target last _ t _ _ _ _ _ _ hOver hMove hSaved =>
    subst hOver
    obtain ⟨blocks, hHanded⟩ := takenIn_handOver (f := f) hFilled b target
    obtain ⟨saved, hGrows, hUnsaved, hWritten⟩ := hSaved.tells
    have hLike := f.goOn_resembles last.toLink t
    refine ⟨_, tells_of_settled saved hHanded (hOpening target) hMove (hLike.graph.trans hSaved.graph_eq)
      (hGrows.quietly (f.goOn_grows last.toLink t)) ?_ ?_⟩ <;> rw [hLike.disk]
    · exact hUnsaved
    · exact hWritten

theorem tells_of_idle {r r' : Run τ} (hJournal : r.journal.Grows r'.journal [] [] [] []) (hGraph : r'.graph = r.graph)
    (hDisk : r'.disk = r.disk) : f.Tells r r' ⟨[], [], none, [], none⟩ where
  opening := by simp
  lib := .inl ⟨rfl, congrArg ForkGraph.lib hGraph⟩
  journal := by
    refine ⟨[], hJournal, ?_⟩
    rw [hGraph, List.append_nil]
    exact List.Perm.refl _
  ascending := .nil
  below _ hb := absurd hb List.not_mem_nil
  unsaved _ dir _ := hDisk ▸ Checkpoint.intact_refl dir r.disk
  written _ hSaved := by cases hSaved

theorem Tells.of_takes {b : Block} {r s r' : Run τ} {t : Told} (h : f.Tells s r' t) (hTakes : f.Takes r b s) :
    ∃ t', f.Tells r r' t' := by
  have hSame := hTakes.sameBut
  obtain ⟨opening, hKind, hFetched⟩ : ∃ opening : List Event, (∀ e ∈ opening, e.kind = .fetched) ∧
      r.journal.Grows s.journal opening [] [] [] := by
    cases hTakes with
    | pending => exact ⟨[], by simp, r.journal.grows_refl⟩
    | fetched _ hFetch => exact ⟨_, List.forall_mem_singleton.mpr rfl, fetch_grows hFetch⟩
  refine ⟨{ t with opening := opening ++ t.opening }, ?_, ?_, ?_, h.ascending, h.below, ?_, h.written⟩
  · intro e he
    obtain he | he := List.mem_append.mp he
    · exact .inl (hKind e he)
    · exact h.opening e he
  · rw [← hSame.graph]
    exact h.lib
  · obtain ⟨linked, hJournal, hPerm⟩ := h.journal
    rw [hSame.graph] at hPerm
    refine ⟨linked, ?_, hPerm⟩
    have hGrows := hFetched.trans hJournal
    simpa [Told.events, List.append_assoc] using hGrows
  · rw [← hSame.disk]
    exact h.unsaved

theorem Stepped.tells {r r' : Run τ} (h : f.Stepped r r') (hFilled : r.graph.Filled) : ∃ t, f.Tells r r' t := by
  cases h with
  | ended | below => exact ⟨_, tells_of_idle r.journal.grows_refl rfl rfl⟩
  | stopped => exact ⟨_, tells_of_idle (Journal.grows_note rfl _) rfl rfl⟩
  | starved _ _ hFetch =>
    obtain ⟨hSame, -⟩ := f.fetch_eq_none hFetch
    exact ⟨_, tells_of_idle (fetch_grows hFetch) hSame.graph hSame.disk⟩
  | processed _ _ hTakes hProcessed =>
    rw [← hTakes.sameBut.graph] at hFilled
    obtain ⟨t, hTells⟩ := hProcessed.tells hFilled
    exact hTells.of_takes hTakes

end Feed

/-! ## What is read off the events -/

/-- An event of what a run takes in, not of what it does. -/
def Event.Opens (e : Event) : Prop :=
  e.kind = .fetched ∨ e.kind = .segmentChecked ∨ e.kind = .loaded

structure Event.IgnoresOpening {α : Type} (p : Event → Option α) : Prop where
  fetched : ∀ block parent, p (.fetched block parent) = none
  segmentChecked : ∀ target length reached, p (.segmentChecked target length reached) = none
  loaded : ∀ lib lastFired blockCount, p (.loaded lib lastFired blockCount) = none

namespace Event

theorem fired?_ignoresOpening : IgnoresOpening fired? := ⟨fun _ _ => rfl, fun _ _ _ => rfl, fun _ _ _ => rfl⟩

theorem libSet?_ignoresOpening : IgnoresOpening libSet? := ⟨fun _ _ => rfl, fun _ _ _ => rfl, fun _ _ _ => rfl⟩

theorem purged?_ignoresOpening : IgnoresOpening purged? := ⟨fun _ _ => rfl, fun _ _ _ => rfl, fun _ _ _ => rfl⟩

theorem saved?_ignoresOpening : IgnoresOpening saved? := ⟨fun _ _ => rfl, fun _ _ _ => rfl, fun _ _ _ => rfl⟩

theorem IgnoresOpening.filterMap_eq_nil {α : Type} {p : Event → Option α} (hp : IgnoresOpening p)
    {events : List Event} (h : ∀ e ∈ events, e.Opens) : events.filterMap p = [] := by
  rw [List.filterMap_eq_nil_iff]
  intro e he
  cases e with
  | fetched => exact hp.fetched _ _
  | segmentChecked => exact hp.segmentChecked _ _ _
  | loaded => exact hp.loaded _ _ _
  | fired | libSet | purged | saved => obtain hKind | hKind | hKind := h _ he <;> cases hKind

end Event

namespace Told

variable {t : Told}

theorem filterMap_events {α : Type} {p : Event → Option α} (hp : Event.IgnoresOpening p)
    (h : ∀ e ∈ t.opening, e.Opens) :
    t.events.filterMap p =
      (t.fired.filterMap fun b => p (.fired b.ref)) ++ (t.lib.toList.filterMap fun lib => p (.libSet lib)) ++
        (if t.gone.isEmpty then [] else (p (.purged t.gone)).toList) ++
        t.saved.toList.filterMap fun c => p c.event := by
  have hPurged : (if t.gone.isEmpty then [] else [Event.purged t.gone]).filterMap p =
      if t.gone.isEmpty then [] else (p (.purged t.gone)).toList := by
    cases t.gone.isEmpty with
    | true => rfl
    | false => cases hSome : p (.purged t.gone) <;> simp [hSome]
  simp only [events, List.filterMap_append, hp.filterMap_eq_nil h, List.nil_append, List.filterMap_map, hPurged]
  rfl

theorem filterMap_fired? (h : ∀ e ∈ t.opening, e.Opens) :
    t.events.filterMap Event.fired? = t.fired.map Block.ref := by
  rw [filterMap_events Event.fired?_ignoresOpening h]
  simp [Event.fired?, Checkpoint.event]

theorem filterMap_libSet? (h : ∀ e ∈ t.opening, e.Opens) : t.events.filterMap Event.libSet? = t.lib.toList := by
  rw [filterMap_events Event.libSet?_ignoresOpening h]
  simp [Event.libSet?, Checkpoint.event]

theorem flatten_filterMap_purged? (h : ∀ e ∈ t.opening, e.Opens) :
    (t.events.filterMap Event.purged?).flatten = t.gone := by
  rw [filterMap_events Event.purged?_ignoresOpening h]
  cases t.gone <;> simp [Event.purged?, Checkpoint.event]

theorem filterMap_saved? (h : ∀ e ∈ t.opening, e.Opens) :
    t.events.filterMap Event.saved? =
      t.saved.toList.map fun c => (c.lib.ref, c.lastFired.ref, c.blocks.length) := by
  rw [filterMap_events Event.saved?_ignoresOpening h]
  simp [Event.saved?, Checkpoint.event]

end Told

theorem Feed.Tells.opens {f : Feed τ} {r r' : Run τ} {t : Told} (h : f.Tells r r' t) : ∀ e ∈ t.opening, e.Opens :=
  fun e he => (h.opening e he).imp_right .inl

/-! ## Sessions -/

namespace Session

theorem filled_after (s : Session) (n : Nat) : (s.after n).graph.Filled :=
  s.feed.after_induction s.begun.filled (fun _ _ hFilled hStepped => hStepped.filled hFilled) n

theorem tells_after (s : Session) (n : Nat) : ∃ t, s.feed.Tells (s.after n) (s.after (n + 1)) t :=
  (s.feed.stepped (s.after n)).tells (s.filled_after n)

theorem coldStart_events {f : Feed τ} {num : BlockNum} {r : Run τ} (h : ∀ e ∈ r.journal.events, e.Opens) :
    ∀ e ∈ (f.coldStart num r).journal.events, e.Opens := by
  have hFetched : ∀ r' answer, f.fetch num r = (r', answer) → ∀ e ∈ r'.journal.events, e.Opens := by
    intro r' answer hFetch e he
    rw [(Feed.fetch_grows hFetch).events] at he
    obtain he | he := List.mem_append.mp he
    · exact h e he
    · obtain ⟨b, -, rfl⟩ := List.mem_map.mp he
      exact .inl rfl
  unfold Feed.coldStart
  rcases hFetch : f.fetch num r with ⟨r', _ | b⟩
  · exact hFetched r' none hFetch
  · simp only
    split
    · exact hFetched r' (some b) hFetch
    · rw [Run.record_journal, (Journal.grows_note (by rfl) _).events, List.append_nil]
      exact hFetched r' (some b) hFetch

theorem beginning_events (s : Session) : ∀ e ∈ s.beginning.journal.events, e.Opens := by
  have hNone : ∀ e ∈ s.opened.journal.events, e.Opens := fun e he => absurd he List.not_mem_nil
  cases hOpening : (s.feed.sink.opening s.sinkState).1 with
  | accepted =>
    rw [beginning_of_accepted hOpening, Feed.prepare]
    split
    · exact coldStart_events hNone
    · split
      next c hLoad =>
        have hLoaded : ∀ e ∈ [Event.loaded c.lib.ref c.lastFired.ref c.blocks.length], e.Opens :=
          List.forall_mem_singleton.mpr (.inr (.inr rfl))
        rw [Run.resume, c.rebuild_eq]
        simp only
        split <;> exact hLoaded
      next => exact coldStart_events (r := s.opened.record _) hNone
  | refused | crashed =>
    rw [beginning, Feed.begin]
    simp only [hOpening]
    exact fun e he => absurd he List.not_mem_nil

/-- The events of a session's first `n` iterations say what it did. -/
structure Faithful (s : Session) (n : Nat) : Prop where
  fired : (s.after n).journal.events.filterMap Event.fired? = (s.after n).journal.accepted.map Block.ref
  libs : s.beginning.graph.lib.toList ++ (s.after n).journal.events.filterMap Event.libSet? = s.libs n
  rising : (s.libs n).Pairwise fun old new => old.num < new.num
  highest : ∀ lib, (s.after n).graph.lib = some lib → ∀ old ∈ s.libs n, old.num ≤ lib.num
  /-- What the graph had and came to store is what is told of as removed and what it has. -/
  purged : (s.beginning.graph.refs ++ (s.after n).journal.linked).Perm
    (((s.after n).journal.events.filterMap Event.purged?).flatten ++ (s.after n).graph.refs)
  saved : (s.after n).journal.events.filterMap Event.saved? =
    (s.after n).journal.checkpoints.map fun c => (c.lib.ref, c.lastFired.ref, c.blocks.length)
  opening : ∀ e ∈ s.beginning.journal.events, e.Opens
  iterations : ∀ k < n, ∃ t, s.feed.Tells (s.after k) (s.after (k + 1)) t

theorem faithful_zero (s : Session) : s.Faithful 0 := by
  have hStart : s.after 0 = s.beginning := rfl
  have hLibs : s.libs 0 = s.beginning.graph.lib.toList := rfl
  have hAccepted : s.beginning.journal.accepted = [] := s.begun.untouched.accepted
  have hCheckpoints : s.beginning.journal.checkpoints = [] := s.begun.untouched.checkpoints
  have hLinked : s.beginning.journal.linked = [] := s.begun.untouched.linked
  have hOpening := s.beginning_events
  constructor
  · rw [hStart, hAccepted, Event.fired?_ignoresOpening.filterMap_eq_nil hOpening, List.map_nil]
  · rw [hStart, hLibs, Event.libSet?_ignoresOpening.filterMap_eq_nil hOpening, List.append_nil]
  · rw [hLibs]
    cases s.beginning.graph.lib <;> simp
  · intro lib hLib
    rw [hLibs, ← hStart, hLib]
    simp
  · rw [hStart, hLinked, Event.purged?_ignoresOpening.filterMap_eq_nil hOpening, List.append_nil]
    exact List.Perm.refl _
  · rw [hStart, hCheckpoints, Event.saved?_ignoresOpening.filterMap_eq_nil hOpening, List.map_nil]
  · exact hOpening
  · exact fun k hk => absurd hk (Nat.not_lt_zero k)

theorem libs_succ_of_tells {s : Session} {n : Nat} {t : Told} (h : s.feed.Tells (s.after n) (s.after (n + 1)) t) :
    s.libs (n + 1) = s.libs n ++ t.lib.toList := by
  obtain ⟨hNone, hSame⟩ | ⟨old, new, hSome, hOld, hNew, hHigher⟩ := h.lib
  · rw [hNone, Option.toList_none, List.append_nil]
    exact if_pos hSame
  · have hMoved : (s.after (n + 1)).graph.lib ≠ (s.after n).graph.lib := by
      rw [hOld, hNew]
      rintro ⟨⟩
      exact UInt64.lt_irrefl _ hHigher
    rw [hSome, ← hNew]
    exact if_neg hMoved

theorem Faithful.succ {s : Session} {n : Nat} (h : s.Faithful n) {t : Told}
    (hTells : s.feed.Tells (s.after n) (s.after (n + 1)) t) : s.Faithful (n + 1) := by
  obtain ⟨linked, hGrows, hPerm⟩ := hTells.journal
  have hLibs := libs_succ_of_tells hTells
  constructor
  · rw [hGrows.events, hGrows.accepted, List.filterMap_append, List.map_append, h.fired,
      Told.filterMap_fired? hTells.opens]
  · rw [hGrows.events, List.filterMap_append, ← List.append_assoc, h.libs, Told.filterMap_libSet? hTells.opens, hLibs]
  · rw [hLibs]
    obtain ⟨hNone, -⟩ | ⟨old, new, hSome, hOld, -, hHigher⟩ := hTells.lib
    · rw [hNone, Option.toList_none, List.append_nil]
      exact h.rising
    · rw [hSome]
      refine List.pairwise_append.mpr ⟨h.rising, List.pairwise_singleton _ _, fun lib hLib new' hNew' => ?_⟩
      rw [List.mem_singleton.mp hNew']
      exact UInt64.lt_of_le_of_lt (h.highest old hOld lib hLib) hHigher
  · intro lib hLib old' hOld'
    rw [hLibs] at hOld'
    obtain ⟨hNone, hSame⟩ | ⟨old, new, hSome, hOld, hNew, hHigher⟩ := hTells.lib
    · rw [hNone, Option.toList_none, List.append_nil] at hOld'
      exact h.highest lib (hSame.symm.trans hLib) old' hOld'
    · cases hNew.symm.trans hLib
      rw [hSome] at hOld'
      obtain hBefore | hLast := List.mem_append.mp hOld'
      · exact UInt64.le_of_lt (UInt64.lt_of_le_of_lt (h.highest old hOld old' hBefore) hHigher)
      · rw [List.mem_singleton.mp hLast]
        exact UInt64.le_refl _
  -- what is new this time is either removed or there afterwards, so the two sums stay even
  · rw [hGrows.events, hGrows.linked, List.filterMap_append, List.flatten_append,
      Told.flatten_filterMap_purged? hTells.opens, ← List.append_assoc, List.append_assoc _ t.gone]
    refine (h.purged.append_right linked).trans ?_
    rw [List.append_assoc]
    exact hPerm.append_left _
  · rw [hGrows.events, hGrows.checkpoints, List.filterMap_append, List.map_append, h.saved,
      Told.filterMap_saved? hTells.opens]
  · exact h.opening
  · intro k hk
    obtain hk | rfl := Nat.lt_succ_iff_lt_or_eq.mp hk
    · exact h.iterations k hk
    · exact ⟨t, hTells⟩

/-- However a run goes and ends, its events are a journal of it. -/
theorem events_faithful (s : Session) (n : Nat) : s.Faithful n := by
  induction n with
  | zero => exact s.faithful_zero
  | succ n ih =>
    obtain ⟨t, hTells⟩ := s.tells_after n
    exact ih.succ hTells

/-- What an iteration tells that goes all the way. -/
example :
    settlingDown.run.journal.events = (settlingDown.after 2).journal.events ++
      [.fetched ⟨"3a", 3⟩ ⟨"2a", 2⟩, .segmentChecked ⟨"3a", 3⟩ 3 true, .fired ⟨"3a", 3⟩, .libSet ⟨"2a", 2⟩,
        .purged [⟨"1a", 1⟩], .saved ⟨"2a", 2⟩ ⟨"3a", 3⟩ 2] := by
  decide +kernel

end Session

end ChainFeed
