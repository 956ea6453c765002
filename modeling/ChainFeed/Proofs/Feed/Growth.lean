import ChainFeed.Proofs.Feed.Sourced
import ChainFeed.Proofs.ForkGraph.Purge

/-! # What each stage adds

Only linking adds a node to the graph, and only purging takes nodes away. Each stage of an iteration writes so many
events, accepted blocks, new nodes and checkpoints to the journal, and what the stages write adds up.
-/

set_option autoImplicit false

namespace ChainFeed

open ForkGraph

variable {τ : Type}

def Entry.event? : Entry → Option Event
  | event e => some e
  | _ => none

/-- The blocks that were stored as new nodes. -/
def Journal.linked (j : Journal) : List BlockRef := j.pick Entry.linked?

/-! ## What a graph stores -/

namespace ForkGraph

/-- The stored blocks, ascending. -/
def refs (g : ForkGraph) : List BlockRef := g.nodes.map fun n => n.block

/-- What a node holds is the block that it stands for. -/
def Filled (g : ForkGraph) : Prop := ∀ n ∈ g.nodes, ∀ b, n.content = some b → b.ref = n.block

variable {g g' : ForkGraph} {lib head : BlockRef} {num : BlockNum} {move : LibMove}

/-- What linking `b` adds. -/
def adds (g : ForkGraph) (b : Block) : List BlockRef := if g.contains b.id then [] else [b.ref]

theorem refs_link_perm (g : ForkGraph) (b : Block) : (g.refs ++ g.adds b).Perm (g.link (.fresh b)).refs := by
  unfold adds
  by_cases hOld : g.contains b.id = true
  · rw [link_of_contains hOld, if_pos hOld, List.append_nil]
  · have hNodes : (g.link (.fresh b)).nodes = Node.insertSorted (.fresh b) g.nodes := by
      rw [link, dif_neg (by exact hOld)]
    have hSorted := (Node.insertSorted_perm (.fresh b) g.nodes).map fun n => n.block
    rw [if_neg hOld, refs, refs, hNodes]
    exact (List.perm_append_singleton _ _).trans hSorted.symm

@[simp] theorem refs_markAll (g : ForkGraph) (ids : List BlockId) : (g.markAll ids).refs = g.refs := by
  rw [refs, nodes_markAll, List.map_map]
  exact List.map_congr_left fun n _ => congrArg Link.block (n.markedIn_toLink ids)

theorem refs_purge_perm (g : ForkGraph) : g.refs.Perm (g.belowLib ++ g.purge.refs) := by
  have hKept : g.purge.nodes = g.nodes.filter fun n => !decide (n.num < g.libNum) :=
    List.filter_congr fun n _ => by simp [← UInt64.not_lt]
  rw [belowLib, refs, refs, hKept, ← List.map_append]
  exact (List.filter_append_perm _ _).symm.map _

theorem Advance.newLib?_cases (h : Advance g lib head num g' move) :
    move.newLib? = none ∧ g'.lib = g.lib ∨
      ∃ new, move.newLib? = some new ∧ g'.lib = some new ∧ lib.num < new.num := by
  cases h with
  | belowStart | confirmed | notFound => exact .inl ⟨rfl, rfl⟩
  | moved hHigh hFound =>
    rw [← num_of_ancestorAt? hFound] at hHigh
    exact .inr ⟨_, rfl, rfl, hHigh⟩

theorem Filled.link (h : g.Filled) (b : Block) : (g.link (.fresh b)).Filled := by
  intro n hn c hContent
  obtain hn | ⟨rfl, -⟩ := mem_link.mp hn
  · exact h n hn c hContent
  · cases hContent
    rfl

theorem Filled.markAll (h : g.Filled) (ids : List BlockId) : (g.markAll ids).Filled := by
  intro n hn c hContent
  obtain ⟨m, hm, rfl⟩ := mem_markAll.mp hn
  rw [Node.markedIn_content] at hContent
  rw [Node.markedIn_toLink]
  exact h m hm c hContent

theorem Filled.purge (h : g.Filled) (hNodes : g'.nodes = g.nodes) : g'.purge.Filled :=
  fun n hn => h n (hNodes ▸ (mem_purge.mp hn).1)

end ForkGraph

namespace Feed

variable {f : Feed τ}

theorem Stepped.filled {r r' : Run τ} (h : f.Stepped r r') (hFilled : r.graph.Filled) : r'.graph.Filled := by
  obtain ⟨-, hIdle, -⟩ | ⟨-, -, b, s, hTakes, hProcessed⟩ := h.idle_or_processed
  · rw [hIdle.graph]
    exact hFilled
  · rw [← hTakes.sameBut.graph] at hFilled
    obtain ⟨ids, hGraph⟩ | ⟨ids, lib, graph, move, -, hMove, hGraph⟩ := hProcessed.graph_cases
    · rw [hGraph]
      exact (hFilled.link b).markAll ids
    · rw [hGraph]
      exact ((hFilled.link b).markAll ids).purge hMove.nodes_eq

theorem Begun.filled {disk : Disk} {r : Run τ} (h : f.Begun disk r) : r.graph.Filled := by
  cases h with
  | ended _ _ hGraph | cold _ hGraph =>
    rw [hGraph]
    exact fun n hn => absurd hn List.not_mem_nil
  | resumed _ _ hGraph =>
    rw [hGraph]
    intro n hn b hContent
    obtain ⟨stored, -, rfl⟩ := Checkpoint.exists_of_mem_restore hn
    cases hContent

end Feed

/-! ## What a journal gains -/

/-- `j'` says so much more than `j`. -/
structure Journal.Grows (j j' : Journal) (events : List Event) (accepted : List Block) (linked : List BlockRef)
    (saved : List Checkpoint) : Prop where
  events : j'.events = j.events ++ events
  accepted : j'.accepted = j.accepted ++ accepted
  linked : j'.linked = j.linked ++ linked
  checkpoints : j'.checkpoints = j.checkpoints ++ saved

namespace Journal

variable {j k l : Journal} {e e' : List Event} {a a' : List Block} {n n' : List BlockRef} {s s' : List Checkpoint}

theorem grows_refl (j : Journal) : j.Grows j [] [] [] [] := by
  constructor <;> rw [List.append_nil]

theorem Grows.trans (h : j.Grows k e a n s) (h' : k.Grows l e' a' n' s') :
    j.Grows l (e ++ e') (a ++ a') (n ++ n') (s ++ s') where
  events := by rw [h'.events, h.events, List.append_assoc]
  accepted := by rw [h'.accepted, h.accepted, List.append_assoc]
  linked := by rw [h'.linked, h.linked, List.append_assoc]
  checkpoints := by rw [h'.checkpoints, h.checkpoints, List.append_assoc]

theorem Grows.quietly (h : j.Grows k e a n s) (h' : k.Grows l [] [] [] []) : j.Grows l e a n s := by
  have hGrows := h.trans h'
  simp only [List.append_nil] at hGrows
  exact hGrows

theorem grows_record (j : Journal) (more : List Entry) :
    j.Grows (j.record more) (more.filterMap Entry.event?) (more.filterMap Entry.accepted?)
      (more.filterMap Entry.linked?) (more.filterMap Entry.checkpoint?) where
  events := pick_record Entry.event? j more
  accepted := pick_record Entry.accepted? j more
  linked := pick_record Entry.linked? j more
  checkpoints := pick_record Entry.checkpoint? j more

theorem grows_event (j : Journal) (event : Event) : j.Grows (j.record [.event event]) [event] [] [] [] :=
  j.grows_record [.event event]

theorem grows_notes {notes : List Note} (h : ∀ n ∈ notes, (Entry.note n).linked? = none) (j : Journal) :
    j.Grows (j.record (notes.map .note)) [] [] [] [] := by
  have hNone : ∀ {α : Type} (p : Entry → Option α), (∀ n ∈ notes, p (.note n) = none) →
      (notes.map Entry.note).filterMap p = [] := by
    intro α p hp
    rw [List.filterMap_map, List.filterMap_eq_nil_iff]
    exact hp
  have hGrows := j.grows_record (notes.map .note)
  rw [hNone _ h, hNone _ fun _ _ => rfl, hNone _ fun _ _ => rfl, hNone _ fun _ _ => rfl] at hGrows
  exact hGrows

theorem grows_note {n : Note} (h : (Entry.note n).linked? = none) (j : Journal) :
    j.Grows (j.record [.note n]) [] [] [] [] :=
  grows_notes (List.forall_mem_singleton.mpr h) j

theorem record_append (j : Journal) (more rest : List Entry) :
    j.record (more ++ rest) = (j.record more).record rest := by
  rw [record, List.reverse_append, List.append_assoc]
  rfl

end Journal

/-! ## Stages -/

namespace Run

theorem link_grows (r : Run τ) (b : Block) :
    r.journal.Grows (r.link b).journal [] [] (r.graph.adds b) [] := by
  unfold adds
  have hGrows := r.journal.grows_record [r.added b]
  rw [← link_journal] at hGrows
  cases hSeen : r.graph.contains b.id <;> rw [added, hSeen] at hGrows <;> exact hGrows

def checked (r : Run τ) (b : Block) (target : BlockRef) : Event :=
  .segmentChecked target ((r.link b).graph.segmentTo target).length ((r.link b).graph.segmentTo target).reachesLib

theorem check_grows (r : Run τ) (b : Block) (target : BlockRef) :
    r.journal.Grows (r.check b target).journal [r.checked b target] [] (r.graph.adds b) [] := by
  have hCycle : ∀ n ∈ (((r.link b).graph.segmentTo target).note? target).toList, (Entry.note n).linked? = none := by
    intro n hn
    rw [Segment.note?] at hn
    split at hn
    · rw [List.mem_singleton.mp hn]
      rfl
    · cases hn
  rw [check, record_journal, Journal.record_append]
  have hChecked (j : Journal) := (j.grows_note (n := .segmentChecked target ((r.link b).graph.segmentTo target).length
    ((r.link b).graph.segmentTo target).reachesLib) rfl).trans (Journal.grows_event _ (r.checked b target))
  have hGrows := ((r.link_grows b).trans (Journal.grows_notes hCycle _)).trans (hChecked _)
  simp only [List.append_nil] at hGrows
  exact hGrows

end Run

theorem filterMap_event?_deliveries (start : BlockNum) {path : List Node}
    (hFilled : ∀ n ∈ path, ∀ b, n.content = some b → b.ref = n.block) :
    (path.flatMap (Node.deliveries start)).filterMap Entry.event? =
      (path.filterMap (Node.delivered? start)).map fun b => .fired b.ref := by
  induction path with
  | nil => rfl
  | cons n path ih =>
    obtain ⟨hFirst, hRest⟩ := List.forall_mem_cons.mp hFilled
    rw [List.flatMap_cons, List.filterMap_append, ih hRest, List.filterMap_cons]
    unfold Node.deliveries Node.delivered?
    split
    · rfl
    · cases hContent : n.content with
      | none => rfl
      | some b =>
        rw [← hFirst b hContent]
        rfl

namespace Feed

variable (f : Feed τ)

theorem wait_grows (r : Run τ) : r.journal.Grows (f.wait r).journal [] [] [] [] := by
  obtain hSame | hClosed := f.wait_cases r
  · rw [hSame]
    exact r.journal.grows_refl
  · rw [hClosed]
    exact Journal.grows_note rfl _

theorem goOn_grows (last : Link) (r : Run τ) : r.journal.Grows (f.goOn last r).journal [] [] [] [] := by
  obtain ⟨-, hClosed⟩ | ⟨-, hSame | ⟨n, hn, hClosed⟩⟩ := f.goOn_cases last r
  · rw [hClosed]
    exact r.journal.grows_refl
  · rw [hSame]
    exact r.journal.grows_refl
  · rw [hClosed]
    exact Journal.grows_note hn.1 _

theorem handOver_grows {path : List Node} (hFilled : ∀ n ∈ path, ∀ b, n.content = some b → b.ref = n.block)
    (r : Run τ) :
    ∃ blocks, r.journal.Grows (f.handOver path r).journal (blocks.map fun b => .fired b.ref) blocks [] [] := by
  obtain ⟨passed, left, last, h⟩ := fire_passes f.sink f.config.start path r.graph r.sinkState
  have hEvents : (fire f.sink f.config.start path r.graph r.sinkState).entries.filterMap Entry.event? =
      (passed.filterMap (Node.delivered? f.config.start)).map fun b => .fired b.ref := by
    rw [h.entries, List.filterMap_append, h.filterMap_last_eq_nil fun _ _ _ => rfl, List.append_nil]
    exact filterMap_event?_deliveries f.config.start fun n hn => hFilled n (h.split ▸ List.mem_append_left left hn)
  refine ⟨passed.filterMap (Node.delivered? f.config.start), ?_⟩
  have hGrows := r.journal.grows_record (fire f.sink f.config.start path r.graph r.sinkState).entries
  rw [hEvents, h.accepted_eq, h.filterMap_entries_eq_nil (fun _ _ => rfl) fun _ => rfl,
    h.filterMap_entries_eq_nil (fun _ _ => rfl) fun _ => rfl] at hGrows
  exact hGrows

theorem advance_grows (b : Block) (num : BlockNum) (graph : ForkGraph) (move : LibMove) (r : Run τ) :
    r.journal.Grows (advance b num graph move r).journal
      (move.newLib?.toList.map .libSet ++ if graph.belowLib.isEmpty then [] else [.purged graph.belowLib])
      [] [] [] := by
  have hNotes : ∀ n ∈ (move.note? b.ref num).toList, (Entry.note n).linked? = none := by
    intro n hn
    rw [Option.mem_toList] at hn
    cases move <;> cases hn <;> rfl
  have hSet : ∀ j : Journal, j.Grows (j.record (move.newLib?.toList.map fun lib => .event (.libSet lib)))
      (move.newLib?.toList.map .libSet) [] [] [] := by
    intro j
    cases move.newLib? with
    | none => exact j.grows_refl
    | some lib => exact j.grows_event (.libSet lib)
  have hPurged : ∀ j : Journal,
      j.Grows (j.record (if graph.belowLib.isEmpty then [] else [.event (.purged graph.belowLib)]))
        (if graph.belowLib.isEmpty then [] else [.purged graph.belowLib]) [] [] [] := by
    intro j
    cases graph.belowLib.isEmpty with
    | true => exact j.grows_refl
    | false => exact j.grows_event (.purged graph.belowLib)
  -- the note of the new LIB number and the notes of the move stand before the events
  rw [advance, Run.record_journal, Journal.record_append, Journal.record_append]
  have hSetting := r.journal.grows_note (n := .settingLib b.ref num) rfl
  exact ((hSetting.trans (Journal.grows_notes hNotes _)).trans (hSet _)).trans (hPurged _)

variable {f}

theorem fetch_grows {num : BlockNum} {r r' : Run τ} {answer : Option Block} (h : f.fetch num r = (r', answer)) :
    r.journal.Grows r'.journal (answer.toList.map fun b => .fetched b.ref b.parentRef) [] [] [] := by
  have hAsked := r.journal.grows_record (r.source.fetchRetrying num f.config.retries).entries
  simp only [Source.fetchRetrying] at hAsked
  rw [Source.filterMap_askFrom_eq_nil (fun _ _ _ => rfl) (fun _ _ _ _ => rfl),
    Source.filterMap_askFrom_eq_nil (fun _ _ _ => rfl) (fun _ _ _ _ => rfl),
    Source.filterMap_askFrom_eq_nil (fun _ _ _ => rfl) (fun _ _ _ _ => rfl),
    Source.filterMap_askFrom_eq_nil (fun _ _ _ => rfl) (fun _ _ _ _ => rfl)] at hAsked
  unfold fetch at h
  simp only at h
  split at h <;> cases h
  · exact hAsked.trans (Journal.grows_event _ _)
  · exact hAsked
  · exact hAsked

/-! ## Taking a block in -/

/-- The run `s'` has linked `b` and handed over `blocks`, and neither settled the LIB nor saved a checkpoint since
`s`. -/
structure TakenIn (b : Block) (s s' : Run τ) (opening : List Event) (blocks : List Block) : Prop where
  journal : s.journal.Grows s'.journal (opening ++ blocks.map fun b => .fired b.ref) blocks (s.graph.adds b) []
  lib : s'.graph.lib = s.graph.lib
  refs : s'.graph.refs = (s.graph.link (.fresh b)).refs
  disk : s'.disk = s.disk

theorem TakenIn.quietly {b : Block} {s s' r : Run τ} {opening : List Event} {blocks : List Block}
    (h : TakenIn b s s' opening blocks) (hJournal : s'.journal.Grows r.journal [] [] [] [])
    (hGraph : r.graph = s'.graph) (hDisk : r.disk = s'.disk) : TakenIn b s r opening blocks where
  journal := h.journal.quietly hJournal
  lib := by rw [hGraph, h.lib]
  refs := by rw [hGraph, h.refs]
  disk := hDisk.trans h.disk

theorem takenIn_link (s : Run τ) (b : Block) : TakenIn b s (s.link b) [] [] :=
  ⟨s.link_grows b, link_lib _ _, rfl, rfl⟩

theorem takenIn_check (s : Run τ) (b : Block) (target : BlockRef) :
    TakenIn b s (s.check b target) [s.checked b target] [] :=
  ⟨s.check_grows b target, link_lib _ _, rfl, rfl⟩

theorem takenIn_handOver {s : Run τ} (hFilled : s.graph.Filled) (b : Block) (target : BlockRef) :
    ∃ blocks, TakenIn b s (f.handOver ((s.link b).graph.segmentTo target).nodes (s.check b target))
      [s.checked b target] blocks := by
  have hPath : ∀ n ∈ ((s.link b).graph.segmentTo target).nodes, ∀ c, n.content = some c → c.ref = n.block :=
    fun n hn => hFilled.link b n (mem_of_mem_segmentTo hn)
  obtain ⟨blocks, hHanded⟩ := f.handOver_grows hPath (s.check b target)
  obtain ⟨passed, -, -, -, hGraph, -, -⟩ :=
    handOver_passes (f := f) ((s.link b).graph.segmentTo target).nodes (s.check b target)
  have hGrows := (s.check_grows b target).trans hHanded
  rw [List.append_nil] at hGrows
  refine ⟨blocks, hGrows, ?_, ?_, rfl⟩ <;> rw [hGraph]
  · simp
  · simp

end Feed

end ChainFeed
