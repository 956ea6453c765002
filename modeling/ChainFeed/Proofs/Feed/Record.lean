import ChainFeed.Feed.Run
import ChainFeed.Proofs.Feed.Firing

/-! # What a run's journal holds of each kind

The lists that are read off a journal all pick some entries, in order. Writing entries appends what is
picked from them.
-/

set_option autoImplicit false

namespace ChainFeed

namespace Entry

def accepted? : Entry → Option Block
  | handed b .accepted => some b
  | _ => none

def handed? : Entry → Option Block
  | handed b _ => some b
  | _ => none

/-- The number asked for and the block answered. -/
def answer? : Entry → Option (BlockNum × Block)
  | asked num _ (.block b) => some (num, b)
  | _ => none

def checkpoint? : Entry → Option Checkpoint
  | stored c => some c
  | _ => none

def linked? : Entry → Option BlockRef
  | note (.blockAdded block false _ _ _) => some block
  | _ => none

/-- The number of a LIB that was not found. -/
def unfound? : Entry → Option BlockNum
  | note (.libNotFound num _ _) => some num
  | _ => none

/-! ## Reports -/

/-- An event, or a note of anything but a LIB that was not found. -/
inductive IsReport : Entry → Prop where
  | event (e : Event) : IsReport (.event e)
  | note {n : Note} (hFound : (Entry.note n).unfound? = none) : IsReport (.note n)

/-- What asking the source writes: each attempt, and reports, none of them of a new node. -/
inductive IsRequest : Entry → Prop where
  | asked (num : BlockNum) (passed : List ClientFailure) (answer : Answer) : IsRequest (.asked num passed answer)
  | report {e : Entry} (hReport : e.IsReport) (hLinked : e.linked? = none) : IsRequest e

/-- What preparing a run writes: that the sink was opened, and requests. -/
inductive IsOpening : Entry → Prop where
  | opened (d : Delivery) : IsOpening (.opened d)
  | request {e : Entry} (hRequest : e.IsRequest) : IsOpening e

structure IgnoresReports {α : Type} (p : Entry → Option α) : Prop where
  event : ∀ e, p (.event e) = none
  note : ∀ n, (Entry.note n).unfound? = none → p (.note n) = none

theorem accepted?_ignoresReports : IgnoresReports accepted? := ⟨fun _ => rfl, fun _ _ => rfl⟩

theorem handed?_ignoresReports : IgnoresReports handed? := ⟨fun _ => rfl, fun _ _ => rfl⟩

theorem answer?_ignoresReports : IgnoresReports answer? := ⟨fun _ => rfl, fun _ _ => rfl⟩

theorem checkpoint?_ignoresReports : IgnoresReports checkpoint? := ⟨fun _ => rfl, fun _ _ => rfl⟩

theorem unfound?_ignoresReports : IgnoresReports unfound? := ⟨fun _ => rfl, fun _ hFound => hFound⟩

section

variable {α : Type} {p : Entry → Option α} {e : Entry}

theorem IgnoresReports.eq_none_of_isReport (hp : IgnoresReports p) (h : e.IsReport) : p e = none := by
  cases h with
  | event e => exact hp.event e
  | note hFound => exact hp.note _ hFound

theorem IgnoresReports.eq_none_of_isRequest (hp : IgnoresReports p)
    (hAsked : ∀ num passed answer, p (.asked num passed answer) = none) (h : e.IsRequest) : p e = none := by
  cases h with
  | asked num passed answer => exact hAsked num passed answer
  | report hReport => exact hp.eq_none_of_isReport hReport

theorem IgnoresReports.eq_none_of_isOpening (hp : IgnoresReports p) (hOpened : ∀ d, p (.opened d) = none)
    (hAsked : ∀ num passed answer, p (.asked num passed answer) = none) (h : e.IsOpening) : p e = none := by
  cases h with
  | opened d => exact hOpened d
  | request hRequest => exact hp.eq_none_of_isRequest hAsked hRequest

end

theorem linked?_of_isRequest {e : Entry} (h : e.IsRequest) : e.linked? = none := by
  cases h with
  | asked => rfl
  | report _ hLinked => exact hLinked

theorem linked?_of_isOpening {e : Entry} (h : e.IsOpening) : e.linked? = none := by
  cases h with
  | opened => rfl
  | request hRequest => exact linked?_of_isRequest hRequest

end Entry

namespace Journal

/-- What `p` finds in the entries, oldest first. -/
def pick {α : Type} (p : Entry → Option α) (j : Journal) : List α :=
  j.entries.filterMap p

@[simp] theorem pick_record {α : Type} (p : Entry → Option α) (j : Journal) (more : List Entry) :
    (j.record more).pick p = j.pick p ++ more.filterMap p := by
  rw [pick, entries_record, List.filterMap_append, pick]

theorem pick_record_of_none {α : Type} {p : Entry → Option α} {more : List Entry}
    (h : ∀ e ∈ more, p e = none) (j : Journal) : (j.record more).pick p = j.pick p := by
  rw [pick_record, List.filterMap_eq_nil_iff.mpr h, List.append_nil]

theorem handed_eq_pick (j : Journal) : j.handed = j.pick Entry.handed? := rfl

theorem answers_eq_pick (j : Journal) : j.answers = j.pick Entry.answer? := rfl

theorem checkpoints_eq_pick (j : Journal) : j.checkpoints = j.pick Entry.checkpoint? := rfl

theorem exists_entries_of_mem_accepted {j : Journal} {b : Block} (h : b ∈ j.accepted) :
    ∃ before after, j.entries = before ++ .handed b .accepted :: after := by
  obtain ⟨e, he, hAccepted⟩ := List.mem_filterMap.mp h
  have hEntry : e = .handed b .accepted := by
    split at hAccepted
    · cases hAccepted
      rfl
    · cases hAccepted
  subst hEntry
  exact List.append_of_mem he

end Journal

/-! ## Entries of a firing -/

/-- The block that passing the node hands over. -/
def Node.delivered? (start : BlockNum) (n : Node) : Option Block :=
  if n.fired ∨ n.num < start then none else n.content

theorem Node.delivered?_eq_some_iff {start : BlockNum} {n : Node} {b : Block} :
    n.delivered? start = some b ↔ n.fired = false ∧ start ≤ n.num ∧ n.content = some b := by
  unfold delivered?
  by_cases h : n.fired = true ∨ n.num < start
  · rw [if_pos h]
    rcases h with hFired | hBelow
    · simp [hFired]
    · simp [UInt64.not_le.mpr hBelow]
  · rw [if_neg h]
    rw [not_or, Bool.not_eq_true, UInt64.not_lt] at h
    simp [h]

theorem filterMap_delivered?_of_fired {start : BlockNum} {path : List Node} (h : ∀ n ∈ path, n.fired = true) :
    path.filterMap (Node.delivered? start) = [] := by
  rw [List.filterMap_eq_nil_iff]
  intro n hn
  rw [Node.delivered?, if_pos (.inl (h n hn))]

/-- What is picked from the deliveries of a path is what its nodes deliver. -/
theorem filterMap_deliveries {p : Entry → Option Block} (hHanded : ∀ b, p (.handed b .accepted) = some b)
    (hEvent : ∀ e, p (.event e) = none) (start : BlockNum) (path : List Node) :
    (path.flatMap (Node.deliveries start)).filterMap p = path.filterMap (Node.delivered? start) := by
  induction path with
  | nil => rfl
  | cons n path ih =>
    rw [List.flatMap_cons, List.filterMap_append, ih, List.filterMap_cons]
    unfold Node.deliveries Node.delivered?
    split
    · rfl
    · cases n.content with
      | none => rfl
      | some b => simp [hHanded, hEvent]

theorem filterMap_deliveries_eq_nil {α : Type} {p : Entry → Option α}
    (hHanded : ∀ b, p (.handed b .accepted) = none) (hEvent : ∀ e, p (.event e) = none)
    (start : BlockNum) (path : List Node) :
    (path.flatMap (Node.deliveries start)).filterMap p = [] := by
  rw [List.filterMap_eq_nil_iff]
  intro e he
  obtain ⟨n, -, he⟩ := List.mem_flatMap.mp he
  unfold Node.deliveries at he
  split at he
  · cases he
  · split at he
    · cases he
    · simp only [List.mem_cons, List.not_mem_nil, or_false] at he
      rcases he with rfl | rfl
      · exact hHanded _
      · exact hEvent _

theorem Halt.filterMap_eq_nil {α : Type} {p : Entry → Option α} {start : BlockNum} {left : List Node}
    {last : List Entry} {e : Ending} (h : Halt start left last e)
    (hHanded : ∀ b d, d ≠ .accepted → p (.handed b d) = none) : last.filterMap p = [] := by
  cases h with
  | missing => rfl
  | refused | crashed => rw [List.filterMap_cons, hHanded _ _ (by simp)]; rfl

namespace Firing.Passes

variable {τ : Type} {firing : Firing τ} {start : BlockNum} {path passed left : List Node}
  {g : ForkGraph} {last : List Entry}

theorem filterMap_last_eq_nil {α : Type} {p : Entry → Option α}
    (h : firing.Passes start path g passed left last)
    (hHanded : ∀ b d, d ≠ .accepted → p (.handed b d) = none) : last.filterMap p = [] := by
  rcases h.ending with ⟨-, -, rfl⟩ | ⟨e, -, hHalt⟩
  · rfl
  · exact hHalt.filterMap_eq_nil hHanded

theorem accepted_eq (h : firing.Passes start path g passed left last) :
    firing.entries.filterMap Entry.accepted? = passed.filterMap (Node.delivered? start) := by
  rw [h.entries, List.filterMap_append, filterMap_deliveries (fun _ => rfl) (fun _ => rfl),
    h.filterMap_last_eq_nil (by intro b d hd; cases d <;> simp_all [Entry.accepted?]), List.append_nil]

theorem exists_content (h : firing.Passes start path g passed left last) {b : Block}
    (hb : b ∈ firing.entries.filterMap Entry.handed?) : ∃ n ∈ path, n.content = some b := by
  rw [h.entries, List.filterMap_append, List.mem_append] at hb
  rw [h.split]
  rcases hb with hb | hb
  · obtain ⟨e, he, hHanded⟩ := List.mem_filterMap.mp hb
    obtain ⟨n, hn, he⟩ := List.mem_flatMap.mp he
    refine ⟨n, List.mem_append_left _ hn, ?_⟩
    unfold Node.deliveries at he
    split at he
    · cases he
    · split at he
      · cases he
      next hContent =>
        simp only [List.mem_cons, List.not_mem_nil, or_false] at he
        rcases he with rfl | rfl <;> cases hHanded
        exact hContent
  · rcases h.ending with ⟨-, -, rfl⟩ | ⟨_, -, hHalt⟩
    · cases hb
    · cases hHalt with
      | missing => cases hb
      | refused _ _ hContent | crashed _ _ hContent =>
        rw [List.mem_singleton.mp hb]
        exact ⟨_, by simp, hContent⟩

theorem filterMap_entries_eq_nil {α : Type} {p : Entry → Option α}
    (h : firing.Passes start path g passed left last) (hHanded : ∀ b d, p (.handed b d) = none)
    (hEvent : ∀ e, p (.event e) = none) : firing.entries.filterMap p = [] := by
  rw [h.entries, List.filterMap_append, filterMap_deliveries_eq_nil (fun b => hHanded b _) hEvent,
    h.filterMap_last_eq_nil fun b d _ => hHanded b d]
  rfl

end Firing.Passes

end ChainFeed
