import ChainFeed.Proofs.Feed.Iteration

/-! # Requests of a run

A request reaches the journal as the attempts made, of which at most the last was answered with a block.
It changes nothing of a run but its source and its journal.
-/

set_option autoImplicit false

namespace ChainFeed

namespace Source

/-- An attempt that failed, or the note of one. -/
inductive FailedAttempt (num : BlockNum) : Entry → Prop where
  | asked {passed : List ClientFailure} {e : FetchError} : FailedAttempt num (.asked num passed (.failed e))
  | noted {attempt attempts : Nat} {e : FetchError} :
      FailedAttempt num (.note (.attemptFailed num attempt attempts e))

/-- What the last attempt's answer makes of a request. -/
inductive Concludes : Answer → Fetched → Prop where
  | block {b : Block} : Concludes (.block b) (.block b)
  | failed {attempt : Nat} {e : FetchError} : Concludes (.failed e) (.exhausted ⟨attempt, e⟩)
  | crashed {reason : String} : Concludes (.crashed reason) (.crashed reason)

/-- A source that gives the blocks of a list, one for each request, whatever is asked for. -/
def scripted (blocks : List Block) : Source :=
  .client {
    interval := 0
    answer := fun asked num =>
      match blocks[asked.length]? with
      | some b => .block b
      | none => .failed (.notFound num)
    asked := [] }

/-- A source that gives the block numbered as asked, of `before` for so many requests and then of
`since`. -/
def reorganising (requests : Nat) (before since : List Block) : Source :=
  .client {
    interval := 0
    answer := fun asked num =>
      match (if asked.length < requests then before else since).find? fun b => b.num = num with
      | some b => .block b
      | none => .failed (.notFound num)
    asked := [] }

theorem askFrom_entries (num : BlockNum) (attempt left : Nat) (s : Source) :
    ∃ before passed answer,
      (askFrom num attempt left s).entries = before ++ [.asked num passed answer] ∧
      (∀ e ∈ before, FailedAttempt num e) ∧ Concludes answer (askFrom num attempt left s).fetched := by
  induction left generalizing attempt s with
  | zero =>
    rcases hFetch : s.fetch num with ⟨answer, passed, next⟩
    refine ⟨[], passed, answer, ?_, by simp, ?_⟩ <;> cases answer <;> simp only [askFrom, ask, hFetch]
    · rfl
    · rfl
    · rfl
    · exact .block
    · exact .failed
    · exact .crashed
  | succ left ih =>
    rcases hFetch : s.fetch num with ⟨answer, passed, next⟩
    rw [askFrom, ask, hFetch]
    cases answer with
    | block b => exact ⟨[], passed, _, rfl, by simp, .block⟩
    | crashed reason => exact ⟨[], passed, _, rfl, by simp, .crashed⟩
    | failed e =>
      obtain ⟨before, passed', answer, hEntries, hBefore, hConcludes⟩ := ih (attempt + 1) next
      refine ⟨.asked num passed (.failed e) :: .note (.attemptFailed num attempt (attempt + left + 1) e) ::
        before, passed', answer, by simp only [hEntries]; rfl, ?_, hConcludes⟩
      intro entry hEntry
      rcases List.mem_cons.mp hEntry with rfl | hEntry
      · exact .asked
      rcases List.mem_cons.mp hEntry with rfl | hEntry
      · exact .noted
      · exact hBefore entry hEntry

theorem filterMap_answer?_askFrom (num : BlockNum) (attempt left : Nat) (s : Source) :
    (askFrom num attempt left s).entries.filterMap Entry.answer? =
      match (askFrom num attempt left s).fetched with
      | .block b => [(num, b)]
      | _ => [] := by
  obtain ⟨before, passed, answer, hEntries, hBefore, hConcludes⟩ := askFrom_entries num attempt left s
  have hNone : before.filterMap Entry.answer? = [] := by
    rw [List.filterMap_eq_nil_iff]
    intro e he
    cases hBefore e he <;> rfl
  rw [hEntries, List.filterMap_append, hNone]
  generalize (askFrom num attempt left s).fetched = fetched at hConcludes
  cases hConcludes <;> rfl

/-- Each entry of a request is an attempt, or the note of one that failed. -/
theorem mem_askFrom {num : BlockNum} {attempt left : Nat} {s : Source} {e : Entry}
    (he : e ∈ (askFrom num attempt left s).entries) :
    (∃ passed answer, e = .asked num passed answer) ∨
      ∃ attempt attempts error, e = .note (.attemptFailed num attempt attempts error) := by
  obtain ⟨before, passed, answer, hEntries, hBefore, -⟩ := askFrom_entries num attempt left s
  rw [hEntries] at he
  rcases List.mem_append.mp he with he | he
  · cases hBefore e he with
    | asked => exact .inl ⟨_, _, rfl⟩
    | noted => exact .inr ⟨_, _, _, rfl⟩
  · exact .inl ⟨_, _, List.mem_singleton.mp he⟩

theorem filterMap_askFrom_eq_nil {α : Type} {p : Entry → Option α}
    (hAsked : ∀ num passed answer, p (.asked num passed answer) = none)
    (hNote : ∀ num attempt attempts e, p (.note (.attemptFailed num attempt attempts e)) = none)
    (num : BlockNum) (attempt left : Nat) (s : Source) :
    (askFrom num attempt left s).entries.filterMap p = [] := by
  rw [List.filterMap_eq_nil_iff]
  intro e he
  obtain ⟨passed, answer, rfl⟩ | ⟨_, _, _, rfl⟩ := mem_askFrom he
  · exact hAsked _ _ _
  · exact hNote _ _ _ _

theorem askFrom_isRequest (num : BlockNum) (attempt left : Nat) (s : Source) :
    ∀ e ∈ (askFrom num attempt left s).entries, e.IsRequest := by
  intro e he
  obtain ⟨passed, answer, rfl⟩ | ⟨_, _, _, rfl⟩ := mem_askFrom he
  · exact .asked num passed answer
  · exact .report (.note rfl) rfl

end Source

/-- A block without payload, whose parent is numbered one lower. -/
def Block.plain (id : BlockId) (num : BlockNum) (parentId : BlockId) (libNum : BlockNum) : Block where
  id := id
  num := num
  parentId := parentId
  parentNum := num.back 1
  libNum := libNum
  timestamp := 0
  payload := ⟨"", []⟩

/-- Whatever is handed over is accepted, nobody asks for a stop, and the device works. -/
def Feed.undisturbed (config : Config) : Feed Unit where
  config := config
  sink := .judging .accepted fun _ => .accepted
  stopped _ := false
  device _ := .sound

variable {τ : Type}

/-- Two runs that differ at most in their source, what is pending and how they ended, and in requests in the journal. -/
structure Run.SameBut (r s : Run τ) : Prop where
  graph : s.graph = r.graph
  cursor : s.cursor = r.cursor
  next : s.next = r.next
  disk : s.disk = r.disk
  sinkState : s.sinkState = r.sinkState
  requests : r.Writes Entry.IsRequest s

namespace Run.SameBut

variable {r s : Run τ}

theorem refl (r : Run τ) : r.SameBut r :=
  ⟨rfl, rfl, rfl, rfl, rfl, .refl r⟩

theorem accepted (h : r.SameBut s) : s.journal.pick Entry.accepted? = r.journal.pick Entry.accepted? :=
  h.requests.pick_eq fun _ => Entry.accepted?_ignoresReports.eq_none_of_isRequest fun _ _ _ => rfl

theorem handed (h : r.SameBut s) : s.journal.pick Entry.handed? = r.journal.pick Entry.handed? :=
  h.requests.pick_eq fun _ => Entry.handed?_ignoresReports.eq_none_of_isRequest fun _ _ _ => rfl

theorem checkpoints (h : r.SameBut s) : s.journal.pick Entry.checkpoint? = r.journal.pick Entry.checkpoint? :=
  h.requests.pick_eq fun _ => Entry.checkpoint?_ignoresReports.eq_none_of_isRequest fun _ _ _ => rfl

theorem linked (h : r.SameBut s) : s.journal.pick Entry.linked? = r.journal.pick Entry.linked? :=
  h.requests.pick_eq fun _ => Entry.linked?_of_isRequest

end Run.SameBut

/-- The run was ended from outside: the sink did not open, or the source gave no block. -/
inductive Ending.Outside : Ending → Prop where
  | opening {refusal : Refusal} : Outside (.failed (.opening refusal))
  | fetch {num : BlockNum} {failure : FetchFailure} : Outside (.failed (.fetch num failure))
  | crashed {reason : String} : Outside (.crashed reason)

theorem Ending.Outside.ne_invariant {e : Ending} (h : e.Outside) (error : ForkError) :
    e ≠ .failed (.invariant error) := by
  cases h <;> simp

theorem Ending.Outside.ne_checkpoint {e : Ending} (h : e.Outside) (error : CheckpointError) :
    e ≠ .failed (.checkpoint error) := by
  cases h <;> simp

namespace Feed

variable (f : Feed τ)

theorem fetch_eq_some {num : BlockNum} {r r' : Run τ} {b : Block} (h : f.fetch num r = (r', some b)) :
    r.SameBut r' ∧ r'.pending = r.pending ∧ r'.ending = r.ending ∧
      r'.journal.pick Entry.answer? = r.journal.pick Entry.answer? ++ [(num, b)] := by
  unfold fetch at h
  simp only at h
  split at h
  next b' hGot =>
    cases h
    refine ⟨⟨rfl, rfl, rfl, rfl, rfl, ?_⟩, rfl, rfl, ?_⟩
    · have hEvent : (Entry.event (.fetched b.ref b.parentRef)).IsRequest := .report (.event _) rfl
      exact (Run.Writes.record (Source.askFrom_isRequest _ _ _ _) _).trans
        (.record (List.forall_mem_singleton.mpr hEvent) _)
    · simp only [Run.record_journal, Journal.pick_record, Source.fetchRetrying]
      unfold Source.fetchRetrying at hGot
      rw [Source.filterMap_answer?_askFrom, hGot]
      simp [Entry.answer?]
  · cases h
  · cases h

theorem fetch_eq_none {num : BlockNum} {r r' : Run τ} (h : f.fetch num r = (r', none)) :
    r.SameBut r' ∧ r'.pending = r.pending ∧
      ((∃ failure, r'.ending = some (.failed (.fetch num failure))) ∨
        ∃ reason, r'.ending = some (.crashed reason)) ∧
      r'.journal.pick Entry.answer? = r.journal.pick Entry.answer? := by
  have hSame : ∀ (s : Source) (e : Ending),
      r.SameBut (({ r with source := s }.record
        (r.source.fetchRetrying num f.config.retries).entries).close e) := fun s e =>
    ⟨rfl, rfl, rfl, rfl, rfl, .record (Source.askFrom_isRequest _ _ _ _) _⟩
  unfold fetch at h
  simp only at h
  split at h
  · cases h
  next failure hGot =>
    cases h
    refine ⟨hSame _ _, rfl, .inl ⟨failure, rfl⟩, ?_⟩
    unfold Source.fetchRetrying at hGot
    simp only [Run.close_journal, Run.record_journal, Journal.pick_record, Source.fetchRetrying]
    rw [Source.filterMap_answer?_askFrom, hGot, List.append_nil]
  next reason hGot =>
    cases h
    refine ⟨hSame _ _, rfl, .inr ⟨reason, rfl⟩, ?_⟩
    unfold Source.fetchRetrying at hGot
    simp only [Run.close_journal, Run.record_journal, Journal.pick_record, Source.fetchRetrying]
    rw [Source.filterMap_answer?_askFrom, hGot, List.append_nil]

/-- A request without a block ends the run. -/
theorem ending_of_fetch_none {num : BlockNum} {r r' : Run τ} (h : f.fetch num r = (r', none)) :
    ∃ e, r'.ending = some e ∧ e.Outside := by
  obtain ⟨-, -, ⟨failure, hEnd⟩ | ⟨reason, hEnd⟩, -⟩ := f.fetch_eq_none h
  · exact ⟨_, hEnd, .fetch⟩
  · exact ⟨_, hEnd, .crashed⟩

namespace Takes

variable {f} {r s : Run τ} {b : Block}

theorem sameBut (h : f.Takes r b s) : r.SameBut s := by
  cases h with
  | pending => exact { Run.SameBut.refl r with }
  | fetched hPending hFetch => exact (f.fetch_eq_some hFetch).1

theorem pending_eq_none (h : f.Takes r b s) : s.pending = none := by
  cases h with
  | pending => rfl
  | fetched hPending hFetch => rw [(f.fetch_eq_some hFetch).2.1, hPending]

theorem ending_eq (h : f.Takes r b s) : s.ending = r.ending := by
  cases h with
  | pending => rfl
  | fetched hPending hFetch => exact (f.fetch_eq_some hFetch).2.2.1

theorem answers_eq (h : f.Takes r b s) :
    r.pending = some b ∧ s.journal.pick Entry.answer? = r.journal.pick Entry.answer? ∨
      r.pending = none ∧
        s.journal.pick Entry.answer? = r.journal.pick Entry.answer? ++ [(r.next, b)] := by
  cases h with
  | pending hPending => exact .inl ⟨hPending, rfl⟩
  | fetched hPending hFetch => exact .inr ⟨hPending, (f.fetch_eq_some hFetch).2.2.2⟩

theorem answers_subset (h : f.Takes r b s) : r.journal.answers ⊆ s.journal.answers := by
  rcases h.answers_eq with ⟨-, hSame⟩ | ⟨-, hMore⟩
  · rw [Journal.answers_eq_pick, Journal.answers_eq_pick, hSame]
    exact List.Subset.refl _
  · rw [Journal.answers_eq_pick, Journal.answers_eq_pick, hMore]
    exact List.subset_append_left _ _

/-- Whether the block taken up was pending or just fetched, it answers the number that was next. -/
theorem mem_answers (h : f.Takes r b s)
    (hPending : ∀ c, r.pending = some c → (r.next, c) ∈ r.journal.answers) :
    (r.next, b) ∈ s.journal.answers := by
  rcases h.answers_eq with ⟨hHeld, -⟩ | ⟨-, hMore⟩
  · exact h.answers_subset (hPending b hHeld)
  · rw [Journal.answers_eq_pick, hMore]
    exact List.mem_append_right _ (List.mem_singleton_self _)

end Takes

/-- An iteration that takes up no block leaves everything as it was, apart from requests and reports in the
journal, and the run has ended. -/
theorem Stepped.idle_or_processed {f : Feed τ} {r r' : Run τ} (h : f.Stepped r r') :
    (r'.ending ≠ none ∧ r.SameBut r' ∧ r'.pending = r.pending ∧
        r'.journal.pick Entry.answer? = r.journal.pick Entry.answer?) ∨
      (r.ending = none ∧ r.graph.libNum ≤ r.next ∧ ∃ b s, f.Takes r b s ∧ f.Processed b s r') := by
  cases h with
  | ended hEnded => exact .inl ⟨Option.isSome_iff_ne_none.mp hEnded, .refl r, rfl, rfl⟩
  | stopped =>
    have hReport : (Entry.note (.stopRequested r.next)).IsRequest := .report (.note rfl) rfl
    refine .inl ⟨Option.some_ne_none _, ⟨rfl, rfl, rfl, rfl, rfl, ?_⟩, rfl, ?_⟩
    · exact .record (List.forall_mem_singleton.mpr hReport) r
    · exact Journal.pick_record_of_none (List.forall_mem_singleton.mpr rfl) _
  | below => exact .inl ⟨Option.some_ne_none _, { Run.SameBut.refl r with }, rfl, rfl⟩
  | starved _ _ hFetch =>
    obtain ⟨hSame, hPending, -, hAnswers⟩ := f.fetch_eq_none hFetch
    obtain ⟨e, hEnd, -⟩ := f.ending_of_fetch_none hFetch
    exact .inl ⟨hEnd ▸ Option.some_ne_none e, hSame, hPending, hAnswers⟩
  | processed hRunning hAbove hTakes hProcessed => exact .inr ⟨hRunning, hAbove, _, _, hTakes, hProcessed⟩

end Feed

end ChainFeed
