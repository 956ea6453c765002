import ChainFeed.Feed.Run

/-! # Runs over a limited source

Processing a block leaves alone where the next ones come from, so an iteration that does not end the
run takes its block from the pending one or spends a request. A run over a source that answers so many
requests only is therefore over after one iteration more.
-/

set_option autoImplicit false

namespace ChainFeed

namespace Source

theorem fetch_limited (k : Nat) (inner : Source) (num : BlockNum) :
    ∃ k' inner', ((limited k inner).fetch num).next = limited k' inner' ∧ k' ≤ k ∧
      ∀ b, ((limited k inner).fetch num).answer = .block b → k' < k := by
  cases k with
  | zero => exact ⟨0, inner, rfl, Nat.le_refl 0, fun b h => by cases h⟩
  | succ k => exact ⟨k, _, rfl, Nat.le_succ k, fun _ _ => Nat.lt_succ_self k⟩

theorem askFrom_limited (num : BlockNum) (again attempt k : Nat) (inner : Source) :
    ∃ k' inner', (askFrom num attempt again (limited k inner)).next = limited k' inner' ∧ k' ≤ k ∧
      ∀ b, (askFrom num attempt again (limited k inner)).fetched = .block b → k' < k := by
  induction again generalizing attempt k inner with
  | zero =>
    obtain ⟨k', inner', next, le, lt⟩ := fetch_limited k inner num
    refine ⟨k', inner', ?_, le, fun b h => ?_⟩
    · rw [askFrom, ask]
      split <;> simp_all
    · rw [askFrom, ask] at h
      split at h <;> simp_all
  | succ again ih =>
    obtain ⟨k', inner', next, le, lt⟩ := fetch_limited k inner num
    rw [askFrom, ask]
    split
    next b s h =>
      simp only [Prod.mk.injEq] at h
      obtain ⟨-, answer, rfl⟩ := h
      exact ⟨k', inner', next, le, fun _ _ => lt b answer⟩
    next reason s h =>
      simp only [Prod.mk.injEq] at h
      obtain ⟨-, -, rfl⟩ := h
      exact ⟨k', inner', next, le, fun _ h => by cases h⟩
    next e s h =>
      simp only [Prod.mk.injEq] at h
      obtain ⟨-, -, rfl⟩ := h
      rw [next]
      obtain ⟨k'', inner'', next', le', lt'⟩ := ih (attempt + 1) k' inner'
      exact ⟨k'', inner'', next', Nat.le_trans le' le, fun b h => Nat.lt_of_lt_of_le (lt' b h) le⟩

end Source

namespace Run

variable {τ : Type}

/-- The next blocks of both runs come from the same place. -/
structure SameSupply (r s : Run τ) : Prop where
  source : r.source = s.source
  pending : r.pending = s.pending

namespace SameSupply

theorem refl (r : Run τ) : r.SameSupply r := ⟨rfl, rfl⟩

theorem trans {r s t : Run τ} (h : r.SameSupply s) (h' : s.SameSupply t) : r.SameSupply t :=
  ⟨h.source.trans h'.source, h.pending.trans h'.pending⟩

theorem andThen {r s : Run τ} {go : Run τ → Run τ} (h : r.SameSupply s)
    (keeps : ∀ t, (go t).SameSupply t) : (r.andThen go).SameSupply s := by
  unfold Run.andThen
  split
  · exact (keeps r).trans h
  · exact h

end SameSupply

/-- The run is over, or its source has so few requests left that `n` iterations end it. -/
def EndsWithin (n : Nat) (r : Run τ) : Prop :=
  r.ending.isSome ∨
    ∃ k inner, r.source = .limited k inner ∧ k + (if r.pending.isSome then 1 else 0) < n

end Run

namespace Feed

variable {τ : Type} (f : Feed τ)

theorem wait_sameSupply (r : Run τ) : (f.wait r).SameSupply r := by
  unfold wait
  split <;> exact ⟨rfl, rfl⟩

theorem goOn_sameSupply (last : Link) (r : Run τ) : (f.goOn last r).SameSupply r := by
  unfold goOn
  split
  · exact ⟨rfl, rfl⟩
  · simp only
    split
    · exact (f.wait_sameSupply _).trans ⟨rfl, rfl⟩
    · split
      · exact ⟨rfl, rfl⟩
      · exact (f.wait_sameSupply _).trans ⟨rfl, rfl⟩

theorem save_sameSupply (last : Link) (r : Run τ) : (f.save last r).SameSupply r := by
  unfold save
  split
  · exact .refl r
  · split
    · exact ⟨rfl, rfl⟩
    · simp only
      split <;> exact ⟨rfl, rfl⟩

theorem settle_sameSupply (b : Block) (r : Run τ) : (f.settle b r).SameSupply r := by
  unfold settle
  simp only
  split <;> exact ⟨rfl, rfl⟩

theorem connect_sameSupply (b : Block) (path : List Link) (r : Run τ) :
    (f.connect b path r).SameSupply r := by
  unfold connect
  simp only
  split
  · exact ⟨rfl, rfl⟩
  · exact (f.settle_sameSupply b _).trans ⟨rfl, rfl⟩

theorem process_sameSupply (b : Block) (r : Run τ) : (f.process b r).SameSupply r := by
  unfold process
  simp only
  split
  · exact ⟨rfl, rfl⟩
  · split
    · split
      · exact (((f.connect_sameSupply b _ _).andThen (f.save_sameSupply _)).andThen
          (f.goOn_sameSupply _)).trans ⟨rfl, rfl⟩
      · exact (f.wait_sameSupply _).trans ⟨rfl, rfl⟩
    · exact ⟨rfl, rfl⟩

/-- A fetch that brings a block spends a request. -/
theorem fetch_of_limited (num : BlockNum) {r : Run τ} {k : Nat} {inner : Source}
    (source : r.source = .limited k inner) :
    ((f.fetch num r).2 = none ∧ (f.fetch num r).1.ending.isSome) ∨
      ∃ b k' inner', (f.fetch num r).2 = some b ∧ (f.fetch num r).1.source = .limited k' inner' ∧
        k' < k ∧ (f.fetch num r).1.pending = r.pending := by
  obtain ⟨k', inner', next, -, lt⟩ :=
    Source.askFrom_limited num (f.config.retries.toNat - 1) 1 k inner
  unfold fetch
  simp only [Source.fetchRetrying, source]
  split
  next b h => exact .inr ⟨b, k', inner', rfl, next, lt b h, rfl⟩
  next => exact .inl ⟨rfl, rfl⟩
  next => exact .inl ⟨rfl, rfl⟩

theorem process_endsWithin {n k : Nat} {b : Block} {r : Run τ} {inner : Source}
    (source : r.source = .limited k inner) (pending : r.pending = none) (lt : k < n) :
    (f.process b r).EndsWithin n := by
  have supply := f.process_sameSupply b r
  refine .inr ⟨k, inner, supply.source.trans source, ?_⟩
  simpa [supply.pending, pending] using lt

theorem step_endsWithin {n : Nat} {r : Run τ} (h : r.EndsWithin (n + 1)) :
    (f.step r).EndsWithin n := by
  unfold step
  split
  next ended => exact .inl (by simp [ended])
  next running =>
    obtain ended | ⟨k, inner, source, lt⟩ := h
    · simp [running] at ended
    split
    · exact .inl rfl
    · split
      · exact .inl rfl
      · split
        next b pending =>
          refine f.process_endsWithin (r := { r with pending := none }) source rfl ?_
          simpa [pending] using lt
        next pending =>
          obtain ⟨none, ended⟩ | ⟨b, k', inner', some, source', lt', pending'⟩ :=
            f.fetch_of_limited r.next source
          · split
            next r' h =>
              rw [h] at ended
              exact .inl ended
            next r' b h =>
              rw [h] at none
              cases none
          · split
            next r' h =>
              rw [h] at some
              cases some
            next r' b' h =>
              rw [h] at source' pending'
              refine f.process_endsWithin source' (pending'.trans pending) ?_
              simp only [pending] at lt
              omega

theorem after_endsWithin {n m : Nat} {r : Run τ} (h : r.EndsWithin (n + m)) :
    (f.after n r).EndsWithin m := by
  induction n generalizing m with
  | zero =>
    rw [Nat.zero_add] at h
    exact h
  | succ n ih =>
    rw [Nat.succ_add_eq_add_succ] at h
    exact f.step_endsWithin (ih h)

theorem step_of_ended {r : Run τ} (ended : r.ending.isSome) : f.step r = r := by
  obtain ⟨ending, h⟩ := Option.isSome_iff_exists.1 ended
  rw [step, h]

theorem after_of_ended {r : Run τ} (ended : r.ending.isSome) (n : Nat) : f.after n r = r := by
  induction n with
  | zero => rfl
  | succ n ih => rw [after, ih, f.step_of_ended ended]

theorem after_step (n : Nat) (r : Run τ) : f.after n (f.step r) = f.step (f.after n r) := by
  induction n with
  | zero => rfl
  | succ n ih => rw [after, after, ih]

theorem after_add (m n : Nat) (r : Run τ) : f.after (m + n) r = f.after m (f.after n r) := by
  induction m with
  | zero => rw [Nat.zero_add, after]
  | succ m ih => rw [Nat.succ_add, after, ih, after]

theorem untilEnd_eq_after (n : Nat) (r : Run τ) : f.untilEnd n r = f.after n r := by
  induction n generalizing r with
  | zero => rfl
  | succ n ih =>
    rw [untilEnd]
    split
    next h => exact (f.after_of_ended (by simp [h]) (n + 1)).symm
    next => rw [ih, after_step, after]

theorem coldStart_endsWithin {n k : Nat} {num : BlockNum} {r : Run τ} {inner : Source}
    (source : r.source = .limited k inner) (lt : k < n) : (f.coldStart num r).EndsWithin n := by
  unfold coldStart
  obtain ⟨none, ended⟩ | ⟨b, k', inner', some, source', lt', -⟩ :=
    f.fetch_of_limited num source
  · split
    next r' h =>
      rw [h] at ended
      exact .inl ended
    next r' b h =>
      rw [h] at none
      cases none
  · split
    next r' h =>
      rw [h] at some
      cases some
    next r' b' h =>
      split
      · exact .inl rfl
      · rw [h] at source'
        refine .inr ⟨k', inner', source', ?_⟩
        simp only [Run.record, Option.isSome_some, if_true]
        omega

theorem begin_endsWithin (requests : Nat) (source : Source) (sinkState : τ) (disk : Disk) :
    (f.begin (.limited requests source) sinkState disk).EndsWithin (requests + 1) := by
  have lt := Nat.lt_succ_self requests
  unfold begin
  simp only
  split
  · exact .inl rfl
  · exact .inl rfl
  · unfold prepare
    simp only
    split
    · exact f.coldStart_endsWithin rfl lt
    · split
      next c _ =>
        unfold Run.resume
        rw [c.rebuild_eq]
        simp only
        split
        · exact .inl rfl
        · exact .inr ⟨requests, source, rfl, lt⟩
      · exact f.coldStart_endsWithin rfl lt

/-- A run over a limited source ends. -/
theorem runLimited_ending_isSome (requests : Nat) (source : Source) (sinkState : τ) (disk : Disk) :
    (f.runLimited requests source sinkState disk).ending.isSome := by
  have within : (f.runLimited requests source sinkState disk).EndsWithin 0 := by
    rw [runLimited, untilEnd_eq_after]
    exact f.after_endsWithin (f.begin_endsWithin requests source sinkState disk)
  obtain ended | ⟨k, inner, -, lt⟩ := within
  · exact ended
  · exact absurd lt (Nat.not_lt_zero _)

end Feed

end ChainFeed
