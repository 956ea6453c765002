import ChainFeed.Proofs.Feed.Tally

/-! # Runs in relay

Over a fork-free chain, runs that start from one another's files do together what one uninterrupted run does,
wherever each of them was cut off.
-/

set_option autoImplicit false

namespace ChainFeed

open ForkGraph

namespace Session

variable {τ : Type} {B : BlockNum → Block} {dir : Path} {n : BlockNum} {accepted : List Block}
  {checkpoints : List Checkpoint} {c : Config} {s u : Session} {i : Nat}

/-- The source answers with blocks of the chain, none of them the highest, and each checkpoint can be saved. -/
structure Over (s : Session) (B : BlockNum → Block) : Prop where
  answered : ∀ a ∈ s.run.journal.answers, a.2 = B a.1 ∧ a.1 ≠ BlockNum.highest
  saved : ∀ e, s.run.ending ≠ some (.failed (.checkpoint e))

instance (s : Session) (B : BlockNum → Block) : Decidable (s.Over B) :=
  decidable_of_iff
    ((∀ a ∈ s.run.journal.answers, a.2 = B a.1 ∧ a.1 ≠ BlockNum.highest) ∧
      (s.run.ending.all fun
        | .failed (.checkpoint _) => false
        | _ => true) = true) <| by
    refine ⟨fun ⟨hAnswered, hSaved⟩ => ⟨hAnswered, fun e hEnd => ?_⟩, fun h => ⟨h.answered, ?_⟩⟩
    · rw [hEnd] at hSaved
      cases hSaved
    · rcases hEnd : s.run.ending with _ | e
      · rfl
      · rw [Option.all_some]
        split
        · exact absurd hEnd (h.saved _)
        · rfl

theorem ending_run {e : Ending} (hi : i ≤ s.iterations) (h : (s.after i).ending = some e) :
    s.run.ending = some e := by
  obtain ⟨k, hk⟩ := Nat.exists_eq_add_of_le' hi
  rw [run, hk, s.feed.after_add, s.feed.after_of_ended (r := s.feed.after i s.beginning)]
  · exact h
  · exact Option.isSome_iff_exists.mpr ⟨e, h⟩

theorem Over.answered_after (h : s.Over B) (hi : i ≤ s.iterations) :
    ∀ a ∈ (s.after i).journal.answers, a.2 = B a.1 ∧ a.1 ≠ BlockNum.highest :=
  fun a ha => h.answered a ((Feed.answers_isPrefix_after s.beginning hi).subset ha)

theorem Over.step (h : s.Over B) (hChain : ForkFree B) (hDir : s.feed.config.stateDir = some dir)
    (hAbreast : s.feed.Abreast B dir accepted checkpoints n (s.after i)) (hi : i < s.iterations) :
    s.feed.Abreast B dir accepted checkpoints n (s.after (i + 1)) ∧ (s.after (i + 1)).ending ≠ none ∨
      n ≠ BlockNum.highest ∧ s.feed.Abreast B dir accepted checkpoints (n + 1) (s.after (i + 1)) :=
  (s.feed.stepped (s.after i)).abreast hAbreast (Feed.backed_after s.begun i) hChain hDir (h.answered_after hi)
    fun e hEnd => h.saved e (ending_run hi hEnd)

/-- A session goes on from what the runs before it left, and leaves what the next one can go on from. -/
theorem Over.exists_tally (h : s.Over B) (hChain : ForkFree B) (hDir : s.feed.config.stateDir = some dir)
    (hTally : Tally s.feed.config B dir n accepted checkpoints s.disk) :
    ∃ n', Tally s.feed.config B dir n' (accepted ++ s.run.journal.accepted)
        (checkpoints ++ s.run.journal.checkpoints) s.run.disk ∧
      (s.beginning.ending = none → s.run.graph.Covers B s.feed.config n') ∧
      ∀ error, s.run.ending ≠ some (.failed (.invariant error)) := by
  cases hBeginning : s.beginning.ending with
  | some e =>
    have hRun : s.run = s.beginning := s.feed.after_of_ended (by rw [hBeginning]; rfl) _
    rw [hRun]
    exact ⟨n, s.begun.tally hTally, nofun, s.begun.lawful⟩
  | none =>
    have hAll : ∀ i, i ≤ s.iterations →
        ∃ n', s.feed.Abreast B dir accepted checkpoints n' (s.after i) := by
      intro i
      induction i with
      | zero =>
        intro hi
        exact ⟨n, s.begun.abreast hTally hChain hDir (fun a ha => (h.answered_after hi a ha).1) hBeginning⟩
      | succ i ih =>
        intro hi
        obtain ⟨n', hAbreast⟩ := ih (Nat.le_of_succ_le hi)
        rcases h.step hChain hDir hAbreast hi with ⟨hSame, -⟩ | ⟨-, hNext⟩
        · exact ⟨n', hSame⟩
        · exact ⟨n' + 1, hNext⟩
    obtain ⟨n', hAbreast⟩ := hAll s.iterations (Nat.le_refl _)
    exact ⟨n', hAbreast.tally, fun _ => hAbreast.covers, hAbreast.lawful⟩

/-- Nobody stopped the session, and neither its source nor its sink nor its device ended it. -/
def Uninterrupted (s : Session) : Prop :=
  ∀ e, s.run.ending = some e → ∃ error, e = .failed (.invariant error)

theorem Uninterrupted.running (h : s.Uninterrupted) (hi : i ≤ s.iterations)
    (hLawful : ∀ error, (s.after i).ending ≠ some (.failed (.invariant error))) :
    (s.after i).ending = none := by
  cases hEnd : (s.after i).ending with
  | none => rfl
  | some e =>
    obtain ⟨error, rfl⟩ := h e (ending_run hi hEnd)
    exact absurd hEnd (hLawful error)

/-- A session that nothing interrupts completes every iteration. -/
theorem Uninterrupted.exists_abreast (hWhole : u.Uninterrupted) (h : u.Over B) (hChain : ForkFree B)
    (hDir : u.feed.config.stateDir = some dir) (hCold : u.feed.ColdStarts u.disk) (hi : i ≤ u.iterations) :
    ∃ n, n.toNat = u.feed.config.resolvedStart.toNat + i ∧ (u.after i).ending = none ∧
      u.feed.Abreast B dir [] [] n (u.after i) := by
  induction i with
  | zero =>
    have hRunning := hWhole.running hi u.begun.lawful
    exact ⟨_, rfl, hRunning, u.begun.abreast (tally_start fun k => hCold dir k hDir) hChain hDir
      (fun a ha => (h.answered_after hi a ha).1) hRunning⟩
  | succ i ih =>
    obtain ⟨n, hn, hRunning, hAbreast⟩ := ih (Nat.le_of_succ_le hi)
    rcases h.step hChain hDir hAbreast hi with ⟨hSame, hEnded⟩ | ⟨hLow, hNext⟩
    · exact absurd (hWhole.running hi hSame.lawful) hEnded
    · refine ⟨n + 1, ?_, hWhole.running hi hNext.lawful, hNext⟩
      rw [BlockNum.toNat_succ hLow, hn, Nat.add_assoc]

/-- Sessions with one configuration, each on the disk that the one before it left. -/
inductive Relay (c : Config) (first : Disk) : List Session → Disk → Prop where
  | nil : Relay c first [] first
  | snoc {earlier : List Session} {s : Session} {disk : Disk} (hEarlier : Relay c first earlier disk)
      (hConfig : s.feed.config = c) (hDisk : s.disk = disk) : Relay c first (earlier ++ [s]) s.run.disk

def acceptedBy (sessions : List Session) : List Block := sessions.flatMap fun s => s.run.journal.accepted

def checkpointsBy (sessions : List Session) : List Checkpoint :=
  sessions.flatMap fun s => s.run.journal.checkpoints

section

variable {relay : List Session} {first last : Disk}

theorem Relay.exists_tally (h : Relay c first relay last) (hChain : ForkFree B) (hDir : c.stateDir = some dir)
    (hCold : ∀ k, Checkpoint.load first dir ≠ .ok k) (hOver : ∀ s ∈ relay, s.Over B) :
    ∃ n, Tally c B dir n (acceptedBy relay) (checkpointsBy relay) last ∧
      (∀ s, relay.getLast? = some s → s.beginning.ending = none → s.run.graph.Covers B c n) ∧
      ∀ s ∈ relay, ∀ error, s.run.ending ≠ some (.failed (.invariant error)) := by
  induction h with
  | nil => exact ⟨_, tally_start hCold, nofun, by simp⟩
  | @snoc earlier t disk hEarlier hConfig hDisk ih =>
    obtain ⟨n, hTally, -, hLawful⟩ := ih fun s hs => hOver s (List.mem_append_left _ hs)
    subst hConfig hDisk
    obtain ⟨n', hNext, hCovers, hLast⟩ :=
      (hOver t (List.mem_append_right _ (List.mem_singleton_self t))).exists_tally hChain hDir hTally
    refine ⟨n', ?_, fun s hs => ?_, fun s hs => ?_⟩
    · simpa [acceptedBy, checkpointsBy] using hNext
    · rw [List.getLast?_concat, Option.some.injEq] at hs
      exact hs ▸ hCovers
    · rcases List.mem_append.mp hs with hs | hs
      · exact hLawful s hs
      · cases List.mem_singleton.mp hs
        exact hLast

/-- What the sessions did together is what one run has done, and they leave what it would leave. -/
structure Reenacts (c : Config) (B : BlockNum → Block) (dir : Path) (relay : List Session) (last : Disk)
    (v : Run τ) : Prop where
  running : v.ending = none
  lawful : ∀ s ∈ relay, ∀ error, s.run.ending ≠ some (.failed (.invariant error))
  /-- All blocks from the start on are handed over, in order and once. -/
  blocks : acceptedBy relay = (BlockNum.span c.start v.next).map B
  accepted : acceptedBy relay = v.journal.accepted
  checkpoints : checkpointsBy relay = v.journal.checkpoints
  cold : checkpointsBy relay = [] →
    ∀ k, Checkpoint.load last dir ≠ .ok k ∧ Checkpoint.load v.disk dir ≠ .ok k
  file : ∀ k, (checkpointsBy relay).getLast? = some k →
    last.read (Checkpoint.path dir) = .ok k.bytes ∧ v.disk.read (Checkpoint.path dir) = .ok k.bytes
  lib : ∀ s, relay.getLast? = some s → s.beginning.ending = none → s.run.graph.lib = v.graph.lib
  /-- The same blocks are stored as fired, as far as a checkpoint keeps them. -/
  fired : ∀ s, relay.getLast? = some s → s.beginning.ending = none →
    s.run.graph.firedLinks.map StoredRef.ofLink = v.graph.firedLinks.map StoredRef.ofLink
  /-- The parents' numbers are the same too, if each block declares the number below its own. -/
  links : (∀ m, (B m).parentNum = m.back 1) → ∀ s, relay.getLast? = some s → s.beginning.ending = none →
    s.run.graph.firedLinks = v.graph.firedLinks

/-- Over a fork-free chain, sessions in relay that start without a file do together what a session that nothing
interrupts does in as many iterations as they completed. -/
theorem reenacts_of_relay (hChain : ForkFree B) (hDir : c.stateDir = some dir) (hRelay : Relay c first relay last)
    (hNoFile : ∀ k, Checkpoint.load first dir ≠ .ok k) (hOver : ∀ s ∈ relay, s.Over B)
    (hConfig : u.feed.config = c) (hCold : u.feed.ColdStarts u.disk) (hOverWhole : u.Over B)
    (hWhole : u.Uninterrupted) (hLong : (checkpointsBy relay).length ≤ u.iterations) :
    Reenacts c B dir relay last (u.after (checkpointsBy relay).length) := by
  subst hConfig
  obtain ⟨n, hTally, hCovers, hLawful⟩ := hRelay.exists_tally hChain hDir hNoFile hOver
  obtain ⟨n', hSteps, hRunning, hAbreast⟩ := hWhole.exists_abreast hOverWhole hChain hDir hCold hLong
  -- one checkpoint was saved for each number that was processed
  have hSame : n' = n := by
    have hStart := hTally.start
    rw [hTally.checkpoints, List.length_map, BlockNum.length_span] at hSteps
    rw [UInt64.le_iff_toNat_le] at hStart
    rw [← UInt64.toNat_inj]
    omega
  subst hSame
  have hTallyWhole := hAbreast.tally
  rw [List.nil_append, List.nil_append] at hTallyWhole
  have hAccepted := hTally.accepted.trans hTallyWhole.accepted.symm
  have hCheckpoints := hTally.checkpoints.trans hTallyWhole.checkpoints.symm
  refine ⟨hRunning, hLawful, ?_, hAccepted, hCheckpoints, fun hNone k => ?_, fun k hLast => ?_,
    fun s hs hBegan => ?_, fun s hs hBegan => ?_, fun hParents s hs hBegan => ?_⟩
  · rw [(hAbreast.going hRunning).1]
    exact hTally.accepted
  · exact ⟨(hNone ▸ hTally).load_ne_ok k, (hCheckpoints.symm.trans hNone ▸ hTallyWhole).load_ne_ok k⟩
  · exact ⟨hTally.read_eq hLast, hTallyWhole.read_eq (hCheckpoints ▸ hLast)⟩
  · rw [(hCovers s hs hBegan).lib, hAbreast.covers.lib]
  · rw [(hCovers s hs hBegan).storedRefs_eq hChain, hAbreast.covers.storedRefs_eq hChain]
  · rw [(hCovers s hs hBegan).firedLinks_eq hChain hParents, hAbreast.covers.firedLinks_eq hChain hParents]

end

theorem forkFree_strokes {report : BlockNum → BlockNum} (hRising : ∀ m n, m ≤ n → report m ≤ report n) :
    ForkFree fun m => (Chain.strokes 'a').block m (report m) where
  num _ := rfl
  parent _ hHigh := Chain.parentId_of_ne_zero hHigh
  root := Chain.strokes_id_ne_root 'a'
  distinct _ _ hId := Chain.strokes_id_injective hId
  libNum := hRising

/-- Each block makes the one before it final. -/
def strokeBlock (m : BlockNum) : Block := (Chain.strokes 'a').block m (m.back 1)

theorem forkFree_strokeBlock : ForkFree strokeBlock :=
  forkFree_strokes fun _ _ hLe => BlockNum.back_mono hLe 1

/-- A session over some of those blocks, from the number `1` on, of which those below `3` are passed over. -/
def leg (stopped : Bool) (verdict : Block → Delivery) (numbers : List BlockNum) (disk : Disk)
    (iterations : Nat) : Session where
  sinkType := Unit
  feed := {
    config := { start := 3, finalized := some 1, retries := 1, stateDir := some ⟨["state"]⟩ }
    sink := .judging .accepted verdict
    stopped := fun _ => stopped
    device := fun _ => .sound }
  source := .scripted (numbers.map strokeBlock)
  sinkState := ()
  disk := disk
  iterations := iterations

theorem leg_disk {stopped : Bool} {verdict : Block → Delivery} {numbers : List BlockNum} {disk : Disk}
    {iterations : Nat} : (leg stopped verdict numbers disk iterations).disk = disk := rfl

/-- The source falls silent after two blocks. Then the third block is refused, then it and the next one are
accepted, and then a stop was asked for already. -/
def silenced : Session := leg false (fun _ => .accepted) [1, 2] .empty 3

def rebuffed : Session := leg false (fun _ => .refused (.rejected "full")) [3] silenced.run.disk 1

def carriedOn : Session := leg false (fun _ => .accepted) [3, 4] rebuffed.run.disk 2

def calledOff : Session := leg true (fun _ => .accepted) [] carriedOn.run.disk 1

def straightThrough : Session := leg false (fun _ => .accepted) [1, 2, 3, 4, 5] .empty 5

theorem reenacts_of_relay_legs :
    (acceptedBy [silenced, rebuffed, carriedOn, calledOff]).map Block.num = [3, 4] ∧
      (checkpointsBy [silenced, rebuffed, carriedOn, calledOff]).length = 4 ∧
      Reenacts silenced.feed.config strokeBlock ⟨["state"]⟩ [silenced, rebuffed, carriedOn, calledOff]
        calledOff.run.disk (straightThrough.after 4) := by
  have hRelay : Relay silenced.feed.config .empty ([] ++ [silenced] ++ [rebuffed] ++ [carriedOn] ++ [calledOff])
      calledOff.run.disk :=
    .snoc (.snoc (.snoc (.snoc .nil rfl rfl) rfl leg_disk) rfl leg_disk) rfl leg_disk
  have hNone : (Checkpoint.load .empty ⟨["state"]⟩).toOption.isNone = true := by decide +kernel
  have hNoFile : ∀ k, Checkpoint.load .empty ⟨["state"]⟩ ≠ .ok k := by
    intro k hLoad
    rw [hLoad] at hNone
    cases hNone
  obtain ⟨hAccepted, hLength, hOver, hOverWhole, hRunning⟩ :
      (acceptedBy [silenced, rebuffed, carriedOn, calledOff]).map Block.num = [3, 4] ∧
        (checkpointsBy [silenced, rebuffed, carriedOn, calledOff]).length = 4 ∧
        (∀ s ∈ [silenced, rebuffed, carriedOn, calledOff], s.Over strokeBlock) ∧
        straightThrough.Over strokeBlock ∧ straightThrough.run.ending.isNone = true := by
    decide +kernel
  have hWhole : straightThrough.Uninterrupted := by
    intro e hEnd
    rw [hEnd] at hRunning
    cases hRunning
  have hReenacts := reenacts_of_relay (u := straightThrough) forkFree_strokeBlock rfl hRelay hNoFile hOver rfl
    (Feed.coldStarts_of_isNone _ rfl hNone) hOverWhole hWhole (hLength.trans_le (by decide))
  rw [show (checkpointsBy ([] ++ [silenced] ++ [rebuffed] ++ [carriedOn] ++ [calledOff])).length = 4 from hLength]
    at hReenacts
  exact ⟨hAccepted, hLength, hReenacts⟩

end Session

end ChainFeed
