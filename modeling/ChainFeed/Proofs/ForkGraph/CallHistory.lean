import ChainFeed.Proofs.ForkGraph.Segment

/-! # What a graph remembers of its calls

A graph that is built by calls remembers of the LIB numbers it was told only whether one of them was taken: the
number of the LIB itself, or one above it whose block was found. From then on a number below the LIB is an error,
and until then it is ignored. A number above the LIB whose block was not found is forgotten.
-/

set_option autoImplicit false

namespace ChainFeed.ForkGraph

inductive Call where
  | initLib (lib : BlockRef)
  | link (n : Node)
  | advanceLib (head : BlockRef) (num : BlockNum)
  | purge

namespace Call

/-- The graph after the call. One that fails changes nothing. -/
def apply (g : ForkGraph) : Call → ForkGraph
  | initLib lib =>
    match g.initLib lib with
    | .ok g' => g'
    | .error _ => g
  | link n => g.link n
  | advanceLib head num =>
    match g.advanceLib head num with
    | .ok (g', _) => g'
    | .error _ => g
  | purge => g.purge

/-- The call passes a number at or above the LIB's. -/
def Reports (g : ForkGraph) : Call → Prop
  | advanceLib _ num => ∃ lib, g.lib = some lib ∧ lib.num ≤ num
  | _ => False

/-- The call passes the LIB's own number, or a higher one whose block is found. -/
def Confirms (g : ForkGraph) : Call → Prop
  | advanceLib head num =>
    ∃ lib, g.lib = some lib ∧ (num = lib.num ∨ lib.num < num ∧ ∃ new, g.ancestorAt? head num = some new)
  | _ => False

theorem Confirms.reports {g : ForkGraph} {c : Call} (h : c.Confirms g) : c.Reports g := by
  cases c with
  | advanceLib head num =>
    obtain ⟨lib, hLib, rfl | ⟨hHigher, -⟩⟩ := h
    · exact ⟨lib, hLib, UInt64.le_refl _⟩
    · exact ⟨lib, hLib, UInt64.le_of_lt hHigher⟩
  | initLib | link | purge => exact h

end Call

/-- What these calls build, one after the other. -/
def built (calls : List Call) : ForkGraph :=
  calls.foldl Call.apply empty

/-- One of the calls was such as `p` says, when it was made. -/
def Past (p : ForkGraph → Call → Prop) (calls : List Call) : Prop :=
  ∃ before c after, calls = before ++ c :: after ∧ p (built before) c

theorem built_concat (calls : List Call) (c : Call) : built (calls ++ [c]) = c.apply (built calls) := by
  rw [built, List.foldl_append]
  rfl

theorem past_concat {p : ForkGraph → Call → Prop} {calls : List Call} {c : Call} :
    Past p (calls ++ [c]) ↔ Past p calls ∨ p (built calls) c := by
  constructor
  · rintro ⟨before, c', after, hEq, hp⟩
    obtain rfl | ⟨after, last, rfl⟩ := List.eq_nil_or_concat after
    · obtain ⟨rfl, hLast⟩ := List.append_inj' hEq rfl
      cases hLast
      exact .inr hp
    · rw [List.concat_eq_append, ← List.cons_append, ← List.append_assoc] at hEq
      obtain ⟨hCalls, -⟩ := List.append_inj' hEq rfl
      exact .inl ⟨before, c', after, hCalls, hp⟩
  · rintro (⟨before, c', after, rfl, hp⟩ | hp)
    · exact ⟨before, c', after ++ [c], by simp, hp⟩
    · exact ⟨calls, c, [], rfl, hp⟩

theorem Past.imp {p q : ForkGraph → Call → Prop} {calls : List Call} (h : Past p calls)
    (hImp : ∀ g c, p g c → q g c) : Past q calls := by
  obtain ⟨before, c, after, hEq, hp⟩ := h
  exact ⟨before, c, after, hEq, hImp _ _ hp⟩

/-! ## What one call leaves -/

/-- A graph without a LIB has heard of none. -/
def Fresh (g : ForkGraph) : Prop := g.lib = none → g.libReported = false

theorem fresh_of_lib {g : ForkGraph} {lib : BlockRef} (hLib : g.lib = some lib) : g.Fresh :=
  fun hNone => absurd (hLib.symm.trans hNone) (Option.some_ne_none lib)

theorem apply_advanceLib {g : ForkGraph} {head : BlockRef} {num : BlockNum} (hFresh : g.Fresh) :
    ((Call.advanceLib head num).apply g).Fresh ∧
      (((Call.advanceLib head num).apply g).libReported = true ↔
        g.libReported = true ∨ (Call.advanceLib head num).Confirms g) := by
  cases hLib : g.lib with
  | none =>
    have hApply : (Call.advanceLib head num).apply g = g := by
      simp only [Call.apply, advanceLib, hLib]
    rw [hApply]
    exact ⟨hFresh, (or_iff_left fun ⟨lib, hSome, _⟩ => by simp [hLib] at hSome).symm⟩
  | some lib =>
    have hConfirms : (Call.advanceLib head num).Confirms g ↔
        num = lib.num ∨ lib.num < num ∧ ∃ new, g.ancestorAt? head num = some new := by
      simp only [Call.Confirms, hLib, Option.some.injEq, exists_eq_left']
    rw [hConfirms]
    cases hResult : g.advanceLib head num with
    | error e =>
      have hApply : (Call.advanceLib head num).apply g = g := by simp only [Call.apply, hResult]
      have hReported := (advanceLib_error hLib hResult).1
      rw [hApply]
      exact ⟨hFresh, iff_of_true hReported (.inl hReported)⟩
    | ok moved =>
      obtain ⟨g', move⟩ := moved
      have hApply : (Call.advanceLib head num).apply g = g' := by simp only [Call.apply, hResult]
      rw [hApply]
      cases advance_of_advanceLib hLib hResult with
      | belowStart hUnreported hLow =>
        refine ⟨hFresh, (or_iff_left ?_).symm⟩
        grind
      | confirmed hSame =>
        exact ⟨fresh_of_lib hLib, iff_of_true rfl (.inr (.inl hSame))⟩
      | @moved new hHigh hFound =>
        exact ⟨fresh_of_lib rfl, iff_of_true rfl (.inr (.inr ⟨hHigh, new, hFound⟩))⟩
      | notFound hHigh hAbsent =>
        refine ⟨hFresh, (or_iff_left ?_).symm⟩
        rintro (hSame | ⟨-, new, hFound⟩)
        · grind
        · rw [hAbsent] at hFound
          cases hFound

/-- After a call a graph has heard of a LIB if it had before, or if the call confirmed one. -/
theorem apply_libReported_iff {g : ForkGraph} (hFresh : g.Fresh) (c : Call) :
    (c.apply g).Fresh ∧ ((c.apply g).libReported = true ↔ g.libReported = true ∨ c.Confirms g) := by
  cases c with
  | initLib lib =>
    cases hLib : g.lib with
    | none =>
      have hApply : (Call.initLib lib).apply g = { g with lib := some lib, libReported := false } := by
        simp only [Call.apply, initLib, hLib]
      rw [hApply, hFresh hLib]
      exact ⟨fresh_of_lib rfl, (or_iff_left id).symm⟩
    | some current =>
      have hApply : (Call.initLib lib).apply g = g := by simp only [Call.apply, initLib, hLib]
      rw [hApply]
      exact ⟨hFresh, (or_iff_left id).symm⟩
  | link n =>
    rw [Call.apply, Fresh, link_lib, link_libReported]
    exact ⟨hFresh, (or_iff_left id).symm⟩
  | advanceLib head num => exact apply_advanceLib hFresh
  | purge => exact ⟨hFresh, (or_iff_left id).symm⟩

theorem built_libReported_iff (calls : List Call) :
    (built calls).Fresh ∧ ((built calls).libReported = true ↔ Past Call.Confirms calls) := by
  induction calls using List.reverseRecOn with
  | nil =>
    refine ⟨fun _ => rfl, iff_of_false nofun ?_⟩
    rintro ⟨before, c, after, hEq, -⟩
    simp at hEq
  | append_singleton calls c ih =>
    obtain ⟨hFresh, hReported⟩ := ih
    rw [built_concat, past_concat, ← hReported]
    exact apply_libReported_iff hFresh c

/-! ## Numbers below the LIB -/

theorem advanceLib_of_lower {g : ForkGraph} {lib head : BlockRef} {num : BlockNum} (hLib : g.lib = some lib)
    (hLow : num < lib.num) :
    g.advanceLib head num =
      if g.libReported = true then .error (.libBackward lib.num num) else .ok (g, .belowStart lib) := by
  cases hReported : g.libReported with
  | true => simp [advanceLib, hLib, hReported, checkMonotonic, hLow]
  | false => simp [advanceLib, hLib, hReported, hLow]

/-- A number below the LIB is an error once a number was taken, which was at or above the LIB then. Otherwise it is
ignored. Either way all goes on as if the call had not been made. -/
theorem backward_iff_confirmed {calls : List Call} {lib : BlockRef} {num : BlockNum}
    (hLib : (built calls).lib = some lib) (hLow : num < lib.num) (head : BlockRef) :
    ((built calls).advanceLib head num = .error (.libBackward lib.num num) ↔ Past Call.Confirms calls) ∧
      (Past Call.Confirms calls → Past Call.Reports calls) ∧
      (¬ Past Call.Confirms calls → (built calls).advanceLib head num = .ok (built calls, .belowStart lib)) ∧
      ∀ more, built (calls ++ .advanceLib head num :: more) = built (calls ++ more) := by
  obtain ⟨-, hReported⟩ := built_libReported_iff calls
  rw [← hReported, advanceLib_of_lower hLib hLow]
  refine ⟨?_, fun h => (hReported.mp h).imp fun _ _ => Call.Confirms.reports, fun h => if_neg h, fun more => ?_⟩
  · cases (built calls).libReported <;> simp
  · have hSame : (Call.advanceLib head num).apply (built calls) = built calls := by
      rw [Call.apply, advanceLib_of_lower hLib hLow]
      cases (built calls).libReported <;> rfl
    rw [built, List.foldl_append, List.foldl_cons, ← built, hSame, built, ← List.foldl_append]
    rfl

/-- The block 102 follows the LIB 100, so there is no block 101 that the LIB could move to. -/
def unfound : List Call :=
  [.initLib ⟨"100a", 100⟩, .link (.restored ⟨"100a", 100⟩ ⟨"99a", 99⟩),
    .link (.restored ⟨"102a", 102⟩ ⟨"100a", 100⟩), .advanceLib ⟨"102a", 102⟩ 101]

theorem backward_iff_confirmed_unfound :
    (built (unfound ++ [.advanceLib ⟨"102a", 102⟩ 100])).lib = some ⟨"100a", 100⟩ ∧ (99 : BlockNum) < 100 ∧
      (built (unfound ++ [.advanceLib ⟨"102a", 102⟩ 100])).advanceLib ⟨"102a", 102⟩ 99 =
        .error (.libBackward 100 99) ∧
      (built unfound).advanceLib ⟨"102a", 102⟩ 99 = .ok (built unfound, .belowStart ⟨"100a", 100⟩) := by
  have hLib : (built unfound).lib = some ⟨"100a", 100⟩ := by decide +kernel
  have hLib' : (built (unfound ++ [.advanceLib ⟨"102a", 102⟩ 100])).lib = some ⟨"100a", 100⟩ := by decide +kernel
  have hConfirmed : Past Call.Confirms (unfound ++ [.advanceLib ⟨"102a", 102⟩ 100]) :=
    past_concat.mpr (.inr ⟨_, hLib, .inl rfl⟩)
  have hUnconfirmed : ¬ Past Call.Confirms unfound := by
    rw [← (built_libReported_iff unfound).2]
    decide +kernel
  exact ⟨hLib', by decide, (backward_iff_confirmed hLib' (by decide) _).1.mpr hConfirmed,
    (backward_iff_confirmed hLib (by decide) _).2.2.1 hUnconfirmed⟩

/-- A number at or above the LIB that was passed does not make a lower one an error, unless it was taken. -/
theorem not_backward_iff_reported :
    ¬ ∀ (calls : List Call) (lib head : BlockRef) (num : BlockNum), (built calls).lib = some lib → num < lib.num →
      ((built calls).advanceLib head num = .error (.libBackward lib.num num) ↔ Past Call.Reports calls) := by
  intro hAll
  have hLib : (built unfound).lib = some ⟨"100a", 100⟩ := by decide +kernel
  have hReported : Past Call.Reports unfound := by
    refine ⟨unfound.take 3, .advanceLib ⟨"102a", 102⟩ 101, [], rfl, ⟨"100a", 100⟩, ?_, ?_⟩
    · decide +kernel
    · decide
  have hError := (hAll unfound _ ⟨"102a", 102⟩ 99 hLib (by decide)).mpr hReported
  have hUnreported : (built unfound).libReported = false := by decide +kernel
  rw [advanceLib_of_lower hLib (by decide), hUnreported] at hError
  cases hError

end ChainFeed.ForkGraph
