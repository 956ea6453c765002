import ChainFeed.Block

/-! # Block numbers

Numbers are bounded, and the number below `0` is `0` again.
-/

set_option autoImplicit false

namespace ChainFeed.BlockNum

theorem lt_of_next? {n m : BlockNum} (h : n.next? = some m) : n < m := by
  unfold next? highest at h
  grind

theorem eq_of_next? {n n' m : BlockNum} (h : n.next? = some m) (h' : n'.next? = some m) : n = n' := by
  unfold next? at h h'
  grind

theorem le_or_eq_of_next? {k n m : BlockNum} (h : n.next? = some m) (hLe : k ≤ m) : k ≤ n ∨ k = m := by
  unfold next? highest at h
  grind

theorem le_succ_of_le {k n : BlockNum} (h : k ≤ n) (hLow : n ≠ highest) : k ≤ n + 1 := by
  unfold highest at hLow
  grind

theorem back_one_lt {j n : BlockNum} (h : j ≤ n) (hHigh : 0 < n) : j.back 1 < n := by
  unfold back
  grind

theorem succ_le_of_lt {k n : BlockNum} (h : k < n) : k + 1 ≤ n := by
  grind

theorem le_max_right (m n : BlockNum) : n ≤ max m n := by
  change n ≤ if m ≤ n then n else m
  grind

theorem le_max_left (m n : BlockNum) : m ≤ max m n := by
  change m ≤ if m ≤ n then n else m
  grind

theorem max_le {k m n : BlockNum} (hm : m ≤ k) (hn : n ≤ k) : max m n ≤ k := by
  change (if m ≤ n then n else m) ≤ k
  split <;> assumption

theorem max_eq_right {m n : BlockNum} (h : m ≤ n) : max m n = n :=
  UInt64.le_antisymm (max_le h (UInt64.le_refl n)) (le_max_right m n)

theorem max_max_self (k m : BlockNum) : max k (max m k) = max k m := by
  have hMax : ∀ m n : BlockNum, max m n = if m ≤ n then n else m := fun _ _ => rfl
  grind

theorem max_eq_left {m n : BlockNum} (h : n ≤ m) : max m n = m :=
  UInt64.le_antisymm (max_le (UInt64.le_refl m) h) (le_max_left _ _)

theorem back_le (n k : BlockNum) : n.back k ≤ n := by
  unfold back
  grind

theorem back_mono {m n : BlockNum} (h : m ≤ n) (k : BlockNum) : m.back k ≤ n.back k := by
  unfold back
  grind

theorem ne_highest_of_lt {m n : BlockNum} (h : m < n) : m ≠ highest := by
  unfold highest
  grind

theorem lt_succ {n : BlockNum} (h : n ≠ highest) : n < n + 1 := by
  unfold highest at h
  grind

theorem lt_succ_iff {m n : BlockNum} (h : n ≠ highest) : m < n + 1 ↔ m ≤ n := by
  unfold highest at h
  grind

theorem back_one_succ {n : BlockNum} (h : n ≠ highest) : (n + 1).back 1 = n := by
  unfold highest at h
  unfold back
  grind

theorem back_one_add_one {m n : BlockNum} (h : m < n) : n.back 1 + 1 = n := by
  unfold back
  grind

theorem toNat_succ {n : BlockNum} (h : n ≠ highest) : (n + 1).toNat = n.toNat + 1 := by
  have hSucc := lt_succ h
  rw [UInt64.lt_iff_toNat_lt, UInt64.toNat_add, UInt64.toNat_one] at hSucc
  rw [UInt64.toNat_add, UInt64.toNat_one]
  omega

theorem toNat_back (n k : BlockNum) : (n.back k).toNat = n.toNat - k.toNat := by
  unfold back
  split
  next hLe => exact UInt64.toNat_sub_of_le n k hLe
  next hAbove =>
    rw [UInt64.le_iff_toNat_le] at hAbove
    rw [UInt64.toNat_zero]
    omega

theorem toNat_min (m n : BlockNum) : (min m n).toNat = min m.toNat n.toNat := by
  change (if m ≤ n then m else n).toNat = _
  split
  next hLe => exact (Nat.min_eq_left (UInt64.le_iff_toNat_le.mp hLe)).symm
  next hAbove =>
    rw [UInt64.le_iff_toNat_le] at hAbove
    omega

theorem toNat_max (m n : BlockNum) : (max m n).toNat = max m.toNat n.toNat := by
  change (if m ≤ n then n else m).toNat = _
  split
  next hLe => exact (Nat.max_eq_right (UInt64.le_iff_toNat_le.mp hLe)).symm
  next hAbove =>
    rw [UInt64.le_iff_toNat_le] at hAbove
    omega

/-- The numbers from `low` on that are below `high`, in order. -/
def span (low high : BlockNum) : List BlockNum :=
  (List.range (high.toNat - low.toNat)).map fun i => low + .ofNat i

@[simp] theorem length_span (low high : BlockNum) : (span low high).length = high.toNat - low.toNat := by
  simp [span]

theorem toNat_add_ofNat {low high : BlockNum} {i : Nat} (h : i ≤ high.toNat - low.toNat)
    (hLe : low ≤ high) : (low + .ofNat i : BlockNum).toNat = low.toNat + i := by
  have hBound := high.toNat_lt
  rw [UInt64.le_iff_toNat_le] at hLe
  rw [UInt64.toNat_add, UInt64.toNat_ofNat']
  omega

theorem span_eq_nil {low high : BlockNum} (h : high ≤ low) : span low high = [] := by
  rw [UInt64.le_iff_toNat_le] at h
  rw [span, Nat.sub_eq_zero_of_le h]
  rfl

theorem span_succ {low high : BlockNum} (h : low ≤ high) (hHigh : high ≠ highest) :
    span low (high + 1) = span low high ++ [high] := by
  have hLast : low + .ofNat (high.toNat - low.toNat) = high := by
    rw [← UInt64.toNat_inj, toNat_add_ofNat (Nat.le_refl _) h]
    rw [UInt64.le_iff_toNat_le] at h
    omega
  rw [UInt64.le_iff_toNat_le] at h
  rw [span, toNat_succ hHigh, Nat.succ_sub h, List.range_succ, List.map_append, List.map_singleton, hLast,
    span]

theorem map_span_succ {α : Type} (low : BlockNum) {n : BlockNum} (hLow : n ≠ highest) (q : BlockNum → α) :
    (span low (n + 1)).map q = (span low n).map q ++ if low ≤ n then [q n] else [] := by
  by_cases h : low ≤ n
  · rw [if_pos h, span_succ h hLow, List.map_append, List.map_singleton]
  · rw [UInt64.not_le] at h
    rw [if_neg (UInt64.not_le.mpr h), span_eq_nil (UInt64.le_of_lt h), span_eq_nil (succ_le_of_lt h)]
    rfl

theorem getLast?_span {low high : BlockNum} (h : low < high) : (span low high).getLast? = some (high.back 1) := by
  have hLe : low ≤ high.back 1 := by
    unfold back
    grind
  have hLow : high.back 1 ≠ highest := by
    unfold back highest
    grind
  have hSpan := span_succ hLe hLow
  rw [back_one_add_one h] at hSpan
  rw [hSpan, List.getLast?_concat]

theorem mem_span {low high m : BlockNum} : m ∈ span low high ↔ low ≤ m ∧ m < high := by
  rcases UInt64.le_total high low with hEmpty | hLe
  · rw [span_eq_nil hEmpty]
    simp only [List.not_mem_nil, false_iff, not_and]
    exact fun hLow => UInt64.not_lt.mpr (UInt64.le_trans hEmpty hLow)
  rw [span, List.mem_map]
  constructor
  · rintro ⟨i, hi, rfl⟩
    rw [List.mem_range] at hi
    rw [UInt64.le_iff_toNat_le, UInt64.lt_iff_toNat_lt, toNat_add_ofNat (Nat.le_of_lt hi) hLe]
    omega
  · rintro ⟨hLow, hHigh⟩
    refine ⟨m.toNat - low.toNat, ?_, ?_⟩
    · rw [UInt64.le_iff_toNat_le] at hLow
      rw [UInt64.lt_iff_toNat_lt] at hHigh
      rw [List.mem_range]
      omega
    · rw [← UInt64.toNat_inj, toNat_add_ofNat (Nat.le_refl _) hLow]
      rw [UInt64.le_iff_toNat_le] at hLow
      omega

theorem span_pairwise (low high : BlockNum) : (span low high).Pairwise (· < ·) := by
  rcases UInt64.le_total high low with hEmpty | hLe
  · rw [span_eq_nil hEmpty]
    exact .nil
  rw [span, List.pairwise_map]
  refine List.pairwise_lt_range.imp_of_mem fun {i j} hi hj hLt => ?_
  rw [List.mem_range] at hi hj
  rw [UInt64.lt_iff_toNat_lt, toNat_add_ofNat (Nat.le_of_lt hi) hLe, toNat_add_ofNat (Nat.le_of_lt hj) hLe]
  omega

end ChainFeed.BlockNum
