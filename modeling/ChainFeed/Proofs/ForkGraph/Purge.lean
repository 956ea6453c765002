import ChainFeed.Proofs.ForkGraph.Descending

/-! # Purging below the LIB

Purging takes nodes away by their numbers, whatever hangs on them, and a lineage then ends before the first node
that is gone. The walks that ask for blocks at or above the LIB's number had stopped there, or found nothing beyond.
The segment to a block is told by ids, so it stays as it was only where numbers fall towards the LIB.
-/

set_option autoImplicit false

namespace ChainFeed

/-- The order by number, then by id. -/
def BlockRef.Before (a b : BlockRef) : Prop :=
  a.num < b.num ∨ a.num = b.num ∧ a.id < b.id

theorem BlockRef.Before.ne {a b : BlockRef} (h : a.Before b) : a ≠ b := by
  rintro rfl
  obtain hNum | ⟨-, hId⟩ := h
  · exact UInt64.lt_irrefl _ hNum
  · exact String.lt_irrefl _ hId

/-- Where all that is cut off passes the test, the first element of the rest that passes it is found unless it is cut
off too. -/
theorem find?_takeWhile {α : Type} {kept test : α → Bool} {l : List α}
    (h : ∀ a ∈ l, kept a = false → test a = true) :
    (l.takeWhile kept).find? test = (l.find? test).filter kept := by
  induction l with
  | nil => rfl
  | cons a l ih =>
    cases hKept : kept a with
    | false =>
      rw [List.takeWhile_cons_of_neg (by simp [hKept]), List.find?_cons_of_pos (h a List.mem_cons_self hKept),
        Option.filter_some, if_neg (by simp [hKept]), List.find?_nil]
    | true =>
      rw [List.takeWhile_cons_of_pos hKept]
      cases hTest : test a with
      | true =>
        rw [List.find?_cons_of_pos hTest, List.find?_cons_of_pos hTest, Option.filter_some, if_pos hKept]
      | false =>
        rw [List.find?_cons_of_neg (by simp [hTest]), List.find?_cons_of_neg (by simp [hTest])]
        exact ih fun b hb => h b (List.mem_cons_of_mem a hb)

namespace ForkGraph

variable {g : ForkGraph} {lib : BlockRef}

/-! ## What is gone -/

theorem mem_belowLib {r : BlockRef} : r ∈ g.belowLib ↔ ∃ n ∈ g.nodes, n.block = r ∧ n.num < g.libNum := by
  simp only [belowLib, List.mem_map, List.mem_filter, decide_eq_true_eq, and_assoc, and_comm (a := _ < _)]

theorem belowLib_ascending (g : ForkGraph) : g.belowLib.Pairwise BlockRef.Before :=
  List.pairwise_map.mpr (g.sorted.filter _)

theorem belowLib_purge (g : ForkGraph) : g.purge.belowLib = [] := by
  refine List.eq_nil_iff_forall_not_mem.mpr fun r hr => ?_
  obtain ⟨n, hn, -, hLow⟩ := mem_belowLib.mp hr
  exact UInt64.not_lt.mpr (mem_purge.mp hn).2 hLow

/-! ## What the walks still find -/

theorem lineage_purge (g : ForkGraph) (id : BlockId) :
    g.purge.lineage id = (g.lineage id).takeWhile fun n => g.libNum ≤ n.num :=
  g.lineage_keep _ id

theorem reversiblePath_purge (g : ForkGraph) (head : BlockRef) :
    g.purge.reversiblePath head = g.reversiblePath head := by
  have hAbove : ((g.lineage head.id).takeWhile fun n => g.libNum ≤ n.num).takeWhile (fun n => g.libNum < n.num) =
      (g.lineage head.id).takeWhile fun n => g.libNum < n.num := by
    rw [List.takeWhile_takeWhile]
    congr 1
    funext n
    simpa using UInt64.le_of_lt
  rw [reversiblePath, lineage_purge, purge_libNum, hAbove, reversiblePath]

theorem ancestorAt?_purge (g : ForkGraph) (head : BlockRef) {num : BlockNum} (hHigh : g.libNum ≤ num) :
    g.purge.ancestorAt? head num = g.ancestorAt? head num := by
  have hFind : ((g.lineage head.id).takeWhile fun n => g.libNum ≤ n.num).find? (fun n => n.num ≤ num) =
      ((g.lineage head.id).find? fun n => n.num ≤ num).filter fun n => g.libNum ≤ n.num := by
    refine find?_takeWhile fun n _ hGone => decide_eq_true ?_
    exact UInt64.le_trans (UInt64.le_of_lt (UInt64.not_le.mp (of_decide_eq_false hGone))) hHigh
  unfold ancestorAt?
  rw [lineage_purge, hFind]
  cases (g.lineage head.id).find? fun n => n.num ≤ num with
  | none => rfl
  | some n =>
    by_cases hKept : g.libNum ≤ n.num
    · rw [Option.filter_some, if_pos (decide_eq_true hKept)]
    · -- the node that decided is gone, but it was not numbered `num` either
      have hOther : n.num ≠ num := fun hNum => hKept (hNum ▸ hHigh)
      rw [Option.filter_some, if_neg (by simpa using hKept)]
      simp only [if_neg hOther]

/-- A part of the graph that holds all of a segment has the same segment. -/
theorem segmentTo_keep {test : Node → Bool} {target : BlockRef} (hLib : g.lib = some lib)
    (hKept : ∀ n ∈ (g.segmentTo target).nodes, test n = true) :
    (g.keep test).segmentTo target = g.segmentTo target := by
  have hLib' : (g.keep test).lib = some lib := hLib
  by_cases hMeets : lib.id ∈ (g.lineage target.id).map Node.id
  · obtain ⟨newer, l, hCut, hId, hNewer⟩ := cutAfter_eq_concat hMeets
    obtain ⟨older, hOlder⟩ := cutAfter_isPrefix lib.id (g.lineage target.id)
    rw [Walk.segmentTo_of_meets hLib hMeets, hCut] at hKept
    have hLineage : (g.keep test).lineage target.id = newer ++ l :: older.takeWhile test := by
      rw [lineage_keep, ← hOlder, hCut, List.takeWhile_append_of_pos fun n hn => hKept n (List.mem_reverse.mpr hn),
        List.append_assoc, List.singleton_append]
    have hMeets' : lib.id ∈ ((g.keep test).lineage target.id).map Node.id := by
      rw [hLineage, ← hId]
      simp
    have hCut' : cutAfter lib.id (newer ++ l :: older.takeWhile test) = newer ++ [l] := by
      rw [← hId]
      exact cutAfter_append (hId ▸ hNewer)
    rw [Walk.segmentTo_of_meets hLib' hMeets', Walk.segmentTo_of_meets hLib hMeets, hLineage, hCut, hCut']
  · rw [Walk.segmentTo_of_not_meets hLib hMeets] at hKept
    have hAll : ∀ n ∈ g.lineage target.id, test n = true := fun n hn => hKept n (List.mem_reverse.mpr hn)
    have hLineage : (g.keep test).lineage target.id = g.lineage target.id := by
      rw [lineage_keep, List.takeWhile_eq_self_iff]
      exact hAll
    have hContains : (g.keep test).contains (walkTarget (g.lineage target.id) target.id) =
        g.contains (walkTarget (g.lineage target.id) target.id) := by
      rw [Bool.eq_iff_iff]
      constructor
      · intro hStored
        obtain ⟨n, hn, hId⟩ := contains_iff_exists.mp hStored
        exact contains_iff_exists.mpr ⟨n, (List.mem_filter.mp hn).1, hId⟩
      · intro hStored
        obtain ⟨n, hn, hId⟩ := List.mem_map.mp (mem_lineage_of_contains_walkTarget hStored)
        exact contains_iff_exists.mpr ⟨n, List.mem_filter.mpr ⟨mem_of_mem_lineage hn, hAll n hn⟩, hId⟩
    rw [Walk.segmentTo_of_not_meets hLib' (hLineage ▸ hMeets), Walk.segmentTo_of_not_meets hLib hMeets, hLineage,
      hContains]

/-- Where numbers fall, purging leaves all of a way back to the LIB. -/
theorem Descending.segmentTo_purge (h : g.Descending lib) (hLib : g.lib = some lib) {target : BlockRef}
    (hReach : (g.segmentTo target).reachesLib = true) : g.purge.segmentTo target = g.segmentTo target := by
  obtain ⟨-, -, hSegment, -⟩ := h.exists_older hLib hReach
  refine segmentTo_keep hLib fun n hn => ?_
  rw [libNum_of_lib hLib, decide_eq_true_eq]
  obtain ⟨-, hNum⟩ | ⟨-, hNum⟩ := hSegment n hn
  · rw [hNum]
    exact UInt64.le_refl _
  · exact UInt64.le_of_lt hNum

theorem reachesLib_of_purge (hLib : g.lib = some lib) {target : BlockRef}
    (hReach : (g.purge.segmentTo target).reachesLib = true) : (g.segmentTo target).reachesLib = true := by
  have hLib' : g.purge.lib = some lib := hLib
  have hDeclares : ∀ id parent, g.purge.Declares id parent → g.Declares id parent :=
    fun id parent ⟨n, hn, hDeclares⟩ => ⟨n, (mem_purge.mp hn).1, hDeclares⟩
  have hLeads := (reachesLib_iff hLib' target).mp hReach
  exact (reachesLib_iff hLib target).mpr (Relation.ReflTransGen.mono hDeclares _ _ hLeads)

theorem Descending.reachesLib_purge (h : g.Descending lib) (hLib : g.lib = some lib) (target : BlockRef) :
    (g.purge.segmentTo target).reachesLib = (g.segmentTo target).reachesLib :=
  Bool.eq_iff_iff.mpr
    ⟨reachesLib_of_purge hLib, fun hReach => by rw [h.segmentTo_purge hLib hReach, hReach]⟩

/-! ## Purging as a whole -/

/-- `g'` is what `g` is once the blocks `gone` below its LIB are gone. -/
structure Purged (g g' : ForkGraph) (lib : BlockRef) (gone : List BlockRef) : Prop where
  sameLib : g'.lib = some lib ∧ g'.libReported = g.libReported
  mem_kept : ∀ n, n ∈ g'.nodes ↔ n ∈ g.nodes ∧ lib.num ≤ n.num
  mem_gone : ∀ r, r ∈ gone ↔ ∃ n ∈ g.nodes, n.block = r ∧ n.num < lib.num
  once : gone.Nodup
  ascending : gone.Pairwise BlockRef.Before
  again : g'.belowLib = [] ∧ g'.purge = g'
  reversible : ∀ head, g'.reversiblePath head = g.reversiblePath head
  ancestor : ∀ head num, lib.num ≤ num → g'.ancestorAt? head num = g.ancestorAt? head num
  reached : g.Descending lib → ∀ target, (g'.segmentTo target).reachesLib = (g.segmentTo target).reachesLib
  segment : g.Descending lib → ∀ target, (g.segmentTo target).reachesLib = true →
    g'.segmentTo target = g.segmentTo target

theorem purged_purge (hLib : g.lib = some lib) : g.Purged g.purge lib g.belowLib where
  sameLib := ⟨hLib, rfl⟩
  mem_kept _ := libNum_of_lib hLib ▸ mem_purge
  mem_gone _ := libNum_of_lib hLib ▸ mem_belowLib
  once := g.belowLib_ascending.imp BlockRef.Before.ne
  ascending := g.belowLib_ascending
  again := ⟨g.belowLib_purge, ForkGraph.ext rfl rfl (List.filter_eq_self.mpr fun _ hn => (List.mem_filter.mp hn).2)⟩
  reversible := g.reversiblePath_purge
  ancestor head _ hHigh := g.ancestorAt?_purge head (libNum_of_lib hLib ▸ hHigh)
  reached h := h.reachesLib_purge hLib
  segment h _ := h.segmentTo_purge hLib

theorem purged_purge_skipping :
    skipping.lib = some ⟨"100a", 100⟩ ∧ skipping.Descending ⟨"100a", 100⟩ ∧
      skipping.Purged skipping.purge ⟨"100a", 100⟩ skipping.belowLib :=
  have hLib : skipping.lib = some ⟨"100a", 100⟩ := rfl
  ⟨hLib, by decide +kernel, purged_purge hLib⟩

example :
    skipping.belowLib = [⟨"99a", 99⟩] ∧
      skipping.purge.nodes.map Node.id = ["100a", "101a", "101b", "103a", "105b"] := by
  decide +kernel

end ForkGraph

end ChainFeed
