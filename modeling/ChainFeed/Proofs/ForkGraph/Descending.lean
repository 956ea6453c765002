import ChainFeed.Proofs.ForkGraph.Walk

/-! # Walks along which numbers fall

Three walks go back through parents, and each stops for its own reason: the segment to a block at the id of the
LIB, the reversible path at a number that is not above the LIB's, the search for an ancestor at a number that is not
above the one sought. Where each block is numbered above its stored parent, and the LIB below what hangs on it, they
tell of the same blocks.
-/

set_option autoImplicit false

namespace ChainFeed

/-- On a list along which the test is lost only once, what comes before that is all that passes it. -/
theorem takeWhile_eq_filter {α : Type} {test : α → Bool} {l : List α}
    (h : l.Pairwise fun a b => test b = true → test a = true) : l.takeWhile test = l.filter test := by
  induction l with
  | nil => rfl
  | cons a l ih =>
    obtain ⟨hFirst, hRest⟩ := List.pairwise_cons.mp h
    cases hTest : test a with
    | true => rw [List.takeWhile_cons_of_pos hTest, List.filter_cons_of_pos hTest, ih hRest]
    | false =>
      have hNone : l.filter test = [] :=
        List.filter_eq_nil_iff.mpr fun b hb hPasses => by simp [hFirst b hb hPasses] at hTest
      rw [List.takeWhile_cons_of_neg (by simp [hTest]), List.filter_cons_of_neg (by simp [hTest]), hNone]

namespace ForkGraph

/-- Numbers fall from each stored block to its stored parent, a stored LIB has its own number, and what hangs on the
LIB is numbered above it. -/
structure Descending (g : ForkGraph) (lib : BlockRef) : Prop where
  parent : ∀ n ∈ g.nodes, ∀ p ∈ g.nodes, p.id = n.parent.id → p.num < n.num
  atLib : ∀ n ∈ g.nodes, n.id = lib.id → n.num = lib.num
  aboveLib : ∀ n ∈ g.nodes, n.parent.id = lib.id → lib.num < n.num

instance (g : ForkGraph) (lib : BlockRef) : Decidable (g.Descending lib) :=
  decidable_of_iff ((∀ n ∈ g.nodes, ∀ p ∈ g.nodes, p.id = n.parent.id → p.num < n.num) ∧
      (∀ n ∈ g.nodes, n.id = lib.id → n.num = lib.num) ∧ ∀ n ∈ g.nodes, n.parent.id = lib.id → lib.num < n.num)
    ⟨fun h => ⟨h.1, h.2.1, h.2.2⟩, fun h => ⟨h.parent, h.atLib, h.aboveLib⟩⟩

variable {g : ForkGraph} {lib head : BlockRef}

namespace Descending

theorem falling (h : g.Descending lib) {id : BlockId} {path : List Node} (hFollows : Follows id path)
    (hStored : ∀ n ∈ path, n ∈ g.nodes) : path.Pairwise fun n m => m.num < n.num :=
  hFollows.pairwise_num fun n hn p hp => h.parent n (hStored n hn) p (hStored p hp)

theorem lineage_falling (h : g.Descending lib) (id : BlockId) :
    (g.lineage id).Pairwise fun n m => m.num < n.num :=
  h.falling (g.lineage_follows id) fun _ hn => mem_of_mem_lineage hn

/-- A walk that reaches the LIB goes back from the head over blocks above the LIB, then over the LIB if that is
stored, and whatever the lineage has beyond lies below the LIB. -/
theorem exists_older (h : g.Descending lib) (hLib : g.lib = some lib)
    (hReach : (g.segmentTo head).reachesLib = true) :
    ∃ older, g.lineage head.id = (g.segmentTo head).nodes.reverse ++ older ∧
      (∀ n ∈ (g.segmentTo head).nodes, n.id = lib.id ∧ n.num = lib.num ∨ n.id ≠ lib.id ∧ lib.num < n.num) ∧
      ∀ n ∈ older, n.num < lib.num := by
  have hFalling := h.lineage_falling head.id
  obtain ⟨hMeets, hNodes⟩ | ⟨hAbsent, hNext, hNodes⟩ := segmentTo_of_reachesLib hLib hReach
  · obtain ⟨newer, l, hCut, hId, hNewer⟩ := cutAfter_eq_concat hMeets
    obtain ⟨older, hOlder⟩ := cutAfter_isPrefix lib.id (g.lineage head.id)
    have hl : l ∈ g.lineage head.id := (cutAfter_isPrefix lib.id _).subset (by rw [hCut]; simp)
    have hNum : l.num = lib.num := h.atLib l (mem_of_mem_lineage hl) hId
    rw [← hOlder, hCut, List.append_assoc] at hFalling
    obtain ⟨-, hEnd, hAbove⟩ := List.pairwise_append.mp hFalling
    refine ⟨older, by rw [hNodes, List.reverse_reverse, hOlder], fun n hn => ?_, fun n hn => ?_⟩
    · rw [hNodes, hCut, List.mem_reverse, List.mem_append, List.mem_singleton] at hn
      obtain hn | rfl := hn
      · exact .inr ⟨fun hSame => hNewer (List.mem_map.mpr ⟨n, hn, hSame⟩), hNum ▸ hAbove n hn l (by simp)⟩
      · exact .inl ⟨hId, hNum⟩
    · exact hNum ▸ (List.pairwise_cons.mp hEnd).1 n hn
  · refine ⟨[], by rw [hNodes, List.reverse_reverse, List.append_nil], fun n hn => .inr ⟨?_, ?_⟩, by simp⟩
    · rintro hSame
      rw [← hSame, contains_of_mem (mem_of_mem_segmentTo hn)] at hAbsent
      cases hAbsent
    · -- the last node of the lineage hangs on the LIB, and the others are numbered above it
      have hn' := mem_lineage_of_mem_segmentTo hn
      obtain ⟨newer, last, hLineage⟩ := (List.eq_nil_or_concat (g.lineage head.id)).resolve_left
        (List.ne_nil_of_mem hn')
      rw [List.concat_eq_append] at hLineage
      rw [hLineage] at hFalling hNext hn'
      rw [walkTarget, List.getLast?_concat] at hNext
      have hLast : last ∈ g.nodes := mem_of_mem_lineage (by rw [hLineage]; simp)
      exact UInt64.lt_of_lt_of_le (h.aboveLib last hLast hNext) (num_last_le_of_falling hFalling hn')

/-- Where numbers fall, the search for a number misses no block that has it. -/
theorem ancestorAt?_iff (h : g.Descending lib) {num : BlockNum} {r : BlockRef} :
    g.ancestorAt? head num = some r ↔ ∃ n ∈ g.lineage head.id, n.num = num ∧ n.block = r := by
  rw [ancestorAt?_eq_some_iff]
  constructor
  · rintro ⟨n, hFind, hNum⟩
    exact ⟨n, List.mem_of_find?_eq_some hFind, hNum⟩
  · rintro ⟨n, hn, hNum, hBlock⟩
    obtain ⟨newer, older, hSplit⟩ := List.append_of_mem hn
    have hFalling := h.lineage_falling head.id
    rw [hSplit] at hFalling
    refine ⟨n, List.find?_eq_some_iff_append.mpr ⟨by simp [hNum], newer, older, hSplit, fun m hm => ?_⟩, hNum, hBlock⟩
    simpa [← hNum] using (List.pairwise_append.mp hFalling).2.2 m hm n List.mem_cons_self

/-- So at and above the LIB it finds the blocks of a segment that reaches the LIB. -/
theorem ancestorAt?_iff_links (h : g.Descending lib) (hLib : g.lib = some lib)
    (hReach : (g.segmentTo head).reachesLib = true) {num : BlockNum} (hHigh : lib.num ≤ num) {r : BlockRef} :
    g.ancestorAt? head num = some r ↔ ∃ l ∈ (g.segmentTo head).links, l.num = num ∧ l.block = r := by
  obtain ⟨older, hLineage, -, hOlder⟩ := h.exists_older hLib hReach
  rw [h.ancestorAt?_iff]
  constructor
  · rintro ⟨n, hn, hNum, hBlock⟩
    rw [hLineage, List.mem_append, List.mem_reverse] at hn
    obtain hn | hn := hn
    · exact ⟨n.toLink, List.mem_map.mpr ⟨n, hn, rfl⟩, hNum, hBlock⟩
    · exact absurd (hNum ▸ hOlder n hn) (UInt64.not_lt.mpr hHigh)
  · rintro ⟨l, hl, hNum, hBlock⟩
    obtain ⟨n, hn, rfl⟩ := List.mem_map.mp hl
    exact ⟨n, mem_lineage_of_mem_segmentTo hn, hNum, hBlock⟩

theorem ancestorAt?_eq_none_iff (h : g.Descending lib) (hLib : g.lib = some lib)
    (hReach : (g.segmentTo head).reachesLib = true) {num : BlockNum} (hHigh : lib.num ≤ num) :
    g.ancestorAt? head num = none ↔ ∀ l ∈ (g.segmentTo head).links, l.num ≠ num := by
  constructor
  · intro hNone l hl hNum
    rw [(h.ancestorAt?_iff_links hLib hReach hHigh).mpr ⟨l, hl, hNum, rfl⟩] at hNone
    cases hNone
  · intro hSkipped
    refine Option.eq_none_iff_forall_ne_some.mpr fun r hr => ?_
    obtain ⟨l, hl, hNum, -⟩ := (h.ancestorAt?_iff_links hLib hReach hHigh).mp hr
    exact hSkipped l hl hNum

theorem links_ascending (h : g.Descending lib) (head : BlockRef) :
    (g.segmentTo head).links.Pairwise fun older newer => older.num < newer.num := by
  rw [Segment.links, List.pairwise_map]
  refine List.pairwise_reverse.mp (h.falling (g.follows_segmentTo head) fun n hn => ?_)
  exact mem_of_mem_segmentTo (List.mem_reverse.mp hn)

/-- The blocks above the LIB's number are those of the segment that are not the LIB. -/
theorem reversiblePath_eq (h : g.Descending lib) (hLib : g.lib = some lib)
    (hReach : (g.segmentTo head).reachesLib = true) :
    g.reversiblePath head = (g.segmentTo head).links.filter fun l => l.id ≠ lib.id := by
  obtain ⟨older, hLineage, hSegment, hOlder⟩ := h.exists_older hLib hReach
  have hTake : (g.lineage head.id).takeWhile (fun n => lib.num < n.num) =
      (g.lineage head.id).filter fun n => lib.num < n.num :=
    takeWhile_eq_filter ((h.lineage_falling head.id).imp fun hLower hHigh =>
      decide_eq_true (UInt64.lt_trans (of_decide_eq_true hHigh) hLower))
  have hNone : older.filter (fun n => lib.num < n.num) = [] := by
    refine List.filter_eq_nil_iff.mpr fun n hn => ?_
    rw [decide_eq_true_eq]
    exact UInt64.not_lt.mpr (UInt64.le_of_lt (hOlder n hn))
  have hAbove : (g.segmentTo head).nodes.filter (fun n => lib.num < n.num) =
      (g.segmentTo head).nodes.filter fun n => n.id ≠ lib.id := by
    refine List.filter_congr fun n hn => ?_
    obtain ⟨hId, hNum⟩ | ⟨hId, hNum⟩ := hSegment n hn <;> simp [hId, hNum]
  rw [reversiblePath, libNum_of_lib hLib, hTake, hLineage, List.filter_append, hNone, List.append_nil,
    List.filter_reverse, hAbove, List.map_reverse, List.reverse_reverse, Segment.links, List.filter_map]
  rfl

end Descending

/-- What the other two walks from `head` find, told by the links of a segment. -/
structure Agrees (g : ForkGraph) (lib head : BlockRef) (links : List Link) : Prop where
  ascending : links.Pairwise fun older newer => older.num < newer.num
  reversible : g.reversiblePath head = links.filter fun l => l.id ≠ lib.id
  ancestor : ∀ num r, lib.num ≤ num → (g.ancestorAt? head num = some r ↔ ∃ l ∈ links, l.num = num ∧ l.block = r)
  skipped : ∀ num, lib.num ≤ num → (g.ancestorAt? head num = none ↔ ∀ l ∈ links, l.num ≠ num)

theorem agrees_of_reachesLib (hLib : g.lib = some lib) (h : g.Descending lib)
    (hReach : (g.segmentTo head).reachesLib = true) : g.Agrees lib head (g.segmentTo head).links where
  ascending := h.links_ascending head
  reversible := h.reversiblePath_eq hLib hReach
  ancestor _ _ hHigh := h.ancestorAt?_iff_links hLib hReach hHigh
  skipped _ hHigh := h.ancestorAt?_eq_none_iff hLib hReach hHigh

/-- A chain from the LIB that skips a number, a branch beside it, and a block whose parent is not stored. -/
def skipping : ForkGraph :=
  let links : List Link := [⟨⟨"99a", 99⟩, ⟨"98a", 98⟩⟩, ⟨⟨"100a", 100⟩, ⟨"99a", 99⟩⟩, ⟨⟨"101a", 101⟩, ⟨"100a", 100⟩⟩,
    ⟨⟨"101b", 101⟩, ⟨"100a", 100⟩⟩, ⟨⟨"103a", 103⟩, ⟨"101a", 101⟩⟩, ⟨⟨"105b", 105⟩, ⟨"104b", 104⟩⟩]
  { links.foldl (fun g l => g.link (.restored l.block l.parent)) empty with lib := some ⟨"100a", 100⟩ }

theorem agrees_skipping :
    skipping.lib = some ⟨"100a", 100⟩ ∧ skipping.Descending ⟨"100a", 100⟩ ∧
      (skipping.segmentTo ⟨"103a", 103⟩).reachesLib = true ∧
      skipping.Agrees ⟨"100a", 100⟩ ⟨"103a", 103⟩ (skipping.segmentTo ⟨"103a", 103⟩).links :=
  have hLib : skipping.lib = some ⟨"100a", 100⟩ := rfl
  have hFalls : skipping.Descending ⟨"100a", 100⟩ := by decide +kernel
  have hReach : (skipping.segmentTo ⟨"103a", 103⟩).reachesLib = true := by decide +kernel
  ⟨hLib, hFalls, hReach, agrees_of_reachesLib hLib hFalls hReach⟩

example :
    (skipping.segmentTo ⟨"103a", 103⟩).links.map Link.id = ["100a", "101a", "103a"] ∧
      (skipping.reversiblePath ⟨"103a", 103⟩).map Link.id = ["101a", "103a"] ∧
      skipping.ancestorAt? ⟨"103a", 103⟩ 102 = none := by
  decide +kernel

end ForkGraph

end ChainFeed
