import Mathlib.Data.List.Perm.Subperm
import Mathlib.Logic.Relation
import ChainFeed.Proofs.ForkGraph.Segment

/-! # The walk towards the LIB

Told round by round, the walk remembers the nodes it has met and the id it comes to next. It stops at an id that
it has met, at one that is not stored, or at the LIB. It meets a node at most once, so it takes at most one round
more than there are nodes, and what it has then is the segment. On any graph, with whatever parents its blocks
declare, the segment is what the walk should find.
-/

set_option autoImplicit false

namespace ChainFeed

open ForkGraph

/-- A walk comes to `next` after the nodes `met`, newest first. -/
structure Walk where
  next : BlockId
  met : List Node

namespace Walk

def start (target : BlockRef) : Walk := ⟨target.id, []⟩

/-- One round of a walk: it stops, or passes a node and comes to its parent. -/
def round (g : ForkGraph) (lib : BlockId) (w : Walk) : Segment ⊕ Walk :=
  if w.next ∈ w.met.map Node.id then .inl ⟨w.met.reverse, .atCycle⟩
  else
    match g.find? w.next with
    | none => .inl ⟨w.met.reverse, if w.next = lib then .atLib else .atGap⟩
    | some n =>
      if w.next = lib then .inl ⟨(w.met ++ [n]).reverse, .atLib⟩
      else .inr ⟨n.parent.id, w.met ++ [n]⟩

/-- What a walk has found when it stops, if it stops within so many rounds. -/
def run (g : ForkGraph) (lib : BlockId) : Nat → Walk → Option Segment
  | 0, _ => none
  | rounds + 1, w =>
    match w.round g lib with
    | .inl segment => some segment
    | .inr w => w.run g lib rounds

/-- The walk is on its way from `target`, and has not met the LIB. -/
structure OnWay (g : ForkGraph) (target lib : BlockRef) (w : Walk) : Prop where
  follows : Follows target.id w.met
  next : w.next = walkTarget w.met target.id
  stored : ∀ n ∈ w.met, n ∈ g.nodes
  nodup : (w.met.map Node.id).Nodup
  noLib : lib.id ∉ w.met.map Node.id

variable {g : ForkGraph} {target lib : BlockRef} {w : Walk}

theorem onWay_start (g : ForkGraph) (target lib : BlockRef) : OnWay g target lib (start target) where
  follows := trivial
  next := rfl
  stored := by simp [start]
  nodup := List.nodup_nil
  noLib := by simp [start]

namespace OnWay

theorem length_le (h : OnWay g target lib w) : w.met.length ≤ g.size :=
  (List.subperm_of_subset (List.Nodup.of_map Node.id h.nodup) h.stored).length_le

/-- A new node is where the walk goes on. -/
theorem concat (h : OnWay g target lib w) {n : Node} (hn : n ∈ g.nodes) (hNext : n.id = w.next)
    (hNew : w.next ∉ w.met.map Node.id) :
    Follows target.id (w.met ++ [n]) ∧ (∀ m ∈ w.met ++ [n], m ∈ g.nodes) ∧ ((w.met ++ [n]).map Node.id).Nodup := by
  refine ⟨follows_append.mpr ⟨h.follows, hNext.trans h.next, trivial⟩, ?_, ?_⟩
  · simp only [List.mem_append, List.mem_singleton]
    rintro m (hm | rfl)
    · exact h.stored m hm
    · exact hn
  · rw [List.map_append, List.map_singleton, List.nodup_append, hNext]
    exact ⟨h.nodup, List.nodup_singleton _, fun a ha b hb hab => hNew (List.mem_singleton.mp hb ▸ hab ▸ ha)⟩

/-- The walk has met the whole lineage if its next id was met or is not stored. -/
theorem lineage_eq (h : OnWay g target lib w) (hStop : w.next ∈ w.met.map Node.id ∨ g.contains w.next = false) :
    g.lineage target.id = w.met := by
  obtain ⟨more, hMore⟩ := prefix_lineage h.follows h.stored h.nodup
  cases more with
  | nil => rw [← hMore, List.append_nil]
  | cons m more =>
    exfalso
    have hFollows := g.lineage_follows target.id
    have hNodup := g.lineage_nodup target.id
    have hm : m ∈ g.lineage target.id := by simp [← hMore]
    have hStored := mem_of_mem_lineage hm
    rw [← hMore] at hFollows hNodup
    have hNext : m.id = w.next := (follows_append.mp hFollows).2.1.trans h.next.symm
    obtain hMet | hAbsent := hStop
    · rw [List.map_append, List.map_cons, List.nodup_append] at hNodup
      exact hNodup.2.2 _ hMet _ List.mem_cons_self hNext.symm
    · rw [← hNext, contains_of_mem hStored] at hAbsent
      cases hAbsent

end OnWay

theorem segmentTo_of_meets (hLib : g.lib = some lib) (hMeets : lib.id ∈ (g.lineage target.id).map Node.id) :
    g.segmentTo target = ⟨(cutAfter lib.id (g.lineage target.id)).reverse, .atLib⟩ := by
  have hAny : ((g.lineage target.id).any fun n => n.id = lib.id) = true := by simpa using hMeets
  simp only [segmentTo, libId_of_lib hLib, if_pos hAny]

theorem segmentTo_of_not_meets (hLib : g.lib = some lib) (hNone : lib.id ∉ (g.lineage target.id).map Node.id) :
    g.segmentTo target = ⟨(g.lineage target.id).reverse,
      if g.contains (walkTarget (g.lineage target.id) target.id) then .atCycle
      else if walkTarget (g.lineage target.id) target.id = lib.id then .atLib else .atGap⟩ := by
  have hAny : ¬ ((g.lineage target.id).any fun n => n.id = lib.id) = true := by simpa using hNone
  simp only [segmentTo, libId_of_lib hLib, if_neg hAny]

/-- A walk that may go on for more rounds than there are nodes left stops with the segment. -/
theorem OnWay.run_eq (h : OnWay g target lib w) (hLib : g.lib = some lib) {rounds : Nat}
    (hRounds : g.size < rounds + w.met.length) : w.run g lib.id rounds = some (g.segmentTo target) := by
  induction rounds generalizing w with
  | zero =>
    have hLength := h.length_le
    omega
  | succ rounds ih =>
    rw [run, round]
    by_cases hMet : w.next ∈ w.met.map Node.id
    · have hWhole := h.lineage_eq (.inl hMet)
      obtain ⟨m, hm, hId⟩ := List.mem_map.mp hMet
      have hContains : g.contains w.next = true := hId ▸ contains_of_mem (h.stored m hm)
      rw [segmentTo_of_not_meets hLib (hWhole ▸ h.noLib), hWhole, ← h.next, if_pos hMet, hContains]
      rfl
    · rw [if_neg hMet]
      cases hFind : g.find? w.next with
      | none =>
        have hAbsent : g.contains w.next = false := by rw [contains, hFind]; rfl
        have hWhole := h.lineage_eq (.inr hAbsent)
        rw [segmentTo_of_not_meets hLib (hWhole ▸ h.noLib), hWhole, ← h.next, hAbsent]
        rfl
      | some n =>
        have hn : n ∈ g.nodes := List.mem_of_find?_eq_some hFind
        have hId : n.id = w.next := by simpa using List.find?_some hFind
        obtain ⟨hFollows, hStored, hNodup⟩ := h.concat hn hId hMet
        by_cases hAtLib : w.next = lib.id
        · obtain ⟨more, hMore⟩ := prefix_lineage hFollows hStored hNodup
          rw [List.append_assoc, List.singleton_append] at hMore
          have hMeets : lib.id ∈ (g.lineage target.id).map Node.id := by
            rw [← hMore, ← hAtLib, ← hId]
            simp
          have hCut : cutAfter lib.id (g.lineage target.id) = w.met ++ [n] := by
            rw [← hMore, ← hAtLib, ← hId]
            exact cutAfter_append (hId ▸ hMet)
          rw [segmentTo_of_meets hLib hMeets, hCut]
          simp only [if_pos hAtLib]
        · simp only [if_neg hAtLib]
          refine ih ⟨hFollows, ?_, hStored, hNodup, ?_⟩ (by simp; omega)
          · rw [walkTarget, List.getLast?_concat]
          · rw [List.map_append, List.mem_append, List.map_singleton, List.mem_singleton, hId, not_or]
            exact ⟨h.noLib, Ne.symm hAtLib⟩

end Walk

namespace ForkGraph

variable {g : ForkGraph} {target lib : BlockRef}

/-! ## What a segment is -/

/-- The block stored as `id` declares the parent id `parent`. -/
def Declares (g : ForkGraph) (id parent : BlockId) : Prop :=
  ∃ n ∈ g.nodes, n.id = id ∧ n.parent.id = parent

/-- `links` are the way back from `target` to the LIB, oldest first, as far as it goes, and `reached` tells whether
it gets there. -/
structure Completes (g : ForkGraph) (lib target : BlockRef) (links : List Link) (reached : Bool) : Prop where
  nil_iff : links = [] ↔ g.find? target.id = none
  last : links.getLast? = (g.find? target.id).map Node.toLink
  distinct : (links.map fun l => l.block.id).Nodup
  stored : ∀ l ∈ links, (g.find? l.block.id).map Node.toLink = some l
  chained : links.IsChain fun older newer => newer.parent.id = older.block.id
  libFirst : ∀ l ∈ links.tail, l.block.id ≠ lib.id
  reached_iff : reached = true ↔ Relation.ReflTransGen g.Declares target.id lib.id
  first_of_reached : reached = true → ∀ first, links.head? = some first →
    first.block.id = lib.id ∨ first.parent.id = lib.id
  first_of_not_reached : reached = false → ∀ first, links.head? = some first →
    (g.find? first.parent.id = none ∧ first.parent.id ≠ lib.id) ∨
      first.parent.id ∈ links.map fun l => l.block.id

/-! ## Reaching -/

/-- A path leads to its nodes, and to the parent of its oldest one. -/
theorem reflTransGen_of_follows {id : BlockId} {path : List Node} (hFollows : Follows id path)
    (hStored : ∀ n ∈ path, n ∈ g.nodes) :
    (∀ n ∈ path, Relation.ReflTransGen g.Declares id n.id) ∧
      Relation.ReflTransGen g.Declares id (walkTarget path id) := by
  induction path generalizing id with
  | nil => exact ⟨by simp, .refl⟩
  | cons n path ih =>
    obtain ⟨hId, hRest⟩ := hFollows
    obtain ⟨hNodes, hEnd⟩ := ih hRest fun m hm => hStored m (List.mem_cons_of_mem n hm)
    have hStep : g.Declares id n.parent.id := ⟨n, hStored n List.mem_cons_self, hId, rfl⟩
    refine ⟨fun m hm => ?_, walkTarget_cons n path id ▸ hEnd.head hStep⟩
    obtain rfl | hm := List.mem_cons.mp hm
    · exact hId ▸ .refl
    · exact (hNodes m hm).head hStep

/-- The parent of a node on a path is the next node's id, or what the path comes to. -/
theorem parent_mem_or_eq_walkTarget {id : BlockId} {path : List Node} (hFollows : Follows id path) {n : Node}
    (hn : n ∈ path) : n.parent.id ∈ path.map Node.id ∨ n.parent.id = walkTarget path id := by
  obtain ⟨newer, older, rfl⟩ := List.append_of_mem hn
  obtain ⟨-, -, hOlder⟩ := follows_append.mp hFollows
  cases older with
  | nil =>
    right
    rw [walkTarget, List.getLast?_concat]
  | cons m older =>
    left
    rw [← hOlder.1]
    simp

/-- Whatever the parents of `target` lead to lies on its lineage, or is what the lineage comes to. -/
theorem mem_lineage_or_eq_of_reflTransGen {id : BlockId}
    (h : Relation.ReflTransGen g.Declares target.id id) :
    id ∈ (g.lineage target.id).map Node.id ∨ id = walkTarget (g.lineage target.id) target.id := by
  induction h with
  | refl =>
    cases hLineage : g.lineage target.id with
    | nil => exact .inr rfl
    | cons n rest =>
      have hFollows := g.lineage_follows target.id
      rw [hLineage] at hFollows
      left
      rw [List.map_cons, hFollows.1]
      exact List.mem_cons_self
  | @tail a b _ hStep ih =>
    obtain ⟨n, hn, rfl, rfl⟩ := hStep
    have hOn : n.id ∈ (g.lineage target.id).map Node.id := by
      obtain hOn | hEnd := ih
      · exact hOn
      · rw [hEnd]
        exact mem_lineage_of_contains_walkTarget (hEnd ▸ contains_of_mem hn)
    obtain ⟨m, hm, hSame⟩ := List.mem_map.mp hOn
    rw [← eq_of_id_eq (mem_of_mem_lineage hm) hn hSame]
    exact parent_mem_or_eq_walkTarget (g.lineage_follows target.id) hm

theorem reachesLib_iff (hLib : g.lib = some lib) (target : BlockRef) :
    (g.segmentTo target).reachesLib = true ↔ Relation.ReflTransGen g.Declares target.id lib.id := by
  obtain ⟨hNodes, hEnd⟩ := reflTransGen_of_follows (g.lineage_follows target.id) fun n hn => mem_of_mem_lineage hn
  constructor
  · intro hReach
    obtain ⟨hMeets, -⟩ | ⟨-, hNext, -⟩ := segmentTo_of_reachesLib hLib hReach
    · obtain ⟨l, hl, hId⟩ := List.mem_map.mp hMeets
      exact hId ▸ hNodes l hl
    · exact hNext ▸ hEnd
  · intro hLeads
    by_contra hReach
    obtain ⟨hNone, -, hStop⟩ := segmentTo_of_not_reachesLib hLib (Bool.eq_false_iff.mpr hReach)
    have hNext := (mem_lineage_or_eq_of_reflTransGen hLeads).resolve_left hNone
    obtain hMet | ⟨-, hOther⟩ := hStop
    · exact hNone (hNext ▸ hMet)
    · exact hOther hNext.symm

/-! ## Its blocks -/

theorem id_toLink (n : Node) : n.toLink.block.id = n.id := rfl

theorem map_id_links (s : Segment) : (s.links.map fun l => l.block.id) = s.nodes.map Node.id :=
  List.map_map

theorem segmentTo_eq_nil_iff (hLib : g.lib = some lib) :
    (g.segmentTo target).nodes = [] ↔ g.find? target.id = none := by
  constructor
  · intro hNil
    by_contra hFound
    exact segmentTo_ne_nil hLib (Option.isSome_iff_ne_none.mpr hFound) hNil
  · intro hAbsent
    have hPrefix := g.segmentTo_reverse_isPrefix target
    cases hNodes : (g.segmentTo target).nodes.reverse with
    | nil => exact List.reverse_eq_nil_iff.mp hNodes
    | cons n rest =>
      have hFollows := g.follows_segmentTo target
      rw [hNodes] at hFollows
      have hn : n ∈ (g.segmentTo target).nodes := by
        rw [← List.mem_reverse, hNodes]
        exact List.mem_cons_self
      rw [← hFollows.1, find?_of_mem (mem_of_mem_segmentTo hn)] at hAbsent
      cases hAbsent

/-- A segment ends with the target's node, if the target is stored. -/
theorem getLast?_segmentTo (hLib : g.lib = some lib) :
    (g.segmentTo target).nodes.getLast? = g.find? target.id := by
  cases hLast : (g.segmentTo target).nodes.getLast? with
  | none => exact ((segmentTo_eq_nil_iff hLib).mp (List.getLast?_eq_none_iff.mp hLast)).symm
  | some last =>
    rw [← id_of_getLast?_segmentTo hLast, find?_of_mem (mem_of_mem_segmentTo (List.mem_of_getLast? hLast))]

/-- Only the oldest block of a segment may be the LIB. -/
theorem ne_lib_of_mem_tail (hLib : g.lib = some lib) {n : Node} (hn : n ∈ (g.segmentTo target).nodes.tail) :
    n.id ≠ lib.id := by
  cases hReach : (g.segmentTo target).reachesLib with
  | true =>
    obtain ⟨hMeets, hNodes⟩ | ⟨hAbsent, -, hNodes⟩ := segmentTo_of_reachesLib hLib hReach
    · obtain ⟨newer, l, hCut, -, hNewer⟩ := cutAfter_eq_concat hMeets
      rw [hNodes, hCut, List.reverse_concat, List.tail_cons, List.mem_reverse] at hn
      exact fun hId => hNewer (List.mem_map.mpr ⟨n, hn, hId⟩)
    · intro hId
      rw [← hId, contains_of_mem (mem_of_mem_segmentTo (List.mem_of_mem_tail hn))] at hAbsent
      cases hAbsent
  | false =>
    intro hId
    refine (segmentTo_of_not_reachesLib hLib hReach).1 (List.mem_map.mpr ⟨n, ?_, hId⟩)
    exact mem_lineage_of_mem_segmentTo (List.mem_of_mem_tail hn)

theorem walkTarget_of_head? {path : List Node} {oldest : Node} (h : path.reverse.head? = some oldest)
    (id : BlockId) : walkTarget path id = oldest.parent.id := by
  rw [List.head?_reverse] at h
  rw [walkTarget, h]

theorem completes_segmentTo (hLib : g.lib = some lib) (target : BlockRef) :
    Completes g lib target (g.segmentTo target).links (g.segmentTo target).reachesLib where
  nil_iff := List.map_eq_nil_iff.trans (segmentTo_eq_nil_iff hLib)
  last := by rw [Segment.links, List.getLast?_map, getLast?_segmentTo hLib]
  distinct := map_id_links _ ▸ g.segmentTo_nodup target
  stored := by
    intro l hl
    obtain ⟨n, hn, rfl⟩ := List.mem_map.mp hl
    rw [id_toLink, find?_of_mem (mem_of_mem_segmentTo hn)]
    rfl
  chained := (List.isChain_map _).mpr (List.isChain_reverse.mp (g.follows_segmentTo target).isChain)
  libFirst := by
    intro l hl
    rw [Segment.links, ← List.map_tail] at hl
    obtain ⟨n, hn, rfl⟩ := List.mem_map.mp hl
    exact ne_lib_of_mem_tail hLib hn
  reached_iff := reachesLib_iff hLib target
  first_of_reached := by
    intro hReach first hFirst
    rw [Segment.links, List.head?_map] at hFirst
    obtain ⟨oldest, hOldest, rfl⟩ := Option.map_eq_some_iff.mp hFirst
    obtain ⟨hMeets, hNodes⟩ | ⟨-, hNext, hNodes⟩ := segmentTo_of_reachesLib hLib hReach
    · obtain ⟨newer, l, hCut, hl, -⟩ := cutAfter_eq_concat hMeets
      rw [hNodes, hCut, List.reverse_concat] at hOldest
      cases hOldest
      exact .inl hl
    · rw [hNodes] at hOldest
      exact .inr ((walkTarget_of_head? hOldest target.id).symm.trans hNext)
  first_of_not_reached := by
    intro hReach first hFirst
    rw [Segment.links, List.head?_map] at hFirst
    obtain ⟨oldest, hOldest, rfl⟩ := Option.map_eq_some_iff.mp hFirst
    obtain ⟨-, hNodes, hStop⟩ := segmentTo_of_not_reachesLib hLib hReach
    rw [hNodes] at hOldest
    rw [walkTarget_of_head? hOldest] at hStop
    obtain hMet | ⟨hAbsent, hOther⟩ := hStop
    · right
      rw [map_id_links, hNodes, List.map_reverse, List.mem_reverse]
      exact hMet
    · exact .inl ⟨Option.not_isSome_iff_eq_none.mp (Bool.eq_false_iff.mp hAbsent), hOther⟩

/-- On any graph with a LIB, the walk from any target stops within one round more than there are nodes, and what it
has found is the segment, with all that is asked of it. -/
theorem walk_completes (hLib : g.lib = some lib) (target : BlockRef) :
    (∀ rounds, g.size < rounds → (Walk.start target).run g lib.id rounds = some (g.segmentTo target)) ∧
      Completes g lib target (g.segmentTo target).links (g.segmentTo target).reachesLib :=
  ⟨fun _ hRounds => (Walk.onWay_start g target lib).run_eq hLib hRounds, completes_segmentTo hLib target⟩

/-- Two blocks that declare each other as parents, one that declares itself, and one on a LIB that is not stored. -/
def circling : ForkGraph :=
  let links : List Link := [⟨⟨"101a", 101⟩, ⟨"102a", 102⟩⟩, ⟨⟨"102a", 102⟩, ⟨"101a", 101⟩⟩,
    ⟨⟨"101b", 101⟩, ⟨"101b", 101⟩⟩, ⟨⟨"101c", 101⟩, ⟨"100a", 100⟩⟩]
  { links.foldl (fun g l => g.link (.restored l.block l.parent)) empty with lib := some ⟨"100a", 100⟩ }

theorem walk_completes_circling :
    circling.lib = some ⟨"100a", 100⟩ ∧
      (Walk.start ⟨"102a", 102⟩).run circling "100a" 5 = some (circling.segmentTo ⟨"102a", 102⟩) ∧
      Completes circling ⟨"100a", 100⟩ ⟨"102a", 102⟩ (circling.segmentTo ⟨"102a", 102⟩).links
        (circling.segmentTo ⟨"102a", 102⟩).reachesLib :=
  have h := walk_completes (g := circling) rfl ⟨"102a", 102⟩
  ⟨rfl, h.1 5 (by decide +kernel), h.2⟩

example :
    (circling.segmentTo ⟨"102a", 102⟩).nodes.map Node.id = ["101a", "102a"] ∧
      (circling.segmentTo ⟨"102a", 102⟩).stop = .atCycle ∧
      (circling.segmentTo ⟨"101c", 101⟩).stop = .atLib := by
  decide +kernel

end ForkGraph

end ChainFeed
