import ChainFeed.Proofs.ForkGraph.Stored
import Mathlib.Data.List.Chain
import Mathlib.Data.List.Infix
import Mathlib.Data.List.TakeWhile

/-! # Paths through a fork graph

A path follows declared parents, newest node first. An id has one node, so two paths from one id go the
same way as far as both go, and the lineage of an id is the longest path from it that uses no node twice.
The segment to a target is its lineage, cut off at the LIB if the lineage meets it.
-/

set_option autoImplicit false

namespace ChainFeed

/-- The first node has the id `id`, and each further one is the declared parent of the one before. -/
def Follows : BlockId → List Node → Prop
  | _, [] => True
  | id, n :: rest => n.id = id ∧ Follows n.parent.id rest

namespace ForkGraph

theorem walkTarget_nil (id : BlockId) : walkTarget [] id = id := rfl

theorem walkTarget_cons (n : Node) (rest : List Node) (id : BlockId) :
    walkTarget (n :: rest) id = walkTarget rest n.parent.id := by
  cases rest with
  | nil => rfl
  | cons m more => rw [walkTarget, walkTarget, List.getLast?_cons_cons, List.getLast?_cons]

end ForkGraph

open ForkGraph

theorem follows_append {id : BlockId} {path more : List Node} :
    Follows id (path ++ more) ↔ Follows id path ∧ Follows (walkTarget path id) more := by
  induction path generalizing id with
  | nil => simp [Follows, walkTarget_nil]
  | cons n path ih => simp only [List.cons_append, Follows, ih, walkTarget_cons, and_assoc]

theorem Follows.isChain {id : BlockId} {path : List Node} (h : Follows id path) :
    List.IsChain (fun n m : Node => n.parent.id = m.id) path := by
  induction path generalizing id with
  | nil => exact List.isChain_nil
  | cons n path ih =>
    cases path with
    | nil => exact List.isChain_singleton n
    | cons m path => exact List.isChain_cons_cons.mpr ⟨h.2.1.symm, ih h.2⟩

/-- Where each node is numbered above the one it goes on to, numbers fall all along a path. -/
theorem Follows.pairwise_num {id : BlockId} {path : List Node} (h : Follows id path)
    (hParents : ∀ n ∈ path, ∀ p ∈ path, p.id = n.parent.id → p.num < n.num) :
    path.Pairwise fun n m => m.num < n.num := by
  have hTrans : Trans (fun n m : Node => m.num < n.num) (fun n m : Node => m.num < n.num)
      (fun n m : Node => m.num < n.num) := ⟨fun hOld hOlder => UInt64.lt_trans hOlder hOld⟩
  exact List.isChain_iff_pairwise.mp
    (h.isChain.imp_of_mem_imp fun n m hn hm hNext => hParents n hn m hm hNext.symm)

theorem Follows.num_le {g : ForkGraph} {id : BlockId} {x : Node} {path : List Node}
    (h : Follows id (x :: path))
    (hParents : ∀ n ∈ g.nodes, ∀ p ∈ g.nodes, p.id = n.parent.id → p.num ≤ n.num)
    (hStored : ∀ n ∈ x :: path, n ∈ g.nodes) : ∀ n ∈ x :: path, n.num ≤ x.num := by
  induction path generalizing id x with
  | nil =>
    intro n hn
    rw [List.mem_singleton.mp hn]
    exact UInt64.le_refl _
  | cons p path ih =>
    intro n hn
    rcases List.mem_cons.mp hn with rfl | hn
    · exact UInt64.le_refl _
    · have hParent := hParents x (hStored x List.mem_cons_self) p (hStored p (by simp)) h.2.1
      exact UInt64.le_trans (ih h.2 (fun k hk => hStored k (List.mem_cons_of_mem x hk)) n hn) hParent

namespace Node

theorem map_id_eraseP (nodes : List Node) (id : BlockId) :
    (nodes.eraseP fun m => m.id = id).map Node.id = (nodes.map Node.id).erase id := by
  rw [List.erase_eq_eraseP', List.eraseP_map]
  congr 2

theorem walkBack_spec (steps : Nat) (nodes : List Node) (id : BlockId)
    (hSteps : nodes.length ≤ steps) (hDistinct : (nodes.map Node.id).Nodup) :
    Follows id (walkBack steps nodes id) ∧
      (∀ n ∈ walkBack steps nodes id, n ∈ nodes) ∧
      ((walkBack steps nodes id).map Node.id).Nodup ∧
      (walkTarget (walkBack steps nodes id) id ∈ nodes.map Node.id →
        walkTarget (walkBack steps nodes id) id ∈ (walkBack steps nodes id).map Node.id) := by
  induction steps generalizing nodes id with
  | zero =>
    have hNil : nodes = [] := List.eq_nil_of_length_eq_zero (by omega)
    simp [walkBack, Follows, hNil]
  | succ steps ih =>
    rw [walkBack]
    cases hFind : nodes.find? fun n => n.id = id with
    | none =>
      have hAbsent : id ∉ nodes.map Node.id := by simpa using hFind
      exact ⟨trivial, by simp, List.nodup_nil, fun h => absurd h hAbsent⟩
    | some n =>
      have hMem := List.mem_of_find?_eq_some hFind
      have hId : n.id = id := by simpa using List.find?_some hFind
      have hLength : (nodes.eraseP fun m => m.id = id).length ≤ steps := by
        have := List.length_eraseP_of_mem (p := fun m : Node => m.id = id) hMem (by simpa using hId)
        omega
      have hErased := map_id_eraseP nodes id
      have hRest : ∀ i, i ∈ (nodes.eraseP fun m => m.id = id).map Node.id ↔
          i ≠ id ∧ i ∈ nodes.map Node.id := by
        intro i
        rw [hErased, hDistinct.mem_erase_iff]
      obtain ⟨hFollows, hSub, hNodup, hStop⟩ := ih (nodes.eraseP fun m => m.id = id) n.parent.id hLength
        (hErased ▸ hDistinct.erase id)
      refine ⟨⟨hId, hFollows⟩, ?_, ?_, ?_⟩
      · intro m hm
        rcases List.mem_cons.mp hm with rfl | hm
        · exact hMem
        · exact List.mem_of_mem_eraseP (hSub m hm)
      · rw [List.map_cons, List.nodup_cons, hId]
        refine ⟨fun hSeen => ?_, hNodup⟩
        obtain ⟨m, hm, hmId⟩ := List.mem_map.mp hSeen
        exact ((hRest id).mp (List.mem_map.mpr ⟨m, hSub m hm, hmId⟩)).1 rfl
      · intro hStored
        rw [walkTarget_cons] at hStored ⊢
        rw [List.map_cons, List.mem_cons, hId]
        by_cases hBack : walkTarget (walkBack steps (nodes.eraseP fun m => m.id = id) n.parent.id)
            n.parent.id = id
        · exact .inl hBack
        · exact .inr (hStop ((hRest _).mpr ⟨hBack, hStored⟩))

end Node

namespace ForkGraph

variable {g : ForkGraph}

/-! ## Lineages -/

theorem lineage_spec (g : ForkGraph) (id : BlockId) :
    Follows id (g.lineage id) ∧ (∀ n ∈ g.lineage id, n ∈ g.nodes) ∧
      ((g.lineage id).map Node.id).Nodup ∧
      (g.contains (walkTarget (g.lineage id) id) = true →
        walkTarget (g.lineage id) id ∈ (g.lineage id).map Node.id) := by
  have hDistinct : (g.nodes.reverse.map Node.id).Nodup := by
    rw [List.map_reverse]
    exact List.nodup_reverse.mpr g.distinct
  obtain ⟨hFollows, hSub, hNodup, hStop⟩ :=
    Node.walkBack_spec g.nodes.length g.nodes.reverse id (by simp) hDistinct
  refine ⟨hFollows, fun n hn => List.mem_reverse.mp (hSub n hn), hNodup, fun hStored => hStop ?_⟩
  rw [List.map_reverse, List.mem_reverse]
  exact contains_iff.mp hStored

theorem lineage_follows (g : ForkGraph) (id : BlockId) : Follows id (g.lineage id) :=
  (g.lineage_spec id).1

theorem mem_of_mem_lineage {id : BlockId} {n : Node} (hn : n ∈ g.lineage id) : n ∈ g.nodes :=
  (g.lineage_spec id).2.1 n hn

theorem lineage_nodup (g : ForkGraph) (id : BlockId) : ((g.lineage id).map Node.id).Nodup :=
  (g.lineage_spec id).2.2.1

/-- A lineage ends where it would have to use a node twice, or where the parent is not stored. -/
theorem mem_lineage_of_contains_walkTarget {id : BlockId}
    (h : g.contains (walkTarget (g.lineage id) id) = true) :
    walkTarget (g.lineage id) id ∈ (g.lineage id).map Node.id :=
  (g.lineage_spec id).2.2.2 h

theorem isPrefix_or_isPrefix {id : BlockId} {path other : List Node} (hPath : Follows id path)
    (hOther : Follows id other) (hStored : ∀ n ∈ path, n ∈ g.nodes) (hStored' : ∀ n ∈ other, n ∈ g.nodes) :
    path <+: other ∨ other <+: path := by
  induction path generalizing id other with
  | nil => exact .inl List.nil_prefix
  | cons n path ih =>
    cases other with
    | nil => exact .inr List.nil_prefix
    | cons m other =>
      have hSame : n = m := eq_of_id_eq (hStored n List.mem_cons_self) (hStored' m List.mem_cons_self)
        (hPath.1.trans hOther.1.symm)
      subst hSame
      rcases ih hPath.2 hOther.2 (fun k hk => hStored k (List.mem_cons_of_mem _ hk))
          (fun k hk => hStored' k (List.mem_cons_of_mem _ hk)) with h | h
      · exact .inl (List.cons_prefix_cons.mpr ⟨rfl, h⟩)
      · exact .inr (List.cons_prefix_cons.mpr ⟨rfl, h⟩)

/-- Any path that uses no node twice is the beginning of a lineage. -/
theorem prefix_lineage {id : BlockId} {path : List Node} (hPath : Follows id path)
    (hStored : ∀ n ∈ path, n ∈ g.nodes) (hNodup : (path.map Node.id).Nodup) :
    path <+: g.lineage id := by
  rcases isPrefix_or_isPrefix hPath (g.lineage_follows id) hStored (fun n hn => mem_of_mem_lineage hn)
    with h | ⟨more, rfl⟩
  · exact h
  · cases more with
    | nil => simp
    | cons m more =>
      -- the path would go on to a stored block, which the lineage does only if it met it before
      obtain ⟨-, hNext, -⟩ := follows_append.mp hPath
      have hStop : g.contains (walkTarget (g.lineage id) id) = true := by
        rw [← hNext]
        exact contains_of_mem (hStored m (by simp))
      have hMeets := mem_lineage_of_contains_walkTarget hStop
      rw [List.map_append, List.map_cons, List.nodup_append] at hNodup
      exact absurd hNext.symm (hNodup.2.2 _ hMeets _ List.mem_cons_self)

theorem lineage_ne_nil {id : BlockId} (h : g.contains id = true) : g.lineage id ≠ [] := by
  obtain ⟨n, hn, rfl⟩ := contains_iff_exists.mp h
  have hPrefix : [n] <+: g.lineage n.id := prefix_lineage ⟨rfl, trivial⟩ (by simpa using hn) (by simp)
  intro hNil
  rw [hNil] at hPrefix
  exact absurd (List.prefix_nil.mp hPrefix) (List.cons_ne_nil n [])

/-- A new node goes on where the lineage stopped for want of it. -/
theorem lineage_append_prefix_link {n : Node} {id : BlockId} (hNew : g.contains n.id = false)
    (hNext : walkTarget (g.lineage id) id = n.id) :
    g.lineage id ++ [n] <+: (g.link n).lineage id := by
  refine prefix_lineage (follows_append.mpr ⟨g.lineage_follows id, hNext.symm, trivial⟩) ?_ ?_
  · intro m hm
    rcases List.mem_append.mp hm with hm | hm
    · exact mem_link_of_mem (mem_of_mem_lineage hm)
    · exact mem_link.mpr (.inr ⟨List.mem_singleton.mp hm, List.mem_singleton.mp hm ▸ hNew⟩)
  · rw [List.map_append, List.nodup_append]
    refine ⟨g.lineage_nodup id, by simp, ?_⟩
    intro a ha c hc hEq
    obtain ⟨m, hm, rfl⟩ := List.mem_map.mp ha
    rw [List.map_singleton, List.mem_singleton] at hc
    rw [Bool.eq_false_iff] at hNew
    exact hNew (contains_iff_exists.mpr ⟨m, mem_of_mem_lineage hm, hEq.trans hc⟩)

theorem exists_lineage_eq_cons {id : BlockId} (h : g.contains id = true) :
    ∃ n rest, g.lineage id = n :: rest ∧ n.id = id := by
  obtain ⟨n, rest, hEq⟩ := List.exists_cons_of_ne_nil (lineage_ne_nil h)
  have hFollows := g.lineage_follows id
  rw [hEq] at hFollows
  exact ⟨n, rest, hEq, hFollows.1⟩

/-- Among the nodes that pass a test, a lineage goes on as long as its nodes do. -/
theorem lineage_keep (g : ForkGraph) (test : Node → Bool) (id : BlockId) :
    (g.keep test).lineage id = (g.lineage id).takeWhile test := by
  have hKept : ∀ n, n ∈ (g.keep test).nodes ↔ n ∈ g.nodes ∧ test n = true := fun n => List.mem_filter
  have hPart : (g.lineage id).takeWhile test <+: g.lineage id := List.takeWhile_prefix test
  have hLong : (g.lineage id).takeWhile test <+: (g.keep test).lineage id := by
    refine prefix_lineage ?_ (fun n hn => ?_) ((g.lineage_nodup id).sublist (hPart.sublist.map Node.id))
    · have hFollows := g.lineage_follows id
      rw [← List.takeWhile_append_dropWhile (p := test) (l := g.lineage id)] at hFollows
      exact (follows_append.mp hFollows).1
    · exact (hKept n).mpr ⟨mem_of_mem_lineage (hPart.subset hn), List.mem_takeWhile_imp hn⟩
  have hShort : (g.keep test).lineage id <+: (g.lineage id).takeWhile test := by
    have hStored : ∀ n ∈ (g.keep test).lineage id, n ∈ g.nodes ∧ test n = true :=
      fun n hn => (hKept n).mp (mem_of_mem_lineage hn)
    obtain ⟨more, hMore⟩ := prefix_lineage ((g.keep test).lineage_follows id) (fun n hn => (hStored n hn).1)
      (lineage_nodup _ id)
    rw [← hMore, List.takeWhile_append_of_pos fun n hn => (hStored n hn).2]
    exact List.prefix_append _ _
  exact hShort.eq_of_length_le hLong.length_le

/-! ## Where paths go is a matter of ids and parents -/

section

variable {change : Node → Node} (hId : ∀ n, (change n).id = n.id)
  (hParent : ∀ n, (change n).parent.id = n.parent.id)

include hId hParent

theorem walkBack_map (steps : Nat) (nodes : List Node) (id : BlockId) :
    Node.walkBack steps (nodes.map change) id = (Node.walkBack steps nodes id).map change := by
  induction steps generalizing nodes id with
  | zero => rfl
  | succ steps ih =>
    have hFind : (nodes.map change).find? (fun n => n.id = id) =
        (nodes.find? fun n => n.id = id).map change := by
      rw [List.find?_map]
      congr 2
      funext n
      simp only [Function.comp, hId]
    have hErase : (nodes.map change).eraseP (fun n => n.id = id) =
        (nodes.eraseP fun n => n.id = id).map change := by
      rw [List.eraseP_map]
      congr 2
      funext n
      simp only [Function.comp, hId]
    rw [Node.walkBack, Node.walkBack, hFind, hErase]
    cases nodes.find? fun n => n.id = id with
    | none => rfl
    | some n =>
      simp only [Option.map_some, List.map_cons, hParent]
      rw [ih]

theorem lineage_map {h : ForkGraph} (hNodes : h.nodes = g.nodes.map change) (id : BlockId) :
    h.lineage id = (g.lineage id).map change := by
  unfold lineage
  rw [hNodes, ← List.map_reverse, List.length_map, walkBack_map hId hParent]

end

theorem lineage_markAll (g : ForkGraph) (ids : List BlockId) (id : BlockId) :
    (g.markAll ids).lineage id = (g.lineage id).map (Node.markedIn ids) :=
  lineage_map (Node.markedIn_id ids) (fun n => by rw [Node.markedIn_toLink]) (g.nodes_markAll ids) id

theorem ancestorAt?_markAll (g : ForkGraph) (ids : List BlockId) (head : BlockRef) (num : BlockNum) :
    (g.markAll ids).ancestorAt? head num = g.ancestorAt? head num := by
  unfold ancestorAt?
  rw [lineage_markAll, List.find?_map]
  have hTest : ((fun n : Node => decide (n.num ≤ num)) ∘ Node.markedIn ids) =
      fun n => decide (n.num ≤ num) := by
    funext n
    rw [Function.comp, Node.markedIn_num]
  rw [hTest]
  cases (g.lineage head.id).find? fun n => n.num ≤ num with
  | none => rfl
  | some n =>
    rw [Option.map_some]
    simp only [Node.markedIn_num, Node.markedIn_toLink]

/-! ## Cutting at the LIB -/

theorem cutAfter_isPrefix (id : BlockId) (path : List Node) : cutAfter id path <+: path := by
  induction path with
  | nil => exact List.nil_prefix
  | cons n path ih =>
    rw [cutAfter]
    split
    · exact List.cons_prefix_cons.mpr ⟨rfl, List.nil_prefix⟩
    · exact List.cons_prefix_cons.mpr ⟨rfl, ih⟩

/-- Where the id is met, the cut path ends with its node, and meets it only there. -/
theorem cutAfter_eq_concat {id : BlockId} {path : List Node} (h : id ∈ path.map Node.id) :
    ∃ newer n, cutAfter id path = newer ++ [n] ∧ n.id = id ∧ id ∉ newer.map Node.id := by
  induction path with
  | nil => cases h
  | cons m path ih =>
    rw [cutAfter]
    by_cases hId : m.id = id
    · exact ⟨[], m, by rw [if_pos hId]; rfl, hId, by simp⟩
    · rw [List.map_cons, List.mem_cons] at h
      obtain ⟨newer, n, hCut, hn, hNewer⟩ := ih (h.resolve_left fun h => hId h.symm)
      refine ⟨m :: newer, n, by rw [if_neg hId, hCut]; rfl, hn, ?_⟩
      rw [List.map_cons, List.mem_cons, not_or]
      exact ⟨fun h => hId h.symm, hNewer⟩

theorem cutAfter_append {path more : List Node} {n : Node} (hNone : n.id ∉ path.map Node.id) :
    cutAfter n.id (path ++ n :: more) = path ++ [n] := by
  induction path with
  | nil => exact if_pos rfl
  | cons m path ih =>
    rw [List.map_cons, List.mem_cons, not_or] at hNone
    rw [List.cons_append, cutAfter, if_neg (Ne.symm hNone.1), ih hNone.2, List.cons_append]

end ForkGraph

end ChainFeed
