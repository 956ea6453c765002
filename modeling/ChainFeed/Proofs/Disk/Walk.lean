import ChainFeed.Disk.Device
import Mathlib.Data.List.Infix

/-! # What a change leaves of the disk

A file that is put or erased leaves every folder a folder, so the walks that came to a place before come
to the same place afterwards. What stands there changes only if it was the place changed.
-/

set_option autoImplicit false

namespace ChainFeed

namespace Item

theorem at?_append (item : Item) (p q : Place) :
    item.at? (p ++ q) = (item.at? p).bind fun inner => inner.at? q := by
  induction p generalizing item with
  | nil => rfl
  | cons name p ih =>
    simp only [List.cons_append, at?]
    cases item.entries.lookup name with
    | none => rfl
    | some inner => exact ih inner

theorem lookup_filter_ne {name other : String} (entries : List (String × Item)) (h : other ≠ name) :
    (entries.filter fun entry => entry.1 ≠ name).lookup other = entries.lookup other := by
  induction entries with
  | nil => rfl
  | cons entry entries ih =>
    obtain ⟨key, item⟩ := entry
    by_cases hKey : key = name
    · subst hKey
      have hDiffers : (other == key) = false := beq_false_of_ne h
      rw [List.filter_cons_of_neg (by simp), List.lookup_cons, hDiffers]
      exact ih
    · rw [List.filter_cons_of_pos (by simpa using hKey), List.lookup_cons, List.lookup_cons, ih]

theorem at?_erase_of_apart {p q : Place} (item : Item) (hAbove : ¬ q <+: p) (hBelow : ¬ p <+: q) :
    (erase p item).at? q = item.at? q := by
  induction p generalizing q item with
  | nil => exact absurd List.nil_prefix hBelow
  | cons name rest ih =>
    cases q with
    | nil => exact absurd List.nil_prefix hAbove
    | cons other more =>
      rw [List.cons_prefix_cons, not_and] at hAbove hBelow
      cases rest with
      | nil =>
        have hOther : other ≠ name := fun h => hBelow h.symm List.nil_prefix
        cases item with
        | file bytes => rfl
        | folder entries => simp only [erase, at?, entries_folder, lookup_filter_ne entries hOther]
      | cons next rest =>
        simp only [erase]
        cases hInner : item.entries.lookup name with
        | none => rfl
        | some inner =>
          by_cases hOther : other = name
          · subst hOther
            simp only [at?, entries_folder, lookup_setEntry_self, hInner]
            exact ih inner (hAbove rfl) (hBelow rfl)
          · simp only [at?, entries_folder, lookup_setEntry_of_ne _ _ hOther]

/-- Two ways with the same first step go on in one item. -/
theorem exists_inner {name : String} {p q : Place} {item : Item} {entries : List (String × Item)}
    (hPlace : ∀ inside, item.at? (name :: p) ≠ some (.folder inside))
    (h : item.at? (name :: q) = some (.folder entries)) :
    ∃ inner, item.entries.lookup name = some inner ∧ inner.at? q = some (.folder entries) ∧
      ∀ inside, inner.at? p ≠ some (.folder inside) := by
  rw [at?] at h
  cases hInner : item.entries.lookup name with
  | none =>
    rw [hInner] at h
    cases h
  | some inner =>
    rw [hInner] at h
    refine ⟨inner, rfl, h, fun inside hInside => hPlace inside ?_⟩
    rw [at?, hInner]
    exact hInside

theorem folder_at?_put (new : Item) {p q : Place} {item : Item} {entries : List (String × Item)}
    (hPlace : ∀ inside, item.at? p ≠ some (.folder inside)) (h : item.at? q = some (.folder entries)) :
    ∃ inside, (put new p item).at? q = some (.folder inside) := by
  induction p generalizing q item with
  | nil =>
    cases item with
    | folder inside => exact absurd rfl (hPlace inside)
    | file bytes => cases q <;> cases h
  | cons name rest ih =>
    cases q with
    | nil => exact ⟨_, rfl⟩
    | cons other more =>
      by_cases hOther : other = name
      · subst hOther
        obtain ⟨inner, hInner, hFolder, hInside⟩ := exists_inner hPlace h
        obtain ⟨inside, hKept⟩ := ih hInside hFolder
        refine ⟨inside, ?_⟩
        simp only [put, at?, entries_folder, lookup_setEntry_self, hInner, Option.getD_some]
        exact hKept
      · refine ⟨entries, ?_⟩
        simp only [put, at?, entries_folder, lookup_setEntry_of_ne _ _ hOther]
        exact h

theorem folder_at?_erase {p q : Place} {item : Item} {entries : List (String × Item)}
    (hPlace : ∀ inside, item.at? p ≠ some (.folder inside)) (h : item.at? q = some (.folder entries)) :
    ∃ inside, (erase p item).at? q = some (.folder inside) := by
  induction p generalizing q item with
  | nil => exact ⟨entries, h⟩
  | cons name rest ih =>
    cases q with
    | nil =>
      cases item with
      | file bytes => cases h
      | folder inside =>
        cases rest with
        | nil => exact ⟨_, rfl⟩
        | cons next rest =>
          rw [erase]
          cases (folder inside).entries.lookup name with
          | none => exact ⟨inside, rfl⟩
          | some inner => exact ⟨_, rfl⟩
          simp
    | cons other more =>
      by_cases hOther : other = name
      · subst hOther
        obtain ⟨inner, hInner, hFolder, hInside⟩ := exists_inner hPlace h
        cases rest with
        | nil =>
          -- the erased item is no folder, so nothing is inside it
          cases inner with
          | folder inside => exact absurd rfl (hInside inside)
          | file bytes => cases more <;> cases hFolder
        | cons next rest =>
          obtain ⟨inside, hKept⟩ := ih hInside hFolder
          refine ⟨inside, ?_⟩
          simp only [erase, hInner, at?, entries_folder, lookup_setEntry_self]
          exact hKept
      · refine ⟨entries, ?_⟩
        rw [at?] at h
        cases rest with
        | nil =>
          cases item with
          | file bytes => exact h
          | folder inside =>
            simp only [erase, at?, entries_folder, lookup_filter_ne inside hOther]
            exact h
        | cons next rest =>
          simp only [erase]
          cases item.entries.lookup name with
          | none => exact h
          | some inner =>
            simp only [at?, entries_folder, lookup_setEntry_of_ne _ _ hOther]
            exact h

end Item

namespace Disk

theorem at?_put (d : Disk) {p : Place} (hPlace : p ≠ []) (item : Item) (q : Place) :
    (d.put p item).at? q = (Item.put item p d.root).at? q := by
  cases p with
  | nil => exact absurd rfl hPlace
  | cons name rest => rfl

theorem at?_erase (d : Disk) (p q : Place) : (d.erase p).at? q = (Item.erase p d.root).at? q := by
  have hFolder : ∃ entries, Item.erase p d.root = .folder entries := by
    cases p with
    | nil => exact ⟨_, rfl⟩
    | cons name rest =>
      cases rest with
      | nil => exact ⟨_, rfl⟩
      | cons next rest =>
        simp only [Item.erase]
        cases d.root.entries.lookup name with
        | none => exact ⟨_, rfl⟩
        | some inner => exact ⟨_, rfl⟩
  obtain ⟨entries, hEntries⟩ := hFolder
  simp only [Disk.at?, Disk.erase, Disk.root] at hEntries ⊢
  rw [hEntries, Item.entries_folder]

def KeepsFolders (d d' : Disk) : Prop :=
  ∀ p entries, d.at? p = some (.folder entries) → ∃ inside, d'.at? p = some (.folder inside)

theorem keepsFolders_put {d : Disk} {p : Place} (hPlace : p ≠ [])
    (hOther : ∀ inside, d.at? p ≠ some (.folder inside)) (item : Item) : d.KeepsFolders (d.put p item) := by
  intro q entries hFolder
  obtain ⟨inside, hKept⟩ := Item.folder_at?_put item hOther hFolder
  exact ⟨inside, by rw [at?_put d hPlace]; exact hKept⟩

theorem keepsFolders_erase {d : Disk} {p : Place} (hOther : ∀ inside, d.at? p ≠ some (.folder inside)) :
    d.KeepsFolders (d.erase p) := by
  intro q entries hFolder
  obtain ⟨inside, hKept⟩ := Item.folder_at?_erase hOther hFolder
  exact ⟨inside, by rw [at?_erase]; exact hKept⟩

theorem KeepsFolders.trans {d d' d'' : Disk} (h : d.KeepsFolders d') (h' : d'.KeepsFolders d'') :
    d.KeepsFolders d'' := by
  intro p entries hFolder
  obtain ⟨inside, hKept⟩ := h p entries hFolder
  exact h' p inside hKept

end Disk

/-! ## Walks -/

namespace Spot

/-- The spots that walks through a disk come to. -/
inductive Reached (d : Disk) : Spot → Prop where
  | root : Reached d ⟨some d.root, []⟩
  | inside {entries : List (String × Item)} {outer : List (String × Item)} (name : String)
      (h : Reached d ⟨some (.folder entries), outer⟩) :
      Reached d ⟨entries.lookup name, (name, .folder entries) :: outer⟩

theorem Reached.here_eq {d : Disk} {s : Spot} (h : Reached d s) : s.here = d.at? s.place := by
  induction h with
  | root => rfl
  | @inside entries outer name h ih =>
    have hPlace : place ⟨entries.lookup name, (name, .folder entries) :: outer⟩ =
        place ⟨some (.folder entries), outer⟩ ++ [name] := by
      simp [place]
    rw [hPlace, Disk.at?, Item.at?_append, ← Disk.at?, ← ih, Option.bind_some, Item.at?,
      Item.entries_folder]
    cases entries.lookup name <;> rfl

/-- Every place on the way to a spot is a folder. -/
theorem Reached.folder_of_isPrefix {d : Disk} {s : Spot} (h : Reached d s) {q : Place} (hPrefix : q <+: s.place)
    (hProper : q ≠ s.place) : ∃ inside, d.at? q = some (.folder inside) := by
  induction h with
  | root => exact absurd (List.prefix_nil.mp hPrefix) hProper
  | @inside entries outer name h ih =>
    have hPlace : place ⟨entries.lookup name, (name, .folder entries) :: outer⟩ =
        place ⟨some (.folder entries), outer⟩ ++ [name] := by
      simp [place]
    rw [hPlace] at hPrefix hProper
    have hOuter := (List.prefix_concat_iff.mp hPrefix).resolve_left hProper
    by_cases hSame : q = place ⟨some (.folder entries), outer⟩
    · exact ⟨entries, by rw [hSame, ← h.here_eq]⟩
    · exact ih hOuter hSame

/-- What one part of a path does: it stays, leads out, or leads into a name of the folder. -/
theorem next_cases {s t : Spot} {part : String} (h : s.next part = .ok t) :
    ∃ entries, s.here = some (.folder entries) ∧
      (Path.staysThere part = true ∧ t = s ∨
        Path.staysThere part = false ∧ Path.leadsOut part = true ∧
          (s.outer = [] ∧ t = s ∨
            ∃ name around outer, s.outer = (name, around) :: outer ∧ t = ⟨some around, outer⟩) ∨
        Path.staysThere part = false ∧ Path.leadsOut part = false ∧
          ¬ Path.nameLimit < part.utf8ByteSize ∧
          t = ⟨entries.lookup part, (part, .folder entries) :: s.outer⟩) := by
  unfold next at h
  split at h
  · cases h
  · cases h
  next entries hHere =>
    refine ⟨entries, hHere, ?_⟩
    split at h
    next hStays =>
      cases h
      exact .inl ⟨hStays, rfl⟩
    next hStays =>
      rw [Bool.not_eq_true] at hStays
      split at h
      next hOut =>
        refine .inr (.inl ⟨hStays, hOut, ?_⟩)
        split at h
        next hOuter =>
          cases h
          exact .inl ⟨hOuter, rfl⟩
        next name around outer hOuter =>
          cases h
          exact .inr ⟨name, around, outer, hOuter, rfl⟩
      next hOut =>
        rw [Bool.not_eq_true] at hOut
        split at h
        · cases h
        next hShort =>
          cases h
          exact .inr (.inr ⟨hStays, hOut, hShort, rfl⟩)

theorem Reached.next {d : Disk} {s t : Spot} {part : String} (h : Reached d s)
    (hNext : s.next part = .ok t) : Reached d t := by
  obtain ⟨entries, hHere, ⟨-, rfl⟩ | ⟨-, -, ⟨-, rfl⟩ | ⟨name, around, outer, hOuter, rfl⟩⟩ | ⟨-, -, -, rfl⟩⟩ :=
    next_cases hNext
  · exact h
  · exact h
  · cases h with
    | root => cases hOuter
    | inside _ h =>
      cases hOuter
      exact h
  · obtain ⟨here, outer⟩ := s
    cases hHere
    exact .inside part h

theorem next_keeps {d d' : Disk} {s s' t : Spot} {part : String} (hReached : Reached d s)
    (hReached' : Reached d' s') (hKeeps : d.KeepsFolders d')
    (hSame : s'.outer.map Prod.fst = s.outer.map Prod.fst) (hNext : s.next part = .ok t) :
    ∃ t', s'.next part = .ok t' ∧ t'.outer.map Prod.fst = t.outer.map Prod.fst := by
  obtain ⟨entries, hHere, hCases⟩ := next_cases hNext
  have hPlace : s'.place = s.place := by rw [place, hSame, place]
  obtain ⟨inside, hInside⟩ := hKeeps s.place entries (by rw [← hReached.here_eq, hHere])
  have hHere' : s'.here = some (.folder inside) := by rw [hReached'.here_eq, hPlace, hInside]
  unfold next
  rw [hHere']
  rcases hCases with ⟨hStays, rfl⟩ | ⟨hStays, hOut, hOuter⟩ | ⟨hStays, hOut, hShort, rfl⟩
  · exact ⟨s', by simp [hStays], hSame⟩
  · rcases hOuter with ⟨hOuter, rfl⟩ | ⟨name, around, outer, hOuter, rfl⟩
    · rw [hOuter] at hSame
      have hOuter' : s'.outer = [] := List.map_eq_nil_iff.mp hSame
      exact ⟨s', by simp [hStays, hOut, hOuter'], by rw [hOuter', hOuter]⟩
    · rw [hOuter] at hSame
      obtain ⟨entry, outer', hOuter', -, hRest⟩ := List.map_eq_cons_iff.mp hSame
      exact ⟨⟨some entry.2, outer'⟩, by simp [hStays, hOut, hOuter'], hRest⟩
  · exact ⟨⟨inside.lookup part, (part, .folder inside) :: s'.outer⟩, by simp [hStays, hOut, hShort],
      by simp [hSame]⟩

theorem follow_keeps {d d' : Disk} {parts : List String} {s s' t : Spot} (hReached : Reached d s)
    (hReached' : Reached d' s') (hKeeps : d.KeepsFolders d')
    (hSame : s'.outer.map Prod.fst = s.outer.map Prod.fst) (hFollow : s.follow parts = .ok t) :
    ∃ t', s'.follow parts = .ok t' ∧ t'.outer.map Prod.fst = t.outer.map Prod.fst := by
  induction parts generalizing s s' with
  | nil =>
    cases hFollow
    exact ⟨s', rfl, hSame⟩
  | cons part parts ih =>
    rw [follow] at hFollow
    cases hNext : s.next part with
    | error e =>
      rw [hNext] at hFollow
      cases hFollow
    | ok u =>
      rw [hNext] at hFollow
      obtain ⟨u', hNext', hSame'⟩ := next_keeps hReached hReached' hKeeps hSame hNext
      rw [follow, hNext']
      exact ih (hReached.next hNext) (hReached'.next hNext') hSame' hFollow

theorem Reached.follow {d : Disk} {parts : List String} {s t : Spot} (h : Reached d s)
    (hFollow : s.follow parts = .ok t) : Reached d t := by
  induction parts generalizing s with
  | nil =>
    cases hFollow
    exact h
  | cons part parts ih =>
    rw [Spot.follow] at hFollow
    cases hNext : s.next part with
    | error e =>
      rw [hNext] at hFollow
      cases hFollow
    | ok u =>
      rw [hNext] at hFollow
      exact ih (h.next hNext) hFollow

theorem follow_concat {parts : List String} {part : String} {s t : Spot}
    (h : s.follow (parts ++ [part]) = .ok t) :
    ∃ u, s.follow parts = .ok u ∧ u.next part = .ok t := by
  induction parts generalizing s with
  | nil =>
    rw [List.nil_append, follow] at h
    cases hNext : s.next part with
    | error e =>
      rw [hNext] at h
      cases h
    | ok u =>
      rw [hNext] at h
      cases h
      exact ⟨s, rfl, hNext⟩
  | cons other parts ih =>
    rw [List.cons_append, follow] at h
    cases hNext : s.next other with
    | error e =>
      rw [hNext] at h
      cases h
    | ok u =>
      rw [hNext] at h
      rw [follow, hNext]
      exact ih h

end Spot

namespace Disk

theorem walk_reached {d : Disk} {parts : List String} {s : Spot} (h : d.walk parts = .ok s) :
    Spot.Reached d s :=
  Spot.Reached.root.follow h

def Leads (d : Disk) (p : Path) (place : Place) : Prop :=
  ∃ s, d.locate p = .ok s ∧ s.place = place

theorem locate_eq_ok {d : Disk} {p : Path} {s : Spot} (h : d.locate p = .ok s) :
    p.isUsable = true ∧ d.walk p.parts = .ok s := by
  unfold locate at h
  split at h
  next hUsable => exact ⟨hUsable, h⟩
  next => cases h

theorem locate_here {d : Disk} {p : Path} {s : Spot} (h : d.locate p = .ok s) :
    s.here = d.at? s.place :=
  (walk_reached (locate_eq_ok h).2).here_eq

/-- A path leads to where it led before, as long as folders stay folders. -/
theorem Leads.keeps {d d' : Disk} {p : Path} {place : Place} (h : d.Leads p place)
    (hKeeps : d.KeepsFolders d') : d'.Leads p place := by
  obtain ⟨s, hs, rfl⟩ := h
  obtain ⟨hUsable, hWalk⟩ := locate_eq_ok hs
  have hStart : Spot.Reached d' _ := .root
  obtain ⟨s', hs', hSame⟩ := Spot.follow_keeps .root hStart hKeeps rfl hWalk
  refine ⟨s', ?_, ?_⟩
  · rw [locate, if_pos hUsable]
    exact hs'
  · rw [Spot.place, hSame, Spot.place]

theorem find_eq_ok_iff {d : Disk} {p : Path} {place : Place} {bytes : List UInt8} :
    d.find p = .ok (place, bytes) ↔ d.Leads p place ∧ d.at? place = some (.file bytes) := by
  unfold find Leads
  cases hLocate : d.locate p with
  | error e => simp
  | ok s =>
    have hHere := locate_here hLocate
    cases hStands : s.here with
    | none =>
      rw [hStands] at hHere
      simp only [Except.ok.injEq, exists_eq_left', hStands]
      constructor
      · intro h
        cases h
      · rintro ⟨rfl, h⟩
        rw [← hHere] at h
        cases h
    | some item =>
      rw [hStands] at hHere
      cases item with
      | folder entries =>
        simp only [Except.ok.injEq, exists_eq_left', hStands]
        constructor
        · intro h
          cases h
        · rintro ⟨rfl, h⟩
          rw [← hHere] at h
          cases h
      | file old =>
        simp only [Except.ok.injEq, exists_eq_left', hStands, Prod.mk.injEq]
        constructor
        · rintro ⟨rfl, rfl⟩
          exact ⟨rfl, hHere.symm⟩
        · rintro ⟨rfl, h⟩
          rw [← hHere] at h
          cases h
          exact ⟨rfl, rfl⟩

theorem read_eq_ok_iff {d : Disk} {p : Path} {bytes : List UInt8} :
    d.read p = .ok bytes ↔ ∃ place, d.Leads p place ∧ d.at? place = some (.file bytes) := by
  unfold read
  constructor
  · intro h
    cases hFind : d.find p with
    | error e =>
      rw [hFind] at h
      cases h
    | ok found =>
      rw [hFind] at h
      cases h
      exact ⟨found.1, find_eq_ok_iff.mp hFind⟩
  · rintro ⟨place, hPlace⟩
    rw [find_eq_ok_iff.mpr hPlace]
    rfl

theorem filePlace_eq_ok {d : Disk} {p : Path} {place : Place} (h : d.filePlace p = .ok place) :
    d.Leads p place ∧ ∀ inside, d.at? place ≠ some (.folder inside) := by
  unfold filePlace at h
  split at h
  · cases h
  · split at h
    · cases h
    next s hLocate =>
      have hHere := locate_here hLocate
      split at h
      · cases h
      next hNoFolder =>
        cases h
        exact ⟨⟨s, hLocate, rfl⟩, fun inside hInside => hNoFolder inside (hHere.trans hInside)⟩

/-- A path that ends with a name leads into the folder that the rest of it leads to. -/
theorem Leads.eq_concat {d : Disk} {base : List String} {name : String} {place : Place}
    (h : d.Leads ⟨base ++ [name]⟩ place) (hStays : Path.staysThere name = false)
    (hOut : Path.leadsOut name = false) :
    ∃ s, d.walk base = .ok s ∧ place = s.place ++ [name] := by
  obtain ⟨t, ht, rfl⟩ := h
  obtain ⟨s, hs, hNext⟩ := Spot.follow_concat (locate_eq_ok ht).2
  refine ⟨s, hs, ?_⟩
  obtain ⟨entries, hHere, ⟨hStays', -⟩ | ⟨-, hOut', -⟩ | ⟨-, -, -, rfl⟩⟩ := Spot.next_cases hNext
  · rw [hStays] at hStays'
    cases hStays'
  · rw [hOut] at hOut'
    cases hOut'
  · simp [Spot.place]

end Disk

end ChainFeed
