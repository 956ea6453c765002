import ChainFeed.Disk.Device
import ChainFeed.Proofs.Disk.Walk

/-! # Where paths lead

Nothing on the disk links to something else, so the parts of a path alone tell the place that it can lead to.
Making the folders of a path opens the way there. What stands at the end of it was there before, where the
path leads out of no folder that has to be made first.
-/

set_option autoImplicit false

namespace ChainFeed

namespace Path

def turn (p : Place) (part : String) : Place :=
  if staysThere part then p else if leadsOut part then p.dropLast else p ++ [part]

/-- Where the parts lead from the root, if they lead anywhere. -/
def place (parts : List String) : Place :=
  parts.foldl turn []

theorem place_concat (parts : List String) (part : String) : place (parts ++ [part]) = turn (place parts) part := by
  simp [place]

theorem place_concat_name (parts : List String) {name : String} (hStays : staysThere name = false)
    (hOut : leadsOut name = false) : place (parts ++ [name]) = place parts ++ [name] := by
  rw [place_concat, turn, hStays, hOut]
  rfl

/-- All names in a folder are joined to the same parts of its path. -/
theorem exists_base (dir : Path) :
    ∃ base, base <+: dir.parts ∧ place base = place dir.parts ∧ ∀ name, dir.join name = ⟨base ++ [name]⟩ := by
  cases hLast : dir.parts.getLast? with
  | none => exact ⟨dir.parts, List.prefix_refl _, rfl, fun name => by simp only [join, hLast]⟩
  | some last =>
    by_cases hSlash : last = ""
    · subst hSlash
      obtain ⟨base, hParts⟩ := List.getLast?_eq_some_iff.mp hLast
      refine ⟨base, ⟨[""], hParts.symm⟩, ?_, fun name => ?_⟩
      · rw [hParts, place_concat, turn]
        rfl
      · simp [join, hParts]
    · refine ⟨dir.parts, List.prefix_refl _, rfl, fun name => ?_⟩
      unfold join
      split
      next hEmpty => exact absurd (Option.some.inj (hLast.symm.trans hEmpty)) hSlash
      next => rfl

theorem isPrefix_of_mem_leading {done rest : List String} {p : Path} (h : p ∈ leading done rest) :
    p.parts <+: done ++ rest := by
  induction rest generalizing done with
  | nil => cases h
  | cons part rest ih =>
    rw [List.append_cons]
    rw [leading] at h
    split at h
    · exact ih h
    · obtain rfl | h := List.mem_cons.mp h
      · exact List.prefix_append _ _
      · exact ih h

/-- The folders made for a path are named by the parts that it begins with. -/
theorem isPrefix_of_mem_foldersTo {p dir : Path} (h : p ∈ dir.foldersTo) :
    withoutEndSlashes p.parts <+: dir.parts := by
  have hPart : p.parts <+: dir.parts := by
    unfold foldersTo at h
    split at h
    · obtain h | h := List.mem_append.mp h
      · exact isPrefix_of_mem_leading (List.mem_of_mem_dropLast h)
      · rw [List.mem_singleton.mp h]
    · rw [List.mem_singleton.mp h]
  have hEnd : withoutEndSlashes p.parts <+: p.parts := by
    rw [withoutEndSlashes, ← List.reverse_suffix, List.reverse_reverse]
    exact List.dropWhile_suffix _
  exact hEnd.trans hPart

end Path

namespace Item

theorem folder_of_at?_append {item inner : Item} {p rest : Place} (hRest : rest ≠ [])
    (h : item.at? (p ++ rest) = some inner) : ∃ inside, item.at? p = some (.folder inside) := by
  obtain ⟨name, rest, rfl⟩ := List.exists_cons_of_ne_nil hRest
  rw [at?_append] at h
  cases hOuter : item.at? p with
  | none =>
    rw [hOuter] at h
    cases h
  | some outer =>
    cases outer with
    | folder inside => exact ⟨inside, rfl⟩
    | file bytes =>
      rw [hOuter] at h
      cases h

theorem at?_erase_self {p : Place} (hPlace : p ≠ []) (item : Item) : (erase p item).at? p = none := by
  induction p generalizing item with
  | nil => exact absurd rfl hPlace
  | cons name rest ih =>
    cases rest with
    | nil =>
      cases item with
      | file bytes => rfl
      | folder entries =>
        have hGone : (entries.filter fun entry => entry.1 ≠ name).lookup name = none := by
          rw [List.lookup_eq_none_iff]
          intro entry hEntry
          obtain ⟨-, hOther⟩ := List.mem_filter.mp hEntry
          have hName : entry.1 ≠ name := by simpa using hOther
          exact bne_iff_ne.mpr hName.symm
        simp only [erase, at?, entries_folder, hGone]
    | cons next rest =>
      simp only [erase]
      cases hInner : item.entries.lookup name with
      | none => simp only [at?, hInner]
      | some inner =>
        simp only [at?, entries_folder, lookup_setEntry_self]
        exact ih (List.cons_ne_nil next rest) inner

end Item

namespace Spot

theorem next_place {s t : Spot} {part : String} (h : s.next part = .ok t) : t.place = Path.turn s.place part := by
  obtain ⟨entries, -, ⟨hStays, rfl⟩ | ⟨hStays, hOut, hOuter⟩ | ⟨hStays, hOut, -, rfl⟩⟩ := next_cases h
  · simp [Path.turn, hStays]
  · obtain ⟨hOuter, rfl⟩ | ⟨name, around, outer, hOuter, rfl⟩ := hOuter
    · simp [Path.turn, hStays, hOut, place, hOuter]
    · simp [Path.turn, hStays, hOut, place, hOuter]
  · simp [Path.turn, hStays, hOut, place]

theorem follow_append {s t : Spot} {parts more : List String} (h : s.follow (parts ++ more) = .ok t) :
    ∃ u, s.follow parts = .ok u ∧ u.follow more = .ok t := by
  induction parts generalizing s with
  | nil => exact ⟨s, rfl, h⟩
  | cons part parts ih =>
    rw [List.cons_append, follow] at h
    cases hNext : s.next part with
    | error e =>
      rw [hNext] at h
      cases h
    | ok u =>
      rw [hNext] at h
      rw [follow, hNext]
      exact ih h

theorem follow_concat_eq {s t : Spot} {parts : List String} (h : s.follow parts = .ok t) (part : String) :
    s.follow (parts ++ [part]) = t.next part := by
  induction parts generalizing s with
  | nil =>
    cases h
    rw [List.nil_append, follow]
    cases t.next part <;> rfl
  | cons other parts ih =>
    rw [follow] at h
    rw [List.cons_append, follow]
    cases hNext : s.next other with
    | error e =>
      rw [hNext] at h
      cases h
    | ok u =>
      rw [hNext] at h
      exact ih h

/-- A part that leads on from somewhere leads on from every folder. -/
theorem exists_next {s u v : Spot} {part : String} {inside : List (String × Item)} (h : u.next part = .ok v)
    (hHere : s.here = some (.folder inside)) : ∃ t, s.next part = .ok t := by
  unfold next
  rw [hHere]
  obtain ⟨-, -, ⟨hStays, -⟩ | ⟨hStays, hOut, -⟩ | ⟨hStays, hOut, hShort, -⟩⟩ := next_cases h
  · simp [hStays]
  · simp only [hStays, hOut, Bool.false_eq_true, if_false, if_true]
    split <;> exact ⟨_, rfl⟩
  · simp [hStays, hOut, hShort]

end Spot

namespace Disk

variable {d d' : Disk} {p dir : Path}

theorem walk_place {parts : List String} {s : Spot} (h : d.walk parts = .ok s) : s.place = Path.place parts := by
  induction parts using List.reverseRecOn generalizing s with
  | nil =>
    cases h
    rfl
  | append_singleton parts part ih =>
    obtain ⟨u, hWalk, hNext⟩ := Spot.follow_concat h
    rw [Spot.next_place hNext, ih hWalk, Path.place_concat]

theorem Leads.eq_place {q : Place} (h : d.Leads p q) : q = Path.place p.parts := by
  obtain ⟨s, hs, rfl⟩ := h
  exact walk_place (locate_eq_ok hs).2

theorem Leads.folder_of_isPrefix {q r : Place} (h : d.Leads p q) (hPrefix : r <+: q) (hProper : r ≠ q) :
    ∃ inside, d.at? r = some (.folder inside) := by
  obtain ⟨s, hs, rfl⟩ := h
  exact (walk_reached (locate_eq_ok hs).2).folder_of_isPrefix hPrefix hProper

theorem create_eq_ok (h : d.create p = .ok d') : ∃ q, d.filePlace p = .ok q ∧ d' = d.put q (.file []) := by
  unfold create at h
  cases hPlace : d.filePlace p with
  | error e =>
    rw [hPlace] at h
    cases h
  | ok q =>
    rw [hPlace] at h
    cases h
    exact ⟨q, rfl, rfl⟩

theorem append_eq_ok {bytes : List UInt8} (h : d.append p bytes = .ok d') :
    ∃ q old, d.find p = .ok (q, old) ∧ d' = d.put q (.file (old ++ bytes)) := by
  unfold append at h
  cases hFind : d.find p with
  | error e =>
    rw [hFind] at h
    cases h
  | ok found =>
    rw [hFind] at h
    cases h
    exact ⟨found.1, found.2, rfl, rfl⟩

theorem remove_eq_ok (h : d.remove p = .ok d') : ∃ q bytes, d.find p = .ok (q, bytes) ∧ d' = d.erase q := by
  unfold remove at h
  cases hFind : d.find p with
  | error e =>
    rw [hFind] at h
    cases h
  | ok found =>
    rw [hFind] at h
    cases h
    exact ⟨found.1, found.2, rfl, rfl⟩

theorem rename_eq_ok {target : Path} (h : d.rename p target = .ok d') :
    ∃ q bytes r, d.find p = .ok (q, bytes) ∧ d.filePlace target = .ok r ∧
      d' = (d.erase q).put r (.file bytes) := by
  unfold rename at h
  cases hFind : d.find p with
  | error e =>
    rw [hFind] at h
    cases h
  | ok found =>
    cases hPlace : d.filePlace target with
    | error e =>
      rw [hFind, hPlace] at h
      cases h
    | ok r =>
      rw [hFind, hPlace] at h
      cases h
      exact ⟨found.1, found.2, r, rfl, rfl, rfl⟩

/-! ## What stands under a path -/

/-- What stands under the path. Nothing does if it leads nowhere. -/
def item? (d : Disk) (p : Path) : Option Item :=
  match d.locate p with
  | .ok s => s.here
  | .error _ => none

theorem item?_of_leads {q : Place} (h : d.Leads p q) : d.item? p = d.at? q := by
  obtain ⟨s, hs, rfl⟩ := h
  rw [item?, hs]
  exact locate_here hs

theorem item?_of_not_leads (h : ∀ q, ¬ d.Leads p q) : d.item? p = none := by
  unfold item?
  split
  next s hs => exact absurd ⟨s, hs, rfl⟩ (h s.place)
  next => rfl

theorem read_eq_ok_iff_item? {bytes : List UInt8} : d.read p = .ok bytes ↔ d.item? p = some (.file bytes) := by
  rw [read_eq_ok_iff]
  constructor
  · rintro ⟨q, hLeads, hFile⟩
    rw [item?_of_leads hLeads, hFile]
  · intro h
    by_cases hLeads : ∃ q, d.Leads p q
    · obtain ⟨q, hLeads⟩ := hLeads
      exact ⟨q, hLeads, by rw [← item?_of_leads hLeads, h]⟩
    · rw [item?_of_not_leads fun q hq => hLeads ⟨q, hq⟩] at h
      cases h

/-- Where two disks have the same folders, a path leads to the same place on both. -/
theorem item?_eq_of_keepsFolders (hKeeps : d.KeepsFolders d') (hBack : d'.KeepsFolders d)
    (hSame : ∀ q, d.Leads p q → d'.at? q = d.at? q) : d'.item? p = d.item? p := by
  by_cases hLeads : ∃ q, d.Leads p q
  · obtain ⟨q, hLeads⟩ := hLeads
    rw [item?_of_leads hLeads, item?_of_leads (hLeads.keeps hKeeps), hSame q hLeads]
  · rw [item?_of_not_leads fun q hq => hLeads ⟨q, hq⟩,
      item?_of_not_leads fun q hq => hLeads ⟨q, hq.keeps hBack⟩]

theorem Leads.keepsFolders_of_put {q : Place} (h : d.Leads p q) (hPlace : q ≠ []) (bytes : List UInt8) :
    (d.put q (.file bytes)).KeepsFolders d := by
  intro r entries hFolder
  rw [at?_put d hPlace] at hFolder
  by_cases hBelow : q <+: r
  · obtain ⟨rest, rfl⟩ := hBelow
    rw [Item.at?_append, Item.at?_put_self, Option.bind_some] at hFolder
    cases rest <;> cases hFolder
  by_cases hAbove : r <+: q
  · exact h.folder_of_isPrefix hAbove fun hSame => hBelow (hSame ▸ List.prefix_refl r)
  · rw [Item.at?_put_of_apart _ _ hAbove hBelow] at hFolder
    exact ⟨entries, hFolder⟩

theorem Leads.keepsFolders_of_erase {q : Place} (h : d.Leads p q) (hPlace : q ≠ []) :
    (d.erase q).KeepsFolders d := by
  intro r entries hFolder
  rw [at?_erase] at hFolder
  by_cases hBelow : q <+: r
  · obtain ⟨rest, rfl⟩ := hBelow
    rw [Item.at?_append, Item.at?_erase_self hPlace] at hFolder
    cases hFolder
  by_cases hAbove : r <+: q
  · exact h.folder_of_isPrefix hAbove fun hSame => hBelow (hSame ▸ List.prefix_refl r)
  · rw [Item.at?_erase_of_apart _ hAbove hBelow] at hFolder
    exact ⟨entries, hFolder⟩

/-! ## Making the folders of a path -/

/-- A folder is there already, or is made where nothing was, inside of folders only. -/
theorem makeFolder_cases (h : d.makeFolder p = .ok d') :
    d' = d ∨ ∃ q, q = Path.place (Path.withoutEndSlashes p.parts) ∧ d.at? q = none ∧ q ≠ [] ∧
      (∀ r, r <+: q → r ≠ q → ∃ inside, d.at? r = some (.folder inside)) ∧ d' = d.put q (.folder []) := by
  unfold makeFolder at h
  split at h
  · split at h
    · cases h
    next s hWalk =>
      have hReached := walk_reached hWalk
      split at h
      · cases h
        exact .inl rfl
      · cases h
      next hNothing =>
        cases h
        have hAbsent : d.at? s.place = none := by rw [← hReached.here_eq, hNothing]
        refine .inr ⟨s.place, walk_place hWalk, hAbsent, ?_, fun r hr => hReached.folder_of_isPrefix hr, rfl⟩
        intro hRoot
        rw [hRoot] at hAbsent
        cases hAbsent
  · cases h

/-- The path leads out of no folder that is not there. -/
def Grounds (d : Disk) (p : Path) : Prop :=
  ∀ before, before ++ [".."] <+: p.parts → ∃ inside, d.at? (Path.place before) = some (.folder inside)

/-- A path does not come out again of where no folder is. -/
theorem Grounds.place_isPrefix {before more : List String} (h : d.Grounds p) (hWay : before ++ more <+: p.parts)
    (hNone : ∀ inside, d.at? (Path.place before) ≠ some (.folder inside)) :
    Path.place before <+: Path.place (before ++ more) := by
  induction more using List.reverseRecOn with
  | nil => rw [List.append_nil]
  | append_singleton more part ih =>
    rw [← List.append_assoc] at hWay ⊢
    have hBefore := ih ((List.prefix_append _ _).trans hWay)
    rw [Path.place_concat, Path.turn]
    split
    · exact hBefore
    split
    next hOut =>
      have hPart : part = ".." := by simpa [Path.leadsOut] using hOut
      subst hPart
      obtain ⟨inside, hFolder⟩ := h _ hWay
      have hProper : Path.place before ≠ Path.place (before ++ more) := by
        intro hSame
        rw [← hSame] at hFolder
        exact hNone inside hFolder
      obtain ⟨rest, hRest⟩ := hBefore
      obtain hNil | ⟨rest, last, rfl⟩ := List.eq_nil_or_concat rest
      · rw [hNil, List.append_nil] at hRest
        exact absurd hRest hProper
      · rw [← hRest, List.concat_eq_append, ← List.append_assoc, List.dropLast_concat]
        exact List.prefix_append _ _
    next => exact hBefore.trans (List.prefix_append _ _)

/-- Nothing but folders of the path `dir` was made. -/
structure Opened (dir : Path) (d d' : Disk) : Prop where
  keeps : d.KeepsFolders d'
  files : ∀ q bytes, d'.at? q = some (.file bytes) ↔ d.at? q = some (.file bytes)
  inside : d.Grounds dir → ∀ name, d'.at? (Path.place dir.parts ++ [name]) = d.at? (Path.place dir.parts ++ [name])

theorem opened_refl (dir : Path) (d : Disk) : Opened dir d d :=
  ⟨fun _ inside h => ⟨inside, h⟩, fun _ _ => Iff.rfl, fun _ _ => rfl⟩

theorem file_put_folder_iff {q r : Place} {bytes : List UInt8} (hAbsent : d.at? q = none) (hPlace : q ≠ [])
    (hOuter : ∀ r, r <+: q → r ≠ q → ∃ inside, d.at? r = some (.folder inside)) :
    (d.put q (.folder [])).at? r = some (.file bytes) ↔ d.at? r = some (.file bytes) := by
  have hFolder : ∀ inside, d.at? q ≠ some (.folder inside) := by simp [hAbsent]
  by_cases hBelow : q <+: r
  · obtain ⟨rest, rfl⟩ := hBelow
    rw [at?_put d hPlace, Item.at?_append, Item.at?_put_self, Disk.at?, Item.at?_append, ← Disk.at?, hAbsent]
    cases rest <;> simp [Item.at?, Item.entries_folder]
  by_cases hAbove : r <+: q
  · -- a folder stands there, before and after
    obtain ⟨inside, hBefore⟩ := hOuter r hAbove fun hSame => hBelow (hSame ▸ List.prefix_refl r)
    obtain ⟨inside', hAfter⟩ := keepsFolders_put hPlace hFolder (.folder []) r inside hBefore
    rw [hBefore, hAfter]
    simp
  · rw [at?_put d hPlace, Item.at?_put_of_apart _ _ hAbove hBelow, ← Disk.at?]

theorem Opened.makeFolder {made : Disk} (h : Opened dir d d') (hPart : Path.withoutEndSlashes p.parts <+: dir.parts)
    (hMake : d'.makeFolder p = .ok made) : Opened dir d made := by
  obtain rfl | ⟨q, hq, hAbsent, hPlace, hOuter, rfl⟩ := makeFolder_cases hMake
  · exact h
  have hFolder : ∀ inside, d'.at? q ≠ some (.folder inside) := by simp [hAbsent]
  refine ⟨h.keeps.trans (keepsFolders_put hPlace hFolder _), fun r bytes => ?_, fun hGrounds name => ?_⟩
  · rw [file_put_folder_iff hAbsent hPlace hOuter]
    exact h.files r bytes
  · rw [← h.inside hGrounds name]
    have hBefore : ∀ inside, d.at? q ≠ some (.folder inside) := by
      intro inside hInside
      obtain ⟨inside', hKept⟩ := h.keeps q inside hInside
      exact hFolder inside' hKept
    obtain ⟨more, hMore⟩ := hPart
    have hOnWay : q <+: Path.place dir.parts := by
      rw [hq] at hBefore ⊢
      rw [← hMore]
      exact hGrounds.place_isPrefix (hMore ▸ List.prefix_refl _) hBefore
    obtain ⟨rest, hRest⟩ := hOnWay
    have hNothing : d'.at? (q ++ (rest ++ [name])) = none := by
      rw [Disk.at?, Item.at?_append, ← Disk.at?, hAbsent, Option.bind_none]
    rw [← hRest, List.append_assoc, hNothing, at?_put d' hPlace, Item.at?_append, Item.at?_put_self]
    cases rest <;> rfl

/-- The way to a place where something stands leads through folders, as long as its names can be names. -/
theorem Grounds.folder_on_way {base : List String} {name : String} {t : Spot} {item : Item} (h : d.Grounds dir)
    (hBase : base <+: dir.parts) (hWalk : d'.walk base = .ok t)
    (hItem : d.at? (Path.place base ++ [name]) = some item) {before : List String} (hBefore : before <+: base) :
    ∃ s inside, d.walk before = .ok s ∧ s.here = some (.folder inside) := by
  induction before using List.reverseRecOn with
  | nil => exact ⟨_, _, rfl, rfl⟩
  | append_singleton before part ih =>
    obtain ⟨s, inside, hs, hHere⟩ := ih ((List.prefix_append _ _).trans hBefore)
    obtain ⟨more, hMore⟩ := hBefore
    obtain ⟨u, hu, hNext⟩ : ∃ u, d.walk (before ++ [part]) = .ok u ∧ s.next part = .ok u := by
      rw [← hMore] at hWalk
      obtain ⟨v, hThere, -⟩ := Spot.follow_append hWalk
      obtain ⟨w, -, hPart⟩ := Spot.follow_concat hThere
      obtain ⟨u, hNext⟩ := Spot.exists_next hPart hHere
      exact ⟨u, (Spot.follow_concat_eq hs part).trans hNext, hNext⟩
    refine ⟨u, ?_⟩
    by_contra hNone
    have hNoFolder : ∀ inside, d.at? (Path.place (before ++ [part])) ≠ some (.folder inside) := by
      intro inside hInside
      rw [← walk_place hu, ← (walk_reached hu).here_eq] at hInside
      exact hNone ⟨inside, hu, hInside⟩
    -- then the way stays inside of it, and nothing could stand at the end
    obtain ⟨rest, hRest⟩ := h.place_isPrefix (hMore ▸ hBase) hNoFolder
    rw [← hMore, ← hRest, List.append_assoc] at hItem
    obtain ⟨inside, hInside⟩ := Item.folder_of_at?_append (by simp) hItem
    exact hNoFolder inside hInside

/-- Where something stood at the end of a path that leads there now, the path led there before. -/
theorem Grounds.leads_back {name : String} {q : Place} {item : Item} (h : d.Grounds dir)
    (hLeads : d'.Leads (dir.join name) q) (hItem : d.at? (Path.place dir.parts ++ [name]) = some item) :
    ∃ q, d.Leads (dir.join name) q := by
  obtain ⟨base, hBase, hPlace, hJoin⟩ := dir.exists_base
  rw [hJoin] at hLeads ⊢
  obtain ⟨t, hLocate, -⟩ := hLeads
  obtain ⟨hUsable, hWalk⟩ := locate_eq_ok hLocate
  obtain ⟨u, hFolder, hName⟩ := Spot.follow_concat hWalk
  rw [← hPlace] at hItem
  obtain ⟨s, inside, hs, hHere⟩ := h.folder_on_way hBase hFolder hItem (List.prefix_refl base)
  obtain ⟨v, hNext⟩ := Spot.exists_next hName hHere
  refine ⟨v.place, v, ?_, rfl⟩
  rw [locate, if_pos hUsable]
  exact (Spot.follow_concat_eq hs name).trans hNext

/-- Making the folders on the way leaves what stands at the end of it. -/
theorem Opened.item?_join {name : String} (h : Opened dir d d') (hGrounds : d.Grounds dir)
    (hStays : Path.staysThere name = false) (hOut : Path.leadsOut name = false) :
    d'.item? (dir.join name) = d.item? (dir.join name) := by
  have hEnd : Path.place (dir.join name).parts = Path.place dir.parts ++ [name] := by
    obtain ⟨base, -, hPlace, hJoin⟩ := dir.exists_base
    rw [hJoin, Path.place_concat_name base hStays hOut, hPlace]
  have hSame := h.inside hGrounds name
  by_cases hLeads : ∃ q, d.Leads (dir.join name) q
  · obtain ⟨q, hLeads⟩ := hLeads
    obtain rfl := hLeads.eq_place
    rw [item?_of_leads hLeads, item?_of_leads (hLeads.keeps h.keeps), hEnd, hSame]
  · rw [item?_of_not_leads fun q hq => hLeads ⟨q, hq⟩]
    by_cases hNow : ∃ q, d'.Leads (dir.join name) q
    · obtain ⟨q, hNow⟩ := hNow
      obtain rfl := hNow.eq_place
      rw [item?_of_leads hNow, hEnd, hSame]
      cases hItem : d.at? (Path.place dir.parts ++ [name]) with
      | none => rfl
      | some item => exact absurd (hGrounds.leads_back hNow hItem) hLeads
    · exact item?_of_not_leads fun q hq => hNow ⟨q, hq⟩

end Disk

end ChainFeed
