import ChainFeed.Disk.Path

/-! # The disk

A tree of folders and files. A path is followed part by part, and each part is looked up in a folder: so
a path through something that is missing or no folder leads nowhere, even if it comes back out again.
-/

set_option autoImplicit false

namespace ChainFeed

/-- What stands under a name: a file with its bytes, or a folder with what is inside it. -/
inductive Item where
  | file (bytes : List UInt8)
  | folder (entries : List (String × Item))
  deriving Repr, BEq

/-- Where something stands: the names from the root down. -/
abbrev Place := List String

namespace Item

/-- What is inside; nothing is inside a file. -/
def entries : Item → List (String × Item)
  | file _ => []
  | folder entries => entries

theorem entries_folder (entries : List (String × Item)) : (folder entries).entries = entries := rfl

/-- The entries with `item` under `name`. -/
def setEntry (name : String) (item : Item) : List (String × Item) → List (String × Item)
  | [] => [(name, item)]
  | entry :: rest =>
    if name == entry.1 then (name, item) :: rest else entry :: setEntry name item rest

theorem lookup_setEntry_self (name : String) (item : Item) (entries : List (String × Item)) :
    (setEntry name item entries).lookup name = some item := by
  induction entries with
  | nil => simp [setEntry]
  | cons entry rest ih =>
    rw [setEntry]
    split
    next => simp
    next other =>
      obtain ⟨key, old⟩ := entry
      rw [Bool.not_eq_true] at other
      rw [List.lookup_cons, other]
      exact ih

theorem lookup_setEntry_of_ne {name other : String} (item : Item) (entries : List (String × Item))
    (h : other ≠ name) : (setEntry name item entries).lookup other = entries.lookup other := by
  have differs : (other == name) = false := beq_false_of_ne h
  induction entries with
  | nil => rw [setEntry, List.lookup_cons, differs]
  | cons entry rest ih =>
    obtain ⟨key, old⟩ := entry
    rw [setEntry]
    split
    next same =>
      cases eq_of_beq same
      rw [List.lookup_cons, List.lookup_cons, differs]
    next => rw [List.lookup_cons, List.lookup_cons, ih]

/-- What stands at a place inside. -/
def at? : Item → Place → Option Item
  | item, [] => some item
  | item, name :: rest =>
    match item.entries.lookup name with
    | some inner => inner.at? rest
    | none => none

/-- The item with `new` at a place inside. What is missing on the way there becomes a folder. -/
def put (new : Item) : Place → Item → Item
  | [], _ => new
  | name :: rest, item =>
    let inner := (item.entries.lookup name).getD (folder [])
    folder (setEntry name (put new rest inner) item.entries)

/-- The item without what stands at a place inside. -/
def erase : Place → Item → Item
  | [], item => item
  | [name], item =>
    match item with
    | file bytes => file bytes
    | folder entries => folder (entries.filter fun entry => entry.1 ≠ name)
  | name :: rest, item =>
    match item.entries.lookup name with
    | some inner => folder (setEntry name (erase rest inner) item.entries)
    | none => item

theorem at?_put_self (new : Item) (p : Place) (item : Item) : (put new p item).at? p = some new := by
  induction p generalizing item with
  | nil => rfl
  | cons name rest ih => simp only [put, at?, entries_folder, lookup_setEntry_self, ih]

/-- Nothing changes at a place that is neither above nor below the one where something is put. -/
theorem at?_put_of_apart (new : Item) {p q : Place} (item : Item) (above : ¬ q <+: p)
    (below : ¬ p <+: q) : (put new p item).at? q = item.at? q := by
  induction p generalizing q item with
  | nil => exact absurd List.nil_prefix below
  | cons name rest ih =>
    cases q with
    | nil => exact absurd List.nil_prefix above
    | cons other more =>
      by_cases same : other = name
      · subst same
        rw [List.cons_prefix_cons, not_and] at above below
        simp only [put, at?, entries_folder, lookup_setEntry_self]
        rw [ih _ (above rfl) (below rfl)]
        cases item.entries.lookup other with
        | some inner => rfl
        | none =>
          cases more with
          | nil => exact absurd List.nil_prefix (above rfl)
          | cons next further => rfl
      · simp only [put, at?, entries_folder, lookup_setEntry_of_ne _ _ same]

end Item

/-- The disk is what is inside its root folder. -/
structure Disk where
  entries : List (String × Item)
  deriving Repr, BEq

inductive DiskError where
  | notFound
  | notFolder
  | isFolder
  | badName
  | refused
  deriving DecidableEq, Repr

def DiskError.message : DiskError → String
  | notFound => "no such file or folder"
  | notFolder => "not a folder"
  | isFolder => "is a folder"
  | badName => "not a usable name"
  | refused => "refused by the device"

/-- Where a walk through folders stands. `outer` holds the folders it came through, nearest first, each
with the name that was taken in it. -/
structure Spot where
  here : Option Item
  outer : List (String × Item)

namespace Spot

def place (s : Spot) : Place :=
  (s.outer.map Prod.fst).reverse

/-- The spot that one part leads to. There need not be anything at it. -/
def next (s : Spot) (part : String) : Except DiskError Spot :=
  match s.here with
  | none => .error .notFound
  | some (.file _) => .error .notFolder
  | some (.folder entries) =>
    if Path.staysThere part then .ok s
    else if Path.leadsOut part then
      match s.outer with
      | [] => .ok s
      | (_, around) :: outer => .ok ⟨some around, outer⟩
    else if Path.nameLimit < part.utf8ByteSize then .error .badName
    else .ok ⟨entries.lookup part, (part, .folder entries) :: s.outer⟩

def follow (s : Spot) : List String → Except DiskError Spot
  | [] => .ok s
  | part :: rest =>
    match s.next part with
    | .error e => .error e
    | .ok s => s.follow rest

end Spot

namespace Disk

def empty : Disk := ⟨[]⟩

def root (d : Disk) : Item := .folder d.entries

/-- What stands at a place. -/
def at? (d : Disk) (p : Place) : Option Item := d.root.at? p

def put (d : Disk) (p : Place) (item : Item) : Disk :=
  ⟨(Item.put item p d.root).entries⟩

def erase (d : Disk) (p : Place) : Disk :=
  ⟨(Item.erase p d.root).entries⟩

/-- The spot that parts of a path lead to from the root. -/
def walk (d : Disk) (parts : List String) : Except DiskError Spot :=
  Spot.follow ⟨some d.root, []⟩ parts

def locate (d : Disk) (p : Path) : Except DiskError Spot :=
  if p.isUsable then d.walk p.parts else .error .badName

/-- Make the folder `p` in a folder that is there, unless it is there as well. -/
def makeFolder (d : Disk) (p : Path) : Except DiskError Disk :=
  if p.isUsable then
    match d.walk (Path.withoutEndSlashes p.parts) with
    | .error e => .error e
    | .ok spot =>
      match spot.here with
      | some (.folder _) => .ok d
      | some (.file _) => .error .notFolder
      | none => .ok (d.put spot.place (.folder []))
  else .error .badName

/-- Where a file may be put under the path `p`: no folder may stand there. -/
def filePlace (d : Disk) (p : Path) : Except DiskError Place :=
  match p.fileName? with
  | none => .error .isFolder
  | some _ =>
    match d.locate p with
    | .error e => .error e
    | .ok spot =>
      match spot.here with
      | some (.folder _) => .error .isFolder
      | _ => .ok spot.place

/-- The file at `p`: its place and what it holds. -/
def find (d : Disk) (p : Path) : Except DiskError (Place × List UInt8) :=
  match d.locate p with
  | .error e => .error e
  | .ok spot =>
    match spot.here with
    | some (.file bytes) => .ok (spot.place, bytes)
    | some (.folder _) => .error .isFolder
    | none => .error .notFound

def read (d : Disk) (p : Path) : Except DiskError (List UInt8) :=
  (d.find p).map Prod.snd

/-- Put an empty file at `p`, in place of a file that is there. -/
def create (d : Disk) (p : Path) : Except DiskError Disk :=
  (d.filePlace p).map fun place => d.put place (.file [])

def append (d : Disk) (p : Path) (bytes : List UInt8) : Except DiskError Disk :=
  (d.find p).map fun (place, old) => d.put place (.file (old ++ bytes))

def sync (d : Disk) (p : Path) : Except DiskError Disk :=
  (d.find p).map fun _ => d

/-- Move the file at `p` to `q` in one go, in place of a file that is there. -/
def rename (d : Disk) (p q : Path) : Except DiskError Disk :=
  match d.find p, d.filePlace q with
  | .error e, _ => .error e
  | .ok _, .error e => .error e
  | .ok (source, bytes), .ok target => .ok ((d.erase source).put target (.file bytes))

def remove (d : Disk) (p : Path) : Except DiskError Disk :=
  (d.find p).map fun (place, _) => d.erase place

/-- The names in the folder `p`, sorted, as a listing of what runs have left there shows them. -/
def names (d : Disk) (p : Path) : Except DiskError (List String) :=
  match d.locate p with
  | .error e => .error e
  | .ok spot =>
    match spot.here with
    | none => .error .notFound
    | some (.file _) => .error .notFolder
    | some (.folder entries) =>
      .ok ((entries.map Prod.fst).mergeSort fun a b => decide (a ≤ b))

end Disk

end ChainFeed
