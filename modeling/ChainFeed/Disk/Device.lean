import ChainFeed.Disk.Basic

/-! # Changing the disk

Changes are made in steps, and a device may refuse any step or take what is written in several parts.
-/

set_option autoImplicit false

namespace ChainFeed

/-- One change of the disk. -/
inductive DiskStep where
  | makeFolder (p : Path)
  | create (p : Path)
  | append (p : Path) (bytes : List UInt8)
  | sync (p : Path)
  | rename (p q : Path)
  deriving DecidableEq, Repr

namespace DiskStep

def apply : DiskStep → Disk → Except DiskError Disk
  | makeFolder p, d => d.makeFolder p
  | create p, d => d.create p
  | append p bytes, d => d.append p bytes
  | sync p, d => d.sync p
  | rename p q, d => d.rename p q

/-- Make the folder `p` and all folders on the way to it. -/
def makeFolders (p : Path) : List DiskStep :=
  p.foldersTo.map makeFolder

end DiskStep

/-- How a device treats one series of steps: which it refuses, by position, and in what parts it
takes written bytes. -/
structure Device where
  refuses : Nat → Bool
  parts : List UInt8 → List (List UInt8)
  parts_flatten : ∀ bytes, (parts bytes).flatten = bytes

/-- What a series of steps came to: the disk after each step that was done, the disk it left, and the
error of the first step that was not done. -/
structure Performed where
  trail : List Disk
  disk : Disk
  failure : Option DiskError

namespace Device

/-- Refuses nothing and takes everything at once. -/
def sound : Device where
  refuses _ := false
  parts bytes := [bytes]
  parts_flatten := by simp

/-- Do the steps, counted from `n`, up to the first that fails. -/
def perform (device : Device) : Nat → List DiskStep → Disk → Performed
  | _, [], d => ⟨[], d, none⟩
  | n, step :: rest, d =>
    if device.refuses n then ⟨[], d, some .refused⟩
    else
      match step.apply d with
      | .error e => ⟨[], d, some e⟩
      | .ok d =>
        let more := device.perform (n + 1) rest d
        { more with trail := d :: more.trail }

end Device

end ChainFeed
