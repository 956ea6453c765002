import ChainFeed.Checkpoint.Document
import ChainFeed.Disk.Device

/-! # Checkpoint files

A checkpoint is saved as the file `cursor.json` of a folder. It is written under another name first and
put in place by one rename, so that the file is always the old one or the new one.
-/

set_option autoImplicit false

namespace ChainFeed.Checkpoint

def fileName : String := "cursor.json"

def draftName : String := "cursor.json.tmp"

def path (dir : Path) : Path := dir.join fileName

def draftPath (dir : Path) : Path := dir.join draftName

def load (d : Disk) (dir : Path) : Except CheckpointError Checkpoint :=
  match d.read (path dir) with
  | .error cause => .error (.read (path dir) cause)
  | .ok bytes =>
    match ofBytes? bytes with
    | some c => .ok c
    | none => .error (.decode (path dir))

/-- How the file is written once its folder is there. -/
def writeSteps (device : Device) (dir : Path) (c : Checkpoint) : List DiskStep :=
  .create (draftPath dir) :: (device.parts c.bytes).map (.append (draftPath dir)) ++
    [.sync (draftPath dir), .rename (draftPath dir) (path dir)]

/-- `trail` holds the disk after each step, the last of them being `disk`. -/
structure Saving where
  outcome : Except CheckpointError Path
  trail : List Disk
  disk : Disk

/-- Save a checkpoint. A failed save leaves no draft behind. -/
def save (device : Device) (d : Disk) (dir : Path) (c : Checkpoint) : Saving :=
  let folders := DiskStep.makeFolders dir
  let made := device.perform 0 folders d
  match made.failure with
  | some cause => ⟨.error (.write dir cause), made.trail, made.disk⟩
  | none =>
    let written := device.perform folders.length (writeSteps device dir c) made.disk
    match written.failure with
    | none => ⟨.ok (path dir), made.trail ++ written.trail, written.disk⟩
    | some cause =>
      let cleared := match written.disk.remove (draftPath dir) with
        | .ok cleared => cleared
        | .error _ => written.disk
      ⟨.error (.write (path dir) cause), made.trail ++ written.trail ++ [cleared], cleared⟩

end ChainFeed.Checkpoint
