import ChainFeed.Checkpoint.Basic
import ChainFeed.Json.Value
import ChainFeed.Json.Writer
import ChainFeed.Text.Utf8

/-! # The checkpoint document

A checkpoint is written as one line of JSON. It is read back from any JSON document with the same
content: records may hold further fields, may be written as lists of their fields in order, and the
list of blocks may be left out.
-/

set_option autoImplicit false

namespace ChainFeed

open Json

namespace StoredRef

def write (s : StoredRef) : List Char :=
  writeRecord [("id", writeText s.id), ("num", writeNum s.num), ("previous_ref_id", writeText s.previousId)]

def document (s : StoredRef) : String := String.ofList s.write

end StoredRef

namespace Json

/-- A record's field: it may stand there once or not at all. -/
def field? (name : String) (fields : List (Option String × Value)) : Option (Option Value) :=
  match fields.filter fun f => f.1 = some name with
  | [] => some none
  | [f] => some (some f.2)
  | _ => none

def keysReadable (fields : List (Option String × Value)) : Bool :=
  fields.all fun f => f.1.isSome

end Json

namespace StoredRef

def ofParts? : Value → Value → Value → Option StoredRef
  | .text (some id), .number (some n), .text (some previous) =>
    if n < UInt64.size then some ⟨id, n.toUInt64, previous⟩ else none
  | _, _, _ => none

def ofValue? : Value → Option StoredRef
  | .list [id, num, previous] => ofParts? id num previous
  | .record fields =>
    if keysReadable fields then
      match field? "id" fields, field? "num" fields, field? "previous_ref_id" fields with
      | some (some id), some (some num), some (some previous) => ofParts? id num previous
      | _, _, _ => none
    else none
  | _ => none

end StoredRef

namespace Checkpoint

def write (c : Checkpoint) : List Char :=
  writeRecord [
    ("Lib", c.lib.write),
    ("LastFiredBlock", c.lastFired.write),
    ("Blocks", writeList (c.blocks.map StoredRef.write))]

def document (c : Checkpoint) : String := String.ofList c.write

/-- The content of a checkpoint file. -/
def bytes (c : Checkpoint) : List UInt8 :=
  Text.utf8 (c.write ++ ['\n'])

def blocks? : Value → Option (List StoredRef)
  | .list items => items.mapM StoredRef.ofValue?
  | _ => none

def ofParts? (lib lastFired : Value) (blocks : Option Value) : Option Checkpoint :=
  match StoredRef.ofValue? lib, StoredRef.ofValue? lastFired, blocks.elim (some []) blocks? with
  | some lib, some lastFired, some blocks => some ⟨lib, lastFired, blocks⟩
  | _, _, _ => none

def ofValue? : Value → Option Checkpoint
  | .list [lib, lastFired] => ofParts? lib lastFired none
  | .list [lib, lastFired, blocks] => ofParts? lib lastFired (some blocks)
  | .record fields =>
    if keysReadable fields then
      match field? "Lib" fields, field? "LastFiredBlock" fields, field? "Blocks" fields with
      | some (some lib), some (some lastFired), some blocks => ofParts? lib lastFired blocks
      | _, _, _ => none
    else none
  | _ => none

/-- The checkpoint that a file content stands for. -/
def ofBytes? (bytes : List UInt8) : Option Checkpoint :=
  (Value.read? (Text.symbols bytes)).bind ofValue?

end Checkpoint

end ChainFeed
