import ChainFeed.Journal.Note
import ChainFeed.Sink.Basic

/-! # The journal

Everything a run did, in order: what it asked of the source and the sink and what came back, the
checkpoints it put in place, its events and its notes.
-/

set_option autoImplicit false

namespace ChainFeed

inductive Entry where
  /-- The sink was opened. -/
  | opened (delivery : Delivery)
  /-- The source was asked for a number. -/
  | asked (num : BlockNum) (passed : List ClientFailure) (answer : Answer)
  /-- A block was handed to the sink. -/
  | handed (block : Block) (delivery : Delivery)
  /-- A checkpoint was put in place. -/
  | stored (checkpoint : Checkpoint)
  | event (event : Event)
  | note (note : Note)

/-- The entries of a run. They are kept newest first, so that adding to them is quick. -/
structure Journal where
  past : List Entry

namespace Journal

def empty : Journal := ⟨[]⟩

/-- All entries, oldest first. -/
def entries (j : Journal) : List Entry := j.past.reverse

/-- The journal with `more` written at its end. -/
def record (j : Journal) (more : List Entry) : Journal := ⟨more.reverse ++ j.past⟩

theorem entries_record (j : Journal) (more : List Entry) :
    (j.record more).entries = j.entries ++ more := by
  rw [record, entries, entries, List.reverse_append, List.reverse_reverse]

def events (j : Journal) : List Event :=
  j.entries.filterMap fun
    | .event e => some e
    | _ => none

/-- The blocks the sink accepted. -/
def accepted (j : Journal) : List Block :=
  j.entries.filterMap fun
    | .handed b .accepted => some b
    | _ => none

/-- The blocks the sink was handed, whatever became of them. -/
def handed (j : Journal) : List Block :=
  j.entries.filterMap fun
    | .handed b _ => some b
    | _ => none

/-- The numbers the source was asked for. -/
def requests (j : Journal) : List BlockNum :=
  j.entries.filterMap fun
    | .asked num _ _ => some num
    | _ => none

/-- The blocks the source answered with, each with the number asked for. -/
def answers (j : Journal) : List (BlockNum × Block) :=
  j.entries.filterMap fun
    | .asked num _ (.block b) => some (num, b)
    | _ => none

/-- The checkpoints put in place. -/
def checkpoints (j : Journal) : List Checkpoint :=
  j.entries.filterMap fun
    | .stored c => some c
    | _ => none

end Journal

end ChainFeed
