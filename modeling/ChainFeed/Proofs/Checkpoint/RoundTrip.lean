import ChainFeed.Proofs.Checkpoint.Save
import ChainFeed.Proofs.Json.Written
import ChainFeed.Proofs.Text.Utf8

/-! # A checkpoint file stands for the checkpoint it was written from

A record that was written holds each of its fields once, so reading it back finds them all.
-/

set_option autoImplicit false

namespace ChainFeed

open Json

namespace StoredRef

/-- The document of a stored block as a value. -/
def value (s : StoredRef) : Value :=
  .record [(some "id", .text (some s.id)), (some "num", .number (some s.num.toNat)),
    (some "previous_ref_id", .text (some s.previousId))]

def fields (s : StoredRef) : List (String × List Char) :=
  [("id", writeText s.id), ("num", writeNum s.num), ("previous_ref_id", writeText s.previousId)]

theorem readsAs_write (s : StoredRef) : ReadsAs s.write s.value := by
  have hFields : List.Forall₂ ReadsAs (s.fields.map Prod.snd)
      [.text (some s.id), .number (some s.num.toNat), .text (some s.previousId)] :=
    .cons (readsAs_text s.id) (.cons (readsAs_number s.num) (.cons (readsAs_text s.previousId) .nil))
  exact readsAs_record hFields (List.cons_ne_nil _ _)

theorem ofValue?_value (s : StoredRef) : ofValue? s.value = some s := by
  have hSize : s.num.toNat < UInt64.size := s.num.toNat_lt
  have hParts : ofParts? (.text (some s.id)) (.number (some s.num.toNat)) (.text (some s.previousId)) =
      some s := by
    rw [ofParts?, if_pos hSize]
    simp
  exact hParts

end StoredRef

namespace Checkpoint

def value (c : Checkpoint) : Value :=
  .record [(some "Lib", c.lib.value), (some "LastFiredBlock", c.lastFired.value),
    (some "Blocks", .list (c.blocks.map StoredRef.value))]

def fields (c : Checkpoint) : List (String × List Char) :=
  [("Lib", c.lib.write), ("LastFiredBlock", c.lastFired.write),
    ("Blocks", writeList (c.blocks.map StoredRef.write))]

theorem readsAs_write (c : Checkpoint) : ReadsAs c.write c.value := by
  have hBlocks : List.Forall₂ ReadsAs (c.blocks.map StoredRef.write) (c.blocks.map StoredRef.value) := by
    rw [List.forall₂_map_left_iff, List.forall₂_map_right_iff, List.forall₂_same]
    intro s _
    exact s.readsAs_write
  have hFields : List.Forall₂ ReadsAs (c.fields.map Prod.snd)
      [c.lib.value, c.lastFired.value, .list (c.blocks.map StoredRef.value)] :=
    .cons c.lib.readsAs_write (.cons c.lastFired.readsAs_write (.cons (readsAs_list hBlocks) .nil))
  exact readsAs_record hFields (List.cons_ne_nil _ _)

theorem blocks?_value (blocks : List StoredRef) :
    blocks? (.list (blocks.map StoredRef.value)) = some blocks := by
  rw [blocks?]
  induction blocks with
  | nil => rfl
  | cons s blocks ih =>
    rw [List.map_cons, List.mapM_cons, s.ofValue?_value, ih]
    rfl

theorem ofValue?_value (c : Checkpoint) : ofValue? c.value = some c := by
  have hParts : ofParts? c.lib.value c.lastFired.value (some (.list (c.blocks.map StoredRef.value))) =
      some c := by
    rw [ofParts?, c.lib.ofValue?_value, c.lastFired.ofValue?_value, Option.elim_some, blocks?_value]
  exact hParts

/-- What a checkpoint is written as is read as the checkpoint. -/
theorem ofBytes?_bytes (c : Checkpoint) : ofBytes? c.bytes = some c := by
  rw [ofBytes?, bytes, Text.symbols_utf8, read?_line c.readsAs_write, Option.bind_some, ofValue?_value]

theorem load_of_read {d : Disk} {dir : Path} {c : Checkpoint} (h : d.read (path dir) = .ok c.bytes) :
    load d dir = .ok c := by
  rw [load, h]
  simp only [c.ofBytes?_bytes]

/-! ## The file -/

theorem unbroken_write (c : Checkpoint) : Unbroken c.write := by
  have hStored : ∀ s : StoredRef, Unbroken s.write := by
    intro s
    refine unbroken_writeRecord (List.forall_mem_cons.mpr ⟨unbroken_writeText s.id, ?_⟩)
    exact List.forall_mem_cons.mpr ⟨unbroken_writeNum s.num, by simpa using unbroken_writeText s.previousId⟩
  have hBlocks : Unbroken (writeList (c.blocks.map StoredRef.write)) := by
    refine unbroken_writeList fun part hPart => ?_
    obtain ⟨s, -, rfl⟩ := List.mem_map.mp hPart
    exact hStored s
  refine unbroken_writeRecord (List.forall_mem_cons.mpr ⟨hStored c.lib, ?_⟩)
  exact List.forall_mem_cons.mpr ⟨hStored c.lastFired, by simpa using hBlocks⟩

/-- A checkpoint file is one line of JSON, with the fields of the checkpoint and no others. Whatever the ids and
numbers are, it is decoded as the checkpoint that it was written from, and so is every file that a save leaves. -/
theorem decodes_what_save_writes (c : Checkpoint) :
    Unbroken c.write ∧ c.bytes = Text.utf8 (c.write ++ ['\n']) ∧
    Value.read? (Text.symbols c.bytes) = some c.value ∧
    ofBytes? c.bytes = some c ∧
    ∀ (device : Device) (d : Disk) (dir p : Path), (c.save device d dir).outcome = .ok p →
      (c.save device d dir).disk.read p = .ok c.bytes ∧ load (c.save device d dir).disk dir = .ok c := by
  refine ⟨c.unbroken_write, rfl, ?_, c.ofBytes?_bytes, fun device d dir p hSaved => ?_⟩
  · rw [bytes, Text.symbols_utf8]
    exact read?_line c.readsAs_write
  · have hRead := read_of_save_ok hSaved
    have hPath : p = path dir := path_of_save_ok hSaved
    exact ⟨hPath ▸ hRead, load_of_read hRead⟩

/-- Ids that have to be escaped, or that a careless reader would lose. -/
def awkward : Checkpoint where
  lib := ⟨"", BlockNum.highest, ""⟩
  lastFired := ⟨"\"\\/", 0, "\x00\x1f\x7f"⟩
  blocks := [⟨"\n\r\t\x08\x0c", 10, "null"⟩, ⟨"é😀", BlockNum.highest, ",]\x7d"⟩]

theorem decodes_what_save_writes_awkward :
    (awkward.save .sound .empty ⟨["a", "b"]⟩).outcome = .ok (path ⟨["a", "b"]⟩) ∧
    load (awkward.save .sound .empty ⟨["a", "b"]⟩).disk ⟨["a", "b"]⟩ = .ok awkward := by
  have hSaved : (awkward.save .sound .empty ⟨["a", "b"]⟩).outcome = .ok (path ⟨["a", "b"]⟩) := rfl
  obtain ⟨-, -, -, -, hLoad⟩ := decodes_what_save_writes awkward
  exact ⟨hSaved, (hLoad .sound .empty _ _ hSaved).2⟩

end Checkpoint

end ChainFeed
