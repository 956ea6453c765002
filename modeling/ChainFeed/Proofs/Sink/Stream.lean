import ChainFeed.Proofs.Sink.Lines

/-! # What a console leaves of its lines

A writer takes the bytes of a line in order. If it has no room for all of them, it takes what it has room for and
nothing ever after; a flush that fails takes nothing back. So whatever calls are made, the stream is the front part
of their lines, and it can be cut only at its end. A call that is accepted has all of its line in the stream.
-/

set_option autoImplicit false

namespace ChainFeed

/-! ## Writers -/

namespace Writer

/-- The writer once it took all the bytes and was flushed. -/
def filled (w : Writer) (bytes : List UInt8) : Writer :=
  { w with past := bytes.reverse ++ w.past, room := w.room.map (· - bytes.length), flushes := w.flushes + 1 }

/-- The writer once it took the bytes that it had room for. -/
def cutOff (w : Writer) (bytes : List UInt8) (room : Nat) : Writer :=
  { w with past := (bytes.take room).reverse ++ w.past, room := some 0 }

/-- A writer that takes all bytes, and whose flushes all succeed. -/
structure Unfailing (w : Writer) : Prop where
  room : w.room = none
  flushFails : ∀ number, w.flushFails number = false

/-- What comes of writing bytes: there is no room for all of them, or they are taken and the flush fails or not. -/
inductive Writes (w : Writer) (bytes : List UInt8) : Except String Unit × Writer → Prop where
  | cutOff {room : Nat} (hRoom : w.room = some room) (hShort : room < bytes.length) :
      Writes w bytes (.error fullText, w.cutOff bytes room)
  | unflushed (hRoom : ∀ room, w.room = some room → bytes.length ≤ room)
      (hFlush : w.flushFails (w.flushes + 1) = true) : Writes w bytes (.error flushText, w.filled bytes)
  | flushed (hRoom : ∀ room, w.room = some room → bytes.length ≤ room)
      (hFlush : w.flushFails (w.flushes + 1) = false) : Writes w bytes (.ok (), w.filled bytes)

variable {w : Writer}

theorem taken_filled (w : Writer) (bytes : List UInt8) : (w.filled bytes).taken = w.taken ++ bytes := by
  rw [taken, filled, List.reverse_append, List.reverse_reverse, taken]

theorem taken_cutOff (w : Writer) (bytes : List UInt8) (room : Nat) :
    (w.cutOff bytes room).taken = w.taken ++ bytes.take room := by
  rw [taken, cutOff, List.reverse_append, List.reverse_reverse, taken]

theorem writes_writeThrough (w : Writer) (bytes : List UInt8) : w.Writes bytes (w.writeThrough bytes) := by
  by_cases hShort : ∃ room, w.room = some room ∧ room < bytes.length
  · obtain ⟨room, hRoom, hShort⟩ := hShort
    have hCount : w.accepts bytes.length = room := by
      rw [accepts, hRoom]
      exact Nat.min_eq_left (Nat.le_of_lt hShort)
    have hResult : w.writeThrough bytes = (.error fullText, w.cutOff bytes room) := by
      simp only [writeThrough, write, hCount, if_neg (Nat.ne_of_lt hShort), hRoom, Option.map_some, Nat.sub_self,
        Writer.cutOff]
    rw [hResult]
    exact .cutOff hRoom hShort
  · have hRoom : ∀ room, w.room = some room → bytes.length ≤ room :=
      fun room hRoom => Nat.le_of_not_lt fun h => hShort ⟨room, hRoom, h⟩
    have hCount : w.accepts bytes.length = bytes.length := by
      rw [accepts]
      cases hSome : w.room with
      | none => rfl
      | some room => exact Nat.min_eq_right (hRoom room hSome)
    have hResult : w.writeThrough bytes =
        (if w.flushFails (w.flushes + 1) then .error flushText else .ok (), w.filled bytes) := by
      simp only [writeThrough, write, hCount, if_true, List.take_length, flush, filled]
    rw [hResult]
    cases hFlush : w.flushFails (w.flushes + 1) with
    | true => exact .unflushed hRoom hFlush
    | false => exact .flushed hRoom hFlush

/-- What a write adds is the front part of the bytes. Where that is not all of them, nothing is added any more. -/
theorem Writes.exists_more {bytes : List UInt8} {result : Except String Unit × Writer} (h : w.Writes bytes result) :
    ∃ more, result.2.taken = w.taken ++ more ∧ more <+: bytes ∧ (more = bytes ∨ result.2.room = some 0) ∧
      (w.room = some 0 → more = [] ∧ result.2.room = some 0) := by
  have hFilled : (∀ room, w.room = some room → bytes.length ≤ room) →
      w.room = some 0 → bytes = [] ∧ (w.filled bytes).room = some 0 := by
    intro hRoom hNone
    have hNil : bytes = [] := List.eq_nil_of_length_eq_zero (Nat.le_zero.mp (hRoom 0 hNone))
    exact ⟨hNil, by rw [Writer.filled, hNone, Option.map_some, Nat.zero_sub]⟩
  cases h with
  | @cutOff room hRoom hShort =>
    refine ⟨bytes.take room, w.taken_cutOff bytes room, List.take_prefix _ _, .inr rfl, fun hNone => ⟨?_, rfl⟩⟩
    rw [hRoom, Option.some.injEq] at hNone
    rw [hNone, List.take_zero]
  | unflushed hRoom => exact ⟨bytes, w.taken_filled bytes, List.prefix_rfl, .inl rfl, hFilled hRoom⟩
  | flushed hRoom => exact ⟨bytes, w.taken_filled bytes, List.prefix_rfl, .inl rfl, hFilled hRoom⟩

theorem Writes.flushFails_eq {bytes : List UInt8} {result : Except String Unit × Writer} (h : w.Writes bytes result) :
    result.2.flushFails = w.flushFails := by
  cases h <;> rfl

theorem Unfailing.writeThrough_eq (h : w.Unfailing) (bytes : List UInt8) :
    w.writeThrough bytes = (.ok (), w.filled bytes) := by
  have hWrites := w.writes_writeThrough bytes
  generalize w.writeThrough bytes = result at hWrites
  cases hWrites with
  | cutOff hRoom =>
    rw [h.room] at hRoom
    cases hRoom
  | unflushed _ hFlush =>
    rw [h.flushFails] at hFlush
    cases hFlush
  | flushed => rfl

theorem Unfailing.filled (h : w.Unfailing) (bytes : List UInt8) : (w.filled bytes).Unfailing where
  room := by rw [Writer.filled, h.room]; rfl
  flushFails := h.flushFails

end Writer

namespace Console

theorem emit_snd (c : Console) (line : List Char) :
    (c.emit line).2 = { c with writer := (c.writer.writeThrough (Text.utf8 line)).2 } := by
  rw [emit]
  rcases c.writer.writeThrough (Text.utf8 line) with ⟨_ | _, writer⟩ <;> rfl

theorem emit_accepted_iff {c : Console} {line : List Char} :
    (c.emit line).1 = .accepted ↔ (c.writer.writeThrough (Text.utf8 line)).1 = .ok () := by
  rw [emit]
  rcases c.writer.writeThrough (Text.utf8 line) with ⟨_ | _, writer⟩ <;> simp

/-! ## Calls -/

inductive Call where
  | opening
  | deliver (b : Block)

/-- The line that a call is to write. A block with another type URL has none. -/
def Call.line (typeUrl : String) : Call → List Char
  | opening => openingLine typeUrl
  | deliver b => if b.payload.typeUrl = typeUrl then blockLine b else []

def perform (c : Console) : Call → Delivery × Console
  | .opening => c.opening
  | .deliver b => c.deliver b

/-- The calls with what came of each, and the console after them. -/
def performAll (c : Console) : List Call → List (Call × Delivery) × Console
  | [] => ([], c)
  | call :: calls =>
    let first := c.perform call
    let others := first.2.performAll calls
    ((call, first.1) :: others.1, others.2)

def accepted (outcomes : List (Call × Delivery)) : List Block :=
  outcomes.filterMap fun
    | (.deliver b, .accepted) => some b
    | _ => none

theorem performAll_cons (c : Console) (call : Call) (calls : List Call) :
    c.performAll (call :: calls) = ((call, (c.perform call).1) :: ((c.perform call).2.performAll calls).1,
      ((c.perform call).2.performAll calls).2) := rfl

theorem accepted_cons (b : Block) (outcomes : List (Call × Delivery)) :
    accepted ((.deliver b, .accepted) :: outcomes) = b :: accepted outcomes := rfl

theorem accepted_cons_refused (call : Call) (refusal : Refusal) (outcomes : List (Call × Delivery)) :
    accepted ((call, .refused refusal) :: outcomes) = accepted outcomes := by
  cases call <;> rfl

theorem deliver_of_ne {c : Console} {b : Block} (h : b.payload.typeUrl ≠ c.typeUrl) :
    c.deliver b = (.refused (.typeUrl b.payload.typeUrl c.typeUrl), c) :=
  if_neg h

theorem deliver_of_eq {c : Console} {b : Block} (h : b.payload.typeUrl = c.typeUrl) :
    c.deliver b = c.emit (blockLine b) :=
  if_pos h

/-- A call writes its line, or is refused because of its type URL. -/
theorem perform_cases (c : Console) (call : Call) :
    c.perform call = c.emit (call.line c.typeUrl) ∧ call.line c.typeUrl ≠ [] ∨
      ∃ b, call = .deliver b ∧ b.payload.typeUrl ≠ c.typeUrl ∧ call.line c.typeUrl = [] := by
  cases call with
  | opening =>
    refine .inl ⟨rfl, ?_⟩
    rw [Call.line, openingLine_eq]
    exact List.concat_ne_nil _ _
  | deliver b =>
    by_cases hType : b.payload.typeUrl = c.typeUrl
    · rw [perform, deliver_of_eq hType, Call.line, if_pos hType]
      refine .inl ⟨rfl, ?_⟩
      rw [blockLine_eq]
      exact List.concat_ne_nil _ _
    · exact .inr ⟨b, rfl, hType, if_neg hType⟩

/-! ## The stream -/

/-- The console `c'` comes after `c` and the lines of the text, which it was to write one after the other. -/
structure Tried (c : Console) (text : List Char) (c' : Console) : Prop where
  typeUrl : c'.typeUrl = c.typeUrl
  flushFails : c'.writer.flushFails = c.writer.flushFails
  taken : ∃ out, c'.writer.taken = c.writer.taken ++ out ∧ out <+: Text.utf8 text ∧
    (out = Text.utf8 text ∨ c'.writer.room = some 0)

variable {c c' : Console} {text : List Char}

theorem tried_refl (c : Console) : c.Tried [] c :=
  ⟨rfl, rfl, [], (List.append_nil _).symm, List.nil_prefix, .inl rfl⟩

namespace Tried

theorem emit (h : c.Tried text c') (line : List Char) : c.Tried (text ++ line) (c'.emit line).2 := by
  obtain ⟨out, hTaken, hPrefix, hWhole⟩ := h.taken
  have hWrites := c'.writer.writes_writeThrough (Text.utf8 line)
  obtain ⟨more, hMore, hMorePrefix, hMoreWhole, hNothing⟩ := hWrites.exists_more
  rw [emit_snd]
  -- A writer that once cut a line off takes nothing of the next ones, so there is no gap in the stream.
  refine ⟨h.typeUrl, hWrites.flushFails_eq.trans h.flushFails, out ++ more, ?_, ?_, ?_⟩
  · rw [hMore, hTaken, List.append_assoc]
  · rw [Text.utf8_append]
    obtain rfl | hFull := hWhole
    · exact (List.prefix_append_right_inj _).mpr hMorePrefix
    · rw [(hNothing hFull).1, List.append_nil]
      exact hPrefix.trans (List.prefix_append _ _)
  · obtain rfl | hFull := hWhole
    · exact hMoreWhole.imp_left fun hAll => by rw [hAll, Text.utf8_append]
    · exact .inr (hNothing hFull).2

theorem perform (h : c.Tried text c') (call : Call) :
    c.Tried (text ++ call.line c.typeUrl) (c'.perform call).2 := by
  obtain ⟨hEmit, -⟩ | ⟨b, rfl, hType, hNoLine⟩ := c'.perform_cases call
  · rw [hEmit, h.typeUrl]
    exact h.emit _
  · rw [← h.typeUrl, hNoLine, List.append_nil, Console.perform, deliver_of_ne hType]
    exact h

theorem performAll (h : c.Tried text c') (calls : List Call) :
    c.Tried (text ++ calls.flatMap (Call.line c.typeUrl)) (c'.performAll calls).2 := by
  induction calls generalizing text c' with
  | nil =>
    rw [List.flatMap_nil, List.append_nil]
    exact h
  | cons call calls ih =>
    rw [List.flatMap_cons, ← List.append_assoc]
    exact ih (h.perform call)

/-- A line that was accepted is in the stream behind all lines before it, and was flushed. -/
theorem taken_of_accepted (h : c.Tried text c') {call : Call} (hAccepted : (c'.perform call).1 = .accepted) :
    (c'.perform call).2.writer.taken = c.writer.taken ++ Text.utf8 (text ++ call.line c.typeUrl) ∧
      (c'.perform call).2.writer.flushes = c'.writer.flushes + 1 ∧
      c.writer.flushFails (c'.writer.flushes + 1) = false := by
  obtain ⟨hEmit, hLine⟩ | ⟨b, rfl, hType, -⟩ := c'.perform_cases call
  · obtain ⟨out, hTaken, -, hWhole⟩ := h.taken
    have hWrites := c'.writer.writes_writeThrough (Text.utf8 (call.line c'.typeUrl))
    rw [hEmit, emit_accepted_iff] at hAccepted
    rw [hEmit, emit_snd]
    generalize c'.writer.writeThrough (Text.utf8 (call.line c'.typeUrl)) = result at hWrites hAccepted
    cases hWrites with
    | cutOff | unflushed => cases hAccepted
    | flushed hRoom hFlush =>
      -- No line is empty, so a writer without room could not have taken it.
      have hAll : out = Text.utf8 text := hWhole.resolve_right fun hFull =>
        Text.utf8_ne_nil hLine (List.eq_nil_of_length_eq_zero (Nat.le_zero.mp (hRoom 0 hFull)))
      refine ⟨?_, rfl, h.flushFails ▸ hFlush⟩
      rw [Writer.taken_filled, hTaken, hAll, h.typeUrl, Text.utf8_append, List.append_assoc]
  · rw [Console.perform, deliver_of_ne hType] at hAccepted
    cases hAccepted

end Tried

/-- What stands in the stream after the calls, and what comes of a further one. -/
structure Truncates (c : Console) (calls : List Call) : Prop where
  taken : ∃ out, (c.performAll calls).2.writer.taken = c.writer.taken ++ out ∧
    out <+: Text.utf8 (calls.flatMap (Call.line c.typeUrl))
  accepted : ∀ call, ((c.performAll calls).2.perform call).1 = .accepted →
    ((c.performAll calls).2.perform call).2.writer.taken =
      c.writer.taken ++ Text.utf8 ((calls ++ [call]).flatMap (Call.line c.typeUrl)) ∧
    ((c.performAll calls).2.perform call).2.writer.flushes = (c.performAll calls).2.writer.flushes + 1 ∧
    c.writer.flushFails ((c.performAll calls).2.writer.flushes + 1) = false
  otherType : ∀ b, b.payload.typeUrl ≠ c.typeUrl → (c.performAll calls).2.perform (.deliver b) =
    (.refused (.typeUrl b.payload.typeUrl c.typeUrl), (c.performAll calls).2)

theorem truncates (c : Console) (calls : List Call) : c.Truncates calls := by
  have hTried := (tried_refl c).performAll calls
  rw [List.nil_append] at hTried
  refine ⟨?_, fun call hAccepted => ?_, fun b hType => ?_⟩
  · obtain ⟨out, hTaken, hPrefix, -⟩ := hTried.taken
    exact ⟨out, hTaken, hPrefix⟩
  · rw [List.flatMap_append, List.flatMap_singleton]
    exact hTried.taken_of_accepted hAccepted
  · rw [← hTried.typeUrl] at hType ⊢
    exact deliver_of_ne hType

/-! ## The stream of a writer that never fails -/

/-- The console once the whole line was taken. -/
def grown (c : Console) (line : List Char) : Console :=
  { c with writer := c.writer.filled (Text.utf8 line) }

theorem taken_grown (c : Console) (line : List Char) :
    (c.grown line).writer.taken = c.writer.taken ++ Text.utf8 line :=
  c.writer.taken_filled _

theorem emit_of_unfailing (h : c.writer.Unfailing) (line : List Char) :
    c.emit line = (.accepted, c.grown line) ∧ (c.grown line).writer.Unfailing := by
  refine ⟨?_, h.filled _⟩
  rw [emit, h.writeThrough_eq]
  rfl

theorem performAll_of_unfailing (h : c.writer.Unfailing) (blocks : List Block) :
    accepted (c.performAll (blocks.map .deliver)).1 = blocks.filter (fun b => b.payload.typeUrl = c.typeUrl) ∧
      (c.performAll (blocks.map .deliver)).2.writer.taken = c.writer.taken ++
        Text.utf8 ((accepted (c.performAll (blocks.map .deliver)).1).flatMap blockLine) := by
  induction blocks generalizing c with
  | nil => exact ⟨rfl, (List.append_nil _).symm⟩
  | cons b blocks ih =>
    rw [List.map_cons, performAll_cons, perform]
    by_cases hType : b.payload.typeUrl = c.typeUrl
    · obtain ⟨hEmit, hUnfailing⟩ := emit_of_unfailing h (blockLine b)
      obtain ⟨hAccepted, hTaken⟩ := ih hUnfailing
      simp only [deliver_of_eq hType, hEmit, accepted_cons]
      rw [List.filter_cons_of_pos (by simpa using hType)]
      refine ⟨congrArg (b :: ·) hAccepted, ?_⟩
      rw [hTaken, taken_grown, List.flatMap_cons, Text.utf8_append, List.append_assoc]
    · simp only [deliver_of_ne hType, accepted_cons_refused]
      rw [List.filter_cons_of_neg (by simpa using hType)]
      exact ih h

/-- The stream of an opening and then the blocks. -/
def stream (c : Console) (blocks : List Block) : List (Call × Delivery) × Console :=
  c.opening.2.performAll (blocks.map .deliver)

/-- The blocks that were accepted are read back from what their calls added to the stream. -/
structure ReadsBack (c : Console) (blocks : List Block) : Prop where
  opened : c.opening.1 = .accepted
  accepted : accepted (c.stream blocks).1 = blocks.filter fun b => b.payload.typeUrl = c.typeUrl
  rows : ∃ out, (c.stream blocks).2.writer.taken = c.writer.taken ++ out ∧
    readBack? out = some ((Console.accepted (c.stream blocks).1).map .ofBlock)

theorem readsBack_of_unfailing (h : c.writer.Unfailing) (hUrl : '\n' ∉ c.typeUrl.toList) {blocks : List Block}
    (hFields : ∀ b ∈ accepted (c.stream blocks).1, IsField b.id.toList ∧ IsField b.parentId.toList) :
    c.ReadsBack blocks := by
  obtain ⟨hEmit, hUnfailing⟩ := emit_of_unfailing h (openingLine c.typeUrl)
  obtain ⟨hAccepted, hTaken⟩ := performAll_of_unfailing hUnfailing blocks
  have hOpening : c.opening = (.accepted, c.grown (openingLine c.typeUrl)) := hEmit
  have hStream : c.stream blocks = (c.grown (openingLine c.typeUrl)).performAll (blocks.map .deliver) := by
    rw [stream, hOpening]
  rw [← hStream] at hAccepted hTaken
  refine ⟨by rw [hOpening], hAccepted,
    Text.utf8 (openingLine c.typeUrl ++ (accepted (c.stream blocks).1).flatMap blockLine), ?_, ?_⟩
  · rw [hTaken, taken_grown, Text.utf8_append, List.append_assoc]
  · rw [readBack?, Text.ofUtf8?_utf8, Option.bind_some, String.toList_ofList]
    refine rows?_stream hUrl fun b hb field hField => ?_
    exact isField_of_mem_fields (hFields b hb).1 (hFields b hb).2 hField

/-- After a writer that never fails, a reader has the number, the ids, the timestamp and the content of each block
that was accepted, in their order. A writer that fails leaves the front part of the same lines: an accepted call has
its line there in full, and a block with another type URL adds nothing. -/
theorem readsBack_and_truncates (c : Console) :
    (c.writer.Unfailing → '\n' ∉ c.typeUrl.toList → ∀ blocks,
      (∀ b ∈ accepted (c.stream blocks).1, IsField b.id.toList ∧ IsField b.parentId.toList) → c.ReadsBack blocks) ∧
    ∀ calls, c.Truncates calls :=
  ⟨fun h hUrl _ hFields => readsBack_of_unfailing h hUrl hFields, c.truncates⟩

/-- Empty ids, contents of each length in the last group, and a block with another type URL. -/
def mixed : List Block :=
  [⟨"", 0, "", 0, 0, 0, ⟨"url", []⟩⟩, ⟨"1a", 1, "", 0, 0, 7, ⟨"url", [255]⟩⟩, ⟨"1b", 1, "", 0, 0, 8, ⟨"other", [1]⟩⟩,
    ⟨"2a", 2, "1a", 1, 0, BlockNum.highest, ⟨"url", [0, 1]⟩⟩, ⟨"3a", 3, "2a", 2, 1, 9, ⟨"url", [1, 2, 3, 4]⟩⟩]

/-- A console over a writer with a given room, whose second flush may fail. -/
def writing (room : Option Nat) (secondFails : Bool) : Console where
  typeUrl := "url"
  writer := { past := [], room := room, flushes := 0, flushFails := fun number => secondFails && number == 2 }

theorem readsBack_and_truncates_mixed :
    (writing none false).ReadsBack mixed ∧
      (writing (some 60) true).Truncates (.opening :: mixed.map .deliver) := by
  have hUnfailing : (writing none false).writer.Unfailing := ⟨rfl, fun _ => rfl⟩
  exact ⟨(readsBack_and_truncates (writing none false)).1 hUnfailing (by decide) mixed (by decide +kernel),
    (readsBack_and_truncates (writing (some 60) true)).2 _⟩

/-- The line of the first block is taken although its flush fails, and that of the second one is cut off. -/
example :
    ((writing (some 60) true).performAll (.opening :: mixed.map .deliver)).2.writer.taken =
      Text.utf8 "FIRE INIT 1.0 url\nFIRE BLOCK 0  0  0 0 \nFIRE BLOCK 1 1a 0  0".toList := by
  decide +kernel

end Console

end ChainFeed
