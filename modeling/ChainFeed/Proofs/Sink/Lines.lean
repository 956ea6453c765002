import ChainFeed.Proofs.Text.Base64
import ChainFeed.Proofs.Text.Utf8
import ChainFeed.Sink.Console
import Mathlib.Data.List.Basic

/-! # Reading console lines

A reader takes a stream apart at its line feeds, and the lines that begin with the words `FIRE BLOCK` at single
spaces. It reads what the lines were written from, as long as no field has a space or a line feed of its own. Fields
may be empty.
-/

set_option autoImplicit false

namespace ChainFeed.Console

/-! ## Splitting -/

theorem splitOn_eq_singleton {mark : Char} {cs : List Char} (h : mark ∉ cs) : cs.splitOn mark = [cs] := by
  refine List.splitOnP_eq_singleton fun c hc => ?_
  rw [beq_eq_false_iff_ne]
  exact fun hEq => h (hEq ▸ hc)

theorem splitOn_append_cons {mark : Char} {cs : List Char} (h : mark ∉ cs) (rest : List Char) :
    (cs ++ mark :: rest).splitOn mark = cs :: rest.splitOn mark := by
  have hSplit : (cs ++ mark :: rest).splitOn mark = cs.splitOn mark ++ rest.splitOn mark :=
    List.splitOnP_append_cons cs rest (beq_self_eq_true mark)
  rw [hSplit, splitOn_eq_singleton h, List.singleton_append]

/-- Parts that each stand in front of a mark. -/
theorem splitOn_ended {mark : Char} {parts : List (List Char)} (h : ∀ part ∈ parts, mark ∉ part) :
    (parts.flatMap fun part => part ++ [mark]).splitOn mark = parts ++ [[]] := by
  induction parts with
  | nil => exact splitOn_eq_singleton List.not_mem_nil
  | cons part parts ih =>
    obtain ⟨hPart, hParts⟩ := List.forall_mem_cons.mp h
    rw [List.flatMap_cons, List.append_assoc, List.singleton_append, splitOn_append_cons hPart, ih hParts,
      List.cons_append]

/-- Parts that each stand behind a mark, after a first one. -/
theorem splitOn_preceded {mark : Char} {first : List Char} {parts : List (List Char)} (hFirst : mark ∉ first)
    (h : ∀ part ∈ parts, mark ∉ part) :
    (first ++ parts.flatMap fun part => mark :: part).splitOn mark = first :: parts := by
  induction parts generalizing first with
  | nil =>
    rw [List.flatMap_nil, List.append_nil]
    exact splitOn_eq_singleton hFirst
  | cons part parts ih =>
    obtain ⟨hPart, hParts⟩ := List.forall_mem_cons.mp h
    rw [List.flatMap_cons, List.cons_append, splitOn_append_cons hFirst, ih hPart hParts]

/-! ## The reader -/

/-- What a block line tells of a block. -/
structure Row where
  num : BlockNum
  id : BlockId
  parentNum : BlockNum
  parentId : BlockId
  libNum : BlockNum
  timestamp : UInt64
  content : List UInt8
  deriving DecidableEq, Repr

def Row.ofBlock (b : Block) : Row where
  num := b.num
  id := b.id
  parentNum := b.parentNum
  parentId := b.parentId
  libNum := b.libNum
  timestamp := b.timestamp
  content := b.payload.value

def readNum? (cs : List Char) : Option UInt64 :=
  if cs.isEmpty = false ∧ cs.all Char.isDigit = true ∧ Nat.ofDigitChars 10 cs 0 < UInt64.size then
    some (Nat.ofDigitChars 10 cs 0).toUInt64
  else none

def Row.ofFields? : List (List Char) → Option Row
  | [num, id, parentNum, parentId, libNum, timestamp, content] =>
    match readNum? num, readNum? parentNum, readNum? libNum, readNum? timestamp, Text.Base64.decode? content with
    | some num, some parentNum, some libNum, some timestamp, some content =>
      some ⟨num, .ofList id, parentNum, .ofList parentId, libNum, timestamp, content⟩
    | _, _, _, _, _ => none
  | _ => none

/-- The first words of a block line. -/
def blockWords : List (List Char) := ["FIRE".toList, "BLOCK".toList]

/-- The rows of the block lines, if all of them can be read. -/
def rows? (text : List Char) : Option (List Row) :=
  (((text.splitOn '\n').map fun line => line.splitOn ' ').filter fun words => words.take 2 = blockWords).mapM
    fun words => Row.ofFields? (words.drop 2)

/-- The rows that a reader finds in the bytes of a stream. -/
def readBack? (bytes : List UInt8) : Option (List Row) :=
  (Text.ofUtf8? bytes).bind fun text => rows? text.toList

/-! ## Fields -/

/-- The text can stand as one field of a line. -/
def IsField (cs : List Char) : Prop := ' ' ∉ cs ∧ '\n' ∉ cs

instance (cs : List Char) : Decidable (IsField cs) :=
  inferInstanceAs (Decidable (_ ∧ _))

theorem readNum?_decimal (n : UInt64) : readNum? (decimal n) = some n := by
  have hSome : (Nat.toDigits 10 n.toNat).isEmpty = false := by simp [Nat.toDigits_ne_nil]
  have hDigits : (Nat.toDigits 10 n.toNat).all Char.isDigit = true :=
    List.all_eq_true.mpr fun c hc => Nat.isDigit_of_mem_toDigits (by decide) (by decide) hc
  rw [readNum?, decimal, Nat.ofDigitChars_ten_toDigits, if_pos ⟨hSome, hDigits, n.toNat_lt⟩]
  simp

theorem isField_decimal (n : UInt64) : IsField (decimal n) := by
  have hDigits : ∀ c ∈ decimal n, c.isDigit = true :=
    fun c hc => Nat.isDigit_of_mem_toDigits (by decide) (by decide) hc
  constructor <;> intro h <;> cases hDigits _ h

theorem isField_encode (bytes : List UInt8) : IsField (Text.Base64.encode bytes) :=
  ⟨Text.Base64.not_mem_encode (by decide) (by decide +kernel),
    Text.Base64.not_mem_encode (by decide) (by decide +kernel)⟩

theorem isField_of_mem_fields {b : Block} (hId : IsField b.id.toList) (hParent : IsField b.parentId.toList)
    {cs : List Char} (h : cs ∈ fields b) : IsField cs := by
  simp only [fields, List.mem_cons, List.not_mem_nil, or_false] at h
  obtain rfl | rfl | rfl | rfl | rfl | rfl | rfl := h
  · exact isField_decimal _
  · exact hId
  · exact isField_decimal _
  · exact hParent
  · exact isField_decimal _
  · exact isField_decimal _
  · exact isField_encode _

theorem ofFields?_fields (b : Block) : Row.ofFields? (fields b) = some (.ofBlock b) := by
  simp only [fields, Row.ofFields?, readNum?_decimal, Text.Base64.decode?_encode, String.ofList_toList]
  rfl

/-! ## Lines -/

/-- An opening line without its end. -/
def openingText (typeUrl : String) : List Char :=
  "FIRE INIT 1.0 ".toList ++ typeUrl.toList

/-- A block line without its end. -/
def blockText (b : Block) : List Char :=
  "FIRE BLOCK".toList ++ (fields b).flatMap fun field => ' ' :: field

theorem openingLine_eq (typeUrl : String) : openingLine typeUrl = openingText typeUrl ++ ['\n'] := by
  unfold openingLine openingText
  rfl

theorem blockLine_eq (b : Block) : blockLine b = blockText b ++ ['\n'] := by
  unfold blockLine blockText
  rfl

theorem not_mem_openingText {typeUrl : String} (hUrl : '\n' ∉ typeUrl.toList) : '\n' ∉ openingText typeUrl := by
  unfold openingText
  rw [List.mem_append, not_or]
  exact ⟨by decide, hUrl⟩

theorem not_mem_blockText {b : Block} (hFields : ∀ field ∈ fields b, IsField field) : '\n' ∉ blockText b := by
  unfold blockText
  rw [List.mem_append, not_or, List.mem_flatMap]
  refine ⟨by decide, ?_⟩
  rintro ⟨field, hField, hIn⟩
  obtain hSpace | hIn := List.mem_cons.mp hIn
  · cases hSpace
  · exact (hFields field hField).2 hIn

theorem splitOn_blockText {b : Block} (hFields : ∀ field ∈ fields b, IsField field) :
    (blockText b).splitOn ' ' = blockWords ++ fields b := by
  have hParts : ∀ part ∈ "BLOCK".toList :: fields b, ' ' ∉ part :=
    List.forall_mem_cons.mpr ⟨by decide, fun field hField => (hFields field hField).1⟩
  have hFirst : ' ' ∉ "FIRE".toList := by decide
  exact splitOn_preceded hFirst hParts

/-- An opening line is no block line, whatever the URL. -/
theorem take_splitOn_openingText (typeUrl : String) :
    ((openingText typeUrl).splitOn ' ').take 2 ≠ blockWords := by
  have hText : openingText typeUrl =
      "FIRE".toList ++ ' ' :: ("INIT".toList ++ ' ' :: ("1.0 ".toList ++ typeUrl.toList)) := by
    have hWords : "FIRE INIT 1.0 ".toList = "FIRE".toList ++ ' ' :: ("INIT".toList ++ ' ' :: "1.0 ".toList) := by
      decide
    unfold openingText
    rw [hWords]
    simp only [List.append_assoc, List.cons_append]
  rw [hText, splitOn_append_cons (by decide), splitOn_append_cons (by decide), List.take_succ_cons,
    List.take_succ_cons, List.take_zero]
  decide

theorem rows?_stream {typeUrl : String} {blocks : List Block} (hUrl : '\n' ∉ typeUrl.toList)
    (hFields : ∀ b ∈ blocks, ∀ field ∈ fields b, IsField field) :
    rows? (openingLine typeUrl ++ blocks.flatMap blockLine) = some (blocks.map .ofBlock) := by
  have hLines : (openingLine typeUrl ++ blocks.flatMap blockLine).splitOn '\n' =
      openingText typeUrl :: blocks.map blockText ++ [[]] := by
    have hEnded : openingLine typeUrl ++ blocks.flatMap blockLine =
        (openingText typeUrl :: blocks.map blockText).flatMap fun line => line ++ ['\n'] := by
      simp only [List.flatMap_cons, List.flatMap_map, ← blockLine_eq, ← openingLine_eq]
    rw [hEnded]
    refine splitOn_ended (List.forall_mem_cons.mpr ⟨not_mem_openingText hUrl, fun line hLine => ?_⟩)
    obtain ⟨b, hb, rfl⟩ := List.mem_map.mp hLine
    exact not_mem_blockText (hFields b hb)
  have hWords : (blocks.map blockText).map (fun line => line.splitOn ' ') =
      blocks.map fun b => blockWords ++ fields b := by
    rw [List.map_map]
    exact List.map_congr_left fun b hb => splitOn_blockText (hFields b hb)
  have hBlocks : (blocks.map fun b => blockWords ++ fields b).filter (fun words => words.take 2 = blockWords) =
      blocks.map fun b => blockWords ++ fields b := by
    refine List.filter_eq_self.mpr fun words hIn => ?_
    obtain ⟨b, -, rfl⟩ := List.mem_map.mp hIn
    exact decide_eq_true rfl
  -- Behind the last line feed stands an empty line.
  have hLast : ([[]].map fun line : List Char => line.splitOn ' ').filter
      (fun words => words.take 2 = blockWords) = [] := by
    decide +kernel
  have hRows : (fun words => Row.ofFields? (words.drop 2)) ∘ (fun b => blockWords ++ fields b) =
      fun b => some (.ofBlock b) :=
    funext ofFields?_fields
  rw [rows?, hLines, List.map_append, List.map_cons, hWords, List.filter_append,
    List.filter_cons_of_neg (by simpa using take_splitOn_openingText typeUrl), hBlocks, hLast, List.append_nil,
    List.mapM_map, hRows]
  exact List.mapM_pure

end ChainFeed.Console
