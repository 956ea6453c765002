import ChainFeed.Text.Utf8

/-! # Reading back what was written

Text that was written in UTF-8 is read as the characters it was written from.
-/

set_option autoImplicit false

namespace ChainFeed.Text

theorem utf8_cons (c : Char) (cs : List Char) : utf8 (c :: cs) = String.utf8EncodeChar c ++ utf8 cs :=
  List.flatMap_cons

theorem firstChar?_utf8EncodeChar_append (c : Char) (rest : List UInt8) :
    firstChar? (String.utf8EncodeChar c ++ rest) = some c := by
  have hSize : (String.utf8EncodeChar c).length ≤ 4 := by
    rw [String.length_utf8EncodeChar]
    exact c.utf8Size_le_four
  rw [firstChar?, List.take_append, List.take_of_length_le hSize, List.toByteArray_append]
  exact ByteArray.utf8DecodeChar?_utf8EncodeChar_append

theorem readSymbols_utf8 (cs : List Char) (steps : Nat) (h : (utf8 cs).length ≤ steps) :
    readSymbols steps (utf8 cs) = cs.map some := by
  induction cs generalizing steps with
  | nil => cases steps <;> rfl
  | cons c cs ih =>
    have hSize := c.utf8Size_pos
    have hLength := String.length_utf8EncodeChar c
    rw [utf8_cons, List.length_append] at h
    obtain ⟨b, rest, hEncoded⟩ : ∃ b rest, utf8 (c :: cs) = b :: rest := by
      apply List.exists_cons_of_length_pos
      rw [utf8_cons, List.length_append]
      omega
    have hFirst : firstChar? (b :: rest) = some c := by
      rw [← hEncoded, utf8_cons]
      exact firstChar?_utf8EncodeChar_append c _
    cases steps with
    | zero => omega
    | succ steps =>
      rw [hEncoded, readSymbols]
      simp only [hFirst]
      rw [← hEncoded, utf8_cons, List.drop_left' hLength, ih steps (by omega), List.map_cons]

theorem symbols_utf8 (cs : List Char) : symbols (utf8 cs) = cs.map some :=
  readSymbols_utf8 cs _ (Nat.le_refl _)

theorem ofUtf8?_utf8 (cs : List Char) : ofUtf8? (utf8 cs) = some (String.ofList cs) := by
  have hAll : (cs.map some).mapM id = some cs := by
    rw [List.mapM_map]
    exact (List.mapM_pure (f := id)).trans (congrArg some cs.map_id)
  rw [ofUtf8?, symbols_utf8, hAll, Option.map_some]

theorem utf8_ne_nil {cs : List Char} (h : cs ≠ []) : utf8 cs ≠ [] := by
  obtain ⟨c, cs, rfl⟩ := List.exists_cons_of_ne_nil h
  have hSize := c.utf8Size_pos
  rw [← List.length_pos_iff, utf8_cons, List.length_append, String.length_utf8EncodeChar]
  omega

theorem utf8_append (cs more : List Char) : utf8 (cs ++ more) = utf8 cs ++ utf8 more :=
  List.flatMap_append

end ChainFeed.Text
