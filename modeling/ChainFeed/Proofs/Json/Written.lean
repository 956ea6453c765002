import ChainFeed.Json.Value
import ChainFeed.Json.Writer
import Mathlib.Data.List.Forall2
import Mathlib.Data.List.TakeWhile

/-! # Written JSON is read back

Text, numbers, lists and records are read as what they were written from. A number ends only with the
symbol that follows it, so each part is read in front of a symbol that cannot go on with a number.
-/

set_option autoImplicit false

namespace ChainFeed.Json

/-! ## Text -/

def pieceOf (c : Char) : Piece :=
  if c.toNat < 0x20 ∧ c ∉ ['\x08', '\t', '\n', '\x0c', '\r'] then .code c.toNat else .char c

theorem hexValue?_hexDigit (n : Nat) : hexValue? (hexDigit n) = some (n % 16) := by
  have hAll : ∀ k < 16, hexValue? (Nat.digitChar k) = some k := by decide
  exact hAll (n % 16) (Nat.mod_lt n (by decide))

theorem scan_of_next {mode mode' : Mode} {s : Option Char} {tokens : List Token}
    (h : mode.next s = some (mode', tokens)) (rest : List (Option Char)) :
    scan mode (s :: rest) = (scan mode' rest).map (tokens ++ ·) := by
  rw [scan, h]

theorem scan_of_next_nil {mode m : Mode} {s : Option Char} (h : mode.next s = some (m, []))
    (rest : List (Option Char)) : scan mode (s :: rest) = scan m rest := by
  rw [scan_of_next h]
  simp

theorem scan_inText_short {read : List Piece} {c e : Char} (hShort : shortEscape? c = some e)
    (hPlain : c ≠ 'u') (rest : List (Option Char)) :
    scan (.inText read) (some '\\' :: some c :: rest) = scan (.inText (.char e :: read)) rest := by
  rw [scan_of_next_nil (m := .inEscape read) rfl, scan_of_next_nil]
  rw [Mode.next, if_neg hPlain, hShort]
  rfl

theorem scan_inText_code (read : List Piece) {n : Nat} (h : n < 0x20) (rest : List (Option Char)) :
    scan (.inText read) (some '\\' :: some 'u' :: some '0' :: some '0' :: some (hexDigit (n / 16)) ::
      some (hexDigit n) :: rest) = scan (.inText (.code n :: read)) rest := by
  rw [scan_of_next_nil (m := .inEscape read) rfl, scan_of_next_nil (m := .inCode read 4 0) rfl,
    scan_of_next_nil (m := .inCode read 3 0) rfl, scan_of_next_nil (m := .inCode read 2 0) rfl,
    scan_of_next_nil (m := .inCode read 1 (n / 16 % 16)), scan_of_next_nil]
  · rw [Mode.next, hexValue?_hexDigit]
    have hValue : n / 16 % 16 * 16 + n % 16 = n := by omega
    simp [hValue]
  · rw [Mode.next, hexValue?_hexDigit]
    simp

theorem scan_inText_escapeChar (read : List Piece) (c : Char) (rest : List (Option Char)) :
    scan (.inText read) ((escapeChar c).map some ++ rest) = scan (.inText (pieceOf c :: read)) rest := by
  unfold escapeChar pieceOf
  split
  next h => subst h; exact scan_inText_short rfl (by decide) rest
  split
  next h => subst h; exact scan_inText_short rfl (by decide) rest
  split
  next h => subst h; exact scan_inText_short rfl (by decide) rest
  split
  next h => subst h; exact scan_inText_short rfl (by decide) rest
  split
  next h => subst h; exact scan_inText_short rfl (by decide) rest
  split
  next h => subst h; exact scan_inText_short rfl (by decide) rest
  split
  next h => subst h; exact scan_inText_short rfl (by decide) rest
  split
  next hLow =>
    rw [if_pos ⟨hLow, by simp_all⟩]
    exact scan_inText_code read hLow rest
  next hQuote hBackslash _ _ _ _ _ hLow =>
    rw [if_neg fun h => hLow h.1]
    apply scan_of_next_nil
    rw [Mode.next, if_neg hQuote, if_neg hBackslash, if_neg hLow]

theorem scan_inText_escaped (read : List Piece) (cs : List Char) (rest : List (Option Char)) :
    scan (.inText read) ((cs.flatMap escapeChar).map some ++ rest) =
      scan (.inText ((cs.map pieceOf).reverse ++ read)) rest := by
  induction cs generalizing read with
  | nil => rfl
  | cons c cs ih =>
    rw [List.flatMap_cons, List.map_append, List.append_assoc, scan_inText_escapeChar, ih]
    simp

theorem assemble_map_pieceOf (cs : List Char) : assemble (cs.map pieceOf) = some cs := by
  induction cs with
  | nil => rfl
  | cons c cs ih =>
    rw [List.map_cons]
    by_cases hCode : c.toNat < 0x20 ∧ c ∉ ['\x08', '\t', '\n', '\x0c', '\r']
    · have hSurrogate : isHighSurrogate c.toNat = false ∧ isLowSurrogate c.toNat = false := by
        have := hCode.1
        simp only [isHighSurrogate, isLowSurrogate, Bool.and_eq_false_iff, decide_eq_false_iff_not]
        omega
      have hPiece : pieceOf c = .code c.toNat := if_pos hCode
      rw [hPiece]
      cases hNext : cs.map pieceOf with
      | nil =>
        rw [hNext] at ih
        rw [assemble.eq_def]
        simp_all
      | cons piece pieces =>
        rw [hNext] at ih
        cases piece with
        | char d => rw [assemble.eq_def]; simp_all
        | code low => rw [assemble.eq_def]; simp_all
        | malformed => rw [assemble.eq_def]; simp_all
    · have hPiece : pieceOf c = .char c := if_neg hCode
      rw [hPiece, assemble, ih]
      rfl

/-! ## Parts -/

def Separates (rest : List (Option Char)) : Prop :=
  ∀ c more, rest = some c :: more → isNumberChar c = false

/-- The symbols are read as the tokens, wherever a token may begin. -/
def Scans (cs : List Char) (tokens : List Token) : Prop :=
  ∀ rest, Separates rest →
    scan .between (cs.map some ++ rest) = (scan .between rest).map (tokens ++ ·)

theorem scans_writeText (s : String) : Scans (writeText s) [.text (some s)] := by
  intro rest _
  have hPieces : assemble ([] ++ s.toList.map pieceOf) = some s.toList := assemble_map_pieceOf s.toList
  rw [writeText, List.cons_append, List.map_cons, List.cons_append,
    scan_of_next_nil (m := .inText []) rfl, List.map_append, List.append_assoc, scan_inText_escaped,
    List.append_nil]
  refine scan_of_next ?_ rest
  rw [Mode.next, if_pos rfl, textToken, List.reverse_reverse, assemble_map_pieceOf, Option.map_some,
    String.ofList_toList]

theorem scan_inNumber_digits (read digits : List Char) (h : ∀ c ∈ digits, isNumberChar c = true)
    (rest : List (Option Char)) :
    scan (.inNumber read) (digits.map some ++ rest) = scan (.inNumber (digits.reverse ++ read)) rest := by
  induction digits generalizing read with
  | nil => rfl
  | cons c digits ih =>
    have hc := h c List.mem_cons_self
    rw [List.map_cons, List.cons_append, scan_of_next_nil (m := .inNumber (c :: read)),
      ih (c :: read) fun d hd => h d (List.mem_cons_of_mem c hd)]
    · simp
    · rw [Mode.next, if_pos hc]

theorem scan_inNumber_separates {read : List Char} {t : Token} (hToken : numberToken? read.reverse = some t)
    {rest : List (Option Char)} (hRest : Separates rest) :
    scan (.inNumber read) rest = (scan .between rest).map ([t] ++ ·) := by
  cases rest with
  | nil => simp [scan, Mode.finish, hToken]
  | cons symbol more =>
    cases symbol with
    | none => rfl
    | some c =>
      have hOther := hRest c more rfl
      rw [scan, scan, Mode.next, Mode.next, if_neg (by simp [hOther]), hToken, Option.bind_some]
      cases beginToken c with
      | none => rfl
      | some begun =>
        obtain ⟨mode, tokens⟩ := begun
        simp [Function.comp_def]

theorem toDigits_head_ne_zero {n : Nat} (hPos : 0 < n) (rest : List Char) :
    Nat.toDigits 10 n ≠ '0' :: rest := by
  induction n using Nat.strongRecOn generalizing rest with
  | ind n ih =>
    rw [Nat.toDigits_eq_if (by decide)]
    by_cases hLow : n < 10
    · rw [if_pos hLow]
      intro h
      have hAll : ∀ k < 10, 0 < k → Nat.digitChar k ≠ '0' := by decide
      exact hAll n hLow hPos (List.cons.inj h).1
    · rw [if_neg hLow]
      intro h
      obtain ⟨c, cs, hDigits⟩ := List.exists_cons_of_ne_nil (Nat.toDigits_ne_nil (n := n / 10) (b := 10))
      rw [hDigits, List.cons_append] at h
      refine ih (n / 10) (by omega) (by omega) cs ?_
      rw [hDigits, (List.cons.inj h).1]

theorem isInteger_toDigits (n : Nat) : isInteger (Nat.toDigits 10 n) = true := by
  have hDigits : ∀ c ∈ Nat.toDigits 10 n, c.isDigit = true :=
    fun c hc => Nat.isDigit_of_mem_toDigits (by decide) (by decide) hc
  unfold isInteger
  split
  next h => exact absurd h Nat.toDigits_ne_nil
  next h => rfl
  next rest hOther h =>
    rcases Nat.eq_zero_or_pos n with rfl | hPos
    · rw [Nat.toDigits_zero] at h
      exact absurd (List.cons.inj h).2.symm hOther
    · exact absurd h (toDigits_head_ne_zero hPos rest)
  next => simpa using hDigits

theorem numberToken?_of_isInteger {literal : List Char} (hDigits : ∀ c ∈ literal, c.isDigit = true)
    (hInteger : isInteger literal = true) :
    numberToken? literal = some (.number (some (Nat.ofDigitChars 10 literal 0))) := by
  have hTake : literal.takeWhile Char.isDigit = literal := List.takeWhile_eq_self_iff.mpr hDigits
  have hDrop : literal.dropWhile Char.isDigit = [] := List.dropWhile_eq_nil_iff.mpr hDigits
  unfold numberToken?
  split
  next rest =>
    have hMinus := hDigits '-' List.mem_cons_self
    cases hMinus
  next => simp [hTake, hDrop, hInteger, isFraction, isExponent]

theorem beginToken_of_isDigit {c : Char} (h : c.isDigit = true) :
    beginToken c = some (.inNumber [c], []) := by
  have hOther : ∀ d : Char, d.isDigit = false → c ≠ d := by
    rintro d hd rfl
    rw [h] at hd
    cases hd
  have hBlank : isBlank c = false := by
    simp [isBlank, hOther ' ' rfl, hOther '\t' rfl, hOther '\n' rfl, hOther '\r' rfl]
  rw [beginToken, hBlank, if_neg Bool.false_ne_true, if_neg (hOther '[' rfl), if_neg (hOther ']' rfl),
    if_neg (hOther '\x7b' rfl), if_neg (hOther '\x7d' rfl), if_neg (hOther ',' rfl), if_neg (hOther ':' rfl),
    if_neg (hOther '"' rfl), h]
  rfl

theorem scans_writeNum (n : BlockNum) : Scans (writeNum n) [.number (some n.toNat)] := by
  intro rest hRest
  have hDigits : ∀ c ∈ Nat.toDigits 10 n.toNat, c.isDigit = true :=
    fun c hc => Nat.isDigit_of_mem_toDigits (by decide) (by decide) hc
  have hNumber : ∀ c : Char, c.isDigit = true → isNumberChar c = true := fun c hc => by
    simp [isNumberChar, hc]
  rw [writeNum]
  obtain ⟨c, cs, hEq⟩ := List.exists_cons_of_ne_nil (Nat.toDigits_ne_nil (n := n.toNat) (b := 10))
  have hToken := numberToken?_of_isInteger hDigits (isInteger_toDigits n.toNat)
  rw [Nat.ofDigitChars_ten_toDigits, hEq] at hToken
  rw [hEq] at hDigits ⊢
  have hc := hDigits c List.mem_cons_self
  rw [List.map_cons, List.cons_append, scan_of_next_nil (m := .inNumber [c]),
    scan_inNumber_digits [c] cs fun d hd => hNumber d (hDigits d (List.mem_cons_of_mem c hd))]
  · refine scan_inNumber_separates ?_ hRest
    rw [List.reverse_append, List.reverse_reverse]
    exact hToken
  · exact beginToken_of_isDigit hc

theorem separates_of_mark {c : Char} (h : isNumberChar c = false) (rest : List (Option Char)) :
    Separates (some c :: rest) := by
  intro d more hEq
  cases hEq
  exact h

theorem scan_mark {c : Char} {t : Token} (h : beginToken c = some (.between, [t])) (more : List Char)
    (rest : List (Option Char)) :
    scan .between ((c :: more).map some ++ rest) =
      (scan .between (more.map some ++ rest)).map (t :: ·) := by
  have hNext : Mode.between.next (some c) = some (.between, [t]) := h
  exact scan_of_next hNext _

/-- So it is behind a part, which it ends. -/
theorem Scans.then_mark {cs : List Char} {tokens : List Token} {c : Char} {t : Token}
    (h : Scans cs tokens) (hMark : beginToken c = some (.between, [t])) (hc : isNumberChar c = false)
    (more : List Char) (rest : List (Option Char)) :
    scan .between ((cs ++ c :: more).map some ++ rest) =
      (scan .between (more.map some ++ rest)).map (tokens ++ t :: ·) := by
  have hSplit : (cs ++ c :: more).map some ++ rest = cs.map some ++ some c :: (more.map some ++ rest) := by
    simp
  have hRead := scan_mark hMark more rest
  rw [List.map_cons, List.cons_append] at hRead
  rw [hSplit, h _ (separates_of_mark hc _), hRead, Option.map_map]
  rfl

/-! ## Values -/

/-- The part is read as the value, wherever a value is expected. It does not begin like the end of a
list. -/
def ReadsAs (cs : List Char) (v : Value) : Prop :=
  ∃ t tokens, t ≠ .closeList ∧ Scans cs (t :: tokens) ∧
    ∀ enclosing rest, Reader.read ⟨.value, enclosing⟩ (t :: tokens ++ rest) =
      Reader.read (.complete v enclosing) rest

theorem readsAs_text (s : String) : ReadsAs (writeText s) (.text (some s)) :=
  ⟨_, [], by simp, scans_writeText s, fun _ _ => rfl⟩

theorem readsAs_number (n : BlockNum) : ReadsAs (writeNum n) (.number (some n.toNat)) :=
  ⟨_, [], by simp, scans_writeNum n, fun _ _ => rfl⟩

/-- Items after the first, each behind a comma. -/
theorem scans_items {parts : List (List Char)} {values : List Value}
    (h : List.Forall₂ ReadsAs parts values) (hNonempty : parts ≠ []) :
    ∃ t tokens, t ≠ .closeList ∧ Scans (commaSeparated parts) (t :: tokens) ∧
      ∀ items enclosing rest,
        Reader.read ⟨.value, .list items :: enclosing⟩ (t :: tokens ++ rest) =
          Reader.read ⟨.afterItem (items ++ values), enclosing⟩ rest := by
  induction h with
  | nil => exact absurd rfl hNonempty
  | @cons part v parts values hPart hParts ih =>
    obtain ⟨t, tokens, hOpen, hScans, hRead⟩ := hPart
    cases hParts with
    | nil => exact ⟨t, tokens, hOpen, hScans, fun items enclosing rest => hRead _ _⟩
    | cons hNext hMore =>
      obtain ⟨u, more, hOpen', hScans', hRead'⟩ := ih (List.cons_ne_nil _ _)
      refine ⟨t, tokens ++ .comma :: u :: more, hOpen, ?_, ?_⟩
      · intro rest hRest
        rw [commaSeparated, hScans.then_mark rfl rfl, hScans' _ hRest]
        · simp [Function.comp_def]
        · simp
      · intro items enclosing rest
        have hSplit : t :: (tokens ++ .comma :: u :: more) ++ rest =
            t :: tokens ++ (.comma :: (u :: more ++ rest)) := by simp
        rw [hSplit, hRead, Reader.read]
        have hAgain := hRead' (items ++ [v]) enclosing rest
        rw [List.append_assoc, List.singleton_append] at hAgain
        exact hAgain

theorem readsAs_list {parts : List (List Char)} {values : List Value}
    (h : List.Forall₂ ReadsAs parts values) : ReadsAs (writeList parts) (.list values) := by
  cases h with
  | nil =>
    refine ⟨.openList, [.closeList], by simp, ?_, fun _ _ => rfl⟩
    intro rest _
    have hWritten : writeList [] = ['[', ']'] := rfl
    rw [hWritten, scan_mark rfl, scan_mark rfl]
    simp [Function.comp_def]
  | cons hPart hParts =>
    obtain ⟨t, tokens, hOpen, hScans, hRead⟩ := scans_items (.cons hPart hParts) (List.cons_ne_nil _ _)
    refine ⟨.openList, t :: tokens ++ [.closeList], by simp, ?_, ?_⟩
    · intro rest hRest
      rw [writeList, List.cons_append, scan_mark rfl, hScans.then_mark rfl rfl]
      simp [Function.comp_def]
    · intro enclosing rest
      have hSplit : .openList :: (t :: tokens ++ [.closeList]) ++ rest =
          .openList :: (t :: tokens ++ (.closeList :: rest)) := by simp
      have hFirst : ∀ more, Reader.read ⟨.firstItem, enclosing⟩ (t :: more) =
          Reader.read ⟨.value, .list [] :: enclosing⟩ (t :: more) := by
        intro more
        cases t <;> first | rfl | exact absurd rfl hOpen
      rw [hSplit, Reader.read]
      have hItems := hRead [] enclosing (.closeList :: rest)
      rw [List.nil_append] at hItems
      exact (hFirst _).trans hItems

/-- Fields after the first, each behind a comma. -/
theorem scans_fields {fields : List (String × List Char)} {values : List Value}
    (h : List.Forall₂ ReadsAs (fields.map Prod.snd) values) (hNonempty : fields ≠ []) :
    ∃ key tokens,
      Scans (commaSeparated (fields.map fun (key, value) => writeText key ++ ':' :: value))
        (.text (some key) :: .colon :: tokens) ∧
      ∀ before enclosing rest,
        Reader.read ⟨.value, .record before (some key) :: enclosing⟩ (tokens ++ rest) =
          Reader.read ⟨.afterField (before ++ (fields.map fun f => some f.1).zip values), enclosing⟩ rest := by
  induction fields generalizing values with
  | nil => exact absurd rfl hNonempty
  | cons field fields ih =>
    obtain ⟨key, part⟩ := field
    cases h with
    | @cons _ v _ values hPart hParts =>
      obtain ⟨t, tokens, -, hScans, hRead⟩ := hPart
      have hField : ∀ rest, Separates rest →
          scan .between ((writeText key ++ ':' :: part).map some ++ rest) =
            (scan .between rest).map (.text (some key) :: .colon :: t :: tokens ++ ·) := by
        intro rest hRest
        rw [(scans_writeText key).then_mark rfl rfl, hScans rest hRest]
        simp [Function.comp_def]
      cases fields with
      | nil =>
        cases hParts
        exact ⟨key, t :: tokens, hField, fun before enclosing rest => hRead _ _⟩
      | cons next fields =>
        obtain ⟨key', more, hScans', hRead'⟩ := ih hParts (List.cons_ne_nil _ _)
        refine ⟨key, t :: tokens ++ .comma :: .text (some key') :: .colon :: more, ?_, ?_⟩
        · intro rest hRest
          rw [List.map_cons, commaSeparated, Scans.then_mark hField rfl rfl, hScans' rest hRest]
          · simp [Function.comp_def]
          · simp
        · intro before enclosing rest
          have hSplit : t :: tokens ++ .comma :: .text (some key') :: .colon :: more ++ rest =
              t :: tokens ++ (.comma :: .text (some key') :: .colon :: (more ++ rest)) := by simp
          rw [hSplit, hRead]
          have hAgain := hRead' (before ++ [(some key, v)]) enclosing rest
          rw [List.append_assoc] at hAgain
          exact hAgain

theorem readsAs_record {fields : List (String × List Char)} {values : List Value}
    (h : List.Forall₂ ReadsAs (fields.map Prod.snd) values) (hNonempty : fields ≠ []) :
    ReadsAs (writeRecord fields) (.record ((fields.map fun f => some f.1).zip values)) := by
  obtain ⟨key, tokens, hScans, hRead⟩ := scans_fields h hNonempty
  refine ⟨.openRecord, .text (some key) :: .colon :: tokens ++ [.closeRecord], by simp, ?_, ?_⟩
  · intro rest hRest
    rw [writeRecord, List.cons_append, scan_mark rfl, hScans.then_mark rfl rfl]
    simp [Function.comp_def]
  · intro enclosing rest
    have hFields := hRead [] enclosing (.closeRecord :: rest)
    have hSplit : .openRecord :: (.text (some key) :: .colon :: tokens ++ [.closeRecord]) ++ rest =
        .openRecord :: .text (some key) :: .colon :: (tokens ++ (.closeRecord :: rest)) := by simp
    rw [hSplit]
    exact hFields

theorem read?_line {cs : List Char} {v : Value} (h : ReadsAs cs v) :
    Value.read? ((cs ++ ['\n']).map some) = some v := by
  obtain ⟨t, tokens, -, hScans, hRead⟩ := h
  have hEnd : scan .between [some '\n'] = some [] := rfl
  have hTokens : tokens? ((cs ++ ['\n']).map some) = some (t :: tokens) := by
    rw [tokens?, List.map_append, List.map_singleton, hScans _ (separates_of_mark rfl _), hEnd]
    simp
  have hDone := hRead [] []
  rw [List.append_nil] at hDone
  rw [Value.read?, hTokens]
  simp only [Reader.start, hDone]
  rfl

/-! ## Lines -/

/-- Without control characters, so that no line ends within. -/
def Unbroken (cs : List Char) : Prop :=
  ∀ c ∈ cs, 0x20 ≤ c.toNat

theorem unbroken_append {cs more : List Char} (h : Unbroken cs) (hMore : Unbroken more) : Unbroken (cs ++ more) :=
  List.forall_mem_append.mpr ⟨h, hMore⟩

theorem unbroken_escapeChar (c : Char) : Unbroken (escapeChar c) := by
  have hAll : ∀ k < 16, 0x20 ≤ (Nat.digitChar k).toNat := by decide
  have hDigit : ∀ n, 0x20 ≤ (hexDigit n).toNat := fun n => hAll (n % 16) (Nat.mod_lt n (by decide))
  unfold escapeChar
  split_ifs
  case neg hLow => simpa [Unbroken] using hLow
  all_goals simp [Unbroken, hDigit]

theorem unbroken_writeText (s : String) : Unbroken (writeText s) := by
  have hQuote : Unbroken ['"'] := by simp [Unbroken]
  refine unbroken_append (unbroken_append hQuote fun d hd => ?_) hQuote
  obtain ⟨c, -, hd⟩ := List.mem_flatMap.mp hd
  exact unbroken_escapeChar c d hd

theorem unbroken_writeNum (n : BlockNum) : Unbroken (writeNum n) := by
  intro c hc
  have hDigit : c.isDigit = true := Nat.isDigit_of_mem_toDigits (by decide) (by decide) hc
  simp only [Char.isDigit, Bool.and_eq_true, decide_eq_true_eq] at hDigit
  exact Nat.le_trans (by decide) hDigit.1

theorem unbroken_commaSeparated {parts : List (List Char)} (h : ∀ part ∈ parts, Unbroken part) :
    Unbroken (commaSeparated parts) := by
  induction parts with
  | nil => simp [Unbroken, commaSeparated]
  | cons part parts ih =>
    obtain ⟨hPart, hParts⟩ := List.forall_mem_cons.mp h
    cases parts with
    | nil => exact hPart
    | cons next parts =>
      have hComma : Unbroken [','] := by simp [Unbroken]
      exact unbroken_append hPart (unbroken_append hComma (ih hParts))

theorem unbroken_writeList {items : List (List Char)} (h : ∀ item ∈ items, Unbroken item) :
    Unbroken (writeList items) := by
  have hOpen : Unbroken ['['] := by simp [Unbroken]
  have hClose : Unbroken [']'] := by simp [Unbroken]
  exact unbroken_append (unbroken_append hOpen (unbroken_commaSeparated h)) hClose

theorem unbroken_writeRecord {fields : List (String × List Char)} (h : ∀ field ∈ fields, Unbroken field.2) :
    Unbroken (writeRecord fields) := by
  have hOpen : Unbroken ['\x7b'] := by simp [Unbroken]
  have hClose : Unbroken ['\x7d'] := by simp [Unbroken]
  have hColon : Unbroken [':'] := by simp [Unbroken]
  refine unbroken_append (unbroken_append hOpen (unbroken_commaSeparated fun part hPart => ?_)) hClose
  obtain ⟨⟨key, value⟩, hField, rfl⟩ := List.mem_map.mp hPart
  exact unbroken_append (unbroken_writeText key) (unbroken_append hColon (h _ hField))

end ChainFeed.Json
