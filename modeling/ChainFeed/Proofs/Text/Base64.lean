import ChainFeed.Text.Base64
import Mathlib.Data.List.Basic

/-! # Reading Base64

Four digits are read as three bytes. In the last group one or two `=` stand for bytes that are missing, and there
are none before. What was written is read back, whatever number of bytes the last group has.
-/

set_option autoImplicit false

namespace ChainFeed.Text.Base64

/-- The six bits that a digit stands for. -/
def value? (c : Char) : Option Nat :=
  alphabet.idxOf? c

/-- The number that the digits stand for, highest first. -/
def number? : List Char → Option Nat :=
  List.foldlM (fun n c => (value? c).map (n * 64 + ·)) 0

/-- The bytes of a group of four digits. -/
def group? (c d e f : Char) : Option (List UInt8) :=
  if f ≠ '=' then
    (number? [c, d, e, f]).map fun n => [(n / 65536).toUInt8, (n / 256).toUInt8, n.toUInt8]
  else if e ≠ '=' then (number? [c, d, e]).map fun n => [(n / 1024).toUInt8, (n / 4).toUInt8]
  else (number? [c, d]).map fun n => [(n / 16).toUInt8]

/-- The bytes that the text stands for, if it is well-formed. -/
def decode? : List Char → Option (List UInt8)
  | [] => some []
  | c :: d :: e :: f :: rest =>
    if f = '=' ∧ rest ≠ [] then none
    else (group? c d e f).bind fun bytes => (decode? rest).map (bytes ++ ·)
  | _ => none

theorem value?_digit (n : Nat) : value? (digit n) = some (n % 64) := by
  have hAll : ∀ k < 64, alphabet.idxOf? (alphabet.getD k 'A') = some k := by decide +kernel
  exact hAll (n % 64) (Nat.mod_lt n (by decide))

theorem digit_ne_pad (n : Nat) : digit n ≠ '=' := by
  intro h
  have hValue := value?_digit n
  rw [h] at hValue
  cases hValue

theorem number?_digits (ns : List Nat) :
    number? (ns.map digit) = some (ns.foldl (fun n k => n * 64 + k % 64) 0) := by
  rw [number?, List.foldlM_map]
  simp only [value?_digit, Option.map_some]
  generalize 0 = start
  induction ns generalizing start with
  | nil => rfl
  | cons n ns ih => exact ih _

theorem number?_eq (ns : List Nat) {n : Nat} (h : ns.foldl (fun n k => n * 64 + k % 64) 0 = n) :
    number? (ns.map digit) = some n :=
  (number?_digits ns).trans (congrArg some h)

theorem toUInt8_eq {n : Nat} {b : UInt8} (h : n % 256 = b.toNat) : n.toUInt8 = b :=
  UInt8.toNat_inj.mp (UInt8.toNat_ofNat'.trans h)

/-- Padding in front of more digits is refused, and there is none in a group that stands alone. -/
theorem decode?_group {c d e f : Char} {bytes : List UInt8} {rest : List Char} (hGroup : group? c d e f = some bytes)
    (hPad : f = '=' → rest = []) : decode? (c :: d :: e :: f :: rest) = (decode? rest).map (bytes ++ ·) := by
  rw [decode?, if_neg fun h => h.2 (hPad h.1), hGroup, Option.bind_some]

theorem decode?_encode (bytes : List UInt8) : decode? (encode bytes) = some bytes := by
  fun_induction encode bytes with
  | case1 => rfl
  | case2 a n =>
    have hSize : a.toNat < 256 := a.toNat_lt
    have hNumber : number? [digit (n / 64), digit n] = some n := by
      refine number?_eq [n / 64, n] ?_
      simp only [List.foldl_cons, List.foldl_nil]
      omega
    have hGroup : group? (digit (n / 64)) (digit n) '=' '=' = some [a] := by
      rw [group?, if_neg (by simp), if_neg (by simp), hNumber, Option.map_some, toUInt8_eq (b := a) (by omega)]
    rw [decode?_group hGroup fun _ => rfl]
    rfl
  | case3 a b n =>
    have hSize : a.toNat < 256 ∧ b.toNat < 256 := ⟨a.toNat_lt, b.toNat_lt⟩
    have hNumber : number? [digit (n / 4096), digit (n / 64), digit n] = some n := by
      refine number?_eq [n / 4096, n / 64, n] ?_
      simp only [List.foldl_cons, List.foldl_nil]
      omega
    have hGroup : group? (digit (n / 4096)) (digit (n / 64)) (digit n) '=' = some [a, b] := by
      rw [group?, if_neg (by simp), if_pos (digit_ne_pad n), hNumber, Option.map_some,
        toUInt8_eq (b := a) (by omega), toUInt8_eq (b := b) (by omega)]
    rw [decode?_group hGroup fun _ => rfl]
    rfl
  | case4 a b c rest n ih =>
    have hSize : a.toNat < 256 ∧ b.toNat < 256 ∧ c.toNat < 256 := ⟨a.toNat_lt, b.toNat_lt, c.toNat_lt⟩
    have hNumber : number? [digit (n / 262144), digit (n / 4096), digit (n / 64), digit n] = some n := by
      refine number?_eq [n / 262144, n / 4096, n / 64, n] ?_
      simp only [List.foldl_cons, List.foldl_nil]
      omega
    have hGroup : group? (digit (n / 262144)) (digit (n / 4096)) (digit (n / 64)) (digit n) = some [a, b, c] := by
      rw [group?, if_pos (digit_ne_pad n), hNumber, Option.map_some, toUInt8_eq (b := a) (by omega),
        toUInt8_eq (b := b) (by omega), toUInt8_eq (b := c) (by omega)]
    rw [decode?_group hGroup fun hPad => absurd hPad (digit_ne_pad n), ih]
    rfl

theorem mem_encode {bytes : List UInt8} {c : Char} (h : c ∈ encode bytes) : c = '=' ∨ ∃ n, c = digit n := by
  fun_induction encode bytes with
  | case1 => cases h
  | case2 a n =>
    simp only [List.mem_cons, List.not_mem_nil, or_false] at h
    grind
  | case3 a b n =>
    simp only [List.mem_cons, List.not_mem_nil, or_false] at h
    grind
  | case4 a b c' rest n ih =>
    simp only [List.mem_cons] at h
    grind

/-- A character outside the alphabet is not written, unless it is padding. -/
theorem not_mem_encode {bytes : List UInt8} {c : Char} (hPad : c ≠ '=') (hOther : value? c = none) :
    c ∉ encode bytes := by
  intro h
  obtain hEq | ⟨n, rfl⟩ := mem_encode h
  · exact hPad hEq
  · rw [value?_digit] at hOther
    cases hOther

example : decode? "AQI=".toList = some [1, 2] ∧ decode? "AQ==AQID".toList = none := by decide +kernel

end ChainFeed.Text.Base64
