import ChainFeed.Block

/-! # Writing JSON

Documents are written without blanks. Text escapes the quote, the backslash and the characters below
the space, and nothing else.
-/

set_option autoImplicit false

namespace ChainFeed.Json

def hexDigit (n : Nat) : Char :=
  Nat.digitChar (n % 16)

def escapeChar (c : Char) : List Char :=
  if c = '"' then ['\\', '"']
  else if c = '\\' then ['\\', '\\']
  else if c = '\x08' then ['\\', 'b']
  else if c = '\t' then ['\\', 't']
  else if c = '\n' then ['\\', 'n']
  else if c = '\x0c' then ['\\', 'f']
  else if c = '\r' then ['\\', 'r']
  else if c.toNat < 0x20 then ['\\', 'u', '0', '0', hexDigit (c.toNat / 16), hexDigit c.toNat]
  else [c]

def writeText (s : String) : List Char :=
  '"' :: s.toList.flatMap escapeChar ++ ['"']

def writeNum (n : BlockNum) : List Char :=
  Nat.toDigits 10 n.toNat

/-- The parts with commas between them. -/
def commaSeparated : List (List Char) → List Char
  | [] => []
  | [part] => part
  | part :: rest => part ++ ',' :: commaSeparated rest

def writeList (items : List (List Char)) : List Char :=
  '[' :: commaSeparated items ++ [']']

def writeRecord (fields : List (String × List Char)) : List Char :=
  '\x7b' :: commaSeparated (fields.map fun (key, value) => writeText key ++ ':' :: value) ++ ['\x7d']

end ChainFeed.Json
