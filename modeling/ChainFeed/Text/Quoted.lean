import ChainFeed.Text.Hidden

/-! # Quoted text

Text between double quotes. The quote, the backslash and the common control characters have short
escapes; every other character that is not shown as it is stands as its code in lower-case
hexadecimal.
-/

set_option autoImplicit false

namespace ChainFeed.Text

def quoteChar (c : Char) : List Char :=
  if c = '"' then ['\\', '"']
  else if c = '\\' then ['\\', '\\']
  else if c = '\n' then ['\\', 'n']
  else if c = '\r' then ['\\', 'r']
  else if c = '\t' then ['\\', 't']
  else if c = '\x00' then ['\\', '0']
  else if isHidden c then ['\\', 'u', '\x7b'] ++ Nat.toDigits 16 c.toNat ++ ['\x7d']
  else [c]

def quoted (s : String) : String :=
  String.ofList ('"' :: s.toList.flatMap quoteChar ++ ['"'])

end ChainFeed.Text
