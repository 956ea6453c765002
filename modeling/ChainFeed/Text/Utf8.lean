/-! # Bytes of text

Text is written in UTF-8. Bytes are read as symbols: a character, or nothing for a byte that begins no
well-formed character. So an ASCII byte is always read as itself, whatever stands before it.
-/

set_option autoImplicit false

namespace ChainFeed.Text

def utf8 (cs : List Char) : List UInt8 :=
  cs.flatMap String.utf8EncodeChar

/-- The character at the front of the bytes. -/
def firstChar? (bytes : List UInt8) : Option Char :=
  (bytes.take 4).toByteArray.utf8DecodeChar? 0

/-- At most `steps` symbols from the front of the bytes. -/
def readSymbols : Nat → List UInt8 → List (Option Char)
  | 0, _ => []
  | _, [] => []
  | steps + 1, b :: rest =>
    match firstChar? (b :: rest) with
    | some c => some c :: readSymbols steps ((b :: rest).drop c.utf8Size)
    | none => none :: readSymbols steps rest

/-- All symbols of the bytes; each uses up a byte at least. -/
def symbols (bytes : List UInt8) : List (Option Char) :=
  readSymbols bytes.length bytes

/-- The text of the bytes, if all of them are well-formed. -/
def ofUtf8? (bytes : List UInt8) : Option String :=
  ((symbols bytes).mapM id).map String.ofList

end ChainFeed.Text
