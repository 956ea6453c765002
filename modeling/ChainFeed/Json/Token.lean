/-! # JSON tokens

Symbols of a document are read one at a time; a symbol that is `none` stands for a byte outside any
well-formed character. Text keeps whether it can be represented at all: a malformed byte or half of a
surrogate pair makes it `none`, and only whoever wants the text refuses it. Numbers keep their value
only if they are plain non-negative integers.
-/

set_option autoImplicit false

namespace ChainFeed.Json

inductive Token where
  | openList
  | closeList
  | openRecord
  | closeRecord
  | comma
  | colon
  | text (value : Option String)
  | number (value : Option Nat)
  | null
  | bool (value : Bool)
  deriving DecidableEq, Repr

/-- What text is made of: characters, codes of `\u` escapes, malformed bytes. -/
inductive Piece where
  | char (c : Char)
  | code (unit : Nat)
  | malformed
  deriving DecidableEq, Repr

def isHighSurrogate (unit : Nat) : Bool := 0xD800 ≤ unit && unit ≤ 0xDBFF

def isLowSurrogate (unit : Nat) : Bool := 0xDC00 ≤ unit && unit ≤ 0xDFFF

/-- The characters that the pieces stand for. Two surrogate codes in a row make one character. -/
def assemble : List Piece → Option (List Char)
  | [] => some []
  | .char c :: rest => (assemble rest).map (c :: ·)
  | .malformed :: _ => none
  | .code high :: .code low :: rest =>
    if isHighSurrogate high then
      if isLowSurrogate low then
        (assemble rest).map (Char.ofNat (0x10000 + (high - 0xD800) * 0x400 + (low - 0xDC00)) :: ·)
      else none
    else if isLowSurrogate high then none
    else (assemble (.code low :: rest)).map (Char.ofNat high :: ·)
  | .code unit :: rest =>
    if isHighSurrogate unit || isLowSurrogate unit then none
    else (assemble rest).map (Char.ofNat unit :: ·)

/-- Digits without a needless zero in front. -/
def isInteger (digits : List Char) : Bool :=
  match digits with
  | [] => false
  | ['0'] => true
  | '0' :: _ => false
  | _ => digits.all Char.isDigit

/-- The end of a number after its integer part and fraction: nothing, or an exponent. -/
def isExponent (cs : List Char) : Bool :=
  match cs with
  | [] => true
  | e :: rest =>
    let digits := match rest with
      | sign :: more => if sign = '+' || sign = '-' then more else rest
      | [] => []
    (e = 'e' || e = 'E') && !digits.isEmpty && digits.all Char.isDigit

/-- The end of a number after its integer part. -/
def isFraction (cs : List Char) : Bool :=
  match cs with
  | '.' :: rest =>
    !(rest.takeWhile Char.isDigit).isEmpty && isExponent (rest.dropWhile Char.isDigit)
  | _ => isExponent cs

def numberToken? (literal : List Char) : Option Token :=
  let unsigned := match literal with
    | '-' :: rest => rest
    | _ => literal
  let digits := unsigned.takeWhile Char.isDigit
  let rest := unsigned.dropWhile Char.isDigit
  if isInteger digits && isFraction rest then
    some (.number (if digits = literal then some (Nat.ofDigitChars 10 digits 0) else none))
  else none

def wordToken? (word : List Char) : Option Token :=
  if word = ['n', 'u', 'l', 'l'] then some .null
  else if word = ['t', 'r', 'u', 'e'] then some (.bool true)
  else if word = ['f', 'a', 'l', 's', 'e'] then some (.bool false)
  else none

def textToken (reversed : List Piece) : Token :=
  .text ((assemble reversed.reverse).map String.ofList)

/-- Where the reader stands between two symbols. What was read of a token is kept in reverse. -/
inductive Mode where
  | between
  | inNumber (read : List Char)
  | inWord (read : List Char)
  | inText (read : List Piece)
  | inEscape (read : List Piece)
  | inCode (read : List Piece) (missing : Nat) (code : Nat)
  deriving DecidableEq, Repr

def isNumberChar (c : Char) : Bool :=
  c.isDigit || c = '-' || c = '+' || c = '.' || c = 'e' || c = 'E'

def isBlank (c : Char) : Bool :=
  c = ' ' || c = '\t' || c = '\n' || c = '\r'

def hexValue? (c : Char) : Option Nat :=
  if '0' ≤ c ∧ c ≤ '9' then some (c.toNat - '0'.toNat)
  else if 'a' ≤ c ∧ c ≤ 'f' then some (c.toNat - 'a'.toNat + 10)
  else if 'A' ≤ c ∧ c ≤ 'F' then some (c.toNat - 'A'.toNat + 10)
  else none

def shortEscape? (c : Char) : Option Char :=
  if c = '"' ∨ c = '\\' ∨ c = '/' then some c
  else if c = 'b' then some '\x08'
  else if c = 'f' then some '\x0c'
  else if c = 'n' then some '\n'
  else if c = 'r' then some '\r'
  else if c = 't' then some '\t'
  else none

/-- A symbol between tokens. -/
def beginToken (c : Char) : Option (Mode × List Token) :=
  if isBlank c then some (.between, [])
  else if c = '[' then some (.between, [.openList])
  else if c = ']' then some (.between, [.closeList])
  else if c = '\x7b' then some (.between, [.openRecord])
  else if c = '\x7d' then some (.between, [.closeRecord])
  else if c = ',' then some (.between, [.comma])
  else if c = ':' then some (.between, [.colon])
  else if c = '"' then some (.inText [], [])
  else if c.isDigit || c = '-' then some (.inNumber [c], [])
  else if c.isLower then some (.inWord [c], [])
  else none

/-- The mode after one more symbol, and the tokens it completes. -/
def Mode.next : Mode → Option Char → Option (Mode × List Token)
  | between, some c => beginToken c
  | inNumber read, some c =>
    if isNumberChar c then some (inNumber (c :: read), [])
    else (numberToken? read.reverse).bind fun t =>
      (beginToken c).map fun (mode, more) => (mode, t :: more)
  | inWord read, some c =>
    if c.isLower then some (inWord (c :: read), [])
    else (wordToken? read.reverse).bind fun t =>
      (beginToken c).map fun (mode, more) => (mode, t :: more)
  | inText read, some c =>
    if c = '"' then some (between, [textToken read])
    else if c = '\\' then some (inEscape read, [])
    else if c.toNat < 0x20 then none
    else some (inText (.char c :: read), [])
  | inText read, none => some (inText (.malformed :: read), [])
  | inEscape read, some c =>
    if c = 'u' then some (inCode read 4 0, [])
    else (shortEscape? c).map fun e => (inText (.char e :: read), [])
  | inCode read missing code, some c =>
    (hexValue? c).map fun digit =>
      let code := code * 16 + digit
      if missing ≤ 1 then (inText (.code code :: read), []) else (inCode read (missing - 1) code, [])
  | _, none => none

/-- The tokens that the end of the document completes. -/
def Mode.finish : Mode → Option (List Token)
  | between => some []
  | inNumber read => (numberToken? read.reverse).map ([·])
  | inWord read => (wordToken? read.reverse).map ([·])
  | _ => none

def scan : Mode → List (Option Char) → Option (List Token)
  | mode, [] => mode.finish
  | mode, s :: rest =>
    match mode.next s with
    | none => none
    | some (mode, tokens) => (scan mode rest).map (tokens ++ ·)

def tokens? (document : List (Option Char)) : Option (List Token) :=
  scan .between document

end ChainFeed.Json
