import ChainFeed.Sink.Basic
import ChainFeed.Text.Base64
import ChainFeed.Text.Utf8

/-! # The console sink

Blocks are written as lines for a reader process: one opening line with the type URL, then one line for
each block, its fields separated by single spaces and its content in Base64.
-/

set_option autoImplicit false

namespace ChainFeed

/-- Takes bytes in order until `room` of them are taken, then fails; without `room` it never does.
Flushes are numbered from one and fail where `flushFails` says. The bytes are kept newest first, so that
adding to them is quick. -/
structure Writer where
  past : List UInt8
  room : Option Nat
  flushes : Nat
  flushFails : Nat → Bool

namespace Writer

def fullText : String := "sink is full"

def flushText : String := "flush failed"

/-- The bytes taken so far, in order. -/
def taken (w : Writer) : List UInt8 := w.past.reverse

/-- How many of `count` bytes the writer takes. -/
def accepts (w : Writer) (count : Nat) : Nat :=
  match w.room with
  | none => count
  | some room => min room count

def write (w : Writer) (bytes : List UInt8) : Except String Unit × Writer :=
  let count := w.accepts bytes.length
  let after := { w with
    past := (bytes.take count).reverse ++ w.past
    room := w.room.map (· - count) }
  (if count = bytes.length then .ok () else .error fullText, after)

def flush (w : Writer) : Except String Unit × Writer :=
  let number := w.flushes + 1
  (if w.flushFails number then .error flushText else .ok (), { w with flushes := number })

/-- Write the bytes, and flush if all of them were taken. -/
def writeThrough (w : Writer) (bytes : List UInt8) : Except String Unit × Writer :=
  match w.write bytes with
  | (.error cause, w) => (.error cause, w)
  | (.ok (), w) => w.flush

end Writer

structure Console where
  typeUrl : String
  writer : Writer

namespace Console

def decimal (n : UInt64) : List Char := Nat.toDigits 10 n.toNat

def openingLine (typeUrl : String) : List Char :=
  "FIRE INIT 1.0 ".toList ++ typeUrl.toList ++ ['\n']

/-- The fields of a block line, in order. -/
def fields (b : Block) : List (List Char) :=
  [decimal b.num, b.id.toList, decimal b.parentNum, b.parentId.toList, decimal b.libNum,
    decimal b.timestamp, Text.Base64.encode b.payload.value]

def blockLine (b : Block) : List Char :=
  "FIRE BLOCK".toList ++ (fields b).flatMap (fun field => ' ' :: field) ++ ['\n']

def emit (c : Console) (line : List Char) : Delivery × Console :=
  match c.writer.writeThrough (Text.utf8 line) with
  | (.error cause, writer) => (.refused (.write cause), { c with writer := writer })
  | (.ok (), writer) => (.accepted, { c with writer := writer })

def opening (c : Console) : Delivery × Console :=
  c.emit (openingLine c.typeUrl)

def deliver (c : Console) (b : Block) : Delivery × Console :=
  if b.payload.typeUrl = c.typeUrl then c.emit (blockLine b)
  else (.refused (.typeUrl b.payload.typeUrl c.typeUrl), c)

def sink : Sink Console where
  opening := opening
  deliver := deliver

end Console

end ChainFeed
