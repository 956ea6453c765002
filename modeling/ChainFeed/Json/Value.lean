import ChainFeed.Json.Token

/-! # JSON values

A document is read token by token. Lists and records that are part way through are kept on a stack, so
nesting has no limit.
-/

set_option autoImplicit false

namespace ChainFeed.Json

inductive Value where
  | null
  | bool (value : Bool)
  | number (value : Option Nat)
  | text (value : Option String)
  | list (items : List Value)
  | record (fields : List (Option String × Value))
  deriving Repr

/-- A container around the value in hand, with what it holds before that value. -/
inductive Frame where
  | list (items : List Value)
  | record (fields : List (Option String × Value)) (key : Option String)
  deriving Repr

/-- What may come next. -/
inductive Expect where
  | value
  | firstItem
  | afterItem (items : List Value)
  | firstKey
  | key (fields : List (Option String × Value))
  | colon (fields : List (Option String × Value)) (key : Option String)
  | afterField (fields : List (Option String × Value))
  | done (document : Value)
  deriving Repr

structure Reader where
  expect : Expect
  enclosing : List Frame
  deriving Repr

namespace Reader

def start : Reader := ⟨.value, []⟩

/-- The value in hand is complete. -/
def complete (v : Value) : List Frame → Reader
  | [] => ⟨.done v, []⟩
  | .list items :: rest => ⟨.afterItem (items ++ [v]), rest⟩
  | .record fields key :: rest => ⟨.afterField (fields ++ [(key, v)]), rest⟩

/-- A token where a value is expected. -/
def beginValue (t : Token) (enclosing : List Frame) : Option Reader :=
  match t with
  | .null => some (complete .null enclosing)
  | .bool b => some (complete (.bool b) enclosing)
  | .number n => some (complete (.number n) enclosing)
  | .text s => some (complete (.text s) enclosing)
  | .openList => some ⟨.firstItem, enclosing⟩
  | .openRecord => some ⟨.firstKey, enclosing⟩
  | _ => none

def next (r : Reader) (t : Token) : Option Reader :=
  match r.expect, t with
  | .value, t => beginValue t r.enclosing
  | .firstItem, .closeList => some (complete (.list []) r.enclosing)
  | .firstItem, t => beginValue t (.list [] :: r.enclosing)
  | .afterItem items, .comma => some ⟨.value, .list items :: r.enclosing⟩
  | .afterItem items, .closeList => some (complete (.list items) r.enclosing)
  | .firstKey, .closeRecord => some (complete (.record []) r.enclosing)
  | .firstKey, .text key => some ⟨.colon [] key, r.enclosing⟩
  | .key fields, .text key => some ⟨.colon fields key, r.enclosing⟩
  | .colon fields key, .colon => some ⟨.value, .record fields key :: r.enclosing⟩
  | .afterField fields, .comma => some ⟨.key fields, r.enclosing⟩
  | .afterField fields, .closeRecord => some (complete (.record fields) r.enclosing)
  | _, _ => none

def read : Reader → List Token → Option Reader
  | r, [] => some r
  | r, t :: rest =>
    match r.next t with
    | none => none
    | some r => read r rest

def document? (r : Reader) : Option Value :=
  match r.expect with
  | .done v => some v
  | _ => none

end Reader

/-- The one value of a document. -/
def Value.read? (document : List (Option Char)) : Option Value :=
  match tokens? document with
  | none => none
  | some tokens =>
    match Reader.start.read tokens with
    | none => none
    | some r => r.document?

end ChainFeed.Json
