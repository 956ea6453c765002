/-! # Paths

A path names the way to something on the disk, part by part. It keeps every part as it is written, the
empty ones too, so it is shown again as it was given.
-/

set_option autoImplicit false

namespace ChainFeed

/-- What stands between the slashes, in order. -/
structure Path where
  parts : List String
  deriving DecidableEq, Repr

namespace Path

def splitAtSlashes : List Char → List (List Char)
  | [] => [[]]
  | c :: rest =>
    if c = '/' then [] :: splitAtSlashes rest
    else
      match splitAtSlashes rest with
      | [] => [[c]]
      | part :: parts => (c :: part) :: parts

def joinWithSlashes : List (List Char) → List Char
  | [] => []
  | [part] => part
  | part :: next :: parts => part ++ '/' :: joinWithSlashes (next :: parts)

theorem joinWithSlashes_splitAtSlashes (cs : List Char) :
    joinWithSlashes (splitAtSlashes cs) = cs := by
  induction cs with
  | nil => rfl
  | cons c rest ih =>
    have nonempty : splitAtSlashes rest ≠ [] := by
      cases rest with
      | nil => simp [splitAtSlashes]
      | cons d more =>
        rw [splitAtSlashes]
        split
        · simp
        · split <;> simp
    rw [splitAtSlashes]
    obtain ⟨part, parts, split_rest⟩ := List.exists_cons_of_ne_nil nonempty
    rw [split_rest] at ih ⊢
    split
    next slash => rw [joinWithSlashes, ih, slash, List.nil_append]
    next =>
      cases parts with
      | nil => exact congrArg (c :: ·) ih
      | cons next more => exact congrArg (c :: ·) ih

def ofText (s : String) : Path :=
  ⟨(splitAtSlashes s.toList).map String.ofList⟩

def text (p : Path) : String :=
  String.ofList (joinWithSlashes (p.parts.map String.toList))

theorem text_ofText (s : String) : (ofText s).text = s := by
  have same : String.toList ∘ String.ofList = id := by
    funext cs
    exact String.toList_ofList
  rw [ofText, text, List.map_map, same, List.map_id, joinWithSlashes_splitAtSlashes]
  exact String.ofList_toList

/-- The path of `name` in the folder `dir`. A slash at the end of `dir` is not doubled. -/
def join (dir : Path) (name : String) : Path :=
  match dir.parts.getLast? with
  | some "" => ⟨dir.parts.dropLast ++ [name]⟩
  | _ => ⟨dir.parts ++ [name]⟩

/-- Whether a part leads from a folder to that folder itself. -/
def staysThere (part : String) : Bool :=
  part = "" || part = "."

/-- Whether a part leads from a folder to the one around it. -/
def leadsOut (part : String) : Bool :=
  part = ".."

/-- The bytes that one name may have. -/
def nameLimit : Nat := 255

/-- The bytes that a whole path may have. -/
def lengthLimit : Nat := 4095

/-- The bytes of the path as text. -/
def length (p : Path) : Nat :=
  p.parts.foldr (fun part bytes => part.utf8ByteSize + bytes) 0 + (p.parts.length - 1)

/-- Paths that are too long or hold the null character lead nowhere. -/
def isUsable (p : Path) : Bool :=
  p.length ≤ lengthLimit && p.parts.all fun part => !part.toList.contains '\x00'

/-- The parts without the slashes they end with. -/
def withoutEndSlashes (parts : List String) : List String :=
  (parts.reverse.dropWhile fun part => part = "").reverse

/-- What the path names, unless it is written as a folder: the last part, if that is a name. -/
def fileName? (p : Path) : Option String :=
  match p.parts.getLast? with
  | some part => if staysThere part || leadsOut part then none else some part
  | none => none

/-- The paths that end where a part of `rest` leads on, each with all parts before it. -/
def leading (done : List String) : List String → List Path
  | [] => []
  | part :: rest =>
    let here := done ++ [part]
    if staysThere part then leading here rest else ⟨here⟩ :: leading here rest

/-- The folders on the way to the folder `p`, outermost first, and `p` itself. -/
def foldersTo (p : Path) : List Path :=
  if p.isUsable then (leading [] p.parts).dropLast ++ [p] else [p]

end Path

end ChainFeed
