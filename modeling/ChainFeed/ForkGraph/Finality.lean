import ChainFeed.ForkGraph.Ancestry

/-! # The last irreversible block

The LIB is set once and then moves only upward, along the ancestry of a block that was just
connected to it. Until the source itself reports a LIB, lower reports are ignored; afterwards they
are an error.
-/

set_option autoImplicit false

namespace ChainFeed

inductive ForkError where
  | libMissing
  | libPresent (lib : BlockRef)
  | libBackward (current requested : BlockNum)
  | belowLib (requested lib : BlockNum)
  | blockMissing (id : BlockId)
  deriving DecidableEq, Repr

def ForkError.message : ForkError → String
  | libMissing => "fork db lib has not been initialized"
  | libPresent lib => s!"fork db lib is already initialized at {lib.text}"
  | libBackward current requested => s!"lib cannot move backward from #{current} to #{requested}"
  | belowLib requested lib =>
    s!"block #{requested} is below the current lib #{lib}, there should be no re-org below the lib"
  | blockMissing id => s!"block {id} expected in fork db but not found"

/-- A LIB number may not fall. -/
def checkMonotonic (current requested : BlockNum) : Except ForkError Unit :=
  if requested < current then .error (.libBackward current requested) else .ok ()

/-- A block below the LIB may not be asked for. -/
def checkAboveLib (requested lib : BlockNum) : Except ForkError Unit :=
  if requested < lib then .error (.belowLib requested lib) else .ok ()

/-- What a reported LIB number did to the LIB. -/
inductive LibMove where
  /-- The number is below a LIB the source never reported. -/
  | belowStart (current : BlockRef)
  /-- The number is the LIB's own. -/
  | confirmed
  | moved (old new : BlockRef)
  /-- No block with the number was found in the ancestry. -/
  | notFound (current : BlockRef)
  deriving DecidableEq, Repr

def LibMove.newLib? : LibMove → Option BlockRef
  | moved _ new => some new
  | _ => none

namespace ForkGraph

/-- The graph with its starting LIB, which the source has not reported yet. -/
def initLib (g : ForkGraph) (lib : BlockRef) : Except ForkError ForkGraph :=
  match g.lib with
  | some current => .error (.libPresent current)
  | none => .ok { g with lib := some lib, libReported := false }

/-- Move the LIB to the block numbered `num` in the ancestry of `head`. -/
def advanceLib (g : ForkGraph) (head : BlockRef) (num : BlockNum) :
    Except ForkError (ForkGraph × LibMove) :=
  match g.lib with
  | none => .error .libMissing
  | some current =>
    if !g.libReported && num < current.num then .ok (g, .belowStart current)
    else
      match checkMonotonic current.num num with
      | .error e => .error e
      | .ok () =>
        if num = current.num then .ok ({ g with libReported := true }, .confirmed)
        else
          match g.ancestorAt? head num with
          | some new => .ok ({ g with lib := some new, libReported := true }, .moved current new)
          | none => .ok (g, .notFound current)

/-- The blocks below the LIB, ascending. -/
def belowLib (g : ForkGraph) : List BlockRef :=
  (g.nodes.filter fun n => n.num < g.libNum).map fun n => n.block

/-- The graph without the blocks below the LIB. -/
def purge (g : ForkGraph) : ForkGraph :=
  g.keep fun n => g.libNum ≤ n.num

end ForkGraph

end ChainFeed
