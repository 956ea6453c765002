import ChainFeed.Block
import ChainFeed.Text.Quoted

/-! # Sinks

A sink takes the blocks of a run. It is a machine with a state of its own, which may accept a block,
refuse it, or crash.
-/

set_option autoImplicit false

namespace ChainFeed

inductive Refusal where
  | typeUrl (actual expected : String)
  | write (cause : String)
  | rejected (reason : String)
  deriving DecidableEq, Repr

def Refusal.message : Refusal → String
  | typeUrl actual expected =>
    s!"block type url {Text.quoted actual} does not match expected type {Text.quoted expected}"
  | write cause => s!"unable to write block line: {cause}"
  | rejected reason => s!"block rejected: {reason}"

inductive Delivery where
  | accepted
  | refused (refusal : Refusal)
  | crashed (reason : String)
  deriving DecidableEq, Repr

structure Sink (τ : Type) where
  opening : τ → Delivery × τ
  deliver : τ → Block → Delivery × τ

namespace Sink

/-- Treats each block as `verdict` says. -/
def judging (opening : Delivery) (verdict : Block → Delivery) : Sink Unit where
  opening s := (opening, s)
  deliver s b := (verdict b, s)

end Sink

end ChainFeed
