import ChainFeed.Feed.Config

/-! # Firing a path

The blocks of a path are handed to the sink, oldest first, each unless it was fired before. A block
below the start is marked as fired without being handed over. The first refusal ends it, with the block
left unfired. Each block is looked up in the graph as it is by then.
-/

set_option autoImplicit false

namespace ChainFeed

structure Firing (τ : Type) where
  graph : ForkGraph
  sinkState : τ
  entries : List Entry
  ending : Option Ending

def fireLinks {τ : Type} (sink : Sink τ) (start : BlockNum) : List Link → ForkGraph → τ → Firing τ
  | [], g, s => ⟨g, s, [], none⟩
  | l :: rest, g, s =>
    match g.find? l.id with
    | none => ⟨g, s, [], some (.failed (.invariant (.blockMissing l.id)))⟩
    | some n =>
      if n.fired then fireLinks sink start rest g s
      else if l.num < start then fireLinks sink start rest (g.mark l.id true) s
      else
        match n.content with
        | none => ⟨g, s, [], some (.failed (.invariant (.blockMissing l.id)))⟩
        | some b =>
          match sink.deliver s b with
          | (.refused refusal, s) =>
            ⟨g, s, [.handed b (.refused refusal)], some (.failed (.delivery l.block refusal))⟩
          | (.crashed reason, s) => ⟨g, s, [.handed b (.crashed reason)], some (.crashed reason)⟩
          | (.accepted, s) =>
            let more := fireLinks sink start rest (g.mark l.id true) s
            ⟨more.graph, more.sinkState,
              .handed b .accepted :: .event (.fired l.block) :: more.entries, more.ending⟩

end ChainFeed
