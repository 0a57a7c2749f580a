import NodeFlow.Act
import NodeFlow.Random
import NodeFlow.Trace

/-!
# The outside of a graph

Widgets reach beyond their graph in three ways: they draw random values, they call hooks that
count their calls, and what they do can be seen.

Main results:

- Type `Outside`.
- Definitions `Outside.record` and `Outside.countCall`.
-/

namespace NodeFlow

/-- Which random source a value control draws from. -/
inductive RandomSource where
  /-- The source of the node registry. -/
  | own
  /-- The source shared by everything that has none of its own. -/
  | shared
  deriving DecidableEq, Inhabited

/-- Random sources, hook counters and the trace, its newest entry first. -/
structure Outside where
  own : Random := {}
  shared : Random := {}
  calls : List Nat := []
  trace : List Trace.Entry := []
  deriving Inhabited

namespace Outside

/-- Add an entry to the trace. -/
def record (entry : Trace.Entry) (o : Outside) : Outside := { o with trace := entry :: o.trace }

/-- The random source of that kind. -/
def random (o : Outside) : RandomSource → Random
  | .own => o.own
  | .shared => o.shared

/-- Replace a random source. -/
def setRandom (o : Outside) (source : RandomSource) (r : Random) : Outside :=
  match source with
  | .own => { o with own := r }
  | .shared => { o with shared := r }

/-- How often the hook with that counter has been called, this call included, and the counters
after it. -/
def countCall (o : Outside) (counter : Nat) : Nat × Outside :=
  let count := o.calls.getD counter 0 + 1
  (count, { o with calls := o.calls.set counter count })

/-- Set up a counter for a new hook. -/
def addCounter (o : Outside) : Nat × Outside :=
  (o.calls.length, { o with calls := o.calls ++ [0] })

end Outside

/-- Draw from a random source. -/
def draw {α : Type} (source : RandomSource) (take : Random → α × Random) : Act Outside α :=
  Act.ofExec fun o =>
    let (a, r) := take (o.random source)
    (.ok a, o.setRandom source r)

end NodeFlow
