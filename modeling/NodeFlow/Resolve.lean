import NodeFlow.Graph.Site

/-!
# Link resolution

The producer whose value reaches an input.  Virtual nodes are followed through their paired
input, bypassed nodes through an input of the type of the input that asks: the one at the
position of the output if it matches, else the first that does.

Main results:

- Definition `Site.matchingInput?`: the way through a bypassed node.
- Definition `Site.walk`: the way from a producer to the effective one.
- Definition `Site.resolve`: the effective producer behind an input.
-/

namespace NodeFlow

/-- The effective producer behind an input, its output slot and the last link on the way. -/
structure Resolved where
  site : Site
  slot : Whole
  link : Link

namespace Site

/-- The input through which a bypassed node passes a value on. -/
def matchingInput? (inputs : List InputSlot) (slot : Int) (wanted : String) : Option Nat :=
  let fits (i : Nat) : Bool := (inputs[i]?).any (·.type == wanted)
  if 0 ≤ slot && fits slot.toNat then some slot.toNat
  else (List.range inputs.length).find? fits

/-- The next input on the way through a producer. -/
def nextInput? (producer : Site) (l : Link) (wanted : String) : Option Int :=
  if producer.isVirtual then producer.passThrough? l.originSlot.val
  else (matchingInput? producer.inputs l.originSlot.val wanted).map Int.ofNat

/-- Whether a producer passes on what it gets. -/
def isPassing (producer : Site) : Bool := producer.isVirtual || producer.isBypassed

/-- Walk on from a producer, through at most so many more passing nodes.  The question is the
node and the input that it starts from; `seen` holds the outputs already met. -/
def walk (g : Workflow) (asker : NodeId) (slot : Int) (wanted : String) :
    Nat → Nat → List (NodeId × Int) → Site → Link → Except Fault (Option Resolved)
  | left, hops, seen, producer, l =>
    if !producer.isPassing then .ok (some ⟨producer, l.originSlot, l⟩)
    else
      match left with
      | 0 => .error (.endlessChain asker slot (hops + 1))
      | left + 1 =>
        match producer.nextInput? l wanted with
        | none => .ok (some ⟨producer, l.originSlot, l⟩)
        | some next => do
          match ← producer.source g next with
          | none => pure none
          | some (producer, l) =>
            let key := (producer.id, l.originSlot.val)
            if seen.contains key then throw (.endlessChain asker slot (hops + 1))
            else walk g asker slot wanted left (hops + 1) (key :: seen) producer l

/-- The effective producer behind an input; none if the way ends at an input without link. -/
def resolve (g : Workflow) (maxHops : Int) (n : Site) (slot : Int) :
    Except Fault (Option Resolved) := do
  match ← n.source g slot with
  | none => pure none
  | some (producer, l) =>
    match (position? n.inputs.length slot).bind (n.inputs[·]?) with
    | none => throw Fault.outside
    | some input =>
      walk g n.id slot input.type maxHops.toNat 0 [(producer.id, l.originSlot.val)] producer l

end Site

end NodeFlow
