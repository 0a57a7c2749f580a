import NodeFlow.Graph.Basic

/-!
# Execution order

Every producer comes before its consumers.  Nodes without dependencies come first, in candidate
order; every other node follows as soon as the last of its dependencies has been placed, again in
candidate order where one node completes several.

Main results:

- Definition `Graph.dependencies`: the producers that a node waits for.
- Definition `Planner.run`: placing one waiting node after the other.
- Definition `Graph.plan`: the order, or the nodes that wait in a circle.
- Theorem `Planner.placed_subset_run`: a placed node stays placed.
-/

namespace NodeFlow

namespace Graph

variable {γ : Type}

/-- The producer behind an input, if there is one. -/
def producer? (g : Graph γ) (slot : InputSlot) : Except Fault (Option NodeId) :=
  match slot.link.bind g.link? with
  | none => .ok none
  | some l => do
    let origin ← g.lookup? l.origin
    pure (origin.map (·.id))

/-- The producers behind inputs, each named once. -/
def producers (g : Graph γ) : List InputSlot → List NodeId → Except Fault (List NodeId)
  | [], found => .ok found
  | slot :: slots, found => do
    match ← g.producer? slot with
    | some id => producers g slots (if found.contains id then found else found ++ [id])
    | none => producers g slots found

/-- The nodes that a node waits for. -/
def dependencies (g : Graph γ) (n : Node γ) : Except Fault (List NodeId) := g.producers n.inputs []

/-- A node and what it waits for. -/
structure Waiting where
  id : NodeId
  needs : List NodeId
  deriving DecidableEq, Inhabited

/-- What every node waits for, in candidate order. -/
def waitingList (g : Graph γ) : List (Node γ) → Except Fault (List Waiting)
  | [] => .ok []
  | n :: ns => do
    let needs ← g.dependencies n
    let rest ← waitingList g ns
    pure (⟨n.id, needs⟩ :: rest)

end Graph

namespace Planner

/-- The nodes that the last placed node completes. -/
def completed (ws : List Graph.Waiting) (last : NodeId) (placed : List NodeId) : List NodeId :=
  (ws.filter fun w => w.needs.contains last && w.needs.all placed.contains).map (·.id)

/-- Place the first node of the queue and queue the nodes it completes, at most so many times. -/
def run (ws : List Graph.Waiting) : Nat → List NodeId → List NodeId → List NodeId
  | 0, _, placed => placed
  | _ + 1, [], placed => placed
  | steps + 1, id :: queue, placed =>
    let placed := placed ++ [id]
    run ws steps (queue ++ completed ws id placed) placed

/-- The nodes that wait for nothing. -/
def ready (ws : List Graph.Waiting) : List NodeId := (ws.filter (·.needs.isEmpty)).map (·.id)

/-- The nodes that can be placed, in order.  No node is placed twice, so as many steps as there
are nodes suffice. -/
def order (ws : List Graph.Waiting) : List NodeId := run ws ws.length (ready ws) []

/-- The consumers of a node, in candidate order. -/
def consumers (ws : List Graph.Waiting) (id : NodeId) : List NodeId :=
  (ws.filter fun w => w.needs.contains id).map (·.id)

/-- A node that has been placed stays placed. -/
theorem placed_subset_run (ws : List Graph.Waiting) (steps : Nat) (queue placed : List NodeId) :
    ∀ id ∈ placed, id ∈ run ws steps queue placed := by
  induction steps generalizing queue placed with
  | zero => simp [run]
  | succ steps ih =>
    cases queue with
    | nil => simp [run]
    | cons v queue =>
      intro id h
      exact ih _ _ id (List.mem_append_left _ h)

end Planner

namespace Graph

variable {γ : Type}

/-- The execution order, or the nodes that wait in a circle. -/
def plan (g : Graph γ) : Except Fault (List NodeId) := do
  let ws ← g.waitingList g.candidates
  let order := Planner.order ws
  if order.length = ws.length then pure order
  else throw (.cyclic ((ws.map (·.id)).filter fun id => !order.contains id))

/-- The nodes in execution order. -/
def planned (g : Graph γ) : Except Fault (List (Node γ)) := do
  let order ← g.plan
  pure (order.filterMap g.at?)

end Graph

end NodeFlow
