import NodeFlow.Document
import NodeFlow.Graph.Basic

/-!
# Saving

The document of a graph.  A node of unknown type keeps the widget values it was saved with, and
so does a primitive whose widgets do not exist yet.

Main results:

- Definitions `Node.record`, `Subgraph.save` and `Workflow.save`.
-/

namespace NodeFlow

/-- The saved form of an input. -/
def InputSlot.save (s : InputSlot) : SavedInput :=
  { name := s.name, type := s.type, link := s.link
    widget := if s.widget.truthy then some [("name", s.widget)] else none }

/-- The saved form of an output at a position. -/
def OutputSlot.save (i : Nat) (s : OutputSlot) : SavedOutput :=
  { name := s.name, type := s.type, links := some s.links, position := some i }

namespace Node

variable {γ : Type}

/-- The widget values that are saved. -/
def savedValues (n : Node γ) : Option (List Json) :=
  let own := if n.widgets.isEmpty then none else some (n.widgets.map (·.value))
  match n.kind with
  | .missing saved => saved
  | .primitive (some (v :: vs)) => if n.widgets.isEmpty then some (v :: vs) else own
  | _ => own

/-- What is saved of a node itself. -/
def record (n : Node γ) : NodeRecord :=
  { id := n.id, type := n.type, title := n.title, position := n.position, size := n.size
    flags := n.flags, order := n.order, mode := n.mode
    inputs := n.inputs.map InputSlot.save
    outputs := n.outputs.mapIdx OutputSlot.save
    properties := n.properties
    values := n.savedValues
    extra := n.extra }

end Node

namespace Graph

variable {γ : Type}

/-- The document of a graph, given the saved form of its nodes. -/
def saveWith (save : Node γ → SavedNode Document) (g : Graph γ) : Document :=
  { lastNodeId := g.lastNodeId, lastLinkId := g.lastLinkId.val
    nodes := g.nodes.map save
    links := g.links.map fun l =>
      [l.id.toJson, l.origin, l.originSlot.toJson, l.target, l.targetSlot.toJson, l.type]
    groups := g.groups, config := g.config, extraData := g.extra, version := g.version }

end Graph

/-- The document of the graph inside a group. -/
def Subgraph.save (g : Subgraph) : Document := g.saveWith fun n => { n.record with }

/-- The saved form of a node that may be a group. -/
def Node.save (n : Node Group) : SavedNode Document :=
  match n.group? with
  | none => { n.record with }
  | some g =>
    { n.record with
      subgraph := some (Subgraph.save g.graph)
      groupInputs := some g.inputs
      groupOutputs := some g.outputs }

/-- The document of a workflow. -/
def Workflow.save (g : Workflow) : Document := g.saveWith Node.save

end NodeFlow
