import NodeFlow.Order

/-!
# Sites

A site is a node as the compiler sees it: a node of the workflow, or a node inside a group.  The
id of an inner node carries the id of its group; what enters the group reaches the inner nodes
through the slots that the group names.

Main results:

- Types `Place` and `Site`; definitions `Workflow.siteAt?` and `Workflow.modifyAt`.
- Definition `Site.source`: the site and the link behind an input.
- Definition `Workflow.unwrap`: the inner producer behind the output of an active group.
-/

namespace NodeFlow

/-- Where a node stands. -/
inductive Place where
  | outer (id : NodeId)
  | inner (group id : NodeId)
  deriving DecidableEq, Inhabited

/-- The id that the node at a place carries in its own graph. -/
def Place.node : Place → NodeId
  | outer id => id
  | inner _ id => id

/-- A node as the compiler sees it. -/
inductive Site where
  | outer (node : Node Group)
  | inner (host : Node Group) (group : Group) (node : Node Empty)

namespace Site

/-- Where the node stands. -/
def place : Site → Place
  | outer n => .outer n.id
  | inner host _ n => .inner host.id n.id

/-- The id of a site; inner ids are made unique by the id of the group. -/
def id : Site → NodeId
  | outer n => n.id
  | inner host _ n => host.id.within n.id

/-- The type of the node. -/
def type : Site → String
  | outer n => n.type
  | inner _ _ n => n.type

/-- The title of the node. -/
def title : Site → Option String
  | outer n => n.title
  | inner _ _ n => n.title

/-- The mode of the node. -/
def mode : Site → Int
  | outer n => n.mode
  | inner _ _ n => n.mode

/-- The inputs of the node. -/
def inputs : Site → List InputSlot
  | outer n => n.inputs
  | inner _ _ n => n.inputs

/-- The outputs of the node. -/
def outputs : Site → List OutputSlot
  | outer n => n.outputs
  | inner _ _ n => n.outputs

/-- The widgets of the node. -/
def widgets : Site → List Widget
  | outer n => n.widgets
  | inner _ _ n => n.widgets

/-- Whether the node never reaches the backend. -/
def isVirtual : Site → Bool
  | outer n => n.isVirtual
  | inner _ _ n => n.isVirtual

/-- Whether the node holds a value for other nodes. -/
def isPrimitive : Site → Bool
  | outer n => n.kind.isPrimitive
  | inner _ _ n => n.kind.isPrimitive

/-- Whether the node is muted or bypassed. -/
def isSkipped : Site → Bool
  | outer n => n.isSkipped
  | inner _ _ n => n.isSkipped

/-- Whether the node is bypassed. -/
def isBypassed : Site → Bool
  | outer n => n.isBypassed
  | inner _ _ n => n.isBypassed

/-- The graph inside a group; no other node has one. -/
def subgraph : Site → Except Fault Subgraph
  | outer n =>
    match n.group? with
    | some group => .ok group.graph
    | none => .error (.noPart (n.kind.name ++ " has no graph inside"))
  | inner _ _ n => .error (.noPart (n.kind.name ++ " has no graph inside"))

/-- The input that a virtual node pairs with an output. -/
def passThrough? (output : Int) : Site → Option Int
  | outer n => n.passThrough? output
  | inner _ _ n => n.passThrough? output

end Site

namespace Workflow

/-- The inner producer behind an output of a group, with the link as seen from there. -/
def innerProducer? (host : Node Group) (group : Group) (l : Link) :
    Except Fault (Option (Site × Link)) :=
  if (group.outputs.length : Int) ≤ l.originSlot.val then .ok none
  else
    match (position? group.outputs.length l.originSlot.val).bind (group.outputs[·]?) with
    | none => .error Fault.outside
    | some port => do
      match ← group.graph.find? port.node with
      | none => pure none
      | some n =>
        let site := Site.inner host group n
        pure (some (site, { l with origin := site.id.toJson, originSlot := .number port.slot }))

/-- The producer at the origin of a link: an active group gives way to the inner node behind its
output. -/
def unwrap (origin : Node Group) (l : Link) : Except Fault (Site × Link) :=
  match origin.group? with
  | none => .ok (.outer origin, l)
  | some group =>
    if origin.mode = normalMode then do
      pure ((← innerProducer? origin group l).getD (.outer origin, l))
    else .ok (.outer origin, l)

/-- The producer behind an input of a node of the workflow. -/
def source (g : Workflow) (n : Node Group) (slot : Int) : Except Fault (Option (Site × Link)) :=
  match g.inLink? n slot with
  | none => .ok none
  | some l => do
    match ← g.lookup? l.origin with
    | none => pure none
    | some origin => do
      let found ← unwrap origin l
      pure (some found)

end Workflow

namespace Site

/-- The producer behind an input and the link from it.  An inner input without inner link takes
what the first group input that names it takes. -/
def source (g : Workflow) (slot : Int) : Site → Except Fault (Option (Site × Link))
  | outer n => Workflow.source g n slot
  | inner host group n =>
    let self := (inner host group n).id.toJson
    match group.graph.inLink? n slot with
    | some l => do
      match ← group.graph.lookup? l.origin with
      | none => pure none
      | some origin =>
        let site := inner host group origin
        pure (some (site, { l with
          origin := site.id.toJson, target := self, targetSlot := .number slot }))
    | none =>
      match group.inputs.findIdx? fun port => port.node == n.id && port.slot == slot with
      | none => .ok none
      | some i => do
        match ← Workflow.source g host i with
        | none => pure none
        | some (site, l) =>
          pure (some (site, { l with target := self, targetSlot := .number slot }))

end Site

namespace Workflow

/-- The sites inside a node, in inner execution order; none if the node is no group. -/
def innerSites? (n : Node Group) : Except Fault (Option (List Site)) :=
  match n.group? with
  | none => .ok none
  | some group => do
    let order ← group.graph.planned
    pure (some (order.map (Site.inner n group)))

/-- The site at a place. -/
def siteAt? (g : Workflow) : Place → Option Site
  | .outer id => (g.at? id).map .outer
  | .inner host id => do
    let n ← g.at? host
    let group ← n.group?
    let inner ← group.graph.at? id
    pure (.inner n group inner)

/-- All sites: every node, and behind a group its inner nodes. -/
def sites (g : Workflow) : List Site :=
  g.nodes.flatMap fun n =>
    .outer n :: match n.group? with
      | none => []
      | some group => group.graph.nodes.map (Site.inner n group)

/-- The graph inside a group of a workflow. -/
def innerGraph (g : Workflow) (host : NodeId) : Subgraph :=
  (((g.at? host).bind (·.group?)).map (·.graph)).getD {}

/-- Change the graph inside a group. -/
def modifyGroup (id : NodeId) (f : Subgraph → Subgraph) (g : Workflow) : Workflow :=
  g.modifyNode id fun n =>
    match n.kind with
    | .group group => { n with kind := .group { group with graph := f group.graph } }
    | _ => n

/-- Change the node at a place, whatever kind of node it is. -/
def modifyAt (place : Place) (outer : Node Group → Node Group) (inner : Node Empty → Node Empty)
    (g : Workflow) : Workflow :=
  match place with
  | .outer id => g.modifyNode id outer
  | .inner host id => modifyGroup host (Graph.modifyNode id inner) g

/-- Change an input of the node at a place. -/
def modifyInput (place : Place) (i : Nat) (f : InputSlot → InputSlot) : Workflow → Workflow :=
  modifyAt place (Node.modifyInput i f) (Node.modifyInput i f)

/-- Change an output of the node at a place. -/
def modifyOutput (place : Place) (i : Nat) (f : OutputSlot → OutputSlot) : Workflow → Workflow :=
  modifyAt place (Node.modifyOutput i f) (Node.modifyOutput i f)

@[simp] theorem siteAt?_outer (g : Workflow) (id : NodeId) :
    siteAt? g (.outer id) = (g.at? id).map .outer := rfl

@[simp] theorem modifyInput_outer (id : NodeId) (i : Nat) (f : InputSlot → InputSlot)
    (g : Workflow) :
    modifyInput (.outer id) i f g = g.modifyNode id (Node.modifyInput i f) := rfl

@[simp] theorem modifyOutput_outer (id : NodeId) (i : Nat) (f : OutputSlot → OutputSlot)
    (g : Workflow) :
    modifyOutput (.outer id) i f g = g.modifyNode id (Node.modifyOutput i f) := rfl

end Workflow

end NodeFlow
