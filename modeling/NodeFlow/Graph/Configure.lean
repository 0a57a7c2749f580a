import NodeFlow.Document
import NodeFlow.Graph.Basic

/-!
# Building a graph from a document

Links come first, then nodes.  Each node is built by a factory and then takes on its saved state.
A node that cannot be built is reported with its place in the document.

Main results:

- Definition `Link.ofJson`: the link of a document entry.
- Definition `Node.configure`: a built node with its saved state.
- Definition `Graph.configure`: the graph of a document.
-/

namespace NodeFlow

/-! ## Links -/

/-- The five or more parts of a link entry, which may be an array or an object. -/
def Link.parts? : Json → Option (List Json)
  | .arr parts => if 5 ≤ parts.length then some parts else none
  | .obj ms =>
    let part (name : String) : Json := (Table.get? ms name).getD .null
    some [part "id", part "origin_id", part "origin_slot", part "target_id", part "target_slot",
      (Table.get? ms "type").getD (.str "*")]
  | _ => none

/-- The link of a document entry at a place. -/
def Link.ofJson (entry : Json) (location : String) : Except Fault Link :=
  match Link.parts? entry with
  | some (id :: origin :: originSlot :: target :: targetSlot :: rest) =>
    match Whole.ofJson? id, Whole.ofJson? originSlot, Whole.ofJson? targetSlot with
    | some id, some originSlot, some targetSlot =>
      if origin.isNull || target.isNull then
        .error (.configuration "Link is missing an endpoint" (some location) none)
      else
        let type := match rest.headD .null with
          | .null => .str "*"
          | type => type
        .ok { id, origin, originSlot, target, targetSlot, type }
    | _, _, _ =>
      .error (.configuration "Link id and slot indexes must be integers" (some location) none)
  | _ => .error (.configuration "Malformed link entry" (some location) none)

namespace Graph

variable {γ : Type}

/-- Take a link into the graph; the highest link number is kept up to date. -/
def addLink (l : Link) (g : Graph γ) : Graph γ :=
  let g := g.putLink l
  if g.lastLinkId.val < l.id.val then { g with lastLinkId := l.id } else g

/-- Take the links of a document into the graph, the first of them at the given position. -/
def addLinks (g : Graph γ) : Nat → List (List Json) → Except Fault (Graph γ)
  | _, [] => .ok g
  | i, entry :: entries => do
    let l ← Link.ofJson (.arr entry) ("links." ++ toString i)
    addLinks (g.addLink l) (i + 1) entries

end Graph

/-! ## Nodes -/

/-- The input of a saved one. -/
def SavedInput.slot (s : SavedInput) : InputSlot :=
  { name := s.name, type := s.type, link := s.link
    widget := ((s.widget.getD []).get? "name").getD .null }

/-- The output of a saved one. -/
def SavedOutput.slot (s : SavedOutput) : OutputSlot :=
  { name := s.name, type := s.type, links := s.links.getD [] }

/-- Give widgets saved values, one each, as far as both go. -/
def Widget.fill : List Widget → List Json → List Widget
  | w :: ws, v :: vs => w.withValue v :: fill ws vs
  | ws, _ => ws

/-- The kind of a node after it has taken on saved widget values. -/
def Kind.remember {γ : Type} (values : Option (List Json)) : Kind γ → Kind γ
  | .missing _ => .missing values
  | .primitive _ => .primitive (some (values.getD []))
  | k => k

/-- A built node with its saved state.  Slots are replaced only where some are saved. -/
def Node.configure {γ : Type} (saved : NodeRecord) (n : Node γ) : Node γ :=
  { n with
    id := saved.id
    kind := n.kind.remember saved.values
    title := saved.title <|> n.title
    mode := saved.mode
    order := saved.order
    position := saved.position
    size := saved.size
    flags := saved.flags
    properties := n.properties.update saved.properties
    inputs := if saved.inputs.isEmpty then n.inputs else saved.inputs.map SavedInput.slot
    outputs := if saved.outputs.isEmpty then n.outputs else saved.outputs.map SavedOutput.slot
    widgets := Widget.fill n.widgets (saved.values.getD [])
    extra := saved.extra }

/-- How a failure to build a node is reported: structural faults as they are, all others with the
place of the node. -/
def Fault.atNode (saved : NodeRecord) (location : String) : Fault → Fault
  | .configuration detail inner source => .configuration detail inner source
  | f =>
    .configuration ("Could not configure node " ++ saved.id.quoted ++ " of type '" ++
      saved.type ++ "': " ++ f.message) (some location) (some Fault.tracePlace)

namespace Graph

variable {γ : Type}

/-- Take a node into the graph; the highest node number is kept up to date. -/
def addNode (n : Node γ) (g : Graph γ) : Graph γ :=
  let last := match n.id with
    | .number k => max g.lastNodeId k
    | .name _ => g.lastNodeId
  { g with nodes := g.nodes ++ [n], lastNodeId := last }

/-- Take the nodes of a document into the graph, the first of them at the given position. -/
def addNodes (build : SavedNode Document → Except Fault (Node γ)) (g : Graph γ) :
    Nat → List (SavedNode Document) → Except Fault (Graph γ)
  | _, [] => .ok g
  | i, saved :: rest => do
    let location := "nodes." ++ toString i
    if (← g.find? saved.id).isSome then
      throw (.configuration ("Duplicate node id " ++ saved.id.quoted) (some location) none)
    else
      match build saved with
      | .error f => throw (f.atNode saved.toNodeRecord location)
      | .ok n => addNodes build (g.addNode (n.configure saved.toNodeRecord)) (i + 1) rest

/-- The graph of a document. -/
def configure (build : SavedNode Document → Except Fault (Node γ)) (d : Document) :
    Except Fault (Graph γ) := do
  let g : Graph γ :=
    { lastNodeId := d.lastNodeId, lastLinkId := .number d.lastLinkId, groups := d.groups
      config := d.config, extra := d.extraData, version := d.version }
  let g ← g.addLinks 0 d.links
  g.addNodes build 0 d.nodes

end Graph

end NodeFlow
