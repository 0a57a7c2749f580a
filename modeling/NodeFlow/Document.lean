import NodeFlow.Check.Field
import NodeFlow.Fault
import NodeFlow.Graph.Link

/-!
# Documents

The saved form of a graph.  A group node holds a document of its own, so documents nest.  Members
that are no fields are kept; fields that are null are left out when a document is written.

Main results:

- Types `SavedInput`, `SavedOutput`, `NodeRecord`, `SavedNode` and `Document`.
- Definitions `Document.read` and `Document.write`; `Document.toJson` is what is written.
- Definition `Document.checkWithin`: reading with a bound on the nesting of documents.
- Definition `Document.depth`: how deep the free values of a document are nested.
-/

namespace NodeFlow

/-- The saved form of an input. -/
structure SavedInput where
  name : String
  type : String := "*"
  link : Option Int := none
  widget : Option Members := none
  extra : Members := []
  deriving Inhabited

/-- The saved form of an output. -/
structure SavedOutput where
  name : String
  type : String := "*"
  links : Option (List Int) := none
  position : Option Int := none
  extra : Members := []
  deriving Inhabited

/-- What is saved of a node itself. -/
structure NodeRecord where
  id : NodeId
  type : String
  title : Option String := none
  position : List Float := [0.0, 0.0]
  size : List Float := [0.0, 0.0]
  flags : Members := []
  order : Int := 0
  mode : Int := 0
  inputs : List SavedInput := []
  outputs : List SavedOutput := []
  properties : Members := []
  values : Option (List Json) := none
  groupInputs : Option (List PortRef) := none
  groupOutputs : Option (List PortRef) := none
  extra : Members := []
  deriving Inhabited

/-- The saved form of a node; `δ` is the saved form of a group's graph. -/
structure SavedNode (δ : Type) extends NodeRecord where
  subgraph : Option δ := none
  deriving Inhabited

/-- The saved form of a graph. -/
structure Document where
  lastNodeId : Int := 0
  lastLinkId : Int := 0
  nodes : List (SavedNode Document) := []
  links : List (List Json) := []
  groups : List Members := []
  config : Members := []
  extraData : Members := []
  version : Float := 0.4
  extra : Members := []
  deriving Inhabited

/-! ## Reading -/

/-- Check an input. -/
def SavedInput.check : Json → Checked SavedInput :=
  Check.record "SerializedInput" fun ms => do
    let name ← Check.required ms "name" Check.text
    let type ← Check.optional ms "type" "*" Check.text
    let link ← Check.maybe ms "link" Check.int
    let widget ← Check.maybe ms "widget" Check.object
    pure ⟨name, type, link, widget, Check.others ["name", "type", "link", "widget"] ms⟩

/-- Check an output. -/
def SavedOutput.check : Json → Checked SavedOutput :=
  Check.record "SerializedOutput" fun ms => do
    let name ← Check.required ms "name" Check.text
    let type ← Check.optional ms "type" "*" Check.text
    let links ← Check.maybe ms "links" (Check.list Check.int)
    let position ← Check.maybe ms "slot_index" Check.int
    pure ⟨name, type, links, position, Check.others ["name", "type", "links", "slot_index"] ms⟩

/-- Check a reference to a slot inside a group. -/
def PortRef.check : Json → Checked PortRef :=
  Check.record "GroupSlotRef" fun ms => do
    let node ← Check.required ms "node_id" Check.nodeId
    let slot ← Check.required ms "slot" Check.int
    pure ⟨node, slot⟩

/-- The fields of a saved node. -/
def SavedNode.fields : List String :=
  ["id", "type", "title", "pos", "size", "flags", "order", "mode", "inputs", "outputs",
    "properties", "widgets_values", "subgraph", "group_inputs", "group_outputs"]

/-- Check a node, given how the graph of a group is checked. -/
def SavedNode.check {δ : Type} (subgraph : Json → Checked δ) : Json → Checked (SavedNode δ) :=
  Check.record "SerializedNode" fun ms => do
    let id ← Check.required ms "id" Check.nodeId
    let type ← Check.required ms "type" Check.text
    let title ← Check.maybe ms "title" Check.text
    let position ← Check.optional ms "pos" [0.0, 0.0] (Check.list Check.float)
    let size ← Check.optional ms "size" [0.0, 0.0] (Check.list Check.float)
    let flags ← Check.optional ms "flags" [] Check.object
    let order ← Check.optional ms "order" 0 Check.int
    let mode ← Check.optional ms "mode" 0 Check.int
    let inputs ← Check.optional ms "inputs" [] (Check.list SavedInput.check)
    let outputs ← Check.optional ms "outputs" [] (Check.list SavedOutput.check)
    let properties ← Check.optional ms "properties" [] Check.object
    let values ← Check.maybe ms "widgets_values" (Check.list Check.any)
    let subgraph ← Check.maybe ms "subgraph" subgraph
    let groupInputs ← Check.maybe ms "group_inputs" (Check.list PortRef.check)
    let groupOutputs ← Check.maybe ms "group_outputs" (Check.list PortRef.check)
    pure { id, type, title, position, size, flags, order, mode, inputs, outputs, properties,
           values, subgraph, groupInputs, groupOutputs
           extra := Check.others SavedNode.fields ms }

/-- The fields of a document. -/
def Document.fields : List String :=
  ["last_node_id", "last_link_id", "nodes", "links", "groups", "config", "extra", "version"]

/-- Check a document that is nested at most as deep as the bound. -/
def Document.checkWithin : Nat → Json → Checked Document
  | 0 => fun _ => Checked.fail "recursion_loop" "Recursion error - cyclic reference detected"
  | bound + 1 =>
    Check.record "GraphDocument" fun ms => do
      let lastNodeId ← Check.optional ms "last_node_id" 0 Check.int
      let lastLinkId ← Check.optional ms "last_link_id" 0 Check.int
      let nodes ← Check.optional ms "nodes" []
        (Check.list (SavedNode.check (Document.checkWithin bound)))
      let links ← Check.optional ms "links" [] (Check.list (Check.list Check.any))
      let groups ← Check.optional ms "groups" [] (Check.list Check.object)
      let config ← Check.optional ms "config" [] Check.object
      let extraData ← Check.optional ms "extra" [] Check.object
      let version ← Check.optional ms "version" 0.4 Check.float
      pure { lastNodeId, lastLinkId, nodes, links, groups, config, extraData, version
             extra := Check.others Document.fields ms }

/-- Check a document. -/
def Document.check : Json → Checked Document := Document.checkWithin Json.maxNesting

/-- Read a document.  Only the first issue is reported, with its place in the document. -/
def Document.read (v : Json) : Except Fault Document :=
  match (Document.check v).toExcept with
  | .ok d => .ok d
  | .error [] => .error (.configuration "Invalid workflow document: validation error" none none)
  | .error (issue :: _) =>
    .error (.configuration ("Invalid workflow document: " ++ issue.message)
      (if issue.location = "" then none else some issue.location) none)

/-! ## Writing -/

/-- An object of the fields and the free members that are not null; only the free members are made
portable. -/
def compactObject (fields free : Members) : Json :=
  .obj (fields.filter (fun m => !m.2.isNull) ++
    Json.portableMembers (free.filter fun m => !m.2.isNull))

/-- A list of free values as a value. -/
def freeItems (vs : List Json) : Json := .arr (Json.portableItems vs)

/-- An object of free values as a value. -/
def freeObject (ms : Members) : Json := .obj (Json.portableMembers ms)

/-- A list of numbers as a value. -/
def intsToJson (ns : List Int) : Json := .arr (ns.map .int)

/-- The saved form of an input as a value. -/
def SavedInput.toJson (s : SavedInput) : Json :=
  compactObject [("name", .str s.name), ("type", .str s.type),
    ("link", Json.ofOption (s.link.map .int)),
    ("widget", Json.ofOption (s.widget.map freeObject))] s.extra

/-- The saved form of an output as a value. -/
def SavedOutput.toJson (s : SavedOutput) : Json :=
  compactObject [("name", .str s.name), ("type", .str s.type),
    ("links", Json.ofOption (s.links.map intsToJson)),
    ("slot_index", Json.ofOption (s.position.map .int))] s.extra

/-- A reference to a slot as a value. -/
def PortRef.toJson (r : PortRef) : Json := .obj [("node_id", r.node.toJson), ("slot", .int r.slot)]

/-- The saved form of a node as a value, given that of its graph. -/
def NodeRecord.toJson (n : NodeRecord) (subgraph : Json) : Json :=
  compactObject [("id", n.id.toJson), ("type", .str n.type),
    ("title", Json.ofOption (n.title.map .str)),
    ("pos", .arr (n.position.map .float)), ("size", .arr (n.size.map .float)),
    ("flags", freeObject n.flags), ("order", .int n.order), ("mode", .int n.mode),
    ("inputs", .arr (n.inputs.map SavedInput.toJson)),
    ("outputs", .arr (n.outputs.map SavedOutput.toJson)),
    ("properties", freeObject n.properties),
    ("widgets_values", Json.ofOption (n.values.map freeItems)),
    ("subgraph", subgraph),
    ("group_inputs", Json.ofOption (n.groupInputs.map fun rs => .arr (rs.map PortRef.toJson))),
    ("group_outputs", Json.ofOption (n.groupOutputs.map fun rs => .arr (rs.map PortRef.toJson)))]
    n.extra

mutual
/-- A document as a value. -/
def Document.toJson : Document → Json
  | ⟨lastNodeId, lastLinkId, nodes, links, groups, config, extraData, version, extra⟩ =>
    compactObject [("last_node_id", .int lastNodeId), ("last_link_id", .int lastLinkId),
      ("nodes", .arr (Document.nodesToJson nodes)), ("links", .arr (links.map freeItems)),
      ("groups", .arr (groups.map freeObject)), ("config", freeObject config),
      ("extra", freeObject extraData), ("version", .float version)] extra

/-- Saved nodes as values. -/
def Document.nodesToJson : List (SavedNode Document) → List Json
  | [] => []
  | ⟨n, some subgraph⟩ :: nodes => n.toJson subgraph.toJson :: Document.nodesToJson nodes
  | ⟨n, none⟩ :: nodes => n.toJson .null :: Document.nodesToJson nodes
end

/-! ## Nesting -/

/-- The largest of the given depths. -/
def deepest (depths : List Nat) : Nat := depths.foldr max 0

/-- How deep the free values of an input are nested. -/
def SavedInput.depth (s : SavedInput) : Nat :=
  max (Json.depthMembers (s.widget.getD [])) (Json.depthMembers s.extra)

/-- How deep the free values of an output are nested. -/
def SavedOutput.depth (s : SavedOutput) : Nat := Json.depthMembers s.extra

/-- How deep the free values of a node itself are nested. -/
def NodeRecord.depth (n : NodeRecord) : Nat :=
  deepest ([Json.depthMembers n.flags, Json.depthMembers n.properties,
    Json.depthItems (n.values.getD []), Json.depthMembers n.extra] ++
      n.inputs.map SavedInput.depth ++ n.outputs.map SavedOutput.depth)

mutual
/-- How deep the free values of a document are nested, the document itself included. -/
def Document.depth : Document → Nat
  | ⟨_, _, nodes, links, groups, config, extraData, _, extra⟩ =>
    1 + max (Document.nodesDepth nodes)
      (deepest ([Json.depthMembers config, Json.depthMembers extraData, Json.depthMembers extra] ++
        links.map Json.depthItems ++ groups.map Json.depthMembers))

/-- How deep the free values of saved nodes are nested. -/
def Document.nodesDepth : List (SavedNode Document) → Nat
  | [] => 0
  | ⟨n, some subgraph⟩ :: nodes =>
    max (max n.depth subgraph.depth) (Document.nodesDepth nodes)
  | ⟨n, none⟩ :: nodes => max n.depth (Document.nodesDepth nodes)
end

/-- A document as a value, unless it is nested too deep to be written. -/
def Document.write (d : Document) : Except Fault Json := Fault.shallowOnly d.depth d.toJson

end NodeFlow
