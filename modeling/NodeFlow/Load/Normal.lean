import NodeFlow.Graph.Primitive
import NodeFlow.Graph.Site
import NodeFlow.Load.Missing
import NodeFlow.Load.Standard
import NodeFlow.Registry

/-!
# Loading documents

A document becomes a graph in five stages: it is read, outdated type names are replaced and
unknown ones reported, the graph is built, primitives get their widgets, and outdated widget
values are replaced.

Main results:

- Definition `Document.normalize`: the names replaced and the report.
- Definitions `Workflow.finishAt`, `Workflow.finish` and `Node.patch`.
- Definition `Registry.load`: the graph of a document and the report.
- Theorem `Document.normalizeNodes_length`: normalizing keeps every node.
-/

namespace NodeFlow

/-! ## Type names -/

/-- Outdated and misspelt type names with those in use. -/
def outdatedTypes : Table String :=
  [("T2IAdapterLoader", "ControlNetLoader"), ("ConditioningAverage ", "ConditioningAverage"),
    ("SDV_img2vid_Conditioning", "SVD_img2vid_Conditioning")]

/-- The type name in use. -/
def currentType (type : String) : String := (outdatedTypes.get? type).getD type

namespace Document

mutual
/-- The document with the type names in use, and the unknown types in the order of the nodes. -/
def normalize (knows : String → Bool) : Document → Document × List MissingEntry
  | ⟨lastNodeId, lastLinkId, nodes, links, groups, config, extraData, version, extra⟩ =>
    let (nodes, missing) := normalizeNodes knows nodes
    (⟨lastNodeId, lastLinkId, nodes, links, groups, config, extraData, version, extra⟩, missing)

/-- Nodes with the type names in use.  A node of unknown type gets a clean name; the type of a
group does not matter. -/
def normalizeNodes (knows : String → Bool) :
    List (SavedNode Document) → List (SavedNode Document) × List MissingEntry
  | [] => ([], [])
  | ⟨n, some d⟩ :: rest =>
    let (d, inside) := normalize knows d
    let (rest, missing) := normalizeNodes knows rest
    (⟨n, some d⟩ :: rest, inside ++ missing)
  | ⟨n, none⟩ :: rest =>
    let type := currentType n.type
    let (rest, missing) := normalizeNodes knows rest
    if knows type then (⟨{ n with type := type }, none⟩ :: rest, missing)
    else
      (⟨{ n with type := sanitize type }, none⟩ :: rest,
        .known { type, shown := sanitize type } :: missing)
end

/-- Normalizing entries loses none. -/
theorem normalizeNodes_length (knows : String → Bool) (ns : List (SavedNode Document)) :
    (normalizeNodes knows ns).1.length = ns.length := by
  induction ns with
  | nil => simp [normalizeNodes]
  | cons n ns ih =>
    obtain ⟨n, d⟩ := n
    cases d with
    | none =>
      simp only [normalizeNodes]
      split <;> simp [ih]
    | some d => simp [normalizeNodes, ih]

end Document

/-! ## Primitives -/

/-- Finish nodes one after the other. -/
def Graph.finishAll {γ : Type} (g : Graph γ) : List NodeId → Except Fault (Graph γ)
  | [] => .ok g
  | id :: ids => do
    let g ← g.finishNode id
    finishAll g ids

namespace Workflow

/-- Finish the node at a place on its own, which only a primitive can be. -/
def finishAt (g : Workflow) (place : Place) : Except Fault Workflow :=
  match siteAt? g place with
  | none => .ok g
  | some s =>
    if !s.isPrimitive then .error (.noPart "only a primitive can be finished")
    else
      match place with
      | .outer id => g.finishNode id
      | .inner host id => do
        let inner ← (innerGraph g host).finishNode id
        pure (modifyGroup host (fun _ => inner) g)

/-- Finish a node and then the nodes inside it. -/
def finishDeep (g : Workflow) (id : NodeId) : Except Fault Workflow := do
  let g ← g.finishNode id
  match (g.at? id).bind (·.group?) with
  | none => pure g
  | some group => do
    let inner ← group.graph.finishAll (group.graph.nodes.map (·.id))
    pure (modifyGroup id (fun _ => inner) g)

/-- Finish nodes and what is inside them, one after the other. -/
def finishEach (g : Workflow) : List NodeId → Except Fault Workflow
  | [] => .ok g
  | id :: ids => do
    let g ← finishDeep g id
    finishEach g ids

/-- The graph with the widgets of its primitives. -/
def finish (g : Workflow) : Except Fault Workflow := finishEach g (g.nodes.map (·.id))

end Workflow

/-! ## Outdated widget values -/

/-- The types of sampler nodes. -/
def samplerTypes : List String := ["KSampler", "KSamplerAdvanced"]

/-- The types of nodes with a control widget that once held a truth value. -/
def controlTypes : List String := samplerTypes ++ ["PrimitiveNode"]

/-- A sampler name without the lead that older editors gave it. -/
def currentSampler (s : String) : String :=
  if "sample_".toList.isPrefixOf s.toList then String.ofList (s.toList.drop 7) else s

/-- The control mode that a truth value once stood for. -/
def currentControl : Json → Json
  | .bool true => .str "randomize"
  | .bool false => .str "fixed"
  | v => v

/-- The choice that replaces a value that is none. -/
def validChoice (w : Widget) : Json :=
  match w.choices with
  | [] => w.value
  | x :: xs => if w.value.isAmong (x :: xs) then w.value else x

/-- A widget of a node of the given type, with the value in use. -/
def Widget.patch (type : String) (reset : Bool) (w : Widget) : Widget :=
  let w := match w.value with
    | .str s =>
      if samplerTypes.contains type && w.name == "sampler_name" then
        w.withValue (.str (currentSampler s))
      else w
    | _ => w
  let w := if controlTypes.contains type && w.name == ControlMode.widgetName then
    w.withValue (currentControl w.value) else w
  if reset && w.kind == "combo" then w.withValue (validChoice w) else w

/-- A node with the widget values in use. -/
def Node.patch {γ : Type} (reset : Bool) (n : Node γ) : Node γ :=
  { n with widgets := n.widgets.map (Widget.patch n.type reset) }

namespace Workflow

/-- The node at a place with the widget values in use. -/
def patchAt (reset : Bool) (g : Workflow) (place : Place) : Workflow :=
  modifyAt place (Node.patch reset) (Node.patch reset) g

/-- The graph with the widget values in use. -/
def patch (reset : Bool) (g : Workflow) : Workflow :=
  ((sites g).map (·.place)).foldl (patchAt reset) g

end Workflow

/-! ## Sources -/

/-- Where a graph is loaded from. -/
inductive LoadSource where
  | standard
  | document (d : Document)
  | value (v : Json)
  deriving Inhabited

namespace LoadSource

/-- The source that a value stands for; null stands for the standard graph. -/
def ofJson : Json → LoadSource
  | .null => standard
  | v => value v

/-- The document of a source. -/
def read : LoadSource → Except Fault Document
  | standard => Document.read standardGraph
  | document d => .ok d
  | value v => Document.read v

/-- Whether choices that are not offered give way to the first one that is. -/
def resets : LoadSource → Bool
  | standard => true
  | _ => false

end LoadSource

namespace Registry

/-- The graph of a document whose type names are in use, with its primitives finished. -/
def assemble (r : Registry) (d : Document) : Except Fault Workflow := do
  let g ← Graph.configure r.build d
  Workflow.finish g

/-- The graph of a source and the report of missing types. -/
def load (r : Registry) (source : LoadSource) : Except Fault (Workflow × List MissingType) := do
  let d ← source.read
  let (d, missing) := d.normalize r.knows
  let g ← r.assemble d
  pure (Workflow.patch source.resets g, missing.map MissingType.ofEntry)

end Registry

end NodeFlow
