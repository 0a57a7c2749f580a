import NodeFlow.Definition
import NodeFlow.Graph.Configure
import NodeFlow.Widget.Create

/-!
# Node registry

The registry knows the node types: those that definitions describe, and the virtual ones.  It
builds nodes of both, and the nodes of documents.

Main results:

- Type `Registry`; definitions `Registry.knows`, `Registry.register` and `Registry.create`.
- Definition `Registry.IsNamed`: registries that file definitions under their names.
- Definition `Node.ofDefinition`: slots and widgets as a definition describes them.
- Definition `Registry.build`: the node of a document entry, groups included.
-/

namespace NodeFlow

/-- The virtual kinds of node that a type may be made of. -/
inductive VirtualKind where
  | reroute
  | note
  | primitive
  deriving DecidableEq, Inhabited

/-- A virtual node type.  Its nodes may refuse to take on a saved state. -/
structure VirtualType where
  kind : VirtualKind
  refuses : Option Raise := none
  deriving Inhabited

/-- The known node types. -/
structure Registry where
  definitions : Table Definition := []
  virtuals : Table VirtualType :=
    [("Reroute", ⟨.reroute, none⟩), ("PrimitiveNode", ⟨.primitive, none⟩), ("Note", ⟨.note, none⟩)]
  /-- Where the controls of its nodes draw random values from. -/
  source : RandomSource := .shared
  deriving Inhabited

/-- What a caller may choose about a new node. -/
structure NodeSetup where
  title : Option String := none
  mode : Int := normalMode
  properties : Members := []
  deriving Inhabited

/-- The first text that is not empty. -/
def firstText (choices : List (Option String)) (last : String) : String :=
  match choices.filterMap fun c => c.filter (· ≠ "") with
  | t :: _ => t
  | [] => last

/-- A node without slots and widgets. -/
def NodeSetup.blank {γ : Type} (setup : NodeSetup) (type : String) : Node γ :=
  { type, title := some (firstText [setup.title] type), mode := setup.mode
    properties := setup.properties }

/-! ## Nodes of definitions -/

/-- The slots and widgets of inputs. -/
def Definition.frontOf (source : RandomSource) :
    List InputSpec → Except Fault (List InputSlot × List Widget)
  | [] => .ok ([], [])
  | spec :: specs => do
    if Widget.isWidgetType spec.type spec.options then
      let ws ← Widget.forInput source spec.name spec.type spec.options
      let (slots, rest) ← frontOf source specs
      pure (slots, ws ++ rest)
    else
      let (slots, rest) ← frontOf source specs
      pure ({ name := spec.name, type := spec.type.display } :: slots, rest)

/-- The output of a definition at a position.  A list of choices is shown as one type. -/
def Definition.outputAt (d : Definition) (i : Nat) (type : Json) : OutputSlot :=
  let ownName := match type with
    | .str s => s
    | _ => "*"
  { name := (d.outputNames[i]?).getD ownName
    type := if type.isArray then "COMBO" else type.display }

/-- A node as a definition describes it. -/
def Node.ofDefinition {γ : Type} (source : RandomSource) (setup : NodeSetup) (d : Definition) :
    Except Fault (Node γ) := do
  let (inputs, widgets) ← Definition.frontOf source d.inputs
  pure { setup.blank d.name with
    title := some (firstText [setup.title, d.displayName] d.name)
    inputs, widgets
    outputs := d.outputs.mapIdx d.outputAt }

/-! ## Virtual nodes -/

/-- A virtual node. -/
def VirtualKind.node {γ : Type} (kind : VirtualKind) (setup : NodeSetup) (type : String) : Node γ :=
  let base : Node γ := setup.blank type
  match kind with
  | .reroute =>
    { base with kind := .reroute, inputs := [{ name := "" }], outputs := [{ name := "" }] }
  | .note =>
    { base with
      kind := .note, widgets := [{ name := "text", value := .str "", kind := "customtext" }] }
  | .primitive =>
    { base with kind := .primitive none, outputs := [{ name := "connect to widget input" }] }

namespace Registry

/-- Whether nodes of a type can be built. -/
def knows (r : Registry) (type : String) : Bool := r.definitions.has type || r.virtuals.has type

/-- Add or replace a definition. -/
def register (d : Definition) (r : Registry) : Registry :=
  { r with definitions := r.definitions.set d.name d }

/-- Add or replace a virtual type. -/
def registerVirtual (type : String) (v : VirtualType) (r : Registry) : Registry :=
  { r with virtuals := r.virtuals.set type v }

/-- Each definition is filed under its name. -/
def IsNamed (r : Registry) : Prop :=
  ∀ type d, r.definitions.get? type = some d → d.name = type

/-- A registry without definitions files nothing under another name. -/
theorem isNamed_empty : ({} : Registry).IsNamed := by
  intro type d h
  cases h

/-- A new definition is filed under its own name. -/
theorem IsNamed.register {r : Registry} (h : r.IsNamed) (d : Definition) :
    (r.register d).IsNamed := by
  intro type d' hget
  by_cases htype : type = d.name
  · subst htype
    rw [Registry.register, Table.get?_set_self] at hget
    rw [← Option.some.inj hget]
  · rw [Registry.register, Table.get?_set_of_ne htype] at hget
    exact h type d' hget

/-- Virtual types are filed apart from definitions. -/
theorem IsNamed.registerVirtual {r : Registry} (h : r.IsNamed) (type : String) (v : VirtualType) :
    (r.registerVirtual type v).IsNamed := h

/-- A new node of a type. -/
def create {γ : Type} (r : Registry) (setup : NodeSetup) (type : String) : Except Fault (Node γ) :=
  match r.virtuals.get? type with
  | some v => .ok (v.kind.node setup type)
  | none =>
    match r.definitions.get? type with
    | some d => Node.ofDefinition r.source setup d
    | none => .error (.noEntry ("Unknown node type '" ++ type ++ "'"))

/-! ## Nodes of documents -/

/-- A node of a type for a document entry: of unknown type, a placeholder. -/
def buildSimple {γ : Type} (r : Registry) (type : String) : Except Fault (Node γ) :=
  if r.knows type then
    match (r.virtuals.get? type).bind (·.refuses) with
    | some failure => .error (.raised failure)
    | none => r.create {} type
  else
    let base : Node γ := ({} : NodeSetup).blank type
    .ok { base with kind := .missing none }

/-- The node of a document entry.  The graph of a group holds no groups. -/
def build (r : Registry) (saved : SavedNode Document) : Except Fault (Node Group) :=
  match saved.subgraph with
  | none => r.buildSimple saved.type
  | some d =>
    if d.nodes.any (·.subgraph.isSome) then
      .error (.configuration ("Group node " ++ saved.id.quoted ++ " contains a nested group")
        none none)
    else do
      let graph ← Graph.configure (fun inner => r.buildSimple inner.type) d
      let group : Group :=
        { graph, inputs := saved.groupInputs.getD [], outputs := saved.groupOutputs.getD [] }
      let base : Node Group := ({} : NodeSetup).blank saved.type
      pure { base with kind := .group group }

end Registry

end NodeFlow
