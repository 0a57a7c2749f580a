import NodeFlow.Graph.Link
import NodeFlow.Widget.Basic

/-!
# Nodes

A node has slots, widgets and a kind.  The kinds that do not reach the backend are virtual: a
reroute passes its input on, a primitive pushes its value into the widgets it is linked to, a
note is only text.  The type of groups is a parameter: nodes inside a group cannot be groups
themselves, which is what the empty type says.

Main results:

- Types `Kind` and `Node`; definitions `Node.isVirtual`, `Node.isSkipped`, `Node.isBypassed`.
- Definition `Node.passThrough?`: the input paired with an output of a virtual node.
-/

namespace NodeFlow

/-- What a node is. -/
inductive Kind (γ : Type) where
  /-- A node that the backend runs. -/
  | plain
  /-- A node of a type nobody knows, with the widget values it was saved with. -/
  | missing (saved : Option (List Json))
  /-- A node that passes its input on. -/
  | reroute
  /-- A node that carries a text. -/
  | note
  /-- A node that holds a value for other nodes; before its widgets exist it holds the saved
  values. -/
  | primitive (pending : Option (List Json))
  /-- A node that stands for a graph. -/
  | group (g : γ)
  deriving Inhabited

/-- The name under which a kind is shown. -/
def Kind.name {γ : Type} : Kind γ → String
  | plain => "GraphNode"
  | missing _ => "MissingNode"
  | reroute => "RerouteNode"
  | note => "NoteNode"
  | primitive _ => "PrimitiveNode"
  | group _ => "GroupNode"

/-- Whether nodes of this kind never reach the backend. -/
def Kind.isVirtual {γ : Type} : Kind γ → Bool
  | reroute | note | primitive _ => true
  | _ => false

/-- Whether nodes of this kind hold a value for other nodes. -/
def Kind.isPrimitive {γ : Type} : Kind γ → Bool
  | primitive _ => true
  | _ => false

/-- A kind that is no group, where groups are allowed too. -/
def Kind.widen {γ : Type} : Kind Empty → Kind γ
  | plain => .plain
  | missing saved => .missing saved
  | reroute => .reroute
  | note => .note
  | primitive pending => .primitive pending

/-- A kind stays virtual, or not, outside its group. -/
theorem Kind.isVirtual_widen {γ : Type} (k : Kind Empty) :
    (k.widen : Kind γ).isVirtual = k.isVirtual := by
  cases k with
  | group g => nomatch g
  | _ => rfl

/-- A node of a graph.  A node that is in no graph yet has no id of its own. -/
structure Node (γ : Type) where
  id : NodeId := .number 0
  kind : Kind γ := .plain
  type : String
  title : Option String
  mode : Int := 0
  order : Int := 0
  inputs : List InputSlot := []
  outputs : List OutputSlot := []
  widgets : List Widget := []
  properties : Members := []
  position : List Float := [0.0, 0.0]
  size : List Float := [0.0, 0.0]
  flags : Members := []
  extra : Members := []
  /-- Whether the node is told its outputs. -/
  watchesOutput : Bool := false
  /-- Whether the node is told that a run starts. -/
  watchesStart : Bool := false
  /-- Whether the node has been cut off: it stands in the graph but sees none of its links. -/
  isCutOff : Bool := false
  deriving Inhabited

/-- The mode in which a node runs. -/
def normalMode : Int := 0

/-- The mode in which a node and what hangs on it is left out. -/
def mutedMode : Int := 2

/-- The mode in which a node is left out and its inputs are passed on. -/
def bypassedMode : Int := 4

namespace Node

variable {γ : Type}

/-- A node that never reaches the backend. -/
def isVirtual (n : Node γ) : Bool := n.kind.isVirtual

/-- A node that is no group, where groups are allowed too. -/
def widen (n : Node Empty) : Node γ := { n with kind := n.kind.widen }

/-- A muted or bypassed node. -/
def isSkipped (n : Node γ) : Bool := n.mode == mutedMode || n.mode == bypassedMode

/-- A bypassed node. -/
def isBypassed (n : Node γ) : Bool := n.mode == bypassedMode

/-- A node of unknown type is shown as faulty. -/
def hasErrors (n : Node γ) : Bool :=
  match n.kind with
  | .missing _ => true
  | _ => false

/-- The group a node stands for. -/
def group? (n : Node γ) : Option γ :=
  match n.kind with
  | .group g => some g
  | _ => none

/-- The input that a virtual node pairs with an output. -/
def passThrough? (n : Node γ) (output : Int) : Option Int :=
  match n.kind with
  | .reroute => if output = 0 then some 0 else none
  | _ => none

/-- The position of the first input of a name. -/
def inputPosition? (n : Node γ) (name : String) : Option Nat :=
  n.inputs.findIdx? (·.name == name)

/-- The link held by an input, if the position is one of the node's. -/
def inputLink? (n : Node γ) (slot : Int) : Option Int :=
  if slot < 0 then none else (n.inputs[slot.toNat]?).bind (·.link)

/-- Change the input at a position. -/
def modifyInput (i : Nat) (f : InputSlot → InputSlot) (n : Node γ) : Node γ :=
  { n with inputs := n.inputs.modify i f }

/-- Change the output at a position. -/
def modifyOutput (i : Nat) (f : OutputSlot → OutputSlot) (n : Node γ) : Node γ :=
  { n with outputs := n.outputs.modify i f }

@[simp] theorem id_modifyInput (i : Nat) (f : InputSlot → InputSlot) (n : Node γ) :
    (n.modifyInput i f).id = n.id := rfl

@[simp] theorem id_modifyOutput (i : Nat) (f : OutputSlot → OutputSlot) (n : Node γ) :
    (n.modifyOutput i f).id = n.id := rfl

end Node

end NodeFlow
