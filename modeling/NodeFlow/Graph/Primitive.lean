import NodeFlow.Graph.Basic
import NodeFlow.Widget.Create
import NodeFlow.Widget.Hooks

/-!
# Primitive nodes

A primitive holds a value for the widgets that its output is linked to.  Its own value widget is
made from the first of them once the links exist, and before each compilation the value is copied
onto all of them.

Main results:

- Definition `Graph.targets`: the widgets that a primitive is linked to.
- Definition `Graph.finishNode`: the primitive with its widgets.
- Definition `Graph.pushValue`: the value copied onto the targets.
-/

namespace NodeFlow

namespace Graph

variable {γ : Type}

/-- The widget at the far end of a link: the widget that the input was made from. -/
def targetOf (g : Graph γ) (l : Link) : Except Fault (Option (NodeId × Nat)) := do
  match ← g.lookup? l.target with
  | none => pure none
  | some n =>
    if (n.inputs.length : Int) ≤ l.targetSlot.val then pure none
    else
      match (position? n.inputs.length l.targetSlot.val).bind (n.inputs[·]?) with
      | none => throw Fault.outside
      | some slot =>
        match slot.widget with
        | .str name =>
          if name = "" then pure none
          else pure ((Widget.position? n.widgets name).map fun i => (n.id, i))
        | _ => pure none

/-- The widgets at the far ends of links, in order. -/
def targetsOf (g : Graph γ) : List Link → Except Fault (List (NodeId × Nat))
  | [] => .ok []
  | l :: ls => do
    let found ← g.targetOf l
    let rest ← targetsOf g ls
    pure (found.toList ++ rest)

/-- The widgets that the first output of a node is linked to. -/
def targets (g : Graph γ) (n : Node γ) : Except Fault (List (NodeId × Nat)) := do
  g.targetsOf (← g.outLinks? n 0)

/-- The widget at a place. -/
def widgetAt? (g : Graph γ) (place : NodeId × Nat) : Option (Node γ × Widget) := do
  let n ← g.at? place.1
  let w ← n.widgets[place.2]?
  pure (n, w)

/-- The widgets of a primitive whose first target is the given widget: a value widget, and a
control when the target is a controlled number. -/
def primitiveWidgets (node : Node γ) (target : Widget) (pending : List Json) : List Widget :=
  let w : Widget := { name := target.name, value := pending.headD target.value
                      kind := target.kind, options := target.options.erase "linked_control" }
  let controlled := target.kind == "number" &&
    (Widget.position? node.widgets ControlMode.widgetName).isSome
  if controlled then
    match Widget.withControl .shared w, pending with
    | [w, control], _ :: v :: _ => [w, control.withValue v]
    | ws, _ => ws
  else [w]

/-- The outputs of a primitive: the first one takes the type of the input it feeds. -/
def primitiveOutputs (outputs : List OutputSlot) (node : Node γ) (name : String) :
    List OutputSlot :=
  match (node.inputPosition? name).bind (node.inputs[·]?) with
  | some slot => outputs.modify 0 fun o => { o with type := slot.type }
  | none => outputs

/-- A primitive with its widgets, if its output is linked to a widget; any other node as it is. -/
def finished (g : Graph γ) (n : Node γ) : Except Fault (Node γ) :=
  match n.kind with
  | .primitive pending =>
    if !n.widgets.isEmpty then .ok n
    else do
      match (← g.targets n).head?.bind g.widgetAt? with
      | none => pure n
      | some (node, target) =>
        pure { n with
          kind := .primitive none
          widgets := primitiveWidgets node target (pending.getD [])
          outputs := primitiveOutputs n.outputs node target.name }
  | _ => .ok n

/-- Finish the node of an id. -/
def finishNode (g : Graph γ) (id : NodeId) : Except Fault (Graph γ) :=
  match g.at? id with
  | none => .ok g
  | some n => do
    let n ← g.finished n
    pure (g.modifyNode id fun _ => n)

/-- An action on the widgets of a node. -/
def onWidgets {α : Type} (id : NodeId) (act : Act Bench α) : Act (Graph γ × Outside) α :=
  act.focus (fun s => (((s.1.at? id).map (·.widgets)).getD [], s.2))
    fun b s => (s.1.modifyNode id fun n => { n with widgets := b.1 }, b.2)

/-- Copy the value of a primitive onto its targets. -/
def pushValue (id : NodeId) : Act (Graph γ × Outside) PUnit := do
  let g := (← get).1
  match g.at? id with
  | none => pure ⟨⟩
  | some n =>
    match n.kind, n.widgets with
    | .primitive _, w :: _ => do
      let places ← Act.lift (g.targets n)
      Act.each places fun (target, i) => onWidgets target (Widget.assign i w.value)
    | _, _ => pure ⟨⟩

end Graph

end NodeFlow
