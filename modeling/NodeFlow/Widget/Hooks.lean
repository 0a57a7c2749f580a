import NodeFlow.Json.Display
import NodeFlow.Widget.Control

/-!
# Running hooks

The hooks of a widget act on the widgets of its node and on the outside.  A change of value tells
the callback of the widget, which may fail after the value has been set.

Main results:

- Definitions `Hook.call`, `Widget.assign`, `Widget.applyControl`, `QueueHook.run` and
  `Widget.sentValue`.
- Theorem `Widget.exec_assign_silent`: without a callback an assignment changes one value only.
-/

namespace NodeFlow

/-- The widgets of one node, and the outside. -/
abbrev Bench := List Widget × Outside

/-- Add an entry to the trace. -/
def note (entry : Trace.Entry) : Act Outside PUnit := modify (Outside.record entry)

namespace Hook

/-- Whether a call of the hook fails, given how often it has been called. -/
def failure? (h : Hook) (count : Nat) : Option Raise :=
  match h.script.raises, h.script.raiseLimit with
  | some r, none => some r
  | some r, some limit => if (count : Int) ≤ limit then some r else none
  | none, _ => none

/-- Call a hook: the call is seen and counted, and it may fail. -/
def call (h : Hook) (entry : Trace.Entry) : Act Outside PUnit := do
  note entry
  let count ← Act.ofExec fun o =>
    let (count, o) := o.countCall h.counter
    (.ok count, o)
  match h.failure? count with
  | some r => throw (.raised r)
  | none => pure ⟨⟩

end Hook

namespace Widget

/-- Tell the callback of a widget about a new value. -/
def announce (w : Widget) (v : Json) : Act Outside PUnit :=
  match w.callback with
  | some h => h.call (.hookRun "callback" (.str w.name) v)
  | none => pure ⟨⟩

/-- An action on the outside, among the widgets of a node. -/
def outward {α : Type} (act : Act Outside α) : Act Bench α :=
  act.focus (·.2) fun o b => (b.1, o)

/-- Give the widget at a position a value and tell its callback. -/
def assign (i : Nat) (v : Json) : Act Bench PUnit := do
  modify fun b => (b.1.modify i (·.withValue v), b.2)
  match (← get).1[i]? with
  | some w => outward (w.announce v)
  | none => pure ⟨⟩

/-- Move the widget at a position by a mode.  A mode that moves nothing leaves it alone, and so does a
choice among nothing. -/
def applyControl (target : Widget) (source : RandomSource) (mode : Json) (i : Nat) :
    Act Bench PUnit := do
  match ControlMode.ofJson? mode with
  | none => pure ⟨⟩
  | some mode =>
    let next ← outward (draw source (mode.next? target))
    match ← Act.lift next with
    | some v => assign i v
    | none => pure ⟨⟩

/-- The value that a widget sends to the backend: that of its hook, or its own. -/
def sentValue (w : Widget) (node : NodeId) (index : Nat) : Act Outside Json :=
  match w.serializer with
  | none => pure w.value
  | some h => do
    h.call (.hookRun "serialize_value" node.toJson (.int index))
    pure (h.script.returns.getD (.str (h.script.lead ++ w.value.display)))

/-- How often sending the value lets others run. -/
def sendTicks (w : Widget) : Nat :=
  match w.serializer with
  | none => 0
  | some h => h.script.ticks

/-- An action on the outside leaves the widgets. -/
theorem exec_outward {α : Type} (act : Act Outside α) (b : Bench) :
    (outward act).exec b = ((act.exec b.2).1, b.1, (act.exec b.2).2) := by
  rw [outward, Act.exec_focus]
  · intros; rfl
  · intros; rfl

/-- Without a callback an assignment changes one value only. -/
theorem exec_assign_silent {ws : List Widget} {i : Nat} {w : Widget} (h : ws[i]? = some w)
    (hc : w.callback = none) (v : Json) (o : Outside) :
    (assign i v).exec (ws, o) = (.ok ⟨⟩, (ws.modify i (·.withValue v), o)) := by
  simp [assign, Act.exec_bind, h, announce, hc, exec_outward, withValue]

end Widget

namespace QueueHook

/-- Advance the widget in front of position `i` by the mode that the widget at `i` holds. -/
def advanceTarget (source : RandomSource) (i : Nat) : Act Bench PUnit := do
  let ws := (← get).1
  match ws[i]?, ws[i - 1]? with
  | some control, some target => target.applyControl source control.value (i - 1)
  | _, _ => pure ⟨⟩

/-- Follow the script of a hook on the widget at position `i`. -/
def follow (name : String) (h : Hook) (i : Nat) : Act Bench PUnit := do
  match (← get).1[i]? with
  | none => pure ⟨⟩
  | some w =>
    Widget.outward (h.call (.hookRun name (.str w.name) w.value))
    match h.script.sets with
    | some v => Widget.assign i v
    | none => pure ⟨⟩
    match h.script.adds, (← get).1[i]? with
    | some amount, some w => Widget.assign i (← Act.lift (w.value.plus amount))
    | _, _ => pure ⟨⟩

/-- Run a queue hook of the widget at position `i`. -/
def run (name : String) (i : Nat) : QueueHook → Act Bench PUnit
  | .advance source => advanceTarget source i
  | .scripted h => follow name h i
  | .chained h previous => do
    follow name h i
    previous.run name i

end QueueHook

end NodeFlow
