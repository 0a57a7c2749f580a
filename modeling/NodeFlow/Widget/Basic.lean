import NodeFlow.Json.Compare
import NodeFlow.Outside

/-!
# Widgets

A widget is a named value on a node.  Hooks may hang on it: one that replaces the value sent to
the backend, two that run around a submission, and one that is told of changes.

Main results:

- Types `Script`, `Hook`, `QueueHook` and `Widget`.
- Definition `Widget.isSent`: whether the value goes into the prompt.
- Definition `Widget.find?`: the first widget of a name.
-/

namespace NodeFlow

/-- What a hook does when it is called. -/
structure Script where
  /-- The value to send in place of the widget's own. -/
  returns : Option Json := none
  /-- A text put before the widget's own value when nothing else is sent. -/
  lead : String := ""
  /-- How often the hook lets others run before it goes on. -/
  ticks : Nat := 0
  /-- The value to give the widget. -/
  sets : Option Json := none
  /-- The amount to add to the widget. -/
  adds : Option Json := none
  /-- The failure that the hook reports. -/
  raises : Option Raise := none
  /-- The number of calls that fail, all of them if absent. -/
  raiseLimit : Option Int := none
  deriving Inhabited

/-- A hook: what it does, and which counter counts its calls. -/
structure Hook where
  counter : Nat
  script : Script
  deriving Inhabited

/-- A hook that runs around a submission. -/
inductive QueueHook where
  /-- Advance the widget in front by the mode that this widget holds. -/
  | advance (source : RandomSource)
  /-- Follow a script. -/
  | scripted (hook : Hook)
  /-- Follow a script, then run the hook that was there before. -/
  | chained (hook : Hook) (previous : QueueHook)
  deriving Inhabited

/-- A named value on a node. -/
structure Widget where
  name : String
  value : Json
  kind : String := "text"
  options : Members := []
  serializer : Option Hook := none
  beforeQueued : Option QueueHook := none
  afterQueued : Option QueueHook := none
  callback : Option Hook := none
  deriving Inhabited

namespace Widget

/-- A widget is part of the prompt unless its options say no. -/
def isSent (w : Widget) : Bool :=
  match w.options.get? "serialize" with
  | some (.bool false) => false
  | _ => true

/-- The position of the first widget of a name. -/
def position? (ws : List Widget) (name : String) : Option Nat := ws.findIdx? (·.name == name)

/-- The first widget of a name. -/
def find? (ws : List Widget) (name : String) : Option Widget := ws.find? (·.name == name)

/-- The choices of a widget, if its options list any. -/
def choices (w : Widget) : List Json := ((w.options.get? "values").getD .null).items

/-- The same widget with another value. -/
def withValue (w : Widget) (v : Json) : Widget := { w with value := v }

@[simp] theorem name_withValue (w : Widget) (v : Json) : (w.withValue v).name = w.name := rfl

@[simp] theorem value_withValue (w : Widget) (v : Json) : (w.withValue v).value = v := rfl

@[simp] theorem isSent_withValue (w : Widget) (v : Json) : (w.withValue v).isSent = w.isSent := rfl

end Widget

end NodeFlow
