import NodeFlow.Widget.Control

/-!
# Widgets of an input

An input whose type is a list of choices or one of the four value types is shown as a widget.
Seeds get a control widget behind them.

Main results:

- Definitions `Widget.isWidgetType` and `Widget.forInput`.
- Definition `Widget.withControl`: a widget and its control.
-/

namespace NodeFlow.Widget

/-- The types of inputs that hold a value. -/
def valueTypes : List String := ["INT", "FLOAT", "STRING", "BOOLEAN"]

/-- Whether an input is shown as a widget and not as a slot. -/
def isWidgetType (type : Json) (options : Members) : Bool :=
  if ((options.get? "forceInput").getD .null).truthy then false
  else
    match type with
    | .arr _ => true
    | .str s => valueTypes.contains s
    | _ => false

/-- Inputs of these names are seeds. -/
def seedNames : List String := ["seed", "noise_seed"]

/-- The control of the widget in front of it. -/
def control (source : RandomSource) : Widget :=
  { name := ControlMode.widgetName
    value := .str "randomize"
    kind := "combo"
    options := [("values", .arr (ControlMode.names.map .str)), ("serialize", .bool false)]
    afterQueued := some (.advance source) }

/-- A widget marked as controlled, and its control. -/
def withControl (source : RandomSource) (w : Widget) : List Widget :=
  [{ w with options := w.options.set "linked_control" (.str ControlMode.widgetName) },
    control source]

/-- The widgets of an input. -/
def forInput (source : RandomSource) (name : String) (type : Json) (options : Members) :
    Except Fault (List Widget) :=
  let option (key : String) (absent : Json) : Json := (options.get? key).getD absent
  match type with
  | .arr choices =>
    .ok [{ name, value := option "default" (choices.headD .null), kind := "combo"
           options := [("values", .arr choices)] }]
  | .str "INT" => do
    let value ← Json.toWhole (option "default" (.int 0))
    let w : Widget :=
      { name, value := .int value, kind := "number"
        options := [("min", option "min" (.int 0)), ("max", option "max" (.int 2048)),
          ("step", option "step" (.int 1)), ("precision", .int 0)] }
    let isSeed := (option ControlMode.widgetName .null).truthy || seedNames.contains name
    pure (if isSeed then withControl source w else [w])
  | .str "FLOAT" => do
    let value ← Json.toDouble (option "default" (.float 0.0))
    pure [{ name, value := .float value, kind := "number"
            options := [("min", option "min" (.float 0.0)), ("max", option "max" (.float 2048.0)),
              ("step", option "step" (.float 0.5)), ("round", option "round" (.float 0.01))] }]
  | .str "STRING" =>
    .ok [{ name, value := option "default" (.str "")
           kind := if (option "multiline" .null).truthy then "customtext" else "text" }]
  | .str "BOOLEAN" =>
    .ok [{ name, value := .bool (option "default" (.bool false)).truthy, kind := "toggle"
           options := [("on", option "label_on" .null), ("off", option "label_off" .null)] }]
  | type =>
    .error (.badValue ("Input type '" ++ type.display ++ "' is not a widget type"))

end NodeFlow.Widget
