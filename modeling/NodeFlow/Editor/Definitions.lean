import NodeFlow.Editor.Load

/-!
# Definitions in the editor

The editor asks the backend for its node definitions.  Extensions may add definitions and change
each one before it is registered.  A refresh also offers the new choices to the widgets of the
graph.

Main results:

- Definition `Editor.registerDefinitions`: the definitions of the backend, registered.
- Definition `Editor.refresh`: the new choices offered to all widgets; how many were reset.
- Definitions `Editor.setup` and `Editor.cleanup`: the first and the last thing an editor does.
-/

namespace NodeFlow

namespace Editor

/-! ## Asking the backend -/

/-- Act with the client of the backend on the outside. -/
def onWire {α : Type} (c : WireClient) (act : Act (WireClient × Outside) α) : EditorAct α := do
  Act.waitFor c.ticks
  act.focus (fun e => (c, e.outside)) fun s e => { e with backend := .wire s.1, outside := s.2 }

/-- The definitions that the backend knows. -/
def askDefinitions : EditorAct Json := do
  match (← get).backend with
  | .replying r => pure r.definitions
  | .wire c => onWire c WireClient.definitions

/-- The state of the backend's queue. -/
def askStatus : EditorAct Json := do
  match (← get).backend with
  | .replying _ => pure (.obj [("exec_info", .obj [("queue_remaining", .int 0)])])
  | .wire c => onWire c WireClient.status

/-- Close the connection to the backend. -/
def closeBackend : EditorAct PUnit := do
  match (← get).backend with
  | .replying _ => outward (note .backendClosed)
  | .wire c => modify fun e => { e with backend := .wire { c with isClosed := true } }

/-! ## Registration -/

/-- Let extensions add definitions. -/
def offerDefinitions (raw : Json) : EditorAct Json := do
  match ← broadcast "add_custom_node_defs" [.data raw] with
  | (_, [.data raw]) => pure raw
  | _ => pure raw

/-- Let extensions change a definition. -/
def offerDefinition (d : Definition) : EditorAct Definition := do
  match ← broadcast "before_register_node_def" [.definition d] with
  | (_, [.definition d]) => pure d
  | _ => pure d

/-- Register definitions one after the other. -/
def registerEach : Members → Table Definition → EditorAct (Table Definition)
  | [], known => pure known
  | (name, raw) :: rest, known => do
    let d ← Act.lift (Definition.readAs ((raw.get? "name").getD (.str name)) raw)
    let d ← offerDefinition d
    modify fun e => { e with registry := e.registry.register d }
    registerEach rest (known.set name d)

/-- Register the definitions of the backend; the result holds them under the backend's names. -/
def registerDefinitions : EditorAct (Table Definition) := do
  let raw ← askDefinitions
  match ← offerDefinitions raw with
  | .obj ms => registerEach ms []
  | v => throw (.noPart ("'" ++ v.typeName ++ "' object has no attribute 'items'"))

end Editor

/-! ## New choices -/

/-- Choice widgets of these names keep a value that is not offered. -/
def keptChoices : List String := ["image"]

/-- A widget that offers the given choices. -/
def Widget.offer (choices : List Json) (w : Widget) : Widget :=
  { w with options := w.options.set "values" (.arr choices) }

/-- The first choice, if the value of a widget is none of the choices. -/
def Widget.fallback? (choices : List Json) (w : Widget) : Option Json :=
  if w.value.isAmong choices then none else choices.head?

/-- Offer the widget at a position new choices and reset a value that is not offered; the number
of resets. -/
def Widget.renew (d : Definition) (i : Nat) : Act Bench Nat := do
  match (← get).1[i]? with
  | none => pure 0
  | some w =>
    match if w.kind == "combo" then d.choices? w.name else none with
    | none => pure 0
    | some choices => do
      modify fun b => (b.1.modify i (Widget.offer choices), b.2)
      match if keptChoices.contains w.name then none else w.fallback? choices with
      | none => pure 0
      | some v => do
        assign i v
        pure 1

namespace Graph

variable {γ : Type}

/-- The definition and the name of the first target of a primitive whose class is defined. -/
def firstDefined? (g : Graph γ) (defs : Table Definition) (targets : List (NodeId × Nat)) :
    Option (Definition × String) :=
  (targets.filterMap g.widgetAt?).findSome? fun (n, w) =>
    (defs.get? n.type).map fun d => (d, w.name)

/-- Offer the value widget of a primitive the choices of its first defined target. -/
def renewPrimitive (defs : Table Definition) (id : NodeId) : Act (Graph γ × Outside) PUnit := do
  let g := (← get).1
  match g.at? id with
  | none => pure ⟨⟩
  | some n =>
    match n.kind, n.widgets with
    | .primitive _, w :: _ =>
      if w.kind == "combo" then do
        let targets ← Act.lift (g.targets n)
        match (g.firstDefined? defs targets).bind fun (d, name) => d.choices? name with
        | none => pure ⟨⟩
        | some choices =>
          onWidgets id do
            modify fun b => (b.1.modify 0 (Widget.offer choices), b.2)
            match w.fallback? choices with
            | none => pure ⟨⟩
            | some v => Widget.assign 0 v
      else pure ⟨⟩
    | _, _ => pure ⟨⟩

/-- Offer the widgets of a node new choices; the number of resets. -/
def renewNode (defs : Table Definition) (id : NodeId) : Act (Graph γ × Outside) Nat := do
  renewPrimitive defs id
  match (← get).1.at? id with
  | none => pure 0
  | some n =>
    match defs.get? n.type with
    | none => pure 0
    | some d => do
      let counts ← onWidgets id (Act.collect (List.range n.widgets.length) (Widget.renew d))
      pure (counts.foldl (· + ·) 0)

end Graph

namespace Editor

/-- Ask the backend for its definitions again and offer the new choices to the widgets of the
nodes; the number of widgets that were reset. -/
def refresh : EditorAct Nat := do
  let defs ← registerDefinitions
  let ids := (← get).graph.nodes.map (·.id)
  let counts ← onGraph (Act.collect ids (Graph.renewNode defs))
  pure (counts.foldl (· + ·) 0)

/-! ## Beginning and end -/

/-- Start up: extensions begin, definitions are registered, a graph is loaded, extensions set
up. -/
def setup (source : LoadSource) : EditorAct (Option Loaded) := do
  let _ ← broadcast "init" []
  let _ ← registerDefinitions
  let loaded ← load source true
  let _ ← broadcast "setup" []
  pure loaded

/-- Shut down: extensions clean up and the connection to the backend is closed. -/
def cleanup : EditorAct PUnit := do
  let _ ← announce "cleanup" []
  closeBackend

end Editor

end NodeFlow
