import NodeFlow.Editor.Basic

/-!
# Copying widgets

The widgets of a node can be copied and pasted onto another node, where each finds the widget of
its kind and name.  A reference to a file is pasted into a text widget as a path.

Main results:

- Definitions `Editor.copy`, `Editor.setCopied` and `Editor.paste`.
- Definition `filePath?`: the path that a reference to a file stands for.
-/

namespace NodeFlow

/-- The path that a reference to a file stands for: folder, name and place. -/
def filePath? : Json → Option Json
  | .obj ms =>
    let part (name : String) : Json := (Table.get? ms name).getD .null
    if (part "filename").truthy then
      let path := part "filename"
      let path := if (part "subfolder").truthy then
        .str ((part "subfolder").display ++ "/" ++ path.display) else path
      some (if (part "type").truthy then
        .str (path.display ++ " [" ++ (part "type").display ++ "]") else path)
    else none
  | _ => none

namespace CopiedWidget

/-- The position of the widget that a copied one is pasted onto.  Buttons hold nothing. -/
def target? (c : CopiedWidget) (ws : List Widget) : Option Nat :=
  if c.kind = "button" then none
  else ws.findIdx? fun w => w.kind == c.kind && w.name == c.name

/-- Paste a copied widget. -/
def paste (c : CopiedWidget) : Act Bench PUnit := do
  let ws := (← get).1
  match c.target? ws with
  | none => pure ⟨⟩
  | some i =>
    match (ws[i]?).bind (·.value.string?), filePath? c.value with
    | some _, some path => modify fun b => (b.1.modify i (·.withValue path), b.2)
    | _, _ => Widget.assign i c.value

/-- A copied widget as a value. -/
def toJson (c : CopiedWidget) : Json :=
  .obj [("type", .str c.kind), ("name", .str c.name), ("value", c.value)]

end CopiedWidget

namespace Editor

/-- Copy widgets. -/
def copy (ws : List Widget) : EditorAct PUnit :=
  modify fun e => { e with copied := some (ws.map fun w => ⟨w.kind, w.name, w.value⟩) }

/-- Replace the value of a copied widget. -/
def setCopied (position : Int) (v : Json) : EditorAct PUnit := do
  let e ← get
  match e.copied with
  | none => throw (.noPart "'NoneType' object has no attribute 'widgets'")
  | some copied =>
    match position? copied.length position with
    | none => throw Fault.outside
    | some i => set { e with copied := some (copied.modify i fun c => { c with value := v }) }

/-- Paste the copied widgets onto the widgets at a place. -/
def paste (place : Place) : EditorAct PUnit := do
  match (← get).copied with
  | none => pure ⟨⟩
  | some copied => do
    onPlace place (Act.each copied CopiedWidget.paste)
    redraw

end Editor

end NodeFlow
