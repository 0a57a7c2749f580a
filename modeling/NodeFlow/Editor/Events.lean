import NodeFlow.Editor.Basic

/-!
# Events of the backend

While a prompt runs, the backend reports its start, the node at work, the outputs of nodes, and
failure.

Main results:

- Definition `Editor.onEvent`: what an event does, and whether it is one of those four.
- Definition `Editor.mergeOutput`: outputs added to those a node already has.
-/

namespace NodeFlow

namespace Editor

/-- A run starts. -/
def onStart : EditorAct PUnit := do
  modify fun e => { e with running := none, executionError := none }
  let watching := (← get).graph.nodes.filter (·.watchesStart)
  Act.each watching fun n => outward (note (.executionStarted n.id))

/-- A node is at work, or none any more. -/
def onRunning (node : Json) : EditorAct PUnit := do
  modify fun e => { e with running := node.toOption.map Json.display }
  redraw

/-- The list that is added to a list of outputs. -/
def addition : Json → List Json
  | .arr xs => xs
  | v => [v]

/-- An output added to the one there is: lists grow, all else is replaced. -/
def mergeEntry (known : Members) (entry : String × Json) : Members :=
  match known.get? entry.1 with
  | some (.arr xs) => known.set entry.1 (.arr (xs ++ addition entry.2))
  | _ => known.set entry.1 entry.2

/-- Outputs added to those a node already has. -/
def mergeOutput (known incoming : Members) : Members := incoming.foldl mergeEntry known

/-- The outputs of a node after it has reported some. -/
def outputsAfter (report : Executed) (known : Option Members) : Members :=
  let incoming := report.output.getD []
  match known with
  | some known => if report.merge then mergeOutput known incoming else incoming
  | none => incoming

/-- A node reports its outputs. -/
def onOutput (detail : Json) : EditorAct PUnit := do
  let report ← Act.lift (Executed.read detail)
  let key := report.node.key
  modify fun e =>
    { e with outputs := e.outputs.set key (outputsAfter report (e.outputs.get? key)) }
  match ← Act.lift ((← get).graph.lookup? (.str key)) with
  | none => pure ⟨⟩
  | some n =>
    if n.watchesOutput then outward (note (.executed n.id (.obj (report.output.getD []))))
    else pure ⟨⟩

/-- The report on a failed run in the detail of an event. -/
def failureReport : Json → Except Fault (Option ExecutionReport)
  | .null => .ok none
  | .obj ms => do
    let x ← ExecutionError.read (.obj ms)
    pure (some (.known x))
  | v => .ok (some (.other v))

/-- The text about a failed run. -/
def failureText : Option ExecutionReport → Except Fault String
  | none => .ok unknownFailure
  | some (.known x) => .ok x.display
  | some (.other v) => do
    let x ← ExecutionError.read v
    pure x.display

/-- A run has failed. -/
def onFailure (detail : Json) : EditorAct PUnit := do
  let report ← Act.lift (failureReport detail)
  modify fun e => { e with executionError := report }
  let text ← Act.lift (failureText report)
  showDialog text
  redraw

/-- What an event of a name does; none for a name that means nothing. -/
def handler? (name : String) : Option (Json → EditorAct PUnit) :=
  if name = "execution_start" then some fun _ => onStart
  else if name = "executing" then some onRunning
  else if name = "executed" then some onOutput
  else if name = "execution_error" then some onFailure
  else none

/-- Deal with an event; whether its name means something. -/
def onEvent (name : String) (detail : Json) : EditorAct Bool := do
  match handler? name with
  | some handle => do
    handle detail
    pure true
  | none => pure false

end Editor

end NodeFlow
