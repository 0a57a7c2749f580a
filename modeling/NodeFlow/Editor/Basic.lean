import NodeFlow.Backend.Basic
import NodeFlow.Backend.Refusal
import NodeFlow.Extension.Dispatch
import NodeFlow.Graph.Primitive
import NodeFlow.Graph.Site
import NodeFlow.Registry
import NodeFlow.Settings

/-!
# The editor

The state that loading, compiling and submitting share, and the ways in which it reaches its
collaborators.  While the editor waits for one of them, others may act on it.

Main results:

- Types `Request`, `View` and `Editor`.
- Definitions `Editor.broadcast` and `Editor.announce`: calling extensions.
- Definition `Editor.onPlace`: acting on the widgets at a place.
-/

namespace NodeFlow

/-! ## Requests -/

/-- A request to submit the graph so many times, at a place in the backend's queue. -/
structure Request where
  number : Int
  batch : Int
  deriving DecidableEq, Inhabited

namespace Request

/-- Check a request, made of two values. -/
def check (number batch : Json) : Checked Request := do
  let number ← (Check.int number).under (.field "number")
  let batch ← (Check.positive batch).under (.field "batch_count")
  pure ⟨number, batch⟩

/-- Read a request. -/
def read (number batch : Json) : Except Fault Request :=
  Fault.ofIssues "SubmissionRequest" (check number batch)

/-- A request as a value. -/
def toJson (r : Request) : Json := .obj [("number", .int r.number), ("batch_count", .int r.batch)]

end Request

/-- A call that asks for a submission. -/
structure Call where
  number : Json := .int 0
  batch : Json := .int 1
  deriving Inhabited

/-! ## The view -/

/-- What the view of the queue does when it is brought up to date. -/
inductive ViewAction where
  | enqueue (c : Call)
  | raise (r : Raise)
  deriving Inhabited

/-- What the user sees.  A silent view shows nothing. -/
structure View where
  silent : Bool := false
  /-- What the view fails to show, given all that could be seen before. -/
  objects : List Trace.Entry → Trace.Entry → Option Raise := fun _ _ => none
  /-- How often bringing the view of the queue up to date lets others run. -/
  ticks : Nat := 0
  /-- How often the view of the queue has been brought up to date. -/
  shown : Nat := 0
  /-- What the view does at some of these times. -/
  actions : List (Nat × ViewAction) := []
  deriving Inhabited

/-- A copied widget. -/
structure CopiedWidget where
  kind : String
  name : String
  value : Json
  deriving Inhabited

/-! ## The editor -/

/-- The state of an editor. -/
structure Editor where
  settings : Settings := {}
  registry : Registry := {}
  extensions : List Extension := []
  backend : Backend := .replying {}
  view : View := {}
  graph : Workflow := {}
  nodeErrors : Option (Table NodeError) := none
  executionError : Option ExecutionReport := none
  loadError : Option Fault := none
  running : Option String := none
  outputs : Table Members := []
  copied : Option (List CopiedWidget) := none
  pending : List Request := []
  draining : Bool := false
  outside : Outside := {}
  deriving Inhabited

/-- An action of the editor. -/
abbrev EditorAct (α : Type) := Act Editor α

namespace Editor

/-- Act on the outside. -/
def outward {α : Type} (act : Act Outside α) : EditorAct α :=
  act.focus (·.outside) fun o e => { e with outside := o }

/-- Show something to the user. -/
def display (entry : Trace.Entry) : EditorAct PUnit := do
  let e ← get
  if e.view.silent then pure ⟨⟩
  else
    match e.view.objects e.outside.trace entry with
    | some r => throw (.raised r)
    | none => outward (note entry)

/-- Show a dialog. -/
def showDialog (text : String) : EditorAct PUnit := display (.dialog (dialogText text))

/-- Draw the graph again. -/
def redraw : EditorAct PUnit := display .redraw

/-! ## Extensions -/

/-- Call a hook on all extensions and wait for them; their answers, and the subjects as they left
them. -/
def broadcast (hook : String) (subjects : List Subject) :
    EditorAct (List Json × List Subject) := do
  if (← get).extensions.isEmpty then pure ([], subjects)
  else do
    Act.wait
    let e ← get
    let (answers, scene) :=
      Extension.broadcast hook e.extensions ⟨subjects ++ [.editor], e.outside⟩
    set { e with outside := scene.outside }
    pure (answers, scene.subjects.dropLast)

/-- Call a hook on all extensions without waiting. -/
def announce (hook : String) (subjects : List Subject) :
    EditorAct (List Json × List Subject) := do
  let e ← get
  let (answers, scene) := Extension.announce hook e.extensions ⟨subjects ++ [.editor], e.outside⟩
  set { e with outside := scene.outside }
  pure (answers, scene.subjects.dropLast)

/-- Register an extension. -/
def register (x : Extension) : EditorAct PUnit := do
  let e ← get
  let known ← Act.lift (Extension.enlist e.extensions x)
  set { e with extensions := known }

/-! ## Sites -/

/-- Act on the graph and the outside. -/
def onGraph {α : Type} (act : Act (Workflow × Outside) α) : EditorAct α :=
  act.focus (fun e => (e.graph, e.outside)) fun s e => { e with graph := s.1, outside := s.2 }

/-- Act on the graph alone. -/
def edit {α : Type} (act : Act Workflow α) : EditorAct α :=
  act.focus (·.graph) fun g e => { e with graph := g }

/-- Act on the graph inside a group and on the outside. -/
def onInner {α : Type} (host : NodeId) (act : Act (Subgraph × Outside) α) :
    Act (Workflow × Outside) α :=
  act.focus (fun s => (Workflow.innerGraph s.1 host, s.2))
    fun t s => (Workflow.modifyGroup host (fun _ => t.1) s.1, t.2)

/-- Act on the widgets at a place. -/
def onPlace {α : Type} (place : Place) (act : Act Bench α) : EditorAct α :=
  onGraph (match place with
    | .outer id => Graph.onWidgets id act
    | .inner host id => onInner host (Graph.onWidgets id act))

/-- Let the node at a place push its value, if it is a primitive. -/
def pushAt (place : Place) : EditorAct PUnit :=
  onGraph (match place with
    | .outer id => Graph.pushValue id
    | .inner host id => onInner host (Graph.pushValue id))

/-- The widgets at a place. -/
def widgetsAt (e : Editor) (place : Place) : List Widget :=
  ((Workflow.siteAt? e.graph place).map (·.widgets)).getD []

end Editor

end NodeFlow
