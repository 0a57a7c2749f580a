import NodeFlow.Editor.Events
import NodeFlow.Editor.Queue
import NodeFlow.Service.Reply

/-!
# The service

The editor as a service that answers requests by method and address.

Main results:

- Definition `Service.answer`: the answer of an editor to a request.
- Definition `Service.answerUnready`: the answer before there is an editor.
- Definition `Service.start`: an editor that starts up though its backend may not answer yet.
-/

namespace NodeFlow

namespace Service

/-! ## Bodies -/

/-- Check the body of a request that has to be a record; a null body counts as none. -/
def body {α : Type} [Inhabited α] (fields : Members → Checked α) : Json → Checked α
  | .obj ms => fields ms
  | .null => Checked.fail "missing" "Field required"
  | _ =>
    Checked.fail "model_attributes_type"
      "Input should be a valid dictionary or object to extract fields from"

/-- The body of a submission. -/
def submission : Json → Checked Request :=
  body fun ms => do
    let number ← Check.optional ms "number" 0 Check.int
    let batch ← Check.optional ms "batch_count" 1 Check.positive
    pure ⟨number, batch⟩

/-- The body of an event: its name and detail. -/
def event : Json → Checked (String × Json) :=
  body fun ms => do
    let name ← Check.required ms "type" Check.text
    pure (name, (ms.get? "data").getD .null)

/-- The body of a load: a document, a prompt, or nothing. -/
def document : Json → Checked Json
  | .null => pure .null
  | v => do
    let ms ← Check.object v
    pure (.obj ms)

/-- Go on with a sound body. -/
def withBody {α : Type} (c : Checked α) (act : α → EditorAct ServiceReply) :
    EditorAct ServiceReply :=
  match c.toExcept with
  | .ok a => act a
  | .error issues => pure (.unsound issues)

/-! ## Answers -/

/-- The missing types as a value. -/
def missingToJson (missing : List MissingType) : Json := .arr (missing.map MissingType.toJson)

/-- The answer to a load. -/
def loadedReply (count : Nat) (missing : List MissingType) : ServiceReply :=
  .granted [("node_count", .int count), ("missing_node_types", missingToJson missing)]

/-- Load a prompt. -/
def loadPrompt (prompt : Json) : EditorAct ServiceReply := do
  let loaded ← Editor.loadPrompt prompt
  match loaded.nodes with
  | some count => pure (loadedReply count [])
  | none =>
    pure (.faulty "Prompt references node types that are not registered"
      [("type", .str "MissingNodeType"), ("missing_node_types", missingToJson loaded.missing)])

/-- Load a document, or the standard graph. -/
def loadDocument (v : Json) : EditorAct ServiceReply := do
  match ← Editor.load (.ofJson v) true with
  | some loaded => pure (loadedReply (loaded.nodes.getD 0) loaded.missing)
  | none => do
    let e ← get
    pure (.ofFault (e.loadError.getD default))

/-- Compile the graph. -/
def compile : EditorAct ServiceReply := do
  match ← Act.attempt Editor.compile with
  | .ok p => do
    let workflow ← Act.lift p.workflow.write
    pure (.granted [("output", p.output.toJson), ("workflow", workflow)])
  | .error f => if f.isStructural then pure (.ofFault f) else throw f

/-- Show the graph. -/
def showGraph : EditorAct ServiceReply := do
  let v ← Act.lift (Workflow.save (← get).graph).write
  pure (.shown v.visible)

/-- Show the queue, internal members of reports included. -/
def showQueue : EditorAct ServiceReply := do
  let q ← Act.lift (← get).queueState
  let members ← Act.lift q.write
  pure (.shown (.obj members))

/-- Submit the graph. -/
def submit (r : Request) : EditorAct ServiceReply := do
  Editor.enqueue { number := .int r.number, batch := .int r.batch }
  showQueue

/-- Refresh the choices of the graph.  A backend that does not answer is reported. -/
def refresh : EditorAct ServiceReply := do
  match ← Act.attempt Editor.refresh with
  | .ok count => do
    let e ← get
    pure (.granted [("node_types", .int e.registry.definitions.length),
      ("reset_widgets", .int count)])
  | .error f => if f.isTransport then pure (.refused 502 (.str f.message)) else throw f

/-- Pass an event on.  A detail with issues is reported. -/
def passEvent (name : String) (detail : Json) : EditorAct ServiceReply := do
  match ← Act.attempt (Editor.onEvent name detail) with
  | .ok handled => do
    let e ← get
    pure (.granted [("handled", .bool handled),
      ("running_node_id", Json.ofOption (e.running.map .str))])
  | .error (.invalid subject issues) =>
    pure (.refused 422 (.str (Fault.issueSummary subject issues.length)))
  | .error f => throw f

/-- The answer of a route. -/
def serve (content : Json) : Route → EditorAct ServiceReply
  | .greet => pure (.granted [("message", .str "graphprompt is running")])
  | .loadGraph =>
    withBody (document content) fun v => if isPrompt v then loadPrompt v else loadDocument v
  | .showGraph => showGraph
  | .compile => compile
  | .submit => withBody (submission content) submit
  | .showQueue => showQueue
  | .refresh => refresh
  | .event => withBody (event content) fun (name, detail) => passEvent name detail

/-- The method of a request in upper case, and what it asks for.  The body has to be JSON.  A page
is no JSON, so that only its head can be had. -/
def seek (method address : String) (content : Json) : Except Fault (String × RouteMatch) := do
  let path ← Route.target address
  let _ ← Fault.portableOnly content
  let method := Text.upper method
  match Route.find method path with
  | .page => if method = "HEAD" then pure (method, .page) else .error .unreadable
  | m => pure (method, m)

/-- The answer of an editor to a request. -/
def answer (method address : String) (content : Json) : EditorAct ServiceReply := do
  let (method, m) ← Act.lift (seek method address content)
  let r ← match m with
    | .found r => serve content r
    | m => pure (.ofMatch m)
  Act.lift (r.send method)

/-- The answer to a request before there is an editor. -/
def answerUnready (method address : String) (content : Json) : Except Fault ServiceReply := do
  let (method, m) ← seek method address content
  let r : ServiceReply := match m with
    | .found .greet => .granted [("message", .str "graphprompt is running")]
    | .found _ => .refused 503 (.str "Application context not ready")
    | m => .ofMatch m
  r.send method

/-- Start up an editor.  The backend may not answer yet. -/
def start : EditorAct PUnit := do
  match ← Act.attempt (Editor.setup .standard) with
  | .ok _ => pure ⟨⟩
  | .error f => if f.isTransport then pure ⟨⟩ else throw f

end Service

end NodeFlow
