import NodeFlow.Prompt.Step

/-!
# Traces

What the editor and its collaborators can see happening, in order: calls of extensions and hooks,
submissions, dialogs, redraws and requests.

Main results:

- Type `Trace.Entry` and its written form `Trace.Entry.toJson`.
-/

namespace NodeFlow

/-- A visible event. -/
inductive Trace.Entry where
  /-- An extension hook starts with the given arguments. -/
  | extensionCalled (extension : Json) (hook : String) (arguments : List Json)
  /-- An extension hook has done its work. -/
  | extensionDone (extension : Json) (hook : String)
  /-- A widget hook runs; the two values say for what. -/
  | hookRun (hook : String) (subject detail : Json)
  /-- A prompt reaches the backend. -/
  | submitted (count : Nat) (number : Int) (output : Output)
  /-- A text is shown to the user. -/
  | dialog (text : String)
  /-- The graph is drawn again. -/
  | redraw
  /-- The view of the queue is brought up to date, for the given time. -/
  | queueShown (count : Nat)
  /-- A run of the queue has ended. -/
  | promptQueued (number batch : Json)
  /-- A request was added from within the view of the queue; so many wait now. -/
  | enqueued (waiting : Nat)
  /-- A request goes over the wire. -/
  | request (method url : String) (body : Json)
  /-- The connection to the backend is closed. -/
  | backendClosed
  /-- A node is told its outputs. -/
  | executed (node : NodeId) (output : Json)
  /-- A node is told that a run starts. -/
  | executionStarted (node : NodeId)
  deriving Inhabited

/-- An entry as a value: what happened, and the data of it. -/
def Trace.Entry.toJson : Trace.Entry → Json
  | extensionCalled x hook arguments => .arr [.str "ext", x, .str hook, .arr arguments]
  | extensionDone x hook => .arr [.str "ext_done", x, .str hook]
  | hookRun hook subject detail => .arr [.str "hook", .str hook, subject, detail]
  | submitted count number output =>
    .arr [.str "submit", .int count, .int number, output.summary]
  | dialog text => .arr [.str "dialog", .str text]
  | redraw => .arr [.str "redraw"]
  | queueShown count => .arr [.str "update_queue", .int count]
  | promptQueued number batch =>
    .arr [.str "event", .str "prompt_queued", .obj [("number", number), ("batch_count", batch)]]
  | enqueued waiting => .arr [.str "enqueued", .int waiting]
  | request method url body => .arr [.str "http", .str method, .str url, body]
  | backendClosed => .arr [.str "backend_closed"]
  | executed node output => .arr [.str "on_executed", node.toJson, output]
  | executionStarted node => .arr [.str "on_execution_start", node.toJson]

end NodeFlow
