import NodeFlow.Check.Field
import NodeFlow.Fault

/-!
# Reports of the backend

What the backend says about submissions and runs: complaints about nodes, answers to
submissions, failures of a run, and outputs of nodes.  Members that are no fields are kept.

Main results:

- Types `Complaint`, `NodeError`, `QueueResponse`, `ExecutionError` and `Executed` with their
  checkers and written forms.
- Definition `NodeError.readTable`: the complaints of a refusal, malformed ones left out.
-/

namespace NodeFlow

/-- An optional text as a value. -/
def optionalText (s : Option String) : Json := Json.ofOption (s.map .str)

/-! ## Complaints about nodes -/

/-- One complaint about a node. -/
structure Complaint where
  type : Option String := none
  message : String := ""
  details : Option String := none
  info : Members := []
  extra : Members := []
  deriving Inhabited

/-- The complaints about a node. -/
structure NodeError where
  className : Option String := none
  complaints : List Complaint := []
  dependents : List Json := []
  extra : Members := []
  deriving Inhabited

namespace Complaint

/-- Check a complaint. -/
def check : Json → Checked Complaint :=
  Check.record "ErrorDetail" fun ms => do
    let type ← Check.maybe ms "type" Check.text
    let message ← Check.optional ms "message" "" Check.text
    let details ← Check.maybe ms "details" Check.text
    let info ← Check.optional ms "extra_info" [] Check.object
    pure ⟨type, message, details, info,
      Check.others ["type", "message", "details", "extra_info"] ms⟩

/-- A complaint as a value. -/
def toJson (c : Complaint) : Json :=
  .obj ([("type", optionalText c.type), ("message", .str c.message),
    ("details", optionalText c.details), ("extra_info", .obj (Json.portableMembers c.info))] ++
      Json.portableMembers c.extra)

/-- How deep the free values of a complaint are nested. -/
def depth (c : Complaint) : Nat := max (Json.depthMembers c.info) (Json.depthMembers c.extra)

end Complaint

namespace NodeError

/-- Check the complaints about a node. -/
def check : Json → Checked NodeError :=
  Check.record "NodeError" fun ms => do
    let className ← Check.maybe ms "class_type" Check.text
    let complaints ← Check.optional ms "errors" [] (Check.list Complaint.check)
    let dependents ← Check.optional ms "dependent_outputs" [] (Check.list Check.any)
    pure ⟨className, complaints, dependents,
      Check.others ["class_type", "errors", "dependent_outputs"] ms⟩

/-- The complaints about a node as a value. -/
def toJson (e : NodeError) : Json :=
  .obj ([("class_type", optionalText e.className),
    ("errors", .arr (e.complaints.map Complaint.toJson)),
    ("dependent_outputs", .arr (Json.portableItems e.dependents))] ++
      Json.portableMembers e.extra)

/-- How deep the free values of complaints about a node are nested. -/
def depth (e : NodeError) : Nat :=
  ([Json.depthItems e.dependents, Json.depthMembers e.extra] ++
    e.complaints.map Complaint.depth).foldr max 0

/-- The complaints about a node as a value, unless they are nested too deep to be written. -/
def write (e : NodeError) : Except Fault Json := Fault.shallowOnly e.depth e.toJson

/-- The complaints in a refusal, under the keys of their nodes.  Malformed ones are left out. -/
def readTable : Json → Table NodeError
  | .obj ms => ms.filterMap fun (key, v) =>
    match (check v).toExcept with
    | .ok e => some (key, e)
    | .error _ => none
  | _ => []

/-- A table of complaints as a value. -/
def tableToJson (t : Table NodeError) : Json := .obj (t.map fun (key, e) => (key, e.toJson))

/-- How deep the free values of a table of complaints are nested. -/
def tableDepth (t : Table NodeError) : Nat := (t.map fun e => e.2.depth).foldr max 0

/-- A table of complaints as a value, unless it is nested too deep to be written. -/
def writeTable (t : Table NodeError) : Except Fault Json :=
  Fault.shallowOnly (tableDepth t) (tableToJson t)

end NodeError

/-! ## Answers to submissions -/

/-- The answer to a submission. -/
structure QueueResponse where
  promptId : Option String := none
  number : Option Int := none
  nodeErrors : Table NodeError := []
  extra : Members := []
  deriving Inhabited

namespace QueueResponse

/-- Check an answer. -/
def check : Json → Checked QueueResponse :=
  Check.record "QueueResponse" fun ms => do
    let promptId ← Check.maybe ms "prompt_id" Check.text
    let number ← Check.maybe ms "number" Check.int
    let nodeErrors ← Check.optional ms "node_errors" [] (Check.table NodeError.check)
    pure ⟨promptId, number, nodeErrors, Check.others ["prompt_id", "number", "node_errors"] ms⟩

/-- Read an answer. -/
def read (v : Json) : Except Fault QueueResponse := Fault.ofIssues "QueueResponse" (check v)

/-- An answer as a value. -/
def toJson (r : QueueResponse) : Json :=
  .obj ([("prompt_id", optionalText r.promptId), ("number", Json.ofOption (r.number.map .int)),
    ("node_errors", NodeError.tableToJson r.nodeErrors)] ++ Json.portableMembers r.extra)

/-- An answer as a value, unless it is nested too deep to be written. -/
def write (r : QueueResponse) : Except Fault Json :=
  Fault.shallowOnly (max (NodeError.tableDepth r.nodeErrors) (Json.depthMembers r.extra)) r.toJson

end QueueResponse

/-! ## Runs -/

/-- A run that failed. -/
structure ExecutionError where
  promptId : Option String := none
  nodeId : Option String := none
  nodeType : Option String := none
  message : String := ""
  exceptionType : Option String := none
  lines : List String := []
  extra : Members := []
  deriving Inhabited

namespace ExecutionError

/-- The fields of a failed run. -/
def fields : List String :=
  ["prompt_id", "node_id", "node_type", "exception_message", "exception_type", "traceback"]

/-- Check a failed run. -/
def check : Json → Checked ExecutionError :=
  Check.record "ExecutionErrorDetail" fun ms => do
    let promptId ← Check.maybe ms "prompt_id" Check.text
    let nodeId ← Check.maybe ms "node_id" Check.text
    let nodeType ← Check.maybe ms "node_type" Check.text
    let message ← Check.optional ms "exception_message" "" Check.text
    let exceptionType ← Check.maybe ms "exception_type" Check.text
    let lines ← Check.optional ms "traceback" [] (Check.list Check.text)
    pure ⟨promptId, nodeId, nodeType, message, exceptionType, lines, Check.others fields ms⟩

/-- Read a failed run.  Anything but an object has none of its parts. -/
def read (v : Json) : Except Fault ExecutionError :=
  match v with
  | .obj _ => Fault.ofIssues "ExecutionErrorDetail" (check v)
  | v => .error (.noPart ("'" ++ v.typeName ++ "' object has no attribute 'traceback'"))

/-- A failed run as a value. -/
def toJson (e : ExecutionError) : Json :=
  .obj ([("prompt_id", optionalText e.promptId), ("node_id", optionalText e.nodeId),
    ("node_type", optionalText e.nodeType), ("exception_message", .str e.message),
    ("exception_type", optionalText e.exceptionType),
    ("traceback", .arr (e.lines.map .str))] ++ Json.portableMembers e.extra)

/-- How deep the free values of a failed run are nested. -/
def depth (e : ExecutionError) : Nat := Json.depthMembers e.extra

/-- A failed run as a value, unless it is nested too deep to be written. -/
def write (e : ExecutionError) : Except Fault Json := Fault.shallowOnly e.depth e.toJson

/-- The text shown for a failed run. -/
def display (e : ExecutionError) : String :=
  "Error occurred when executing " ++ (optionalText e.nodeType).display ++ ":\n\n" ++ e.message ++
    "\n\n" ++ String.join e.lines

end ExecutionError

/-- What was last reported about a failed run.  A report may be any value, readable or not. -/
inductive ExecutionReport where
  | known (e : ExecutionError)
  | other (v : Json)
  deriving Inhabited

namespace ExecutionReport

/-- The value of a report that can be read. -/
def write : ExecutionReport → Except Fault Json
  | known e => e.write
  | other v => .error (.noPart ("'" ++ v.typeName ++ "' object has no attribute 'model_dump'"))

/-- The failed run that a report is about. -/
def error : ExecutionReport → Checked ExecutionError
  | known e => pure e
  | other v => ExecutionError.check v

end ExecutionReport

/-- The outputs of a node. -/
structure Executed where
  node : NodeId
  output : Option Members := none
  merge : Bool := false
  deriving Inhabited

namespace Executed

/-- Check the outputs of a node. -/
def check : Json → Checked Executed :=
  Check.record "ExecutedDetail" fun ms => do
    let node ← Check.required ms "node" Check.eventNode
    let output ← Check.maybe ms "output" Check.object
    let merge ← Check.optional ms "merge" false Check.bool
    let _ ← Check.maybe ms "prompt_id" Check.text
    pure ⟨node, output, merge⟩

/-- Read the outputs of a node.  Anything but an object has none of its parts. -/
def read (v : Json) : Except Fault Executed :=
  match v with
  | .obj _ => Fault.ofIssues "ExecutedDetail" (check v)
  | v => .error (.noPart ("'" ++ v.typeName ++ "' object has no attribute 'node'"))

end Executed

end NodeFlow
