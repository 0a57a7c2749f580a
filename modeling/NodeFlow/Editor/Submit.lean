import NodeFlow.Editor.Compile
import NodeFlow.Editor.Definitions

/-!
# Submitting a prompt

A compiled graph is handed to the backend.  Whatever the backend answers, the hooks that come after
a submission run and the view of the queue is brought up to date.

Main results:

- Definition `Editor.submitTo`: a prompt in the hands of the backend.
- Definition `Editor.conclude`: what follows the answer.
-/

namespace NodeFlow

namespace Editor

/-! ## The backend -/

/-- Remove the node that a value names, if it is there. -/
def removeNamed (v : Json) : Act Workflow PUnit := do
  match ← Act.lift ((← get).lookup? v) with
  | some n => Workflow.remove (.outer n.id)
  | none => pure ⟨⟩

/-- What a reply does to the graph before it answers. -/
def disturb (reply : BackendReply) : EditorAct PUnit := do
  match reply.removes with
  | some v => edit (removeNamed v)
  | none => pure ⟨⟩
  match reply.loads with
  | some v => do
    let _ ← load (LoadSource.ofJson v) true
  | none => pure ⟨⟩

/-- The answer of a reply to the submission of the given count. -/
def answerOf (count : Nat) : Verdict → Except Fault QueueResponse
  | .accept => .ok { promptId := some ("p" ++ toString count), number := some count }
  | .answer v => QueueResponse.read v
  | .reject message response status => .error (.rejected message response status)
  | .raise r => .error (.raised r)

/-- Submit a prompt to a backend that follows a list of replies. -/
def submitReplying (r : ReplyList) (number : Int) (p : Prompt) : EditorAct QueueResponse := do
  let count := r.count + 1
  modify fun e => { e with backend := .replying { r with count } }
  outward (note (.submitted count number p.output))
  Act.waitFor r.ticks
  let reply := ((r.replies[count - 1]?).bind id).getD {}
  disturb reply
  Act.lift (answerOf count reply.verdict)

/-- Submit a prompt. -/
def submitTo (number : Int) (p : Prompt) : EditorAct QueueResponse := do
  match (← get).backend with
  | .replying r => submitReplying r number p
  | .wire c => onWire c (WireClient.submit number p)

/-! ## After a submission -/

/-- Run the hooks that come after a submission at a place.  A hook that fails is skipped. -/
def runAfter (place : Place) : EditorAct PUnit := do
  let ws := (← get).widgetsAt place
  Act.each (List.range ws.length) fun i =>
    match (ws[i]?).bind (·.afterQueued) with
    | some h => do
      let _ ← Act.attempt (onPlace place (h.run "after_queued" i))
    | none => pure ⟨⟩

/-- Run the hooks that come after a submission on a node of the graph and what is inside it. -/
def settleNode (id : NodeId) : EditorAct PUnit := do
  match ← Act.lift ((← get).graph.find? id) with
  | none => pure ⟨⟩
  | some n => do
    let sites ← Act.lift (hookSites n)
    Act.each sites fun s => runAfter s.place

/-- Run the hooks that come after the submission of a prompt, in the order of its document. -/
def settle (p : Prompt) : EditorAct PUnit := Act.each (p.workflow.nodes.map (·.id)) settleNode

/-- Bring the view of the queue up to date; the call for another submission that the view makes
then, if it makes one. -/
def showQueue : EditorAct (Option Call) := do
  Act.waitFor (← get).view.ticks
  let view := (← get).view
  if view.silent then pure none
  else do
    let count := view.shown + 1
    modify fun e => { e with view := { e.view with shown := count } }
    display (.queueShown count)
    match view.actions.lookup count with
    | none => pure none
    | some (.raise r) => throw (.raised r)
    | some (.enqueue c) => pure (some c)

/-! ## Answers -/

/-- Show a failure. -/
def showFailure (f : Fault) : EditorAct PUnit := do
  let text ← Act.lift f.shown
  showDialog text

/-- Keep the complaints about nodes, if the backend has said anything. -/
def keepComplaints : Fault → EditorAct PUnit
  | .rejected _ response _ =>
    if response.truthy then do
      modify fun e => { e with nodeErrors := some (Fault.complaints response) }
      redraw
    else pure ⟨⟩
  | _ => pure ⟨⟩

/-- Keep what the backend says about nodes of an accepted prompt. -/
def keepAnswer (answer : QueueResponse) : EditorAct PUnit :=
  if answer.nodeErrors.isEmpty then modify fun e => { e with nodeErrors := none }
  else do
    modify fun e => { e with nodeErrors := some answer.nodeErrors }
    redraw

/-- Deal with the answer of the backend: keep what it says, run the hooks that come after a
submission, and bring the view up to date. -/
def conclude (p : Prompt) (answer : Except Fault QueueResponse) : EditorAct (Option Call) := do
  match answer with
  | .ok answer => keepAnswer answer
  | .error f => do
    showFailure f
    keepComplaints f
  settle p
  redraw
  showQueue

end Editor

end NodeFlow
