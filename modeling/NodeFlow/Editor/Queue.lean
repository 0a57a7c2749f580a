import NodeFlow.Editor.Submit

/-!
# The queue

Requests are worked on one after the other, in the order of their coming.  A request asks for a
number of units; each unit compiles the graph, hands the prompt to the backend and deals with the
answer, and a unit that fails ends its request alone.  A call that finds the queue at work leaves
its request there and returns; the call that started the work returns when no request is left.

Calls take turns.  A turn ends where the call waits for the compilation, the backend or the view,
and between two requests; other calls may have their turns there.

Main results:

- Types `Stage`, `QueueEvent` and `Desk`.
- Definition `Stage.turn`: one turn of a call.
- Definition `Desk.run`: turns of several calls, in any order.
- Definitions `Editor.enqueue` and `Editor.gather`: one call, and several made at once.
- Type `QueueState` and definition `Editor.queueState`.
-/

namespace NodeFlow

/-! ## What happens at the queue -/

/-- How a unit of a request ended. -/
inductive Fate where
  /-- The graph could not be compiled. -/
  | unsent
  /-- The backend was called, but it failed, or what follows its answer did. -/
  | failed
  /-- The backend accepted the prompt. -/
  | accepted
  deriving DecidableEq, Inhabited

/-- What happens at the queue. -/
inductive QueueEvent where
  /-- The request of a call joins those that wait. -/
  | joined (r : Request)
  /-- A request that the view makes joins them. -/
  | obliged (r : Request)
  /-- A call starts to work on the queue. -/
  | opened (c : Call)
  /-- A request is taken from those that wait. -/
  | taken (r : Request)
  /-- The backend is called, with the number of a request. -/
  | called (number : Int)
  /-- A unit is over. -/
  | settled (fate : Fate)
  /-- The work is over, which is announced with these values. -/
  | announced (number batch : Json)
  deriving Inhabited

/-! ## Turns -/

/-- What a call is doing.  Inside a request, its number and the units to come after the present
one are known. -/
inductive Stage where
  /-- The call has not begun. -/
  | entering
  /-- It is about to take the next request. -/
  | choosing
  /-- It waits for the graph to be compiled. -/
  | compiling (number : Int) (left : Nat) (rest : Editor → Course Editor Prompt)
  /-- It waits for the backend. -/
  | submitting (number : Int) (left : Nat) (p : Prompt) (rest : Editor → Course Editor QueueResponse)
  /-- It waits for the view, after the backend has or has not accepted the prompt. -/
  | showing (number : Int) (left : Nat) (isAccepted : Bool)
      (rest : Editor → Course Editor (Option Call))
  /-- It has returned, perhaps with a failure. -/
  | returned (failure : Option Fault)
  deriving Inhabited

/-- What a turn leads to. -/
structure Turn where
  stage : Stage
  editor : Editor
  events : List QueueEvent := []

namespace Turn

/-- The turn with events before its own. -/
def after (events : List QueueEvent) (t : Turn) : Turn := { t with events := events ++ t.events }

end Turn

/-- Whether a call lets others have their turns while it waits, or goes on at once. -/
inductive Pace where
  | yielding
  | hurried

/-- A course at a pace. -/
def Pace.course {α : Type} : Pace → Course Editor α → Course Editor α
  | yielding, c => c
  | hurried, c => c.hurried

/-- The failure of an outcome. -/
def failure? {α : Type} : Except Fault α → Option Fault
  | .ok _ => none
  | .error f => some f

namespace Editor

/-- A request joins those that wait. -/
def join (r : Request) (e : Editor) : Editor := { e with pending := e.pending ++ [r] }

/-- A call begins: a sound request joins the queue, and if nobody works on the queue, the call
does. -/
def enter (c : Call) (e : Editor) : Turn :=
  match Request.read c.number c.batch with
  | .error f => ⟨.returned (some f), e, []⟩
  | .ok r =>
    let e := e.join r
    if e.draining then ⟨.returned none, e, [.joined r]⟩
    else ⟨.choosing, { e with draining := true, nodeErrors := none }, [.joined r, .opened c]⟩

/-- A unit is over; the next one follows if the prompt was accepted and nothing failed since. -/
def close (next : Editor → Turn) (isFine : Bool) (e : Editor) : Turn :=
  if isFine then (next e).after [.settled .accepted] else ⟨.choosing, e, [.settled .failed]⟩

/-- The view makes a call while it is brought up to date.  The call finds the queue at work and
leaves its request there. -/
def oblige (c : Call) (next : Editor → Turn) (isFine : Bool) (e : Editor) : Turn :=
  match Request.read c.number c.batch with
  | .error _ => close next false e
  | .ok r =>
    let e := e.join r
    let (outcome, e) := (display (.enqueued e.pending.length)).exec e
    (close next (isFine && (failure? outcome).isNone) e).after [.obliged r]

/-- The view has been brought up to date, or waits. -/
def shown (number : Int) (left : Nat) (next : Editor → Turn) (isAccepted : Bool) :
    Course Editor (Option Call) → Turn
  | .waiting e rest => ⟨.showing number left isAccepted rest, e, []⟩
  | .ended (.error _) e => close next false e
  | .ended (.ok none) e => close next isAccepted e
  | .ended (.ok (some c)) e => oblige c next isAccepted e

/-- The backend has answered, or is waited for. -/
def answered (pace : Pace) (number : Int) (left : Nat) (next : Editor → Turn) (p : Prompt) :
    Course Editor QueueResponse → Turn
  | .waiting e rest => ⟨.submitting number left p rest, e, []⟩
  | .ended answer e =>
    shown number left next (failure? answer).isNone (pace.course (conclude p answer e))

/-- The graph has been compiled, or its compilation waits.  A graph that cannot be compiled ends
the request, whether or not that can be shown. -/
def compiled (pace : Pace) (number : Int) (left : Nat) (next : Editor → Turn) :
    Course Editor Prompt → Turn
  | .waiting e rest => ⟨.compiling number left rest, e, []⟩
  | .ended (.error f) e => ⟨.choosing, ((showFailure f).exec e).2, [.settled .unsent]⟩
  | .ended (.ok p) e =>
    (answered pace number left next p (pace.course (submitTo number p e))).after [.called number]

/-- So many units of a request, until one fails. -/
def units (pace : Pace) (number : Int) : Nat → Editor → Turn
  | 0, e => ⟨.choosing, e, []⟩
  | left + 1, e => compiled pace number left (units pace number left) (pace.course (compile e))

/-- The next request is taken; if there is none, the work is over. -/
def choose (pace : Pace) (c : Call) (e : Editor) : Turn :=
  match e.pending with
  | [] =>
    let (outcome, e) := (display (.promptQueued c.number c.batch)).exec { e with draining := false }
    ⟨.returned (failure? outcome), e, [.announced c.number c.batch]⟩
  | r :: rest => (units pace r.number r.batch.toNat { e with pending := rest }).after [.taken r]

end Editor

/-- One turn of a call. -/
def Stage.turn (pace : Pace) (c : Call) : Stage → Editor → Turn
  | entering, e => e.enter c
  | choosing, e => e.choose pace c
  | compiling number left rest, e =>
    Editor.compiled pace number left (Editor.units pace number left) (pace.course (rest e))
  | submitting number left p rest, e =>
    Editor.answered pace number left (Editor.units pace number left) p (pace.course (rest e))
  | showing number left isAccepted rest, e =>
    Editor.shown number left (Editor.units pace number left) isAccepted (pace.course (rest e))
  | returned failure, e => ⟨.returned failure, e, []⟩

/-! ## Calls at a desk -/

/-- An editor, the calls that ask it for submissions, and what happened at its queue since the
first of them. -/
structure Desk where
  editor : Editor
  calls : List (Call × Stage)
  events : List QueueEvent := []
  deriving Inhabited

namespace Desk

/-- A desk before any of the calls has begun. -/
def opening (e : Editor) (calls : List Call) : Desk := ⟨e, calls.map fun c => (c, .entering), []⟩

/-- The call at a position has a turn. -/
def turn (pace : Pace) (d : Desk) (i : Nat) : Desk :=
  match d.calls[i]? with
  | none => d
  | some (c, stage) =>
    let t := stage.turn pace c d.editor
    ⟨t.editor, d.calls.set i (c, t.stage), d.events ++ t.events⟩

/-- The calls have turns in the given order, each at its pace. -/
def run (d : Desk) (schedule : List (Pace × Nat)) : Desk :=
  schedule.foldl (fun d t => d.turn t.1 t.2) d

/-- Whether the call at a position is about to take the next request. -/
def isChoosing (d : Desk) (i : Nat) : Bool :=
  match d.calls[i]? with
  | some (_, .choosing) => true
  | _ => false

/-- The call at a position has turns until it waits or has returned, but at most so many. -/
def attend (pace : Pace) (i : Nat) : Nat → Desk → Desk
  | 0, d => d
  | turns + 1, d =>
    let d := d.turn pace i
    if d.isChoosing i then attend pace i turns d else d

/-- A bound on the turns of a call that goes on at once: it begins, takes its own request, the
requests that wait and those that the view asks for, and returns. -/
def workload (d : Desk) : Nat := d.editor.pending.length + d.editor.view.actions.length + 3

/-- All calls have turns at a pace, one after the other. -/
def attendAll (pace : Pace) (d : Desk) : Desk :=
  (List.range d.calls.length).foldl (fun d i => d.attend pace i d.workload) d

/-- All calls begin in order; those that wait go on when all have begun. -/
def gather (d : Desk) : Desk := (d.attendAll .yielding).attendAll .hurried

/-- The failures of the calls. -/
def failures (d : Desk) : List (Option Fault) :=
  d.calls.map fun call =>
    match call.2 with
    | .returned failure => failure
    | _ => none

end Desk

namespace Editor

/-- Make several calls at once.  The failure of each call, if it failed. -/
def gather (calls : List Call) : EditorAct (List (Option Fault)) :=
  Act.ofExec fun e =>
    let d := (Desk.opening e calls).gather
    (.ok d.failures, d.editor)

/-- Ask for a submission. -/
def enqueue (c : Call) : EditorAct PUnit := do
  match ← gather [c] with
  | [some f] => throw f
  | _ => pure ⟨⟩

end Editor

/-! ## The state of the queue -/

/-- What is shown of the queue. -/
structure QueueState where
  isDraining : Bool
  pending : List Request
  nodeErrors : Option (Table NodeError)
  executionError : Option ExecutionError

namespace QueueState

/-- The state of a queue as a value. -/
def members (q : QueueState) : Members :=
  [("status", .str (if q.isDraining then "draining" else "idle")),
    ("pending", .arr (q.pending.map Request.toJson)),
    ("last_node_errors", Json.ofOption (q.nodeErrors.map NodeError.tableToJson)),
    ("last_execution_error", Json.ofOption (q.executionError.map ExecutionError.toJson))]

/-- How deep the free values in the state of a queue are nested. -/
def depth (q : QueueState) : Nat :=
  max ((q.nodeErrors.map NodeError.tableDepth).getD 0)
    ((q.executionError.map ExecutionError.depth).getD 0)

/-- The state of a queue, unless it is nested too deep to be written. -/
def write (q : QueueState) : Except Fault Members :=
  if q.depth ≤ Json.maxNesting then .ok q.members else .error Fault.tooDeep

end QueueState

namespace Editor

/-- The last failed run, if there is one.  A report that cannot be read cannot be shown. -/
def lastFailedRun (e : Editor) : Checked (Option ExecutionError) :=
  match e.executionError with
  | none => pure none
  | some report => do
    let x ← (report.error).under (.field "last_execution_error")
    pure (some x)

/-- The state of the queue. -/
def queueState (e : Editor) : Except Fault QueueState :=
  Fault.ofIssues "QueueState" do
    let x ← e.lastFailedRun
    pure ⟨e.draining, e.pending, e.nodeErrors, x⟩

end Editor

end NodeFlow
