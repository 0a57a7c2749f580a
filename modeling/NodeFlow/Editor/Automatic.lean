import NodeFlow.Editor.Queue
import NodeFlow.Json.Arithmetic

/-!
# Automatic submission

The graph is submitted again when the backend's queue runs empty: always, or only after the graph
has changed.  A report is dealt with in two halves, one before and one after the submission that it
may start.

Main results:

- Type `AutoQueue`; definitions `AutoQueue.onStatus` and `AutoQueue.onChange`.
- Theorem `AutoQueue.isDue_of_not_enabled`: switched off, it submits nothing.
-/

namespace NodeFlow

/-- When the graph is submitted again. -/
inductive AutoMode where
  | instant
  | change
  deriving DecidableEq, Inhabited

/-- The mode that a value names. -/
def AutoMode.read : Json → Except Fault AutoMode
  | .str "instant" => .ok .instant
  | .str "change" => .ok .change
  | v => .error (.badValue ("Unknown auto queue mode '" ++ v.display ++ "'"))

/-- The state of automatic submission: what it was set to, the length of the backend's queue as
last reported, and whether a change of the graph waits to be submitted. -/
structure AutoQueue where
  mode : AutoMode := .instant
  enabled : Bool := false
  batch : Json := .int 1
  last : Json := .int 0
  changed : Bool := false
  deriving Inhabited

/-- An action of automatic submission in an editor. -/
abbrev AutoAct (α : Type) := Act (AutoQueue × Editor) α

namespace AutoQueue

/-! ## Status reports -/

/-- The fault of a report with a part that is no object. -/
def noParts (v : Json) : Fault :=
  .noPart ("'" ++ v.typeName ++ "' object has no attribute 'get'")

/-- The members of a value; a value that counts as false has none. -/
def partsOf (v : Json) : Except Fault Members :=
  match v with
  | .obj ms => .ok ms
  | v => if v.truthy then .error (noParts v) else .ok []

/-- The length of the queue in a status report; none if the report does not say. -/
def remaining? (status : Json) : Except Fault (Option Json) := do
  let report ← partsOf status
  let info ← partsOf ((report.get? "exec_info").getD .null)
  let length := (info.get? "queue_remaining").getD .null
  pure (if length.whole?.isSome then some length else none)

/-- Whether a report starts a submission: the queue was not empty before and is now. -/
def isDue (a : AutoQueue) (length : Json) (failed : Bool) : Bool :=
  !a.last.same (.int 0) && length.same (.int 0) && a.enabled &&
    (a.mode == .instant || a.changed) && !failed

/-- What a report leads to: a submission or not, and the length of the queue after it. -/
structure Plan where
  submits : Bool
  length : Json

/-- The first half of dealing with a report.  A change of the graph counts as submitted from here
on. -/
def beginStatus (status : Json) (failed : Bool) : Act AutoQueue (Option Plan) := do
  match ← Act.lift (remaining? status) with
  | none => pure none
  | some length =>
    let a ← get
    if a.isDue length failed then do
      set { a with changed := false }
      let length ← Act.lift (length.plus a.batch)
      pure (some ⟨true, length⟩)
    else pure (some ⟨false, length⟩)

/-- The second half: the length of the queue is remembered. -/
def finishStatus (p : Plan) : Act AutoQueue PUnit := modify fun a => { a with last := p.length }

/-- Act on the state of automatic submission alone. -/
def own {α : Type} (act : Act AutoQueue α) : AutoAct α :=
  act.focus (·.1) fun a s => (a, s.2)

/-- Submit the graph. -/
def submit : AutoAct PUnit := do
  let c : Call := { batch := (← get).1.batch }
  (Editor.enqueue c).focus (·.2) fun e s => (s.1, e)

/-- Deal with a report; whether the graph was submitted. -/
def onStatus (status : Json) : AutoAct Bool := do
  let failed := (← get).2.executionError.isSome
  match ← own (beginStatus status failed) with
  | none => pure false
  | some p => do
    if p.submits then submit else pure ⟨⟩
    own (finishStatus p)
    pure p.submits

/-! ## Changes of the graph -/

/-- Note a change of the graph; whether it is to be submitted at once. -/
def noteChange : Act AutoQueue Bool := do
  let a ← get
  if a.mode == .change && a.enabled then do
    let isIdle := a.last.same (.int 0)
    set { a with changed := !isIdle }
    pure isIdle
  else pure false

/-- Deal with a change of the graph; whether the graph was submitted. -/
def onChange : AutoAct Bool := do
  let submits ← own noteChange
  if submits then submit else pure ⟨⟩
  pure submits

/-- Automatic submission that is switched off submits nothing. -/
theorem isDue_of_not_enabled {a : AutoQueue} (h : a.enabled = false) (length : Json)
    (failed : Bool) : a.isDue length failed = false := by
  simp [isDue, h]

end AutoQueue

end NodeFlow
