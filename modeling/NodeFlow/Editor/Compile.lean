import NodeFlow.Editor.Basic
import NodeFlow.Graph.Save
import NodeFlow.Resolve

/-!
# Compilation

A graph is compiled in four stages: its nodes are ordered, the hooks that run before a submission
and the primitives do their work, the graph is saved, and the steps are built and pruned.  Inputs
that refer to no step are dropped.

Main results:

- Definition `Site.step`: the step of a node, given the values its widgets send.
- Definition `Editor.prepare`: the state that is compiled.
- Definition `Editor.compile`: the prompt of the current graph.
-/

namespace NodeFlow

namespace Site

/-- The sites that the compiler walks through for a node: the node itself if it is skipped or no
group, else what is inside it. -/
def expand (s : Site) : Except Fault (List Site) :=
  match s with
  | .inner .. => .ok [s]
  | .outer n =>
    if n.isSkipped then .ok [s]
    else do
      pure ((← Workflow.innerSites? n).getD [s])

/-- Whether a site becomes a step. -/
def isEmitted (s : Site) : Bool := !s.isVirtual && !s.isSkipped

/-- The reference to a resolved producer.  A virtual one carries no value of its own. -/
def referenceOf : Option Resolved → Option Reference
  | none => none
  | some r => if r.site.isVirtual then none else some ⟨r.site.id.key, r.slot.val⟩

/-- The references of inputs, written over what is there under their names. -/
def linkInputs (g : Workflow) (maxHops : Int) (s : Site) :
    Nat → List InputSlot → Members → Except Fault Members
  | _, [], inputs => .ok inputs
  | i, slot :: slots, inputs => do
    match referenceOf (← s.resolve g maxHops i) with
    | some r => linkInputs g maxHops s (i + 1) slots (inputs.set slot.name r.toJson)
    | none => linkInputs g maxHops s (i + 1) slots inputs

/-- The step of a site, given the values that its widgets send. -/
def step (g : Workflow) (maxHops : Int) (titled : Bool) (s : Site) (sent : Members) :
    Except Fault Step := do
  let inputs ← linkInputs g maxHops s 0 s.inputs sent
  pure { className := s.type, inputs, meta? := if titled then some ⟨s.title⟩ else none }

end Site

namespace Editor

/-- The values that widgets send, the first of them at the given position. -/
def sentValues (node : NodeId) : Nat → List Widget → Members → EditorAct Members
  | _, [], sent => pure sent
  | i, w :: ws, sent =>
    if w.isSent then do
      Act.waitFor w.sendTicks
      let v ← outward (w.sentValue node i)
      sentValues node (i + 1) ws (sent.set w.name v)
    else sentValues node (i + 1) ws sent

/-- The steps of sites, added to those already built. -/
def buildSteps (g : Workflow) (maxHops : Int) (titled : Bool) :
    List Site → Output → EditorAct Output
  | [], output => pure output
  | s :: rest, output =>
    if s.isEmitted then do
      let sent ← sentValues s.id 0 s.widgets []
      let step ← Act.lift (s.step g maxHops titled sent)
      buildSteps g maxHops titled rest (output.set s.id.key step)
    else buildSteps g maxHops titled rest output

/-- The steps of nodes, each expanded when its turn comes. -/
def expandSteps (g : Workflow) (maxHops : Int) (titled : Bool) :
    List Site → Output → EditorAct Output
  | [], output => pure output
  | s :: rest, output => do
    let sites ← Act.lift s.expand
    let output ← buildSteps g maxHops titled sites output
    expandSteps g maxHops titled rest output

/-- The output of nodes, without references that lead nowhere. -/
def compileSites (g : Workflow) (maxHops : Int) (titled : Bool) (sites : List Site) :
    EditorAct Output := do
  let output ← expandSteps g maxHops titled sites []
  pure output.prune

/-! ## Preparation -/

/-- The sites whose hooks run with a node: the node, then what is inside it. -/
def hookSites (n : Node Group) : Except Fault (List Site) := do
  pure (.outer n :: (← Workflow.innerSites? n).getD [])

/-- Run the hooks that come before a submission, widget by widget. -/
def runBefore (place : Place) : EditorAct PUnit := do
  let ws := (← get).widgetsAt place
  Act.each (List.range ws.length) fun i =>
    match (ws[i]?).bind (·.beforeQueued) with
    | some h => onPlace place (h.run "before_queued" i)
    | none => pure ⟨⟩

/-- Let a node do its work before a compilation. -/
def prepareNode (id : NodeId) : EditorAct PUnit := do
  match (← get).graph.at? id with
  | none => pure ⟨⟩
  | some n => do
    let sites ← Act.lift (hookSites n)
    Act.each sites fun s => runBefore s.place
    let inner ← Act.lift (Workflow.innerSites? n)
    Act.each ((inner.getD [.outer n]).filter (·.isVirtual)) fun s => pushAt s.place

/-- Let nodes do their work before a compilation, in the given order. -/
def prepare (order : List NodeId) : EditorAct PUnit := Act.each order prepareNode

/-- The prompt of the current graph. -/
def compile : EditorAct Prompt := do
  let order ← Act.lift (← get).graph.plan
  prepare order
  let e ← get
  let workflow := Workflow.save e.graph
  let nodes := (order.filterMap e.graph.at?).map Site.outer
  let output ← compileSites e.graph e.settings.maxHops e.settings.devMode nodes
  pure ⟨workflow, output⟩

end Editor

end NodeFlow
