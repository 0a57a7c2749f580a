import NodeFlow.Graph.Edit
import NodeFlow.Load.Missing
import NodeFlow.Registry

/-!
# Rebuilding a graph from a prompt

A prompt holds enough to rebuild a graph: the class of every node, its literal inputs, and its
references.  Nothing is built if a class is unknown.

Main results:

- Definition `isPrompt`: which values count as prompts.
- Definition `Registry.rebuild`: the graph of a prompt, or the report of missing types.
-/

namespace NodeFlow

/-- Whether a value is a prompt: a nonempty object whose members all name a class. -/
def isPrompt : Json → Bool
  | .obj ms => !ms.isEmpty && ms.all fun m => ((m.2.get? "class_type").getD .null).truthy
  | _ => false

/-- The node id that a key of a prompt stands for. -/
def keyId (key : String) : Except Fault NodeId := do
  match ← Graph.otherSpelling? (.str key) with
  | some id => pure id
  | none => pure (.name key)

namespace Rebuild

/-- The class named by a step. -/
def classOf : Json → Except Fault Json
  | .obj ms =>
    match Table.get? ms "class_type" with
    | some v => .ok v
    | none => .error (.noEntry "class_type")
  | v => .error (.mistyped ("'" ++ v.typeName ++ "' object is not subscriptable"))

/-- The class of a step if it is not registered. -/
def missingClass? (r : Registry) (step : Json) : Except Fault (Option MissingType) := do
  match ← classOf step with
  | .str type => pure (if r.knows type then none else some ⟨type, sanitize type, .null⟩)
  | .arr xs => throw (Fault.unhashable (.arr xs))
  | .obj ms => throw (Fault.unhashable (.obj ms))
  | v => pure (some ⟨v.display, sanitize v.display, .null⟩)

/-- The unregistered classes of steps, in order. -/
def missingClasses (r : Registry) : List Json → Except Fault (List MissingType)
  | [] => .ok []
  | step :: steps => do
    let found ← missingClass? r step
    let rest ← missingClasses r steps
    pure (found.toList ++ rest)

/-- Add the node of a step. -/
def addStep (r : Registry) (step : String × Json) : Act Workflow PUnit := do
  let type ← Act.lift (classOf step.2)
  let id ← Act.lift (keyId step.1)
  let n ← Act.lift (r.create {} type.display)
  let _ ← Graph.add (some id) n
  pure ⟨⟩

/-- Connect an input to the output that a pair names.  A pair that names no output of the graph
is passed over. -/
def connectInput (id : NodeId) (name : String) (origin originSlot : Json) :
    Act Workflow PUnit := do
  let g ← get
  match ← Act.lift (g.lookup? origin), (g.at? id).bind (·.inputPosition? name),
      Whole.ofJson? originSlot with
  | some o, some i, some slot =>
    if 0 ≤ slot.val && slot.val < o.outputs.length then do
      let _ ← Workflow.connect (.outer o.id) slot (.outer id) (.number i)
      pure ⟨⟩
    else pure ⟨⟩
  | _, _, _ => pure ⟨⟩

/-- Give a node one input of its step: a pair is a reference, all else a widget value. -/
def addInput (id : NodeId) (input : String × Json) : Act Workflow PUnit :=
  match input.2 with
  | .arr [origin, originSlot] => connectInput id input.1 origin originSlot
  | v => modify fun g => g.modifyNode id fun n =>
    match Widget.position? n.widgets input.1 with
    | some i => { n with widgets := n.widgets.modify i (·.withValue v) }
    | none => n

/-- The inputs of a step; nothing where they are absent or count as false. -/
def inputsOf (step : Json) : Except Fault Members :=
  match (step.get? "inputs").getD .null with
  | .obj ms => .ok ms
  | v =>
    if v.truthy then
      .error (.noPart ("'" ++ v.typeName ++ "' object has no attribute 'items'"))
    else .ok []

/-- Give the node of a step its inputs. -/
def addInputs (step : String × Json) : Act Workflow PUnit := do
  let key ← Act.lift (keyId step.1)
  match ← Act.lift ((← get).find? key) with
  | none => pure ⟨⟩
  | some n => do
    let inputs ← Act.lift (inputsOf step.2)
    Act.each inputs (addInput n.id)

end Rebuild

/-- The graph of a prompt, or the report of its unknown classes. -/
def Registry.rebuild (r : Registry) (prompt : Json) :
    Except Fault (Option Workflow × List MissingType) :=
  match prompt with
  | .obj steps => do
    match ← Rebuild.missingClasses r (steps.map (·.2)) with
    | [] =>
      let build : Act Workflow PUnit := do
        Act.each steps (Rebuild.addStep r)
        Act.each steps Rebuild.addInputs
      match build.exec {} with
      | (.ok _, g) => pure (some g, [])
      | (.error f, _) => throw f
    | missing => pure (none, missing)
  | v => .error (.noPart ("'" ++ v.typeName ++ "' object has no attribute 'values'"))

end NodeFlow
