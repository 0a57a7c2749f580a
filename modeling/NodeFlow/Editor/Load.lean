import NodeFlow.Editor.Basic
import NodeFlow.Load.Normal
import NodeFlow.Load.Rebuild

/-!
# Loading into the editor

A loaded document replaces the graph.  Extensions see the document before it becomes a graph, then
every node, then the report of missing types.  A document that cannot be applied leaves the graph
alone and is reported in a dialog.

Main results:

- Type `Loaded`; definitions `Editor.load` and `Editor.loadPrompt`.
- Definition `Editor.clean`: dropping what the last runs left.
- Definition `loadReport`: the text of the dialog about a document that cannot be applied.
-/

namespace NodeFlow

/-- What came of a load: the number of nodes, if there is a graph, and the missing types. -/
structure Loaded where
  nodes : Option Nat
  missing : List MissingType
  deriving Inhabited

/-- The text of the dialog about a document that cannot be applied. -/
def loadReport (f : Fault) : String :=
  let places := match f with
    | .configuration _ location source =>
      (location.filter (· ≠ "")).toList.map ("Location: " ++ ·) ++
        (source.filter (· ≠ "")).toList.map ("This may be due to the following script: " ++ ·)
    | _ => []
  "\n".intercalate
    (["Loading aborted due to error reloading workflow data", "", f.detail] ++ places)

namespace Editor

/-- Drop what the last runs left. -/
def clean : EditorAct PUnit :=
  modify fun e => { e with outputs := [], nodeErrors := none, executionError := none, running := none }

/-! ## Stages of a load -/

/-- Let extensions change a document and report missing types. -/
def offerDocument (d : Document) : EditorAct (Document × List MissingEntry) := do
  match ← broadcast "before_configure_graph" [.document d, .missing []] with
  | (_, [.document d, .missing missing]) => pure (d, missing)
  | _ => pure (d, [])

/-- Let extensions change the node at a place of a graph. -/
def offerNode (g : Workflow) (place : Place) : EditorAct Workflow := do
  let some s := Workflow.siteAt? g place | pure g
  match ← announce "loaded_graph_node" [.node place.node s.title s.widgets] with
  | (_, [.node _ title widgets]) =>
    pure (Workflow.modifyAt place (fun n => { n with title, widgets })
      (fun n => { n with title, widgets }) g)
  | _ => pure g

/-- Replace outdated values and let extensions change nodes, one after the other. -/
def settleNodes (reset : Bool) (g : Workflow) : List Place → EditorAct Workflow
  | [] => pure g
  | place :: places => do
    let g ← offerNode (Workflow.patchAt reset g place) place
    settleNodes reset g places

/-- The graph of a source and its missing types. -/
def assemble (source : LoadSource) : EditorAct (Workflow × List MissingType) := do
  let d ← Act.lift source.read
  let (d, reported) ← offerDocument d
  let registry := (← get).registry
  let (d, unknown) := d.normalize registry.knows
  let g ← Act.lift (registry.assemble d)
  let g ← settleNodes source.resets g ((Workflow.sites g).map (·.place))
  let missing := (reported ++ unknown).map MissingType.ofEntry
  let _ ← broadcast "after_configure_graph" [.missing (missing.map .known)]
  pure (g, missing)

/-! ## Loads -/

/-- Show the missing types, if there are any. -/
def showMissing (missing : List MissingType) (nodesAdded : Bool) : EditorAct PUnit :=
  if missing.isEmpty then pure ⟨⟩ else showDialog (MissingType.listing missing nodesAdded)

/-- Replace the graph. -/
def replaceGraph (g : Workflow) : EditorAct PUnit := modify fun e => { e with graph := g }

/-- Load a source.  Nothing comes of it if the document cannot be applied. -/
def load (source : LoadSource) (isClean : Bool) : EditorAct (Option Loaded) := do
  if isClean then clean else pure ⟨⟩
  match ← Act.attempt (assemble source) with
  | .ok (g, missing) => do
    modify fun e => { e with loadError := none }
    replaceGraph g
    showMissing missing true
    redraw
    pure (some ⟨some g.nodes.length, missing⟩)
  | .error (.configuration detail location source) => do
    let f := Fault.configuration detail location source
    modify fun e => { e with loadError := some f }
    showDialog (loadReport f)
    pure none
  | .error f => throw f

/-- Rebuild the graph from a prompt.  Unknown classes are shown, and the graph stays. -/
def loadPrompt (prompt : Json) : EditorAct Loaded := do
  match ← Act.lift ((← get).registry.rebuild prompt) with
  | (some g, missing) => do
    replaceGraph g
    redraw
    pure ⟨some g.nodes.length, missing⟩
  | (none, missing) => do
    showDialog (MissingType.listing missing false)
    pure ⟨none, missing⟩

end Editor

end NodeFlow
