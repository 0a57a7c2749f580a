import NodeFlow.Graph.Save
import NodeFlow.Proofs.Load.Outline

/-!
# Free members

A document may hold members that are no fields, in itself, in its nodes and in their slots, and so
may the documents inside groups.  A graph keeps those of its nodes, whatever kind of node they are,
and no others.

Main results:

- Type `Spot` and definition `Document.freeAt`: where free members can stand, and those that stand
  there.
- Theorem `Registry.load_freeAt`: which free members are saved again after a load.
- Theorem `annotated_loses`: a document that loses the members of its slots and of itself.
-/

namespace NodeFlow

/-- Where a document can hold free members. -/
inductive Spot where
  | whole
  | node (i : Nat)
  | input (i j : Nat)
  | output (i j : Nat)
  | within (i : Nat) (spot : Spot)

/-- Whether the spot is a node, of the document or of one inside it. -/
def Spot.isNode : Spot → Bool
  | node _ => true
  | within _ spot => spot.isNode
  | _ => false

/-- The free members at a spot; none if there is no such spot. -/
def Document.freeAt : Spot → Document → Members
  | .whole, d => d.extra
  | .node i, d => ((d.nodes[i]?).map (·.extra)).getD []
  | .input i j, d => (((d.nodes[i]?).bind (·.inputs[j]?)).map (·.extra)).getD []
  | .output i j, d => (((d.nodes[i]?).bind (·.outputs[j]?)).map (·.extra)).getD []
  | .within i spot, d => (((d.nodes[i]?).bind (·.subgraph)).map (freeAt spot)).getD []

/-- The id of a saved node and the ids of those inside it. -/
def SavedNode.names (n : SavedNode Document) : NodeId × Option (List NodeId) :=
  (n.id, n.subgraph.map fun d => d.nodes.map (·.id))

namespace Graph

variable {γ : Type} {save : Node γ → SavedNode Document}

/-- Only nodes have free members in the document of a graph. -/
theorem freeAt_saveWith (hrecord : ∀ n, (save n).inputs = n.record.inputs ∧
      (save n).outputs = n.record.outputs)
    (hinner : ∀ n inner, (save n).subgraph = some inner →
      ∀ spot : Spot, spot.isNode = false → inner.freeAt spot = [])
    (g : Graph γ) {spot : Spot} (hspot : spot.isNode = false) :
    (g.saveWith save).freeAt spot = [] := by
  have hnodes : (g.saveWith save).nodes = g.nodes.map save := rfl
  cases spot with
  | whole => rfl
  | node i => cases hspot
  | input i j =>
    rw [Document.freeAt, hnodes, List.getElem?_map]
    cases g.nodes[i]? with
    | none => rfl
    | some n =>
      rw [Option.map_some, Option.bind_some, (hrecord n).1, Node.record, List.getElem?_map]
      cases n.inputs[j]? <;> rfl
  | output i j =>
    rw [Document.freeAt, hnodes, List.getElem?_map]
    cases g.nodes[i]? with
    | none => rfl
    | some n =>
      rw [Option.map_some, Option.bind_some, (hrecord n).2, Node.record, List.getElem?_mapIdx]
      cases n.outputs[j]? <;> rfl
  | within i spot =>
    rw [Document.freeAt, hnodes, List.getElem?_map]
    cases g.nodes[i]? with
    | none => rfl
    | some n =>
      rw [Option.map_some, Option.bind_some]
      cases hsub : (save n).subgraph with
      | none => rfl
      | some inner => exact hinner n inner hsub spot hspot

end Graph

private theorem Node.record_save (n : Node Group) : n.save.inputs = n.record.inputs ∧
    n.save.outputs = n.record.outputs := by
  cases hgroup : n.group? with
  | none => rw [Node.save_of_none hgroup]; exact ⟨rfl, rfl⟩
  | some x => rw [Node.save_of_group? hgroup]; exact ⟨rfl, rfl⟩

private theorem Subgraph.freeAt_save (g : Subgraph) {spot : Spot} (hspot : spot.isNode = false) :
    (Subgraph.save g).freeAt spot = [] :=
  Graph.freeAt_saveWith (fun _ => ⟨rfl, rfl⟩) (fun _ _ h => by cases h) g hspot

private theorem Workflow.freeAt_save (g : Workflow) {spot : Spot} (hspot : spot.isNode = false) :
    (Workflow.save g).freeAt spot = [] := by
  refine Graph.freeAt_saveWith Node.record_save ?_ g hspot
  intro n inner hinner spot hspot
  cases hgroup : n.group? with
  | none =>
    rw [Node.save_of_none hgroup] at hinner
    cases hinner
  | some x =>
    rw [Node.save_of_group? hgroup, Option.some.injEq] at hinner
    rw [← hinner]
    exact Subgraph.freeAt_save x.graph hspot

/-! ## Nodes -/

/-- The id and the free members of a saved node, and those of the nodes inside it. -/
def SavedNode.holding (n : SavedNode Document) :
    (NodeId × Members) × Option (List (NodeId × Members)) :=
  ((n.id, n.extra), n.subgraph.map fun d => d.nodes.map fun m => (m.id, m.extra))

private theorem Node.holding_save (n : Node Group) : n.save.holding =
    ((n.outline.1.id, n.outline.1.extra), n.outline.2.map (·.map fun l => (l.id, l.extra))) := by
  cases hgroup : n.group? with
  | none =>
    rw [Node.save_of_none hgroup, Node.outline, hgroup]
    rfl
  | some x =>
    rw [Node.save_of_group? hgroup, Node.outline, hgroup]
    simp only [SavedNode.holding, Subgraph.save, Graph.saveWith, Option.map_some, List.map_map]
    rfl

private theorem SavedNode.holding_normalize {r : Registry} (n : SavedNode Document) : n.holding =
    (((r.outlineOf (n.normalize r.knows)).1.id, (r.outlineOf (n.normalize r.knows)).1.extra),
      (r.outlineOf (n.normalize r.knows)).2.map (·.map fun l => (l.id, l.extra))) := by
  have hlabel : ∀ m : SavedNode Document, (r.labelOf (m.normalize r.knows)).id = m.id ∧
      (r.labelOf (m.normalize r.knows)).extra = m.extra := by
    intro m
    rcases m with ⟨m, _ | d⟩ <;> exact ⟨rfl, rfl⟩
  rw [Registry.outlineOf, (hlabel n).1, (hlabel n).2, SavedNode.holding, Document.subgraph_normalize]
  cases n.subgraph with
  | none => rfl
  | some d =>
    rw [Option.map_some, Option.map_some, Option.map_some, Option.map_some, Document.normalize_eq,
      List.map_map, List.map_map]
    refine Prod.ext rfl (congrArg some (List.map_congr_left fun m _ => ?_))
    exact (Prod.ext (hlabel m).1 (hlabel m).2).symm

namespace Document

/-- No node inside a node of the document is a group. -/
def Flat (d : Document) : Prop :=
  ∀ n ∈ d.nodes, ∀ inner, n.subgraph = some inner → ∀ m ∈ inner.nodes, m.subgraph = none

private theorem freeAt_within_within {d : Document} (hflat : d.Flat) (i j : Nat) (spot : Spot) :
    d.freeAt (.within i (.within j spot)) = [] := by
  rw [freeAt]
  cases hn : d.nodes[i]? with
  | none => rfl
  | some n =>
    rw [Option.bind_some]
    cases hinner : n.subgraph with
    | none => rfl
    | some inner =>
      rw [Option.map_some, Option.getD_some, freeAt]
      cases hm : inner.nodes[j]? with
      | none => rfl
      | some m =>
        rw [Option.bind_some, hflat n (List.mem_of_getElem? hn) inner hinner m
          (List.mem_of_getElem? hm)]
        rfl

private theorem freeAt_within_node (d : Document) (i j : Nat) : d.freeAt (.within i (.node j)) =
    ((((d.nodes.map SavedNode.holding)[i]?.bind (·.2)).bind (·[j]?)).map (·.2)).getD [] := by
  rw [freeAt, List.getElem?_map]
  cases d.nodes[i]? with
  | none => rfl
  | some n =>
    rw [Option.bind_some, Option.map_some, Option.bind_some, SavedNode.holding]
    cases n.subgraph with
    | none => rfl
    | some inner =>
      rw [Option.map_some, Option.map_some, Option.getD_some, Option.bind_some, List.getElem?_map,
        Option.map_map]
      rfl

private theorem freeAt_node (d : Document) (i : Nat) : d.freeAt (.node i) =
    (((d.nodes.map SavedNode.holding)[i]?).map (·.1.2)).getD [] := by
  rw [freeAt, List.getElem?_map, Option.map_map]
  rfl

/-- The free members of the nodes of a document, and of the nodes inside those, are all that stands
at spots that are nodes. -/
theorem freeAt_of_holding {d d' : Document} (hflat : d.Flat) (hflat' : d'.Flat)
    (h : d'.nodes.map SavedNode.holding = d.nodes.map SavedNode.holding) {spot : Spot}
    (hspot : spot.isNode = true) : d'.freeAt spot = d.freeAt spot := by
  cases spot with
  | whole => cases hspot
  | input i j => cases hspot
  | output i j => cases hspot
  | node i => rw [freeAt_node, freeAt_node, h]
  | within i spot =>
    cases spot with
    | whole => cases hspot
    | input j k => cases hspot
    | output j k => cases hspot
    | node j => rw [freeAt_within_node, freeAt_within_node, h]
    | within j spot => rw [freeAt_within_within hflat, freeAt_within_within hflat']

end Document

/-- Nothing that is saved has groups inside groups. -/
theorem Workflow.flat_save (g : Workflow) : (Workflow.save g).Flat := by
  intro saved hsaved inner hinner m hm
  rcases List.mem_map.1 hsaved with ⟨n, -, rfl⟩
  cases hgroup : n.group? with
  | none =>
    rw [Node.save_of_none hgroup] at hinner
    cases hinner
  | some x =>
    rw [Node.save_of_group? hgroup, Option.some.injEq] at hinner
    rw [← hinner] at hm
    rcases List.mem_map.1 hm with ⟨m', -, rfl⟩
    rfl

namespace Registry

variable {r : Registry} {source : LoadSource} {d : Document} {g : Workflow}
  {missing : List MissingType}

private theorem load_holding (hread : source.read = .ok d)
    (hload : r.load source = .ok (g, missing)) :
    (Workflow.save g).nodes.map SavedNode.holding = d.nodes.map SavedNode.holding := by
  have houtlines := congrArg (List.map fun o : Label × Option (List Label) =>
    ((o.1.id, o.1.extra), o.2.map (·.map fun l => (l.id, l.extra)))) (load_outlines hread hload).1
  rw [List.map_map, List.map_map] at houtlines
  have hsaved : (Workflow.save g).nodes = g.nodes.map Node.save := rfl
  rw [hsaved, List.map_map]
  refine (List.map_congr_left fun n _ => Node.holding_save n).trans (houtlines.trans ?_)
  exact List.map_congr_left fun n _ => n.holding_normalize.symm

/-- What a load and a save leave of the free members of a document: those of nodes, and of the nodes
inside them, each at the node of the same entry, and no others. -/
theorem load_freeAt (hread : source.read = .ok d) (hload : r.load source = .ok (g, missing)) :
    (Workflow.save g).nodes.map SavedNode.names = d.nodes.map SavedNode.names ∧
      ∀ spot : Spot,
        (Workflow.save g).freeAt spot = if spot.isNode then d.freeAt spot else [] := by
  have hholding := load_holding hread hload
  have hnames : ∀ n : SavedNode Document,
      n.names = (n.holding.1.1, n.holding.2.map (·.map (·.1))) := by
    intro n
    rw [SavedNode.names, SavedNode.holding, Option.map_map]
    refine Prod.ext rfl (congrArg (n.subgraph.map ·) (funext fun d => ?_))
    rw [Function.comp_apply, List.map_map]
    rfl
  constructor
  · have h := congrArg (List.map fun e => (e.1.1, e.2.map (·.map (·.1)))) hholding
    rw [List.map_map, List.map_map] at h
    rw [funext hnames]
    exact h
  · intro spot
    cases hspot : spot.isNode with
    | false => rw [if_neg Bool.false_ne_true, Workflow.freeAt_save g hspot]
    | true =>
      rw [if_pos rfl]
      exact Document.freeAt_of_holding (load_outlines hread hload).2.2 (Workflow.flat_save g)
        hholding hspot

end Registry

/-- A document with a free member at every kind of spot, and a group that holds the same once
more. -/
def annotated : Document :=
  let note : SavedNode Document :=
    { id := .number 1, type := "Note", extra := [("onNode", .int 1)]
      inputs := [{ name := "a", extra := [("onInput", .int 2)] }]
      outputs := [{ name := "b", extra := [("onOutput", .int 3)] }] }
  { nodes := [note, { id := .number 2, type := "Group", extra := [("onGroup", .int 4)]
                      subgraph := some { nodes := [note], extra := [("onInner", .int 5)] }
                      groupInputs := some [], groupOutputs := some [] }]
    extra := [("onDocument", .int 6)] }

/-- The members of the nodes come back, of the group as well as of the node inside it. -/
theorem annotated_keeps : ∃ g missing,
    ({} : Registry).load (.document annotated) = .ok (g, missing) ∧
      (Workflow.save g).freeAt (.node 0) = [("onNode", .int 1)] ∧
      (Workflow.save g).freeAt (.node 1) = [("onGroup", .int 4)] ∧
      (Workflow.save g).freeAt (.within 1 (.node 0)) = [("onNode", .int 1)] := by
  obtain ⟨g, missing, hload⟩ : ∃ g missing,
      ({} : Registry).load (.document annotated) = .ok (g, missing) := ⟨_, _, rfl⟩
  have hfree := (Registry.load_freeAt rfl hload).2
  exact ⟨g, missing, hload, hfree (.node 0), hfree (.node 1), hfree (.within 1 (.node 0))⟩

/-- The spots of that document that are no nodes and hold free members. -/
def annotated.spots : List Spot :=
  [.whole, .input 0 0, .output 0 0, .within 1 .whole, .within 1 (.input 0 0),
    .within 1 (.output 0 0)]

/-- A document that loads, and whose other free members are not in the document that is saved. -/
theorem annotated_loses : ∃ g missing,
    ({} : Registry).load (.document annotated) = .ok (g, missing) ∧
      annotated.spots.map (Document.freeAt · annotated) =
        [[("onDocument", .int 6)], [("onInput", .int 2)], [("onOutput", .int 3)],
          [("onInner", .int 5)], [("onInput", .int 2)], [("onOutput", .int 3)]] ∧
      annotated.spots.map (Document.freeAt · (Workflow.save g)) = [[], [], [], [], [], []] :=
  ⟨_, _, rfl, rfl, rfl⟩

end NodeFlow
