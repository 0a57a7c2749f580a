import NodeFlow.Graph.Site

/-!
# Editing

Adding and removing nodes, and connecting and disconnecting their slots.  The ends of a link may
stand anywhere, also inside groups; the links themselves are those of the workflow.  An edit that
fails may leave the part of its work that came before the failure.

Main results:

- Definitions `Graph.add`, `Workflow.disconnect`, `Workflow.connect` and `Workflow.remove`.
-/

namespace NodeFlow

namespace Graph

variable {γ : Type}

/-- The highest number of a node once an id has been asked for. -/
def counterFor (g : Graph γ) : NodeId → Int
  | .number k => max g.lastNodeId k
  | .name _ => g.lastNodeId

/-- The node as it stands in the graph that it is added to: without order attribute it comes last. -/
def placed (g : Graph γ) (id : NodeId) (n : Node γ) : Node γ :=
  { n with id := id, order := if n.order = 0 then (g.nodes.length : Int) else n.order }

/-- The node that stands in the way of another one under an id, in either spelling.  A number too long
to be written has no other spelling that could be looked up. -/
def occupant? (g : Graph γ) (id : NodeId) : Except Fault (Option (Node γ)) := do
  g.find? (← Fault.writableOnly id)

/-- Add a node under a given id, or under the next number.  The highest number is raised first, also
where another node stands in the way. -/
def add (id? : Option NodeId) (n : Node γ) : Act (Graph γ) NodeId := do
  let g ← get
  let id := id?.getD (.number (g.lastNodeId + 1))
  set { g with lastNodeId := g.counterFor id }
  match ← Act.lift (g.occupant? id) with
  | some _ => throw (.badValue ("Node id " ++ id.quoted ++ " already exists in graph"))
  | none =>
    modify fun g => { g with nodes := g.nodes ++ [g.placed id n] }
    pure id

end Graph

namespace Workflow

/-- Take a link out of the output it leaves, if that output exists. -/
def detachOrigin (l : Link) : Act Workflow PUnit := do
  let g ← get
  match ← Act.lift (g.lookup? l.origin) with
  | none => pure ⟨⟩
  | some origin =>
    if l.originSlot.val < origin.outputs.length then
      match position? origin.outputs.length l.originSlot.val with
      | none => throw Fault.outside
      | some i =>
        set (modifyOutput (.outer origin.id) i
          (fun o => { o with links := o.links.erase l.id.val }) g)
    else pure ⟨⟩

/-- Empty an input: its link goes, at both ends. -/
def disconnect (target : Place) (slot : Int) : Act Workflow PUnit := do
  let g ← get
  match siteAt? g target with
  | none => pure ⟨⟩
  | some n =>
    match position? n.inputs.length slot with
    | none => throw Fault.outside
    | some i =>
      match (n.inputs[i]?).bind (·.link) with
      | none => pure ⟨⟩
      | some id =>
        set (modifyInput target i (fun s => { s with link := none }) (g.dropLink id))
        match g.link? id with
        | none => pure ⟨⟩
        | some l => detachOrigin l

/-- Link an output to an input in place of the link that the input holds. -/
def connect (origin : Place) (originSlot : Whole) (target : Place) (targetSlot : Whole) :
    Act Workflow Link := do
  let g ← get
  match siteAt? g origin, siteAt? g target with
  | some o, some t =>
    if (o.outputs.length : Int) ≤ originSlot.val then
      throw (.noPosition ("Node " ++ origin.node.key ++ " has no output slot " ++
        originSlot.toJson.display))
    else if (t.inputs.length : Int) ≤ targetSlot.val then
      throw (.noPosition ("Node " ++ target.node.key ++ " has no input slot " ++
        targetSlot.toJson.display))
    else do
      disconnect target targetSlot.val
      modify fun g => { g with lastLinkId := .number (g.lastLinkId.val + 1) }
      let g ← get
      match position? o.outputs.length originSlot.val, position? t.inputs.length targetSlot.val with
      | some i, some j =>
        match o.outputs[i]? with
        | none => throw Fault.outside
        | some slot =>
          let l : Link := { id := g.lastLinkId, origin := origin.node.toJson, originSlot,
                            target := target.node.toJson, targetSlot,
                            type := .str slot.type }
          set (modifyInput target j (fun s => { s with link := some l.id.val })
            (modifyOutput origin i (fun s => { s with links := s.links ++ [l.id.val] })
              (g.putLink l)))
          pure l
      | _, _ => throw Fault.outside
  | _, _ => throw Fault.outside

/-- Disconnect the input at the far end of a link. -/
def cutLink (id : Int) : Act Workflow PUnit := do
  let g ← get
  match g.link? id with
  | none => pure ⟨⟩
  | some l =>
    match ← Act.lift (g.lookup? l.target) with
    | none => pure ⟨⟩
    | some target => disconnect (.outer target.id) l.targetSlot.val

/-- Cut the links that leave an output. -/
def cutOutput (place : Place) (slot : Nat) : Act Workflow PUnit := do
  match (siteAt? (← get) place).bind (·.outputs[slot]?) with
  | none => pure ⟨⟩
  | some o => Act.each o.links cutLink

/-- Cut a node off from the links of its graph. -/
def cutOff (place : Place) : Workflow → Workflow :=
  modifyAt place (fun n => { n with isCutOff := true }) (fun n => { n with isCutOff := true })

/-- Remove a node and its links.  The nodes inside groups stay where they are: one of them is cut
off, and the node of the workflow that carries its id goes. -/
def remove (place : Place) : Act Workflow PUnit := do
  match siteAt? (← get) place with
  | none => pure ⟨⟩
  | some n =>
    Act.each (List.range n.inputs.length) fun i => disconnect place i
    Act.each (List.range n.outputs.length) (cutOutput place)
    modify fun g =>
      let g := cutOff place g
      { g with nodes := g.nodes.filter fun m => m.id != place.node }

end Workflow

end NodeFlow
