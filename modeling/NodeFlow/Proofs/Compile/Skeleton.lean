import NodeFlow.Editor.Compile
import NodeFlow.Proofs.Compile.Expansion
import NodeFlow.Proofs.Drift
import NodeFlow.Proofs.Order.Shape

/-!
# What a preparation keeps

The hooks that run before a submission and the primitives change values of widgets and nothing else
about a workflow.  Its skeleton, the workflow without these values, stays, and with it the execution
order and the keys of its sites.

Main results:

- Definitions `Node.bare`, `Workflow.skeleton` and `Workflow.Distinct`.
- Theorem `Editor.prepare_sameSkeleton`: a preparation keeps the skeleton.
- Theorems `Workflow.planned_of_skeleton_eq` and `Workflow.keyed_of_skeleton_eq`: what depends on
  the skeleton only.
-/

namespace NodeFlow

/-! ## Skeletons -/

/-- The widget without its value. -/
def Widget.bare (w : Widget) : Widget := w.withValue .null

@[simp] theorem Widget.bare_withValue (w : Widget) (v : Json) : (w.withValue v).bare = w.bare := rfl

section Bare

variable {γ : Type}

/-- The node without the values of its widgets. -/
def Node.bare (n : Node γ) : Node γ := { n with widgets := n.widgets.map Widget.bare }

/-- Values are nothing that the order depends on. -/
theorem Node.isNeutral_bare : Graph.IsNeutral (Node.bare (γ := γ)) := ⟨fun _ => rfl, fun _ => rfl,
  fun _ => rfl⟩

end Bare

/-- The group without the values inside it. -/
def Group.bare (x : Group) : Group := { x with graph := x.graph.mapNodes Node.bare }

/-- The kind without the values inside it. -/
def Kind.hollow : Kind Group → Kind Group
  | .group x => .group x.bare
  | k => k

/-- The node without the values inside it. -/
def Node.hollow (n : Node Group) : Node Group := { n with kind := n.kind.hollow }

/-- The values inside groups are nothing that the order depends on. -/
theorem Node.isNeutral_hollow : Graph.IsNeutral Node.hollow := ⟨fun _ => rfl, fun _ => rfl,
  fun _ => rfl⟩

/-- A hollow group keeps its graph without values. -/
theorem Node.group?_hollow (n : Node Group) : n.hollow.group? = n.group?.map Group.bare := by
  unfold Node.hollow Node.group?
  cases n.kind <;> rfl

/-- The site without the values of widgets. -/
def Site.bare : Site → Site
  | outer n => outer n.bare.hollow
  | inner host x n => inner host.bare.hollow x.bare n.bare

@[simp] theorem Site.place_bare (s : Site) : s.bare.place = s.place := by cases s <;> rfl

@[simp] theorem Site.id_bare (s : Site) : s.bare.id = s.id := by cases s <;> rfl

private theorem Node.isVirtual_hollow (n : Node Group) : n.hollow.isVirtual = n.isVirtual := by
  unfold Node.hollow Node.isVirtual
  cases n.kind <;> rfl

@[simp] theorem Site.isVirtual_bare (s : Site) : s.bare.isVirtual = s.isVirtual := by
  cases s with
  | outer n => exact Node.isVirtual_hollow n.bare
  | inner host x n => rfl

@[simp] theorem Site.isSkipped_bare (s : Site) : s.bare.isSkipped = s.isSkipped := by cases s <;> rfl

@[simp] theorem Site.isEmitted_bare (s : Site) : s.bare.isEmitted = s.isEmitted := by
  rw [isEmitted, isEmitted, isVirtual_bare, isSkipped_bare]

@[simp] theorem Site.type_bare (s : Site) : s.bare.type = s.type := by cases s <;> rfl

@[simp] theorem Site.inputs_bare (s : Site) : s.bare.inputs = s.inputs := by cases s <;> rfl

@[simp] theorem Site.outputs_bare (s : Site) : s.bare.outputs = s.outputs := by cases s <;> rfl

@[simp] theorem Site.widgets_bare (s : Site) : s.bare.widgets = s.widgets.map Widget.bare := by
  cases s <;> rfl

private theorem Group.planned_bare (x : Group) :
    x.bare.graph.planned = x.graph.planned.map (List.map Node.bare) := by
  rw [Graph.planned, Graph.planned, Group.bare, Graph.plan_mapNodes Node.isNeutral_bare]
  cases x.graph.plan with
  | error f => rfl
  | ok order =>
    have hat : (Graph.mapNodes Node.bare x.graph).at? = fun id =>
        (x.graph.at? id).map Node.bare := by
      funext id
      exact Graph.at?_mapNodes Node.isNeutral_bare x.graph id
    simp only [bind, Except.bind, pure, Except.pure, Except.map, hat, List.map_filterMap]

namespace Workflow

/-- What is inside a node does not depend on values, but for these. -/
theorem innerSites?_hollow (n : Node Group) :
    innerSites? n.bare.hollow = (innerSites? n).map (Option.map (List.map Site.bare)) := by
  have hgroup : n.bare.hollow.group? = n.group?.map Group.bare := Node.group?_hollow n.bare
  rw [innerSites?, innerSites?, hgroup]
  cases n.group? with
  | none => rfl
  | some x =>
    simp only [Option.map_some, Group.planned_bare]
    cases x.graph.planned with
    | error f => rfl
    | ok nodes =>
      simp only [Except.map, bind, Except.bind, pure, Except.pure, Option.map_some, List.map_map]
      rfl

/-- The workflow without the values of widgets. -/
def skeleton (g : Workflow) : Workflow := (g.mapNodes Node.bare).mapNodes Node.hollow

/-- In the workflow and inside each group, nodes have different ids. -/
structure Distinct (g : Workflow) : Prop where
  outer : (g.nodes.map (·.id)).Nodup
  inner : ∀ n ∈ g.nodes, ∀ group, n.group? = some group → (group.graph.nodes.map (·.id)).Nodup

/-- The nodes inside a group have different ids. -/
theorem Distinct.innerGraph {g : Workflow} (h : Distinct g) (host : NodeId) :
    ((innerGraph g host).nodes.map (·.id)).Nodup := by
  unfold Workflow.innerGraph
  cases hhost : g.at? host with
  | none => exact .nil
  | some n =>
    cases hgroup : n.group? with
    | none => simp [hgroup]
    | some x => simpa [hgroup] using h.inner n (Graph.mem_of_at? hhost) x hgroup

/-- Where all keys are distinct, so are the ids. -/
theorem Keyed.distinct {g : Workflow} (h : Keyed g) : Distinct g :=
  ⟨h.ids_nodup, fun _ hn _ hgroup => h.inner_ids_nodup hn hgroup⟩

/-- The nodes of a skeleton are the skeletons of nodes. -/
theorem mem_skeleton_nodes {g : Workflow} {m : Node Group} :
    m ∈ (skeleton g).nodes ↔ ∃ n ∈ g.nodes, n.bare.hollow = m := by
  simp [skeleton, Graph.mapNodes]

/-- The skeleton keeps the ids of nodes in their order. -/
theorem ids_skeleton (g : Workflow) : (skeleton g).nodes.map (·.id) = g.nodes.map (·.id) := by
  rw [skeleton, Graph.ids_mapNodes Node.isNeutral_hollow, Graph.ids_mapNodes Node.isNeutral_bare]

/-- What holds of groups without values holds of the groups of a skeleton. -/
theorem forall_group_skeleton {g : Workflow} {P : Group → Prop} (hP : ∀ x, P x.bare ↔ P x) :
    (∀ n ∈ (skeleton g).nodes, ∀ group, n.group? = some group → P group) ↔
      ∀ n ∈ g.nodes, ∀ group, n.group? = some group → P group := by
  constructor
  · intro h n hn group hgroup
    refine (hP group).1 (h n.bare.hollow (mem_skeleton_nodes.2 ⟨n, hn, rfl⟩) group.bare ?_)
    rw [Node.group?_hollow]
    exact congrArg (·.map Group.bare) hgroup
  · intro h m hm group hgroup
    rcases mem_skeleton_nodes.1 hm with ⟨n, hn, rfl⟩
    rw [Node.group?_hollow] at hgroup
    rcases Option.map_eq_some_iff.1 hgroup with ⟨x, hx, rfl⟩
    exact (hP x).2 (h n hn x hx)

private theorem distinct_skeleton {g : Workflow} : Distinct (skeleton g) ↔ Distinct g := by
  have hinner := forall_group_skeleton (g := g)
    (P := fun x => (x.graph.nodes.map (·.id)).Nodup) fun x => by
      rw [Group.bare, Graph.ids_mapNodes Node.isNeutral_bare]
  exact ⟨fun h => ⟨ids_skeleton g ▸ h.outer, hinner.1 h.inner⟩,
    fun h => ⟨(ids_skeleton g).symm ▸ h.outer, hinner.2 h.inner⟩⟩

private theorem plan_skeleton (g : Workflow) : (skeleton g).plan = g.plan := by
  rw [skeleton, Graph.plan_mapNodes Node.isNeutral_hollow, Graph.plan_mapNodes Node.isNeutral_bare]

private theorem planned_skeleton {g : Workflow} : Planned (skeleton g) ↔ Planned g := by
  have hinner := forall_group_skeleton (g := g) (P := fun x => ∃ order, x.graph.plan = .ok order)
    fun x => by rw [Group.bare, Graph.plan_mapNodes Node.isNeutral_bare]
  exact ⟨fun h => ⟨plan_skeleton g ▸ h.outer, hinner.1 h.inner⟩,
    fun h => ⟨(plan_skeleton g).symm ▸ h.outer, hinner.2 h.inner⟩⟩

/-- The skeleton keeps the ids of sites in their order. -/
theorem ids_sites_skeleton (g : Workflow) :
    (sites (skeleton g)).map (·.id) = (sites g).map (·.id) := by
  simp only [sites, skeleton, Graph.mapNodes, List.map_map, List.flatMap_map, List.map_flatMap]
  congr 1
  funext n
  have hgroup : (Node.hollow (Node.bare n)).group? = n.group?.map Group.bare := Node.group?_hollow _
  simp only [Function.comp, hgroup]
  cases n.group? with
  | none => rfl
  | some x =>
    simp only [Option.map_some, Group.bare, Graph.mapNodes, List.map_cons, List.map_map]
    rfl

private theorem behind_hollow (n : Node Group) :
    behind n.bare.hollow = (behind n).map Site.bare := by
  have hskipped : n.bare.hollow.isSkipped = n.isSkipped := rfl
  have hgroup : n.bare.hollow.group? = n.group?.map Group.bare := Node.group?_hollow n.bare
  unfold behind
  rw [hskipped, hgroup]
  split
  · rfl
  · cases n.group? with
    | none => rfl
    | some x =>
      simp only [Option.map_some, Group.bare, Graph.mapNodes, List.map_map]
      rfl

/-- The sites that are met in a skeleton are those of the workflow, without values. -/
theorem expanded_skeleton (g : Workflow) : expanded (skeleton g) = (expanded g).map Site.bare := by
  simp only [expanded, skeleton, Graph.mapNodes, List.map_map, List.flatMap_map, List.map_flatMap]
  congr 1
  funext n
  exact behind_hollow n

/-- The sites that make steps of a skeleton are those of the workflow, without values. -/
theorem emitted_skeleton (g : Workflow) : emitted (skeleton g) = (emitted g).map Site.bare := by
  rw [emitted, emitted, expanded_skeleton, List.filter_map]
  congr 1
  exact List.filter_congr fun s _ => Site.isEmitted_bare s

variable {g g' : Workflow}

/-- What becomes steps depends on the skeleton only. -/
theorem exists_emitted_of_skeleton_eq (h : skeleton g' = skeleton g) {s : Site}
    (hs : s ∈ emitted g') : ∃ t ∈ emitted g, t.bare = s.bare := by
  have hmem : s.bare ∈ (emitted g').map Site.bare := List.mem_map_of_mem hs
  rw [← emitted_skeleton, h, emitted_skeleton] at hmem
  exact List.mem_map.1 hmem

/-- Whether ids are distinct does not depend on values of widgets. -/
theorem distinct_of_skeleton_eq (h : skeleton g' = skeleton g) (hg : Distinct g) : Distinct g' :=
  distinct_skeleton.1 (h ▸ distinct_skeleton.2 hg)

/-- Whether a workflow is planned does not depend on values of widgets. -/
theorem planned_of_skeleton_eq (h : skeleton g' = skeleton g) (hg : Planned g) : Planned g' :=
  planned_skeleton.1 (h ▸ planned_skeleton.2 hg)

/-- The order does not depend on values of widgets. -/
theorem plan_of_skeleton_eq (h : skeleton g' = skeleton g) : g'.plan = g.plan := by
  rw [← plan_skeleton, h, plan_skeleton]

/-- Whether keys are distinct does not depend on values of widgets. -/
theorem keyed_of_skeleton_eq (h : skeleton g' = skeleton g) (hg : Keyed g) : Keyed g' := by
  have hids : (sites g').map (·.id) = (sites g).map (·.id) := by
    rw [← ids_sites_skeleton, h, ids_sites_skeleton]
  have hkeys : (sites g').map (·.id.key) = (sites g).map (·.id.key) := by
    simpa [Function.comp_def] using congrArg (List.map NodeId.key) hids
  rw [Keyed, hkeys]
  exact hg

end Workflow

/-! ## The widgets of a node -/

/-- The widgets stay, but for their values. -/
def Bench.sameWidgets : Drift Bench := .keeping fun b => b.1.map Widget.bare

/-- A view that does not see a change of an item does not see it in a list. -/
theorem map_modify_of_eq {α β : Type} {f : α → α} {view : α → β} (h : ∀ x, view (f x) = view x)
    (xs : List α) (i : Nat) : (xs.modify i f).map view = xs.map view := by
  refine List.ext_getElem? fun j => ?_
  rw [List.getElem?_map, List.getElem?_map, List.getElem?_modify]
  cases xs[j]? with
  | none => rfl
  | some x => by_cases hij : i = j <;> simp [hij, h]

/-- A new value leaves everything else about the widgets. -/
theorem Widget.map_bare_modify (ws : List Widget) (i : Nat) (v : Json) :
    (ws.modify i (·.withValue v)).map Widget.bare = ws.map Widget.bare :=
  map_modify_of_eq (fun w => w.bare_withValue v) ws i

private theorem Widget.outward_sameWidgets {α : Type} (act : Act Outside α) :
    (Widget.outward act).Within Bench.sameWidgets := .focus_free act fun _ _ => rfl

private theorem Widget.assign_sameWidgets (i : Nat) (v : Json) :
    (Widget.assign i v).Within Bench.sameWidgets := by
  refine .bind (.modify fun b => map_bare_modify b.1 i v) fun _ => .bind .get fun b => ?_
  split
  · exact outward_sameWidgets _
  · exact .pure _

private theorem Widget.applyControl_sameWidgets (target : Widget) (source : RandomSource)
    (mode : Json) (i : Nat) : (target.applyControl source mode i).Within Bench.sameWidgets := by
  unfold applyControl
  split
  · exact .pure _
  · refine .bind (outward_sameWidgets _) fun _ => .bind (.lift _) fun next => ?_
    split
    · exact assign_sameWidgets _ _
    · exact .pure _

namespace QueueHook

private theorem advanceTarget_sameWidgets (source : RandomSource) (i : Nat) :
    (advanceTarget source i).Within Bench.sameWidgets := by
  refine .bind .get fun b => ?_
  dsimp only
  split
  · exact Widget.applyControl_sameWidgets _ _ _ _
  · exact .pure _

private theorem follow_sameWidgets (name : String) (h : Hook) (i : Nat) :
    (follow name h i).Within Bench.sameWidgets := by
  refine .bind .get fun b => ?_
  split
  · exact .pure _
  · refine .bind (Widget.outward_sameWidgets _) fun _ => ?_
    extract_lets rest
    have hrest : ∀ u, (rest u).Within Bench.sameWidgets := by
      intro u
      refine .bind .get fun b => ?_
      split
      · exact .bind (.lift _) fun _ => Widget.assign_sameWidgets _ _
      · exact .pure _
    split
    · exact .bind (Widget.assign_sameWidgets _ _) hrest
    · exact hrest ⟨⟩

/-- A hook of the queue changes values only. -/
theorem run_sameWidgets (name : String) (i : Nat) (h : QueueHook) :
    (h.run name i).Within Bench.sameWidgets := by
  induction h with
  | advance source => exact advanceTarget_sameWidgets source i
  | scripted h => exact follow_sameWidgets name h i
  | chained h previous ih => exact .bind (follow_sameWidgets name h i) fun _ => ih

end QueueHook

/-! ## Graphs and groups -/

namespace Graph

variable {γ : Type}

/-- Where nodes have different ids, the graph stays, but for the values of widgets. -/
def sameShape : Drift (Graph γ × Outside) where
  rel s t := (s.1.nodes.map (·.id)).Nodup → t.1.mapNodes Node.bare = s.1.mapNodes Node.bare
  refl _ _ := rfl
  trans := by
    intro s t u hst htu hids
    have hshape := hst hids
    have hkeep : t.1.nodes.map (·.id) = s.1.nodes.map (·.id) := by
      rw [← ids_mapNodes Node.isNeutral_bare, hshape, ids_mapNodes Node.isNeutral_bare]
    rw [← hkeep] at hids
    exact (htu hids).trans hshape

/-- Widgets that differ from those of a node by their values only may take their place. -/
theorem mapNodes_bare_modifyNode {g : Graph γ} (hids : (g.nodes.map (·.id)).Nodup) {id : NodeId}
    {ws : List Widget}
    (hws : ws.map Widget.bare = (((g.at? id).map (·.widgets)).getD []).map Widget.bare) :
    (g.modifyNode id fun n => { n with widgets := ws }).mapNodes Node.bare =
      g.mapNodes Node.bare := by
  have hnodes : (g.nodes.map fun n => if n.id = id then { n with widgets := ws } else n).map
      Node.bare = g.nodes.map Node.bare := by
    rw [List.map_map]
    refine List.map_congr_left fun n hn => ?_
    by_cases hid : n.id = id
    · subst hid
      rw [at?_of_mem hids hn] at hws
      simpa [Node.bare] using hws
    · simp [hid]
  simp only [mapNodes, modifyNode, hnodes]

private theorem onWidgets_sameShape {α : Type} {act : Act Bench α}
    (h : act.Within Bench.sameWidgets)
    (id : NodeId) : (onWidgets (γ := γ) id act).Within sameShape :=
  .focus h fun _ _ hws hids => mapNodes_bare_modifyNode hids hws

private theorem pushValue_sameShape (id : NodeId) : (pushValue (γ := γ) id).Within sameShape := by
  refine .bind .get fun s => ?_
  dsimp only
  split
  · exact .pure _
  · split
    · exact .bind (.lift _) fun _ => .each fun place =>
        onWidgets_sameShape (Widget.assign_sameWidgets _ _) _
    · exact .pure _

end Graph

namespace Workflow

/-- Where nodes have different ids, the skeleton stays. -/
def sameSkeleton : Drift Workflow where
  rel g g' := Distinct g → skeleton g' = skeleton g
  refl _ _ := rfl
  trans := by
    intro g g' g'' h h' hdistinct
    have hsame := h hdistinct
    exact (h' (distinct_of_skeleton_eq hsame hdistinct)).trans hsame

/-- A new graph inside a group that differs in values only leaves the skeleton. -/
theorem skeleton_modifyGroup {g : Workflow} (hdistinct : Distinct g) {host : NodeId}
    {inner : Subgraph}
    (hinner : inner.mapNodes Node.bare = (innerGraph g host).mapNodes Node.bare) :
    skeleton (modifyGroup host (fun _ => inner) g) = skeleton g := by
  have hnodes : ((modifyGroup host (fun _ => inner) g).nodes.map Node.bare).map Node.hollow =
      (g.nodes.map Node.bare).map Node.hollow := by
    simp only [modifyGroup, Graph.modifyNode, List.map_map]
    refine List.map_congr_left fun n hn => ?_
    by_cases hid : n.id = host
    · subst hid
      simp only [innerGraph, Graph.at?_of_mem hdistinct.outer hn] at hinner
      cases hkind : n.kind with
      | group x =>
        simp only [Node.group?, hkind, Option.bind_some, Option.map_some, Option.getD_some]
          at hinner
        simp [hkind, Node.bare, Node.hollow, Kind.hollow, Group.bare, hinner]
      | _ => simp [hkind]
    · simp [hid]
  simp only [skeleton, Graph.mapNodes, hnodes]
  rfl

end Workflow

namespace Editor

open Workflow

private theorem onOuter_sameSkeleton {α : Type} {act : Act (Workflow × Outside) α}
    (h : act.Within Graph.sameShape) : act.Within (sameSkeleton.through (·.1)) :=
  h.mono fun _ _ hshape hdistinct => congrArg (Graph.mapNodes Node.hollow) (hshape hdistinct.outer)

private theorem onInner_sameSkeleton {α : Type} {act : Act (Subgraph × Outside) α}
    (h : act.Within Graph.sameShape) (host : NodeId) :
    (onInner host act).Within (sameSkeleton.through (·.1)) := by
  exact .focus h fun s t hshape hdistinct =>
    skeleton_modifyGroup hdistinct (hshape (hdistinct.innerGraph host))

private theorem onGraph_sameSkeleton {α : Type} {act : Act (Workflow × Outside) α}
    (h : act.Within (sameSkeleton.through (·.1))) :
    (onGraph act).Within (sameSkeleton.through (·.graph)) := .focus h fun _ _ hsame => hsame

/-- What changes values of widgets only leaves the skeleton, at whatever place. -/
theorem onPlace_sameSkeleton {α : Type} {act : Act Bench α} (h : act.Within Bench.sameWidgets)
    (place : Place) : (onPlace place act).Within (sameSkeleton.through (·.graph)) := by
  apply onGraph_sameSkeleton
  cases place with
  | outer id => exact onOuter_sameSkeleton (Graph.onWidgets_sameShape h id)
  | inner host id => exact onInner_sameSkeleton (Graph.onWidgets_sameShape h id) host

/-- A push leaves the skeleton. -/
theorem pushAt_sameSkeleton (place : Place) :
    (pushAt place).Within (sameSkeleton.through (·.graph)) := by
  apply onGraph_sameSkeleton
  cases place with
  | outer id => exact onOuter_sameSkeleton (Graph.pushValue_sameShape id)
  | inner host id => exact onInner_sameSkeleton (Graph.pushValue_sameShape id) host

/-- The hooks before a node is sent leave the skeleton. -/
theorem runBefore_sameSkeleton (place : Place) :
    (runBefore place).Within (sameSkeleton.through (·.graph)) := by
  refine .bind .get fun e => .each fun i => ?_
  split
  · exact onPlace_sameSkeleton (QueueHook.run_sameWidgets _ _ _) _
  · exact .pure _

/-- A preparation keeps the skeleton of the workflow. -/
theorem prepare_sameSkeleton (order : List NodeId) :
    (prepare order).Within (sameSkeleton.through (·.graph)) := by
  refine .each fun id => .bind .get fun e => ?_
  split
  · exact .pure _
  · exact .bind (.lift _) fun _ => .bind (.each fun _ => runBefore_sameSkeleton _) fun _ =>
      .bind (.lift _) fun _ => .each fun _ => pushAt_sameSkeleton _

end Editor

end NodeFlow
