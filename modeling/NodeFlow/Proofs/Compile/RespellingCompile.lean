import NodeFlow.Proofs.Compile.Hooks
import NodeFlow.Proofs.Compile.Respelling
import NodeFlow.Proofs.Compile.Steps
import NodeFlow.Proofs.Mirror

/-!
# Compiling a respelled workflow

Two editors whose workflows differ in the spelling of references only prepare a compilation alike: the
same hooks run, the same values are pushed to the same widgets, and the workflows that are left differ
in the spelling only.  So the steps of both compilations are the same, and if one compilation fails, so
does the other, for the same reason.

Main results:

- Structure `Editor.Respelled`: editors that differ in the spelling of references.
- Theorem `Editor.prepare_respelled`: preparations do the same.
- Theorem `Editor.compile_respelled`: compilations come to the same output.
-/

namespace NodeFlow

/-! ## Graphs -/

namespace Graph

variable {γ : Type} {ψ : γ → γ} {P : Graph γ → Prop}

/-- The second graph is the first one, which is sound, spelled as texts; the outsides are the same. -/
structure Respelled (ψ : γ → γ) (P : Graph γ → Prop) (s t : Graph γ × Outside) : Prop where
  same : t = (s.1.asText ψ, s.2)
  sound : P s.1

variable (hput : ∀ g id ws, P g → P (Graph.modifyNode id (fun n => { n with widgets := ws }) g))

include hput

private theorem onWidgets_respelled {α : Type} {act : Act Bench α} (hstraight : act.IsStraight)
    (id : NodeId) : (onWidgets (γ := γ) id act).Mirrors (Respelled ψ P) := by
  rintro ⟨g, o⟩ _ ⟨rfl, hsound⟩
  have hwidgets : ((g.asText ψ).at? id).map (·.widgets) = (g.at? id).map (·.widgets) := by
    rw [at?_asText, Option.map_map]
    rfl
  refine .focus (S := Eq) hstraight hstraight ?_ ?_
  · dsimp only
    rw [hwidgets]
    exact ⟨rfl, rfl⟩
  · rintro ⟨ws, u⟩ _ rfl
    refine ⟨Prod.ext ?_ rfl, hput g id ws hsound⟩
    refine modifyNode_asText ψ (fun n => ?_) g id
    rfl

private theorem pushValue_respelled (hkeys : ∀ g, P g → g.KeysNodup) (id : NodeId) :
    (pushValue (γ := γ) id).Mirrors (Respelled ψ P) := by
  rintro ⟨g, o⟩ _ ⟨rfl, hsound⟩
  have h : Respelled ψ P (g, o) (g.asText ψ, o) := ⟨rfl, hsound⟩
  refine .bind_get ?_
  dsimp only
  rw [at?_asText]
  cases g.at? id with
  | none => exact .pure _ h
  | some n =>
    have hkind : (n.mapGroup ψ).kind = n.kind.mapGroup ψ := rfl
    have hwidgets : (n.mapGroup ψ).widgets = n.widgets := rfl
    simp only [Option.map_some, hkind, hwidgets, targets_asText ψ (hkeys g hsound)]
    cases n.kind with
    | primitive pending =>
      cases n.widgets with
      | nil => exact .pure _ h
      | cons w ws =>
        exact Act.Mirrors.bind (.lift _) (fun _ => .each fun c =>
          onWidgets_respelled hput (Widget.assign_isStraight _ _) _) _ _ h
    | plain | missing | reroute | note | group => exact .pure _ h

end Graph

/-! ## Workflows -/

namespace Workflow

variable {g : Workflow}

private theorem DistinctKeys.modifyNode (h : DistinctKeys g) (id : NodeId) (ws : List Widget) :
    DistinctKeys (Graph.modifyNode id (fun n => { n with widgets := ws }) g) :=
  distinctKeys_of_names (names_modifyNode fun _ _ _ => rfl) h

private theorem DistinctKeys.innerGraph (h : DistinctKeys g) (host : NodeId) :
    (innerGraph g host).KeysNodup := by
  unfold Workflow.innerGraph
  cases hhost : g.at? host with
  | none => exact .nil
  | some n =>
    cases hgroup : n.group? with
    | none => simp [hgroup, Graph.KeysNodup]
    | some x => simpa [hgroup] using h.inner n (Graph.mem_of_at? hhost) x hgroup

private theorem DistinctKeys.modifyGroup (h : DistinctKeys g) (host : NodeId) {inner : Subgraph}
    (hinner : inner.KeysNodup) : DistinctKeys (modifyGroup host (fun _ => inner) g) := by
  have hids : (Workflow.modifyGroup host (fun _ => inner) g).nodes.map (·.id) = g.nodes.map (·.id) :=
    ids_modifyNode fun n _ _ => by cases n.kind <;> rfl
  refine ⟨Graph.keysNodup_of_ids hids h.outer, ?_⟩
  intro m hm x hx
  rcases List.mem_map.1 hm with ⟨n, hn, rfl⟩
  split at hx
  · cases hkind : n.kind with
    | group y =>
      simp only [Node.group?, hkind, Option.some.injEq] at hx
      subst hx
      exact hinner
    | plain | missing | reroute | note | primitive => simp [Node.group?, hkind] at hx
  · exact h.inner n hn x hx

private theorem innerGraph_asText (g : Workflow) (host : NodeId) :
    innerGraph g.asText host = (innerGraph g host).asText id := by
  rw [innerGraph, innerGraph, Graph.at?_asText]
  cases Graph.at? g host with
  | none => rfl
  | some n =>
    rw [Option.map_some, Option.bind_some, Option.bind_some, Node.group?_mapGroup]
    cases n.group? <;> rfl

/-- Changing what is inside a group and respelling can change places. -/
theorem modifyGroup_asText {f f' : Subgraph → Subgraph}
    (h : ∀ x : Subgraph, f' (x.asText id) = (f x).asText id) (g : Workflow) (host : NodeId) :
    modifyGroup host f' g.asText = (modifyGroup host f g).asText := by
  refine Graph.modifyNode_asText _ (fun n => ?_) g host
  cases hkind : n.kind <;> simp [Node.mapGroup, Kind.mapGroup, hkind, Group.asText, h]

/-- A graph put into a group is respelled with the workflow. -/
theorem putInner_asText (g : Workflow) (host : NodeId) (inner : Subgraph) :
    modifyGroup host (fun _ => inner.asText id) g.asText =
      (modifyGroup host (fun _ => inner) g).asText := by
  refine modifyGroup_asText ?_ g host
  exact fun _ => rfl

private theorem siteAt?_asText (g : Workflow) (place : Place) :
    siteAt? g.asText place = (siteAt? g place).map Site.asText := by
  cases place with
  | outer id =>
    rw [siteAt?_outer, siteAt?_outer, Graph.at?_asText, Option.map_map, Option.map_map]
    rfl
  | inner host id =>
    simp only [siteAt?, Graph.at?_asText]
    cases Graph.at? g host with
    | none => rfl
    | some n =>
      simp only [Option.map_some, Option.bind_eq_bind, Option.bind_some, Node.group?_mapGroup]
      cases n.group? with
      | none => rfl
      | some x =>
        have hat : x.asText.graph.at? id = x.graph.at? id := Subgraph.at?_asText x.graph id
        simp only [Option.map_some, Option.bind_some, hat]
        cases x.graph.at? id <;> rfl

end Workflow

/-! ## Editors -/

namespace Editor

open Workflow

/-- The second editor is the first one, but for the spelling of references in its workflow. -/
structure Respelled (e t : Editor) : Prop where
  same : t = { e with graph := e.graph.asText }
  distinct : DistinctKeys e.graph

private theorem onInner_respelled {α : Type} {act : Act (Subgraph × Outside) α}
    (hstraight : act.IsStraight)
    (h : act.Mirrors (Graph.Respelled id Graph.KeysNodup)) (host : NodeId) :
    (onInner host act).Mirrors (Graph.Respelled Group.asText DistinctKeys) := by
  rintro ⟨g, o⟩ _ ⟨rfl, hdistinct⟩
  refine .focus hstraight hstraight
    (h _ _ ⟨Prod.ext (innerGraph_asText g host) rfl, hdistinct.innerGraph host⟩) ?_
  rintro ⟨inner, u⟩ _ ⟨rfl, hinner⟩
  exact ⟨Prod.ext (putInner_asText g host inner) rfl, hdistinct.modifyGroup host hinner⟩

private theorem onGraph_respelled {α : Type} {act : Act (Workflow × Outside) α}
    (hstraight : act.IsStraight) (h : act.Mirrors (Graph.Respelled Group.asText DistinctKeys)) :
    (onGraph act).Mirrors Respelled := by
  rintro e _ ⟨rfl, hdistinct⟩
  refine .focus hstraight hstraight (h _ _ ⟨rfl, hdistinct⟩) ?_
  rintro ⟨g, o⟩ _ ⟨rfl, hg⟩
  exact ⟨rfl, hg⟩

private theorem onPlace_respelled {α : Type} {act : Act Bench α} (hstraight : act.IsStraight)
    (place : Place) : (onPlace place act).Mirrors Respelled := by
  cases place with
  | outer id =>
    exact onGraph_respelled (hstraight.focus _ _)
      (Graph.onWidgets_respelled (fun _ id ws h => h.modifyNode id ws) hstraight id)
  | inner host id =>
    refine onGraph_respelled ((hstraight.focus _ _).focus _ _)
      (onInner_respelled (hstraight.focus _ _) (Graph.onWidgets_respelled ?_ hstraight id) host)
    exact fun g id ws h => Graph.keysNodup_of_ids (ids_modifyNode fun _ _ _ => rfl) h

private theorem pushAt_respelled (place : Place) : (pushAt place).Mirrors Respelled := by
  cases place with
  | outer id =>
    exact onGraph_respelled (pushValue_isStraight id)
      (Graph.pushValue_respelled (fun _ id ws h => h.modifyNode id ws) (fun _ h => h.outer) id)
  | inner host id =>
    refine onGraph_respelled ((pushValue_isStraight id).focus _ _) (onInner_respelled
      (pushValue_isStraight id) (Graph.pushValue_respelled ?_ (fun _ h => h) id) host)
    exact fun g id ws h => Graph.keysNodup_of_ids (ids_modifyNode fun _ _ _ => rfl) h

private theorem runBefore_respelled (place : Place) : (runBefore place).Mirrors Respelled := by
  rintro e _ ⟨rfl, hdistinct⟩
  have hwidgets : widgetsAt { e with graph := e.graph.asText } place = e.widgetsAt place := by
    rw [widgetsAt, widgetsAt, siteAt?_asText, Option.map_map]
    exact congrArg (fun f => ((siteAt? e.graph place).map f).getD [])
      (funext fun s => s.widgets_asText)
  refine .bind_get ?_
  rw [hwidgets]
  refine Act.Mirrors.each (fun i => ?_) _ _ ⟨rfl, hdistinct⟩
  split
  · exact onPlace_respelled (QueueHook.run_isStraight _ _ _) place
  · exact .pure _

private theorem each_place_asText (act : Place → EditorAct PUnit) (ss : List Site) :
    (Act.each (ss.map Site.asText) fun s => act s.place) = Act.each ss fun s => act s.place := by
  simp only [Act.each_map, Site.place_asText]

/-- The work of a node does not depend on the spelling of references inside it. -/
theorem work_asText {g : Workflow} (h : DistinctKeys g) {n : Node Group} (hn : n ∈ g.nodes) :
    work n.asText = work n := by
  have hwork : ∀ {m : Node Group} {inner : Option (List Site)}, innerSites? m = .ok inner →
      work m = (Act.each (.outer m :: inner.getD []) (fun s => runBefore s.place) >>= fun _ =>
        Act.each ((inner.getD [.outer m]).filter (·.isVirtual)) fun s => pushAt s.place) := by
    intro m inner hinner
    rw [work, hookSites, hinner]
    rfl
  have hinner := innerSites?_asText h hn
  cases hsites : innerSites? n with
  | error f =>
    rw [hsites] at hinner
    rw [work, work, hookSites, hookSites, hinner, hsites]
    rfl
  | ok inner =>
    rw [hsites] at hinner
    have hhooks : Site.outer n.asText :: (Option.map (List.map Site.asText) inner).getD [] =
        (Site.outer n :: inner.getD []).map Site.asText := by cases inner <;> rfl
    have hpushes : (Option.map (List.map Site.asText) inner).getD [.outer n.asText] =
        (inner.getD [.outer n]).map Site.asText := by cases inner <;> rfl
    have hvirtual : (fun s : Site => s.isVirtual) ∘ Site.asText = fun s => s.isVirtual :=
      funext Site.isVirtual_asText
    rw [hwork hinner, hwork hsites, hhooks, hpushes, List.filter_map, hvirtual,
      each_place_asText runBefore, each_place_asText pushAt]

private theorem work_respelled (n : Node Group) : (work n).Mirrors Respelled :=
  .bind (.lift _) fun _ => .bind (.each fun _ => runBefore_respelled _) fun _ =>
    .bind (.lift _) fun _ => .each fun _ => pushAt_respelled _

private theorem prepareNode_respelled (id : NodeId) : (prepareNode id).Mirrors Respelled := by
  rintro e _ ⟨rfl, hdistinct⟩
  have h : Respelled e { e with graph := e.graph.asText } := ⟨rfl, hdistinct⟩
  refine .bind_get ?_
  dsimp only
  rw [Graph.at?_asText]
  cases hn : Graph.at? e.graph id with
  | none => exact .pure _ h
  | some n =>
    have hmatches : (work n).Matches Respelled (work n.asText) e
        { e with graph := e.graph.asText } := by
      rw [work_asText hdistinct (Graph.mem_of_at? hn)]
      exact work_respelled n e _ h
    exact hmatches

/-- Preparations do the same, whatever the spelling. -/
theorem prepare_respelled (order : List NodeId) : (prepare order).Mirrors Respelled :=
  .each fun _ => prepareNode_respelled _

/-! ## Compilation -/

private theorem outward_respelled {α : Type} (act : Act Outside α) :
    (outward act).Mirrors Respelled := by
  rintro e _ ⟨rfl, hdistinct⟩
  rw [Act.Matches, exec_outward, exec_outward]
  exact ⟨rfl, rfl, hdistinct⟩

private theorem sentValues_respelled (node : NodeId) (i : Nat) (ws : List Widget) (sent : Members) :
    (sentValues node i ws sent).Mirrors Respelled := by
  induction ws generalizing i sent with
  | nil => exact .pure _
  | cons w ws ih =>
    have hwait : ∀ ticks, (Act.waitFor ticks : EditorAct PUnit).Mirrors Respelled := by
      intro ticks e t h
      rw [Act.Matches, Act.exec_waitFor, Act.exec_waitFor]
      exact ⟨rfl, h⟩
    rw [sentValues]
    split
    · exact .bind (hwait _) fun _ => .bind (outward_respelled _) fun _ => ih _ _
    · exact ih _ _

private theorem buildSteps_respelled (g : Workflow) (maxHops : Int) (titled : Bool) (ss : List Site)
    (output : Output) : (buildSteps g maxHops titled ss output).Mirrors Respelled := by
  induction ss generalizing output with
  | nil => exact .pure _
  | cons s ss ih =>
    rw [buildSteps]
    split
    · exact .bind (sentValues_respelled _ _ _ _) fun _ => .bind (.lift _) fun _ => ih _
    · exact ih _

private theorem compileSites_respelled (g : Workflow) (maxHops : Int) (titled : Bool)
    (ss : List Site) : (compileSites g maxHops titled ss).Mirrors Respelled := by
  have hexpand : ∀ output, (expandSteps g maxHops titled ss output).Mirrors Respelled := by
    induction ss with
    | nil => exact fun output => .pure output
    | cons s ss ih =>
      intro output
      exact .bind (.lift _) fun met => .bind (buildSteps_respelled _ _ _ met output) ih
  exact .bind (hexpand []) fun _ => .pure _

/-- The output of a compilation in the given order. -/
def outputIn (order : List NodeId) : EditorAct Output := do
  prepare order
  let e ← get
  compileSites e.graph e.settings.maxHops e.settings.devMode
    ((order.filterMap e.graph.at?).map Site.outer)

private theorem outputIn_respelled (order : List NodeId) : (outputIn order).Mirrors Respelled := by
  refine .bind (prepare_respelled order) fun _ => ?_
  rintro e _ ⟨rfl, hdistinct⟩
  refine .bind_get ?_
  dsimp only
  rw [compileSites_asText hdistinct]
  exact compileSites_respelled _ _ _ _ _ _ ⟨rfl, hdistinct⟩

private theorem output_compile (e : Editor) : (compile.exec e).1.map (·.output) =
    ((Act.lift e.graph.plan >>= outputIn).exec e).1 := by
  rw [compile, Act.exec_bind, Act.exec_get]
  dsimp only
  cases hplan : Graph.plan e.graph with
  | error f => rfl
  | ok order =>
    rw [Act.exec_bind, Act.exec_lift, Act.exec_bind, Act.exec_lift]
    dsimp only
    rw [outputIn, Act.exec_bind, Act.exec_bind]
    rcases (prepare order).exec e with ⟨f | _, u⟩
    · rfl
    · dsimp only
      rw [Act.exec_bind, Act.exec_get, Act.exec_bind, Act.exec_get]
      dsimp only
      rw [Act.exec_bind]
      rcases (compileSites _ _ _ _).exec u with ⟨f | output, v⟩ <;> rfl

/-- A compilation comes to the same output, or fails for the same reason, whatever the spelling. -/
theorem compile_respelled {e t : Editor} (h : Respelled e t) :
    (compile.exec t).1.map (·.output) = (compile.exec e).1.map (·.output) := by
  have hplan : Graph.plan t.graph = Graph.plan e.graph := by
    rw [h.same]
    exact Graph.plan_asText _ h.distinct.outer
  rw [output_compile, output_compile, hplan]
  have hmirrors : (Act.lift (Graph.plan e.graph) >>= outputIn).Mirrors Respelled :=
    .bind (.lift _) outputIn_respelled
  exact (hmirrors e t h).1.symm

end Editor

end NodeFlow
