import NodeFlow.Proofs.Compile.Hooks
import NodeFlow.Proofs.Compile.DetourOrder
import NodeFlow.Proofs.Compile.DetourTrail
import NodeFlow.Proofs.Mirror

/-!
# Preparations with a detour

The reroute of a detour has no widgets, and no primitive is at either end of its links.  So the turns of
the nodes do the same with the reroute and without it, and the turn of the reroute does nothing.

Main results:

- Theorem `Detour.Fits.targets_apply`: primitives are linked to the same widgets.
- Structure `Detour.Rerouted`: editors with the reroute and without it.
- Theorem `Detour.prepare_rerouted`: preparations in the same order do the same.
-/

namespace NodeFlow

namespace Detour

open NodeFlow.Graph Workflow Editor

variable {d : Detour}

/-! ## Widgets that primitives are linked to -/

namespace Fits

variable {g : Workflow} (h : d.Fits g)

include h

private theorem targetOf_apply {l : Link} (hl : l ∈ g.links) :
    (d.apply g).targetOf l = g.targetOf l := by
  rw [targetOf, targetOf, d.lookup?_apply (h.uncaught l hl).2]
  cases g.lookup? l.target with
  | error f => rfl
  | ok found =>
    cases found with
    | none => rfl
    | some n =>
      simp only [Except.map, Option.map_some, bind, Except.bind, length_inputs_rewire]
      split
      · rfl
      · cases position? n.inputs.length l.targetSlot.val with
        | none => rfl
        | some i =>
          have hwidget := d.map_getElem?_inputs_rewire n (F := (·.widget)) (fun _ _ => rfl) i
          simp only [Option.bind_some]
          cases hs : n.inputs[i]? with
          | none =>
            rw [hs, Option.map_none, Option.map_eq_none_iff] at hwidget
            rw [hwidget]
          | some s =>
            rw [hs, Option.map_some] at hwidget
            rcases Option.map_eq_some_iff.1 hwidget with ⟨s', hs', hsame⟩
            simp only [hs', hsame]
            rfl

private theorem targetsOf_apply {ls : List Link} (hls : ls ⊆ g.links) :
    (d.apply g).targetsOf ls = g.targetsOf ls := by
  induction ls with
  | nil => rfl
  | cons l ls ih =>
    rw [List.cons_subset] at hls
    rw [targetsOf, targetsOf, h.targetOf_apply hls.1, ih hls.2]

/-- Primitives are linked to the same widgets. -/
theorem targets_apply {n : Node Group} (hn : n ∈ g.nodes) (hprimitive : n.kind.isPrimitive = true) :
    (d.apply g).targets (d.rewire n) = g.targets n := by
  rcases h.replaces with ⟨l, o, t, ht⟩
  have hne : n.id ≠ d.origin := by
    intro hid
    have hsame : n = o :=
      List.inj_on_of_nodup_map h.ids hn (mem_of_lookup? ht.origin) (hid.trans ht.originId.symm)
    rw [hsame, ht.steady] at hprimitive
    cases hprimitive
  have hlinks : ∀ o ∈ n.outputs, o.links.filterMap (d.apply g).link? = o.links.filterMap g.link? :=
    fun o ho => List.filterMap_congr fun k hk => d.link?_apply (h.unlisted n hn hprimitive o ho k hk)
  have hout : (d.apply g).outLinks? (d.rewire n) 0 = g.outLinks? n 0 := by
    rw [outLinks?, outLinks?, isCutOff_rewire, d.outputs_rewire_of_ne hne]
    split
    · rfl
    · cases ho : (position? n.outputs.length 0).bind (n.outputs[·]?) with
      | none => rfl
      | some o =>
        rcases Option.bind_eq_some_iff.1 ho with ⟨i, -, hi⟩
        exact congrArg Except.ok (hlinks o (List.mem_of_getElem? hi))
  rw [targets, targets, hout]
  cases hls : g.outLinks? n 0 with
  | error f => rfl
  | ok ls =>
    refine h.targetsOf_apply fun l hl => ?_
    rcases exists_output_of_mem_outLinks hls hl with ⟨o, -, k, -, hlink⟩
    exact List.mem_of_find?_eq_some hlink

end Fits

/-! ## Graphs -/

/-- What is inside groups stays. -/
theorem innerGraph_apply (g : Workflow) {host : NodeId} (hhost : host ≠ d.node.id) :
    innerGraph (d.apply g) host = innerGraph g host := by
  rw [innerGraph, innerGraph, d.at?_apply_of_ne hhost]
  cases g.at? host <;> rfl

/-- The second graph is the first one with the reroute; the outsides are the same. -/
structure Beside (d : Detour) (s t : Workflow × Outside) : Prop where
  same : t = (d.apply s.1, s.2)
  fits : d.Fits s.1

private theorem onWidgets_beside {α : Type} {act : Act Bench α} (hstraight : act.IsStraight)
    {id : NodeId}
    (hid : id ≠ d.node.id) : (onWidgets id act : Act (Workflow × Outside) α).Mirrors d.Beside := by
  rintro ⟨g, o⟩ _ ⟨rfl, hfits⟩
  have hwidgets : ((d.apply g).at? id).map (·.widgets) = (g.at? id).map (·.widgets) := by
    rw [d.at?_apply_of_ne hid, Option.map_map]
    rfl
  refine .focus (S := Eq) hstraight hstraight ?_ ?_
  · dsimp only
    rw [hwidgets]
    exact ⟨rfl, rfl⟩
  · rintro ⟨ws, u⟩ _ rfl
    refine ⟨Prod.ext ?_ rfl, ?_⟩
    · exact d.modifyNode_apply hid fun n => rfl
    · have hkeeps : KeepsSlots fun n : Node Group => { n with widgets := ws } :=
        ⟨⟨fun _ => rfl, fun _ => rfl, fun _ => rfl⟩, fun _ => rfl, fun _ => rfl, fun _ => rfl⟩
      dsimp only
      rw [modifyNode_eq_mapNodes]
      exact hfits.mapNodes (hkeeps.atNode id)

private theorem pushValue_beside {id : NodeId} (hid : id ≠ d.node.id) :
    (pushValue id : Act (Workflow × Outside) PUnit).Mirrors d.Beside := by
  rintro ⟨g, o⟩ _ ⟨rfl, hfits⟩
  have h : d.Beside (g, o) (d.apply g, o) := ⟨rfl, hfits⟩
  refine .bind_get ?_
  dsimp only
  rw [d.at?_apply_of_ne hid]
  cases hn : g.at? id with
  | none => exact .pure _ h
  | some n =>
    have hmem := mem_of_at? hn
    simp only [Option.map_some, kind_rewire, widgets_rewire]
    cases hkind : n.kind with
    | primitive pending =>
      have hprimitive : n.kind.isPrimitive = true := by
        rw [hkind]
        rfl
      rw [hfits.targets_apply hmem hprimitive]
      cases n.widgets with
      | nil => exact .pure _ h
      | cons w ws =>
        refine Act.Mirrors.bind_lift (fun places hplaces => .each_of_mem fun c hc => ?_) _ _ h
        rcases mem_targets hplaces hc with ⟨ls, -, l, -, htarget⟩
        rcases targetOf_eq_some htarget with ⟨t, slot, name, ht, -, -, hid, -⟩
        exact onWidgets_beside (Widget.assign_isStraight _ _)
          (hid ▸ hfits.ne_of_mem (mem_of_lookup? ht))
    | plain | missing | reroute | note | group => exact .pure _ h

private theorem onInner_beside {α : Type} {act : Act (Subgraph × Outside) α}
    (hstraight : act.IsStraight)
    {host : NodeId} (hhost : host ≠ d.node.id) : (onInner host act).Mirrors d.Beside := by
  rintro ⟨g, o⟩ _ ⟨rfl, hfits⟩
  refine .focus (S := Eq) hstraight hstraight ?_ ?_
  · dsimp only
    rw [innerGraph_apply g hhost]
    exact ⟨rfl, rfl⟩
  · rintro ⟨inner, u⟩ _ rfl
    refine ⟨Prod.ext ?_ rfl, ?_⟩
    · refine d.modifyNode_apply hhost fun n => ?_
      rw [kind_rewire]
      cases n.kind <;> rfl
    · dsimp only
      rw [modifyGroup, modifyNode_eq_mapNodes]
      refine hfits.mapNodes (KeepsSlots.atNode ?_ host)
      refine ⟨⟨fun n => ?_, fun n => ?_, fun n => ?_⟩, fun n => ?_, fun n => ?_, fun n => ?_⟩ <;>
        cases hkind : n.kind <;> simp [hkind, Kind.isPrimitive]

/-! ## Editors -/

/-- The second editor is the first one with the reroute in its workflow. -/
structure Rerouted (d : Detour) (e t : Editor) : Prop where
  same : t = { e with graph := d.apply e.graph }
  fits : d.Fits e.graph

private theorem onGraph_rerouted {α : Type} {act : Act (Workflow × Outside) α}
    (hstraight : act.IsStraight) (h : act.Mirrors d.Beside) : (onGraph act).Mirrors d.Rerouted := by
  rintro e _ ⟨rfl, hfits⟩
  refine .focus hstraight hstraight (h _ _ ⟨rfl, hfits⟩) ?_
  rintro ⟨g, o⟩ _ ⟨rfl, hg⟩
  exact ⟨rfl, hg⟩

section Place

variable {place : Place} (hplace : place.host ≠ d.node.id)

include hplace

private theorem onPlace_rerouted {α : Type} {act : Act Bench α} (hstraight : act.IsStraight) :
    (onPlace place act).Mirrors d.Rerouted := by
  cases place with
  | outer id => exact onGraph_rerouted (hstraight.focus _ _) (onWidgets_beside hstraight hplace)
  | inner host id =>
    exact onGraph_rerouted ((hstraight.focus _ _).focus _ _)
      (onInner_beside (hstraight.focus _ _) hplace)

private theorem pushAt_rerouted : (pushAt place).Mirrors d.Rerouted := by
  cases place with
  | outer id => exact onGraph_rerouted (pushValue_isStraight id) (pushValue_beside hplace)
  | inner host id =>
    exact onGraph_rerouted ((pushValue_isStraight id).focus _ _)
      (onInner_beside (pushValue_isStraight id) hplace)

private theorem siteAt?_apply (g : Workflow) :
    siteAt? (d.apply g) place = (siteAt? g place).map d.carry := by
  cases place with
  | outer id =>
    rw [siteAt?_outer, siteAt?_outer, d.at?_apply_of_ne (show id ≠ d.node.id from hplace),
      Option.map_map, Option.map_map]
    rfl
  | inner host id =>
    simp only [siteAt?, d.at?_apply_of_ne (show host ≠ d.node.id from hplace)]
    cases Graph.at? g host with
    | none => rfl
    | some n =>
      simp only [Option.map_some, Option.bind_eq_bind, Option.bind_some, group?_rewire]
      cases n.group? with
      | none => rfl
      | some x =>
        simp only [Option.bind_some]
        cases x.graph.at? id <;> rfl

private theorem runBefore_rerouted : (runBefore place).Mirrors d.Rerouted := by
  rintro e _ ⟨rfl, hfits⟩
  have hwidgets : Editor.widgetsAt { e with graph := d.apply e.graph } place = e.widgetsAt place := by
    rw [Editor.widgetsAt, Editor.widgetsAt, siteAt?_apply hplace, Option.map_map]
    exact congrArg (fun f => ((siteAt? e.graph place).map f).getD []) (funext d.widgets_carry)
  refine .bind_get ?_
  rw [hwidgets]
  refine Act.Mirrors.each (fun i => ?_) _ _ ⟨rfl, hfits⟩
  split
  · exact onPlace_rerouted hplace (QueueHook.run_isStraight _ _ _)
  · exact .pure _

end Place

/-! ## Turns -/

private theorem innerSites?_rewire (n : Node Group) :
    innerSites? (d.rewire n) = (innerSites? n).map (Option.map (List.map d.carry)) := by
  rw [innerSites?, innerSites?, group?_rewire]
  cases n.group? with
  | none => rfl
  | some x =>
    simp only
    cases x.graph.planned with
    | error f => rfl
    | ok nodes =>
      simp only [bind, Except.bind, pure, Except.pure, Except.map, Option.map_some, List.map_map]
      rfl

private theorem hookPlaces_rewire (n : Node Group) : hookPlaces (d.rewire n) = hookPlaces n := by
  have hmap : ∀ ss : List Site, (ss.map d.carry).map (·.place) = ss.map (·.place) := by
    intro ss
    simp only [List.map_map, Function.comp_def, place_carry]
  rw [hookPlaces, hookPlaces, hookSites, hookSites, innerSites?_rewire]
  cases innerSites? n with
  | error f => rfl
  | ok inner =>
    cases inner with
    | none => exact congrArg Except.ok (hmap [.outer n])
    | some ss => exact congrArg Except.ok (hmap (.outer n :: ss))

private theorem pushPlaces_rewire (n : Node Group) : (d.rewire n).pushPlaces = n.pushPlaces := by
  have hfilter : ∀ ss : List Site, ((ss.map d.carry).filter (·.isVirtual)).map (·.place) =
      (ss.filter (·.isVirtual)).map (·.place) := by
    intro ss
    simp only [List.filter_map, List.map_map, Function.comp_def, place_carry, isVirtual_carry]
  rw [Node.pushPlaces, Node.pushPlaces, innerSites?_rewire]
  cases innerSites? n with
  | error f => rfl
  | ok inner =>
    cases inner with
    | none => exact congrArg Except.ok (hfilter [.outer n])
    | some ss => exact congrArg Except.ok (hfilter ss)

/-- The work of a node, place by place. -/
theorem work_eq (n : Node Group) : work n = (do
    let hooked ← Act.lift (hookPlaces n)
    Act.each hooked runBefore
    let pushing ← Act.lift n.pushPlaces
    Act.each pushing pushAt) := by
  rw [work, hookPlaces, Node.pushPlaces, hookSites]
  cases innerSites? n with
  | error f => rfl
  | ok inner =>
    have hhooks := Act.each_map Site.place runBefore (.outer n :: inner.getD [])
    have hpushes := Act.each_map Site.place pushAt ((inner.getD [.outer n]).filter (·.isVirtual))
    have hplaces : (Act.each ((Site.outer n :: inner.getD []).map Site.place) runBefore >>= fun _ =>
        Act.each (((inner.getD [.outer n]).filter (·.isVirtual)).map Site.place) pushAt) =
      (Act.each (.outer n :: inner.getD []) (fun s => runBefore s.place) >>= fun _ =>
        Act.each ((inner.getD [.outer n]).filter (·.isVirtual)) fun s => pushAt s.place) := by
      rw [hhooks, hpushes]
    exact hplaces.symm

private theorem work_rerouted {n : Node Group} (hn : n.id ≠ d.node.id) :
    (work n).Mirrors d.Rerouted := by
  rw [work_eq]
  refine .bind_lift fun hooked hhooked => .bind (.each_of_mem fun q hq => runBefore_rerouted ?_)
    fun _ => .bind_lift fun pushing hpushing => .each_of_mem fun q hq => pushAt_rerouted ?_
  · rw [host_of_mem_hookPlaces hhooked hq]
    exact hn
  · rcases pushPlaces_cases hpushing with ⟨-, hsub⟩ | ⟨x, order, -, -, hsub⟩
    · rw [List.mem_singleton.1 (hsub.subset hq)]
      exact hn
    · rcases List.mem_map.1 (hsub.subset hq) with ⟨m, -, rfl⟩
      exact hn

/-- The turn of the reroute does nothing. -/
theorem exec_prepareNode_node {t : Editor} (ht : Graph.at? t.graph d.node.id = some d.node) :
    (prepareNode d.node.id).exec t = (.ok ⟨⟩, t) := by
  have hgroup : d.node.group? = none := by rw [Node.group?, d.reroute]
  have hinner : innerSites? d.node = .ok none := by rw [innerSites?, hgroup]
  have hhooks : (runBefore (.outer d.node.id)).exec t = (.ok ⟨⟩, t) := by
    have hwidgets : t.widgetsAt (.outer d.node.id) = [] := by
      rw [Editor.widgetsAt, siteAt?_outer, ht]
      exact d.bare
    rw [runBefore, Act.exec_bind, Act.exec_get]
    dsimp only
    rw [hwidgets]
    rfl
  have hpush : (pushAt (.outer d.node.id)).exec t = (.ok ⟨⟩, t) := by
    have hnothing : (pushValue d.node.id : Act (Workflow × Outside) PUnit).exec (t.graph, t.outside) =
        (.ok ⟨⟩, (t.graph, t.outside)) := by
      rw [pushValue, Act.exec_bind, Act.exec_get]
      simp only [ht, d.reroute]
      rfl
    have hexec : (pushAt (.outer d.node.id)).exec t = _ := exec_onGraph (pushValue d.node.id) t
    rw [hexec, hnothing]
  have hhooked : hookPlaces d.node = .ok [.outer d.node.id] := by
    rw [hookPlaces, hookSites, hinner]
    rfl
  have hpushing : d.node.pushPlaces = .ok [.outer d.node.id] := by
    rw [Node.pushPlaces, hinner]
    simp only [bind, Except.bind, Option.getD_none, List.filter_cons_of_pos d.isVirtual_node]
    rfl
  have hwork : (prepareNode d.node.id).exec t = (work d.node).exec t := by
    rw [prepareNode, Act.exec_bind, Act.exec_get]
    simp only [ht]
    rfl
  have hsingle : ∀ {act : Place → EditorAct PUnit}, (act (.outer d.node.id)).exec t = (.ok ⟨⟩, t) →
      (Act.each [.outer d.node.id] act).exec t = (.ok ⟨⟩, t) :=
    fun hact => Act.exec_bind_eq_ok_iff.2 ⟨⟨⟩, t, hact, rfl⟩
  rw [hwork, work_eq, hhooked, hpushing]
  refine Act.exec_bind_eq_ok_iff.2
    ⟨_, t, rfl, Act.exec_bind_eq_ok_iff.2 ⟨⟨⟩, t, hsingle hhooks, ?_⟩⟩
  exact Act.exec_bind_eq_ok_iff.2 ⟨_, t, rfl, hsingle hpush⟩

private theorem prepareNode_rerouted (id : NodeId) : (prepareNode id).Mirrors d.Rerouted := by
  rintro e _ ⟨rfl, hfits⟩
  have h : d.Rerouted e { e with graph := d.apply e.graph } := ⟨rfl, hfits⟩
  by_cases hid : id = d.node.id
  · rw [hid, Act.Matches, exec_prepareNode_of_none hfits.fresh,
      exec_prepareNode_node hfits.at?_apply_node]
    exact ⟨rfl, h⟩
  · refine .bind_get ?_
    dsimp only
    rw [d.at?_apply_of_ne hid]
    cases hn : Graph.at? e.graph id with
    | none => exact .pure _ h
    | some n =>
      have hmatches : (work n).Matches d.Rerouted (work (d.rewire n)) e
          { e with graph := d.apply e.graph } := by
        rw [work_eq (d.rewire n), hookPlaces_rewire, pushPlaces_rewire, ← work_eq]
        exact work_rerouted (Graph.id_of_at? hn ▸ hid) e _ h
      exact hmatches

/-- Preparations in the same order do the same with the reroute and without it. -/
theorem prepare_rerouted (order : List NodeId) : (prepare order).Mirrors d.Rerouted :=
  .each prepareNode_rerouted

end Detour

end NodeFlow
