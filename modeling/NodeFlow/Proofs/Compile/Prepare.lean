import NodeFlow.Proofs.Compile.Push

/-!
# Preparations as copies

Without hooks that run before a submission, a preparation is a row of copies from widgets of
primitives to their targets.  Which copies these are is fixed by the skeleton of the workflow, and
so is whether the preparation comes to its end.

Main results:

- Definition `Workflow.copies`: the copies that a preparation makes.
- Definition `Editor.Makes`: an action that makes copies on all workflows of one skeleton.
- Theorem `Editor.prepare_makes`: a preparation does.
-/

namespace NodeFlow

/-! ## What is copied -/

/-- The places whose nodes may push their values, in order. -/
def Node.pushPlaces (n : Node Group) : Except Fault (List Place) := do
  let inner ← Workflow.innerSites? n
  pure (((inner.getD [.outer n]).filter (·.isVirtual)).map (·.place))

namespace Workflow

/-- A widget of the workflow itself. -/
def outerCell (c : NodeId × Nat) : Cell := (.outer c.1, c.2)

/-- A widget inside a group. -/
def innerCell (host : NodeId) (c : NodeId × Nat) : Cell := (.inner host c.1, c.2)

/-- Places of outer widgets are told apart by the widgets. -/
theorem outerCell_injective : Function.Injective outerCell := by
  rintro ⟨id, i⟩ ⟨id', i'⟩ h
  cases h
  rfl

/-- Places of widgets inside one group are told apart by the widgets. -/
theorem innerCell_injective (host : NodeId) : Function.Injective (innerCell host) := by
  rintro ⟨id, i⟩ ⟨id', i'⟩ h
  cases h
  rfl

/-- What the node at a place copies. -/
def copiesAt (g : Workflow) : Place → Except Fault (List (Copy Cell))
  | .outer id => (Graph.copiesOf g id).map (List.map (Copy.map outerCell))
  | .inner host id => ((innerGraph g host).copiesOf id).map (List.map (Copy.map (innerCell host)))

/-- The copies of several items, one after the other. -/
def allCopies {β : Type} (copies : β → Except Fault (List (Copy Cell))) :
    List β → Except Fault (List (Copy Cell))
  | [] => .ok []
  | x :: xs => do
    let cs ← copies x
    let rest ← allCopies copies xs
    pure (cs ++ rest)

/-- What is copied when the turn of a node comes. -/
def copiesFor (g : Workflow) (id : NodeId) : Except Fault (List (Copy Cell)) :=
  match g.at? id with
  | none => .ok []
  | some n => do
    let places ← n.pushPlaces
    allCopies (copiesAt g) places

/-- What is copied by a preparation. -/
def copies (g : Workflow) (order : List NodeId) : Except Fault (List (Copy Cell)) :=
  allCopies (copiesFor g) order

private theorem allCopies_nothing {β : Type} (xs : List β) :
    allCopies (fun _ => .ok []) xs = .ok [] := by
  induction xs with
  | nil => rfl
  | cons x xs ih =>
    rw [allCopies, ih]
    rfl

/-- The copies of changed items are the copies of the items. -/
theorem allCopies_map {β β' : Type} (copies : β' → Except Fault (List (Copy Cell))) (f : β → β')
    (xs : List β) : allCopies copies (xs.map f) = allCopies (fun x => copies (f x)) xs := by
  induction xs with
  | nil => rfl
  | cons x xs ih => rw [List.map_cons, allCopies, allCopies, ih]

variable {g g' : Workflow}

/-! ## What it depends on -/

/-- The skeleton has the skeletons of nodes under their ids. -/
theorem at?_skeleton (g : Workflow) (id : NodeId) :
    Graph.at? (skeleton g) id = (Graph.at? g id).map fun n => n.bare.hollow := by
  rw [skeleton, Graph.at?_mapNodes Node.isNeutral_hollow, Graph.at?_mapNodes Node.isNeutral_bare,
    Option.map_map]
  rfl

/-- The skeleton looks up the skeletons of nodes. -/
theorem lookup?_skeleton (g : Workflow) (v : Json) :
    Graph.lookup? (skeleton g) v = (Graph.lookup? g v).map (Option.map fun n => n.bare.hollow) := by
  rw [skeleton, Graph.lookup?_mapNodes Node.isNeutral_hollow,
    Graph.lookup?_mapNodes Node.isNeutral_bare]
  cases Graph.lookup? g v with
  | error f => rfl
  | ok found => cases found <;> rfl

/-- The graph inside a skeleton is the one inside the group without values. -/
theorem innerGraph_skeleton (g : Workflow) (host : NodeId) :
    innerGraph (skeleton g) host = (innerGraph g host).mapNodes Node.bare := by
  rw [innerGraph, innerGraph, at?_skeleton]
  cases g.at? host with
  | none => rfl
  | some n =>
    have hgroup : n.bare.hollow.group? = n.group?.map Group.bare := Node.group?_hollow n.bare
    simp only [Option.map_some, Option.bind_some, hgroup]
    cases n.group? <;> rfl

private theorem copiesAt_skeleton (g : Workflow) (place : Place) :
    copiesAt (skeleton g) place = copiesAt g place := by
  cases place with
  | outer id =>
    have hsame : Graph.copiesOf (skeleton g) id = Graph.copiesOf g id := by
      rw [skeleton, Graph.copiesOf_mapNodes Graph.isNominal_hollow,
        Graph.copiesOf_mapNodes Graph.isNominal_bare]
    rw [copiesAt, copiesAt, hsame]
  | inner host id =>
    rw [copiesAt, copiesAt, innerGraph_skeleton, Graph.copiesOf_mapNodes Graph.isNominal_bare]

/-- The places that a node pushes to do not depend on values. -/
theorem pushPlaces_hollow (n : Node Group) : n.bare.hollow.pushPlaces = n.pushPlaces := by
  have hfilter : ∀ sites : List Site, ((sites.map Site.bare).filter (·.isVirtual)).map (·.place) =
      (sites.filter (·.isVirtual)).map (·.place) := by
    intro sites
    simp only [List.filter_map, List.map_map, Function.comp_def, Site.place_bare,
      Site.isVirtual_bare]
  rw [Node.pushPlaces, Node.pushPlaces, innerSites?_hollow]
  cases innerSites? n with
  | error f => rfl
  | ok inner =>
    cases inner with
    | none => exact congrArg Except.ok (hfilter [.outer n])
    | some sites => exact congrArg Except.ok (hfilter sites)

private theorem copiesAt_of_skeleton_eq (h : skeleton g' = skeleton g) (place : Place) :
    copiesAt g' place = copiesAt g place := by
  rw [← copiesAt_skeleton, h, copiesAt_skeleton]

/-! ## The graph inside a group -/

/-- A new graph inside a group changes the node of the group only. -/
theorem at?_modifyGroup (host : NodeId) (inner : Subgraph) (g : Workflow) (id : NodeId) :
    Graph.at? (modifyGroup host (fun _ => inner) g) id = (Graph.at? g id).map fun n =>
      if n.id = host then
        match n.kind with
        | .group group => { n with kind := .group { group with graph := inner } }
        | _ => n
      else n := by
  rw [modifyGroup, Graph.modifyNode_eq_mapNodes]
  refine Graph.at?_mapNodes ⟨fun n => ?_, fun n => ?_, fun n => ?_⟩ g id <;>
  · split
    · split <;> rfl
    · rfl

/-- A new graph inside a group changes no value outside. -/
theorem outer_valueAt_modifyGroup (host : NodeId) (inner : Subgraph) (g : Workflow) :
    Graph.valueAt (modifyGroup host (fun _ => inner) g) = Graph.valueAt g := by
  funext c
  rw [Graph.valueAt_eq, Graph.valueAt_eq, at?_modifyGroup]
  cases g.at? c.1 with
  | none => rfl
  | some n =>
    simp only [Option.map_some, Option.bind_some]
    split
    · split <;> rfl
    · rfl

/-- A new graph inside a group changes no other group. -/
theorem innerGraph_modifyGroup_of_ne {host other : NodeId} (hne : other ≠ host) (inner : Subgraph)
    (g : Workflow) : innerGraph (modifyGroup host (fun _ => inner) g) other = innerGraph g other := by
  rw [innerGraph, innerGraph, at?_modifyGroup]
  cases hn : g.at? other with
  | none => rfl
  | some n =>
    have hid : n.id ≠ host := Graph.id_of_at? hn ▸ hne
    simp [hid]

/-- What is put inside a group is there; where there is no group, there is nothing to put. -/
theorem innerGraph_modifyGroup {host : NodeId} {inner : Subgraph} {g : Workflow}
    (hshape : inner.mapNodes Node.bare = (innerGraph g host).mapNodes Node.bare) :
    innerGraph (modifyGroup host (fun _ => inner) g) host = inner := by
  have hempty : innerGraph g host = {} → inner = {} := by
    intro hnone
    rw [hnone] at hshape
    have hnodes : inner.nodes = [] := by
      have hmap : inner.nodes.map Node.bare = [] := congrArg (·.nodes) hshape
      exact List.map_eq_nil_iff.1 hmap
    have hself : { inner.mapNodes Node.bare with nodes := inner.nodes } = inner := rfl
    rw [← hself, hshape, hnodes]
    rfl
  cases hn : g.at? host with
  | none =>
    have hnone : innerGraph g host = {} := by simp [innerGraph, hn]
    rw [hempty hnone, innerGraph, at?_modifyGroup, hn]
    rfl
  | some n =>
    have hid := Graph.id_of_at? hn
    cases hkind : n.kind with
    | group group => simp [innerGraph, at?_modifyGroup, hn, hid, hkind, Node.group?]
    | _ =>
      have hnone : innerGraph g host = {} := by simp [innerGraph, hn, Node.group?, hkind]
      rw [hempty hnone, innerGraph, at?_modifyGroup, hn]
      simp [hid, hkind, Node.group?]

end Workflow

section Values

variable {g g' : Workflow}

/-- What is inside groups does not depend on the widgets of the workflow itself. -/
theorem Workflow.innerGraph_of_shape
    (hshape : Graph.mapNodes Node.bare g' = Graph.mapNodes Node.bare g) (host : NodeId) :
    innerGraph g' host = innerGraph g host := by
  have hbare : ∀ h : Workflow, innerGraph (Graph.mapNodes Node.bare h) host = innerGraph h host := by
    intro h
    rw [innerGraph, innerGraph, Graph.at?_mapNodes Node.isNeutral_bare]
    cases h.at? host <;> rfl
  rw [← hbare g', hshape, hbare g]

/-- Copies among the widgets of the workflow itself. -/
theorem Workflow.valueAt_outerCopies
    (hshape : Graph.mapNodes Node.bare g' = Graph.mapNodes Node.bare g)
    {cs : List (Copy (NodeId × Nat))} (hvalues : Graph.valueAt g' = Copy.run cs (Graph.valueAt g)) :
    valueAt g' = Copy.run (cs.map (Copy.map outerCell)) (valueAt g) := by
  funext c
  rcases c with ⟨id | ⟨host, id⟩, i⟩
  · have hcell := Copy.run_map_apply outerCell_injective cs (valueAt g) (id, i)
    have hleft : valueAt g' (outerCell (id, i)) = Graph.valueAt g' (id, i) := rfl
    have hright : valueAt g ∘ outerCell = Graph.valueAt g := rfl
    rw [hright, ← hvalues, ← hleft] at hcell
    exact hcell.symm
  · have hne : ∀ c, outerCell c ≠ (.inner host id, i) := nofun
    rw [Copy.run_map_of_ne hne, valueAt, valueAt, innerGraph_of_shape hshape]

/-- Copies among the widgets inside a group. -/
theorem Workflow.valueAt_innerCopies {host : NodeId} {inner : Subgraph}
    (hshape : inner.mapNodes Node.bare = (innerGraph g host).mapNodes Node.bare)
    {cs : List (Copy (NodeId × Nat))}
    (hvalues : inner.valueAt = Copy.run cs (innerGraph g host).valueAt) :
    valueAt (modifyGroup host (fun _ => inner) g) =
      Copy.run (cs.map (Copy.map (innerCell host))) (valueAt g) := by
  funext c
  rcases c with ⟨id | ⟨other, id⟩, i⟩
  · have hne : ∀ c, innerCell host c ≠ (.outer id, i) := nofun
    rw [Copy.run_map_of_ne hne, valueAt, valueAt, outer_valueAt_modifyGroup]
  · by_cases hother : other = host
    · subst hother
      have hcell := Copy.run_map_apply (innerCell_injective other) cs (valueAt g) (id, i)
      have hright : valueAt g ∘ innerCell other = (innerGraph g other).valueAt := rfl
      rw [hright, ← hvalues] at hcell
      rw [valueAt, innerGraph_modifyGroup hshape]
      exact hcell.symm
    · have hne : ∀ c, innerCell host c ≠ (.inner other id, i) := by
        intro c hc
        cases hc
        exact hother rfl
      rw [Copy.run_map_of_ne hne, valueAt, valueAt, innerGraph_modifyGroup_of_ne hother]

end Values

/-! ## Actions that make copies -/

namespace Editor

open Workflow

/-- On every workflow with the skeleton of the given one, the action comes to this outcome and keeps
the skeleton.  If it succeeds, it has made the copies, and it has not reached the outside if no
widget has hooks. -/
def Makes (g : Workflow) (copies : Except Fault (List (Copy Cell))) (act : EditorAct PUnit) : Prop :=
  ∀ e : Editor, skeleton e.graph = skeleton g →
    ∃ g' o, act.exec e = (copies.map fun _ => (), { e with graph := g', outside := o }) ∧
      skeleton g' = skeleton g ∧
      (∀ cs, copies = .ok cs → valueAt g' = Copy.run cs (valueAt e.graph)) ∧
      (AllWidgets Widget.IsSilent g → o = e.outside)

variable {g : Workflow} {act act' : EditorAct PUnit} {cs cs' : Except Fault (List (Copy Cell))}

private theorem Makes.nothing
    (h : ∀ e : Editor, skeleton e.graph = skeleton g → act.exec e = (.ok (), e)) :
    Makes g (.ok []) act := by
  intro e he
  refine ⟨e.graph, e.outside, h e he, he, ?_, fun _ => rfl⟩
  intro cs hcs
  cases hcs
  rfl

private theorem Makes.fails {f : Fault}
    (h : ∀ e : Editor, skeleton e.graph = skeleton g → act.exec e = (.error f, e)) :
    Makes g (.error f) act := fun e he =>
  ⟨e.graph, e.outside, h e he, he, nofun, fun _ => rfl⟩

private theorem Makes.bind (h : Makes g cs act) (h' : Makes g cs' act') :
    Makes g (do let front ← cs; let back ← cs'; pure (front ++ back)) (act >>= fun _ => act') := by
  intro e he
  rcases h e he with ⟨g₁, o₁, hexec, hg₁, hvalues, ho₁⟩
  rw [Act.exec_bind, hexec]
  cases cs with
  | error f => exact ⟨g₁, o₁, rfl, hg₁, nofun, ho₁⟩
  | ok front =>
    rcases h' { e with graph := g₁, outside := o₁ } hg₁ with ⟨g₂, o₂, hexec', hg₂, hvalues', ho₂⟩
    refine ⟨g₂, o₂, ?_, hg₂, ?_, fun hsilent => (ho₂ hsilent).trans (ho₁ hsilent)⟩
    · simp only [Except.map, hexec']
      cases cs' <;> rfl
    · intro all hall
      cases cs' with
      | error f => cases hall
      | ok back =>
        cases hall
        rw [hvalues' back rfl, hvalues front rfl, Copy.run_append]

/-- Actions that make the copies of their items make those of all items. -/
theorem Makes.each {β : Type} {copies : β → Except Fault (List (Copy Cell))}
    {f : β → EditorAct PUnit} {xs : List β} (h : ∀ x ∈ xs, Makes g (copies x) (f x)) :
    Makes g (allCopies copies xs) (Act.each xs f) := by
  induction xs with
  | nil => exact .nothing fun _ _ => rfl
  | cons x xs ih =>
    exact (h x List.mem_cons_self).bind (ih fun y hy => h y (List.mem_cons_of_mem x hy))

/-! ## Preparations -/

/-- An action on the workflow and the outside leaves the rest of the editor. -/
theorem exec_onGraph {α : Type} (act : Act (Workflow × Outside) α) (e : Editor) :
    (onGraph act).exec e = ((act.exec (e.graph, e.outside)).1,
      { e with graph := (act.exec (e.graph, e.outside)).2.1
               outside := (act.exec (e.graph, e.outside)).2.2 }) := by
  rw [onGraph, Act.exec_focus]
  · intros
    rfl
  · intros
    rfl

/-- Pushing a value never waits. -/
theorem pushValue_isStraight {γ : Type} (id : NodeId) :
    (Graph.pushValue (γ := γ) id).IsStraight := by
  refine .bind .get fun s => ?_
  dsimp only
  split
  · exact .pure _
  · split
    · exact .bind (.lift _) fun _ => .each fun c => .focus (Widget.assign_isStraight _ _) _ _
    · exact .pure _

/-- The work of a node before a compilation, once the node has been found. -/
def work (n : Node Group) : EditorAct PUnit := do
  let sites ← Act.lift (hookSites n)
  Act.each sites fun s => runBefore s.place
  let inner ← Act.lift (innerSites? n)
  Act.each ((inner.getD [.outer n]).filter (·.isVirtual)) fun s => pushAt s.place

section Push

variable (hdistinct : Distinct g) (hsteady : AllWidgets Widget.TellsSteadily g)

include hdistinct hsteady

private theorem pushAt_outer_makes (id : NodeId) :
    Makes g (copiesAt g (.outer id)) (pushAt (.outer id)) := by
  intro e he
  have hdistinct' := distinct_of_skeleton_eq he hdistinct
  have hsteady' := allWidgets_of_skeleton_eq Widget.tellsSteadily_bare he hsteady
  rcases Graph.exec_pushValue hdistinct'.outer hsteady'.outer id e.outside with
    ⟨g', o, hexec, hshape, hvalues, hquiet⟩
  have hpush : (pushAt (.outer id)).exec e = _ := exec_onGraph (Graph.pushValue id) e
  rw [← copiesAt_of_skeleton_eq he, ← he, hpush, hexec, copiesAt]
  refine ⟨g', o, ?_, congrArg (Graph.mapNodes Node.hollow) hshape, ?_, ?_⟩
  · cases Graph.copiesOf e.graph id <;> rfl
  · intro cs hcs
    cases hcopies : Graph.copiesOf e.graph id with
    | error f =>
      rw [hcopies] at hcs
      cases hcs
    | ok ds =>
      rw [hcopies] at hcs
      cases hcs
      exact valueAt_outerCopies hshape (hvalues ds hcopies)
  · intro hsilent
    exact hquiet (allWidgets_of_skeleton_eq Widget.isSilent_bare he hsilent).outer

private theorem pushAt_inner_makes (host id : NodeId) :
    Makes g (copiesAt g (.inner host id)) (pushAt (.inner host id)) := by
  intro e he
  have hdistinct' := distinct_of_skeleton_eq he hdistinct
  have hsteady' := allWidgets_of_skeleton_eq Widget.tellsSteadily_bare he hsteady
  rcases Graph.exec_pushValue (hdistinct'.innerGraph host) (hsteady'.innerGraph host) id
    e.outside with
    ⟨inner, o, hexec, hshape, hvalues, hquiet⟩
  have hpush : (pushAt (.inner host id)).exec e = _ :=
    exec_onGraph (onInner host (Graph.pushValue id)) e
  have hinner : (onInner host (Graph.pushValue id)).exec (e.graph, e.outside) = _ :=
    (pushValue_isStraight id).exec_focus _ _ _
  rw [← copiesAt_of_skeleton_eq he, ← he, hpush, hinner, hexec, copiesAt]
  refine ⟨modifyGroup host (fun _ => inner) e.graph, o, ?_, skeleton_modifyGroup hdistinct' hshape,
    ?_, ?_⟩
  · cases (innerGraph e.graph host).copiesOf id <;> rfl
  · intro cs hcs
    cases hcopies : (innerGraph e.graph host).copiesOf id with
    | error f =>
      rw [hcopies] at hcs
      cases hcs
    | ok ds =>
      rw [hcopies] at hcs
      cases hcs
      exact valueAt_innerCopies hshape (hvalues ds hcopies)
  · intro hsilent
    exact hquiet ((allWidgets_of_skeleton_eq Widget.isSilent_bare he hsilent).innerGraph host)

/-- Pushing from a place makes the copies of this place. -/
theorem pushAt_makes (place : Place) : Makes g (copiesAt g place) (pushAt place) := by
  cases place with
  | outer id => exact pushAt_outer_makes hdistinct hsteady id
  | inner host id => exact pushAt_inner_makes hdistinct hsteady host id

end Push

/-- The hook of the widget at a position, if it has one that runs before a submission. -/
def beforeStep (place : Place) (ws : List Widget) (i : Nat) : EditorAct PUnit :=
  match (ws[i]?).bind (·.beforeQueued) with
  | some h => onPlace place (h.run "before_queued" i)
  | none => pure ⟨⟩

/-- Without a hook a widget is left alone before its node is sent. -/
theorem beforeStep_of_none {ws : List Widget} {i : Nat}
    (h : (ws[i]?).bind (·.beforeQueued) = none) (place : Place) :
    beforeStep place ws i = pure ⟨⟩ := by rw [beforeStep, h]

/-- A hook runs on its widget before the node is sent. -/
theorem beforeStep_of_some {ws : List Widget} {i : Nat} {h : QueueHook}
    (hh : (ws[i]?).bind (·.beforeQueued) = some h) (place : Place) :
    beforeStep place ws i = onPlace place (h.run "before_queued" i) := by rw [beforeStep, hh]

/-- The hooks of a place run one by one. -/
theorem exec_runBefore (place : Place) (e : Editor) :
    (runBefore place).exec e = (Act.each (List.range (e.widgetsAt place).length)
      (beforeStep place (e.widgetsAt place))).exec e := by
  rw [runBefore, Act.exec_bind, Act.exec_get]
  rfl

section Prepare

variable (hdistinct : Distinct g) (hsteady : AllWidgets Widget.IsSteady g)

include hdistinct hsteady

omit hdistinct in
/-- Where no hook runs before a submission, running these hooks does nothing. -/
theorem runBefore_makes (place : Place) : Makes g (.ok []) (runBefore place) := by
  refine .nothing fun e he => ?_
  have hsteady' := allWidgets_of_skeleton_eq Widget.isSteady_bare he hsteady
  have hnone : ∀ i : Nat, ((e.widgetsAt place)[i]?).bind (·.beforeQueued) = none := by
    intro i
    cases hw : (e.widgetsAt place)[i]? with
    | none => rfl
    | some w => exact (hsteady'.widgetsAt place w (List.mem_of_getElem? hw)).beforeQueued
  have heach : ∀ is : List Nat,
      (Act.each is (beforeStep place (e.widgetsAt place))).exec e = (.ok (), e) := by
    intro is
    induction is with
    | nil => rfl
    | cons i is ih =>
      rw [Act.each, Act.exec_bind, beforeStep_of_none (hnone i)]
      exact ih
  rw [exec_runBefore]
  exact heach _

private theorem work_makes (n : Node Group) :
    Makes g (do let places ← n.pushPlaces; allCopies (copiesAt g) places) (work n) := by
  cases hinner : innerSites? n with
  | error f =>
    rw [Node.pushPlaces, hinner]
    refine .fails fun e _ => ?_
    rw [work, hookSites, hinner]
    rfl
  | ok inner =>
    let pushing := (inner.getD [.outer n]).filter (·.isVirtual)
    have hplaces : n.pushPlaces = .ok (pushing.map (·.place)) := by
      rw [Node.pushPlaces, hinner]
      rfl
    have hhooks : Makes g (allCopies (fun _ => .ok []) (.outer n :: inner.getD []))
        (Act.each (.outer n :: inner.getD []) fun s => runBefore s.place) :=
      .each fun s _ => runBefore_makes hsteady s.place
    have hpushes : Makes g (allCopies (fun s => copiesAt g s.place) pushing)
        (Act.each pushing fun s => pushAt s.place) :=
      .each fun s _ => pushAt_makes hdistinct (hsteady.imp fun _ hw => hw.callback) s.place
    have hboth := hhooks.bind hpushes
    rw [allCopies_nothing, ← allCopies_map (copiesAt g) Site.place] at hboth
    have hcopies : (do let places ← n.pushPlaces; allCopies (copiesAt g) places) =
        (do let front ← .ok []; let back ← allCopies (copiesAt g) (pushing.map (·.place))
            pure (front ++ back)) := by
      rw [hplaces]
      simp only [bind, Except.bind, pure, Except.pure, List.nil_append]
      cases allCopies (copiesAt g) (pushing.map (·.place)) <;> rfl
    rw [hcopies]
    intro e he
    have hexec : (work n).exec e = (Act.each (.outer n :: inner.getD []) (fun s => runBefore s.place)
        >>= fun _ => Act.each pushing fun s => pushAt s.place).exec e := by
      rw [work, hookSites, hinner]
      rfl
    rw [hexec]
    exact hboth e he

/-- When its turn comes, a node makes its copies. -/
theorem prepareNode_makes (id : NodeId) : Makes g (copiesFor g id) (prepareNode id) := by
  have hfound : ∀ {e : Editor}, skeleton e.graph = skeleton g →
      (e.graph.at? id).map (fun n => n.bare.hollow) = (Graph.at? g id).map fun n => n.bare.hollow := by
    intro e he
    rw [← at?_skeleton, he, at?_skeleton]
  rw [copiesFor]
  cases hm : g.at? id with
  | none =>
    refine .nothing fun e he => ?_
    have hn := hfound he
    rw [hm, Option.map_none, Option.map_eq_none_iff] at hn
    rw [prepareNode, Act.exec_bind, Act.exec_get]
    simp only [hn]
    rfl
  | some m =>
    intro e he
    have hn := hfound he
    rw [hm] at hn
    rcases Option.map_eq_some_iff.1 hn with ⟨n, hn, hsame⟩
    have hplaces : m.pushPlaces = n.pushPlaces := by
      rw [← pushPlaces_hollow n, hsame, pushPlaces_hollow m]
    have hexec : (prepareNode id).exec e = (work n).exec e := by
      rw [prepareNode, Act.exec_bind, Act.exec_get]
      simp only [hn]
      rfl
    simp only [hplaces, hexec]
    exact work_makes hdistinct hsteady n e he

/-- A preparation makes its copies. -/
theorem prepare_makes (order : List NodeId) : Makes g (copies g order) (prepare order) :=
  .each fun id _ => prepareNode_makes hdistinct hsteady id

end Prepare

end Editor

end NodeFlow
