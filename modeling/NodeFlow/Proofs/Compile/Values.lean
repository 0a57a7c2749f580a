import NodeFlow.Proofs.Compile.Skeleton

/-!
# The values of a workflow

A workflow is its skeleton together with the values of its widgets.  A widget is named by the place
of its node and its position there.

Main results:

- Definitions `Graph.valueAt` and `Workflow.valueAt`: the value under such a name.
- Theorem `Workflow.eq_of_valueAt`: workflows of one skeleton and the same values are equal.
- Theorems `Workflow.siteAt?_place` and `Workflow.valueAt_place`: sites and their values by place.
- Definition `Workflow.AllWidgets`, and theorem `Workflow.allWidgets_skeleton`: what holds of all
  widgets, whatever their values.
-/

namespace NodeFlow

/-! ## Widgets -/

/-- A widget is what it is without its value, with its value. -/
theorem Widget.eq_of_bare {w w' : Widget} (hbare : w'.bare = w.bare) (hvalue : w'.value = w.value) :
    w' = w := by
  have hself : ∀ u : Widget, u.bare.withValue u.value = u := fun _ => rfl
  rw [← hself w', hbare, hvalue, hself w]

/-- Lists with the same images are the same, if entries with the same image are at each position. -/
theorem eq_of_map_eq {α β : Type} {f : α → β} {xs ys : List α} (hmap : ys.map f = xs.map f)
    (heq : ∀ (i : Nat) x y, xs[i]? = some x → ys[i]? = some y → f y = f x → y = x) : ys = xs := by
  refine List.ext_getElem? fun i => ?_
  have hi : ys[i]?.map f = xs[i]?.map f := by rw [← List.getElem?_map, hmap, List.getElem?_map]
  cases hx : xs[i]? with
  | none => simpa [hx] using hi
  | some x =>
    rw [hx] at hi
    rcases Option.map_eq_some_iff.1 hi with ⟨y, hy, hsame⟩
    rw [hy, heq i x y hx hy hsame]

/-- Widgets are what they are without their values, with their values. -/
theorem Widget.list_eq_of_bare {ws ws' : List Widget} (hbare : ws'.map bare = ws.map bare)
    (hvalues : ∀ i : Nat, ws'[i]?.map (·.value) = ws[i]?.map (·.value)) : ws' = ws := by
  refine eq_of_map_eq hbare fun i w w' hw hw' hsame => eq_of_bare hsame ?_
  have hvalue := hvalues i
  rw [hw, hw'] at hvalue
  exact Option.some.inj hvalue

/-- A node is what it is without the values of its widgets, with its widgets. -/
theorem Node.eq_of_bare {γ : Type} {n n' : Node γ} (hbare : n'.bare = n.bare)
    (hwidgets : n'.widgets = n.widgets) : n' = n := by
  have hself : ∀ m : Node γ, { m.bare with widgets := m.widgets } = m := fun _ => rfl
  rw [← hself n', hbare, hwidgets, hself n]

/-! ## Graphs -/

namespace Graph

variable {γ : Type} {g g' : Graph γ}

/-- The value of the widget at a place. -/
def valueAt (g : Graph γ) (c : NodeId × Nat) : Option Json := (g.widgetAt? c).map (·.2.value)

/-- The widget at a place is one of the node of the id. -/
theorem widgetAt?_eq_some {c : NodeId × Nat} {n : Node γ} {w : Widget} :
    g.widgetAt? c = some (n, w) ↔ g.at? c.1 = some n ∧ n.widgets[c.2]? = some w := by
  rw [widgetAt?]
  cases g.at? c.1 with
  | none => simp
  | some m =>
    cases hw : m.widgets[c.2]? with
    | none =>
      simp only [Option.bind_eq_bind, Option.bind_some, hw, Option.bind_none, Option.some.injEq]
      constructor
      · exact fun h => nomatch h
      · rintro ⟨rfl, hn⟩
        rw [hw] at hn
        cases hn
    | some u =>
      simp only [Option.bind_eq_bind, Option.bind_some, hw, Option.some.injEq, Prod.mk.injEq, pure]
      constructor
      · rintro ⟨rfl, rfl⟩
        exact ⟨rfl, hw⟩
      · rintro ⟨rfl, hn⟩
        exact ⟨rfl, Option.some.inj (hw.symm.trans hn)⟩

/-- The value at a place is that of the widget of the node of the id. -/
theorem valueAt_eq (g : Graph γ) (c : NodeId × Nat) :
    g.valueAt c = (g.at? c.1).bind fun n => n.widgets[c.2]?.map (·.value) := by
  rw [valueAt, widgetAt?]
  cases g.at? c.1 with
  | none => rfl
  | some n => cases h : n.widgets[c.2]? <;> simp [h]

/-- The value at a place of a node is that of its widget. -/
theorem valueAt_of_mem (hids : (g.nodes.map (·.id)).Nodup) {n : Node γ} (hn : n ∈ g.nodes)
    (i : Nat) : g.valueAt (n.id, i) = n.widgets[i]?.map (·.value) := by
  rw [valueAt_eq, at?_of_mem hids hn]
  rfl

/-- Nodes of graphs of one shape have the same ids. -/
theorem ids_of_shape (hshape : g'.mapNodes Node.bare = g.mapNodes Node.bare) :
    g'.nodes.map (·.id) = g.nodes.map (·.id) := by
  rw [← ids_mapNodes Node.isNeutral_bare, hshape, ids_mapNodes Node.isNeutral_bare]

/-- The widgets of two nodes at the same position of two graphs agree if their values do. -/
theorem widgets_eq_of_valueAt (hids : (g.nodes.map (·.id)).Nodup)
    (hids' : (g'.nodes.map (·.id)).Nodup) (hvalues : g'.valueAt = g.valueAt) {n n' : Node γ}
    (hn : n ∈ g.nodes) (hn' : n' ∈ g'.nodes) (hid : n'.id = n.id)
    (hbare : n'.widgets.map Widget.bare = n.widgets.map Widget.bare) : n'.widgets = n.widgets := by
  refine Widget.list_eq_of_bare hbare fun i => ?_
  rw [← valueAt_of_mem hids' hn', ← valueAt_of_mem hids hn, hvalues, hid]

/-- Graphs of one shape and the same values are equal. -/
theorem eq_of_valueAt (hids : (g.nodes.map (·.id)).Nodup)
    (hshape : g'.mapNodes Node.bare = g.mapNodes Node.bare) (hvalues : g'.valueAt = g.valueAt) :
    g' = g := by
  have hids' : (g'.nodes.map (·.id)).Nodup := by
    rw [ids_of_shape hshape]
    exact hids
  have hbare : g'.nodes.map Node.bare = g.nodes.map Node.bare := congrArg (·.nodes) hshape
  have hnodes : g'.nodes = g.nodes := eq_of_map_eq hbare fun i n n' hn hn' hsame =>
    Node.eq_of_bare hsame <| widgets_eq_of_valueAt hids hids' hvalues (List.mem_of_getElem? hn)
      (List.mem_of_getElem? hn') (congrArg (·.id) hsame) (congrArg (·.widgets) hsame)
  have hself : ∀ h : Graph γ, { h.mapNodes Node.bare with nodes := h.nodes } = h := fun _ => rfl
  rw [← hself g', hshape, hnodes, hself g]

end Graph

/-! ## Workflows -/

/-- A node is fixed by its skeleton, by its widgets and by the graph inside it. -/
theorem Node.eq_of_hollow {n n' : Node Group} (hbare : n'.bare.hollow = n.bare.hollow)
    (hwidgets : n'.widgets = n.widgets)
    (hinside : ∀ x x', n.group? = some x → n'.group? = some x' → x'.graph = x.graph) : n' = n := by
  have hkind : n'.kind.hollow = n.kind.hollow := congrArg (·.kind) hbare
  have hsame : n'.kind = n.kind := by
    cases hk : n.kind with
    | group x =>
      cases hk' : n'.kind with
      | group x' =>
        rw [hk, hk'] at hkind
        have hgroup : x'.bare = x.bare := Kind.group.inj hkind
        have hgraph := hinside x x' (by rw [Node.group?, hk]) (by rw [Node.group?, hk'])
        have hself : ∀ y : Group, { y.bare with graph := y.graph } = y := fun _ => rfl
        rw [← hself x', hgroup, hgraph, hself x]
      | _ =>
        rw [hk, hk'] at hkind
        cases hkind
    | _ =>
      cases hk' : n'.kind <;> rw [hk, hk'] at hkind <;> cases hkind <;> rfl
  have hself : ∀ m : Node Group, { m.bare.hollow with widgets := m.widgets, kind := m.kind } = m :=
    fun _ => rfl
  rw [← hself n', hbare, hwidgets, hsame, hself n]

private theorem Group.bare_eq_of_hollow {n n' : Node Group} (h : n'.bare.hollow = n.bare.hollow)
    {x x' : Group}
    (hgroup : n.group? = some x) (hgroup' : n'.group? = some x') : x'.bare = x.bare := by
  have hgroups : n'.bare.hollow.group? = n.bare.hollow.group? := congrArg Node.group? h
  rw [Node.group?_hollow, Node.group?_hollow] at hgroups
  have hbare : some x'.bare = some x.bare :=
    (congrArg (·.map Group.bare) hgroup').symm.trans
      (hgroups.trans (congrArg (·.map Group.bare) hgroup))
  exact Option.some.inj hbare

namespace Workflow

/-- A widget of a workflow: the place of its node and its position there. -/
abbrev Cell := Place × Nat

/-- The value of the widget of a name. -/
def valueAt (g : Workflow) : Cell → Option Json
  | (.outer id, i) => Graph.valueAt g (id, i)
  | (.inner host id, i) => (innerGraph g host).valueAt (id, i)

variable {g g' : Workflow}

/-- The graph inside a group is found by the id of the group. -/
theorem innerGraph_of_at? {host : NodeId} {n : Node Group} (hn : Graph.at? g host = some n)
    {group : Group} (hgroup : n.group? = some group) : innerGraph g host = group.graph := by
  simp [innerGraph, hn, hgroup]

/-- The graph inside a group of the workflow is found by its id. -/
theorem innerGraph_of_mem (hids : (g.nodes.map (·.id)).Nodup) {n : Node Group} (hn : n ∈ g.nodes)
    {group : Group} (hgroup : n.group? = some group) : innerGraph g n.id = group.graph :=
  innerGraph_of_at? (Graph.at?_of_mem hids hn) hgroup

/-- Workflows of one skeleton and the same values are equal. -/
theorem eq_of_valueAt (hdistinct : Distinct g) (hskeleton : skeleton g' = skeleton g)
    (hvalues : valueAt g' = valueAt g) : g' = g := by
  have hdistinct' := distinct_of_skeleton_eq hskeleton hdistinct
  have houter : Graph.valueAt g' = Graph.valueAt g := by
    funext c
    exact congrFun hvalues (.outer c.1, c.2)
  have hinner : ∀ host, (innerGraph g' host).valueAt = (innerGraph g host).valueAt := by
    intro host
    funext c
    exact congrFun hvalues (.inner host c.1, c.2)
  have hshape : g'.nodes.map (fun n => n.bare.hollow) = g.nodes.map fun n => n.bare.hollow := by
    have hnodes : (g'.nodes.map Node.bare).map Node.hollow =
        (g.nodes.map Node.bare).map Node.hollow := congrArg (·.nodes) hskeleton
    rwa [List.map_map, List.map_map] at hnodes
  have hnodes : g'.nodes = g.nodes := by
    refine eq_of_map_eq hshape fun i n n' hn hn' hsame => ?_
    have hmem := List.mem_of_getElem? hn
    have hmem' := List.mem_of_getElem? hn'
    have hid : n'.id = n.id := congrArg (·.id) hsame
    have hwidgets := Graph.widgets_eq_of_valueAt hdistinct.outer hdistinct'.outer houter hmem
      hmem' hid (congrArg (·.widgets) hsame)
    refine Node.eq_of_hollow hsame hwidgets fun x x' hgroup hgroup' => ?_
    have hgraphs := hinner n.id
    rw [innerGraph_of_mem hdistinct.outer hmem hgroup, ← hid,
      innerGraph_of_mem hdistinct'.outer hmem' hgroup'] at hgraphs
    exact Graph.eq_of_valueAt (hdistinct.inner n hmem x hgroup)
      (congrArg (·.graph) (Group.bare_eq_of_hollow hsame hgroup hgroup')) hgraphs
  have hself : ∀ h : Workflow, { skeleton h with nodes := h.nodes } = h := fun _ => rfl
  rw [← hself g', hskeleton, hnodes, hself g]

/-! ## The places of sites -/

/-- The site at a place stands there. -/
theorem place_of_siteAt? {place : Place} {s : Site} (h : siteAt? g place = some s) :
    s.place = place := by
  cases place with
  | outer id =>
    rcases Option.map_eq_some_iff.1 h with ⟨n, hn, rfl⟩
    exact congrArg Place.outer (Graph.id_of_at? hn)
  | inner host id =>
    rcases Option.bind_eq_some_iff.1 h with ⟨n, hn, h⟩
    rcases Option.bind_eq_some_iff.1 h with ⟨x, -, h⟩
    rcases Option.bind_eq_some_iff.1 h with ⟨m, hm, h⟩
    cases h
    rw [Site.place, Graph.id_of_at? hn, Graph.id_of_at? hm]

/-- A site is found at its place. -/
theorem siteAt?_place (hdistinct : Distinct g) {s : Site} (hs : s ∈ sites g) :
    siteAt? g s.place = some s := by
  cases s with
  | outer n =>
    rw [Site.place, siteAt?_outer, Graph.at?_of_mem hdistinct.outer (mem_sites_outer.1 hs)]
    rfl
  | inner host x n =>
    rcases mem_sites_inner.1 hs with ⟨hhost, hgroup, hn⟩
    refine Option.bind_eq_some_iff.2 ⟨host, Graph.at?_of_mem hdistinct.outer hhost, ?_⟩
    refine Option.bind_eq_some_iff.2 ⟨x, hgroup, ?_⟩
    exact Option.bind_eq_some_iff.2 ⟨n, Graph.at?_of_mem (hdistinct.inner host hhost x hgroup) hn, rfl⟩

/-- The value at a place of a site is that of its widget. -/
theorem valueAt_place (hdistinct : Distinct g) {s : Site} (hs : s ∈ sites g) (i : Nat) :
    valueAt g (s.place, i) = (s.widgets[i]?).map (·.value) := by
  cases s with
  | outer n => exact Graph.valueAt_of_mem hdistinct.outer (mem_sites_outer.1 hs) i
  | inner host x n =>
    rcases mem_sites_inner.1 hs with ⟨hhost, hgroup, hn⟩
    rw [Site.place, valueAt, innerGraph_of_mem hdistinct.outer hhost hgroup]
    exact Graph.valueAt_of_mem (hdistinct.inner host hhost x hgroup) hn i

end Workflow

/-! ## All widgets -/

/-- Something holds of the widgets of all nodes. -/
def Graph.AllWidgets {γ : Type} (P : Widget → Prop) (g : Graph γ) : Prop :=
  ∀ n ∈ g.nodes, ∀ w ∈ n.widgets, P w

namespace Graph

variable {γ : Type} {P : Widget → Prop} {g : Graph γ}

/-- What holds of all widgets holds of those of a node. -/
theorem AllWidgets.widgets_at? (h : g.AllWidgets P) (id : NodeId) :
    ∀ w ∈ ((g.at? id).map (·.widgets)).getD [], P w := by
  cases hn : g.at? id with
  | none => simp
  | some n => exact h n (mem_of_at? hn)

/-- What holds of all widgets and of the new ones of a node holds of all then. -/
theorem AllWidgets.modifyNode (h : g.AllWidgets P) (id : NodeId) {ws : List Widget}
    (hws : ∀ w ∈ ws, P w) : (g.modifyNode id fun n => { n with widgets := ws }).AllWidgets P := by
  intro n hn
  rcases List.mem_map.1 hn with ⟨m, hm, rfl⟩
  split
  · exact hws
  · exact h m hm

end Graph

namespace Workflow

/-- Something holds of the widgets of all nodes, also inside groups. -/
structure AllWidgets (P : Widget → Prop) (g : Workflow) : Prop where
  outer : Graph.AllWidgets P g
  inner : ∀ n ∈ g.nodes, ∀ group, n.group? = some group → group.graph.AllWidgets P

variable {P : Widget → Prop} {g g' : Workflow}

/-- What follows for each widget follows for all. -/
theorem AllWidgets.imp {Q : Widget → Prop} (h : AllWidgets P g) (hPQ : ∀ w, P w → Q w) :
    AllWidgets Q g :=
  ⟨fun n hn w hw => hPQ w (h.outer n hn w hw), fun n hn group hgroup m hm w hw =>
    hPQ w (h.inner n hn group hgroup m hm w hw)⟩

/-- What does not depend on values holds of the widgets of a skeleton or of none. -/
theorem allWidgets_skeleton (hP : ∀ w : Widget, P w.bare ↔ P w) :
    AllWidgets P (skeleton g) ↔ AllWidgets P g := by
  have hbare : ∀ ws : List Widget, (∀ w ∈ ws.map Widget.bare, P w) ↔ ∀ w ∈ ws, P w := by
    intro ws
    simp [hP]
  have houter : Graph.AllWidgets P (skeleton g) ↔ Graph.AllWidgets P g := by
    constructor
    · intro h n hn
      exact (hbare n.widgets).1 (h n.bare.hollow (mem_skeleton_nodes.2 ⟨n, hn, rfl⟩))
    · intro h m hm
      rcases mem_skeleton_nodes.1 hm with ⟨n, hn, rfl⟩
      exact (hbare n.widgets).2 (h n hn)
  have hgroup : ∀ x : Group, x.bare.graph.AllWidgets P ↔ x.graph.AllWidgets P := by
    intro x
    simp only [Graph.AllWidgets, Group.bare, Graph.mapNodes, List.forall_mem_map]
    exact forall₂_congr fun n _ => hbare n.widgets
  have hinner := forall_group_skeleton (g := g) (P := fun x => x.graph.AllWidgets P) hgroup
  exact ⟨fun h => ⟨houter.1 h.outer, hinner.1 h.inner⟩,
    fun h => ⟨houter.2 h.outer, hinner.2 h.inner⟩⟩

/-- What does not depend on values holds of all widgets of workflows with one skeleton, or of
neither. -/
theorem allWidgets_of_skeleton_eq (hP : ∀ w : Widget, P w.bare ↔ P w)
    (h : skeleton g' = skeleton g) (hg : AllWidgets P g) : AllWidgets P g' :=
  (allWidgets_skeleton hP).1 (h ▸ (allWidgets_skeleton hP).2 hg)

/-- What holds of all widgets holds of those of a site. -/
theorem AllWidgets.of_mem_sites (h : AllWidgets P g) {s : Site} (hs : s ∈ sites g) :
    ∀ w ∈ s.widgets, P w := by
  cases s with
  | outer n => exact h.outer n (mem_sites_outer.1 hs)
  | inner host group n =>
    rcases mem_sites_inner.1 hs with ⟨hhost, hgroup, hn⟩
    exact h.inner host hhost group hgroup n hn

/-- What holds of all widgets holds of those at a place. -/
theorem AllWidgets.widgetsAt {e : Editor} (h : AllWidgets P e.graph) (place : Place) :
    ∀ w ∈ e.widgetsAt place, P w := by
  unfold Editor.widgetsAt
  cases hs : siteAt? e.graph place with
  | none => simp
  | some s => exact h.of_mem_sites (mem_sites_of_siteAt? hs)

/-- What holds of all widgets holds of those inside a group. -/
theorem AllWidgets.innerGraph (h : AllWidgets P g) (host : NodeId) :
    (innerGraph g host).AllWidgets P := by
  unfold Workflow.innerGraph
  cases hhost : g.at? host with
  | none => exact fun _ hn => nomatch hn
  | some n =>
    cases hgroup : n.group? with
    | none =>
      simp only [Option.bind_some, hgroup, Option.map_none, Option.getD_none]
      exact fun _ hn => nomatch hn
    | some group =>
      simp only [Option.bind_some, hgroup, Option.map_some, Option.getD_some]
      exact h.inner n (Graph.mem_of_at? hhost) group hgroup

/-- What holds of all widgets and of the new ones of a node holds of all then, groups included. -/
theorem AllWidgets.modifyNode (h : AllWidgets P g) (id : NodeId) {ws : List Widget}
    (hws : ∀ w ∈ ws, P w) :
    AllWidgets P (Graph.modifyNode id (fun n => { n with widgets := ws }) g) := by
  refine ⟨h.outer.modifyNode id hws, ?_⟩
  intro n hn group hgroup
  rcases List.mem_map.1 hn with ⟨m, hm, rfl⟩
  have hkeep : (if m.id = id then { m with widgets := ws } else m).group? = m.group? := by
    split <;> rfl
  rw [hkeep] at hgroup
  exact h.inner m hm group hgroup

/-- What holds of all widgets and of those in a new graph inside a group holds of all then. -/
theorem AllWidgets.modifyGroup (h : AllWidgets P g) (host : NodeId) {inner : Subgraph}
    (hinner : inner.AllWidgets P) : AllWidgets P (modifyGroup host (fun _ => inner) g) := by
  constructor
  · intro n hn
    rcases List.mem_map.1 hn with ⟨m, hm, rfl⟩
    split
    · dsimp only
      split
      · exact h.outer m hm
      · exact h.outer m hm
    · exact h.outer m hm
  · intro n hn group hgroup
    rcases List.mem_map.1 hn with ⟨m, hm, rfl⟩
    split at hgroup
    · dsimp only at hgroup
      split at hgroup
      · cases hgroup
        exact hinner
      · exact h.inner m hm group hgroup
    · exact h.inner m hm group hgroup

end Workflow

end NodeFlow
