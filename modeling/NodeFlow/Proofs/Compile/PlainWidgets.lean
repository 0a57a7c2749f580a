import NodeFlow.Proofs.Compile.Steps
import NodeFlow.Proofs.Compile.Values
import NodeFlow.Proofs.Drift

/-!
# Plain widgets

A widget is plain if it has no hooks that run before or during a submission and no value that looks
like a reference.  Preparing a workflow of plain widgets copies values from widget to widget, so the
widgets stay plain.

Main results:

- Definitions `Widget.IsPlain`, `Graph.IsPlain` and `Workflow.IsPlain`.
- Theorem `Editor.prepare_isPlain`: a preparation keeps widgets plain.
-/

namespace NodeFlow

/-- The widget has no hooks that run before or during a submission, and its value is no
reference. -/
structure Widget.IsPlain (w : Widget) : Prop where
  serializer : w.serializer = none
  beforeQueued : w.beforeQueued = none
  value : Reference.ofJson? w.value = none

/-- A plain widget sends its value. -/
theorem Widget.IsPlain.literal {w : Widget} (h : w.IsPlain) : w.literal = w.value := by
  simp [Widget.literal, h.serializer]

private theorem Widget.IsPlain.withValue {w : Widget} (h : w.IsPlain) {v : Json}
    (hv : Reference.ofJson? v = none) : (w.withValue v).IsPlain :=
  ⟨h.serializer, h.beforeQueued, hv⟩

/-- The widgets of all nodes are plain. -/
def Graph.IsPlain {γ : Type} (g : Graph γ) : Prop := ∀ n ∈ g.nodes, ∀ w ∈ n.widgets, w.IsPlain

/-- The widgets of all nodes are plain, also inside groups. -/
structure Workflow.IsPlain (g : Workflow) : Prop where
  outer : Graph.IsPlain g
  inner : ∀ n ∈ g.nodes, ∀ group, n.group? = some group → Graph.IsPlain group.graph

/-- The widgets of a workflow are plain if those of all sites are. -/
theorem Workflow.isPlain_iff {g : Workflow} :
    Workflow.IsPlain g ↔ ∀ s ∈ sites g, ∀ w ∈ s.widgets, w.IsPlain := by
  constructor
  · intro h s hs
    cases s with
    | outer n => exact h.outer n (mem_sites_outer.1 hs)
    | inner host group n =>
      rcases mem_sites_inner.1 hs with ⟨hhost, hgroup, hn⟩
      exact h.inner host hhost group hgroup n hn
  · intro h
    exact ⟨fun n hn => h (.outer n) (mem_sites_outer.2 hn), fun host hhost group hgroup n hn =>
      h (.inner host group n) (mem_sites_inner.2 ⟨hhost, hgroup, hn⟩)⟩

/-! ## Values that are copied -/

/-- The widgets of a node are plain. -/
def Bench.IsPlain (b : Bench) : Prop := ∀ w ∈ b.1, w.IsPlain

/-- A value that is no reference may be given to a plain widget. -/
theorem Widget.assign_isPlain (i : Nat) {v : Json} (hv : Reference.ofJson? v = none) :
    (Widget.assign i v).Keeps Bench.IsPlain := by
  refine .bind (.modify fun b hb w hw => ?_) fun _ => .bind_get fun b _ => ?_
  · rcases List.getElem?_of_mem hw with ⟨j, hj⟩
    rw [List.getElem?_modify, Option.map_eq_map, Option.map_eq_some_iff] at hj
    rcases hj with ⟨w', hw', rfl⟩
    split
    · exact (hb w' (List.mem_of_getElem? hw')).withValue hv
    · exact hb w' (List.mem_of_getElem? hw')
  · split
    · exact .focus_true _ fun _ _ hb => hb
    · exact .pure _

namespace Graph

variable {γ : Type}

/-- What a primitive pushes is plain, wherever plain widgets may be replaced. -/
theorem pushValue_keeps {P : Graph γ × Outside → Prop} (hplain : ∀ s, P s → s.1.IsPlain)
    (hput : ∀ s id (b : Bench), P s → b.IsPlain →
      P (s.1.modifyNode id fun n => { n with widgets := b.1 }, b.2)) (id : NodeId) :
    (pushValue (γ := γ) id).Keeps P := by
  refine .bind_get fun s hs => ?_
  dsimp only
  split
  · exact .pure _
  · rename_i n hn
    split
    · rename_i w _ _ hwidgets
      have hw : w.IsPlain := hplain s hs n (mem_of_at? hn) w (by simp [hwidgets])
      exact .bind (.lift _) fun _ => .each fun place _ =>
        .focus (Widget.assign_isPlain _ hw.value) (fun s hs => AllWidgets.widgets_at? (hplain s hs) _)
          fun s b hs hb => hput s _ b hs hb
    · exact .pure _

end Graph

namespace Workflow

variable {g : Workflow}

private theorem isPlain_iff_allWidgets : IsPlain g ↔ AllWidgets Widget.IsPlain g :=
  ⟨fun h => ⟨h.outer, h.inner⟩, fun h => ⟨h.outer, h.inner⟩⟩

private theorem IsPlain.modifyNode (h : IsPlain g) (id : NodeId) {ws : List Widget}
    (hws : ∀ w ∈ ws, w.IsPlain) :
    IsPlain (Graph.modifyNode id (fun n => { n with widgets := ws }) g) :=
  isPlain_iff_allWidgets.2 ((isPlain_iff_allWidgets.1 h).modifyNode id hws)

private theorem IsPlain.innerGraph (h : IsPlain g) (host : NodeId) : (innerGraph g host).IsPlain :=
  (isPlain_iff_allWidgets.1 h).innerGraph host

private theorem IsPlain.modifyGroup (h : IsPlain g) (host : NodeId) {inner : Subgraph}
    (hinner : inner.IsPlain) : IsPlain (modifyGroup host (fun _ => inner) g) :=
  isPlain_iff_allWidgets.2 ((isPlain_iff_allWidgets.1 h).modifyGroup host hinner)

private theorem IsPlain.siteAt? (h : IsPlain g) {place : Place} {s : Site}
    (hs : siteAt? g place = some s) : ∀ w ∈ s.widgets, w.IsPlain :=
  isPlain_iff.1 h s (mem_sites_of_siteAt? hs)

end Workflow

/-! ## Preparation -/

namespace Editor

/-- The widgets of the workflow are plain. -/
def IsPlain (e : Editor) : Prop := Workflow.IsPlain e.graph

private theorem pushAt_isPlain (place : Place) : (pushAt place).Keeps IsPlain := by
  have houter : ∀ id, (Graph.pushValue (γ := Group) id).Keeps fun s => Workflow.IsPlain s.1 :=
    Graph.pushValue_keeps (fun _ h => h.outer) fun _ id _ h hb => h.modifyNode id hb
  have hinner : ∀ host id, (onInner host (Graph.pushValue id)).Keeps fun s =>
      Workflow.IsPlain s.1 := fun host id =>
    .focus (Graph.pushValue_keeps (P := fun s => s.1.IsPlain) (fun _ h => h)
        (fun _ id _ h hb => Graph.AllWidgets.modifyNode h id hb) id)
      (fun _ h => h.innerGraph host) fun _ _ h ht => h.modifyGroup host ht
  cases place with
  | outer id => exact .focus (houter id) (fun _ h => h) fun _ _ _ h => h
  | inner host id => exact .focus (hinner host id) (fun _ h => h) fun _ _ _ h => h

private theorem runBefore_isPlain (place : Place) : (runBefore place).Keeps IsPlain := by
  refine .bind_get fun e he => .each fun i _ => ?_
  have hplain : ∀ w ∈ e.widgetsAt place, w.IsPlain := by
    unfold widgetsAt
    cases hs : Workflow.siteAt? e.graph place with
    | none => simp
    | some s => exact he.siteAt? hs
  have hnone : ((e.widgetsAt place)[i]?).bind (·.beforeQueued) = none := by
    cases hw : (e.widgetsAt place)[i]? with
    | none => rfl
    | some w => exact (hplain w (List.mem_of_getElem? hw)).beforeQueued
  rw [hnone]
  exact .pure _

/-- A preparation keeps widgets plain. -/
theorem prepare_isPlain (order : List NodeId) : (prepare order).Keeps IsPlain := by
  refine .each fun id _ => .bind_get fun e he => ?_
  split
  · exact .pure _
  · exact .bind (.lift _) fun _ => .bind (.each fun _ _ => runBefore_isPlain _) fun _ =>
      .bind (.lift _) fun _ => .each fun _ _ => pushAt_isPlain _

end Editor

end NodeFlow
