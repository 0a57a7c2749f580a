import NodeFlow.Proofs.Compile.Prepare

/-!
# Hooks that run before a submission

A script on a widget sets or adds to the value of this widget, and tells the callback.  What it makes
of the value does not depend on anything else, as long as no hook fails some of its calls only.

Main results:

- Definition `Act.Tracks`: an action that comes to what a computation comes to.
- Definition `QueueHook.IsSteady` and `QueueHook.revise`: what a hook makes of a value.
- Theorem `QueueHook.run_tracks`: running it on the widgets of a node.
- Theorem `Editor.onPlace_tracks`: running it on a widget of a workflow changes one value.
-/

namespace NodeFlow

/-! ## Actions and computations -/

namespace Act

variable {σ α β : Type}

/-- From the state, the action fails if the computation does, and ends in a state that belongs to the
result otherwise. -/
def Tracks (act : Act σ PUnit) (s : σ) (r : Except Fault α) (Q : α → σ → Prop) : Prop :=
  match r with
  | .ok a => ∃ t, act.exec s = (.ok ⟨⟩, t) ∧ Q a t
  | .error _ => ∃ f t, act.exec s = (.error f, t)

namespace Tracks

variable {act act' : Act σ PUnit} {s : σ} {r : Except Fault α} {Q : α → σ → Prop}

/-- An action that does the same tracks the same. -/
theorem congr (h : act'.Tracks s r Q) (hexec : act.exec s = act'.exec s) : act.Tracks s r Q := by
  unfold Tracks at h ⊢
  rwa [hexec]

/-- What is tracked may be written in another way. -/
theorem of_eq {r' : Except Fault α} (hr : r = r') (h : act.Tracks s r Q) : act.Tracks s r' Q := hr ▸ h

private theorem pure {a : α} (h : Q a s) : (pure ⟨⟩ : Act σ PUnit).Tracks s (.ok a) Q := ⟨s, rfl, h⟩

private theorem get_bind {f : σ → Act σ PUnit} (h : (f s).Tracks s r Q) :
    (get >>= f).Tracks s r Q := h

private theorem lift_bind {x : Except Fault β} {f : β → Act σ PUnit} {r' : β → Except Fault α}
    (h : ∀ b, (f b).Tracks s (r' b) Q) : (Act.lift x >>= f).Tracks s (x >>= r') Q := by
  cases x with
  | error e => exact ⟨e, s, rfl⟩
  | ok b => exact h b

/-- Actions that track computations track them one after the other. -/
theorem bind (h : act.Tracks s r Q) {r' : α → Except Fault β} {Q' : β → σ → Prop}
    (h' : ∀ a t, Q a t → act'.Tracks t (r' a) Q') : (act >>= fun _ => act').Tracks s (r >>= r') Q' := by
  cases r with
  | error f =>
    rcases h with ⟨f, t, hexec⟩
    exact ⟨f, t, by rw [exec_bind, hexec]⟩
  | ok a =>
    rcases h with ⟨t, hexec, hQ⟩
    have hboth : (act >>= fun _ => act').exec s = act'.exec t := by rw [exec_bind, hexec]
    have hnext := h' a t hQ
    unfold Tracks at hnext ⊢
    rw [hboth]
    exact hnext

private theorem imp (h : act.Tracks s r Q) {Q' : α → σ → Prop} (hQ : ∀ a t, Q a t → Q' a t) :
    act.Tracks s r Q' := by
  cases r with
  | error f => exact h
  | ok a =>
    rcases h with ⟨t, hexec, ht⟩
    exact ⟨t, hexec, hQ a t ht⟩

/-- The same outcome, under another name. -/
theorem map (h : act.Tracks s r Q) {φ : α → β} {Q' : β → σ → Prop}
    (hQ : ∀ a t, Q a t → Q' (φ a) t) : act.Tracks s (r.map φ) Q' := by
  cases r with
  | error f => exact h
  | ok a =>
    rcases h with ⟨t, hexec, ht⟩
    exact ⟨t, hexec, hQ a t ht⟩

/-- An action that is seen to end in a state ends with the result of the computation. -/
theorem exists_result (h : act.Tracks s r Q) {t : σ} (hexec : act.exec s = (.ok ⟨⟩, t)) :
    ∃ a, r = .ok a ∧ Q a t := by
  cases r with
  | error f =>
    rcases h with ⟨f, u, hfail⟩
    rw [hexec] at hfail
    cases hfail
  | ok a =>
    rcases h with ⟨u, hend, hQ⟩
    rw [hexec] at hend
    cases hend
    exact ⟨a, rfl, hQ⟩

end Tracks

end Act

/-! ## What hooks make of values -/

/-- What the setting of a script makes of a value, given what comes of telling the callback. -/
def Script.set (x : Script) (told : Except Fault Unit) (v : Json) : Except Fault Json :=
  match x.sets with
  | some u => told.map fun _ => u
  | none => .ok v

/-- What the adding of a script makes of a value. -/
def Script.add (x : Script) (told : Except Fault Unit) (v : Json) : Except Fault Json :=
  match x.adds with
  | some amount => do
    let u ← v.plus amount
    told.map fun _ => u
  | none => .ok v

/-- What a script makes of a value. -/
def Hook.revise (h : Hook) (told : Except Fault Unit) (v : Json) : Except Fault Json := do
  h.outcome
  let v ← h.script.set told v
  h.script.add told v

namespace QueueHook

/-- The hook follows scripts only, and each of them fails always or never. -/
def IsSteady : QueueHook → Prop
  | .advance _ => False
  | .scripted h => h.IsSteady
  | .chained h previous => h.IsSteady ∧ previous.IsSteady

/-- What a hook of scripts makes of a value. -/
def revise (told : Except Fault Unit) : QueueHook → Json → Except Fault Json
  | .advance _, v => .ok v
  | .scripted h, v => h.revise told v
  | .chained h previous, v => do
    let v ← h.revise told v
    previous.revise told v

end QueueHook

namespace Widget

/-- A widget that is given its own value stays as it is. -/
theorem modify_withValue_self {ws : List Widget} {i : Nat} {w : Widget} (hw : ws[i]? = some w) :
    ws.modify i (·.withValue w.value) = ws := by
  refine List.ext_getElem? fun j => ?_
  rw [List.getElem?_modify]
  by_cases hij : i = j
  · subst hij
    rw [hw]
    simp [withValue]
  · simp [hij]

/-- Of two values that a widget is given the second one stays. -/
theorem modify_modify_withValue (ws : List Widget) (i : Nat) (u v : Json) :
    (ws.modify i (·.withValue u)).modify i (·.withValue v) = ws.modify i (·.withValue v) := by
  refine List.ext_getElem? fun j => ?_
  simp only [List.getElem?_modify]
  cases ws[j]? with
  | none => rfl
  | some w => by_cases hij : i = j <;> simp [hij, withValue]

variable {ws : List Widget} {i : Nat} {w : Widget}

private theorem assign_tracks (hw : ws[i]? = some w) (htells : w.TellsSteadily) (v : Json)
    (o : Outside) : (assign i v).Tracks (ws, o) (w.told.map fun _ => v) fun v b =>
      b.1 = ws.modify i (·.withValue v) := by
  rcases exec_assign hw htells v o with ⟨o', hexec, -⟩
  cases htold : w.told with
  | error f => exact ⟨f, _, by rw [hexec, htold]⟩
  | ok u => exact ⟨_, by rw [hexec, htold], rfl⟩

end Widget

namespace QueueHook

variable {ws : List Widget} {i : Nat} {w : Widget}

private theorem call_tracks {h : Hook} (hsteady : h.IsSteady) (entry : Trace.Entry) (b : Bench) :
    (Widget.outward (h.call entry)).Tracks b h.outcome fun _ c => c.1 = b.1 := by
  have hexec := Widget.exec_outward (h.call entry) b
  rw [Hook.exec_call hsteady] at hexec
  cases hr : h.outcome with
  | error f => exact ⟨f, _, by rw [hexec, hr]⟩
  | ok u =>
    rw [hr] at hexec
    exact ⟨_, hexec, rfl⟩

/-- The adding, where the widget may have been given another value already. -/
theorem add_tracks (hw : ws[i]? = some w) (htells : w.TellsSteadily) (x : Script) (v : Json)
    (o : Outside) :
    (do
      match x.adds, (← get).1[i]? with
      | some amount, some w => Widget.assign i (← Act.lift (w.value.plus amount))
      | _, _ => pure ⟨⟩ : Act Bench PUnit).Tracks (ws.modify i (·.withValue v), o)
      (x.add w.told v) fun v b => b.1 = ws.modify i (·.withValue v) := by
  have hget := Widget.getElem?_modify_withValue hw v
  refine .get_bind ?_
  unfold Script.add
  cases x.adds with
  | none => exact .pure rfl
  | some amount =>
    simp only [hget, Widget.value_withValue]
    refine .lift_bind fun u => ?_
    have hassign := Widget.assign_tracks hget htells u o
    simp only [Widget.modify_modify_withValue] at hassign
    exact hassign

private theorem follow_tracks {h : Hook} (hsteady : h.IsSteady) (hw : ws[i]? = some w)
    (htells : w.TellsSteadily) (name : String) (o : Outside) :
    (follow name h i).Tracks (ws, o) (h.revise w.told w.value) fun v b =>
      b.1 = ws.modify i (·.withValue v) := by
  refine .get_bind ?_
  simp only [hw]
  refine .bind (call_tracks hsteady _ (ws, o)) ?_
  rintro - ⟨ws, o⟩ rfl
  unfold Script.set
  cases h.script.sets with
  | none =>
    have hadd := add_tracks hw htells h.script w.value o
    rwa [Widget.modify_withValue_self hw] at hadd
  | some u =>
    refine .bind (Widget.assign_tracks hw htells u o) ?_
    rintro v ⟨_, o⟩ rfl
    exact add_tracks hw htells h.script v o

/-- A steady hook of the queue changes its widget to what it makes of the value. -/
theorem run_tracks {h : QueueHook} (hsteady : h.IsSteady) (hw : ws[i]? = some w)
    (htells : w.TellsSteadily) (name : String) (o : Outside) :
    (h.run name i).Tracks (ws, o) (h.revise w.told w.value) fun v b =>
      b.1 = ws.modify i (·.withValue v) := by
  induction h generalizing ws w o with
  | advance source => exact hsteady.elim
  | scripted h => exact follow_tracks hsteady hw htells name o
  | chained h previous ih =>
    refine .bind (follow_tracks hsteady.1 hw htells name o) ?_
    rintro v ⟨_, o⟩ rfl
    have hprevious := ih hsteady.2 (Widget.getElem?_modify_withValue hw v) htells o
    simp only [Widget.modify_modify_withValue] at hprevious
    exact hprevious

private theorem follow_isStraight (name : String) (h : Hook) (i : Nat) :
    (follow name h i).IsStraight := by
  refine .bind .get fun b => ?_
  split
  · exact .pure _
  · refine .bind (.focus (Hook.call_isStraight _ _) _ _) fun _ => ?_
    extract_lets rest
    have hrest : ∀ u, (rest u).IsStraight := by
      intro u
      refine .bind .get fun b => ?_
      split
      · exact .bind (.lift _) fun _ => Widget.assign_isStraight _ _
      · exact .pure _
    split
    · exact .bind (Widget.assign_isStraight _ _) hrest
    · exact hrest ⟨⟩

private theorem advanceTarget_isStraight (source : RandomSource) (i : Nat) :
    (advanceTarget source i).IsStraight := by
  refine .bind .get fun b => ?_
  dsimp only
  split
  · exact Widget.applyControl_isStraight _ _ _ _
  · exact .pure _

/-- A hook of the queue never waits. -/
theorem run_isStraight (h : QueueHook) (name : String) (i : Nat) : (h.run name i).IsStraight := by
  induction h with
  | advance source => exact advanceTarget_isStraight source i
  | scripted h => exact follow_isStraight name h i
  | chained h previous ih => exact .bind (follow_isStraight name h i) fun _ => ih

end QueueHook

/-! ## Hooks on the widgets of a workflow -/

namespace Graph

variable {γ : Type} {g : Graph γ}

private theorem onWidgets_run_tracks (hids : (g.nodes.map (·.id)).Nodup) {h : QueueHook}
    (hsteady : h.IsSteady) {c : NodeId × Nat} {n : Node γ} {w : Widget}
    (hc : g.widgetAt? c = some (n, w)) (htells : w.TellsSteadily) (name : String) (o : Outside) :
    (onWidgets c.1 (h.run name c.2)).Tracks (g, o) (h.revise w.told w.value) fun v s =>
      s.1 = g.setValue c v := by
  rcases widgetAt?_eq_some.1 hc with ⟨hn, hw⟩
  have hexec := (h.run_isStraight name c.2).exec_focus
    (fun s : Graph γ × Outside => (((s.1.at? c.1).map (·.widgets)).getD [], s.2))
    (fun b s => (s.1.modifyNode c.1 fun n => { n with widgets := b.1 }, b.2)) (g, o)
  simp only [hn, Option.map_some, Option.getD_some] at hexec
  have hrun := QueueHook.run_tracks hsteady hw htells name o
  cases hrevise : h.revise w.told w.value with
  | error f =>
    rw [hrevise] at hrun
    rcases hrun with ⟨f, b, hfail⟩
    rw [hfail] at hexec
    exact ⟨f, _, hexec⟩
  | ok v =>
    rw [hrevise] at hrun
    rcases hrun with ⟨⟨_, o'⟩, hend, rfl⟩
    rw [hend] at hexec
    exact ⟨_, hexec, modifyNode_widgets hids hn v⟩

end Graph

namespace Workflow

variable {g : Workflow}

/-- A value set in the workflow itself. -/
theorem valueAt_setValue {c : NodeId × Nat} (hc : (Graph.widgetAt? g c).isSome = true) (v : Json)
    (k : Cell) :
    valueAt (Graph.setValue c v g) k = if k = outerCell c then some v else valueAt g k := by
  have hshape := Graph.shape_setValue c v g
  rcases k with ⟨id | ⟨host, id⟩, i⟩
  · have hcell : ((Place.outer id, i) : Cell) = outerCell c ↔ (id, i) = c :=
      outerCell_injective.eq_iff (a := (id, i))
    simp only [valueAt, Graph.valueAt_setValue hc, hcell]
  · have hne : ((Place.inner host id, i) : Cell) ≠ outerCell c := by
      intro hcell
      cases hcell
    rw [if_neg hne, valueAt, valueAt, innerGraph_of_shape hshape]

/-- A value set inside a group. -/
theorem valueAt_setInner {host : NodeId} {c : NodeId × Nat}
    (hc : ((innerGraph g host).widgetAt? c).isSome = true) (v : Json) (k : Cell) :
    valueAt (modifyGroup host (fun _ => (innerGraph g host).setValue c v) g) k =
      if k = innerCell host c then some v else valueAt g k := by
  have hshape := Graph.shape_setValue c v (innerGraph g host)
  rcases k with ⟨id | ⟨other, id⟩, i⟩
  · have hne : ((Place.outer id, i) : Cell) ≠ innerCell host c := by
      intro hcell
      cases hcell
    rw [if_neg hne, valueAt, valueAt, outer_valueAt_modifyGroup]
  · by_cases hother : other = host
    · subst hother
      have hcell : ((Place.inner other id, i) : Cell) = innerCell other c ↔ (id, i) = c :=
        (innerCell_injective other).eq_iff (a := (id, i))
      simp only [valueAt, innerGraph_modifyGroup hshape, Graph.valueAt_setValue hc, hcell]
    · have hne : ((Place.inner other id, i) : Cell) ≠ innerCell host c := by
        intro hsame
        cases hsame
        exact hother rfl
      rw [if_neg hne, valueAt, valueAt, innerGraph_modifyGroup_of_ne hother]

/-- The widget at a place of the workflow. -/
theorem widgetAt?_of_siteAt?_outer {id : NodeId} {s : Site} (hs : siteAt? g (.outer id) = some s)
    {i : Nat} {w : Widget} (hw : s.widgets[i]? = some w) :
    ∃ n, Graph.widgetAt? g (id, i) = some (n, w) := by
  rcases Option.map_eq_some_iff.1 hs with ⟨n, hn, rfl⟩
  exact ⟨n, Graph.widgetAt?_eq_some.2 ⟨hn, hw⟩⟩

/-- The widget at a place inside a group. -/
theorem widgetAt?_of_siteAt?_inner {host id : NodeId} {s : Site}
    (hs : siteAt? g (.inner host id) = some s) {i : Nat} {w : Widget} (hw : s.widgets[i]? = some w) :
    ∃ n, (innerGraph g host).widgetAt? (id, i) = some (n, w) := by
  rcases Option.bind_eq_some_iff.1 hs with ⟨n, hn, hs⟩
  rcases Option.bind_eq_some_iff.1 hs with ⟨group, hgroup, hs⟩
  rcases Option.bind_eq_some_iff.1 hs with ⟨m, hm, hs⟩
  cases hs
  have hinner : innerGraph g host = group.graph := by simp [innerGraph, hn, hgroup]
  rw [hinner]
  exact ⟨m, Graph.widgetAt?_eq_some.2 ⟨hm, hw⟩⟩

/-- The value at a place is that of the widget there. -/
theorem valueAt_of_siteAt? {place : Place} {s : Site} (hs : siteAt? g place = some s) {i : Nat}
    {w : Widget} (hw : s.widgets[i]? = some w) : valueAt g (place, i) = some w.value := by
  cases place with
  | outer id =>
    rcases widgetAt?_of_siteAt?_outer hs hw with ⟨n, hn⟩
    simp [valueAt, Graph.valueAt, hn]
  | inner host id =>
    rcases widgetAt?_of_siteAt?_inner hs hw with ⟨n, hn⟩
    simp [valueAt, Graph.valueAt, hn]

end Workflow

namespace Editor

open Workflow

private theorem onGraph_tracks {α : Type} {act : Act (Workflow × Outside) PUnit} {e : Editor}
    {r : Except Fault α} {Q : α → Workflow × Outside → Prop}
    (h : act.Tracks (e.graph, e.outside) r Q) :
    (onGraph act).Tracks e r fun a e' =>
      ∃ g' o, e' = { e with graph := g', outside := o } ∧ Q a (g', o) := by
  have hexec := exec_onGraph act e
  cases r with
  | error f =>
    rcases h with ⟨f, t, hfail⟩
    rw [hfail] at hexec
    exact ⟨f, _, hexec⟩
  | ok a =>
    rcases h with ⟨⟨g', o⟩, hend, hQ⟩
    rw [hend] at hexec
    exact ⟨_, hexec, g', o, rfl, hQ⟩

private theorem onInner_tracks {α : Type} {act : Act (Subgraph × Outside) PUnit}
    (hstraight : act.IsStraight) {host : NodeId} {s : Workflow × Outside} {r : Except Fault α}
    {Q : α → Subgraph × Outside → Prop} (h : act.Tracks (innerGraph s.1 host, s.2) r Q) :
    (onInner host act).Tracks s r fun a t =>
      ∃ inner, t.1 = modifyGroup host (fun _ => inner) s.1 ∧ Q a (inner, t.2) := by
  have hexec := hstraight.exec_focus (fun s : Workflow × Outside => (innerGraph s.1 host, s.2))
    (fun t s => (modifyGroup host (fun _ => t.1) s.1, t.2)) s
  cases r with
  | error f =>
    rcases h with ⟨f, t, hfail⟩
    rw [hfail] at hexec
    exact ⟨f, _, hexec⟩
  | ok a =>
    rcases h with ⟨t, hend, hQ⟩
    rw [hend] at hexec
    exact ⟨_, hexec, t.1, rfl, hQ⟩

/-- A hook that runs on a widget of a workflow changes the value of this widget only. -/
theorem onPlace_tracks {e : Editor} (hdistinct : Distinct e.graph) {h : QueueHook}
    (hsteady : h.IsSteady) {place : Place} {s : Site} (hs : siteAt? e.graph place = some s) {i : Nat}
    {w : Widget} (hw : s.widgets[i]? = some w) (htells : w.TellsSteadily) (name : String) :
    (onPlace place (h.run name i)).Tracks e (h.revise w.told w.value) fun v e' =>
      ∃ g' o, e' = { e with graph := g', outside := o } ∧ skeleton g' = skeleton e.graph ∧
        ∀ k, valueAt g' k = if k = (place, i) then some v else valueAt e.graph k := by
  cases place with
  | outer id =>
    rcases widgetAt?_of_siteAt?_outer hs hw with ⟨n, hn⟩
    have hrun := Graph.onWidgets_run_tracks hdistinct.outer hsteady hn htells name e.outside
    refine (onGraph_tracks hrun).imp ?_
    rintro v e' ⟨g', o, rfl, hg'⟩
    refine ⟨g', o, rfl, ?_, fun k => ?_⟩
    · rw [show g' = Graph.setValue (id, i) v e.graph from hg']
      exact congrArg (Graph.mapNodes Node.hollow) (Graph.shape_setValue _ _ _)
    · rw [show g' = Graph.setValue (id, i) v e.graph from hg']
      exact valueAt_setValue (Option.isSome_iff_exists.2 ⟨_, hn⟩) v k
  | inner host id =>
    rcases widgetAt?_of_siteAt?_inner hs hw with ⟨n, hn⟩
    have hrun := Graph.onWidgets_run_tracks (hdistinct.innerGraph host) hsteady hn htells name
      e.outside
    have hstraight := (h.run_isStraight name i).focus
      (fun s : Subgraph × Outside => (((s.1.at? id).map (·.widgets)).getD [], s.2))
      fun b s => (s.1.modifyNode id fun n => { n with widgets := b.1 }, b.2)
    refine (onGraph_tracks (onInner_tracks hstraight hrun)).imp ?_
    rintro v e' ⟨g', o, rfl, inner, hg', hinner⟩
    have hshape : inner = (innerGraph e.graph host).setValue (id, i) v := hinner
    subst hshape
    refine ⟨g', o, rfl, ?_, fun k => ?_⟩
    · rw [show g' = _ from hg']
      exact skeleton_modifyGroup hdistinct (Graph.shape_setValue _ _ _)
    · rw [show g' = _ from hg']
      exact valueAt_setInner (Option.isSome_iff_exists.2 ⟨_, hn⟩) v k

end Editor

end NodeFlow
