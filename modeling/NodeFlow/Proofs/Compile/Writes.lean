import NodeFlow.Proofs.Compile.Expansion
import NodeFlow.Proofs.Compile.Hooks
import NodeFlow.Proofs.Write

/-!
# Preparations as writes

A preparation runs hooks and lets primitives push their values.  Each of these is a write: a hook
gives its widget another value, a push copies a value.  A preparation comes to its end if the row of
its writes does, and leaves the values that the row leaves.

Main results:

- Definition `Widget.IsReliable`: no hook of the widget fails some of its calls only.
- Definitions `Workflow.hooksAt`, `Workflow.pushesAt` and `Workflow.writes`: what is written.
- Theorem `Editor.prepare_performs`: a preparation performs these writes.
-/

namespace NodeFlow

/-- The hooks of the widget that run before or with a submission follow scripts, and each of them
fails always or never. -/
structure Widget.IsReliable (w : Widget) : Prop where
  beforeQueued : ∀ h, w.beforeQueued = some h → h.IsSteady
  callback : w.TellsSteadily
  serializer : ∀ h, w.serializer = some h → h.IsSteady

/-- Whether a widget is reliable does not depend on its value. -/
theorem Widget.isReliable_bare (w : Widget) : w.bare.IsReliable ↔ w.IsReliable :=
  ⟨fun h => ⟨h.1, h.2, h.3⟩, fun h => ⟨h.1, h.2, h.3⟩⟩

/-- A widget without hooks is reliable. -/
theorem Widget.IsSilent.isReliable {w : Widget} (h : w.IsSilent) : w.IsReliable where
  beforeQueued := by simp [h.beforeQueued]
  callback := h.isSteady.callback
  serializer := h.isSteady.serializer

namespace Workflow

/-! ## What is written -/

/-- A write among the widgets of a workflow. -/
abbrev CellWrite := Write Cell (Option Json)

/-- A hook gives its widget what it makes of its value. -/
def revision (h : QueueHook) (told : Except Fault Unit) (c : Cell) : CellWrite :=
  ⟨c, [c], fun v =>
    match v with
    | some v => (h.revise told v).map some
    | none => .ok none⟩

/-- What the hook on a widget that runs before a submission writes. -/
def hookWrite? (w : Widget) (c : Cell) : Option CellWrite :=
  w.beforeQueued.map fun h => revision h w.told c

private theorem hookWrite?_bare (w : Widget) (c : Cell) :
    hookWrite? w.bare c = hookWrite? w c := rfl

private theorem run_revision {h : QueueHook} {told : Except Fault Unit} {c : Cell}
    {f : Cell → Option Json} {v : Json} (hv : f c = some v) : Write.run [revision h told c] f =
      (h.revise told v).map fun v k => if k = c then some v else f k := by
  rw [Write.run, Write.apply]
  simp only [revision, hv, List.mem_singleton]
  cases h.revise told v <;> rfl

/-- The widgets at a place. -/
def widgetsAt (g : Workflow) (place : Place) : List Widget :=
  ((siteAt? g place).map (·.widgets)).getD []

/-- The widgets at the place of a site are its own. -/
theorem widgetsAt_place {g : Workflow} (hdistinct : Distinct g) {s : Site} (hs : s ∈ sites g) :
    widgetsAt g s.place = s.widgets := by
  rw [widgetsAt, siteAt?_place hdistinct hs]
  rfl

/-- What the hooks at a place write. -/
def hooksAt (g : Workflow) (place : Place) : List CellWrite :=
  (List.range (widgetsAt g place).length).filterMap fun i =>
    ((widgetsAt g place)[i]?).bind (hookWrite? · (place, i))

/-- What the node at a place pushes. -/
def pushesAt (g : Workflow) (place : Place) : List CellWrite :=
  Write.copies ((copiesAt g place).toOption.getD [])

/-- The places whose hooks run with a node. -/
def hookPlaces (n : Node Group) : Except Fault (List Place) := do
  let sites ← Editor.hookSites n
  pure (sites.map (·.place))

/-- What is written when the turn of a node comes. -/
def nodeWrites (g : Workflow) (n : Node Group) : Except Fault (List CellWrite) := do
  let hooked ← hookPlaces n
  let pushing ← n.pushPlaces
  let cs ← allCopies (copiesAt g) pushing
  pure (hooked.flatMap (hooksAt g) ++ Write.copies cs)

/-- What is written when the turn of an id comes. -/
def writesFor (g : Workflow) (id : NodeId) : Except Fault (List CellWrite) :=
  match g.at? id with
  | none => .ok []
  | some n => nodeWrites g n

/-- What a preparation writes. -/
def writes (g : Workflow) : List NodeId → Except Fault (List CellWrite)
  | [] => .ok []
  | id :: ids => do
    let ws ← writesFor g id
    let rest ← writes g ids
    pure (ws ++ rest)

/-! ## What it depends on -/

variable {g g' : Workflow}

private theorem bare_widgetsAt_skeleton (g : Workflow) (place : Place) :
    (widgetsAt (skeleton g) place).map Widget.bare = (widgetsAt g place).map Widget.bare := by
  have hbare : Widget.bare ∘ Widget.bare = Widget.bare := rfl
  cases place with
  | outer id =>
    rw [widgetsAt, widgetsAt, siteAt?, siteAt?, at?_skeleton]
    cases g.at? id with
    | none => rfl
    | some n =>
      simp only [Option.map_some, Option.getD_some, Site.widgets, Node.hollow, Node.bare,
        List.map_map, hbare]
  | inner host id =>
    have hat : ∀ h : Workflow, siteAt? h (.inner host id) = (h.at? host).bind fun n =>
        n.group?.bind fun group => (group.graph.at? id).map (Site.inner n group) := by
      intro h
      rw [siteAt?]
      cases h.at? host with
      | none => rfl
      | some n =>
        cases hgroup : n.group? with
        | none => simp [hgroup]
        | some group => cases hm : group.graph.at? id <;> simp [hgroup, hm]
    rw [widgetsAt, widgetsAt, hat, hat, at?_skeleton]
    cases g.at? host with
    | none => rfl
    | some n =>
      have hgroup : n.bare.hollow.group? = n.group?.map Group.bare := Node.group?_hollow n.bare
      simp only [Option.map_some, Option.bind_some, hgroup]
      cases n.group? with
      | none => rfl
      | some x =>
        simp only [Option.map_some, Option.bind_some, Group.bare,
          Graph.at?_mapNodes Node.isNeutral_bare]
        cases x.graph.at? id with
        | none => rfl
        | some m =>
          simp only [Option.map_some, Option.getD_some, Site.widgets, Node.bare, List.map_map, hbare]

/-- The widgets at a place have the same names and hooks in workflows with one skeleton. -/
theorem bare_widgetsAt_of_skeleton_eq (h : skeleton g' = skeleton g) (place : Place) :
    (widgetsAt g' place).map Widget.bare = (widgetsAt g place).map Widget.bare := by
  rw [← bare_widgetsAt_skeleton, h, bare_widgetsAt_skeleton]

/-- The places of a node that have hooks do not depend on values. -/
theorem hookPlaces_hollow (n : Node Group) : hookPlaces n.bare.hollow = hookPlaces n := by
  have hmap : ∀ sites : List Site, (sites.map Site.bare).map (·.place) = sites.map (·.place) := by
    intro sites
    simp only [List.map_map, Function.comp_def, Site.place_bare]
  rw [hookPlaces, hookPlaces, Editor.hookSites, Editor.hookSites, innerSites?_hollow]
  cases innerSites? n with
  | error f => rfl
  | ok inner =>
    cases inner with
    | none => exact congrArg Except.ok (hmap [.outer n])
    | some sites => exact congrArg Except.ok (hmap (.outer n :: sites))

end Workflow

/-! ## Actions that perform writes -/

namespace Editor

open Workflow

/-- On every workflow with the skeleton of the given one, the action comes to what the row of writes
comes to, keeps the skeleton and leaves the values that the row leaves. -/
def Performs (g : Workflow) (ws : Except Fault (List CellWrite)) (act : EditorAct PUnit) : Prop :=
  ∀ e : Editor, skeleton e.graph = skeleton g →
    act.Tracks e (do let ws ← ws; Write.run ws (valueAt e.graph)) fun values e' =>
      ∃ g' o, e' = { e with graph := g', outside := o } ∧ skeleton g' = skeleton g ∧
        valueAt g' = values

variable {g : Workflow} {act act' : EditorAct PUnit} {ws vs : Except Fault (List CellWrite)}

namespace Performs

private theorem congr (h : Performs g ws act')
    (hexec : ∀ e : Editor, skeleton e.graph = skeleton g → act.exec e = act'.exec e) :
    Performs g ws act := fun e he => (h e he).congr (hexec e he)

private theorem nothing : Performs g (.ok []) (pure ⟨⟩) := fun e he =>
  ⟨e, rfl, e.graph, e.outside, rfl, he, rfl⟩

private theorem fails {f : Fault}
    (h : ∀ e : Editor, skeleton e.graph = skeleton g → ∃ f t, act.exec e = (.error f, t)) :
    Performs g (.error f) act := h

private theorem bind (h : Performs g ws act) (h' : Performs g vs act') :
    Performs g (do let front ← ws; let back ← vs; pure (front ++ back)) (act >>= fun _ => act') := by
  intro e he
  have hfirst := h e he
  cases ws with
  | error f =>
    rcases hfirst with ⟨f, t, hexec⟩
    exact ⟨f, t, by rw [Act.exec_bind, hexec]⟩
  | ok front =>
    have hfirst : act.Tracks e (Write.run front (valueAt e.graph)) _ := hfirst
    cases vs with
    | error f =>
      -- whether or not the first row comes to its end, the second action fails
      have hnever : (act >>= fun _ => act').Tracks e
          (do let _ ← Write.run front (valueAt e.graph); .error f : Except Fault Unit)
          fun _ _ => False := by
        refine hfirst.bind ?_
        rintro values e' ⟨g', o, rfl, hg', -⟩
        exact h' _ hg'
      cases hrun : Write.run front (valueAt e.graph) <;> rw [hrun] at hnever <;> exact hnever
    | ok back =>
      have hboth : (act >>= fun _ => act').Tracks e
          (do let values ← Write.run front (valueAt e.graph); Write.run back values) fun values e' =>
            ∃ g' o, e' = { e with graph := g', outside := o } ∧ skeleton g' = skeleton g ∧
              valueAt g' = values := by
        refine hfirst.bind ?_
        rintro values e' ⟨g₁, o₁, rfl, hg₁, rfl⟩
        exact h' { e with graph := g₁, outside := o₁ } hg₁
      rw [← Write.run_append] at hboth
      exact hboth

private theorem each {β : Type} {writes : β → List CellWrite} {f : β → EditorAct PUnit}
    {xs : List β} (h : ∀ x ∈ xs, Performs g (.ok (writes x)) (f x)) :
    Performs g (.ok (xs.flatMap writes)) (Act.each xs f) := by
  induction xs with
  | nil => exact .nothing
  | cons x xs ih =>
    exact (h x List.mem_cons_self).bind (ih fun y hy => h y (List.mem_cons_of_mem x hy))

private theorem of_makes {cs : Except Fault (List (Copy Cell))} (h : Makes g cs act) :
    Performs g (cs.map Write.copies) act := by
  intro e he
  rcases h e he with ⟨g', o, hexec, hg', hvalues, -⟩
  cases cs with
  | error f => exact ⟨f, _, hexec⟩
  | ok cs =>
    have hrun := Write.run_copies cs (valueAt e.graph)
    refine Act.Tracks.of_eq (r := .ok (Copy.run cs (valueAt e.graph))) hrun.symm ?_
    exact ⟨_, hexec, g', o, rfl, hg', hvalues cs rfl⟩

end Performs

section Reliable

variable (hdistinct : Distinct g) (hreliable : AllWidgets Widget.IsReliable g)

include hdistinct hreliable

/-- The hook of one widget writes this widget. -/
theorem onPlace_performs {place : Place} {i : Nat} {w : Widget}
    (hw : (Workflow.widgetsAt g place)[i]? = some w) {h : QueueHook} (hh : w.beforeQueued = some h) :
    Performs g (.ok (hookWrite? w (place, i)).toList) (onPlace place (h.run "before_queued" i)) := by
  intro e he
  have hbare : ((Workflow.widgetsAt e.graph place).map Widget.bare)[i]? = some w.bare := by
    rw [bare_widgetsAt_of_skeleton_eq he, List.getElem?_map, hw]
    rfl
  rw [List.getElem?_map] at hbare
  rcases Option.map_eq_some_iff.1 hbare with ⟨u, hu, hsame⟩
  have hdistinct' := distinct_of_skeleton_eq he hdistinct
  have hreliable' := allWidgets_of_skeleton_eq Widget.isReliable_bare he hreliable
  cases hs : siteAt? e.graph place with
  | none => simp [Workflow.widgetsAt, hs] at hu
  | some s =>
    have hu : s.widgets[i]? = some u := by simpa [Workflow.widgetsAt, hs] using hu
    have hmem : u ∈ s.widgets := List.mem_of_getElem? hu
    have hu' := hreliable'.of_mem_sites (mem_sites_of_siteAt? hs) u hmem
    have hwrite : hookWrite? w (place, i) = some (revision h u.told (place, i)) := by
      have hbefore : u.bare.beforeQueued = some h := by rw [hsame]; exact hh
      rw [← hookWrite?_bare, ← hsame, hookWrite?, hbefore]
      rfl
    have hbefore : u.beforeQueued = some h := by
      have hsame := congrArg Widget.beforeQueued hsame
      exact hsame.trans hh
    rw [hwrite]
    refine Act.Tracks.of_eq (run_revision (valueAt_of_siteAt? hs hu)).symm
      ((onPlace_tracks hdistinct' (hu'.beforeQueued h hbefore) hs hu hu'.callback
        "before_queued").map ?_)
    rintro v e' ⟨g', o, rfl, hg', hvalues⟩
    exact ⟨g', o, rfl, hg'.trans he, funext hvalues⟩

/-- The hooks at a place write the widgets there. -/
theorem runBefore_performs (place : Place) :
    Performs g (.ok (hooksAt g place)) (runBefore place) := by
  let writes (i : Nat) : List CellWrite :=
    (((Workflow.widgetsAt g place)[i]?).bind (hookWrite? · (place, i))).toList
  have hsteps : Performs g (.ok ((List.range (Workflow.widgetsAt g place).length).flatMap writes))
      (Act.each (List.range (Workflow.widgetsAt g place).length)
        (beforeStep place (Workflow.widgetsAt g place))) := by
    refine .each fun i _ => ?_
    simp only [writes]
    cases hw : (Workflow.widgetsAt g place)[i]? with
    | none =>
      rw [beforeStep_of_none (by rw [hw]; rfl)]
      exact .nothing
    | some w =>
      cases hh : w.beforeQueued with
      | none =>
        rw [beforeStep_of_none (by rw [hw]; exact hh), Option.bind_some, hookWrite?, hh]
        exact .nothing
      | some h =>
        rw [beforeStep_of_some (by rw [hw]; exact hh)]
        exact onPlace_performs hdistinct hreliable hw hh
  have hwrites : (List.range (Workflow.widgetsAt g place).length).flatMap writes = hooksAt g place := by
    rw [hooksAt, List.filterMap_eq_flatMap_toList]
  rw [hwrites] at hsteps
  refine hsteps.congr fun e he => ?_
  -- the widgets found there differ from those of the given workflow by their values only
  have hbare := bare_widgetsAt_of_skeleton_eq he place
  have hlength : (Workflow.widgetsAt e.graph place).length = (Workflow.widgetsAt g place).length := by
    simpa using congrArg List.length hbare
  have hhook : ∀ i : Nat, ((Workflow.widgetsAt e.graph place)[i]?).bind (·.beforeQueued) =
      ((Workflow.widgetsAt g place)[i]?).bind (·.beforeQueued) := by
    have hmap : ∀ ws : List Widget, ∀ i : Nat, (ws[i]?).bind (·.beforeQueued) =
        ((ws.map Widget.bare)[i]?).bind (·.beforeQueued) := by
      intro ws i
      rw [List.getElem?_map]
      cases ws[i]? <;> rfl
    intro i
    rw [hmap, hmap (Workflow.widgetsAt g place), ← hbare]
  have hstep : beforeStep place (Workflow.widgetsAt e.graph place) =
      beforeStep place (Workflow.widgetsAt g place) := by
    funext i
    rw [beforeStep, hhook, ← beforeStep]
  have hsame : e.widgetsAt place = Workflow.widgetsAt e.graph place := rfl
  rw [exec_runBefore, hsame, hlength, hstep]

private theorem work_performs (n : Node Group) : Performs g (nodeWrites g n) (work n) := by
  cases hinner : innerSites? n with
  | error f =>
    rw [nodeWrites, hookPlaces, hookSites, hinner]
    exact .fails fun e _ => ⟨f, e, by rw [work, hookSites, hinner]; rfl⟩
  | ok inner =>
    have hhooked : hookPlaces n = .ok ((.outer n :: inner.getD []).map (·.place)) := by
      rw [hookPlaces, hookSites, hinner]
      rfl
    let pushing := (inner.getD [.outer n]).filter (·.isVirtual)
    have hplaces : n.pushPlaces = .ok (pushing.map (·.place)) := by
      rw [Node.pushPlaces, hinner]
      rfl
    have hhooks : Performs g (.ok ((Site.outer n :: inner.getD []).flatMap fun s => hooksAt g s.place))
        (Act.each (.outer n :: inner.getD []) fun s => runBefore s.place) :=
      .each fun s _ => runBefore_performs hdistinct hreliable s.place
    have hpushes : Makes g (allCopies (fun s => copiesAt g s.place) pushing)
        (Act.each pushing fun s => pushAt s.place) :=
      .each fun s _ => pushAt_makes hdistinct (hreliable.imp fun _ hw => hw.callback) s.place
    rw [← allCopies_map (copiesAt g) Site.place] at hpushes
    have hboth := hhooks.bind (.of_makes hpushes)
    have hwrites : nodeWrites g n = (do
        let front ← .ok ((Site.outer n :: inner.getD []).flatMap fun s => hooksAt g s.place)
        let back ← (allCopies (copiesAt g) (pushing.map (·.place))).map Write.copies
        pure (front ++ back)) := by
      rw [nodeWrites, hhooked, hplaces]
      simp only [bind, Except.bind, pure, Except.pure, List.flatMap_map]
      cases allCopies (copiesAt g) (pushing.map (·.place)) <;> rfl
    rw [hwrites]
    refine hboth.congr fun e _ => ?_
    rw [work, hookSites, hinner]
    rfl

/-- When its turn comes, a node performs its writes. -/
theorem prepareNode_performs (id : NodeId) : Performs g (writesFor g id) (prepareNode id) := by
  intro e he
  have hfound : (e.graph.at? id).map (fun n => n.bare.hollow) =
      (Graph.at? g id).map fun n => n.bare.hollow := by
    rw [← at?_skeleton, he, at?_skeleton]
  rw [writesFor]
  cases hm : g.at? id with
  | none =>
    rw [hm, Option.map_none, Option.map_eq_none_iff] at hfound
    refine (Performs.nothing e he).congr ?_
    rw [prepareNode, Act.exec_bind, Act.exec_get]
    simp only [hfound]
  | some m =>
    rw [hm] at hfound
    rcases Option.map_eq_some_iff.1 hfound with ⟨n, hn, hsame⟩
    have hwrites : nodeWrites g m = nodeWrites g n := by
      have hhooked : hookPlaces m = hookPlaces n := by
        rw [← hookPlaces_hollow n, hsame, hookPlaces_hollow m]
      have hplaces : m.pushPlaces = n.pushPlaces := by
        rw [← pushPlaces_hollow n, hsame, pushPlaces_hollow m]
      rw [nodeWrites, nodeWrites, hhooked, hplaces]
    simp only [hwrites]
    refine (work_performs hdistinct hreliable n e he).congr ?_
    rw [prepareNode, Act.exec_bind, Act.exec_get]
    simp only [hn]
    rfl

/-- A preparation performs its writes. -/
theorem prepare_performs (order : List NodeId) : Performs g (writes g order) (prepare order) := by
  induction order with
  | nil => exact .nothing
  | cons id ids ih => exact (prepareNode_performs hdistinct hreliable id).bind ih

end Reliable

end Editor

end NodeFlow
