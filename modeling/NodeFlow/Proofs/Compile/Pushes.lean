import NodeFlow.Proofs.Compile.Idempotence
import NodeFlow.Proofs.Compile.Writes

/-!
# What a preparation changes

Whatever hooks and callbacks do, a hook changes widgets of its own node only, and a primitive those
that it is linked to.  After a preparation that comes to its end, a widget therefore holds what the
last push to it has left there, unless a hook of its own node has run since.

Main results:

- Definition `Editor.Keeps`: an action that leaves widgets alone where it succeeds.
- Theorems `Editor.runBefore_keeps` and `Editor.pushAt_keeps`: hooks and pushes.
- Theorem `Graph.exec_pushValue_eq_ok`: a push that succeeds.
- Theorem `Editor.prepare_keeps`: a widget that nothing reaches.
- Theorem `Editor.planned_of_prepare`: where a preparation succeeds, groups can be ordered.
- Theorem `Editor.exists_push_of_prepare`: the push of one primitive within a preparation.
-/

namespace NodeFlow

/-! ## Assignments, whatever the callback does -/

/-- An assignment changes the value of one widget. -/
theorem Widget.exec_assign_fst (ws : List Widget) (i : Nat) (v : Json) (o : Outside) :
    ((assign i v).exec (ws, o)).2.1 = ws.modify i (·.withValue v) := by
  rw [assign, Act.exec_bind, Act.exec_modify]
  dsimp only
  rw [Act.exec_bind, Act.exec_get]
  dsimp only
  split
  · rw [exec_outward]
  · rfl

namespace Graph

variable {γ : Type} {g g' : Graph γ}

private theorem exec_onWidgets_assign_fst (hids : (g.nodes.map (·.id)).Nodup) {c : NodeId × Nat}
    (hc : (g.widgetAt? c).isSome = true) (v : Json) (o : Outside) :
    ((onWidgets c.1 (Widget.assign c.2 v)).exec (g, o)).2.1 = g.setValue c v := by
  rcases Option.isSome_iff_exists.1 hc with ⟨⟨n, w⟩, hc⟩
  rcases widgetAt?_eq_some.1 hc with ⟨hn, -⟩
  rw [onWidgets, (Widget.assign_isStraight c.2 v).exec_focus]
  simp only [hn, Option.map_some, Option.getD_some, Widget.exec_assign_fst,
    modifyNode_widgets hids hn]

/-- A value given to widgets that are there, where no callback refuses. -/
theorem exec_each_assign_eq_ok {places : List (NodeId × Nat)} (hids : (g.nodes.map (·.id)).Nodup)
    (hplaces : ∀ c ∈ places, (g.widgetAt? c).isSome = true) {v : Json} {o o' : Outside}
    (h : (Act.each places fun c => onWidgets c.1 (Widget.assign c.2 v)).exec (g, o) =
      (.ok ⟨⟩, (g', o'))) :
    g'.mapNodes Node.bare = g.mapNodes Node.bare ∧
      ∀ k, g'.valueAt k = if k ∈ places then some v else g.valueAt k := by
  induction places generalizing g o with
  | nil =>
    cases h
    exact ⟨rfl, by simp⟩
  | cons c places ih =>
    rcases Act.exec_bind_eq_ok_iff.1 h with ⟨_, ⟨g₁, o₁⟩, hfirst, h⟩
    have hc := hplaces c List.mem_cons_self
    have hset := exec_onWidgets_assign_fst hids hc v o
    rw [hfirst] at hset
    have hset : g₁ = g.setValue c v := hset
    subst hset
    have hshape := shape_setValue c v g
    have hids₁ : ((g.setValue c v).nodes.map (·.id)).Nodup := by rwa [ids_of_shape hshape]
    have hplaces₁ : ∀ k ∈ places, ((g.setValue c v).widgetAt? k).isSome = true := by
      intro k hk
      rw [isSome_widgetAt?_of_shape hshape]
      exact hplaces k (List.mem_cons_of_mem c hk)
    rcases ih hids₁ hplaces₁ h with ⟨hshape', hvalues⟩
    refine ⟨hshape'.trans hshape, fun k => ?_⟩
    rw [hvalues k, valueAt_setValue hc]
    by_cases hk : k ∈ places <;> simp [hk]

/-- A push that succeeds: a primitive with a widget has readable targets, they end up with what its
first widget then holds, and no other widget changes. -/
theorem exec_pushValue_eq_ok (hids : (g.nodes.map (·.id)).Nodup) {id : NodeId} {o o' : Outside}
    (h : (pushValue id).exec (g, o) = (.ok ⟨⟩, (g', o'))) :
    g'.mapNodes Node.bare = g.mapNodes Node.bare ∧
      (∀ k, ¬ g.PushesTo id k → g'.valueAt k = g.valueAt k) ∧
      ∀ n, g.at? id = some n → n.kind.isPrimitive = true → n.widgets ≠ [] →
        ∃ places, g.targets n = .ok places ∧ ∀ k ∈ places, g'.valueAt k = g'.valueAt (id, 0) := by
  rcases exec_pushValue_eq g id o with ⟨n, w, ws, places, hn, hprimitive, hwidgets, hplaces, hexec⟩ |
    ⟨n, f, -, -, -, -, hexec⟩ | ⟨hidle, hexec⟩
  · rw [hexec] at h
    rcases exec_each_assign_eq_ok hids (fun c hc => isSome_of_mem_targets hids hplaces hc) h with
      ⟨hshape, hvalues⟩
    have hsource : g.valueAt (id, 0) = some w.value := by
      rw [← id_of_at? hn, valueAt_of_mem hids (mem_of_at? hn), hwidgets]
      rfl
    refine ⟨hshape, fun k hk => ?_, fun m hm _ _ => ?_⟩
    · rw [hvalues k, if_neg]
      exact fun hmem => hk ⟨n, places, hn, hprimitive, hplaces, hmem⟩
    · cases hn.symm.trans hm
      refine ⟨places, hplaces, fun k hk => ?_⟩
      rw [hvalues k, if_pos hk, hvalues, hsource, ite_self]
  · rw [hexec] at h
    cases h
  · rw [hexec] at h
    cases h
    refine ⟨rfl, fun _ _ => rfl, fun n hn hprimitive hwidgets => ?_⟩
    have hempty := hidle n hn
    rw [hprimitive, Bool.true_and, Bool.not_eq_false', List.isEmpty_iff] at hempty
    exact absurd hempty hwidgets

/-- What is done to the widgets of a node leaves those of the others alone. -/
theorem valueAt_modifyNode_of_ne {k : NodeId × Nat} {id : NodeId} (hk : k.1 ≠ id) (ws : List Widget) :
    (g.modifyNode id fun n => { n with widgets := ws }).valueAt k = g.valueAt k := by
  have hneutral : IsNeutral fun n : Node γ => if n.id = id then { n with widgets := ws } else n := by
    refine ⟨fun n => ?_, fun n => ?_, fun n => ?_⟩ <;> split <;> rfl
  rw [valueAt_eq, valueAt_eq, modifyNode_eq_mapNodes, at?_mapNodes hneutral]
  cases hn : g.at? k.1 with
  | none => rfl
  | some n =>
    have hne : n.id ≠ id := id_of_at? hn ▸ hk
    simp [hne]

private theorem onWidgets_keepsOthers {α : Type} (id : NodeId) (act : Act Bench α) :
    (onWidgets (γ := γ) id act).Within
      (.keeping fun s (k : { k : NodeId × Nat // k.1 ≠ id }) => s.1.valueAt k) :=
  .focus_free act fun _ _ => funext fun k => valueAt_modifyNode_of_ne k.2 _

private theorem pushesTo_mapNodes {f : Node γ → Node γ} (hf : IsNominal f) {id : NodeId}
    {k : NodeId × Nat} : (g.mapNodes f).PushesTo id k ↔ g.PushesTo id k := by
  have hat := at?_mapNodes hf.toIsNeutral g id
  constructor
  · rintro ⟨m, places, hm, hprimitive, hplaces, hk⟩
    rw [hat] at hm
    rcases Option.map_eq_some_iff.1 hm with ⟨n, hn, rfl⟩
    rw [hf.isPrimitive] at hprimitive
    rw [targets_mapNodes hf.isNamed] at hplaces
    exact ⟨n, places, hn, hprimitive, hplaces, hk⟩
  · rintro ⟨n, places, hn, hprimitive, hplaces, hk⟩
    refine ⟨f n, places, by rw [hat, hn]; rfl, ?_, ?_, hk⟩
    · rw [hf.isPrimitive, hprimitive]
    · rw [targets_mapNodes hf.isNamed, hplaces]

/-- The first output of the primitive of an id is linked to the widget at a place. -/
def LinkedTo (g : Graph γ) (id : NodeId) (k : NodeId × Nat) : Prop :=
  ∃ n ls l, g.at? id = some n ∧ n.kind.isPrimitive = true ∧ g.outLinks? n 0 = .ok ls ∧ l ∈ ls ∧
    g.targetOf l = .ok (some k)

private theorem linkedTo_mapNodes {f : Node γ → Node γ} (hf : IsNominal f) {id : NodeId}
    {k : NodeId × Nat} : (g.mapNodes f).LinkedTo id k ↔ g.LinkedTo id k := by
  have hat := at?_mapNodes hf.toIsNeutral g id
  have hlinks : ∀ n, (g.mapNodes f).outLinks? (f n) 0 = g.outLinks? n 0 := by
    intro n
    simp only [outLinks?, hf.outputs, hf.isCutOff]
    rfl
  constructor
  · rintro ⟨m, ls, l, hm, hprimitive, hls, hl, htarget⟩
    rw [hat] at hm
    rcases Option.map_eq_some_iff.1 hm with ⟨n, hn, rfl⟩
    rw [hf.isPrimitive] at hprimitive
    rw [targetOf_mapNodes hf.isNamed] at htarget
    exact ⟨n, ls, l, hn, hprimitive, (hlinks n).symm.trans hls, hl, htarget⟩
  · rintro ⟨n, ls, l, hn, hprimitive, hls, hl, htarget⟩
    refine ⟨f n, ls, l, by rw [hat, hn]; rfl, ?_, (hlinks n).trans hls, hl, ?_⟩
    · rw [hf.isPrimitive, hprimitive]
    · rw [targetOf_mapNodes hf.isNamed, htarget]

private theorem mem_targetsOf_of_mem {ls : List Link} {places : List (NodeId × Nat)}
    (h : g.targetsOf ls = .ok places) {l : Link} (hl : l ∈ ls) {k : NodeId × Nat}
    (hk : g.targetOf l = .ok (some k)) : k ∈ places := by
  induction ls generalizing places with
  | nil => cases hl
  | cons first ls ih =>
    rcases Fault.bind_eq_ok_iff.1 h with ⟨found, hfound, h⟩
    rcases Fault.bind_eq_ok_iff.1 h with ⟨rest, hrest, h⟩
    cases h
    rcases List.mem_cons.1 hl with rfl | hl
    · rw [hfound, Except.ok.injEq] at hk
      exact List.mem_append_left _ (Option.mem_toList.2 hk)
    · exact List.mem_append_right _ (ih hrest hl)

private theorem LinkedTo.exists_primitive {id : NodeId} {k : NodeId × Nat} (h : g.LinkedTo id k) :
    ∃ n, g.at? id = some n ∧ n.kind.isPrimitive = true := by
  rcases h with ⟨n, _, _, hn, hprimitive, -⟩
  exact ⟨n, hn, hprimitive⟩

private theorem LinkedTo.mem_targets {id : NodeId} {k : NodeId × Nat} (h : g.LinkedTo id k)
    {n : Node γ}
    (hn : g.at? id = some n) {places : List (NodeId × Nat)} (hplaces : g.targets n = .ok places) :
    k ∈ places := by
  rcases h with ⟨m, ls, l, hm, -, hls, hl, htarget⟩
  cases hn.symm.trans hm
  rcases Fault.bind_eq_ok_iff.1 hplaces with ⟨ls', hls', hplaces⟩
  rw [hls, Except.ok.injEq] at hls'
  exact mem_targetsOf_of_mem hplaces (hls' ▸ hl) htarget

/-- After a push that succeeds, a widget that a primitive with a value is linked to holds what the
primitive holds. -/
theorem LinkedTo.valueAt_of_push {id : NodeId} {k : NodeId × Nat} (hlinked : g.LinkedTo id k)
    (hids : (g.nodes.map (·.id)).Nodup) (hvalue : (g.valueAt (id, 0)).isSome = true) {o o' : Outside}
    (h : (pushValue id).exec (g, o) = (.ok ⟨⟩, (g', o'))) : g'.valueAt k = g'.valueAt (id, 0) := by
  rcases hlinked.exists_primitive with ⟨n, hn, hprimitive⟩
  have hwidgets : n.widgets ≠ [] := by
    intro hempty
    simp [valueAt_eq, hn, hempty] at hvalue
  rcases (exec_pushValue_eq_ok hids h).2.2 n hn hprimitive hwidgets with ⟨places, hplaces, hvalues⟩
  exact hvalues _ (hlinked.mem_targets hn hplaces)

end Graph

/-! ## Workflows -/

namespace Workflow

variable {g g' : Workflow}

private theorem pushesTo_skeleton {place : Place} {k : Cell} :
    PushesTo (skeleton g) place k ↔ PushesTo g place k := by
  have houter : ∀ id c, Graph.PushesTo (skeleton g) id c ↔ Graph.PushesTo g id c := fun id c =>
    (Graph.pushesTo_mapNodes Graph.isNominal_hollow).trans
      (Graph.pushesTo_mapNodes Graph.isNominal_bare)
  have hinner : ∀ host id c, (innerGraph (skeleton g) host).PushesTo id c ↔
      (innerGraph g host).PushesTo id c := by
    intro host id c
    rw [innerGraph_skeleton]
    exact Graph.pushesTo_mapNodes Graph.isNominal_bare
  constructor
  · rintro (h | h)
    · exact .outer ((houter _ _).1 h)
    · exact .inner ((hinner _ _ _).1 h)
  · rintro (h | h)
    · exact .outer ((houter _ _).2 h)
    · exact .inner ((hinner _ _ _).2 h)

/-- What primitives are linked to depends on the skeleton only. -/
theorem pushesTo_of_skeleton_eq (h : skeleton g' = skeleton g) {place : Place} {k : Cell} :
    PushesTo g' place k ↔ PushesTo g place k := by
  rw [← pushesTo_skeleton, h, pushesTo_skeleton]

/-- The primitive at a place is linked to the widget by its first output. -/
inductive LinkedTo (g : Workflow) : Place → Cell → Prop
  | outer {id : NodeId} {c : NodeId × Nat} (h : Graph.LinkedTo g id c) :
    LinkedTo g (.outer id) (outerCell c)
  | inner {host id : NodeId} {c : NodeId × Nat} (h : (innerGraph g host).LinkedTo id c) :
    LinkedTo g (.inner host id) (innerCell host c)

private theorem linkedTo_skeleton {place : Place} {k : Cell} :
    LinkedTo (skeleton g) place k ↔ LinkedTo g place k := by
  have houter : ∀ id c, Graph.LinkedTo (skeleton g) id c ↔ Graph.LinkedTo g id c := fun id c =>
    (Graph.linkedTo_mapNodes Graph.isNominal_hollow).trans
      (Graph.linkedTo_mapNodes Graph.isNominal_bare)
  have hinner : ∀ host id c, (innerGraph (skeleton g) host).LinkedTo id c ↔
      (innerGraph g host).LinkedTo id c := by
    intro host id c
    rw [innerGraph_skeleton]
    exact Graph.linkedTo_mapNodes Graph.isNominal_bare
  constructor
  · rintro (h | h)
    · exact .outer ((houter _ _).1 h)
    · exact .inner ((hinner _ _ _).1 h)
  · rintro (h | h)
    · exact .outer ((houter _ _).2 h)
    · exact .inner ((hinner _ _ _).2 h)

private theorem linkedTo_of_skeleton_eq (h : skeleton g' = skeleton g) {place : Place} {k : Cell} :
    LinkedTo g' place k ↔ LinkedTo g place k := by
  rw [← linkedTo_skeleton, h, linkedTo_skeleton]

/-- What is done inside a group leaves the values alone that it does not change there. -/
theorem valueAt_modifyGroup {host : NodeId} {inner : Subgraph} {k : Cell}
    (h : ∀ id i, k = (.inner host id, i) →
      inner.valueAt (id, i) = (innerGraph g host).valueAt (id, i)) :
    valueAt (modifyGroup host (fun _ => inner) g) k = valueAt g k := by
  rcases k with ⟨id | ⟨other, id⟩, i⟩
  · rw [valueAt, valueAt, outer_valueAt_modifyGroup]
  · by_cases hother : other = host
    · subst hother
      have hsame := h id i rfl
      rw [valueAt, valueAt, ← hsame, innerGraph, at?_modifyGroup]
      rw [innerGraph] at hsame
      cases hn : g.at? other with
      | none =>
        rw [hn] at hsame
        rw [hsame]
        rfl
      | some n =>
        rw [hn] at hsame
        have hid := Graph.id_of_at? hn
        cases hkind : n.kind <;> simp_all [Node.group?]
    · rw [valueAt, valueAt, innerGraph_modifyGroup_of_ne hother]

end Workflow

/-! ## Actions that leave widgets alone -/

namespace Editor

open Workflow

/-- On every workflow with the skeleton of the given one, if the action succeeds, it keeps the
skeleton and the values of these widgets. -/
def Keeps (g : Workflow) (K : Cell → Prop) (act : EditorAct PUnit) : Prop :=
  ∀ e e' : Editor, skeleton e.graph = skeleton g → act.exec e = (.ok ⟨⟩, e') →
    skeleton e'.graph = skeleton g ∧ ∀ k, K k → valueAt e'.graph k = valueAt e.graph k

variable {g : Workflow} {K : Cell → Prop} {act act' : EditorAct PUnit}

namespace Keeps

private theorem nothing
    (h : ∀ e : Editor, skeleton e.graph = skeleton g → act.exec e = (.ok ⟨⟩, e)) :
    Keeps g K act := by
  intro e e' he hexec
  rw [h e he] at hexec
  cases hexec
  exact ⟨he, fun _ _ => rfl⟩

private theorem bind (h : Keeps g K act) (h' : Keeps g K act') :
    Keeps g K (act >>= fun _ => act') := by
  intro e e' he hexec
  rcases Act.exec_bind_eq_ok_iff.1 hexec with ⟨_, e₁, hfirst, hsecond⟩
  rcases h e e₁ he hfirst with ⟨he₁, hvalues₁⟩
  rcases h' e₁ e' he₁ hsecond with ⟨he', hvalues'⟩
  exact ⟨he', fun k hk => (hvalues' k hk).trans (hvalues₁ k hk)⟩

/-- One action for every item keeps the given cells if each does. -/
theorem each {β : Type} {f : β → EditorAct PUnit} {xs : List β} (h : ∀ x ∈ xs, Keeps g K (f x)) :
    Keeps g K (Act.each xs f) := by
  induction xs with
  | nil => exact .nothing fun _ _ => rfl
  | cons x xs ih =>
    exact (h x List.mem_cons_self).bind (ih fun y hy => h y (List.mem_cons_of_mem x hy))

end Keeps

/-! ## Hooks -/

/-- What is done to the widgets at a place leaves those at other places alone. -/
theorem onPlace_keepsOthers {α : Type} (place : Place) (act : Act Bench α) :
    (onPlace place act).Within
      (.keeping fun e (k : { k : Cell // k.1 ≠ place }) => valueAt e.graph k) := by
  have hgraph : ∀ act : Act (Workflow × Outside) α,
      act.Within (.keeping fun s (k : { k : Cell // k.1 ≠ place }) => valueAt s.1 k) →
      (onGraph act).Within (.keeping fun e (k : { k : Cell // k.1 ≠ place }) => valueAt e.graph k) :=
    fun _ h => .focus h fun _ _ hsame => hsame
  refine hgraph _ ?_
  cases place with
  | outer id =>
    refine .focus_free act fun s b => funext fun k => ?_
    rcases k with ⟨⟨other | ⟨host, other⟩, i⟩, hk⟩
    · have hne : other ≠ id := fun h => hk (congrArg Place.outer h)
      exact Graph.valueAt_modifyNode_of_ne (k := (other, i)) hne b.1
    · have hneutral : Graph.IsNeutral fun n : Node Group =>
          if n.id = id then { n with widgets := b.1 } else n := by
        refine ⟨fun n => ?_, fun n => ?_, fun n => ?_⟩ <;> split <;> rfl
      have hinner : innerGraph (s.1.modifyNode id fun n => { n with widgets := b.1 }) host =
          innerGraph s.1 host := by
        rw [innerGraph, innerGraph, Graph.modifyNode_eq_mapNodes, Graph.at?_mapNodes hneutral]
        cases s.1.at? host with
        | none => rfl
        | some n => by_cases hn : n.id = id <;> simp [hn, Node.group?]
      exact congrArg (fun h : Subgraph => h.valueAt (other, i)) hinner
  | inner host id =>
    refine .focus (Graph.onWidgets_keepsOthers id act) fun s t hsame => funext fun k => ?_
    refine valueAt_modifyGroup fun other i hk => ?_
    have hne : other ≠ id := fun h => k.2 (by rw [hk, h])
    exact congrFun hsame ⟨(other, i), hne⟩

section Distinct

variable (hdistinct : Distinct g)

include hdistinct

/-- The hooks at a place leave the widgets at other places alone. -/
theorem runBefore_keeps {place : Place} (hK : ∀ k, K k → k.1 ≠ place) :
    Keeps g K (runBefore place) := by
  intro e e' he hexec
  have hskeleton := (runBefore_sameSkeleton place).of_exec hexec (distinct_of_skeleton_eq he hdistinct)
  have hothers : (runBefore place).Within
      (.keeping fun e (k : { k : Cell // k.1 ≠ place }) => valueAt e.graph k) := by
    refine .bind .get fun e => .each fun i => ?_
    split
    · exact onPlace_keepsOthers place _
    · exact .pure _
  exact ⟨hskeleton.trans he, fun k hk => congrFun (hothers.of_exec hexec) ⟨k, hK k hk⟩⟩

omit hdistinct in
/-- Where no widget has a hook, all widgets are left alone. -/
theorem runBefore_keeps_of_quiet {place : Place}
    (hquiet : ∀ w ∈ Workflow.widgetsAt g place, w.beforeQueued = none) :
    Keeps g K (runBefore place) := by
  refine .nothing fun e he => ?_
  have hbare := bare_widgetsAt_of_skeleton_eq he place
  have hnone : ∀ i : Nat, ((e.widgetsAt place)[i]?).bind (·.beforeQueued) = none := by
    intro i
    cases hw : (e.widgetsAt place)[i]? with
    | none => rfl
    | some w =>
      have hmem : w.bare ∈ (Workflow.widgetsAt g place).map Widget.bare := by
        rw [← hbare]
        exact List.mem_map_of_mem (List.mem_of_getElem? hw)
      rcases List.mem_map.1 hmem with ⟨u, hu, hsame⟩
      have hbefore : u.bare.beforeQueued = w.bare.beforeQueued :=
        congrArg Widget.beforeQueued hsame
      exact hbefore.symm.trans (hquiet u hu)
  have heach : ∀ is : List Nat,
      (Act.each is (beforeStep place (e.widgetsAt place))).exec e = (.ok ⟨⟩, e) := by
    intro is
    induction is with
    | nil => rfl
    | cons i is ih =>
      rw [Act.each, Act.exec_bind, beforeStep_of_none (hnone i)]
      exact ih
  rw [exec_runBefore]
  exact heach _

/-! ## Pushes -/

/-- A push that succeeds changes nothing but the widgets that the primitive is linked to, and if the
primitive has a value, they end up with it. -/
theorem pushAt_eq_ok {place : Place} {e e' : Editor} (he : skeleton e.graph = skeleton g)
    (h : (pushAt place).exec e = (.ok ⟨⟩, e')) :
    skeleton e'.graph = skeleton g ∧
      (∀ k, ¬ PushesTo g place k → valueAt e'.graph k = valueAt e.graph k) ∧
      ∀ k, LinkedTo g place k → (valueAt e.graph (place, 0)).isSome = true →
        valueAt e'.graph k = valueAt e'.graph (place, 0) := by
  have hskeleton := (pushAt_sameSkeleton place).of_exec h (distinct_of_skeleton_eq he hdistinct)
  refine ⟨hskeleton.trans he, ?_⟩
  simp only [← pushesTo_of_skeleton_eq he, ← linkedTo_of_skeleton_eq he]
  have hdistinct := distinct_of_skeleton_eq he hdistinct
  cases place with
  | outer id =>
    have hpush : (pushAt (.outer id)).exec e = _ := exec_onGraph (Graph.pushValue id) e
    rw [h] at hpush
    rcases hexec : (Graph.pushValue id).exec (e.graph, e.outside) with ⟨r, g', o⟩
    rw [hexec] at hpush
    cases hpush
    rcases Graph.exec_pushValue_eq_ok hdistinct.outer hexec with ⟨hshape, hothers, -⟩
    constructor
    · rintro ⟨other | ⟨host, other⟩, i⟩ hk
      · exact hothers (other, i) fun hpushes => hk (.outer hpushes)
      · rw [valueAt, valueAt, innerGraph_of_shape hshape]
    · rintro k ⟨hlinked⟩ hvalue
      exact hlinked.valueAt_of_push hdistinct.outer hvalue hexec
  | inner host id =>
    have hpush : (pushAt (.inner host id)).exec e = _ :=
      exec_onGraph (onInner host (Graph.pushValue id)) e
    have hinner : (onInner host (Graph.pushValue id)).exec (e.graph, e.outside) = _ :=
      (pushValue_isStraight id).exec_focus _ _ _
    rw [hinner, h] at hpush
    rcases hexec : (Graph.pushValue id).exec (innerGraph e.graph host, e.outside) with ⟨r, inner, o⟩
    rw [hexec] at hpush
    cases hpush
    rcases Graph.exec_pushValue_eq_ok (hdistinct.innerGraph host) hexec with ⟨hshape, hothers, -⟩
    have hcell : ∀ c : NodeId × Nat,
        valueAt (modifyGroup host (fun _ => inner) e.graph) (.inner host c.1, c.2) =
          inner.valueAt c := by
      intro c
      rw [valueAt, innerGraph_modifyGroup hshape]
    constructor
    · intro k hk
      refine valueAt_modifyGroup fun other i hcell => ?_
      subst hcell
      exact hothers (other, i) fun hpushes => hk (.inner hpushes)
    · intro k hk hvalue
      cases hk with
      | inner hlinked =>
        have hsame := hlinked.valueAt_of_push (hdistinct.innerGraph host) hvalue hexec
        exact ((hcell _).trans hsame).trans (hcell (id, 0)).symm

/-- A push keeps the cells that it is not linked to. -/
theorem pushAt_keeps {place : Place} (hK : ∀ k, K k → ¬ PushesTo g place k) :
    Keeps g K (pushAt place) := by
  intro e e' he hexec
  rcases pushAt_eq_ok hdistinct he hexec with ⟨he', hothers, -⟩
  exact ⟨he', fun k hk => hothers k (hK k hk)⟩

/-! ## The turn of a node -/

omit hdistinct in
/-- When its turn comes, a node runs the hooks and makes the pushes that its skeleton says. -/
theorem exec_prepareNode {id : NodeId} {n : Node Group} (hn : g.at? id = some n) {e e' : Editor}
    (he : skeleton e.graph = skeleton g) (h : (prepareNode id).exec e = (.ok ⟨⟩, e')) :
    ∃ hooked pushing, hookPlaces n = .ok hooked ∧ n.pushPlaces = .ok pushing ∧
      (Act.each hooked runBefore >>= fun _ => Act.each pushing pushAt).exec e = (.ok ⟨⟩, e') := by
  have hfound : (e.graph.at? id).map (fun n => n.bare.hollow) = some n.bare.hollow := by
    rw [← at?_skeleton, he, at?_skeleton, hn]
    rfl
  rcases Option.map_eq_some_iff.1 hfound with ⟨m, hm, hsame⟩
  have hhooked : hookPlaces m = hookPlaces n := by
    rw [← hookPlaces_hollow m, hsame, hookPlaces_hollow n]
  have hpushing : m.pushPlaces = n.pushPlaces := by
    rw [← pushPlaces_hollow m, hsame, pushPlaces_hollow n]
  have hwork : (prepareNode id).exec e = (work m).exec e := by
    rw [prepareNode, Act.exec_bind, Act.exec_get]
    simp only [hm]
    rfl
  rw [hwork, work] at h
  rw [← hhooked, ← hpushing, hookPlaces, Node.pushPlaces]
  rcases Act.exec_bind_eq_ok_iff.1 h with ⟨sites, _, hlift, h⟩
  rcases Act.exec_lift_eq_ok_iff.1 hlift with ⟨hsites, rfl⟩
  rcases Act.exec_bind_eq_ok_iff.1 h with ⟨_, e₁, hhooks, h⟩
  rcases Act.exec_bind_eq_ok_iff.1 h with ⟨inner, _, hlift, h⟩
  rcases Act.exec_lift_eq_ok_iff.1 hlift with ⟨hinner, rfl⟩
  refine ⟨_, _, by rw [hsites]; rfl, by rw [hinner]; rfl, ?_⟩
  refine Act.exec_bind_eq_ok_iff.2 ⟨⟨⟩, e₁, ?_, ?_⟩
  · rw [Act.each_map]
    exact hhooks
  · rw [Act.each_map]
    exact h

/-- Hooks keep the cells of widgets that have none. -/
theorem hooks_keep {hooked : List Place}
    (hK : ∀ k, K k → k.1 ∈ hooked → ∀ w ∈ Workflow.widgetsAt g k.1, w.beforeQueued = none) :
    Keeps g K (Act.each hooked runBefore) := by
  refine .each fun q hq => ?_
  by_cases hthere : ∃ k, K k ∧ k.1 = q
  · rcases hthere with ⟨k, hk, rfl⟩
    exact runBefore_keeps_of_quiet (hK k hk hq)
  · exact runBefore_keeps hdistinct fun k hk hsame => hthere ⟨k, hk, hsame⟩

/-- The turn of a node leaves the widgets alone that none of its hooks and pushes reaches. -/
theorem prepareNode_keeps {id : NodeId}
    (hK : ∀ n, g.at? id = some n → ∀ k, K k →
      (∀ hooked, hookPlaces n = .ok hooked → k.1 ∈ hooked →
        ∀ w ∈ Workflow.widgetsAt g k.1, w.beforeQueued = none) ∧
      ∀ pushing, n.pushPlaces = .ok pushing → ∀ q ∈ pushing, ¬ PushesTo g q k) :
    Keeps g K (prepareNode id) := by
  cases hn : g.at? id with
  | none =>
    refine .nothing fun e he => ?_
    have hfound : (e.graph.at? id).map (fun n => n.bare.hollow) = none := by
      rw [← at?_skeleton, he, at?_skeleton, hn]
      rfl
    rw [Option.map_eq_none_iff] at hfound
    rw [prepareNode, Act.exec_bind, Act.exec_get]
    simp only [hfound]
    rfl
  | some n =>
    intro e e' he hexec
    rcases exec_prepareNode hn he hexec with ⟨hooked, pushing, hhooked, hpushing, hturn⟩
    have hhooks : Keeps g K (Act.each hooked runBefore) :=
      hooks_keep hdistinct fun k hk => (hK n hn k hk).1 hooked hhooked
    have hpushes : Keeps g K (Act.each pushing pushAt) := .each fun q hq =>
      pushAt_keeps hdistinct fun k hk => (hK n hn k hk).2 pushing hpushing q hq
    exact hhooks.bind hpushes e e' he hturn

/-! ## A preparation -/

omit hdistinct in
/-- The hooks of a node are at its place and inside it. -/
theorem host_of_mem_hookPlaces {n : Node Group} {hooked : List Place}
    (h : hookPlaces n = .ok hooked) {q : Place} (hq : q ∈ hooked) : q.host = n.id := by
  rcases Fault.bind_eq_ok_iff.1 h with ⟨sites, hsites, h⟩
  rcases Fault.bind_eq_ok_iff.1 hsites with ⟨inner, hinner, hsites⟩
  cases h
  cases hsites
  rcases List.mem_map.1 hq with ⟨s, hs, rfl⟩
  rcases List.mem_cons.1 hs with rfl | hs
  · rfl
  · rcases innerSites?_cases hinner with ⟨-, rfl⟩ | ⟨group, order, -, -, rfl⟩
    · cases hs
    · rcases List.mem_map.1 hs with ⟨m, -, rfl⟩
      rfl

/-- A widget of a node without hooks that no primitive is linked to keeps its value. -/
theorem prepare_keeps {order : List NodeId} {k : Cell}
    (hquiet : ∀ w ∈ Workflow.widgetsAt g k.1, w.beforeQueued = none) (hfree : ¬ IsTarget g k) :
    Keeps g (· = k) (prepare order) := by
  refine .each fun id _ => prepareNode_keeps hdistinct fun n hn k' hk' => ?_
  cases hk'
  exact ⟨fun _ _ _ => hquiet, fun _ _ q _ hpushes => hfree ⟨q, hpushes⟩⟩

/-- Within a preparation that succeeds, the pushes in the turn of a node do, and so do the turns of the
nodes behind it. -/
theorem exists_turn_of_prepare {order : List NodeId} (horder : g.plan = .ok order) {e e' : Editor}
    (he : skeleton e.graph = skeleton g) (h : (prepare order).exec e = (.ok ⟨⟩, e')) {id : NodeId}
    {n : Node Group} (hn : g.at? id = some n) :
    ∃ hooked pushing back e₁ e₂, hookPlaces n = .ok hooked ∧ n.pushPlaces = .ok pushing ∧
      skeleton e₁.graph = skeleton g ∧ (Act.each pushing pushAt).exec e₁ = (.ok ⟨⟩, e₂) ∧
      (prepare back).exec e₂ = (.ok ⟨⟩, e') ∧ ∀ id' ∈ back, g.position id < g.position id' := by
  have hordered : Graph.Ordered g := ⟨hdistinct.outer, order, horder⟩
  have hmem : id ∈ order := by
    rw [← Graph.id_of_at? hn]
    exact (hordered.plan_perm horder).mem_iff.2 (List.mem_map_of_mem (Graph.mem_of_at? hn))
  obtain ⟨front, back, rfl⟩ := List.append_of_mem hmem
  rcases Act.exec_each_append_eq_ok_iff.1 h with ⟨e₀, hfront, hrest⟩
  rcases Act.exec_bind_eq_ok_iff.1 hrest with ⟨_, e₂, hturn, hback⟩
  have hfrontKeep : Keeps g (fun _ => False) (Act.each front prepareNode) := .each fun id _ =>
    prepareNode_keeps hdistinct fun _ _ _ hk => hk.elim
  have he₀ := (hfrontKeep e e₀ he hfront).1
  rcases exec_prepareNode hn he₀ hturn with ⟨hooked, pushing, hhooked, hpushing, hturn⟩
  rcases Act.exec_bind_eq_ok_iff.1 hturn with ⟨_, e₁, hhooks, hpushes⟩
  have hhooksKeep : Keeps g (fun _ => False) (Act.each hooked runBefore) :=
    hooks_keep hdistinct fun _ hk => hk.elim
  have hlater := (List.pairwise_append.1 (hordered.plan_pairwise horder)).2.1
  exact ⟨hooked, pushing, back, e₁, e₂, hhooked, hpushing, (hhooksKeep e₀ e₁ he₀ hhooks).1, hpushes,
    hback, (List.pairwise_cons.1 hlater).1⟩

/-- Where a preparation succeeds, what is inside each node can be ordered. -/
theorem exists_places_of_prepare {order : List NodeId} (horder : g.plan = .ok order)
    {e e' : Editor} (he : skeleton e.graph = skeleton g)
    (h : (prepare order).exec e = (.ok ⟨⟩, e')) {n : Node Group} (hn : n ∈ g.nodes) :
    ∃ hooked pushing, hookPlaces n = .ok hooked ∧ n.pushPlaces = .ok pushing := by
  rcases exists_turn_of_prepare hdistinct horder he h (Graph.at?_of_mem hdistinct.outer hn) with
    ⟨hooked, pushing, _, _, _, hhooked, hpushing, -⟩
  exact ⟨hooked, pushing, hhooked, hpushing⟩

/-- Where a preparation succeeds, the graphs inside groups can be ordered. -/
theorem planned_of_prepare {order : List NodeId} (horder : g.plan = .ok order) {e e' : Editor}
    (he : skeleton e.graph = skeleton g) (h : (prepare order).exec e = (.ok ⟨⟩, e')) :
    Planned g := by
  refine ⟨⟨order, horder⟩, fun n hn group hgroup => ?_⟩
  rcases exists_places_of_prepare hdistinct horder he h hn with ⟨_, pushing, -, hpushing⟩
  rcases pushPlaces_cases hpushing with ⟨hnone, -⟩ | ⟨group', order', hgroup', horder', -⟩
  · rw [hgroup] at hnone
    cases hnone
  · rw [hgroup] at hgroup'
    cases hgroup'
    exact ⟨order', horder'⟩

/-- Where the last push to a widget has been made, further pushes leave it alone. -/
theorem pushes_keep {p : Place} {k : Cell}
    (hlast : ∀ q, PushesTo g q k → placeRank g q ≤ placeRank g p) {after : List Place}
    (hafter : ∀ q ∈ after, placeRank g p < placeRank g q) :
    Keeps g (· = k) (Act.each after pushAt) := by
  refine .each fun q hq => pushAt_keeps hdistinct ?_
  rintro _ rfl hpushes
  exact absurd (hlast q hpushes) (not_le_of_gt (hafter q hq))

/-- Where the last push to a widget has been made, the turns of later nodes leave it alone, unless a
hook of such a node belongs to it. -/
theorem turns_keep {p : Place} {k : Cell}
    (hlast : ∀ q, PushesTo g q k → placeRank g q ≤ placeRank g p)
    (hquiet : k.1.host = p.host ∨ ∀ w ∈ Workflow.widgetsAt g k.1, w.beforeQueued = none)
    {back : List NodeId} (hback : ∀ id ∈ back, g.position p.host < g.position id) :
    Keeps g (· = k) (prepare back) := by
  refine .each fun id hid => prepareNode_keeps hdistinct ?_
  rintro m hm _ rfl
  have hlt := hback id hid
  have hother : m.id = id := Graph.id_of_at? hm
  constructor
  · intro hooked hhooked hk
    rcases hquiet with hsame | hquiet
    · have hhost := host_of_mem_hookPlaces hhooked hk
      rw [hsame, hother] at hhost
      rw [hhost] at hlt
      exact absurd hlt (lt_irrefl _)
    · exact hquiet
  · intro pushing hpushing q hq hpushes
    have hhost := (placeRank_pushPlaces hdistinct (Graph.mem_of_at? hm) hpushing).2 q hq
    have hrank : placeRank g p < placeRank g q := placeRank_lt_of_host (by rwa [hhost, hother])
    exact absurd (hlast q hpushes) (not_le_of_gt hrank)

/-- Within a preparation that succeeds, the push of a primitive succeeds.  What a widget then holds
stays, unless a later push goes to it or a hook of a later node belongs to it. -/
theorem exists_push_of_prepare {order : List NodeId} (horder : g.plan = .ok order) {p : Place}
    {n : Node Group} (hn : g.at? p.host = some n)
    (hp : ∀ pushing, n.pushPlaces = .ok pushing → p ∈ pushing) {e e' : Editor}
    (he : skeleton e.graph = skeleton g) (h : (prepare order).exec e = (.ok ⟨⟩, e')) :
    ∃ e₁ e₂, skeleton e₁.graph = skeleton g ∧ (pushAt p).exec e₁ = (.ok ⟨⟩, e₂) ∧
      ∀ k, (∀ q, PushesTo g q k → placeRank g q ≤ placeRank g p) →
        (k.1.host = p.host ∨ ∀ w ∈ Workflow.widgetsAt g k.1, w.beforeQueued = none) →
        valueAt e'.graph k = valueAt e₂.graph k := by
  rcases exists_turn_of_prepare hdistinct horder he h hn with
    ⟨_, pushing, back, e₀, e₃, -, hpushing, he₀, hpushes, hrest, hback⟩
  have hascending := (placeRank_pushPlaces hdistinct (Graph.mem_of_at? hn) hpushing).1
  obtain ⟨before, after, rfl⟩ := List.append_of_mem (hp pushing hpushing)
  have hafter := (List.pairwise_cons.1 (List.pairwise_append.1 hascending).2.1).1
  rcases Act.exec_each_append_eq_ok_iff.1 hpushes with ⟨e₁, hbefore, hpushes⟩
  rcases Act.exec_bind_eq_ok_iff.1 hpushes with ⟨_, e₂, hpush, hlater⟩
  have hbeforeKeep : Keeps g (fun _ => False) (Act.each before pushAt) := .each fun q _ =>
    pushAt_keeps hdistinct fun _ hk => hk.elim
  have he₁ := (hbeforeKeep e₀ e₁ he₀ hbefore).1
  refine ⟨e₁, e₂, he₁, hpush, fun k hlast hquiet => ?_⟩
  have he₂ := (pushAt_eq_ok hdistinct he₁ hpush).1
  rcases pushes_keep hdistinct hlast hafter e₂ e₃ he₂ hlater with ⟨he₃, hvalue₃⟩
  have hvalue' := (turns_keep hdistinct hlast hquiet hback e₃ e' he₃ hrest).2
  exact (hvalue' k rfl).trans (hvalue₃ k rfl)

end Distinct

end Editor

end NodeFlow
