import NodeFlow.Proofs.Compile.Pushes
import NodeFlow.Proofs.Editor.Echo
import NodeFlow.Proofs.Drift

/-!
# Rounds of hooks

A submission that nobody disturbs prepares the workflow and then runs one round of the hooks that come
after a submission, whatever the backend says in between.

Main results:

- Definitions `Editor.prepared`, `Editor.settled`, `Editor.rounds` and `Editor.runUnder`.
- Theorem `Workflow.count_roundPlaces`: a round comes to each node once, inside groups too.
- Theorem `Editor.skeleton_rounds`: rounds change values of widgets only.
- Theorems `Editor.exec_settle_eq_runUnder` and `Editor.exec_settle`: what follows a submission are the
  hooks under the ids of its document, and a round of hooks if the workflow is still there.
-/

namespace NodeFlow

open Workflow

namespace Workflow

variable {g g' : Workflow}

/-- The places whose hooks run after a submission: each node of the document, and behind it what is
inside in the order of its own plan. -/
def roundPlaces (g : Workflow) : List Place :=
  g.nodes.flatMap fun n => (hookPlaces n).toOption.getD []

/-- The places that a workflow has under an id, as far as their hooks run after a submission. -/
def placesUnder (g : Workflow) (id : NodeId) : Except Fault (List Place) := do
  match ← g.find? id with
  | none => pure []
  | some n => hookPlaces n

/-- A node and what is inside it. -/
def placesAround (n : Node Group) : List Place :=
  .outer n.id :: n.group?.elim [] fun group => group.graph.nodes.map fun m => .inner n.id m.id

private theorem hookPlaces_perm {n : Node Group} (hids : ∀ group, n.group? = some group →
    (group.graph.nodes.map (·.id)).Nodup) {hooked : List Place} (h : hookPlaces n = .ok hooked) :
    hooked.Perm (placesAround n) := by
  rcases Fault.bind_eq_ok_iff.1 h with ⟨sites, hsites, hplaces⟩
  rcases Fault.bind_eq_ok_iff.1 hsites with ⟨inner, hinner, hlast⟩
  cases hplaces
  cases hlast
  rw [placesAround]
  rcases innerSites?_cases hinner with ⟨hgroup, rfl⟩ | ⟨group, order, hgroup, horder, rfl⟩
  · rw [hgroup]
    exact .refl _
  · rw [hgroup]
    have hordered : Graph.Ordered group.graph := ⟨hids group hgroup, order, horder⟩
    refine List.Perm.cons _ ?_
    rw [Option.getD_some, List.map_map]
    exact (hordered.filterMap_plan_perm horder).map _

/-- The places of a workflow are all different. -/
theorem nodup_placesAround (hdistinct : Distinct g) : (g.nodes.flatMap placesAround).Nodup := by
  have hhost : ∀ n : Node Group, ∀ place ∈ placesAround n, place.host = n.id := by
    intro n place hplace
    rcases List.mem_cons.1 hplace with rfl | hinner
    · rfl
    · cases hgroup : n.group? with
      | none =>
        rw [hgroup] at hinner
        cases hinner
      | some group =>
        rw [hgroup] at hinner
        rcases List.mem_map.1 hinner with ⟨m, -, rfl⟩
        rfl
  refine List.nodup_flatMap.2 ⟨fun n hn => ?_, ?_⟩
  · rw [placesAround]
    cases hgroup : n.group? with
    | none => exact List.nodup_singleton _
    | some group =>
      refine List.nodup_cons.2 ⟨fun hmem => ?_, ?_⟩
      · rcases List.mem_map.1 hmem with ⟨m, -, hm⟩
        cases hm
      · have hinner := List.pairwise_map.1 (hdistinct.inner n hn group hgroup)
        exact List.pairwise_map.2 (hinner.imp fun hne heq => hne (Place.inner.inj heq).2)
  · refine (List.pairwise_map.1 hdistinct.outer).imp fun hne => ?_
    intro place hleft hright
    exact hne ((hhost _ place hleft).symm.trans (hhost _ place hright))

/-- A round comes to each place once. -/
theorem count_roundPlaces (hdistinct : Distinct g)
    (hplaces : ∀ n ∈ g.nodes, ∃ hooked, hookPlaces n = .ok hooked) {place : Place} {s : Site}
    (hs : siteAt? g place = some s) : (roundPlaces g).count place = 1 := by
  have hperm : (roundPlaces g).Perm (g.nodes.flatMap placesAround) := by
    refine List.Perm.flatMap_left _ fun n hn => ?_
    rcases hplaces n hn with ⟨hooked, hhooked⟩
    rw [hhooked]
    exact hookPlaces_perm (hdistinct.inner n hn) hhooked
  have hmem : place ∈ g.nodes.flatMap placesAround := by
    rw [← place_of_siteAt? hs]
    have hsite := mem_sites_of_siteAt? hs
    cases s with
    | outer n => exact List.mem_flatMap.2 ⟨n, mem_sites_outer.1 hsite, List.mem_cons_self⟩
    | inner host x n =>
      rcases mem_sites_inner.1 hsite with ⟨hhost, hgroup, hn⟩
      refine List.mem_flatMap.2 ⟨host, hhost, List.mem_cons_of_mem _ ?_⟩
      rw [hgroup]
      exact List.mem_map_of_mem hn
  rw [hperm.count_eq]
  exact List.count_eq_one_of_mem (nodup_placesAround hdistinct) hmem

private theorem placesUnder_of_skeleton_eq (h : skeleton g' = skeleton g) (id : NodeId) :
    placesUnder g' id = placesUnder g id := by
  have hskeleton : ∀ g : Workflow, placesUnder (skeleton g) id = placesUnder g id := by
    intro g
    rw [placesUnder, placesUnder, Graph.find?, lookup?_skeleton, Graph.find?]
    rcases g.lookup? id.toJson with f | (_ | n)
    · rfl
    · rfl
    · exact hookPlaces_hollow n
  rw [← hskeleton g', h, hskeleton]

private theorem placesUnder_of_mem (hdistinct : Distinct g) {n : Node Group} (hn : n ∈ g.nodes) :
    placesUnder g n.id = hookPlaces n := by
  have hfound : g.find? n.id = .ok (some n) :=
    Graph.lookup?_of_at? (Graph.at?_of_mem hdistinct.outer hn)
  rw [placesUnder, hfound]
  rfl

/-- Under an id there is no place twice. -/
theorem nodup_of_placesUnder (hdistinct : Distinct g) {id : NodeId} {places : List Place}
    (h : placesUnder g id = .ok places) : places.Nodup := by
  rcases Fault.bind_eq_ok_iff.1 h with ⟨_ | n, hfound, hplaces⟩
  · cases hplaces
    exact List.nodup_nil
  · have hn : n ∈ g.nodes := Graph.mem_of_lookup? hfound
    exact (hookPlaces_perm (hdistinct.inner n hn) hplaces).nodup_iff.2
      ((List.nodup_flatMap.1 (nodup_placesAround hdistinct)).1 n hn)

/-- Saving keeps the ids of nodes in their order. -/
theorem ids_save (g : Workflow) : (save g).nodes.map (·.id) = g.nodes.map (·.id) := by
  rw [save, Graph.saveWith, List.map_map]
  refine List.map_congr_left fun n _ => ?_
  rw [Function.comp, Node.save]
  cases n.group? <;> rfl

end Workflow

namespace Editor

/-! ## What a round does -/

/-- The editor after the preparation of a compilation. -/
def prepared (e : Editor) : Editor :=
  ((do prepare (← Act.lift (← get).graph.plan) : EditorAct PUnit).exec e).2

/-- The editor after one round of the hooks that come after a submission.  A hook that fails does not
keep the others from running. -/
def settled (e : Editor) : Editor := ((Act.each (roundPlaces e.graph) runAfter).exec e).2

/-- The editor after so many rounds, each of them a preparation and then the hooks that come after a
submission. -/
def rounds (e : Editor) : Nat → Editor
  | 0 => e
  | n + 1 => (rounds e n).prepared.settled

/-- Run the hooks that come after a submission on the nodes that a workflow has under ids, one after the
other; an id without a node is passed over. -/
def runUnder (g : Workflow) (ids : List NodeId) : EditorAct PUnit :=
  Act.each ids fun id => do
    Act.each (← Act.lift (placesUnder g id)) runAfter

variable {e e' : Editor} {g : Workflow}

/-- The workflow that a unit is compiled from is the one that its preparation leaves. -/
theorem prepared_eq {order : List NodeId} {r : Except Fault PUnit} (horder : e.graph.plan = .ok order)
    (h : (prepare order).exec e = (r, e')) : e.prepared = e' := by
  rw [prepared, Act.exec_bind, Act.exec_get]
  dsimp only
  rw [Act.exec_bind, Act.exec_lift, horder]
  exact congrArg Prod.snd h

/-! ## What a round keeps -/

private theorem runAfter_sameSkeleton (place : Place) :
    (runAfter place).Within (sameSkeleton.through (·.graph)) := by
  refine .bind .get fun e => .each fun i => ?_
  split
  · exact .bind (.attempt (onPlace_sameSkeleton (QueueHook.run_sameWidgets _ _ _) _)) fun _ => .pure _
  · exact .pure _

/-- Preparation leaves everything about the workflow but values of widgets. -/
theorem skeleton_prepared (hdistinct : Distinct e.graph) :
    skeleton e.prepared.graph = skeleton e.graph :=
  Act.Within.exec (.bind .get fun _ => .bind (.lift _) fun _ => prepare_sameSkeleton _) e hdistinct

private theorem skeleton_settled (hdistinct : Distinct e.graph) :
    skeleton e.settled.graph = skeleton e.graph :=
  Act.Within.exec (.each fun _ => runAfter_sameSkeleton _) e hdistinct

/-- Rounds change values of widgets only. -/
theorem skeleton_rounds (hdistinct : Distinct e.graph) (n : Nat) :
    skeleton (e.rounds n).graph = skeleton e.graph := by
  induction n with
  | zero => rfl
  | succ n ih =>
    have hround := distinct_of_skeleton_eq ih hdistinct
    have hprepared := skeleton_prepared hround
    rw [rounds, skeleton_settled (distinct_of_skeleton_eq hprepared hround), hprepared, ih]

/-- Nothing but the workflow and the outside changes. -/
def onlyScene : Drift Editor := .keeping fun e => { e with graph := {}, outside := {} }

private theorem onGraph_onlyScene {α : Type} (act : Act (Workflow × Outside) α) :
    (onGraph act).Within onlyScene := .focus_free act fun _ _ => rfl

/-- Preparation changes the workflow and the outside only. -/
theorem prepare_onlyScene (order : List NodeId) : (prepare order).Within onlyScene := by
  refine .each fun id => .bind .get fun e => ?_
  split
  · exact .pure _
  · refine .bind (.lift _) fun _ => .bind (.each fun s => .bind .get fun e => .each fun i => ?_)
      fun _ => .bind (.lift _) fun _ => .each fun _ => onGraph_onlyScene _
    split
    · exact onGraph_onlyScene _
    · exact .pure _

/-- The hooks behind a submission change the workflow and the outside only. -/
theorem runAfter_onlyScene (place : Place) : (runAfter place).Within onlyScene := by
  refine .bind .get fun e => .each fun i => ?_
  split
  · exact .bind (.attempt (onGraph_onlyScene _)) fun _ => .pure _
  · exact .pure _

/-! ## Rounds do not wait -/

private theorem onPlace_isStraight {α : Type} {act : Act Bench α} (h : act.IsStraight)
    (place : Place) : (onPlace place act).IsStraight := by
  cases place with
  | outer id => exact (h.focus _ _).focus _ _
  | inner host id => exact ((h.focus _ _).focus _ _).focus _ _

private theorem pushAt_isStraight (place : Place) : (pushAt place).IsStraight := by
  cases place with
  | outer id => exact (pushValue_isStraight id).focus _ _
  | inner host id => exact ((pushValue_isStraight id).focus _ _).focus _ _

private theorem runBefore_isStraight (place : Place) : (runBefore place).IsStraight := by
  refine .bind .get fun e => .each fun i => ?_
  split
  · exact onPlace_isStraight (QueueHook.run_isStraight _ _ _) place
  · exact .pure _

/-- Preparation never waits. -/
theorem prepare_isStraight (order : List NodeId) : (prepare order).IsStraight := by
  refine .each fun id => .bind .get fun e => ?_
  split
  · exact .pure _
  · exact .bind (.lift _) fun _ => .bind (.each fun _ => runBefore_isStraight _) fun _ =>
      .bind (.lift _) fun _ => .each fun _ => pushAt_isStraight _

/-- The hooks behind a submission never wait. -/
theorem runAfter_isStraight (place : Place) : (runAfter place).IsStraight := by
  refine .bind .get fun e => .each fun i => ?_
  split
  · exact .bind (.attempt (onPlace_isStraight (QueueHook.run_isStraight _ _ _) place)) fun _ => .pure _
  · exact .pure _

/-- Settling a unit never waits. -/
theorem settle_isStraight (p : Prompt) : (settle p).IsStraight := by
  refine .each fun id => .bind .get fun e => .bind (.lift _) fun found => ?_
  split
  · exact .pure _
  · exact .bind (.lift _) fun _ => .each fun _ => runAfter_isStraight _

/-! ## The hooks that come after a submission -/

/-- The hooks behind a submission do not fail. -/
theorem exec_runAfter_fst (place : Place) (e : Editor) : ((runAfter place).exec e).1 = .ok ⟨⟩ := by
  rw [runAfter, Act.exec_bind, Act.exec_get]
  dsimp only
  refine Act.exec_each_fst (fun i e => ?_) _ _
  split
  · rw [Act.exec_bind, Act.exec_attempt]
    rfl
  · rfl

/-- The hooks that come after a submission run, under an id, at the places that the skeleton says. -/
theorem exec_settleNode (he : skeleton e.graph = skeleton g) (id : NodeId) :
    (settleNode id).exec e =
      (do Act.each (← Act.lift (placesUnder g id)) runAfter : EditorAct PUnit).exec e := by
  rw [← placesUnder_of_skeleton_eq he, settleNode, Act.exec_bind, Act.exec_get]
  dsimp only
  rw [Act.exec_bind, Act.exec_bind, Act.exec_lift, Act.exec_lift]
  rcases hfound : e.graph.find? id with f | (_ | n)
  · rw [placesUnder, hfound]
    rfl
  · rw [placesUnder, hfound]
    rfl
  · have hplaces : placesUnder e.graph id = hookPlaces n := by
      rw [placesUnder, hfound]
      rfl
    dsimp only
    rw [hplaces, hookPlaces, Act.exec_bind, Act.exec_lift]
    cases hookSites n with
    | error f => rfl
    | ok sites => exact congrArg (Act.exec · e) (Act.each_map (·.place) runAfter sites).symm

/-- What follows the submission of a prompt are the hooks of the nodes that the workflow has under the
ids of its document. -/
theorem exec_settle_eq_runUnder (hdistinct : Distinct g) (he : skeleton e.graph = skeleton g)
    (p : Prompt) : (settle p).exec e = (runUnder g (p.workflow.nodes.map (·.id))).exec e := by
  rw [settle, runUnder]
  induction p.workflow.nodes.map (·.id) generalizing e with
  | nil => rfl
  | cons id ids ih =>
    rw [Act.each, Act.each, Act.exec_bind, Act.exec_bind, exec_settleNode he]
    rcases hrun : (do Act.each (← Act.lift (placesUnder g id)) runAfter : EditorAct PUnit).exec e with
      ⟨_ | _, e₁⟩
    · rfl
    · have hkept : (do Act.each (← Act.lift (placesUnder g id)) runAfter : EditorAct PUnit).Within
          (sameSkeleton.through (·.graph)) :=
        .bind (.lift _) fun _ => .each fun _ => runAfter_sameSkeleton _
      exact ih ((hkept.of_exec hrun (distinct_of_skeleton_eq he hdistinct)).trans he)

/-- Under its own ids a workflow has all its nodes. -/
theorem exec_runUnder_ids (hdistinct : Distinct g)
    (hplaces : ∀ n ∈ g.nodes, ∃ hooked, hookPlaces n = .ok hooked) (e : Editor) :
    (runUnder g (g.nodes.map (·.id))).exec e = (Act.each (roundPlaces g) runAfter).exec e := by
  have hnodes : ∀ (ns : List (Node Group)) (e : Editor), (∀ n ∈ ns, n ∈ g.nodes) →
      (runUnder g (ns.map (·.id))).exec e =
        (Act.each (ns.flatMap fun n => (hookPlaces n).toOption.getD []) runAfter).exec e := by
    intro ns
    induction ns with
    | nil => exact fun _ _ => rfl
    | cons n ns ih =>
      intro e hns
      rcases hplaces n (hns n List.mem_cons_self) with ⟨hooked, hhooked⟩
      rw [List.map_cons, List.flatMap_cons, Act.exec_each_append, runUnder, Act.each, Act.exec_bind,
        Act.exec_bind, Act.exec_bind, Act.exec_lift,
        placesUnder_of_mem hdistinct (hns n List.mem_cons_self), hhooked]
      simp only [Except.toOption, Option.getD_some]
      rcases (Act.each hooked runAfter).exec e with ⟨_ | _, e₁⟩
      · rfl
      · exact ih e₁ fun m hm => hns m (List.mem_cons_of_mem n hm)
  exact hnodes g.nodes e fun _ h => h

/-- What follows the submission of a prompt is one round of hooks. -/
theorem exec_settle (hdistinct : Distinct g)
    (hplaces : ∀ n ∈ g.nodes, ∃ hooked, hookPlaces n = .ok hooked) {p : Prompt}
    (hp : p.workflow.nodes.map (·.id) = g.nodes.map (·.id)) (he : skeleton e.graph = skeleton g) :
    (settle p).exec e = (Act.each (roundPlaces g) runAfter).exec e := by
  rw [exec_settle_eq_runUnder hdistinct he, hp, exec_runUnder_ids hdistinct hplaces]

end Editor

end NodeFlow
