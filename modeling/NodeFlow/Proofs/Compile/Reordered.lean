import NodeFlow.Proofs.Compile.Obstructed
import NodeFlow.Proofs.Compile.Serializers
import NodeFlow.Proofs.Compile.SourceCopies

/-!
# Compilations of workflows that answer lookups alike

Two workflows that answer lookups alike may hold their nodes in different orders.  The orders decide
which primitive pushes first, which circle is found first and which step is built first.  None of it
is visible in what a compilation comes to: the values after the preparation are the same, so are the
steps, and where there are none, both workflows have a circle or both have an endless chain.

Main results:

- Theorem `Workflow.SameLookups.of_skeleton`: workflows answer alike after they have been prepared.
- Theorem `Workflow.SameLookups.planned_iff`: both have orders, or neither has.
- Definitions `Workflow.StepsOf` and `Workflow.Prepares`; theorems `Workflow.SameLookups.prepared` and
  `Workflow.SameLookups.exists_stepsOf`: what they are prepared to, and the steps of that.
- Theorem `Editor.compile_cases`: what a compilation comes to where orders are known.
- Definition `Prompt.Agree` and theorem `Editor.compile_sameLookups`: the compilations agree.
-/

namespace NodeFlow

/-! ## Lookups and values -/

namespace Graph

variable {γ : Type} {g g' h h' : Graph γ}

/-- Graphs that answer alike still do after their widgets have been given the same values. -/
theorem SameLookups.of_shape (hsame : SameLookups g h)
    (hg : g'.mapNodes Node.bare = g.mapNodes Node.bare)
    (hh : h'.mapNodes Node.bare = h.mapNodes Node.bare) (hvalues : h'.valueAt = g'.valueAt) :
    SameLookups g' h' where
  nodes := by
    funext id
    have hbare : (h'.at? id).map Node.bare = (g'.at? id).map Node.bare := by
      rw [← at?_mapNodes Node.isNeutral_bare, hh, at?_mapNodes Node.isNeutral_bare, hsame.nodes,
        ← at?_mapNodes Node.isNeutral_bare, ← hg, at?_mapNodes Node.isNeutral_bare]
    cases hn : g'.at? id with
    | none => simpa [hn] using hbare
    | some n =>
      rw [hn] at hbare
      rcases Option.map_eq_some_iff.1 hbare with ⟨n', hn', hnode⟩
      have hwidgets : n'.widgets = n.widgets := by
        refine Widget.list_eq_of_bare (congrArg (·.widgets) hnode) fun i => ?_
        simpa [valueAt_eq, hn, hn'] using congrFun hvalues (id, i)
      rw [hn', Node.eq_of_bare hnode hwidgets]
  links := by
    have hlinks : ∀ {x y : Graph γ}, x.mapNodes Node.bare = y.mapNodes Node.bare →
        x.link? = y.link? := by
      intro x y hshape
      rw [← link?_mapNodes Node.bare, hshape, link?_mapNodes]
    rw [hlinks hh, hsame.links, hlinks hg]

end Graph

namespace Workflow

variable {g h g' h' : Workflow}

private theorem across_hollow (n : Node Group) :
    (n.across h).bare.hollow = n.bare.hollow.across (skeleton h) := by
  cases n with
  | mk id kind =>
    cases kind with
    | group x =>
      simp only [Node.across, Node.mapGroup, Kind.mapGroup, Node.bare, Node.hollow, Kind.hollow,
        Group.bare, innerGraph_skeleton]
    | _ => rfl

/-- Skeletons of workflows that answer alike have the same nodes under the same ids. -/
theorem SameLookups.at?_skeleton_eq (hsame : SameLookups g h) (id : NodeId) :
    Graph.at? (skeleton h) id = (Graph.at? (skeleton g) id).map (Node.across (skeleton h)) := by
  rw [at?_skeleton, hsame.at?_eq, at?_skeleton, Option.map_map, Option.map_map]
  exact congrArg (Option.map · _) (funext across_hollow)

private theorem link?_of_skeleton_eq (hskeleton : skeleton g' = skeleton g) :
    Graph.link? g' = Graph.link? g := by
  have hlinks : ∀ x : Workflow, Graph.link? (skeleton x) = Graph.link? x := fun _ => rfl
  rw [← hlinks, hskeleton, hlinks]

/-- Workflows that answer alike still do after their widgets have been given the same values. -/
theorem SameLookups.of_skeleton (hsame : SameLookups g h) (hg : skeleton g' = skeleton g)
    (hh : skeleton h' = skeleton h) (hvalues : valueAt h' = valueAt g') : SameLookups g' h' where
  outer := by
    refine ⟨?_, (link?_of_skeleton_eq hh).trans (hsame.link?_eq.trans (link?_of_skeleton_eq hg).symm)⟩
    funext id
    rw [Graph.at?_mapNodes (Node.isNominal_across h').toIsNeutral]
    have hbare := hsame.at?_skeleton_eq id
    rw [← hh, ← hg, at?_skeleton, at?_skeleton, Option.map_map] at hbare
    cases hn : Graph.at? g' id with
    | none => simpa [hn] using hbare
    | some n =>
      rw [hn] at hbare
      rcases Option.map_eq_some_iff.1 hbare with ⟨n', hn', hnode⟩
      have hsame' : n'.bare.hollow = (n.across h').bare.hollow := hnode.trans (across_hollow n).symm
      have hwidgets : n'.widgets = (n.across h').widgets := by
        refine Widget.list_eq_of_bare (congrArg (·.widgets) hsame') fun i => ?_
        have hvalue : Graph.valueAt h' (id, i) = Graph.valueAt g' (id, i) :=
          congrFun hvalues (.outer id, i)
        rw [Graph.valueAt_eq, Graph.valueAt_eq, hn, hn'] at hvalue
        exact hvalue
      rw [hn', Option.map_some, Node.eq_of_hollow hsame' hwidgets]
      -- both hold what the second workflow has inside the node
      intro x x' hx hx'
      rw [Node.group?_across, Option.map_eq_some_iff] at hx
      rcases hx with ⟨y, -, rfl⟩
      rw [Graph.id_of_at? hn]
      exact (innerGraph_of_at? hn' hx').symm
  inner host := by
    have hshape : ∀ {x y : Workflow}, skeleton x = skeleton y →
        (innerGraph x host).mapNodes Node.bare = (innerGraph y host).mapNodes Node.bare := by
      intro x y hskeleton
      rw [← innerGraph_skeleton, hskeleton, innerGraph_skeleton]
    refine (hsame.inner host).of_shape (hshape hg) (hshape hh) ?_
    funext c
    exact congrFun hvalues (.inner host c.1, c.2)

end Workflow

/-! ## Orders -/

namespace Graph.SameLookups

variable {γ : Type} {g h : Graph γ} (hsame : SameLookups g h) (hg : (g.nodes.map (·.id)).Nodup)
  (hh : (h.nodes.map (·.id)).Nodup)

include hsame hg hh

private theorem holds_iff {l : Link} : h.Holds l ↔ g.Holds l := by
  rw [Holds, Holds, hsame.links]
  exact exists_congr fun n => and_congr_left fun _ => hsame.mem_nodes_iff hg hh

omit hg hh in
private theorem refuses_iff {v : Json} : h.Refuses v ↔ g.Refuses v := by
  rw [Graph.refuses_iff, Graph.refuses_iff, hsame.lookup?_eq]

end Graph.SameLookups

namespace Workflow

variable {g h : Workflow}

private theorem originsReadable_of_clear (hclear : ¬ Obstructed g) : Graph.OriginsReadable g :=
  fun _ hn _ hslot _ hl =>
    Graph.exists_lookup fun hrefuses => hclear (.origin ⟨_, hn, _, hslot, hl⟩ hrefuses)

private theorem originsReadable_inside (hclear : ¬ Obstructed g) {n : Node Group} (hn : n ∈ g.nodes)
    {x : Group} (hx : n.group? = some x) : x.graph.OriginsReadable :=
  fun _ hm _ hslot _ hl =>
    Graph.exists_lookup fun hrefuses => hclear (.inside hn hx ⟨_, hm, _, hslot, hl⟩ hrefuses)

private theorem exists_plan_iff_of_cases {γ γ' : Type} {x : Graph γ} {y : Graph γ'}
    (hcases : (∃ order order', x.plan = .ok order ∧ y.plan = .ok order') ∨
      ∃ ids ids', x.plan = .error (.cyclic ids) ∧ y.plan = .error (.cyclic ids') ∧ ids'.Perm ids) :
    (∃ order, y.plan = .ok order) ↔ ∃ order, x.plan = .ok order := by
  rcases hcases with ⟨order, order', horder, horder'⟩ | ⟨ids, ids', hcircle, hcircle', -⟩
  · exact ⟨fun _ => ⟨order, horder⟩, fun _ => ⟨order', horder'⟩⟩
  · rw [hcircle, hcircle']
    simp

section Orders

variable (hsame : SameLookups g h) (hg : Distinct g) (hh : Distinct h)

include hsame hg hh

omit hsame hh in
private theorem nodup_ids_across (h : Workflow) :
    ((g.mapNodes (Node.across h)).nodes.map (·.id)).Nodup := by
  rw [Graph.ids_mapNodes (Node.isNominal_across h).toIsNeutral]
  exact hg.outer

/-- What obstructs the one workflow obstructs the other. -/
theorem SameLookups.obstructed (hobstructed : Obstructed h) : Obstructed g := by
  have hneutral := (Node.isNominal_across h).toIsNeutral
  have hholds : ∀ {l : Link}, Graph.Holds h l → Graph.Holds g l := fun hl =>
    (Graph.holds_mapNodes hneutral).1
      ((hsame.outer.holds_iff (nodup_ids_across hg h) hh.outer).1 hl)
  cases hobstructed with
  | origin hl hrefuses =>
    exact .origin (hholds hl) ((Graph.refuses_mapNodes hneutral).1
      (hsame.outer.refuses_iff.1 hrefuses))
  | inside hhost hx hl hrefuses =>
    rcases hsame.exists_group hg hh hhost hx with ⟨n, hn, x, hx, -, -, -, hinner, hids, hids'⟩
    exact .inside hn hx ((hinner.holds_iff hids hids').1 hl) (hinner.refuses_iff.1 hrefuses)
  | output hl hhost hx hmode hlt =>
    rw [hsame.lookup?_eq] at hhost
    rcases Fault.map_eq_ok_iff.1 hhost with ⟨found, hfound, hmap⟩
    rcases Option.map_eq_some_iff.1 hmap with ⟨n, rfl, rfl⟩
    rw [Node.group?_across, Option.map_eq_some_iff] at hx
    rcases hx with ⟨x, hx, rfl⟩
    exact .output (hholds hl) hfound hx hmode hlt
  | port hhost hx hmode hport hrefuses =>
    rcases hsame.exists_group hg hh hhost hx with ⟨n, hn, x, hx', rfl, -, houtputs, hinner, -, -⟩
    rw [← houtputs] at hport
    exact .port hn hx' hmode hport (hinner.refuses_iff.1 hrefuses)

/-- Both workflows can be ordered, or the same nodes of them are named. -/
theorem SameLookups.plan_cases (hclear : ¬ Obstructed g) :
    (∃ order order', g.plan = .ok order ∧ h.plan = .ok order') ∨
      ∃ ids ids', g.plan = .error (.cyclic ids) ∧ h.plan = .error (.cyclic ids') ∧
        ids'.Perm ids := by
  have hneutral := (Node.isNominal_across h).toIsNeutral
  have hread : Graph.OriginsReadable (g.mapNodes (Node.across h)) := fun _ hm _ hslot _ hl =>
    Graph.exists_lookup fun hrefuses => hclear (.origin
      ((Graph.holds_mapNodes hneutral).1 ⟨_, hm, _, hslot, hl⟩)
      ((Graph.refuses_mapNodes hneutral).1 hrefuses))
  have hcases := hsame.outer.plan_cases (nodup_ids_across hg h) hh.outer hread
  rwa [Graph.plan_mapNodes hneutral] at hcases

/-- Both workflows have execution orders, or neither of them. -/
theorem SameLookups.planned_iff (hclear : ¬ Obstructed g) : Planned h ↔ Planned g := by
  have houter := exists_plan_iff_of_cases (hsame.plan_cases hg hh hclear)
  constructor
  · refine fun hplanned => ⟨houter.1 hplanned.outer, fun n hn x hx => ?_⟩
    have hx' : (n.across h).group? = some { x with graph := innerGraph h n.id } := by
      rw [Node.group?_across, hx, Option.map_some]
    have hn' := (hsame.mem_nodes_iff hg hh).2 ⟨n, hn, rfl⟩
    have hcases := (hsame.group hg.outer hn hx).plan_cases (hg.inner n hn x hx)
      (hh.inner _ hn' _ hx') (originsReadable_inside hclear hn hx)
    exact (exists_plan_iff_of_cases hcases).1 (hplanned.inner _ hn' _ hx')
  · refine fun hplanned => ⟨houter.2 hplanned.outer, fun n' hn' x' hx' => ?_⟩
    rcases hsame.exists_group hg hh hn' hx' with ⟨n, hn, x, hx, -, -, -, hinner, hids, hids'⟩
    have hcases := hinner.plan_cases hids hids' (originsReadable_inside hclear hn hx)
    exact (exists_plan_iff_of_cases hcases).2 (hplanned.inner n hn x hx)

/-- Where the one workflow has a circle, both name the same nodes. -/
theorem SameLookups.exists_circles (hclear : ¬ Obstructed g) (hcircle : ¬ Graph.Acyclic g) :
    ∃ ids ids', g.plan = .error (.cyclic ids) ∧ h.plan = .error (.cyclic ids') ∧ ids'.Perm ids := by
  rcases hsame.plan_cases hg hh hclear with ⟨order, -, horder, -⟩ | hcircles
  · rcases Graph.exists_schedule hg.outer (originsReadable_of_clear hclear) with ⟨ws, hws, s⟩
    rw [Graph.plan_of_not_acyclic hws s hcircle] at horder
    cases horder
  · exact hcircles

end Orders

/-! ## Steps -/

/-- The steps of the sites that become any. -/
def StepsOf (g : Workflow) (maxHops : Int) (titled : Bool) (steps : Output) : Prop :=
  List.Forall₂ (Site.IsBuilt g maxHops titled) (emitted g) steps

section Steps

variable {maxHops : Int} {titled : Bool} {steps steps' : Output}

private theorem StepsOf.names_nodup (hsteps : StepsOf g maxHops titled steps) (hkeyed : Keyed g) :
    (Table.names steps).Nodup := by
  rw [names_of_isBuilt hsteps]
  exact hkeyed.emitted_keys_nodup (List.Perm.refl _)

private theorem StepsOf.unique (hsteps : StepsOf g maxHops titled steps)
    (hsteps' : StepsOf g maxHops titled steps') : steps' = steps := by
  have hright : Relator.RightUnique (Site.IsBuilt g maxHops titled) := by
    intro s m m' hm hm'
    have hstep : m.2 = m'.2 := Except.ok.inj (hm.2.symm.trans hm'.2)
    exact Prod.ext (hm.1.trans hm'.1.symm) hstep
  exact hright.forall₂ hsteps' hsteps

section Lookups

variable (hsame : SameLookups g h) (hg : Distinct g) (hh : Distinct h)

include hsame hg hh

private theorem SameLookups.emitted_perm : (emitted h).Perm ((emitted g).map (Site.across h)) := by
  have hmap : (emitted g).map (Site.across h) =
      ((expanded g).map (Site.across h)).filter (·.isEmitted) := by
    rw [emitted, List.filter_map]
    exact congrArg (List.map _) (List.filter_congr fun s _ => (s.isEmitted_across h).symm)
  rw [hmap]
  exact (hsame.expanded_perm hg hh).filter _

/-- The steps of the one workflow are those of the other, in some order. -/
theorem SameLookups.exists_stepsOf (hsteps : StepsOf g maxHops titled steps) :
    ∃ steps', StepsOf h maxHops titled steps' ∧ List.Perm steps' steps := by
  have hacross : List.Forall₂ (Site.IsBuilt h maxHops titled) ((emitted g).map (Site.across h))
      steps := by
    rw [List.forall₂_map_left_iff]
    refine List.Forall₂.imp (fun s m hm =>
      (Site.isBuilt_across_iff hsame hg.outer hm.1).2 hm.2)
      ((List.forall₂_and_left _ _).2 ⟨fun s hs => ?_, hsteps⟩)
    exact mem_sites_of_mem_emitted hs
  exact List.perm_comp_forall₂ (hsame.emitted_perm hg hh) hacross

private theorem SameLookups.exists_stepsOf_of_across (hsteps : StepsOf h maxHops titled steps) :
    ∃ steps', StepsOf g maxHops titled steps' := by
  rcases List.perm_comp_forall₂ (hsame.emitted_perm hg hh).symm hsteps with ⟨steps', hsteps', -⟩
  refine ⟨steps', ?_⟩
  rw [List.forall₂_map_left_iff] at hsteps'
  refine List.Forall₂.imp (fun s m hm => ?_)
    ((List.forall₂_and_left _ _).2 ⟨fun s hs => mem_sites_of_mem_emitted hs, hsteps'⟩)
  exact (Site.isBuilt_across_iff hsame hg.outer hm.1).1 hm.2

end Lookups

end Steps

end Workflow

/-! ## Compilations -/

namespace Workflow

/-- The workflow after a preparation: primitives have pushed their values in execution order. -/
def Prepares (g g' : Workflow) : Prop :=
  ∃ order cs, g.plan = .ok order ∧ copies g order = .ok cs ∧ skeleton g' = skeleton g ∧
    valueAt g' = Copy.run cs (valueAt g)

variable {g h g' h' : Workflow}

/-- The order in which primitives push is not visible, if none of them takes anything. -/
theorem SameLookups.prepared (hsame : SameLookups g h) (hg : Distinct g) (hh : Distinct h)
    (honce : PushesOnce g) (hprepares : Prepares g g') (hprepares' : Prepares h h') :
    SameLookups g' h' := by
  rcases hprepares with ⟨order, cs, horder, hcopies, hskeleton, hvalues⟩
  rcases hprepares' with ⟨order', cs', horder', hcopies', hskeleton', hvalues'⟩
  refine hsame.of_skeleton hskeleton hskeleton' ?_
  rw [hvalues, hvalues', hsame.valueAt_eq]
  exact hsame.run_copies_eq (honce.copiesOnce hg) hg hh horder horder' hcopies hcopies' _

private theorem Planned.exists_expand (hplanned : Planned g) {nodes : List (Node Group)}
    (hnodes : ∀ n ∈ nodes, n ∈ g.nodes) :
    ∃ met, List.Forall₂ (fun s sites => s.expand = .ok sites) (nodes.map Site.outer) met := by
  induction nodes with
  | nil => exact ⟨[], .nil⟩
  | cons n nodes ih =>
    rcases ih fun m hm => hnodes m (List.mem_cons_of_mem n hm) with ⟨met, hmet⟩
    have hnever : FailsWith (fun _ => False) (Site.outer n).expand :=
      expand_failsWith (hplanned.innerSites?_failsWith (hnodes n List.mem_cons_self))
    cases hexpand : (Site.outer n).expand with
    | error f => exact (hnever f hexpand).elim
    | ok sites => exact ⟨sites :: met, .cons hexpand hmet⟩

end Workflow

namespace Editor

open Workflow

/-- Where orders are known and no widget has a hook, what is built are the steps of the workflow, and
nothing is built only if it has none. -/
theorem compileSites_cases {g : Workflow} (hkeyed : Keyed g) (hclear : ¬ Obstructed g)
    (hplanned : Planned g) (hsilent : AllWidgets Widget.IsSilent g) {order : List NodeId}
    (horder : g.plan = .ok order) (maxHops : Int) (titled : Bool) (e : Editor) :
    (∃ output e' steps,
      (compileSites g maxHops titled ((order.filterMap g.at?).map Site.outer)).exec e =
        (.ok output, e') ∧ StepsOf g maxHops titled steps ∧
      ∀ key, output.get? key = (Output.prune steps).get? key) ∨
    ∃ f e', (compileSites g maxHops titled ((order.filterMap g.at?).map Site.outer)).exec e =
      (.error f, e') ∧ f.IsEndless ∧ ∀ steps, ¬ StepsOf g maxHops titled steps := by
  have hdistinct := hkeyed.distinct
  have hordered : Graph.Ordered g := ⟨hdistinct.outer, order, horder⟩
  have hnodes := hordered.filterMap_plan_perm horder
  have hemitted : ∀ {met : List (List Site)}, List.Forall₂ (fun s sites => s.expand = .ok sites)
      ((order.filterMap g.at?).map Site.outer) met →
        (met.flatten.filter (·.isEmitted)).Perm (emitted g) :=
    fun hmet => (flatten_perm hdistinct.inner hnodes hmet).filter _
  rcases hexec : (compileSites g maxHops titled ((order.filterMap g.at?).map Site.outer)).exec e
    with ⟨f | output, e'⟩
  · refine .inr ⟨f, e', rfl, ?_, fun steps hsteps => ?_⟩
    · exact compileSites_onlyEndless hclear hplanned hsilent maxHops titled order e f
        (congrArg Prod.fst hexec)
    -- the steps could have been built in the order in which sites are met
    · rcases hplanned.exists_expand fun n hn => hnodes.mem_iff.1 hn with ⟨met, hmet⟩
      have hperm := flatten_perm hdistinct.inner hnodes hmet
      have hwidgets : ∀ s ∈ met.flatten, ∀ w ∈ s.widgets, w.IsSilent := fun s hs =>
        hsilent.of_mem_sites (mem_sites_of_mem_expanded (hperm.mem_iff.1 hs))
      rcases List.perm_comp_forall₂ (hemitted hmet) hsteps with ⟨steps', hsteps', -⟩
      rcases exists_buildSteps (fun s hs w hw => (hwidgets s hs w hw).isReliable)
        (fun s hs _ w hw => (hwidgets s hs w hw).sends) hsteps' [] e with ⟨e₂, hbuild⟩
      rw [← exec_expandSteps_of_expand hmet] at hbuild
      have hok := Act.exec_bind_eq_ok_iff (f := fun output => pure (Output.prune output)) |>.2
        ⟨_, e₂, hbuild, rfl⟩
      rw [compileSites, hok] at hexec
      cases hexec
  · rcases Act.exec_bind_eq_ok_iff.1 hexec with ⟨built, _, hbuilt, hprune⟩
    cases hprune
    rcases exists_steps_of_expandSteps hbuilt with ⟨met, steps, hmet, hsteps, rfl⟩
    rcases List.perm_comp_forall₂ (hemitted hmet).symm hsteps with ⟨steps', hsteps', hsame⟩
    refine .inl ⟨_, e', steps', rfl, hsteps', Output.get?_prune_congr fun key => ?_⟩
    have hnames' := StepsOf.names_nodup hsteps' hkeyed
    have hnames : (Table.names steps).Nodup := (hsame.map _).nodup_iff.1 hnames'
    rw [Table.update_nil hnames]
    exact (Table.get?_of_perm hsame hnames' key).symm

section Ready

variable {e : Editor} (hready : e.graph.IsReady) (hkeyed : Keyed e.graph)
  (hclear : ¬ Obstructed e.graph)

include hready hkeyed hclear

/-- What the compilation of a ready graph with known orders comes to: the steps of the prepared graph,
or an endless chain if there are none. -/
theorem compile_cases (hplanned : Planned e.graph) : ∃ g, Prepares e.graph g ∧
    ((∃ p e' steps, compile.exec e = (.ok p, e') ∧
      StepsOf g e.settings.maxHops e.settings.devMode steps ∧
        ∀ key, p.output.get? key = (Output.prune steps).get? key) ∨
    ∃ f e', compile.exec e = (.error f, e') ∧ f.IsEndless ∧
      ∀ steps, ¬ StepsOf g e.settings.maxHops e.settings.devMode steps) := by
  rcases hplanned.outer with ⟨order, horder⟩
  rcases exists_prepared hready hplanned order with ⟨g, cs, o, hprepare, hskeleton, hcopies, hvalues⟩
  refine ⟨g, ⟨order, cs, horder, hcopies, hskeleton, hvalues⟩, ?_⟩
  have horder' : g.plan = .ok order := (plan_of_skeleton_eq hskeleton).trans horder
  have hcases := compileSites_cases (keyed_of_skeleton_eq hskeleton hkeyed)
    (fun h => hclear ((obstructed_of_skeleton_eq hskeleton).1 h))
    (planned_of_skeleton_eq hskeleton hplanned)
    (allWidgets_of_skeleton_eq Widget.isSilent_bare hskeleton hready.silent) horder'
    e.settings.maxHops e.settings.devMode { e with graph := g, outside := o }
  rcases hcases with ⟨output, e', steps, hexec, hsteps, houtput⟩ | ⟨f, e', hexec, hendless, hnone⟩
  · exact .inl ⟨_, e', steps,
      exec_compile_eq_ok_iff.2 ⟨order, _, output, horder, hprepare, hexec, rfl⟩, hsteps, houtput⟩
  · refine .inr ⟨f, e', ?_, hendless, hnone⟩
    rw [exec_compile_of_prepared horder hprepare, Act.exec_bind, hexec]

end Ready

end Editor

/-- The outcomes of two compilations agree: there are two prompts with the same step under every key,
or two circles, or two endless chains. -/
inductive Prompt.Agree : Except Fault Prompt → Except Fault Prompt → Prop
  | steps {p q : Prompt} (h : ∀ key, q.output.get? key = p.output.get? key) : Agree (.ok p) (.ok q)
  | circles {f f' : Fault} (h : f.IsCircle) (h' : f'.IsCircle) : Agree (.error f) (.error f')
  | chains {f f' : Fault} (h : f.IsEndless) (h' : f'.IsEndless) : Agree (.error f) (.error f')

namespace Editor

open Workflow

variable {e e' : Editor} (hsame : SameLookups e.graph e'.graph) (hready : e.graph.IsReady)
  (hready' : e'.graph.IsReady) (hclear : ¬ Obstructed e.graph)

include hsame hready hready' hclear

/-- Ready graphs that answer alike compile to the same steps, or both have a circle, or both have an
endless chain. -/
theorem compile_sameLookups (hkeyed : Keyed e.graph) (honce : PushesOnce e.graph)
    (hsettings : e'.settings = e.settings) :
    Prompt.Agree (compile.exec e).1 (compile.exec e').1 := by
  have hg := hready.distinct
  have hh := hready'.distinct
  have hclear' : ¬ Obstructed e'.graph := fun h => hclear (hsame.obstructed hg hh h)
  have hkeyed' := hsame.keyed hg hh hkeyed
  by_cases hplanned : Planned e.graph
  · have hplanned' := (hsame.planned_iff hg hh hclear).2 hplanned
    rcases compile_cases hready hkeyed hclear hplanned with ⟨g, hprepares, hcases⟩
    rcases compile_cases hready' hkeyed' hclear' hplanned' with ⟨h, hprepares', hcases'⟩
    have hprepared := hsame.prepared hg hh honce hprepares hprepares'
    rcases hprepares with ⟨_, _, -, -, hskeleton, -⟩
    rcases hprepares' with ⟨_, _, -, -, hskeleton', -⟩
    have hg' := distinct_of_skeleton_eq hskeleton hg
    have hh' := distinct_of_skeleton_eq hskeleton' hh
    rw [hsettings] at hcases'
    rcases hcases with ⟨p, e₁, steps, hexec, hsteps, houtput⟩ | ⟨f, e₁, hexec, hendless, hnone⟩
    · rcases hprepared.exists_stepsOf hg' hh' hsteps with ⟨steps', hsteps', hperm⟩
      rcases hcases' with ⟨q, e₂, found, hexec', hfound, houtput'⟩ | ⟨f, -, -, -, hnone⟩
      · rw [hexec, hexec']
        refine .steps fun key => ?_
        rw [houtput, houtput', hsteps'.unique hfound]
        have hnames' := hsteps'.names_nodup (keyed_of_skeleton_eq hskeleton' hkeyed')
        exact Output.get?_prune_congr (Table.get?_of_perm hperm hnames') key
      · exact absurd hsteps' (hnone steps')
    · rcases hcases' with ⟨-, -, found, -, hfound, -⟩ | ⟨f', e₂, hexec', hendless', -⟩
      · rcases hprepared.exists_stepsOf_of_across hg' hh' hfound with ⟨steps, hsteps⟩
        exact absurd hsteps (hnone steps)
      · rw [hexec, hexec']
        exact .chains hendless hendless'
  · have hplanned' : ¬ Planned e'.graph := fun h => hplanned ((hsame.planned_iff hg hh hclear).1 h)
    rcases exec_compile_of_not_planned hready hclear hplanned with ⟨f, _, hexec, hcircle, -⟩
    rcases exec_compile_of_not_planned hready' hclear' hplanned' with ⟨f', _, hexec', hcircle', -⟩
    rw [hexec, hexec']
    exact .circles hcircle hcircle'

/-- Where the nodes of ready graphs that answer alike depend on each other in a circle, both
compilations name the same nodes. -/
theorem compile_circles (hcircle : ¬ Graph.Acyclic e.graph) : ∃ ids ids', ids'.Perm ids ∧
    (compile.exec e).1 = .error (.cyclic ids) ∧ (compile.exec e').1 = .error (.cyclic ids') := by
  have hg := hready.distinct
  have hh := hready'.distinct
  have hclear' : ¬ Obstructed e'.graph := fun h => hclear (hsame.obstructed hg hh h)
  rcases hsame.exists_circles hg hh hclear hcircle with ⟨ids, ids', hplan, hplan', hperm⟩
  exact ⟨ids, ids', hperm, congrArg Prod.fst (exec_compile_of_plan hplan),
    congrArg Prod.fst (exec_compile_of_plan hplan')⟩

end Editor

end NodeFlow
