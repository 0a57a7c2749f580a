import NodeFlow.Proofs.Compile.DependencyOrder
import NodeFlow.Proofs.Compile.DetourPrepare
import NodeFlow.Proofs.Load.RoundTrip

/-!
# Compilations with a detour

The reroute is no step, and all other sites become steps with it as without it.  Each of them is built
from the same values and the same references, so the steps differ in their order at most.  The values
are the same because a preparation leaves the same workflow in the order that the planner gives with
the reroute and in the order that it gives without it, unless something is drawn.

Main results:

- Theorem `Detour.emitted_apply`: the sites that become steps.
- Theorem `Detour.Fits.steps_perm`: the steps that are built of them.
- Theorem `Editor.get?_output_compile_apply`: where both workflows compile, the steps are the same.
-/

namespace NodeFlow

open Workflow

namespace Detour

variable {d : Detour} {g : Workflow}

/-! ## Sites -/

private theorem behind_rewire (n : Node Group) : behind (d.rewire n) = (behind n).map d.carry := by
  have hskipped : (d.rewire n).isSkipped = n.isSkipped := rfl
  unfold behind
  rw [hskipped, group?_rewire]
  split
  · rfl
  · cases n.group? with
    | none => rfl
    | some x =>
      rw [List.map_map]
      rfl

/-- The sites that become steps are the same, as they stand in the workflow with the reroute. -/
theorem emitted_apply (g : Workflow) : emitted (d.apply g) = (emitted g).map d.carry := by
  have hbehind : behind d.node = [.outer d.node] := by
    have hgroup : d.node.group? = none := by rw [Node.group?, d.reroute]
    simp [behind, hgroup]
  have hnode : (Site.outer d.node).isEmitted = false := by
    rw [Site.isEmitted, d.isVirtual_node]
    rfl
  have hexpanded : expanded (d.apply g) = (expanded g).map d.carry ++ [.outer d.node] := by
    rw [expanded, expanded, apply, List.flatMap_append, List.flatMap_map, List.map_flatMap,
      List.flatMap_singleton, hbehind]
    simp only [behind_rewire]
  have hsame : (·.isEmitted) ∘ d.carry = (·.isEmitted) := funext d.isEmitted_carry
  rw [emitted, emitted, hexpanded, List.filter_append, List.filter_map, hsame]
  simp [hnode]

private theorem Fits.distinct_apply (h : d.Fits g) (hdistinct : Distinct g) :
    Distinct (d.apply g) := by
  refine ⟨h.nodup_ids_apply, fun x hx group hgroup => ?_⟩
  rcases mem_apply_nodes.1 hx with ⟨n, hn, rfl⟩ | rfl
  · exact hdistinct.inner n hn group hgroup
  · rw [Node.group?, d.reroute] at hgroup
    cases hgroup

section Steps

variable {maxHops : Int} {titled : Bool} {built : List Site} {steps steps' : Output}

/-- Sites have the same steps, wherever they can be built. -/
theorem Fits.eq_of_forall₂ (h : d.Fits g) (hmem : ∀ s ∈ built, s ∈ sites g)
    (hsteps : List.Forall₂ (Site.IsBuilt g maxHops titled) built steps)
    (hsteps' : List.Forall₂ (fun s => (d.carry s).IsBuilt (d.apply g) maxHops titled) built steps') :
    steps' = steps := by
  induction hsteps generalizing steps' with
  | nil =>
    cases hsteps'
    rfl
  | cons hm _ ih =>
    cases hsteps' with
    | cons hm' hrest' =>
      rw [h.eq_of_isBuilt (hmem _ List.mem_cons_self) hm hm',
        ih (fun s hs => hmem s (List.mem_cons_of_mem _ hs)) hrest']

/-- The steps of the workflow with the reroute are those of the workflow, in some order. -/
theorem Fits.steps_perm (h : d.Fits g) {built' : List Site} (hbuilt : built.Perm (emitted g))
    (hbuilt' : built'.Perm (emitted (d.apply g)))
    (hsteps : List.Forall₂ (Site.IsBuilt g maxHops titled) built steps)
    (hsteps' : List.Forall₂ (Site.IsBuilt (d.apply g) maxHops titled) built' steps') :
    List.Perm steps' steps := by
  have hperm : (built.map d.carry).Perm built' := by
    refine (hbuilt.map d.carry).trans ?_
    rw [← emitted_apply]
    exact hbuilt'.symm
  rcases List.perm_comp_forall₂ hperm hsteps' with ⟨steps₁, hsteps₁, hsame⟩
  rw [List.forall₂_map_left_iff] at hsteps₁
  have hmem : ∀ s ∈ built, s ∈ sites g := fun s hs => mem_sites_of_mem_emitted (hbuilt.mem_iff.1 hs)
  rw [h.eq_of_forall₂ hmem hsteps hsteps₁] at hsame
  exact hsame.symm

end Steps

end Detour

namespace Editor

variable {e e₁ e₂ : Editor} {p q : Prompt}

/-- A compilation that succeeds leaves the workflow of its preparation, which has taken nothing from the
random sources if the compilation has taken nothing. -/
theorem exists_preparation_of_compile (h : compile.exec e = (.ok p, e₁)) : ∃ order prepared,
    e.graph.plan = .ok order ∧ (prepare order).exec e = (.ok ⟨⟩, prepared) ∧
      e₁.graph = prepared.graph ∧ e₁.settings = e.settings ∧
      (e₁.outside.sources = e.outside.sources → prepared.outside.sources = e.outside.sources) := by
  rcases exec_compile_eq_ok_iff.1 h with ⟨order, prepared, output, horder, hprepare, houtput, -⟩
  have hbuilt : onlyOutside.rel prepared e₁ := by
    rcases Act.exec_bind_eq_ok_iff.1 houtput with ⟨built, _, hexpand, hprune⟩
    cases hprune
    exact (expandSteps_onlyOutside _ _ _ _ _).of_exec hexpand
  refine ⟨order, prepared, horder, hprepare, congrArg (·.graph) hbuilt, ?_, fun hdry => ?_⟩
  · have hsettings : e₁.settings = prepared.settings := congrArg (·.settings) hbuilt
    exact hsettings.trans ((prepare_sameSettings order).of_exec hprepare)
  · exact Outside.sources_between ((prepare_drains order).of_exec hprepare)
      ((compileSites_drains _ _ _ _).of_exec houtput) hdry

/-- Where a workflow compiles without a draw, and also with a reroute in one of its links, the steps are
the same. -/
theorem get?_output_compile_apply {d : Detour} (hfits : d.Fits e.graph) (hkeyed : Keyed e.graph)
    (hlinked : Graph.IsLinked e.graph)
    (hsingle : ∀ p q k, PushesTo e.graph p k → PushesTo e.graph q k → p = q)
    (hp : compile.exec e = (.ok p, e₁)) (hdry : e₁.outside.sources = e.outside.sources)
    (hq : compile.exec { e with graph := d.apply e.graph } = (.ok q, e₂)) (key : String) :
    q.output.get? key = p.output.get? key := by
  have hdistinct := hkeyed.distinct
  rcases exists_preparation_of_compile hp with
    ⟨order, prepared, horder, hprepare, hgraph, hsettings, hsources⟩
  rcases exists_preparation_of_compile hq with
    ⟨order', prepared', horder', hprepare', hgraph', hsettings', -⟩
  -- without the reroute, its order leaves the same workflow
  rcases Detour.prepare_rerouted order' e _ ⟨rfl, hfits⟩ with ⟨houtcome, hrerouted⟩
  rcases hrun : (prepare order').exec e with ⟨r, u⟩
  rw [hprepare', hrun] at houtcome hrerouted
  dsimp only at houtcome hrerouted
  subst houtcome
  have hsame : u.graph = prepared.graph := prepare_anyOrder hdistinct hsingle
    (timely_of_plan hdistinct.outer hlinked horder) (hfits.timely_apply hlinked horder') rfl hprepare
    (hsources hdry) hrun
  have hfits₁ : d.Fits e₁.graph := by
    rw [hgraph, ← hsame]
    exact hrerouted.fits
  have happlied : e₂.graph = d.apply e₁.graph := by
    rw [hgraph', hrerouted.same, hgraph, ← hsame]
  -- the steps that are built
  rcases exists_sites_of_compile hdistinct hp with ⟨hskeleton, built, steps, hbuilt, -, hsteps, hout⟩
  rcases exists_sites_of_compile (hfits.distinct_apply hdistinct) hq with
    ⟨-, built', steps', hbuilt', -, hsteps', hout'⟩
  rw [happlied, hsettings', ← hsettings] at hsteps'
  rw [happlied] at hbuilt'
  have hperm := hfits₁.steps_perm hbuilt hbuilt' hsteps hsteps'
  have hnames : (Table.names steps).Nodup := by
    rw [names_of_isBuilt hsteps]
    refine (hbuilt.map _).nodup_iff.2 ?_
    exact (keyed_of_skeleton_eq hskeleton hkeyed).emitted_keys_nodup (List.Perm.refl _)
  have hnames' : (Table.names steps').Nodup := (hperm.map _).nodup_iff.2 hnames
  rw [hout, hout', Table.update_nil hnames, Table.update_nil hnames']
  exact Output.get?_prune_congr (Table.get?_of_perm hperm hnames') key

end Editor

end NodeFlow
