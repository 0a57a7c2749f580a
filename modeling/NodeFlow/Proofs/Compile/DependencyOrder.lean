import NodeFlow.Proofs.Compile.Expansion
import NodeFlow.Proofs.Compile.Inputs
import NodeFlow.Proofs.Compile.Skeleton

/-!
# Prompts in dependency order

The order in which nodes are walked through and the walks that resolve links agree, although the one
takes groups as a whole and knows nothing of bypassed nodes, and the other crosses the borders of
groups.  Every reference of a prompt names a step in front of it.

Main results:

- Theorems `Editor.settings_of_compile` and `Editor.skeleton_of_compile`: what a compilation keeps.
- Theorem `Editor.exists_sites_of_compile`: the sites and the steps of a compilation.
- Theorem `Site.exists_of_reference`: the producer behind a reference.
- Theorem `Editor.compile_inDependencyOrder`: walks end, and references lead backwards.
-/

namespace NodeFlow

open Workflow

/-! ## What a compilation keeps -/

namespace Editor

private theorem onGraph_sameSettings {α : Type} (act : Act (Workflow × Outside) α) :
    (onGraph act).Within (Drift.keeping (·.settings)) := .focus_free act fun _ _ => rfl

/-- A preparation keeps the settings. -/
theorem prepare_sameSettings (order : List NodeId) :
    (prepare order).Within (Drift.keeping (·.settings)) := by
  refine .each fun id => .bind .get fun e => ?_
  split
  · exact .pure _
  · refine .bind (.lift _) fun _ => .bind (.each fun _ => .bind .get fun e => .each fun i => ?_)
      fun _ => .bind (.lift _) fun _ => .each fun _ => onGraph_sameSettings _
    split
    · exact onGraph_sameSettings _
    · exact .pure _

/-- A compilation that succeeds keeps the settings. -/
theorem settings_of_compile {e e' : Editor} {p : Prompt} (h : compile.exec e = (.ok p, e')) :
    e'.settings = e.settings := by
  rcases exists_steps_of_compile h with ⟨order, prepared, -, -, -, hprepare, hsame, -⟩
  have hend : e'.settings = prepared.settings := congrArg (·.settings) hsame
  rw [hend]
  exact (prepare_sameSettings order).of_exec hprepare

/-- A compilation that succeeds keeps the skeleton: nodes, modes, slots and links, all but the values
of widgets. -/
theorem skeleton_of_compile {e e' : Editor} {p : Prompt} (hdistinct : Distinct e.graph)
    (h : compile.exec e = (.ok p, e')) : skeleton e'.graph = skeleton e.graph := by
  rcases exists_steps_of_compile h with ⟨order, prepared, -, -, -, hprepare, hsame, -⟩
  rw [show e'.graph = prepared.graph from congrArg (·.graph) hsame]
  exact (prepare_sameSkeleton order).of_exec hprepare hdistinct

end Editor

/-! ## The sites of a compilation -/

/-- A compilation that succeeds keeps the skeleton, walks through every site that it should exactly
once and in ascending order of ranks, and builds the steps of those that are emitted. -/
theorem Editor.exists_sites_of_compile {e e' : Editor} {p : Prompt} (hdistinct : Distinct e.graph)
    (h : compile.exec e = (.ok p, e')) :
    skeleton e'.graph = skeleton e.graph ∧ ∃ (built : List Site) (steps : Output),
      built.Perm (emitted e'.graph) ∧
      built.Pairwise (fun s t => s.rank e'.graph < t.rank e'.graph) ∧
      List.Forall₂ (Site.IsBuilt e'.graph e'.settings.maxHops e'.settings.devMode) built steps ∧
      p.output = Output.prune (Table.update [] steps) := by
  obtain ⟨order, -, lists, steps, horder, -, -, hlists, hsteps, houtput⟩ :=
    exists_steps_of_compile h
  have hskeleton := skeleton_of_compile hdistinct h
  have hdistinct' := distinct_of_skeleton_eq hskeleton hdistinct
  have horder' : e'.graph.plan = .ok order := by rw [plan_of_skeleton_eq hskeleton, horder]
  have hordered : Graph.Ordered e'.graph := ⟨hdistinct'.outer, order, horder'⟩
  have hperm := hordered.filterMap_plan_perm horder'
  refine ⟨hskeleton, lists.flatten.filter (·.isEmitted), steps, ?_, ?_, hsteps, houtput⟩
  · exact (flatten_perm hdistinct'.inner hperm hlists).filter _
  · apply List.Pairwise.filter
    apply flatten_pairwise (fun n hn => hdistinct'.inner n (hperm.mem_iff.1 hn)) hlists
    exact hordered.filterMap_plan_pairwise horder'

section Built

variable {g : Workflow} {maxHops : Int} {titled : Bool} {built : List Site} {steps : Output}
  (h : List.Forall₂ (Site.IsBuilt g maxHops titled) built steps)

include h

/-- Steps stand under the keys of their sites. -/
theorem names_of_isBuilt : Table.names steps = built.map (·.id.key) := by
  induction h with
  | nil => rfl
  | cons hbuilt _ ih =>
    rw [List.map_cons, ← ih, ← hbuilt.1]
    rfl

/-- Where all keys are different, no step is written over another one. -/
theorem update_of_isBuilt (hkeys : (built.map (·.id.key)).Nodup) :
    Table.update [] steps = steps := by
  apply Table.update_nil
  rwa [names_of_isBuilt h]

/-- Behind every step there is the site that it was built from. -/
theorem exists_site_at {i : Nat} {m : String × Step} (hm : steps[i]? = some m) :
    ∃ s, built[i]? = some s ∧ s.IsBuilt g maxHops titled m := by
  rcases List.getElem?_eq_some_iff.1 hm with ⟨hi, rfl⟩
  have hi' : i < built.length := h.length_eq ▸ hi
  exact ⟨built[i], List.getElem?_eq_getElem hi', h.get hi' hi⟩

/-- For every site there is the step that was built from it. -/
theorem exists_step_at {i : Nat} {s : Site} (hs : built[i]? = some s) :
    ∃ m, steps[i]? = some m ∧ s.IsBuilt g maxHops titled m := by
  rcases List.getElem?_eq_some_iff.1 hs with ⟨hi, rfl⟩
  have hi' : i < steps.length := h.length_eq ▸ hi
  exact ⟨steps[i], List.getElem?_eq_getElem hi', h.get hi hi'⟩

end Built

/-- Of two sites in ascending order of ranks, the one of smaller rank comes first. -/
theorem lt_of_rank_lt {g : Workflow} {sites : List Site}
    (hpairwise : sites.Pairwise fun s t => s.rank g < t.rank g) {i j : Nat} {s t : Site}
    (hi : sites[i]? = some s) (hj : sites[j]? = some t) (hlt : s.rank g < t.rank g) : i < j := by
  rcases List.getElem?_eq_some_iff.1 hi with ⟨hilen, rfl⟩
  rcases List.getElem?_eq_some_iff.1 hj with ⟨hjlen, rfl⟩
  rcases lt_trichotomy i j with hij | rfl | hji
  · exact hij
  · exact absurd hlt (lt_irrefl _)
  · exact absurd hlt (lt_asymm (List.pairwise_iff_getElem.1 hpairwise j i hjlen hilen hji))

/-! ## References -/

namespace Site

variable {g : Workflow} {maxHops : Int} {titled : Bool} {s : Site} {m : String × Step}

/-- A reference is an input that reads as one. -/
theorem exists_of_mem_references {step : Step} {name : String} {r : Reference}
    (h : (name, r) ∈ step.references) :
    ∃ v, (name, v) ∈ step.inputs ∧ Reference.ofJson? v = some r := by
  rcases List.mem_filterMap.1 h with ⟨⟨name', v⟩, hmem, hsome⟩
  rcases Option.map_eq_some_iff.1 hsome with ⟨r', hr, hsame⟩
  cases hsame
  exact ⟨v, hmem, hr⟩

/-- The references that pruning keeps are those into the output. -/
theorem mem_references_of_keep {output : Output} {step : Step} {name : String} {r : Reference}
    (h : (name, r) ∈ (step.keep output).references) :
    (name, r) ∈ step.references ∧ output.has r.origin = true := by
  rcases exists_of_mem_references h with ⟨v, hmem, hv⟩
  have hkept := Step.refersInto_keep output step hmem
  rw [Step.refersInto, hv] at hkept
  exact ⟨List.mem_filterMap.2 ⟨(name, v), (List.mem_filter.1 hmem).1, by simp [hv]⟩, hkept⟩

/-- Behind a reference that is no literal stands a site of smaller rank. -/
theorem exists_of_reference (hplanned : Planned g) (hkeyed : Keyed g) (hs : s ∈ sites g)
    (hbuilt : s.IsBuilt g maxHops titled m)
    (hliterals : ∀ w ∈ s.widgets, w.isSent = true → Reference.ofJson? w.literal = none)
    {name : String} {r : Reference} (h : (name, r) ∈ m.2.references) :
    ∃ t ∈ sites g, t.id.key = r.origin ∧ t.rank g < s.rank g := by
  rcases exists_of_mem_references h with ⟨v, hmem, hv⟩
  rcases hbuilt.mem_inputs hmem with ⟨w, hw, hsent, hentry⟩ | ⟨i, r', ⟨found, hfound, hr'⟩, hentry⟩
  · cases hentry
    rw [hliterals w hw hsent] at hv
    cases hv
  · cases hentry
    obtain rfl : r' = r := Option.some.inj hv
    cases found with
    | none => cases hr'
    | some resolved =>
      rcases rank_resolve_lt hplanned hkeyed hs hfound with ⟨ht, hlt⟩
      refine ⟨resolved.site, ht, ?_, hlt⟩
      simp only [referenceOf] at hr'
      split at hr'
      · cases hr'
      · cases hr'
        rfl

end Site

section Earlier

variable {g : Workflow} {maxHops : Int} {titled : Bool} {built : List Site} {steps : Output}

/-- Where keys differ, so do the keys of sites in ascending order of ranks. -/
theorem nodup_keys_of_pairwise (hkeyed : Keyed g) (hsites : ∀ s ∈ built, s ∈ sites g)
    (hpairwise : built.Pairwise fun s t => s.rank g < t.rank g) : (built.map (·.id.key)).Nodup := by
  refine List.Nodup.map_on (fun s hs t ht hkey => ?_) (hpairwise.imp fun hlt => ?_)
  · exact List.inj_on_of_nodup_map hkeyed (hsites s hs) (hsites t ht) hkey
  · rintro rfl
    exact lt_irrefl _ hlt

/-- In a pruned output whose sites have ascending ranks, a reference leads backwards. -/
theorem exists_earlier_of_reference (hplanned : Planned g) (hkeyed : Keyed g)
    (hsites : ∀ s ∈ built, s ∈ sites g) (hpairwise : built.Pairwise fun s t => s.rank g < t.rank g)
    (hbuilt : List.Forall₂ (Site.IsBuilt g maxHops titled) built steps)
    (hliterals : ∀ s ∈ built, ∀ w ∈ s.widgets, w.isSent = true →
      Reference.ofJson? w.literal = none)
    {j : Nat} {key : String} {step : Step} (hstep : (Output.prune steps)[j]? = some (key, step))
    {name : String} {r : Reference} (hreference : (name, r) ∈ step.references) :
    ∃ i < j, ∃ source, (Output.prune steps)[i]? = some (r.origin, source) := by
  -- the step before pruning, its site, and the site behind the reference
  rw [Output.prune, List.getElem?_map, Option.map_eq_some_iff] at hstep
  rcases hstep with ⟨⟨_, whole⟩, hwhole, hkept⟩
  cases hkept
  rcases Site.mem_references_of_keep hreference with ⟨hreference, hhas⟩
  rcases exists_site_at hbuilt hwhole with ⟨s, hs, hsbuilt⟩
  have hsmem := List.mem_of_getElem? hs
  rcases Site.exists_of_reference hplanned hkeyed (hsites s hsmem) hsbuilt (hliterals s hsmem)
    hreference with ⟨t, ht, htkey, hlt⟩
  -- the step that the reference names is that of the site behind it
  rcases List.mem_map.1 (Table.has_iff.1 hhas) with ⟨⟨_, source⟩, hmem, hname⟩
  cases hname
  rcases List.getElem?_of_mem hmem with ⟨i, hi⟩
  rcases exists_site_at hbuilt hi with ⟨t', ht', htbuilt⟩
  have hsame : t' = t := List.inj_on_of_nodup_map hkeyed (hsites t' (List.mem_of_getElem? ht')) ht
    (htbuilt.1.symm.trans htkey.symm)
  subst hsame
  refine ⟨i, lt_of_rank_lt hpairwise ht' hs hlt, source.keep steps, ?_⟩
  rw [Output.prune, List.getElem?_map, hi]
  rfl

end Earlier

/-! ## The order of the output -/

/-- Whatever groups, reroutes, bypassed and muted nodes there are, if the workflow and the graphs of
its groups can be ordered and all sites have different keys:

* no walk from an input is refused unless it meets more passing producers than allowed;
* when a compilation succeeds and no literal looks like a reference, every reference names a step
  that comes strictly earlier. -/
theorem Editor.compile_inDependencyOrder (e : Editor) (hplanned : Planned e.graph)
    (hkeyed : Keyed e.graph) :
    (∀ s ∈ sites e.graph, ∀ (slot maxHops : Int),
      (∀ chain, s.Meets e.graph slot chain → chain.length ≤ maxHops.toNat) →
      ∀ asker at' hops, s.resolve e.graph maxHops slot ≠ .error (.endlessChain asker at' hops)) ∧
    ∀ p e', compile.exec e = (.ok p, e') →
      (∀ s ∈ emitted e'.graph, ∀ w ∈ s.widgets, w.isSent = true →
        Reference.ofJson? w.literal = none) →
      ∀ (j : Nat) (key : String) (step : Step), p.output[j]? = some (key, step) →
        ∀ name r, (name, r) ∈ step.references →
        ∃ i < j, ∃ source, p.output[i]? = some (r.origin, source) := by
  refine ⟨fun s hs slot maxHops hshort => Site.resolve_neverEndless hplanned hkeyed hs hshort, ?_⟩
  intro p e' hcompile hliterals j key step hstep name r hreference
  rcases exists_sites_of_compile hkeyed.distinct hcompile with
    ⟨hskeleton, built, steps, hperm, hpairwise, hbuilt, houtput⟩
  have hplanned' := planned_of_skeleton_eq hskeleton hplanned
  have hkeyed' := keyed_of_skeleton_eq hskeleton hkeyed
  have hsites : ∀ s ∈ built, s ∈ sites e'.graph := fun s hs =>
    mem_sites_of_mem_emitted (hperm.mem_iff.1 hs)
  rw [update_of_isBuilt hbuilt (nodup_keys_of_pairwise hkeyed' hsites hpairwise)] at houtput
  rw [houtput] at hstep ⊢
  exact exists_earlier_of_reference hplanned' hkeyed' hsites hpairwise hbuilt
    (fun s hs => hliterals s (hperm.mem_iff.1 hs)) hstep hreference

/-- A graph inside a group: a node that takes what enters the group, and a bypassed one behind it,
whose output leaves the group. -/
def bypassedInside : Subgraph where
  nodes := [
    { id := .number 2, type := "Late", title := none, mode := bypassedMode,
      inputs := [{ name := "x", link := some 1 }], outputs := [{ name := "o" }] },
    { id := .number 1, type := "Early", title := none, inputs := [{ name := "x" }],
      outputs := [{ name := "o", links := [1] }] }]
  links := [⟨.number 1, .int 1, .number 0, .int 2, .number 0, .str "*"⟩]

/-- A source, a group behind it, a reroute behind the group and a sink, listed backwards. -/
def crossing : Editor where
  graph := {
    nodes := [
      { id := .number 4, type := "Sink", title := none,
        inputs := [{ name := "x", link := some 3 }] },
      { id := .number 3, kind := .reroute, type := "Reroute", title := none,
        inputs := [{ name := "", link := some 2 }], outputs := [{ name := "", links := [3] }] },
      { id := .number 2, kind := .group ⟨bypassedInside, [⟨.number 1, 0⟩], [⟨.number 2, 0⟩]⟩,
        type := "Group", title := none, inputs := [{ name := "x", link := some 1 }],
        outputs := [{ name := "o", links := [2] }] },
      { id := .number 1, type := "Source", title := none,
        outputs := [{ name := "o", links := [1] }],
        widgets := [{ name := "seed", value := .int 5 }] }]
    links := [
      ⟨.number 1, .int 1, .number 0, .int 2, .number 0, .str "*"⟩,
      ⟨.number 2, .int 2, .number 0, .int 3, .number 0, .str "*"⟩,
      ⟨.number 3, .int 3, .number 0, .int 4, .number 0, .str "*"⟩] }

private theorem crossing_planned : Planned crossing.graph := by
  refine ⟨⟨_, rfl⟩, ?_⟩
  intro n hn group hgroup
  simp only [crossing, List.mem_cons, List.not_mem_nil, or_false] at hn
  rcases hn with rfl | rfl | rfl | rfl <;> cases hgroup
  exact ⟨_, rfl⟩

private theorem crossing_keyed : Keyed crossing.graph := by
  unfold Keyed
  decide

/-- The walk from the sink crosses the reroute, the border of the group and the bypassed node. -/
theorem crossing_inDependencyOrder :
    Planned crossing.graph ∧ Keyed crossing.graph ∧
      ∃ p e', Editor.compile.exec crossing = (.ok p, e') ∧
        (∀ s ∈ emitted e'.graph, ∀ w ∈ s.widgets, w.isSent = true →
          Reference.ofJson? w.literal = none) ∧
        ∀ (j : Nat) (key : String) (step : Step), p.output[j]? = some (key, step) →
          ∀ name r, (name, r) ∈ step.references →
            ∃ i < j, ∃ source, p.output[i]? = some (r.origin, source) := by
  have hliterals : ∀ s ∈ emitted crossing.graph, ∀ w ∈ s.widgets, w.isSent = true →
      Reference.ofJson? w.literal = none := by decide
  exact ⟨crossing_planned, crossing_keyed, _, _, rfl, hliterals,
    (Editor.compile_inDependencyOrder crossing crossing_planned crossing_keyed).2 _ _ rfl hliterals⟩

example :
    ((Editor.compile.exec crossing).1.toOption.map fun p =>
      p.output.map fun m => (m.1, m.2.references.map (·.2.origin))) =
      some [("1", []), ("2:1", ["1"]), ("4", ["2:1"])] := by decide

end NodeFlow
