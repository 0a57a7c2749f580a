import NodeFlow.Proofs.Compile.Consistent
import NodeFlow.Proofs.Compile.References

/-!
# What primitives deliver

The walk that resolves an input goes through reroutes and bypassed nodes and across the borders of
groups; the push of a primitive goes along the links of its own output and no further.  An input that
is linked to a primitive itself gets its value, and one that reaches a primitive in any other way
keeps the value of its widget.

Main results:

- Theorem `Editor.value_of_fedBy`: the widget behind an input that a primitive feeds.
- Theorem `Editor.value_of_not_fedBy`: the widget behind an input that no primitive feeds.
- Theorem `Site.IsBuilt.get?_of_converts`: what the step holds for such a widget.
- Theorem `Editor.compile_delivers`: the two cases for a compilation.
- Theorems `rerouted_keeps` and `roundabout_delivers`: a value does not pass through a reroute.
-/

namespace NodeFlow

open Workflow

variable {g : Workflow}

private theorem Kind.isVirtual_of_isPrimitive {γ : Type} {k : Kind γ} (h : k.isPrimitive = true) :
    k.isVirtual = true := by
  cases k <;> first | rfl | cases h

/-- Primitives are virtual. -/
theorem Site.isVirtual_of_isPrimitive {s : Site} (h : s.isPrimitive = true) :
    s.isVirtual = true := by
  cases s <;> exact Kind.isVirtual_of_isPrimitive h

/-! ## The turn of a primitive -/

/-- A site stands in the graph of its host. -/
theorem Site.host_place (s : Site) : s.place.host = s.host.id := by cases s <;> rfl

/-- A primitive is among the places that push when the turn of its node comes. -/
theorem Site.place_mem_pushPlaces (hdistinct : Distinct g) {t : Site} (ht : t ∈ sites g)
    (hprimitive : t.isPrimitive = true) {pushing : List Place}
    (h : t.host.pushPlaces = .ok pushing) : t.place ∈ pushing := by
  rcases Fault.bind_eq_ok_iff.1 h with ⟨inner, hinner, h⟩
  cases h
  refine List.mem_map.2 ⟨t, List.mem_filter.2 ⟨?_, Site.isVirtual_of_isPrimitive hprimitive⟩, rfl⟩
  rw [innerSites?] at hinner
  cases t with
  | outer m =>
    have hgroup : m.group? = none := by
      rw [Site.isPrimitive] at hprimitive
      rw [Node.group?]
      cases hkind : m.kind with
      | group x =>
        rw [hkind] at hprimitive
        cases hprimitive
      | _ => rfl
    rw [Site.host, hgroup] at hinner
    cases hinner
    exact List.mem_singleton_self _
  | inner host group m =>
    rcases mem_sites_inner.1 ht with ⟨hhost, hgroup, hm⟩
    rw [Site.host, hgroup] at hinner
    rcases Fault.bind_eq_ok_iff.1 hinner with ⟨nodes, hnodes, hinner⟩
    cases hinner
    rcases Fault.bind_eq_ok_iff.1 hnodes with ⟨order, horder, hnodes⟩
    cases hnodes
    have hordered : group.graph.Ordered := ⟨hdistinct.inner host hhost group hgroup, order, horder⟩
    exact List.mem_map_of_mem ((hordered.filterMap_plan_perm horder).mem_iff.2 hm)

private theorem Site.FedBy.mem_sites {s t : Site} {i : Nat} (h : s.FedBy g i t) (hs : s ∈ sites g) :
    t ∈ sites g := by
  cases h with
  | outer h =>
    rcases h with ⟨l, -, hm, -⟩
    exact mem_sites_outer.2 (Graph.mem_of_lookup? hm)
  | inner h =>
    rcases mem_sites_inner.1 hs with ⟨hhost, hgroup, -⟩
    rcases h with ⟨l, -, hm, -⟩
    exact mem_sites_inner.2 ⟨hhost, hgroup, Graph.mem_of_lookup? hm⟩

/-- The host of a site is a node of the workflow. -/
theorem Site.host_mem {s : Site} (hs : s ∈ sites g) : s.host ∈ g.nodes := by
  cases s with
  | outer n => exact mem_sites_outer.1 hs
  | inner host group n => exact (mem_sites_inner.1 hs).1

/-- An input that a primitive feeds is resolved to it. -/
theorem Site.FedBy.eq_of_resolve {s t : Site} {i : Nat} (h : s.FedBy g i t)
    (hprimitive : t.isPrimitive = true) {maxHops : Int} {found : Resolved}
    (hends : s.resolve g maxHops i = .ok (some found)) : found.site = t := by
  -- the producer behind the input is the primitive itself
  obtain ⟨l, hsource⟩ : ∃ l, s.source g i = .ok (some (t, l)) := by
    cases h with
    | @outer n m h =>
      rcases h with ⟨l, hl, hm, -⟩
      have hgroup : m.group? = none := by
        rw [Site.isPrimitive] at hprimitive
        rw [Node.group?]
        cases hkind : m.kind with
        | group x =>
          rw [hkind] at hprimitive
          cases hprimitive
        | _ => rfl
      exact ⟨l, by simp [Site.source, Workflow.source, hl, hm, unwrap, hgroup, bind, Except.bind,
        pure, Except.pure]⟩
    | @inner host group n m h =>
      rcases h with ⟨l, hl, hm, -⟩
      refine ⟨{ l with
        origin := (Site.inner host group m).id.toJson
        target := (Site.inner host group n).id.toJson
        targetSlot := .number i }, ?_⟩
      simp only [Site.source, hl, hm, bind, Except.bind, pure, Except.pure]
  have hnext : ∀ wanted, t.nextInput? l wanted = none := by
    intro wanted
    rw [Site.nextInput?, if_pos (Site.isVirtual_of_isPrimitive hprimitive)]
    cases t <;>
    · rename_i m
      rw [Site.isPrimitive] at hprimitive
      rw [Site.passThrough?, Node.passThrough?]
      cases hkind : m.kind with
      | reroute =>
        rw [hkind] at hprimitive
        cases hprimitive
      | _ => rfl
  rw [Site.resolve, hsource] at hends
  simp only [bind, Except.bind] at hends
  split at hends
  · cases hends
  · cases hhops : maxHops.toNat with
    | zero =>
      rw [hhops, Site.walk, Site.isPassing, Site.isVirtual_of_isPrimitive hprimitive] at hends
      cases hends
    | succ left =>
      rw [hhops, Site.walk, Site.isPassing, Site.isVirtual_of_isPrimitive hprimitive, hnext] at hends
      cases hends
      rfl

/-- Whether there is a widget at a place depends on the skeleton only. -/
theorem Workflow.isSome_valueAt_of_skeleton_eq {g' : Workflow} (h : skeleton g' = skeleton g)
    (k : Cell) : (valueAt g' k).isSome = (valueAt g k).isSome := by
  have hnode : ∀ {γ : Type} (x : Graph γ) (f : Node γ → Node γ) (c : NodeId × Nat),
      (∀ n, (f n).widgets = n.widgets.map Widget.bare) →
      (((x.at? c.1).map f).bind fun n => n.widgets[c.2]?.map (·.value)).isSome =
        (x.valueAt c).isSome := by
    intro γ x f c hf
    rw [Graph.valueAt_eq]
    cases x.at? c.1 with
    | none => rfl
    | some n => simp [hf]
  have hbare : ∀ x : Workflow, (valueAt (skeleton x) k).isSome = (valueAt x k).isSome := by
    intro x
    rcases k with ⟨id | ⟨host, id⟩, i⟩
    · rw [valueAt, valueAt, Graph.valueAt_eq, at?_skeleton]
      exact hnode x _ (id, i) fun _ => rfl
    · rw [valueAt, valueAt, innerGraph_skeleton, Graph.valueAt_eq,
        Graph.at?_mapNodes Node.isNeutral_bare]
      exact hnode (innerGraph x host) _ (id, i) fun _ => rfl
  rw [← hbare, h, hbare]

/-! ## The value of a widget -/

namespace Editor

variable {e e' : Editor} {p : Prompt}

section Value

variable (hdistinct : Distinct e.graph) (hconsistent : Workflow.Consistent e.graph)
  (h : compile.exec e = (.ok p, e')) {s : Site} (hs : s ∈ sites e'.graph) {i j : Nat} {w : Widget}
  (hconverts : Converts s.inputs s.widgets i j w)

include hdistinct hconsistent h hs hconverts

/-- An input that a primitive feeds: its widget ends up with the value of the primitive, unless its
node is no node of a group and has hooks, which run later. -/
theorem value_of_fedBy {t : Site} (hfed : s.FedBy e'.graph i t) (hprimitive : t.isPrimitive = true)
    {v : Widget} {vs : List Widget} (hwidgets : t.widgets = v :: vs)
    (hquiet : ∀ n, s = .outer n → ∀ u ∈ n.widgets, u.beforeQueued = none) :
    w.value = v.value := by
  rcases exists_prepared_of_compile h with ⟨order, prepared, horder, hprepare, hgraph⟩
  have hskeleton : skeleton e'.graph = skeleton e.graph :=
    hgraph ▸ (prepare_sameSkeleton order).of_exec hprepare hdistinct
  have hdistinct' := distinct_of_skeleton_eq hskeleton hdistinct
  have hconsistent' := consistent_of_skeleton_eq hdistinct hskeleton hconsistent
  have horder' : e'.graph.plan = .ok order := by rw [plan_of_skeleton_eq hskeleton, horder]
  have hplanned := planned_of_prepare hdistinct' horder' hskeleton.symm hprepare
  have ht := hfed.mem_sites hs
  have hhost : e'.graph.at? t.place.host = some t.host := by
    rw [t.host_place, Graph.at?_of_mem hdistinct'.outer (Site.host_mem ht)]
  rcases exists_push_of_prepare hdistinct' horder' hhost
    (fun _ => Site.place_mem_pushPlaces hdistinct' ht hprimitive) hskeleton.symm hprepare with
    ⟨e₁, e₂, he₁, hpush, hlast⟩
  -- the push delivers the value
  have hsource : (valueAt e₁.graph (t.place, 0)).isSome = true := by
    rw [isSome_valueAt_of_skeleton_eq he₁, valueAt_place hdistinct' ht, hwidgets]
    rfl
  have hdelivered := (pushAt_eq_ok hdistinct' he₁ hpush).2.2 _
    (hfed.linkedTo hconsistent' hdistinct' hs hconverts hprimitive) hsource
  -- and what comes after it changes neither the widget nor the primitive
  have hwidget : valueAt prepared.graph (s.place, j) = valueAt e₂.graph (s.place, j) := by
    refine hlast _ (fun q hpushes => ?_) ?_
    · rcases Site.fedBy_of_pushesTo hconsistent' hdistinct' hs hconverts hpushes with
        ⟨t', rfl, -, hfed'⟩
      rw [hfed.unique hfed']
    · cases hfed with
      | @outer n m _ =>
        refine .inr ?_
        rw [Workflow.widgetsAt, siteAt?_place hdistinct' hs]
        exact hquiet n rfl
      | inner _ => exact .inl rfl
  have hprimitive' : valueAt prepared.graph (t.place, 0) = valueAt e₂.graph (t.place, 0) :=
    hlast _ (fun q hpushes =>
      (placeRank_lt_of_pushesTo hdistinct' hplanned hconsistent'.isLinked hpushes).le) (.inl rfl)
  rw [← hwidget, ← hprimitive', hgraph, valueAt_place hdistinct' hs, hconverts.widget,
    valueAt_place hdistinct' ht, hwidgets] at hdelivered
  exact Option.some.inj hdelivered

/-- An input that no primitive feeds: its widget keeps its value, unless hooks of its node have run. -/
theorem value_of_not_fedBy (hfree : ∀ t, t.isPrimitive = true → ¬ s.FedBy e'.graph i t)
    (hquiet : ∀ u ∈ s.widgets, u.beforeQueued = none) :
    valueAt e.graph (s.place, j) = some w.value := by
  rcases exists_prepared_of_compile h with ⟨order, prepared, horder, hprepare, hgraph⟩
  have hskeleton : skeleton e'.graph = skeleton e.graph :=
    hgraph ▸ (prepare_sameSkeleton order).of_exec hprepare hdistinct
  have hdistinct' := distinct_of_skeleton_eq hskeleton hdistinct
  have hconsistent' := consistent_of_skeleton_eq hdistinct hskeleton hconsistent
  have hwidgets : Workflow.widgetsAt e'.graph s.place = s.widgets := by
    rw [Workflow.widgetsAt, siteAt?_place hdistinct' hs]
    rfl
  have hkept : Keeps e'.graph (· = (s.place, j)) (prepare order) := by
    refine prepare_keeps hdistinct' (by rwa [hwidgets]) ?_
    rintro ⟨q, hpushes⟩
    rcases Site.fedBy_of_pushesTo hconsistent' hdistinct' hs hconverts hpushes with
      ⟨t, -, hprimitive, hfed⟩
    exact hfree t hprimitive hfed
  rw [← (hkept e prepared hskeleton.symm hprepare).2 _ rfl, hgraph, valueAt_place hdistinct' hs,
    hconverts.widget, Option.map_some]

end Value

end Editor

/-! ## Steps -/

namespace Site

variable {maxHops : Int} {titled : Bool} {s : Site} {m : String × Step} {i j : Nat} {w : Widget}

/-- An input that is resolved to a virtual producer leaves the value of its widget in the step. -/
theorem IsBuilt.get?_of_converts (h : s.IsBuilt g maxHops titled m)
    (hconverts : Converts s.inputs s.widgets i j w) {found : Resolved}
    (hends : s.resolve g maxHops i = .ok (some found)) (hvirtual : found.site.isVirtual = true) :
    Table.get? m.2.inputs w.name = some w.value := by
  have hfree : ∀ i' slot, s.inputs[i']? = some slot → slot.name = w.name →
      ∀ r, ¬ s.Links g maxHops i' r := by
    rintro i' slot hslot hname r ⟨found', hfound', hr⟩
    cases hconverts.slots i' slot hslot (.inl hname)
    rw [hends, Except.ok.injEq] at hfound'
    subst hfound'
    rw [referenceOf, if_pos hvirtual] at hr
    cases hr
  rw [h.get?_of_not_links hfree,
    s.get?_literals_of_alone hconverts.widget hconverts.sent hconverts.literal hconverts.widgets]

end Site

private theorem Output.get?_prune (output : Output) (key : String) :
    output.prune.get? key = (output.get? key).map (Step.keep output) := by
  have hmap : ∀ t : Output, Table.get? (t.map fun m => (m.1, m.2.keep output)) key =
      (t.get? key).map (Step.keep output) := by
    intro t
    induction t with
    | nil => rfl
    | cons m t ih =>
      rcases m with ⟨k, step⟩
      by_cases hk : k = key
      · simp [Table.get?, hk]
      · simpa [Table.get?, hk] using ih
  exact hmap output

/-- What is found in a pruned output depends on what is found in the output. -/
theorem Output.get?_prune_congr {output output' : Output}
    (h : ∀ key, output'.get? key = output.get? key) (key : String) :
    output'.prune.get? key = output.prune.get? key := by
  have hhas : ∀ key, output'.has key = output.has key := fun key => by rw [Table.has, Table.has, h]
  rw [get?_prune, get?_prune, h, funext (Step.keep_congr hhas)]

namespace Editor

variable {e e' : Editor} {p : Prompt}

/-- A site that becomes a step, and whose key no other one has, has its step in the prompt. -/
theorem exists_step_of_compile (hdistinct : Distinct e.graph) (h : compile.exec e = (.ok p, e'))
    {s : Site} (hs : s ∈ emitted e'.graph)
    (hkey : ∀ t ∈ emitted e'.graph, t.id.key = s.id.key → t = s) :
    ∃ m, s.IsBuilt e'.graph e'.settings.maxHops e'.settings.devMode m ∧
      p.output.get? s.id.key = some (m.2.keep p.output) := by
  rcases exists_sites_of_compile hdistinct h with ⟨-, built, steps, hperm, -, hbuilt, houtput⟩
  rcases List.getElem?_of_mem (hperm.mem_iff.2 hs) with ⟨i, hi⟩
  rcases exists_step_at hbuilt hi with ⟨m, hm, hsm⟩
  have hmem : m ∈ steps.filter (·.1 = s.id.key) :=
    List.mem_filter.2 ⟨List.mem_of_getElem? hm, by simpa using hsm.1⟩
  cases hlast : (steps.filter (·.1 = s.id.key)).getLast? with
  | none =>
    rw [List.getLast?_eq_none_iff] at hlast
    rw [hlast] at hmem
    cases hmem
  | some m' =>
    rcases List.mem_filter.1 (List.mem_of_getLast? hlast) with ⟨hm', hname⟩
    rcases List.getElem?_of_mem hm' with ⟨i', hi'⟩
    rcases exists_site_at hbuilt hi' with ⟨t, ht, htm⟩
    have hsame := hkey t (hperm.mem_iff.1 (List.mem_of_getElem? ht))
      (htm.1.symm.trans (by simpa using hname))
    subst hsame
    refine ⟨m', htm, ?_⟩
    rw [houtput, Output.get?_prune, Table.get?_update, hlast, Output.keep_prune]
    rfl

/-- Where ids are distinct and links are written down at both ends, take a site that becomes a step,
and an input made from one of its widgets that is resolved to a primitive.  If the link of the input
itself starts at the primitive, the step holds the value that the primitive has after the preparation;
if the way there leads through other nodes, it holds the value that the widget had before.  In both
cases hooks of the node may interfere, and a value that reads as a reference to no step is left out.
The compilation changes nothing but values of widgets. -/
theorem compile_delivers (hdistinct : Distinct e.graph)
    (hconsistent : Workflow.Consistent e.graph) (h : compile.exec e = (.ok p, e')) {s : Site}
    (hs : s ∈ emitted e'.graph) (hkey : ∀ t ∈ emitted e'.graph, t.id.key = s.id.key → t = s)
    {i j : Nat} {w : Widget} (hconverts : Converts s.inputs s.widgets i j w) {found : Resolved}
    (hends : s.resolve e'.graph e'.settings.maxHops i = .ok (some found))
    (hprimitive : found.site.isPrimitive = true) :
    skeleton e'.graph = skeleton e.graph ∧ ∃ step, p.output.get? s.id.key = some step ∧
      (s.FedBy e'.graph i found.site → ∀ v vs, found.site.widgets = v :: vs →
        (∀ n, s = .outer n → ∀ u ∈ n.widgets, u.beforeQueued = none) →
        step.inputs.get? w.name = (some v.value).filter (Step.refersInto p.output)) ∧
      (¬ s.FedBy e'.graph i found.site → (∀ u ∈ s.widgets, u.beforeQueued = none) →
        step.inputs.get? w.name =
          (valueAt e.graph (s.place, j)).filter (Step.refersInto p.output)) := by
  rcases exists_step_of_compile hdistinct h hs hkey with ⟨m, hbuilt, hstep⟩
  have hsites := mem_sites_of_mem_emitted hs
  have hget : Table.get? (m.2.keep p.output).inputs w.name =
      (some w.value).filter (Step.refersInto p.output) := by
    rw [hbuilt.get?_keep,
      hbuilt.get?_of_converts hconverts hends (Site.isVirtual_of_isPrimitive hprimitive)]
  refine ⟨skeleton_of_compile hdistinct h, _, hstep, fun hfed v vs hwidgets hquiet => ?_,
    fun hother hquiet => ?_⟩
  · rw [hget, value_of_fedBy hdistinct hconsistent h hsites hconverts hfed hprimitive hwidgets hquiet]
  · have hfree : ∀ t, t.isPrimitive = true → ¬ s.FedBy e'.graph i t := by
      intro t ht hfed
      exact hother (hfed.eq_of_resolve ht hends ▸ hfed)
    rw [hget, value_of_not_fedBy hdistinct hconsistent h hsites hconverts hfree hquiet]

end Editor

/-- A primitive that is linked to one input of a sink, and to another one through a reroute. -/
def roundabout : Editor where
  graph := {
    nodes := [
      { id := .number 1, kind := .primitive none, type := "Primitive", title := none,
        outputs := [{ name := "o", links := [1, 2] }],
        widgets := [{ name := "value", value := .str "mine" }] },
      { id := .number 2, kind := .reroute, type := "Reroute", title := none,
        inputs := [{ name := "", link := some 2 }], outputs := [{ name := "", links := [3] }] },
      { id := .number 3, type := "Sink", title := none,
        inputs := [{ name := "near", link := some 1, widget := .str "near" },
                   { name := "far", link := some 3, widget := .str "far" }],
        widgets := [{ name := "near", value := .str "own" }, { name := "far", value := .str "own" }] }]
    links := [
      ⟨.number 1, .int 1, .number 0, .int 3, .number 0, .str "*"⟩,
      ⟨.number 2, .int 1, .number 0, .int 2, .number 0, .str "*"⟩,
      ⟨.number 3, .int 2, .number 0, .int 3, .number 1, .str "*"⟩] }

private theorem roundabout_distinct : Distinct roundabout.graph := by
  refine ⟨by decide, ?_⟩
  intro n hn group hgroup
  simp only [roundabout, List.mem_cons, List.not_mem_nil, or_false] at hn
  rcases hn with rfl | rfl | rfl <;> cases hgroup

private theorem roundabout_consistent : Consistent roundabout.graph := by
  refine ⟨(Graph.consistent_iff roundabout_distinct.outer).2 (by decide), ?_⟩
  intro n hn group hgroup
  simp only [roundabout, List.mem_cons, List.not_mem_nil, or_false] at hn
  rcases hn with rfl | rfl | rfl <;> cases hgroup

/-- Both inputs of the sink are made from its widgets; the link of the first has brought a value. -/
theorem roundabout_converts :
    Converts [{ name := "near", link := some 1, widget := .str "near" },
        { name := "far", link := some 3, widget := .str "far" }]
      [{ name := "near", value := .str "mine" }, { name := "far", value := .str "own" }]
      0 0 { name := "near", value := .str "mine" } ∧
    Converts [{ name := "near", link := some 1, widget := .str "near" },
        { name := "far", link := some 3, widget := .str "far" }]
      [{ name := "near", value := .str "mine" }, { name := "far", value := .str "own" }]
      1 1 { name := "far", value := .str "own" } := by
  constructor <;> refine ⟨⟨_, rfl, rfl⟩, rfl, by decide, rfl, rfl, ?_, ?_⟩
  all_goals
    rintro (_ | _ | i) x h hname
    all_goals first | rfl | cases h
    all_goals simp at hname

/-- The value of the primitive does not pass through the reroute, although the walk from the input
behind it ends at the primitive. -/
theorem rerouted_keeps :
    ∃ p e' s found, Distinct roundabout.graph ∧ Consistent roundabout.graph ∧
      Editor.compile.exec roundabout = (.ok p, e') ∧ s ∈ emitted e'.graph ∧
      s.resolve e'.graph e'.settings.maxHops 1 = .ok (some found) ∧
      found.site.isPrimitive = true ∧ found.site.widgets.map (·.value) = [.str "mine"] ∧
      Converts s.inputs s.widgets 1 1 { name := "far", value := .str "own" } ∧
      p.output.map (fun m => (m.1, m.2.inputs)) =
        [("3", [("near", .str "mine"), ("far", .str "own")])] :=
  ⟨_, _, _, _, roundabout_distinct, roundabout_consistent, rfl, List.mem_singleton_self _,
    rfl, rfl, rfl, roundabout_converts.2, rfl⟩

/-- Both cases at once: one input holds the link to the primitive, the other one the link to the
reroute. -/
theorem roundabout_delivers :
    Distinct roundabout.graph ∧ Consistent roundabout.graph ∧
      ∃ p e' s found found', Editor.compile.exec roundabout = (.ok p, e') ∧
        skeleton e'.graph = skeleton roundabout.graph ∧
        s ∈ emitted e'.graph ∧ (∀ t ∈ emitted e'.graph, t.id.key = s.id.key → t = s) ∧
        Converts s.inputs s.widgets 0 0 { name := "near", value := .str "mine" } ∧
        Converts s.inputs s.widgets 1 1 { name := "far", value := .str "own" } ∧
        s.resolve e'.graph e'.settings.maxHops 0 = .ok (some found) ∧
        s.resolve e'.graph e'.settings.maxHops 1 = .ok (some found') ∧
        found.site.isPrimitive = true ∧ found'.site.isPrimitive = true ∧
        s.FedBy e'.graph 0 found.site ∧ ¬ s.FedBy e'.graph 1 found'.site ∧
        found.site.widgets = [{ name := "value", value := .str "mine" }] ∧
        (∀ u ∈ s.widgets, u.beforeQueued = none) ∧
        ∃ step, p.output.get? s.id.key = some step ∧
          step.inputs.get? "near" = some (.str "mine") ∧
          step.inputs.get? "far" = some (.str "own") := by
  obtain ⟨p, e', s, found, found', h, hs, hfound, hfound', hprimitive, hprimitive', hfed, hother,
      hwidgets, hplace, hinputs, hvalues⟩ :
    ∃ p e' s found found', Editor.compile.exec roundabout = (.ok p, e') ∧
      emitted e'.graph = [s] ∧
      s.resolve e'.graph e'.settings.maxHops 0 = .ok (some found) ∧
      s.resolve e'.graph e'.settings.maxHops 1 = .ok (some found') ∧
      found.site.isPrimitive = true ∧ found'.site.isPrimitive = true ∧
      s.FedBy e'.graph 0 found.site ∧ ¬ s.FedBy e'.graph 1 found'.site ∧
      found.site.widgets = [{ name := "value", value := .str "mine" }] ∧
      s.place = .outer (.number 3) ∧
      s.inputs = [{ name := "near", link := some 1, widget := .str "near" },
        { name := "far", link := some 3, widget := .str "far" }] ∧
      s.widgets =
        [{ name := "near", value := .str "mine" }, { name := "far", value := .str "own" }] := by
    refine ⟨_, _, _, _, _, rfl, rfl, rfl, rfl, rfl, rfl, .outer ⟨_, rfl, rfl, rfl⟩, ?_, rfl, rfl, rfl,
      rfl⟩
    intro hfed
    cases hfed with
    | outer hfed =>
      rcases hfed with ⟨l, hl, hm, -⟩
      cases hl
      cases hm
  have hmem : s ∈ emitted e'.graph := by simp [hs]
  have hkey : ∀ t ∈ emitted e'.graph, t.id.key = s.id.key → t = s := by simp [hs]
  have hquiet : ∀ u ∈ s.widgets, u.beforeQueued = none := by
    rw [hvalues]
    simp
  have hconverts : Converts s.inputs s.widgets 0 0 { name := "near", value := .str "mine" } ∧
      Converts s.inputs s.widgets 1 1 { name := "far", value := .str "own" } := by
    rw [hinputs, hvalues]
    exact roundabout_converts
  rcases Editor.compile_delivers roundabout_distinct roundabout_consistent h hmem hkey hconverts.1
    hfound hprimitive with ⟨hskeleton, step, hstep, hnear, -⟩
  rcases Editor.compile_delivers roundabout_distinct roundabout_consistent h hmem hkey hconverts.2
    hfound' hprimitive' with ⟨-, step', hstep', -, hfar⟩
  cases hstep.symm.trans hstep'
  refine ⟨roundabout_distinct, roundabout_consistent, p, e', s, found, found', h, hskeleton, hmem,
    hkey, hconverts.1, hconverts.2, hfound, hfound', hprimitive, hprimitive', hfed, hother,
    hwidgets, hquiet, step, hstep, ?_, ?_⟩
  · refine (hnear hfed _ _ hwidgets ?_).trans rfl
    rintro n rfl
    exact hquiet
  · refine (hfar hother hquiet).trans ?_
    rw [hplace]
    rfl

end NodeFlow
