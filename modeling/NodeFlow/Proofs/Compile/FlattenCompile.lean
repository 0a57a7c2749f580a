import NodeFlow.Proofs.Compile.Decision
import NodeFlow.Proofs.Compile.Serializers
import NodeFlow.Proofs.Compile.Transparent

/-!
# Compilations without groups

A transparent workflow compiles to the same steps with its groups and without them.  The sites that
are walked through are the same in another order, no two of them have one key, and each of them is
built from the same values and the same links.

Main results:

- Theorem `Workflow.Flattenable.exists_steps_flatten`: the steps that are built of the sites.
- Theorem `Editor.exists_compileSites_flatten`: where a prepared workflow is compiled, so is the
  flattened one, to the same steps.
- Definition `Editor.flattened` and theorem `Editor.compile_flatten`: expanding groups is transparent.
- Theorem `separable_flatten_differs`: workflows that can be taken apart, but do something else then.
-/

namespace NodeFlow

open Workflow

/-! ## Steps of sites -/

private theorem Site.isEmitted_flat (g : Workflow) (s : Site) :
    (Site.outer (s.flat g)).isEmitted = s.isEmitted := by
  rw [isEmitted, isEmitted, isVirtual_flat, isSkipped_flat]

namespace Workflow

variable {g : Workflow}

/-- The steps of a workflow are those of the flattened one, in some order. -/
theorem Flattenable.exists_steps_flatten (h : Flattenable g) {maxHops : Int} {titled : Bool}
    {sites sites' : List Site} (hsites : sites.Perm (expanded g))
    (hsites' : sites'.Perm (expanded (flatten g))) {steps : Output}
    (hbuilt : List.Forall₂ (Site.IsBuilt g maxHops titled) (sites.filter (·.isEmitted)) steps) :
    ∃ steps' : Output, List.Forall₂ (Site.IsBuilt (flatten g) maxHops titled)
      (sites'.filter (·.isEmitted)) steps' ∧ List.Perm steps' steps := by
  have hflat : List.Forall₂ (Site.IsBuilt (flatten g) maxHops titled)
      ((sites.filter (·.isEmitted)).map fun s => .outer (s.flat g)) steps := by
    rw [List.forall₂_map_left_iff]
    refine List.Forall₂.imp (fun s m hm => hm.2.flatten h hm.1)
      ((List.forall₂_and_left _ _).2 ⟨fun s hs => ?_, hbuilt⟩)
    exact hsites.mem_iff.1 (List.mem_filter.1 hs).1
  have hperm : (sites'.filter (·.isEmitted)).Perm
      ((sites.filter (·.isEmitted)).map fun s => .outer (s.flat g)) := by
    have hmap : (sites.filter (·.isEmitted)).map (fun s => Site.outer (s.flat g)) =
        (sites.map fun s => Site.outer (s.flat g)).filter (·.isEmitted) := by
      rw [List.filter_map]
      exact congrArg (List.map _) (List.filter_congr fun s _ => (s.isEmitted_flat g).symm)
    rw [hmap]
    refine (hsites'.trans ?_).filter _
    rw [expanded_flatten h]
    exact (hsites.map _).symm
  exact List.perm_comp_forall₂ hperm hflat

end Workflow

/-! ## Compilations -/

namespace Editor

open Workflow

variable {e e' : Editor} {g : Workflow} {maxHops : Int} {titled : Bool}

/-- Where the steps of a prepared workflow are built, so are those of the flattened one, and they are
the same. -/
theorem exists_compileSites_flatten (h : Flattenable g) (hreliable : AllWidgets Widget.IsReliable g)
    {order order' : List NodeId} (horder : g.plan = .ok order)
    (horder' : Graph.plan (flatten g) = .ok order') {output : Output}
    (hexec : (compileSites g maxHops titled ((order.filterMap g.at?).map Site.outer)).exec e =
      (.ok output, e')) (e₁ : Editor) :
    ∃ output' e₂, (compileSites (flatten g) maxHops titled
        ((order'.filterMap (Graph.at? (flatten g))).map Site.outer)).exec e₁ = (.ok output', e₂) ∧
      ∀ key, output'.get? key = output.get? key := by
  have hdistinct := h.keyed.distinct
  -- the sites that are walked through
  rcases Act.exec_bind_eq_ok_iff.1 hexec with ⟨built, _, hbuilt, hprune⟩
  cases hprune
  rcases exists_steps_of_expandSteps hbuilt with ⟨met, steps, hmet, hsteps, rfl⟩
  have hordered : Graph.Ordered g := ⟨hdistinct.outer, order, horder⟩
  have hperm : met.flatten.Perm (expanded g) :=
    flatten_perm hdistinct.inner (hordered.filterMap_plan_perm horder) hmet
  have hsends := sends_of_expandSteps hmet (fun s hs =>
    hreliable.of_mem_sites (mem_sites_of_mem_expanded (hperm.mem_iff.1 hs))) hbuilt
  -- and those of the flattened workflow
  have hordered' : Graph.Ordered (flatten g) := ⟨(distinct_flatten h).outer, order', horder'⟩
  have hnodes := hordered'.filterMap_plan_perm horder'
  have hperm' : ((order'.filterMap (Graph.at? (flatten g))).map Site.outer).Perm
      (expanded (flatten g)) := by
    rw [expanded_flatten h]
    refine (hnodes.map _).trans ?_
    rw [flatten, List.map_map]
    rfl
  rcases h.exists_steps_flatten hperm hperm' hsteps with ⟨steps', hsteps', hsame⟩
  have hplain : ∀ n ∈ order'.filterMap (Graph.at? (flatten g)), n.group? = none :=
    fun n hn => group?_of_mem_flatten h (hnodes.mem_iff.1 hn)
  -- its widgets send as well
  have hwidgets : ∀ s ∈ (order'.filterMap (Graph.at? (flatten g))).map Site.outer,
      (∀ w ∈ s.widgets, w.IsReliable) ∧ (s.isEmitted = true → ∀ w ∈ s.widgets, w.Sends) := by
    intro s hs
    rw [hperm'.mem_iff, expanded_flatten h] at hs
    rcases List.mem_map.1 hs with ⟨t, ht, rfl⟩
    rw [t.isEmitted_flat, show (Site.outer (t.flat g)).widgets = t.widgets from t.widgets_flat g]
    exact ⟨hreliable.of_mem_sites (mem_sites_of_mem_expanded ht), hsends t (hperm.mem_iff.2 ht)⟩
  rcases exists_buildSteps (fun s hs => (hwidgets s hs).1) (fun s hs => (hwidgets s hs).2) hsteps' [] e₁
    with ⟨e₂, hbuild⟩
  rw [← exec_expandSteps_of_plain hplain] at hbuild
  refine ⟨_, e₂, Act.exec_bind_eq_ok_iff.2 ⟨Table.update [] steps', e₂, hbuild, rfl⟩, ?_⟩
  -- no two steps have one key, so their order does not matter
  have hnames : (Table.names steps).Nodup := by
    rw [names_of_isBuilt hsteps]
    exact h.keyed.emitted_keys_nodup hperm
  have hnames' : (Table.names steps').Nodup := (hsame.map _).nodup_iff.2 hnames
  rw [Table.update_nil hnames, Table.update_nil hnames']
  exact Output.get?_prune_congr (Table.get?_of_perm hsame hnames')

/-- The editor with the nodes inside groups in place of these. -/
def flattened (e : Editor) : Editor := { e with graph := flatten e.graph }

/-- Expanding groups is transparent: where a workflow compiles, so does the one that has the nodes
inside groups in place of these, and the steps are the same. -/
theorem compile_flatten {p : Prompt} (h : Transparent e.graph) (hexec : compile.exec e = (.ok p, e')) :
    ∃ q e₁, compile.exec e.flattened = (.ok q, e₁) ∧
      ∀ key, q.output.get? key = p.output.get? key := by
  rcases exec_compile_eq_ok_iff.1 hexec with ⟨order, prepared, output, horder, hprepare, houtput, rfl⟩
  have hplanned := planned_of_prepare h.keyed.distinct horder rfl hprepare
  rcases (plan_flatten h.keyed hplanned).planned with ⟨order', horder'⟩
  rcases exec_prepare_flatten h horder hprepare horder' with ⟨hskeleton, hsettings, o, hprepare'⟩
  have hplan : prepared.graph.plan = .ok order := (plan_of_skeleton_eq hskeleton).trans horder
  have hplan' : Graph.plan (flatten prepared.graph) = .ok order' :=
    (plan_of_skeleton_eq (skeleton_flatten_of_skeleton_eq hskeleton)).trans horder'
  rcases exists_compileSites_flatten (flattenable_of_skeleton_eq hskeleton h.toFlattenable)
    (allWidgets_of_skeleton_eq Widget.isReliable_bare hskeleton h.reliable) hplan hplan' houtput
    { e with graph := flatten prepared.graph, outside := o } with ⟨output', e₁, houtput', hsame⟩
  rw [hsettings] at houtput'
  exact ⟨⟨Workflow.save (flatten prepared.graph), output'⟩, e₁,
    exec_compile_eq_ok_iff.2 ⟨order', _, output', horder', hprepare', houtput', rfl⟩, hsame⟩

end Editor

/-! ## Examples -/

section Parts

variable {γ : Type}

/-- A link between nodes, from the first output to an input. -/
def wire (id origin target slot : Int) : Link :=
  ⟨.number id, .int origin, .number 0, .int target, .number slot, .str "*"⟩

/-- A node that gives something. -/
def sourceNode (id : Int) (links : List Int) : Node γ :=
  { id := .number id, type := "Source", title := none, outputs := [{ name := "o", links }] }

/-- A node that takes something and gives something. -/
def passNode (id : Int) (link : Option Int) (links : List Int) : Node γ :=
  { id := .number id, type := "Pass", title := none, inputs := [{ name := "x", link }],
    outputs := [{ name := "o", links }] }

/-- A node that takes something, and a text that a primitive may give. -/
def sinkNode (id : Int) (x seed : Option Int) (hook : Option QueueHook) : Node γ :=
  { id := .number id, type := "Sink", title := none,
    inputs := [{ name := "x", link := x }, { name := "seed", link := seed, widget := .str "seed" }],
    widgets := [{ name := "seed", value := .str "own", beforeQueued := hook }] }

/-- A node that gives a text. -/
def textNode (id : Int) (value : String) (inputs : List InputSlot) (links : List Int) : Node γ :=
  { id := .number id, kind := .primitive none, type := "PrimitiveNode", title := none, inputs,
    outputs := [{ name := "o", links }], widgets := [{ name := "seed", value := .str value }] }

/-- A node that stands for a graph, with one input and one output. -/
def groupNode (id : Int) (input : Option Int) (links : List Int) (group : Group) : Node Group :=
  { id := .number id, kind := .group group, type := "Group", title := none,
    inputs := [{ name := "x", link := input }], outputs := [{ name := "o", links }] }

/-- A hook that sets a widget. -/
def setting (value : String) : QueueHook := .scripted ⟨0, { sets := some (.str value) }⟩

end Parts

/-- Two groups, one behind the other.  The first one passes its input through a reroute and a bypassed
node to a sink, which also has a primitive. -/
def assembled : Editor where
  graph := {
    nodes := [
      sourceNode 1 [1],
      groupNode 2 (some 1) [2] ⟨{
        nodes := [
          { (passNode 1 none [1] : Node Empty) with kind := .reroute },
          { (passNode 2 (some 1) [2] : Node Empty) with mode := bypassedMode },
          { (sinkNode 3 (some 2) (some 3) none : Node Empty) with outputs := [{ name := "o" }] },
          textNode 4 "pushed" [] [3]]
        links := [wire 1 1 2 0, wire 2 2 3 0, wire 3 4 3 1] },
        [⟨.number 1, 0⟩], [⟨.number 3, 0⟩]⟩,
      groupNode 3 (some 2) [3] ⟨{ nodes := [passNode 1 none []] }, [⟨.number 1, 0⟩], [⟨.number 1, 0⟩]⟩,
      sinkNode 4 (some 3) none (some (setting "hooked"))]
    links := [wire 1 1 2 0, wire 2 2 3 0, wire 3 3 4 0] }

/-- The steps of the example, with its groups and without them. -/
theorem assembled_flatten : Transparent assembled.graph ∧
    ∃ p e' q e₁, Editor.compile.exec assembled = (.ok p, e') ∧
      Editor.compile.exec assembled.flattened = (.ok q, e₁) ∧
      (∀ key, q.output.get? key = p.output.get? key) ∧
      p.output.map (fun m => (m.1, m.2.inputs)) =
        [("1", []), ("2:3", [("seed", .str "pushed"), ("x", .arr [.str "1", .int 0])]),
          ("3:1", [("x", .arr [.str "2:3", .int 0])]),
          ("4", [("seed", .str "hooked"), ("x", .arr [.str "3:1", .int 0])])] := by
  have htransparent : Transparent assembled.graph := by decide +kernel
  obtain ⟨p, e', h, hsteps⟩ : ∃ p e', Editor.compile.exec assembled = (.ok p, e') ∧
      p.output.map (fun m => (m.1, m.2.inputs)) =
        [("1", []), ("2:3", [("seed", .str "pushed"), ("x", .arr [.str "1", .int 0])]),
          ("3:1", [("x", .arr [.str "2:3", .int 0])]),
          ("4", [("seed", .str "hooked"), ("x", .arr [.str "3:1", .int 0])])] := ⟨_, _, rfl, rfl⟩
  rcases Editor.compile_flatten htransparent h with ⟨q, e₁, hq, hsame⟩
  exact ⟨htransparent, p, e', q, e₁, h, hq, hsame, hsteps⟩

/-- Inside a group the hook of the sink runs before the primitive pushes, as all hooks there do. -/
def hookedInside : Editor where
  graph := {
    nodes := [groupNode 1 none [] ⟨{
      nodes := [textNode 1 "pushed" [] [1], sinkNode 2 none (some 1) (some (setting "hooked"))]
      links := [wire 1 1 2 1] }, [], []⟩] }

/-- A primitive inside a group pushes to another one, which does not wait for it: its input does not
hold the link between them. -/
def unheldInside : Editor where
  graph := {
    nodes := [
      sourceNode 1 [1],
      groupNode 2 (some 1) [] ⟨{
        nodes := [
          passNode 1 none [1], sourceNode 2 [2],
          textNode 3 "first" [{ name := "value", widget := .str "seed" },
            { name := "late", link := some 1 }] [3],
          textNode 4 "second" [{ name := "late", link := some 2 }] [4],
          sinkNode 5 none (some 3) none]
        links := [wire 1 1 3 1, wire 2 2 4 0, wire 3 3 5 1, wire 4 4 3 0] }, [⟨.number 1, 0⟩], []⟩]
    links := [wire 1 1 2 0] }

/-- A primitive pushes to a sink with a hook, which does not wait for it, but for a group. -/
def unheldOutside : Editor where
  graph := {
    nodes := [
      sourceNode 1 [1],
      groupNode 2 (some 1) [2] ⟨{ nodes := [passNode 1 none [], sourceNode 2 []] },
        [⟨.number 1, 0⟩], [⟨.number 2, 0⟩]⟩,
      sinkNode 3 (some 2) none (some (setting "hooked")), sourceNode 4 [3],
      textNode 5 "pushed" [{ name := "late", link := some 3 }] [4]]
    links := [wire 1 1 2 0, wire 2 2 3 0, wire 3 4 5 0, wire 4 5 3 1] }

/-- A reroute inside a group has no input, though an input of the group stands for one. -/
def slotless : Editor where
  graph := {
    nodes := [
      sourceNode 1 [1],
      groupNode 2 (some 1) [] ⟨{
        nodes := [{ (passNode 1 none [1] : Node Empty) with kind := .reroute, inputs := [] },
          sinkNode 2 (some 1) none none]
        links := [wire 1 1 2 0] }, [⟨.number 1, 0⟩], []⟩]
    links := [wire 1 1 2 0] }

/-- Two hooks count their calls together, and one of them fails in the first call. -/
def counting : Editor where
  graph := {
    nodes := [
      sourceNode 1 [1],
      groupNode 2 (some 1) [] ⟨{
        nodes := [passNode 1 none [], sinkNode 2 none none
          (some (.scripted ⟨0, { raises := some {}, raiseLimit := some 1 }⟩))] }, [⟨.number 1, 0⟩], []⟩,
      sinkNode 3 none none (some (.scripted ⟨0, {}⟩))]
    links := [wire 1 1 2 0] }
  outside := { calls := [0] }

/-- The inputs of a step, where a compilation gives it. -/
def Editor.inputsAt (e : Editor) (key : String) : Option Members :=
  ((compile.exec e).1.toOption.bind (·.output.get? key)).map (·.inputs)

/-- None of these separable workflows is transparent: after flattening, the first four have a step with
other inputs, and the last one does not compile. -/
theorem separable_flatten_differs :
    (Separable hookedInside.graph ∧
      hookedInside.inputsAt "1:2" = some [("seed", .str "pushed")] ∧
      hookedInside.flattened.inputsAt "1:2" = some [("seed", .str "hooked")]) ∧
    (Separable unheldInside.graph ∧
      unheldInside.inputsAt "2:5" = some [("seed", .str "first")] ∧
      unheldInside.flattened.inputsAt "2:5" = some [("seed", .str "second")]) ∧
    (Separable unheldOutside.graph ∧
      unheldOutside.inputsAt "3" =
        some [("seed", .str "hooked"), ("x", .arr [.str "2:2", .int 0])] ∧
      unheldOutside.flattened.inputsAt "3" =
        some [("seed", .str "pushed"), ("x", .arr [.str "2:2", .int 0])]) ∧
    (Separable slotless.graph ∧
      slotless.inputsAt "2:2" = some [("seed", .str "own"), ("x", .arr [.str "1", .int 0])] ∧
      slotless.flattened.inputsAt "2:2" = some [("seed", .str "own")]) ∧
    Separable counting.graph ∧ (∃ p e', Editor.compile.exec counting = (.ok p, e')) ∧
      ∃ f e', Editor.compile.exec counting.flattened = (.error f, e') := by
  refine ⟨⟨by decide +kernel, rfl, rfl⟩, ⟨by decide +kernel, rfl, rfl⟩, ⟨by decide +kernel, rfl, rfl⟩,
    ⟨by decide +kernel, rfl, rfl⟩, by decide +kernel, ⟨_, _, rfl⟩, ⟨_, _, rfl⟩⟩

end NodeFlow
