import NodeFlow.Proofs.Compile.DependencyOrder
import NodeFlow.Proofs.Compile.PlainWidgets

/-!
# Steps and resolved links

The references of a prompt are the resolved links between its nodes.  A reference may override the
value of a widget and then lead nowhere, in which case nothing is left under its name; everything
else that a step holds is what a widget sends.

Main results:

- Definition `Workflow.Unambiguous`: where steps are determined by their sites.
- Definition `Site.Reflects`: a step holds what the links and the widgets of its site say.
- Theorem `Site.IsBuilt.reflects_keep`: a step that is built and pruned does.
- Theorem `Editor.compile_reflects`: the prompt of a workflow of plain widgets.
-/

namespace NodeFlow

/-! ## Emitted sites -/

namespace Workflow

/-- Nodes of one graph have different ids, the sites that become steps have different keys, and the
slots of such a site have different names. -/
structure Unambiguous (g : Workflow) : Prop where
  distinct : Distinct g
  keys : ((emitted g).map (·.id.key)).Nodup
  slots : ∀ s ∈ emitted g, (s.inputs.map (·.name)).Nodup

/-- What names a site and its inputs, and whether it becomes a step. -/
def outline (s : Site) : (NodeId × List InputSlot) × Bool := ((s.id, s.inputs), s.isEmitted)

private theorem outline_bare (s : Site) : outline s.bare = outline s := by
  rw [outline, outline, Site.id_bare, Site.inputs_bare, Site.isEmitted_bare]

private theorem outlines_emitted_skeleton (g : Workflow) :
    (emitted (skeleton g)).map outline = (emitted g).map outline := by
  rw [emitted_skeleton, List.map_map]
  exact List.map_congr_left fun s _ => outline_bare s

private theorem outlines_emitted_of_skeleton_eq {g g' : Workflow} (h : skeleton g' = skeleton g) :
    (emitted g').map outline = (emitted g).map outline := by
  rw [← outlines_emitted_skeleton g', h, outlines_emitted_skeleton g]

/-- The keys of the sites that make steps do not depend on values of widgets. -/
theorem keys_emitted_of_skeleton_eq {g g' : Workflow} (h : skeleton g' = skeleton g) :
    (emitted g').map (·.id.key) = (emitted g).map (·.id.key) := by
  have hsame := outlines_emitted_of_skeleton_eq h
  simpa [outline, Function.comp_def] using congrArg (List.map (·.1.1.key)) hsame

/-- Whether steps are determined by their sites depends on the skeleton only. -/
theorem unambiguous_of_skeleton_eq {g g' : Workflow} (h : skeleton g' = skeleton g)
    (hg : Unambiguous g) : Unambiguous g' := by
  have hsame := outlines_emitted_of_skeleton_eq h
  refine ⟨distinct_of_skeleton_eq h hg.distinct, keys_emitted_of_skeleton_eq h ▸ hg.keys, ?_⟩
  intro s hs
  have hmem : outline s ∈ (emitted g).map outline := hsame ▸ List.mem_map_of_mem hs
  rcases List.mem_map.1 hmem with ⟨t, ht, heq⟩
  have hinputs : t.inputs = s.inputs := congrArg (·.1.2) heq
  exact hinputs ▸ hg.slots t ht

end Workflow

open Workflow

/-! ## What a step holds -/

namespace Site

/-- The step holds what its site says: nothing stands under a name twice; every slot is resolved,
and one that leads to a producer that is not virtual holds the reference to it if that is a step of the
output, and nothing otherwise; under every other name stands the value of the last widget of that
name that sends any. -/
structure Reflects (g : Workflow) (maxHops : Int) (output : Output) (s : Site) (step : Step) :
    Prop where
  names : (Table.names step.inputs).Nodup
  linked : ∀ (i : Nat) (slot : InputSlot), s.inputs[i]? = some slot →
    ∃ found, s.resolve g maxHops i = .ok found ∧ ∀ r, referenceOf found = some r →
      Table.get? step.inputs slot.name = if output.has r.origin then some r.toJson else none
  sent : ∀ name, (∀ (i : Nat) (slot : InputSlot), s.inputs[i]? = some slot → slot.name = name →
      ∀ r, ¬ s.Links g maxHops i r) →
    Table.get? step.inputs name =
      ((s.widgets.filter fun w => w.isSent && w.name == name).getLast?).map (·.value)

variable {g : Workflow} {maxHops : Int} {titled : Bool} {s : Site} {m : String × Step}

private theorem exists_resolve_of_linkInputs {i : Nat} {slots : List InputSlot}
    {inputs out : Members}
    (h : linkInputs g maxHops s i slots inputs = .ok out) {j : Nat} {slot : InputSlot}
    (hslot : slots[j]? = some slot) : ∃ found, s.resolve g maxHops ↑(i + j) = .ok found := by
  induction slots generalizing i j inputs with
  | nil => simp at hslot
  | cons first slots ih =>
    rw [linkInputs] at h
    rcases Fault.bind_eq_ok_iff.1 h with ⟨found, hfound, h⟩
    cases j with
    | zero => exact ⟨found, hfound⟩
    | succ j =>
      have hrest : ∃ inputs, linkInputs g maxHops s (i + 1) slots inputs = .ok out := by
        split at h
        · exact ⟨_, h⟩
        · exact ⟨_, h⟩
      rcases hrest with ⟨inputs, h⟩
      rw [← Nat.add_assoc, Nat.add_right_comm]
      exact ih h (by simpa using hslot)

/-- Of what stands under a name, pruning keeps what refers to no step outside the output. -/
theorem IsBuilt.get?_keep (h : s.IsBuilt g maxHops titled m) (output : Output) (name : String) :
    Table.get? (m.2.keep output).inputs name =
      (Table.get? m.2.inputs name).filter (Step.refersInto output) :=
  Table.get?_filter (Step.refersInto output) h.nodup_inputs

/-- A step that is built and pruned holds what its site says. -/
theorem IsBuilt.reflects_keep (h : s.IsBuilt g maxHops titled m)
    (hnames : (s.inputs.map (·.name)).Nodup) (hplain : ∀ w ∈ s.widgets, w.IsPlain)
    (output : Output) : s.Reflects g maxHops output (m.2.keep output) where
  names := Table.nodup_filter _ h.nodup_inputs
  linked := by
    intro i slot hslot
    rcases exists_resolve_of_linkInputs h.linkInputs hslot with ⟨found, hfound⟩
    rw [Nat.zero_add] at hfound
    refine ⟨found, hfound, ?_⟩
    intro r hr
    rw [h.get?_keep, h.get?_of_links hnames hslot ⟨found, hfound, hr⟩]
    rfl
  sent := by
    intro name hname
    rw [h.get?_keep, h.get?_of_not_links hname, get?_literals]
    cases hlast : (s.widgets.filter fun w => w.isSent && w.name == name).getLast? with
    | none => rfl
    | some w =>
      have hw : w.IsPlain := hplain w (List.mem_filter.1 (List.mem_of_getLast? hlast)).1
      simp [hw.literal, Option.filter, Step.refersInto, hw.value]

/-- A resolved link to a site of the output is kept as a reference. -/
theorem Reflects.mem_references {output : Output} {step : Step}
    (h : s.Reflects g maxHops output step) {i : Nat} {slot : InputSlot}
    (hslot : s.inputs[i]? = some slot) {found : Resolved}
    (hfound : s.resolve g maxHops i = .ok (some found)) (hvirtual : found.site.isVirtual = false)
    (hhas : output.has found.site.id.key = true) :
    (slot.name, ⟨found.site.id.key, found.slot.val⟩) ∈ step.references := by
  rcases h.linked i slot hslot with ⟨found', hfound', hlinked⟩
  rw [hfound, Except.ok.injEq] at hfound'
  subst hfound'
  have hget := hlinked ⟨found.site.id.key, found.slot.val⟩ (by simp [referenceOf, hvirtual])
  rw [if_pos hhas] at hget
  exact List.mem_filterMap.2 ⟨_, Table.mem_of_get? hget, rfl⟩

end Site

/-! ## Pruned outputs -/

/-- What a step keeps depends on the keys of the output only. -/
theorem Step.keep_congr {output output' : Output} (h : ∀ key, output'.has key = output.has key)
    (step : Step) : step.keep output' = step.keep output := by
  have hsame : refersInto output' = refersInto output := by
    funext v
    unfold refersInto
    split
    · exact h _
    · rfl
  rw [keep, keep, hsame]

namespace Output

/-- A pruned output has the steps of the output. -/
theorem has_prune (output : Output) (key : String) : output.prune.has key = output.has key := by
  rw [Bool.eq_iff_iff, Table.has_iff, Table.has_iff, prune_names]

/-- A step keeps the same of its inputs in a pruned output. -/
theorem keep_prune (output : Output) (step : Step) : step.keep output.prune = step.keep output :=
  Step.keep_congr (has_prune output) step

end Output

/-! ## Compilation -/

/-- Where keys differ, the pruned output holds the step of a site under its key. -/
theorem exists_step_of_mem {g : Workflow} {maxHops : Int} {titled : Bool} {built : List Site}
    {steps : Output} (hbuilt : List.Forall₂ (Site.IsBuilt g maxHops titled) built steps)
    (hkeys : (built.map (·.id.key)).Nodup) {s : Site} (hs : s ∈ built) :
    ∃ m, (Output.prune steps).get? s.id.key = some (m.2.keep steps) ∧
      s.IsBuilt g maxHops titled m := by
  rcases List.getElem?_of_mem hs with ⟨i, hi⟩
  rcases exists_step_at hbuilt hi with ⟨m, hm, hsbuilt⟩
  refine ⟨m, ?_, hsbuilt⟩
  rw [Table.get?_eq_some_iff (by rwa [Output.prune_names, names_of_isBuilt hbuilt]), ← hsbuilt.1]
  exact List.mem_map_of_mem (List.mem_of_getElem? hm)

private theorem isVirtual_of_mem_emitted {g : Workflow} {s : Site} (hs : s ∈ emitted g) :
    s.isVirtual = false := by
  have hemitted := (List.mem_filter.1 hs).2
  simp only [Site.isEmitted, Bool.and_eq_true, Bool.not_eq_true'] at hemitted
  exact hemitted.1

/-- A compilation that succeeds ends with the workflow that its preparation left. -/
theorem Editor.exists_prepared_of_compile {e e' : Editor} {p : Prompt}
    (h : compile.exec e = (.ok p, e')) :
    ∃ order prepared, e.graph.plan = .ok order ∧ (prepare order).exec e = (.ok ⟨⟩, prepared) ∧
      prepared.graph = e'.graph := by
  rcases exists_steps_of_compile h with ⟨order, prepared, _, _, horder, hprepare, hsame, -⟩
  exact ⟨order, prepared, horder, hprepare, (congrArg (·.graph) hsame).symm⟩

/-- The prompt of a workflow of plain widgets whose steps are determined by their sites.  The
compilation changes nothing but values of widgets, which the preparation leaves.  The keys of the
prompt are those of the emitted sites, each once, and every step holds what its site says.  No
reference leads nowhere, and no resolved link between two emitted sites is lost. -/
theorem Editor.compile_reflects {e e' : Editor} {p : Prompt} (hclear : Unambiguous e.graph)
    (hplain : e.IsPlain) (h : compile.exec e = (.ok p, e')) :
    skeleton e'.graph = skeleton e.graph ∧ e'.settings = e.settings ∧
    (∃ order prepared, e.graph.plan = .ok order ∧ (prepare order).exec e = (.ok ⟨⟩, prepared) ∧
      prepared.graph = e'.graph) ∧
    p.output.names.Nodup ∧ p.output.names.Perm ((emitted e.graph).map (·.id.key)) ∧
    p.output.names.Perm ((emitted e'.graph).map (·.id.key)) ∧
    ∀ s ∈ emitted e'.graph, ∃ step, p.output.get? s.id.key = some step ∧
      s.Reflects e'.graph e'.settings.maxHops p.output step ∧
      (∀ m ∈ step.references, p.output.has m.2.origin = true) ∧
      ∀ (i : Nat) slot found, s.inputs[i]? = some slot →
        s.resolve e'.graph e'.settings.maxHops i = .ok (some found) →
        found.site ∈ emitted e'.graph →
        (slot.name, ⟨found.site.id.key, found.slot.val⟩) ∈ step.references := by
  rcases exists_prepared_of_compile h with ⟨order, prepared, horder, hprepare, hgraph⟩
  rcases exists_sites_of_compile hclear.distinct h with
    ⟨hskeleton, built, steps, hperm, -, hbuilt, houtput⟩
  have hclear' := unambiguous_of_skeleton_eq hskeleton hclear
  have hplain' : Workflow.IsPlain e'.graph :=
    hgraph ▸ (prepare_isPlain order).of_exec hplain hprepare
  have hkeys : (built.map (·.id.key)).Perm ((emitted e'.graph).map (·.id.key)) := hperm.map _
  have hnodup : (built.map (·.id.key)).Nodup := hkeys.nodup_iff.2 hclear'.keys
  rw [update_of_isBuilt hbuilt hnodup] at houtput
  have hnames : p.output.names = built.map (·.id.key) := by
    rw [houtput, Output.prune_names, names_of_isBuilt hbuilt]
  refine ⟨hskeleton, settings_of_compile h, ⟨order, prepared, horder, hprepare, hgraph⟩,
    hnames ▸ hnodup, ?_, hnames ▸ hkeys, ?_⟩
  · rw [← keys_emitted_of_skeleton_eq hskeleton]
    exact hnames ▸ hkeys
  intro s hs
  rcases exists_step_of_mem hbuilt hnodup (hperm.mem_iff.2 hs) with ⟨m, hget, hsbuilt⟩
  have hplainSite : ∀ w ∈ s.widgets, w.IsPlain :=
    isPlain_iff.1 hplain' s (mem_sites_of_mem_emitted hs)
  have hreflects := hsbuilt.reflects_keep (hclear'.slots s hs) hplainSite p.output
  rw [houtput, Output.keep_prune, ← houtput] at hreflects
  refine ⟨m.2.keep steps, houtput ▸ hget, hreflects, ?_, ?_⟩
  · rintro ⟨name, r⟩ hreference
    rw [houtput, Output.has_prune]
    exact (Site.mem_references_of_keep hreference).2
  · intro i slot found hslot hfound hemitted
    apply hreflects.mem_references hslot hfound (isVirtual_of_mem_emitted hemitted)
    rw [Table.has_iff, hnames]
    exact hkeys.mem_iff.2 (List.mem_map_of_mem hemitted)

/-- A muted source, a source, a primitive, and a sink behind all three that has widgets under the
names of its linked inputs, and two widgets under one name. -/
def overriding : Editor where
  graph := {
    nodes := [
      { id := .number 1, type := "Source", title := none, mode := mutedMode,
        outputs := [{ name := "o", links := [1] }] },
      { id := .number 2, type := "Source", title := none,
        outputs := [{ name := "o", links := [2] }] },
      { id := .number 3, kind := .primitive none, type := "Primitive", title := none,
        outputs := [{ name := "o", links := [3] }],
        widgets := [{ name := "size", value := .int 9 }] },
      { id := .number 4, type := "Sink", title := none,
        inputs := [{ name := "image", link := some 1 }, { name := "seed", link := some 2 },
          { name := "size", link := some 3, widget := .str "size" }]
        widgets := [{ name := "image", value := .int 0 }, { name := "seed", value := .int 5 },
          { name := "size", value := .int 1 }, { name := "steps", value := .int 7 },
          { name := "steps", value := .int 8 }] }]
    links := [
      ⟨.number 1, .int 1, .number 0, .int 4, .number 0, .str "*"⟩,
      ⟨.number 2, .int 2, .number 0, .int 4, .number 1, .str "*"⟩,
      ⟨.number 3, .int 3, .number 0, .int 4, .number 2, .str "*"⟩] }

private theorem overriding_unambiguous : Unambiguous overriding.graph := by
  refine ⟨⟨by decide, ?_⟩, by decide, by decide⟩
  intro n hn group hgroup
  simp only [overriding, List.mem_cons, List.not_mem_nil, or_false] at hn
  rcases hn with rfl | rfl | rfl | rfl <;> cases hgroup

private theorem overriding_isPlain : overriding.IsPlain := by
  apply isPlain_iff.2
  have hplain : ∀ s ∈ sites overriding.graph, ∀ w ∈ s.widgets, w.serializer.isNone = true ∧
      w.beforeQueued.isNone = true ∧ Reference.ofJson? w.value = none := by decide
  intro s hs w hw
  rcases hplain s hs w hw with ⟨hserializer, hbefore, hvalue⟩
  exact ⟨Option.isNone_iff_eq_none.1 hserializer, Option.isNone_iff_eq_none.1 hbefore, hvalue⟩

/-- The link from the muted source leaves nothing under its name, that from the other source a
reference, and that from the primitive its value. -/
theorem overriding_reflects :
    Unambiguous overriding.graph ∧ overriding.IsPlain ∧
      ∃ p e', Editor.compile.exec overriding = (.ok p, e') ∧
        skeleton e'.graph = skeleton overriding.graph ∧ p.output.names = ["2", "4"] ∧
        (p.output.map fun m => (m.1, m.2.inputs)) = [("2", []),
          ("4", [("seed", .arr [.str "2", .int 0]), ("size", .int 9), ("steps", .int 8)])] ∧
        (emitted e'.graph).map (·.id) = [.number 2, .number 4] ∧
        ∀ s ∈ emitted e'.graph, ∃ step, p.output.get? s.id.key = some step ∧
          s.Reflects e'.graph e'.settings.maxHops p.output step := by
  obtain ⟨hskeleton, -, -, -, -, -, hsteps⟩ :=
    Editor.compile_reflects overriding_unambiguous overriding_isPlain rfl
  refine ⟨overriding_unambiguous, overriding_isPlain, _, _, rfl, hskeleton, rfl, rfl, rfl, ?_⟩
  intro s hs
  rcases hsteps s hs with ⟨step, hstep, hreflects, -⟩
  exact ⟨step, hstep, hreflects⟩

end NodeFlow
