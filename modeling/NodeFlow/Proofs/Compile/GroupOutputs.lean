import NodeFlow.Proofs.Compile.Delivery
import NodeFlow.Proofs.Compile.DistinctSteps

/-!
# What leaves a group

A group that is neither muted nor bypassed is taken apart, and the nodes inside it become steps.  A
link from one of its outputs is led on to the inner node behind the output only if the mode of the
group is the normal one.  There are more modes than these three: in any other one the inner nodes
are steps, but the link refers to the group itself, which is none, and the reference is dropped.

Main results:

- Definition `Site.Hears`: the node of the workflow from which a link arrives at an input.
- Theorem `Site.source_of_hears`: the producer behind such an input, wherever the input is.
- Theorem `Site.links_of_hears`: the reference of an input behind the output of a group.
- Theorem `Editor.compile_referencesGroupOutput`: what a prompt holds for such an input.
- Theorem `idling_drops`: a loaded group of another mode whose inner producer is not referred to.
-/

namespace NodeFlow

open Workflow

/-! ## Names of slots -/

namespace Site

variable {g : Workflow} {maxHops : Int} {titled : Bool} {s : Site} {m : String × Step}

/-- No slot behind the one at the given position has its name and links. -/
def IsLast (g : Workflow) (maxHops : Int) (s : Site) (i : Nat) (name : String) : Prop :=
  ∀ j slot, i < j → s.inputs[j]? = some slot → slot.name = name → ∀ r, ¬ s.Links g maxHops j r

/-- Of the slots of one name the last one that links counts. -/
theorem IsBuilt.get?_of_last (h : s.IsBuilt g maxHops titled m) {i : Nat} {slot : InputSlot}
    (hslot : s.inputs[i]? = some slot) {r : Reference} (hlinks : s.Links g maxHops i r)
    (hlast : s.IsLast g maxHops i slot.name) :
    Table.get? m.2.inputs slot.name = some r.toJson :=
  get?_linkInputs_of_last h.linkInputs hslot (by rwa [Nat.zero_add]) fun k slot' hk hslot' hsame => by
    rw [Nat.zero_add]
    exact hlast k slot' hk hslot' hsame

/-! ## The producer behind an input -/

/-- A link from a node of the workflow arrives at an input: the input holds it, or it is that of a
node inside a group, holds no link there, and the group passes on what it gets itself. -/
inductive Hears (g : Workflow) (i : Nat) : Site → Node Group → Link → Prop where
  | outer {n origin : Node Group} {l : Link} (hlink : g.inLink? n i = some l)
      (horigin : g.lookup? l.origin = .ok (some origin)) : Hears g i (.outer n) origin l
  | inner {host origin : Node Group} {group : Group} {n : Node Empty} {entry : Nat} {l : Link}
      (hopen : group.graph.inLink? n i = none)
      (hentry : (group.inputs.findIdx? fun port => port.node == n.id && port.slot == (i : Int)) =
        some entry)
      (hlink : g.inLink? host entry = some l)
      (horigin : g.lookup? l.origin = .ok (some origin)) : Hears g i (.inner host group n) origin l

private theorem source_of_link {n origin : Node Group} {l : Link} {i : Int}
    (hlink : g.inLink? n i = some l)
    (horigin : g.lookup? l.origin = .ok (some origin)) {t : Site} {l' : Link}
    (hunwrap : unwrap origin l = .ok (t, l')) : Workflow.source g n i = .ok (some (t, l')) := by
  simp only [Workflow.source, hlink, horigin, hunwrap, bind, Except.bind, pure, Except.pure]

/-- Wherever an input is, the producer behind it is the node that it hears, or what that node gives
way to. -/
theorem source_of_hears {i : Nat} {origin : Node Group} {l : Link} (h : s.Hears g i origin l)
    {t : Site} {l' : Link} (hunwrap : unwrap origin l = .ok (t, l')) :
    ∃ l'', s.source g i = .ok (some (t, l'')) ∧ l''.originSlot = l'.originSlot := by
  cases h with
  | outer hlink horigin => exact ⟨l', source_of_link hlink horigin hunwrap, rfl⟩
  | @inner host _ group n _ _ hopen hentry hlink horigin =>
    refine ⟨{ l' with target := (inner host group n).id.toJson, targetSlot := .number i }, ?_, rfl⟩
    simp only [source, hopen, hentry, source_of_link hlink horigin hunwrap, bind, Except.bind,
      pure, Except.pure]

/-- An input that is led to a producer which passes nothing on refers to it. -/
theorem links_of_source {i : Nat} {slot : InputSlot} (hslot : s.inputs[i]? = some slot) {t : Site}
    {l : Link} (hsource : s.source g i = .ok (some (t, l))) (hpassing : t.isPassing = false) :
    s.Links g maxHops i ⟨t.id.key, l.originSlot.val⟩ := by
  have hlt : i < s.inputs.length := (List.getElem?_eq_some_iff.1 hslot).1
  have hposition : (position? s.inputs.length (i : Int)).bind (s.inputs[·]?) = some slot := by
    rw [position?_ofNat hlt, Option.bind_some, hslot]
  have hwalk : ∀ left hops seen, walk g s.id i slot.type left hops seen t l =
      .ok (some ⟨t, l.originSlot, l⟩) := by
    intro left hops seen
    cases left <;>
    · rw [walk, hpassing]
      rfl
  have hvirtual : t.isVirtual = false := by
    rw [isPassing, Bool.or_eq_false_iff] at hpassing
    exact hpassing.1
  refine ⟨some ⟨t, l.originSlot, l⟩, ?_, by simp [referenceOf, hvirtual]⟩
  simp only [resolve, hsource, hposition, hwalk, bind, Except.bind]

end Site

/-! ## Groups -/

/-- The inner slot behind an output of a group. -/
def Group.outputPort? (x : Group) (slot : Int) : Option PortRef :=
  (position? x.outputs.length slot).bind (x.outputs[·]?)

namespace Workflow

variable {g : Workflow} {host : Node Group} {x : Group} {l : Link}

/-- A group of the normal mode gives way to the inner node behind its output. -/
theorem unwrap_of_normal (hgroup : host.group? = some x) (hmode : host.mode = normalMode)
    {port : PortRef} (hport : x.outputPort? l.originSlot.val = some port) {m : Node Empty}
    (hm : x.graph.find? port.node = .ok (some m)) :
    unwrap host l = .ok (.inner host x m,
      { l with origin := (Site.inner host x m).id.toJson, originSlot := .number port.slot }) := by
  have hrange : ¬ (x.outputs.length : Int) ≤ l.originSlot.val := by
    rcases Option.bind_eq_some_iff.1 hport with ⟨k, hk, -⟩
    exact not_le_of_gt (lt_of_position?_eq_some hk)
  have hport' : (position? x.outputs.length l.originSlot.val).bind (x.outputs[·]?) = some port :=
    hport
  simp only [unwrap, hgroup, hmode, if_true, innerProducer?, hrange, if_false, hport', hm, bind,
    Except.bind, pure, Except.pure, Option.getD_some]

/-- A group of any other mode stands for itself. -/
theorem unwrap_of_not_normal (hmode : host.mode ≠ normalMode) (l : Link) :
    unwrap host l = .ok (.outer host, l) := by
  unfold unwrap
  cases host.group? with
  | none => rfl
  | some x => simp [hmode]

private theorem mem_behind_inner {n : Node Group} {m : Node Empty}
    (h : Site.inner host x m ∈ behind n) :
    n = host ∧ host.isSkipped = false ∧ host.group? = some x ∧ m ∈ x.graph.nodes := by
  rcases behind_cases n with hbehind | ⟨group, hactive, hgroup, hbehind⟩
  · rw [hbehind] at h
    cases List.mem_singleton.1 h
  · rw [hbehind] at h
    rcases List.mem_map.1 h with ⟨k, hk, hsame⟩
    cases hsame
    exact ⟨rfl, hactive, hgroup, hk⟩

/-- An emitted node inside a group is one of a group that is taken apart, and it passes nothing
on. -/
theorem of_inner_mem_emitted {m : Node Empty} (h : Site.inner host x m ∈ emitted g) :
    host ∈ g.nodes ∧ host.isSkipped = false ∧ host.group? = some x ∧ m ∈ x.graph.nodes ∧
      (Site.inner host x m).isPassing = false := by
  rcases List.mem_filter.1 h with ⟨hexpanded, hemitted⟩
  rcases List.mem_flatMap.1 hexpanded with ⟨n, hn, hs⟩
  obtain ⟨rfl, hactive, hgroup, hm⟩ := mem_behind_inner hs
  refine ⟨hn, hactive, hgroup, hm, ?_⟩
  simp only [Site.isEmitted, Bool.and_eq_true, Bool.not_eq_true'] at hemitted
  have hskipped : m.isSkipped = false := hemitted.2
  have hbypassed : m.isBypassed = false := by
    rw [Node.isSkipped, Bool.or_eq_false_iff] at hskipped
    exact hskipped.2
  rw [Site.isPassing, hemitted.1]
  exact hbypassed

end Workflow

private theorem Site.isPassing_outer_of_active {host : Node Group} {x : Group}
    (hgroup : host.group? = some x) (hactive : host.isSkipped = false) :
    (Site.outer host).isPassing = false := by
  have hvirtual : host.kind.isVirtual = false := by
    rw [Node.group?] at hgroup
    cases hkind : host.kind with
    | group y => rfl
    | _ =>
      rw [hkind] at hgroup
      cases hgroup
  rw [Node.isSkipped, Bool.or_eq_false_iff] at hactive
  rw [Site.isPassing, Bool.or_eq_false_iff]
  exact ⟨hvirtual, hactive.2⟩

/-- An input behind the output of a group that is taken apart refers to the inner node behind the
output if the mode of the group is the normal one, and to the group otherwise. -/
theorem Site.links_of_hears {g : Workflow} {s : Site} {i : Nat} {slot : InputSlot}
    (hslot : s.inputs[i]? = some slot) {host : Node Group} {l : Link} (hhears : s.Hears g i host l)
    {x : Group} {port : PortRef} (hport : x.outputPort? l.originSlot.val = some port)
    {m : Node Empty} (hm : x.graph.find? port.node = .ok (some m))
    (hemitted : Site.inner host x m ∈ emitted g) (maxHops : Int) :
    s.Links g maxHops i
      (if host.mode = normalMode then ⟨(Site.inner host x m).id.key, port.slot⟩
        else ⟨host.id.key, l.originSlot.val⟩) := by
  obtain ⟨-, hactive, hgroup, -, hpassing⟩ := of_inner_mem_emitted hemitted
  split
  · rename_i hmode
    obtain ⟨l', hsource, hexit⟩ := source_of_hears hhears (unwrap_of_normal hgroup hmode hport hm)
    have hlinks : s.Links g maxHops i _ := links_of_source hslot hsource hpassing
    rwa [hexit] at hlinks
  · rename_i hmode
    obtain ⟨l', hsource, hexit⟩ := source_of_hears hhears (unwrap_of_not_normal hmode l)
    have hlinks : s.Links g maxHops i _ :=
      links_of_source hslot hsource (isPassing_outer_of_active hgroup hactive)
    rwa [hexit] at hlinks

/-- The key of a node inside a group is not that of the group. -/
theorem NodeId.key_within_ne (group inner : NodeId) : (group.within inner).key ≠ group.key := by
  intro h
  have hlist := congrArg String.toList h
  rw [toList_key_within] at hlist
  have hlength := congrArg List.length hlist
  simp at hlength

/-! ## Compilation -/

namespace Editor

variable {e e' : Editor} {p : Prompt}

/-- An emitted site has a step under its key, though it may be that of another site. -/
theorem has_of_mem_emitted (hdistinct : Distinct e.graph) (h : compile.exec e = (.ok p, e'))
    {s : Site} (hs : s ∈ emitted e'.graph) : p.output.has s.id.key = true := by
  rcases exists_sites_of_compile hdistinct h with ⟨-, built, steps, hperm, -, hbuilt, houtput⟩
  rw [houtput, Output.has_prune, Table.has_iff, (Table.names_update_perm steps).mem_iff,
    List.mem_dedup, names_of_isBuilt hbuilt]
  exact List.mem_map_of_mem (hperm.mem_iff.2 hs)

/-- Take a workflow whose ids are distinct, as those of a loaded one are, and a group in it, whatever
its mode.  An output of the group leads to a node inside that is emitted, and from the same output a
link arrives at an input of an emitted site, which has its key for itself and no later slot of the
same name that links.  The inner node has a step.  If the mode of the group is the normal one, the
step of the site refers to it under the name of the input; otherwise no reference under this name
leads there, and nothing is left under it unless the group's own id is the key of another step. -/
theorem compile_referencesGroupOutput (hdistinct : Distinct e.graph)
    (h : compile.exec e = (.ok p, e')) {s : Site} (hs : s ∈ emitted e'.graph)
    (hkey : ∀ t ∈ emitted e'.graph, t.id.key = s.id.key → t = s) {i : Nat} {slot : InputSlot}
    (hslot : s.inputs[i]? = some slot)
    (hlast : s.IsLast e'.graph e'.settings.maxHops i slot.name) {host : Node Group} {l : Link}
    (hhears : s.Hears e'.graph i host l) {x : Group} {port : PortRef}
    (hport : x.outputPort? l.originSlot.val = some port) {m : Node Empty}
    (hm : x.graph.find? port.node = .ok (some m))
    (hemitted : Site.inner host x m ∈ emitted e'.graph) :
    skeleton e'.graph = skeleton e.graph ∧
      p.output.has (Site.inner host x m).id.key = true ∧
      ∃ step, p.output.get? s.id.key = some step ∧
        (host.mode = normalMode →
          (slot.name, ⟨(Site.inner host x m).id.key, port.slot⟩) ∈ step.references) ∧
        (host.mode ≠ normalMode →
          (∀ k, (slot.name, ⟨(Site.inner host x m).id.key, k⟩) ∉ step.references) ∧
          step.inputs.get? slot.name =
            if p.output.has host.id.key then some (Reference.toJson ⟨host.id.key, l.originSlot.val⟩)
            else none) := by
  have hskeleton := (exists_sites_of_compile hdistinct h).1
  have hhas := has_of_mem_emitted hdistinct h hemitted
  obtain ⟨built, hbuilt, hstep⟩ := exists_step_of_compile hdistinct h hs hkey
  have hlinks := Site.links_of_hears hslot hhears hport hm hemitted e'.settings.maxHops
  have hget := hbuilt.get?_keep p.output slot.name
  rw [hbuilt.get?_of_last hslot hlinks hlast] at hget
  refine ⟨hskeleton, hhas, _, hstep, fun hmode => ?_, fun hmode => ?_⟩
  · rw [if_pos hmode] at hget
    have hkept : Table.get? (built.2.keep p.output).inputs slot.name =
        some (Reference.toJson ⟨(Site.inner host x m).id.key, port.slot⟩) := by
      rw [hget, Option.filter_some, Step.refersInto, Reference.ofJson?_toJson]
      exact if_pos hhas
    exact List.mem_filterMap.2 ⟨_, Table.mem_of_get? hkept, rfl⟩
  · rw [if_neg hmode] at hget
    have hkept : Table.get? (built.2.keep p.output).inputs slot.name =
        if p.output.has host.id.key then some (Reference.toJson ⟨host.id.key, l.originSlot.val⟩)
        else none := by
      rw [hget, Option.filter_some, Step.refersInto, Reference.ofJson?_toJson]
    refine ⟨fun k hmem => ?_, hkept⟩
    -- a name has one value, and this one is not a reference to the inner node
    rcases List.mem_filterMap.1 hmem with ⟨⟨name, v⟩, hentry, hreads⟩
    rcases Option.map_eq_some_iff.1 hreads with ⟨r, hr, hsame⟩
    cases hsame
    have hnodup : (Table.names (built.2.keep p.output).inputs).Nodup :=
      Table.nodup_filter _ hbuilt.nodup_inputs
    rw [(Table.get?_eq_some_iff hnodup).2 hentry] at hkept
    split at hkept
    · cases hkept
      rw [Reference.ofJson?_toJson, Option.some.injEq, Reference.mk.injEq] at hr
      exact NodeId.key_within_ne host.id m.id hr.1.symm
    · cases hkept

end Editor

/-! ## A group and a sink -/

/-- A node inside a group. -/
def tappedInside : Node Empty where
  id := .number 1
  type := "Decoder"
  title := none
  outputs := [{ name := "d" }]

/-- A group with this node inside, whose output leaves the group. -/
def tappedGroup (mode : Int) : Node Group where
  id := .number 1
  kind := .group ⟨{ nodes := [tappedInside] }, [], [⟨.number 1, 0⟩]⟩
  type := "Group"
  title := none
  mode := mode
  outputs := [{ name := "o", links := [1] }]

/-- A node that is linked to the output of the group. -/
def tappingSink : Node Group where
  id := .number 2
  type := "Sink"
  title := none
  inputs := [{ name := "x", link := some 1 }]

/-- The editor with both. -/
def tapped : Editor where
  graph := {
    nodes := [tappedGroup normalMode, tappingSink]
    links := [⟨.number 1, .int 1, .number 0, .int 2, .number 0, .str "*"⟩] }

/-- In the normal mode the step of the sink refers to the node inside the group. -/
theorem tapped_references : ∃ p e', Editor.compile.exec tapped = (.ok p, e') ∧
    ∃ step, p.output.get? "2" = some step ∧ ("x", ⟨"1:1", 0⟩) ∈ step.references := by
  have hdistinct : Distinct tapped.graph := by
    refine ⟨by decide, ?_⟩
    intro n hn group hgroup
    simp only [tapped, List.mem_cons, List.not_mem_nil, or_false] at hn
    rcases hn with rfl | rfl
    · cases hgroup
      decide
    · cases hgroup
  have hkey : ∀ t ∈ emitted tapped.graph, t.id.key = "2" → t = .outer tappingSink := by
    intro t ht hkey
    have hemitted : emitted tapped.graph =
        [.inner (tappedGroup normalMode) _ tappedInside, .outer tappingSink] := rfl
    rw [hemitted, List.mem_cons, List.mem_singleton] at ht
    rcases ht with rfl | rfl
    · exact absurd hkey (by decide)
    · rfl
  have hlast : (Site.outer tappingSink).IsLast tapped.graph tapped.settings.maxHops 0 "x" := by
    intro j slot hj hslot
    cases j with
    | zero => omega
    | succ j => simp [Site.inputs, tappingSink] at hslot
  have hhears : (Site.outer tappingSink).Hears tapped.graph 0 (tappedGroup normalMode)
      ⟨.number 1, .int 1, .number 0, .int 2, .number 0, .str "*"⟩ := .outer rfl rfl
  have hinside : (Group.graph ⟨{ nodes := [tappedInside] }, [], [⟨.number 1, 0⟩]⟩).find?
      (.number 1) = .ok (some tappedInside) := rfl
  refine ⟨_, _, rfl, ?_⟩
  obtain ⟨-, -, step, hstep, hnormal, -⟩ := Editor.compile_referencesGroupOutput hdistinct rfl
    (List.mem_cons_of_mem _ List.mem_cons_self) hkey rfl hlast hhears rfl hinside
    List.mem_cons_self
  exact ⟨step, hstep, hnormal rfl⟩

/-- A document with a group of a mode that is none of the three, and a sink behind it. -/
def idling : Document where
  nodes := [
    { id := .number 1, type := "Group", mode := 1, outputs := [{ name := "o", links := some [1] }]
      groupInputs := some [], groupOutputs := some [⟨.number 1, 0⟩]
      subgraph := some
        { nodes := [{ id := .number 1, type := "Decoder", outputs := [{ name := "d" }] }] } },
    { id := .number 2, type := "Sink", inputs := [{ name := "x", link := some 1 }] }]
  links := [[.int 1, .int 1, .int 0, .int 2, .int 0, .str "*"]]

/-- The document loads and compiles, the node inside the group and the sink are both emitted, and
neither step has an input. -/
theorem idling_drops :
    ∃ g missing p e', Registry.load {} (.document idling) = .ok (g, missing) ∧
      Editor.compile.exec { graph := g } = (.ok p, e') ∧
      (emitted g).map (fun s => (s.id.key, s.type)) = [("1:1", "Decoder"), ("2", "Sink")] ∧
      p.output.map (fun m => (m.1, m.2.inputs.length)) = [("1:1", 0), ("2", 0)] := by
  have hall : (Registry.load {} (.document idling)).toOption.any (fun loaded =>
      (emitted loaded.1).map (fun s => (s.id.key, s.type)) == [("1:1", "Decoder"), ("2", "Sink")] &&
        (Editor.compile.exec { graph := loaded.1 }).1.toOption.any fun p =>
          p.output.map (fun m => (m.1, m.2.inputs.length)) == [("1:1", 0), ("2", 0)]) = true := by
    decide +kernel
  cases hload : Registry.load {} (.document idling) with
  | error f =>
    rw [hload] at hall
    cases hall
  | ok loaded =>
    obtain ⟨g, missing⟩ := loaded
    rw [hload] at hall
    simp only [Except.toOption, Option.any_some, Bool.and_eq_true, beq_iff_eq] at hall
    obtain ⟨hemitted, hcompiled⟩ := hall
    rcases hcompile : Editor.compile.exec { graph := g } with ⟨f | p, e'⟩
    · rw [hcompile] at hcompiled
      cases hcompiled
    · rw [hcompile, Option.any_some, beq_iff_eq] at hcompiled
      exact ⟨g, missing, p, e', rfl, hcompile, hemitted, hcompiled⟩

end NodeFlow
