import NodeFlow.Proofs.Edit.Agreement
import NodeFlow.Proofs.Load.NewNodes
import NodeFlow.Proofs.Load.Rebuilt

/-!
# Blueprints

An output is a blueprint of a graph if its steps are those of nodes as the registry makes them:
every input is a reference to an output that is there, or the value of a widget, and no widget that
is sent is left out.  A graph is rebuilt from it, and holds what it says.

Main results:

- Definitions `Step.IsDrawn` and `Output.IsBlueprint`: outputs that graphs can be rebuilt from.
- Definitions `Step.HeldBy` and `Output.HeldBy`: graphs that hold what an output says.
- Theorem `Output.IsBlueprint.rebuild`: rebuilding succeeds, and the graph holds the output.
-/

namespace NodeFlow

open NodeFlow.Graph

/-! ## Nodes that go on running -/

private theorem Node.Runs.of_frame {n n' : Node Group} (h : n.Runs) (hframe : n'.frame = n.frame) :
    n'.Runs where
  kind := (Node.kind_of_frame hframe).trans h.kind
  mode := (congrArg (fun m => m.mode) hframe : n'.mode = n.mode).trans h.mode
  attached := (congrArg (fun m => m.isCutOff) hframe : n'.isCutOff = n.isCutOff).trans h.attached
  silent := by
    intro w hw
    rcases Widget.exists_of_bare (Node.widgets_of_frame hframe).symm hw with ⟨w', hw', hbare⟩
    have hsilent := h.silent w' hw'
    have hbefore : w'.beforeQueued = w.beforeQueued := congrArg (·.beforeQueued) hbare
    have hserializer : w'.serializer = w.serializer := congrArg (·.serializer) hbare
    rwa [hbefore, hserializer] at hsilent

/-! ## Outputs that say what to build -/

/-- An input that a new node can take: a value for a widget that is sent, or a reference to an
output that the node of another step has, for a slot. -/
inductive Output.Offers (r : Registry) (output : Output) (n : Node Group) : String × Json → Prop
  | value {w : Widget} {v : Json} (hw : w ∈ n.widgets) (hsent : w.isSent = true)
    (hv : v.isPair = false) : Offers r output n (w.name, v)
  | reference {s : InputSlot} {m : String × Step} {origin : Node Group} {i : Nat}
    (hs : s ∈ n.inputs) (hm : m ∈ output) (horigin : r.create {} m.2.className = .ok origin)
    (hi : i < origin.outputs.length) : Offers r output n (s.name, Reference.toJson ⟨m.1, i⟩)

/-- The step is one of a new node of its class: every input stands under its own name and is one
that the node can take, and no widget that is sent is left out. -/
structure Step.IsDrawn (r : Registry) (output : Output) (s : Step) (n : Node Group) : Prop where
  created : r.create {} s.className = .ok n
  fresh : n.IsNew s.className
  slots : (n.inputs.map (·.name) ++ n.widgets.map (·.name)).Nodup
  names : (Table.names s.inputs).Nodup
  inputs : ∀ input ∈ s.inputs, output.Offers r n input
  sent : ∀ w ∈ n.widgets, w.isSent = true → w.name ∈ Table.names s.inputs
  untitled : s.meta? = none

/-- A graph can be rebuilt from the output: different steps have different keys, keys are the texts
of ids, and the steps are those of new nodes. -/
structure Output.IsBlueprint (r : Registry) (output : Output) : Prop where
  keys : output.names.Nodup
  ids : ∀ m ∈ output, ∃ id, keyId m.1 = .ok id ∧ id.key = m.1
  known : ∀ m ∈ output, r.knows m.2.className = true
  steps : ∀ m ∈ output, ∃ n, m.2.IsDrawn r output n

/-! ## Graphs that hold what an output says -/

/-- The node holds what the step says: what feeds its slots are the references of the step, and what
its widgets show are the values. -/
structure Step.HeldBy (s : Step) (g : Workflow) (n : Node Group) : Prop where
  runs : n.Runs
  type : n.type = s.className
  slots : (n.inputs.map (·.name) ++ n.widgets.map (·.name)).Nodup
  names : (Table.names s.inputs).Nodup
  fed : ∀ name, (g.content n.id name).fed = (Table.get? s.inputs name).bind Reference.ofJson?
  shown : ∀ w ∈ n.widgets, w.isSent = true →
    Table.get? s.inputs w.name = some w.value ∧ Reference.ofJson? w.value = none
  inputs : ∀ name ∈ Table.names s.inputs, (g.content n.id name).fed.isSome = true ∨
    ∃ w ∈ n.widgets, w.isSent = true ∧ w.name = name
  untitled : s.meta? = none

/-- The graph holds what the output says, node by node. -/
structure Output.HeldBy (output : Output) (g : Workflow) : Prop where
  booked : g.Booked
  keys : g.nodes.map (·.id.key) = output.names
  steps : ∀ n ∈ g.nodes, ∃ s, output.get? n.id.key = some s ∧ s.HeldBy g n

private theorem Widget.find?_of_mem {ws : List Widget} (hnames : (ws.map (·.name)).Nodup)
    {w : Widget} (hw : w ∈ ws) : find? ws w.name = some w := by
  induction ws with
  | nil => cases hw
  | cons u ws ih =>
    rcases List.nodup_cons.1 hnames with ⟨hfresh, hnames⟩
    rcases List.mem_cons.1 hw with rfl | hw
    · simp [find?]
    · have hne : u.name ≠ w.name := fun he => hfresh (List.mem_map.2 ⟨w, hw, he.symm⟩)
      simpa [find?, hne] using ih hnames hw

/-! ## Nodes that have taken their inputs -/

namespace Step.IsDrawn

variable {r : Registry} {output : Output} {s : Step} {blank n : Node Group}
  (hdrawn : s.IsDrawn r output blank) (hinputs : n.inputs.map (·.name) = blank.inputs.map (·.name))
  (hwidgets : n.widgets.map Widget.bare = blank.widgets.map Widget.bare)

include hdrawn hinputs hwidgets

/-- Its slots and widgets have the names of those of the new node. -/
theorem nodup_slots : (n.inputs.map (·.name) ++ n.widgets.map (·.name)).Nodup := by
  have hnames := congrArg (List.map (·.name)) hwidgets
  rw [List.map_map, List.map_map] at hnames
  have hsame : n.widgets.map (·.name) = blank.widgets.map (·.name) := hnames
  rw [hinputs, hsame]
  exact hdrawn.slots

/-- Under the name of a widget that is sent there stands a value, as no slot has its name. -/
theorem exists_value {w : Widget} (hw : w ∈ n.widgets) (hsent : w.isSent = true) :
    ∃ v, Table.get? s.inputs w.name = some v ∧ Reference.ofJson? v = none := by
  rcases Widget.exists_of_bare hwidgets.symm hw with ⟨w', hw', hbare⟩
  have hname : w'.name = w.name := congrArg (·.name) hbare
  have hsent' : w'.isSent = true := (congrArg (·.isSent) hbare : w'.isSent = w.isSent).trans hsent
  rcases List.mem_map.1 (hdrawn.sent w' hw' hsent') with ⟨⟨name, v⟩, hinput, hsame⟩
  have hkey : name = w.name := hsame.trans hname
  refine ⟨v, by rw [← hkey]; exact (Table.get?_eq_some_iff hdrawn.names).2 hinput, ?_⟩
  cases hdrawn.inputs _ hinput with
  | value _ _ hv => exact Json.ofJson?_of_isPair hv
  | @reference slot m origin i hslot hm horigin hi =>
    have hmem : slot.name ∈ n.inputs.map (·.name) := hinputs ▸ List.mem_map_of_mem hslot
    have happart := (List.nodup_append.1 (hdrawn.nodup_slots hinputs hwidgets)).2.2
    exact absurd hkey (happart _ hmem _ (List.mem_map_of_mem hw))

omit hinputs in
/-- Every input of the step is a reference or the value of a widget that is sent. -/
theorem reference_or_widget {name : String} (hname : name ∈ Table.names s.inputs) :
    ((Table.get? s.inputs name).bind Reference.ofJson?).isSome = true ∨
      ∃ w ∈ n.widgets, w.isSent = true ∧ w.name = name := by
  rcases List.mem_map.1 hname with ⟨⟨name, v⟩, hinput, rfl⟩
  have hget : Table.get? s.inputs name = some v := (Table.get?_eq_some_iff hdrawn.names).2 hinput
  cases hdrawn.inputs _ hinput with
  | @value w _ hw hsent hv =>
    rcases Widget.exists_of_bare hwidgets hw with ⟨w', hw', hbare⟩
    have hname : w'.name = w.name := congrArg (·.name) hbare
    have hsame : w'.isSent = w.isSent := congrArg (·.isSent) hbare
    exact .inr ⟨w', hw', hsame.trans hsent, hname⟩
  | reference hs hm horigin hi =>
    left
    rw [hget]
    rfl

end Step.IsDrawn

/-- What a node holds that has taken the inputs of its step. -/
theorem Step.IsDrawn.heldBy {r : Registry} {output : Output} {m : String × Step}
    {blank : Node Group} (hdrawn : m.2.IsDrawn r output blank) {g : Workflow} {n₀ n : Node Group}
    (hn : g.at? n.id = some n) (hframe : n.frame = n₀.frame) (hmade : Rebuild.IsMadeOf r n₀ m)
    (shown : String → Option Json)
    (hcontent : ∀ name, g.content n.id name =
      Content.receive ⟨none, shown name⟩ (Table.get? m.2.inputs name)) : m.2.HeldBy g n := by
  rcases hmade with ⟨-, blank', hblank', hsame⟩
  rw [hdrawn.created, Except.ok.injEq] at hblank'
  subst hblank'
  have hnames : n.inputs.map (·.name) = blank.inputs.map (·.name) := by
    rw [Node.inputNames_of_frame hframe, hsame]
  have hwidgets : n.widgets.map Widget.bare = blank.widgets.map Widget.bare := by
    rw [Node.widgets_of_frame hframe, hsame]
  have hslots := hdrawn.nodup_slots hnames hwidgets
  have hruns : n₀.Runs := by
    rw [hsame]
    exact ⟨hdrawn.fresh.runs.kind, hdrawn.fresh.runs.mode, hdrawn.fresh.runs.attached,
      hdrawn.fresh.runs.silent⟩
  have hfed : ∀ name, (g.content n.id name).fed =
      (Table.get? m.2.inputs name).bind Reference.ofJson? := by
    intro name
    rw [hcontent, Content.fed_receive]
  refine ⟨hruns.of_frame hframe, ?_, hslots, hdrawn.names, hfed, ?_, ?_, hdrawn.untitled⟩
  · have htype : n.type = n₀.type := congrArg (fun k => k.type) hframe
    rw [htype, hsame, hdrawn.fresh.type]
  · intro w hw hsent
    rcases hdrawn.exists_value hnames hwidgets hw hsent with ⟨v, hget, hv⟩
    have hshown := congrArg Content.shown (hcontent w.name)
    rw [hget, Content.receive, Option.elim_some, Content.take_value _ hv] at hshown
    simp only [content, hn, Option.bind_some,
      Widget.find?_of_mem (List.nodup_append.1 hslots).2.1 hw, Option.map_some,
      Option.some.injEq] at hshown
    rw [hget, hshown]
    exact ⟨rfl, hv⟩
  · intro name hname
    rw [hfed]
    exact hdrawn.reference_or_widget hwidgets hname

/-! ## Rebuilding from a blueprint -/

namespace Output.IsBlueprint

variable {r : Registry} {output : Output} (h : output.IsBlueprint r)

include h

private theorem missingClasses :
    Rebuild.missingClasses r (output.map fun m => m.2.toJson) = .ok [] := by
  have hknown := h.known
  clear h
  induction output with
  | nil => rfl
  | cons m output ih =>
    have hfirst : Rebuild.missingClass? r m.2.toJson = .ok none := by
      have hclass : Rebuild.classOf m.2.toJson = .ok (.str m.2.className) := rfl
      simp [Rebuild.missingClass?, hclass, bind, Except.bind, pure, Except.pure,
        hknown m List.mem_cons_self]
    have hrest := ih fun m' hm' => hknown m' (List.mem_cons_of_mem m hm')
    simp only [List.map_cons, Rebuild.missingClasses, hfirst, hrest]
    rfl

section Nodes

variable {g₀ : Workflow} (hkeys : g₀.nodes.map (·.id.key) = output.names)
  (hmade : ∀ n ∈ g₀.nodes, ∃ m ∈ output, Rebuild.IsMadeOf r n m)

include hkeys hmade

private theorem exists_node {m : String × Step} (hm : m ∈ output) :
    ∃ n ∈ g₀.nodes, Rebuild.IsMadeOf r n m := by
  have hmem : m.1 ∈ g₀.nodes.map (·.id.key) := hkeys ▸ List.mem_map_of_mem hm
  rcases List.mem_map.1 hmem with ⟨n, hn, hkey⟩
  rcases hmade n hn with ⟨m', hm', hmade'⟩
  have hsame : m' = m := List.inj_on_of_nodup_map h.keys hm' hm (hmade'.1.symm.trans hkey)
  exact ⟨n, hn, hsame ▸ hmade'⟩

/-- What a new node can take, the node that is added can take. -/
theorem suits {n : Node Group} {m : String × Step} (hn : Rebuild.IsMadeOf r n m)
    {blank : Node Group} (hdrawn : m.2.IsDrawn r output blank) :
    ∀ input ∈ m.2.inputs, Workflow.Suits g₀ n input := by
  intro input hinput
  rcases hn with ⟨-, blank', hblank', hsame⟩
  rw [hdrawn.created, Except.ok.injEq] at hblank'
  subst hblank'
  cases hdrawn.inputs input hinput with
  | value hw hsent hv => exact .value (hsame ▸ hw) hv
  | @reference s m' origin i hs hm' horigin hi =>
    rcases h.exists_node hkeys hmade hm' with ⟨o, ho, hkey, origin', horigin', hsame'⟩
    rw [horigin, Except.ok.injEq] at horigin'
    subst horigin'
    rw [← hkey]
    exact .reference (hsame ▸ hs) ho (by rw [hsame']; exact hi)

end Nodes

/-- A graph is rebuilt from a blueprint, with one node for every step, and holds what it says. -/
theorem rebuild : ∃ g, r.rebuild output.toJson = .ok (some g, []) ∧ output.HeldBy g := by
  have hempty : Rebuild.Blank ({} : Workflow) :=
    ⟨Workflow.booked_blank, fun n hn => absurd hn List.not_mem_nil, rfl⟩
  -- the nodes are added
  obtain ⟨g₀, added, hadd, hblank, hnodes, hkeys, hmade⟩ := Rebuild.exec_addSteps r hempty h.keys
    (fun n hn => absurd hn List.not_mem_nil) h.ids fun m hm => by
      rcases h.steps m hm with ⟨n, hn⟩
      exact ⟨n, hn.created, hn.fresh.unlinked⟩
  have hadded : g₀.nodes = added := hnodes
  subst hadded
  -- they take their inputs
  obtain ⟨g, htake, hstage, hcontent⟩ := Rebuild.exec_addInputs hblank.canonical
    ⟨hblank.booked, rfl⟩ h.keys (fun m hm => by
      rcases h.steps m hm with ⟨blank, hdrawn⟩
      rcases h.exists_node hkeys hmade hm with ⟨n, hn, hmade'⟩
      exact ⟨n, hn, hmade'.1, h.suits hkeys hmade hmade' hdrawn⟩)
    (fun m hm => by
      rcases h.steps m hm with ⟨blank, hdrawn⟩
      exact hdrawn.names)
    fun n _ _ name => fed_of_links hblank.links n.id name
  refine ⟨g, ?_, hstage.booked, ?_, ?_⟩
  · have hclasses := h.missingClasses
    have hsteps : output.toJson = .obj (output.map fun m => (m.1, m.2.toJson)) := rfl
    have hvalues : (output.map fun m => (m.1, m.2.toJson)).map (·.2) =
        output.map fun m => m.2.toJson := List.map_map
    have hbuild : ((do
        Act.each (output.map fun m => (m.1, m.2.toJson)) (Rebuild.addStep r)
        Act.each (output.map fun m => (m.1, m.2.toJson)) Rebuild.addInputs) :
        Act Workflow PUnit).exec {} = (.ok ⟨⟩, g) :=
      Act.exec_bind_eq_ok_iff.2 ⟨⟨⟩, g₀, hadd, htake⟩
    rw [hsteps, Registry.rebuild, hvalues, hclasses]
    simp only [bind, Except.bind] at hbuild ⊢
    rw [hbuild]
    rfl
  · rw [← hkeys]
    have hmap := congrArg (List.map (·.id.key)) hstage.frames
    rwa [List.map_map, List.map_map] at hmap
  · intro n hn
    obtain ⟨n₀, hn₀, hframe⟩ : ∃ n₀ ∈ g₀.nodes, n₀.frame = n.frame :=
      List.mem_map.1 (hstage.frames ▸ List.mem_map_of_mem hn)
    have hid : n₀.id = n.id := Node.id_of_frame hframe
    rcases hmade n₀ hn₀ with ⟨m, hm, hmade'⟩
    rcases h.steps m hm with ⟨blank, hdrawn⟩
    have hget : output.get? n.id.key = some m.2 := by
      rw [Table.get?_eq_some_iff h.keys, ← hid, hmade'.1]
      exact hm
    refine ⟨m.2, hget, hdrawn.heldBy (at?_of_mem hstage.booked.ids hn) hframe.symm hmade'
      (fun name => (g₀.content n₀.id name).shown) fun name => ?_⟩
    rw [← hid, hcontent n₀ hn₀ name, Rebuild.said, hid, hget, Option.bind_some]
    congr 1
    exact Content.ext (fed_of_links hblank.links _ _) rfl

end Output.IsBlueprint

end NodeFlow
