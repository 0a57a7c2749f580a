import NodeFlow.Proofs.Compile.Pushes
import NodeFlow.Proofs.Compile.SlotRange
import NodeFlow.Proofs.Load.Recompile

/-!
# There and back

An output that was compiled says enough to build a graph that compiles to it again: its references
name outputs of steps that come earlier, all else is values of widgets, and every step has what a new
node of its class takes.  Whatever groups, reroutes, muted and bypassed nodes the first graph has, the
second one needs none of them.

Main results:

- Definition `NodeId.KeepsKey`: ids that keep their spelling as keys of a prompt.
- Types `Site.Shows` and `Site.IsMadeBy`: sites with the slots and widgets that the registry gave
  them.
- Theorem `Site.isBlueprint_prune`: an output that was compiled is a blueprint.
- Theorem `Registry.rebuild_compiled`: rebuilding and compiling gives the output back.
- Definition `Edit.Builds` and theorem `Edit.outputsExist_runAll`: workflows that edits build have links
  from outputs that exist, unless an output is counted from the end.
-/

namespace NodeFlow

open Workflow

/-- The id keeps its spelling when its text is read as the key of a step. -/
def NodeId.KeepsKey (id : NodeId) : Prop := ∃ read, keyId id.key = .ok read ∧ read.key = id.key

instance : DecidablePred NodeId.KeepsKey := fun id =>
  decidable_of_iff ((keyId id.key).toOption.any (·.key == id.key) = true) <| by
    rw [NodeId.KeepsKey]
    cases keyId id.key with
    | error f => simp [Except.toOption]
    | ok read => simp [Except.toOption]

/-! ## Sites of new nodes -/

namespace Site

/-- The site has the type, the slots and the widgets of a node, whatever the widgets hold. -/
structure Shows (s : Site) (n : Node Group) : Prop where
  type : s.type = n.type
  inputs : s.inputs.map (·.name) = n.inputs.map (·.name)
  outputs : s.outputs.map (·.name) = n.outputs.map (·.name)
  widgets : s.widgets.map (fun w => (w.name, w.isSent)) =
    n.widgets.map fun w => (w.name, w.isSent)

/-- The site keeps exactly the slots and the widgets that the registry gave it by a definition, and
their names are all different. -/
structure IsMadeBy (r : Registry) (s : Site) : Prop where
  made : ∃ setup type, ∃ n : Node Group,
    r.create setup type = .ok n ∧ n.isVirtual = false ∧ s.Shows n
  names : (s.inputs.map (·.name) ++ s.widgets.map (·.name)).Nodup

variable {r : Registry} {s t : Site}

private theorem Shows.of_bare {n : Node Group} (h : t.Shows n) (hbare : t.bare = s.bare) :
    s.Shows n := by
  have htype : t.type = s.type := by rw [← type_bare t, hbare, type_bare]
  have hinputs : t.inputs = s.inputs := by rw [← inputs_bare t, hbare, inputs_bare]
  have houtputs : t.outputs = s.outputs := by rw [← outputs_bare t, hbare, outputs_bare]
  have hwidgets : t.widgets.map Widget.bare = s.widgets.map Widget.bare := by
    rw [← widgets_bare t, hbare, widgets_bare]
  refine ⟨htype ▸ h.type, hinputs ▸ h.inputs, houtputs ▸ h.outputs, ?_⟩
  have hsame := congrArg (List.map fun w : Widget => (w.name, w.isSent)) hwidgets
  rw [List.map_map, List.map_map] at hsame
  exact hsame.symm.trans h.widgets

private theorem Shows.exists_widget {n : Node Group} (h : s.Shows n) {w : Widget}
    (hw : w ∈ s.widgets) : ∃ u ∈ n.widgets, u.name = w.name ∧ u.isSent = w.isSent := by
  have hmem : (w.name, w.isSent) ∈ n.widgets.map fun w => (w.name, w.isSent) :=
    h.widgets ▸ List.mem_map_of_mem hw
  rcases List.mem_map.1 hmem with ⟨u, hu, hsame⟩
  exact ⟨u, hu, congrArg Prod.fst hsame, congrArg Prod.snd hsame⟩

private theorem Shows.exists_widget_at {n : Node Group} (h : s.Shows n) {w : Widget}
    (hw : w ∈ n.widgets) : ∃ u ∈ s.widgets, u.name = w.name ∧ u.isSent = w.isSent := by
  have hmem : (w.name, w.isSent) ∈ s.widgets.map fun w => (w.name, w.isSent) :=
    h.widgets ▸ List.mem_map_of_mem hw
  rcases List.mem_map.1 hmem with ⟨u, hu, hsame⟩
  exact ⟨u, hu, congrArg Prod.fst hsame, congrArg Prod.snd hsame⟩

private theorem Shows.widgetNames {n : Node Group} (h : s.Shows n) :
    s.widgets.map (·.name) = n.widgets.map (·.name) := by
  have hsame := congrArg (List.map Prod.fst) h.widgets
  rwa [List.map_map, List.map_map] at hsame

private theorem IsMadeBy.of_bare (h : t.IsMadeBy r) (hbare : t.bare = s.bare) : s.IsMadeBy r := by
  rcases h.made with ⟨setup, type, n, hcreate, hreal, hshows⟩
  have hshows' := hshows.of_bare hbare
  refine ⟨⟨setup, type, n, hcreate, hreal, hshows'⟩, ?_⟩
  rw [hshows'.inputs, hshows'.widgetNames, ← hshows.inputs, ← hshows.widgetNames]
  exact h.names

/-- The registry makes new nodes that the site could be one of. -/
theorem IsMadeBy.exists_new (hr : r.IsNamed) (h : s.IsMadeBy r) :
    ∃ n : Node Group, r.create {} s.type = .ok n ∧ n.IsNew s.type ∧ s.Shows n := by
  rcases h.made with ⟨setup, type, n, hcreate, hreal, hshows⟩
  rcases hr.exists_isNew hcreate hreal with ⟨blank, hblank, hnew, hinputs, houtputs, hwidgets⟩
  rw [← hshows.type] at hblank hnew
  exact ⟨blank, hblank, hnew, hnew.type.symm, hinputs ▸ hshows.inputs, houtputs ▸ hshows.outputs,
    hwidgets ▸ hshows.widgets⟩

/-- The site can be rebuilt from its step: its id keeps its spelling, it has the slots and widgets
that the registry gave it, and every widget sends its own value, which is no pair. -/
structure IsPortable (r : Registry) (s : Site) : Prop where
  id : s.id.KeepsKey
  made : s.IsMadeBy r
  plain : ∀ w ∈ s.widgets, w.literal = w.value ∧ w.value.isPair = false

end Site

/-! ## Blueprints from compilations -/

namespace Site

variable {r : Registry} (hr : r.IsNamed) {g : Workflow} {maxHops : Int} {built : List Site}
  {steps : Output} (hbuilt : List.Forall₂ (IsBuilt g maxHops false) built steps)

include hbuilt in
/-- A step of a pruned output is that of a site, without the references that lead nowhere. -/
theorem exists_of_mem_prune {m : String × Step} (hm : m ∈ Output.prune steps) :
    ∃ s ∈ built, ∃ whole, s.IsBuilt g maxHops false (m.1, whole) ∧ m.2 = whole.keep steps := by
  rcases List.mem_map.1 hm with ⟨⟨key, whole⟩, hwhole, rfl⟩
  rcases List.getElem?_of_mem hwhole with ⟨i, hi⟩
  rcases exists_site_at hbuilt hi with ⟨s, hs, hsbuilt⟩
  exact ⟨s, List.mem_of_getElem? hs, whole, hsbuilt, rfl⟩

variable (hkeyed : Keyed g) (hexist : OutputsExist g) (hsites : ∀ s ∈ built, s ∈ sites g)
  (hportable : ∀ s ∈ built, s.IsPortable r)

section Step

variable {s : Site} (hs : s ∈ built) {key : String} {whole : Step}
  (hwhole : s.IsBuilt g maxHops false (key, whole)) {n : Node Group} (hshows : s.Shows n)

include hr hbuilt hkeyed hexist hsites hportable hs in
/-- A reference that is kept names a step, and a new node of its class has that output. -/
theorem exists_step_of_links {i : Nat} {ref : Reference} (hlink : s.Links g maxHops i ref)
    (hkept : Table.has steps ref.origin = true) :
    ∃ m ∈ Output.prune steps, ∃ (origin : Node Group) (a : ℕ),
      r.create {} m.2.className = .ok origin ∧ a < origin.outputs.length ∧ ref = ⟨m.1, a⟩ := by
  rcases List.mem_map.1 (Table.has_iff.1 hkept) with ⟨⟨key, source⟩, hsource, hkey⟩
  rcases List.getElem?_of_mem hsource with ⟨j, hj⟩
  rcases exists_site_at hbuilt hj with ⟨t, ht, htbuilt⟩
  have ht := List.mem_of_getElem? ht
  obtain ⟨found, hfound, href⟩ := hlink
  cases found with
  | none => cases href
  | some resolved =>
    simp only [referenceOf] at href
    split at href
    · cases href
    · cases href
      rcases slot_of_resolve hexist (hsites s hs) hfound with ⟨hresolved, a, ha, hlt⟩
      -- the step that is named is that of the producer
      have hsame : t = resolved.site := List.inj_on_of_nodup_map hkeyed (hsites t ht) hresolved
        (htbuilt.1.symm.trans hkey)
      rcases (hportable t ht).made.exists_new hr with ⟨n, hn, -, hshows⟩
      have hlength := congrArg List.length hshows.outputs
      rw [List.length_map, List.length_map, hsame] at hlength
      have hclass : (source.keep steps).className = t.type := htbuilt.head.1
      refine ⟨(key, source.keep steps), List.mem_map_of_mem hsource, n, a, hclass ▸ hn,
        hlength ▸ hlt, ?_⟩
      have hname : key = resolved.site.id.key := hkey
      rw [ha, hname]

include hr hbuilt hkeyed hexist hsites hportable hs hwhole hshows in
/-- An input that is kept is a reference to an output that a new node has, or a plain value. -/
theorem offers_of_mem {input : String × Json} (hinput : input ∈ (whole.keep steps).inputs) :
    (Output.prune steps).Offers r n input := by
  rcases input with ⟨name, v⟩
  rcases List.mem_filter.1 hinput with ⟨hmem, hrefers⟩
  have hget : Table.get? whole.inputs name = some v :=
    (Table.get?_eq_some_iff hwhole.nodup_inputs).2 hmem
  have hnames := (List.nodup_append.1 (hportable s hs).made.names).1
  by_cases hlinks : ∃ i slot ref, s.inputs[i]? = some slot ∧ slot.name = name ∧
      s.Links g maxHops i ref
  · obtain ⟨i, slot, ref, hslot, rfl, hlink⟩ := hlinks
    rw [hwhole.get?_of_links hnames hslot hlink, Option.some.injEq] at hget
    subst hget
    rcases exists_step_of_links hr hbuilt hkeyed hexist hsites hportable hs hlink hrefers with
      ⟨m, hm, origin, a, horigin, ha, rfl⟩
    have hname : slot.name ∈ n.inputs.map (·.name) :=
      hshows.inputs ▸ List.mem_map_of_mem (List.mem_of_getElem? hslot)
    rcases List.mem_map.1 hname with ⟨slot', hslot', hsame⟩
    rw [← hsame]
    exact .reference hslot' hm horigin ha
  · have hnot : ∀ i slot, s.inputs[i]? = some slot → slot.name = name →
        ∀ ref, ¬ s.Links g maxHops i ref :=
      fun i slot hslot hname ref hlink => hlinks ⟨i, slot, ref, hslot, hname, hlink⟩
    rw [hwhole.get?_of_not_links hnot] at hget
    rcases exists_widget_of_mem_literals (Table.mem_of_get? hget) with ⟨w, hw, hsent, hentry⟩
    rcases (hportable s hs).plain w hw with ⟨hliteral, hpair⟩
    rcases hshows.exists_widget hw with ⟨w', hw', hname, hsent'⟩
    rw [hentry, hliteral, ← hname]
    exact .value hw' (hsent'.trans hsent) hpair

include hportable hs hwhole hshows in
/-- What a widget sends is kept. -/
theorem mem_names_of_isSent {w : Widget} (hw : w ∈ n.widgets) (hsent : w.isSent = true) :
    w.name ∈ Table.names (whole.keep steps).inputs := by
  rcases hshows.exists_widget_at hw with ⟨u, hu, hname, hsame⟩
  have husent : u.isSent = true := hsame.trans hsent
  -- no slot has the name of a widget
  have hnot : ∀ i slot, s.inputs[i]? = some slot → slot.name = w.name →
      ∀ ref, ¬ s.Links g maxHops i ref := by
    intro i slot hslot hslotName
    have happart := (List.nodup_append.1 (hportable s hs).made.names).2.2
    exact absurd (hslotName.trans hname.symm) (happart _
      (List.mem_map_of_mem (List.mem_of_getElem? hslot)) _ (List.mem_map_of_mem hu))
  have hget := hwhole.get?_keep steps w.name
  rw [hwhole.get?_of_not_links hnot, get?_literals] at hget
  cases hlast : (s.widgets.filter fun w' => w'.isSent && w'.name == w.name).getLast? with
  | none =>
    rw [List.getLast?_eq_none_iff, List.filter_eq_nil_iff] at hlast
    exact absurd (by simp [husent, hname]) (hlast u hu)
  | some u' =>
    have hu' := (List.mem_filter.1 (List.mem_of_getLast? hlast)).1
    rcases (hportable s hs).plain u' hu' with ⟨hliteral, hpair⟩
    have hplain : Step.refersInto steps u'.literal = true := by
      rw [hliteral, Step.refersInto, Json.ofJson?_of_isPair hpair]
    rw [hlast, Option.map_some, Option.filter_some, if_pos hplain] at hget
    exact Table.mem_names_of_mem (Table.mem_of_get? hget)

end Step

include hr hbuilt hkeyed hexist hsites hportable in
/-- An output that was compiled from sites that can be rebuilt is a blueprint. -/
theorem isBlueprint_prune (hkeys : (built.map (·.id.key)).Nodup) :
    (Output.prune steps).IsBlueprint r where
  keys := by
    rw [Output.prune_names, names_of_isBuilt hbuilt]
    exact hkeys
  ids := by
    intro m hm
    rcases exists_of_mem_prune hbuilt hm with ⟨s, hs, whole, hwhole, -⟩
    have hkey : m.1 = s.id.key := hwhole.1
    rw [hkey]
    exact (hportable s hs).id
  known := by
    intro m hm
    rcases exists_of_mem_prune hbuilt hm with ⟨s, hs, whole, hwhole, hkept⟩
    have hclass : m.2.className = s.type := by
      rw [hkept]
      exact hwhole.head.1
    rcases (hportable s hs).made.exists_new hr with ⟨n, hn, -, -⟩
    rw [hclass]
    exact Registry.knows_of_create hn
  steps := by
    intro m hm
    rcases exists_of_mem_prune hbuilt hm with ⟨s, hs, whole, hwhole, hkept⟩
    rcases (hportable s hs).made.exists_new hr with ⟨n, hn, hnew, hshows⟩
    have hclass : m.2.className = s.type := by
      rw [hkept]
      exact hwhole.head.1
    rw [← hclass] at hn hnew
    refine ⟨n, hn, hnew, ?_, ?_, ?_, ?_, ?_⟩
    · rw [← hshows.inputs, ← hshows.widgetNames]
      exact (hportable s hs).made.names
    · rw [hkept]
      exact Table.nodup_filter _ hwhole.nodup_inputs
    · rw [hkept]
      exact fun input hinput =>
        offers_of_mem hr hbuilt hkeyed hexist hsites hportable hs hwhole hshows hinput
    · rw [hkept]
      exact fun w hw hsent => mem_names_of_isSent hportable hs hwhole hshows hw hsent
    · rw [hkept]
      exact hwhole.head.2

end Site

/-! ## Compilations -/

/-- Take any workflow whose links and groups name outputs that exist, whose sites have different keys
that keep their spelling, and whose steps come from sites with the slots and widgets that the registry
gave them, sending their own values and no pairs.  If it compiles, a graph is rebuilt from the output,
with one node for every step, and that graph compiles to the output again. -/
theorem Registry.rebuild_compiled {r : Registry} (hr : r.IsNamed) {e e' : Editor} {p : Prompt}
    (hexist : OutputsExist e.graph) (hkeyed : Keyed e.graph)
    (hids : ∀ s ∈ sites e.graph, s.id.KeepsKey) (hmade : ∀ s ∈ emitted e.graph, s.IsMadeBy r)
    (hsilent : ∀ s ∈ emitted e.graph, ∀ w ∈ s.widgets, w.serializer = none)
    (huntitled : e.settings.devMode = false) (h : Editor.compile.exec e = (.ok p, e'))
    (hvalues : ∀ s ∈ emitted e'.graph, ∀ w ∈ s.widgets, w.value.isPair = false) :
    ∃ g, r.rebuild p.output.toJson = .ok (some g, []) ∧
      g.nodes.map (·.id.key) = p.output.names ∧
      ∀ t : Editor, t.graph = g → t.settings.devMode = false →
        ∃ q, Editor.compile.exec t = (.ok q, t) ∧ q.output.asMap = p.output.asMap := by
  rcases Editor.exists_sites_of_compile hkeyed.distinct h with
    ⟨hskeleton, built, steps, hperm, hpairwise, hbuilt, houtput⟩
  rcases Editor.exists_steps_of_compile h with ⟨order, prepared, -, -, horder, hprepare, hsame, -⟩
  rw [Editor.settings_of_compile h, huntitled] at hbuilt
  -- what holds of the workflow holds after its preparation
  have hplanned := planned_of_skeleton_eq hskeleton
    (Editor.planned_of_prepare hkeyed.distinct horder rfl hprepare)
  have hkeyed' := keyed_of_skeleton_eq hskeleton hkeyed
  have hexist' := outputsExist_of_skeleton_eq hskeleton hexist
  have hemitted : ∀ s ∈ built, s ∈ emitted e'.graph := fun s hs => hperm.mem_iff.1 hs
  have hsites : ∀ s ∈ built, s ∈ sites e'.graph := fun s hs =>
    mem_sites_of_mem_emitted (hemitted s hs)
  have hportable : ∀ s ∈ built, s.IsPortable r := by
    intro s hs
    rcases exists_emitted_of_skeleton_eq hskeleton (hemitted s hs) with ⟨t, ht, hbare⟩
    have hid : t.id = s.id := by rw [← Site.id_bare t, hbare, Site.id_bare]
    refine ⟨hid ▸ hids t (mem_sites_of_mem_emitted ht), (hmade t ht).of_bare hbare, ?_⟩
    intro w hw
    have hwidgets : t.widgets.map Widget.bare = s.widgets.map Widget.bare := by
      rw [← Site.widgets_bare t, hbare, Site.widgets_bare]
    rcases Widget.exists_of_bare hwidgets hw with ⟨u, hu, hsame⟩
    have hserializer : u.serializer = w.serializer := congrArg (·.serializer) hsame
    refine ⟨?_, hvalues s (hemitted s hs) w hw⟩
    rw [Widget.literal, ← hserializer, hsilent t ht u hu]
  have hkeys := nodup_keys_of_pairwise hkeyed' hsites hpairwise
  rw [update_of_isBuilt hbuilt hkeys] at houtput
  have hblueprint : p.output.IsBlueprint r := by
    rw [houtput]
    exact Site.isBlueprint_prune hr hbuilt hkeyed' hexist' hsites hportable hkeys
  have horder' : p.output.InDependencyOrder := by
    rw [houtput]
    intro j key step hstep name ref href
    refine exists_earlier_of_reference hplanned hkeyed' hsites hpairwise hbuilt ?_ hstep href
    intro s hs w hw _
    rcases (hportable s hs).plain w hw with ⟨hliteral, hpair⟩
    rw [hliteral]
    exact Json.ofJson?_of_isPair hpair
  rcases hblueprint.rebuild with ⟨g, hrebuild, hheld⟩
  exact ⟨g, hrebuild, hheld.keys, fun t ht hplain =>
    hheld.compile hblueprint.keys horder' ht hplain⟩

/-! ## Graphs that edits build -/

namespace Graph

variable {γ : Type} {g g' g'' : Graph γ}

/-- The second graph has the outputs of the first, and no other links. -/
structure KeepsOutputs (g g' : Graph γ) : Prop where
  links : ∀ l ∈ g'.links, l ∈ g.links
  outputs : ∀ id a ks, g.listedAt? id a = some ks → ∃ ks', g'.listedAt? id a = some ks'

namespace KeepsOutputs

private theorem refl (g : Graph γ) :
    g.KeepsOutputs g := ⟨fun _ hl => hl, fun _ _ ks hks => ⟨ks, hks⟩⟩

private theorem trans (h : g.KeepsOutputs g') (h' : g'.KeepsOutputs g'') : g.KeepsOutputs g'' where
  links l hl := h.links l (h'.links l hl)
  outputs id a ks hks := by
    rcases h.outputs id a ks hks with ⟨ks', hks'⟩
    exact h'.outputs id a ks' hks'

private theorem isRooted (h : g.KeepsOutputs g') (hg : g.IsRooted) : g'.IsRooted := by
  intro l hl
  rcases hg l (h.links l hl) with ⟨id, a, ks, hleaves, hlisted⟩
  rcases h.outputs id a ks hlisted with ⟨ks', hks'⟩
  exact ⟨id, a, ks', hleaves, hks'⟩

end KeepsOutputs

private theorem keepsOutputs_hold (g : Graph γ) (id : NodeId) (j : Nat) (k : Option Int) :
    g.KeepsOutputs (g.hold id j k) where
  links _ hl := hl
  outputs id' a ks hks := ⟨ks, (listedAt?_hold g id j k id' a).trans hks⟩

private theorem keepsOutputs_relist (g : Graph γ) (id : NodeId) (i : Nat)
    (f : List Int → List Int) : g.KeepsOutputs (g.relist id i f) where
  links _ hl := hl
  outputs id' a ks hks := by
    rw [listedAt?_relist, hks]
    split <;> exact ⟨_, rfl⟩

private theorem keepsOutputs_dropLink (g : Graph γ) (k : Int) : g.KeepsOutputs (g.dropLink k) where
  links _ hl := ((mem_links_dropLink g k).1 hl).1
  outputs _ _ ks hks := ⟨ks, hks⟩

/-- A link more, from an output that exists. -/
theorem IsRooted.putLink (h : g.IsRooted) {l : Link} {o : NodeId} {a : Nat} {ks : List Int}
    (hl : l.Leaves o a) (hlisted : g.listedAt? o a = some ks) : (g.putLink l).IsRooted := by
  intro m hm
  rcases mem_links_putLink hm with rfl | hm
  · exact ⟨o, a, ks, hl, hlisted⟩
  · exact h m hm

/-- A new node is found by no link, as those that are there find another node first. -/
theorem IsRooted.add (h : g.IsRooted) (id? : Option NodeId) (n : Node γ) :
    ((Graph.add id? n).exec g).2.IsRooted := by
  rcases exec_add g id? n rfl with ⟨-, hexec⟩ | ⟨-, f, hexec⟩
  · rw [hexec]
    intro l hl
    rcases h l hl with ⟨id, a, ks, hleaves, hlisted⟩
    rcases exists_of_listedAt? hlisted with ⟨m, o, hm, ho, hks⟩
    refine ⟨id, a, ks, hleaves, ?_⟩
    rw [listedAt?_of_at? (n := m), ho, Option.map_some, hks]
    exact (at?_append id).trans (by rw [hm, Option.some_or])
  · rw [hexec]
    exact h

end Graph

namespace Workflow

open NodeFlow.Graph

variable {g : Workflow}

private theorem keepsOutputs_detachOrigin (g : Workflow) (l : Link) :
    g.KeepsOutputs ((detachOrigin l).exec g).2 := by
  simp only [detachOrigin, Act.exec_bind, Act.exec_get, Act.exec_lift]
  rcases g.lookup? l.origin with f | _ | m
  · exact .refl g
  · exact .refl g
  · dsimp only
    split
    · cases position? m.outputs.length l.originSlot.val with
      | none => exact .refl g
      | some i => exact keepsOutputs_relist g m.id i fun ks => ks.erase l.id.val
    · exact .refl g

/-- Disconnecting takes links away, and no outputs. -/
theorem keepsOutputs_disconnect (g : Workflow) (t : NodeId) (slot : Int) :
    g.KeepsOutputs ((disconnect (.outer t) slot).exec g).2 := by
  cases hn : g.at? t with
  | none =>
    rw [exec_disconnect_of_none hn]
    exact .refl g
  | some n =>
    cases hslot : position? n.inputs.length slot with
    | none =>
      rw [exec_disconnect_of_outside hn hslot]
      exact .refl g
    | some j =>
      cases hheld : (n.inputs[j]?).bind (·.link) with
      | none =>
        rw [exec_disconnect_of_free hn hslot hheld]
        exact .refl g
      | some k =>
        have hemptied := (keepsOutputs_dropLink g k).trans (keepsOutputs_hold _ t j none)
        simp only [disconnect, Act.exec_bind, Act.exec_get, siteAt?_outer, hn, Option.map_some,
          Site.inputs, hslot, hheld, Act.exec_set, modifyInput_outer]
        cases g.link? k with
        | none => exact hemptied
        | some l => exact hemptied.trans (keepsOutputs_detachOrigin _ l)

/-- A connection that is made is one link more, once the input is emptied. -/
private theorem isRooted_connect_of_disconnect {g₁ : Workflow} (h : g.IsRooted) {o t : NodeId}
    {n m : Node Group} (hn : g.at? o = some n) (hm : g.at? t = some m) {a b : Whole} {i : Nat}
    (ha : a.val = i) (hi : i < n.outputs.length)
    (hexec : (disconnect (.outer t) b.val).exec g = (.ok ⟨⟩, g₁)) :
    ((connect (.outer o) a (.outer t) b).exec g).2.IsRooted := by
  have hkeeps : g.KeepsOutputs g₁ := by
    simpa only [hexec] using keepsOutputs_disconnect g t b.val
  have hposition : position? n.outputs.length a.val = some i := ha ▸ position?_ofNat hi
  cases hslot : position? m.inputs.length b.val with
  | none =>
    rw [exec_disconnect_of_outside hm hslot] at hexec
    cases hexec
  | some j =>
    rcases exec_connect_of_position hn hm hposition hslot hexec with
      ⟨l, -, horigin, hsame, -, -, hconnect⟩
    have hlisted : g.listedAt? o i = some (n.outputs[i]).links := by
      rw [listedAt?_of_at? hn, List.getElem?_eq_getElem hi, Option.map_some]
    rcases hkeeps.outputs o i _ hlisted with ⟨ks, hks⟩
    have hput := (hkeeps.isRooted h).putLink (l := l) ⟨horigin, hsame ▸ ha⟩ hks
    rw [hconnect]
    exact ((keepsOutputs_relist _ o i _).trans (keepsOutputs_hold _ t j _)).isRooted
      (g := ({ g₁ with lastLinkId := l.id } : Workflow).putLink l) hput

/-- Where an output is not counted from the end, the link that leaves it names it by its position. -/
theorem isRooted_connect (h : g.IsRooted) {a : Whole} (ha : 0 ≤ a.val) (o t : NodeId) (b : Whole) :
    ((connect (.outer o) a (.outer t) b).exec g).2.IsRooted := by
  obtain ⟨i, hi⟩ := Int.eq_ofNat_of_zero_le ha
  cases hn : g.at? o with
  | none =>
    simp only [connect, Act.exec_bind, Act.exec_get, siteAt?_outer, hn, Option.map_none,
      Act.exec_throw]
    exact h
  | some n =>
    cases hm : g.at? t with
    | none =>
      simp only [connect, Act.exec_bind, Act.exec_get, siteAt?_outer, hn, hm, Option.map_none,
        Option.map_some, Act.exec_throw]
      exact h
    | some m =>
      by_cases hout : (n.outputs.length : Int) ≤ a.val
      · simp only [connect, Act.exec_bind, Act.exec_get, siteAt?_outer, hn, hm, Option.map_some,
          Site.outputs, hout, if_true, Act.exec_throw]
        exact h
      by_cases hin : (m.inputs.length : Int) ≤ b.val
      · simp only [connect, Act.exec_bind, Act.exec_get, siteAt?_outer, hn, hm, Option.map_some,
          Site.outputs, Site.inputs, hout, if_false, hin, if_true, Act.exec_throw]
        exact h
      rcases hexec : (disconnect (.outer t) b.val).exec g with ⟨f | ⟨⟩, g₁⟩
      · have hkeeps : g.KeepsOutputs g₁ := by
          simpa only [hexec] using keepsOutputs_disconnect g t b.val
        simp only [connect, Act.exec_bind, Act.exec_get, siteAt?_outer, hn, hm, Option.map_some,
          Site.outputs, Site.inputs, hout, if_false, hin, hexec]
        exact hkeeps.isRooted h
      · exact isRooted_connect_of_disconnect h hn hm hi (by omega) hexec

end Workflow

namespace Edit

open Workflow NodeFlow.Graph

/-- The edit takes no node away, and where it connects slots, it does not count the output from the
end. -/
def Builds : Edit → Prop
  | add _ _ => True
  | connect _ a _ _ => 0 ≤ a.val
  | disconnect _ _ => True
  | remove _ => False

instance : DecidablePred Builds
  | add _ _ => inferInstanceAs (Decidable True)
  | connect _ a _ _ => inferInstanceAs (Decidable (0 ≤ a.val))
  | disconnect _ _ => inferInstanceAs (Decidable True)
  | remove _ => inferInstanceAs (Decidable False)

private theorem isRooted_run {g : Workflow} (h : g.IsRooted) {e : Edit} (he : e.Builds) :
    (e.run g).IsRooted := by
  cases e with
  | add id? n =>
    rw [run, act, Act.exec_bind_pure_snd]
    exact h.add id? n
  | connect o a t b =>
    rw [run, act, Act.exec_bind_pure_snd]
    exact isRooted_connect h he o t b
  | disconnect t slot =>
    rw [run, act, Act.exec_bind_pure_snd]
    exact (keepsOutputs_disconnect g t slot).isRooted h
  | remove id => cases he

private theorem isRooted_runAll {g : Workflow} (h : g.IsRooted) {es : List Edit}
    (hes : ∀ e ∈ es, e.Builds) : (runAll es g).IsRooted := by
  induction es generalizing g with
  | nil => exact h
  | cons e es ih =>
    exact ih (isRooted_run h (hes e List.mem_cons_self)) fun e' he' =>
      hes e' (List.mem_cons_of_mem _ he')

/-- In a workflow that is built by edits which do not count outputs from the end, links name outputs
that exist. -/
theorem outputsExist_runAll {es : List Edit} (hes : ∀ e ∈ es, e.Builds)
    (hinner : ∀ n ∈ (runAll es {}).nodes, ∀ x, n.group? = some x →
      x.graph.LeavesOutputs ∧ x.ExitsExist) : OutputsExist (runAll es {}) :=
  ⟨(isRooted_runAll (fun _ hl => absurd hl List.not_mem_nil) hes).leavesOutputs, hinner⟩

end Edit

/-! ## Two workflows and their prompts -/

/-- A registry of two classes: a source with a seed, and a sink that passes an image on. -/
def studio : Registry :=
  (({} : Registry).register
    { name := "Source", required := [("seed", [.str "INT"])], outputs := [.str "IMAGE"] }).register
    { name := "Sink", required := [("image", [.str "IMAGE"]), ("steps", [.str "INT"])]
      outputs := [.str "IMAGE"] }

/-- A new node of a class, as the studio makes it. -/
def studioNode {γ : Type} (mode : Int) (type : String) : Node γ :=
  ((studio.create { mode } type).toOption).getD (({} : NodeSetup).blank type)

/-- A bypassed sink that takes what enters the group, and a sink behind it. -/
def studioGroup : Group where
  graph := {
    nodes := [
      { studioNode bypassedMode "Sink" with
        id := .number 1, outputs := [{ name := "IMAGE", type := "IMAGE", links := [1] }] },
      { studioNode normalMode "Sink" with
        id := .number 2, inputs := [{ name := "image", type := "IMAGE", link := some 1 }] }]
    links := [⟨.number 1, .int 1, .number 0, .int 2, .number 0, .str "IMAGE"⟩] }
  inputs := [⟨.number 1, 0⟩]
  outputs := [⟨.number 2, 0⟩]

/-- A source, the group behind it, a reroute behind the group, a sink behind the reroute, and a sink
behind a muted source. -/
def studioEdits : List Edit :=
  [.add none (studioNode normalMode "Source"),
   .add none { kind := .group studioGroup, type := "Group", title := none
               inputs := [{ name := "image" }], outputs := [{ name := "IMAGE" }] },
   .add none (studioNode normalMode "Reroute"),
   .add none (studioNode normalMode "Sink"),
   .add none (studioNode mutedMode "Source"),
   .add none (studioNode normalMode "Sink"),
   .connect (.number 1) (.number 0) (.number 2) (.number 0),
   .connect (.number 2) (.number 0) (.number 3) (.number 0),
   .connect (.number 3) (.number 0) (.number 4) (.number 0),
   .connect (.number 5) (.number 0) (.number 6) (.number 0)]

def studioEditor : Editor where
  graph := Edit.runAll studioEdits {}

private theorem studio_isNamed : studio.IsNamed := (Registry.isNamed_empty.register _).register _

private theorem studioEdits_outputsExist : OutputsExist (Edit.runAll studioEdits {}) := by
  refine Edit.outputsExist_runAll (by decide) fun n hn x hx => ?_
  have hgroups : (Edit.runAll studioEdits {}).nodes.map (·.group?) =
      [none, some studioGroup, none, none, none, none] := rfl
  have hmem : some x ∈ (Edit.runAll studioEdits {}).nodes.map (·.group?) :=
    hx ▸ List.mem_map_of_mem hn
  rw [hgroups] at hmem
  obtain rfl : x = studioGroup := by simpa using hmem
  constructor
  · intro l hl n hn
    cases List.mem_singleton.1 hl
    cases hn
    exact ⟨0, rfl, by decide⟩
  · intro port hport
    cases List.mem_singleton.1 hport
    exact ⟨_, rfl, 0, rfl, by decide⟩

private theorem studioEditor_isMadeBy : ∀ s ∈ emitted studioEditor.graph, s.IsMadeBy studio := by
  have hemitted : emitted studioEditor.graph = [_, _, _, _] := rfl
  rw [hemitted]
  intro s hs
  simp only [List.mem_cons, List.not_mem_nil, or_false] at hs
  rcases hs with rfl | rfl | rfl | rfl
  · exact ⟨⟨{}, "Source", _, rfl, rfl, rfl, rfl, rfl, rfl⟩, by decide⟩
  · exact ⟨⟨{}, "Sink", _, rfl, rfl, rfl, rfl, rfl, rfl⟩, by decide⟩
  · exact ⟨⟨{}, "Sink", _, rfl, rfl, rfl, rfl, rfl, rfl⟩, by decide⟩
  · exact ⟨⟨{}, "Sink", _, rfl, rfl, rfl, rfl, rfl, rfl⟩, by decide⟩

private theorem serializer_eq_none_of_isNone {ss : List Site}
    (h : ∀ s ∈ ss, ∀ w ∈ s.widgets, w.serializer.isNone = true) :
    ∀ s ∈ ss, ∀ w ∈ s.widgets, w.serializer = none :=
  fun s hs w hw => Option.isNone_iff_eq_none.1 (h s hs w hw)

/-- The rebuilt graph has neither the group nor the reroute, and compiles to the same prompt. -/
theorem studio_rebuild_compiled :
    studio.IsNamed ∧ OutputsExist studioEditor.graph ∧ Keyed studioEditor.graph ∧
      (∀ s ∈ sites studioEditor.graph, s.id.KeepsKey) ∧
      (∀ s ∈ emitted studioEditor.graph, s.IsMadeBy studio) ∧
      (∀ s ∈ emitted studioEditor.graph, ∀ w ∈ s.widgets, w.serializer = none) ∧
      studioEditor.settings.devMode = false ∧
      ∃ p e', Editor.compile.exec studioEditor = (.ok p, e') ∧
        (∀ s ∈ emitted e'.graph, ∀ w ∈ s.widgets, w.value.isPair = false) ∧
        ∃ g, studio.rebuild p.output.toJson = .ok (some g, []) ∧
          g.nodes.map (·.id.key) = p.output.names ∧
          ∀ t : Editor, t.graph = g → t.settings.devMode = false →
            ∃ q, Editor.compile.exec t = (.ok q, t) ∧ q.output.asMap = p.output.asMap := by
  have hkeyed : Keyed studioEditor.graph := by
    unfold Keyed
    decide +kernel
  have hids : ∀ s ∈ sites studioEditor.graph, s.id.KeepsKey := by decide +kernel
  have hsilent : ∀ s ∈ emitted studioEditor.graph, ∀ w ∈ s.widgets, w.serializer = none :=
    serializer_eq_none_of_isNone (by decide +kernel)
  obtain ⟨p, e', hcompile, hvalues⟩ : ∃ p e', Editor.compile.exec studioEditor = (.ok p, e') ∧
      ∀ s ∈ emitted e'.graph, ∀ w ∈ s.widgets, w.value.isPair = false := by
    refine ⟨_, _, rfl, ?_⟩
    decide +kernel
  exact ⟨studio_isNamed, studioEdits_outputsExist, hkeyed, hids, studioEditor_isMadeBy, hsilent, rfl,
    p, e', hcompile, hvalues, Registry.rebuild_compiled studio_isNamed studioEdits_outputsExist hkeyed
      hids studioEditor_isMadeBy hsilent rfl hcompile hvalues⟩

/-- A sink behind a source whose output is counted from the end. -/
def backwardEdits : List Edit :=
  [.add none (studioNode normalMode "Source"),
   .add none (studioNode normalMode "Sink"),
   .connect (.number 1) (.number (-1)) (.number 2) (.number 0)]

def backwardEditor : Editor where
  graph := Edit.runAll backwardEdits {}

private theorem backwardEditor_isMadeBy :
    ∀ s ∈ emitted backwardEditor.graph, s.IsMadeBy studio := by
  have hemitted : emitted backwardEditor.graph = [_, _] := rfl
  rw [hemitted]
  intro s hs
  simp only [List.mem_cons, List.not_mem_nil, or_false] at hs
  rcases hs with rfl | rfl
  · exact ⟨⟨{}, "Source", _, rfl, rfl, rfl, rfl, rfl, rfl⟩, by decide⟩
  · exact ⟨⟨{}, "Sink", _, rfl, rfl, rfl, rfl, rfl, rfl⟩, by decide⟩

/-- The compiled prompt refers to an output of a negative position.  The rebuilt graph does without
the reference, as no output stands at such a position, and compiles to another prompt. -/
theorem backward_rebuild_loses :
    studio.IsNamed ∧ Keyed backwardEditor.graph ∧
      (∀ s ∈ sites backwardEditor.graph, s.id.KeepsKey) ∧
      (∀ s ∈ emitted backwardEditor.graph, s.IsMadeBy studio) ∧
      (∀ s ∈ emitted backwardEditor.graph, ∀ w ∈ s.widgets, w.serializer = none) ∧
      (∀ n ∈ backwardEditor.graph.nodes, n.group? = none) ∧
      backwardEditor.settings.devMode = false ∧
      ∃ p e', Editor.compile.exec backwardEditor = (.ok p, e') ∧
        (∀ s ∈ emitted e'.graph, ∀ w ∈ s.widgets, w.value.isPair = false) ∧
        p.output.map (fun m => (m.1, m.2.references.map fun r => (r.1, r.2.origin, r.2.slot))) =
          [("1", []), ("2", [("image", "1", -1)])] ∧
        ∃ g, studio.rebuild p.output.toJson = .ok (some g, []) ∧
          ∃ q t, Editor.compile.exec { graph := g } = (.ok q, t) ∧
            q.output.map (fun m => (m.1, m.2.references.isEmpty)) = [("1", true), ("2", true)] ∧
            q.output.asMap ≠ p.output.asMap := by
  have hkeyed : Keyed backwardEditor.graph := by
    unfold Keyed
    decide +kernel
  have hsilent : ∀ s ∈ emitted backwardEditor.graph, ∀ w ∈ s.widgets, w.serializer = none :=
    serializer_eq_none_of_isNone (by decide +kernel)
  have hgroups : ∀ n ∈ backwardEditor.graph.nodes, n.group? = none := by
    have hnone : ∀ n ∈ backwardEditor.graph.nodes, n.group?.isNone = true := by decide +kernel
    exact fun n hn => Option.isNone_iff_eq_none.1 (hnone n hn)
  obtain ⟨p, e', hcompile, hvalues, hreferences, hholds⟩ :
      ∃ p e', Editor.compile.exec backwardEditor = (.ok p, e') ∧
        (∀ s ∈ emitted e'.graph, ∀ w ∈ s.widgets, w.value.isPair = false) ∧
        p.output.map (fun m => (m.1, m.2.references.map fun r => (r.1, r.2.origin, r.2.slot))) =
          [("1", []), ("2", [("image", "1", -1)])] ∧
        ((p.output.asMap "2").bind (·.2.1 "image")).isSome = true := by
    refine ⟨_, _, rfl, ?_, ?_, ?_⟩
    · decide +kernel
    · decide +kernel
    · decide +kernel
  -- the rebuilding and the second compilation are one computation
  have hagain : ((Editor.compile.exec backwardEditor).1.toOption.bind fun p =>
      (studio.rebuild p.output.toJson).toOption.bind fun found => found.1.bind fun g =>
        (Editor.compile.exec { graph := g }).1.toOption.map fun q =>
          (found.2.isEmpty, q.output.map (fun m => (m.1, m.2.references.isEmpty)),
            ((q.output.asMap "2").bind (·.2.1 "image")).isSome)) =
      some (true, [("1", true), ("2", true)], false) := by
    decide +kernel
  rcases Option.bind_eq_some_iff.1 hagain with ⟨p', hp, hrebuilt⟩
  obtain rfl : p = p' := by
    rw [hcompile] at hp
    exact Option.some.inj hp
  rcases Option.bind_eq_some_iff.1 hrebuilt with ⟨⟨g?, missing⟩, hrebuild, hbuilt⟩
  rcases Option.bind_eq_some_iff.1 hbuilt with ⟨g, rfl, hcompiled⟩
  rcases Option.map_eq_some_iff.1 hcompiled with ⟨q, hq, hread⟩
  simp only [Prod.mk.injEq, List.isEmpty_iff] at hread
  rcases hread with ⟨rfl, hnone, hlacks⟩
  refine ⟨studio_isNamed, hkeyed, by decide +kernel, backwardEditor_isMadeBy, hsilent, hgroups, rfl, p,
    e', hcompile, hvalues, hreferences, g, Fault.toOption_eq_some_iff.1 hrebuild, q, _,
    Prod.ext (Fault.toOption_eq_some_iff.1 hq) rfl, hnone, fun hsame => ?_⟩
  rw [hsame, hholds] at hlacks
  cases hlacks

example : (((Editor.compile.exec studioEditor).1.toOption).map fun p =>
    p.output.map fun m => (m.1, m.2.className, m.2.references.map (·.2.origin))) =
      some [("1", "Source", []), ("2:2", "Sink", ["1"]), ("6", "Sink", []),
        ("4", "Sink", ["2:2"])] := by decide +kernel

end NodeFlow
