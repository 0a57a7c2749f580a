import NodeFlow.Proofs.Compile.References
import NodeFlow.Proofs.Load.Blueprint

/-!
# Compiling what was rebuilt

A graph that holds what an output says compiles to it again: each reference of the output is a link
between two nodes, so that links lead backwards in the output as references do, and what a node holds
is what its step says.

Main results:

- Definition `Output.asMap`: the output as a nested map.
- Theorem `Output.HeldBy.acyclic`: a graph that holds an output in dependency order has no circles.
- Theorem `Output.HeldBy.compile`: it compiles, to the same nested map.
-/

namespace NodeFlow

open NodeFlow.Graph Workflow

/-- The output as a nested map: under every key the class, the inputs as a map, and the title part
of a step. -/
def Output.asMap (output : Output) (key : String) :
    Option (String × (String → Option Json) × Option StepMeta) :=
  (output.get? key).map fun s => (s.className, Table.get? s.inputs, s.meta?)

/-- References name steps that come earlier. -/
def Output.InDependencyOrder (output : Output) : Prop :=
  ∀ (j : Nat) (key : String) (step : Step), output[j]? = some (key, step) →
    ∀ name r, (name, r) ∈ step.references → ∃ i < j, ∃ source, output[i]? = some (r.origin, source)

/-! ## Slots and what feeds them -/

section Slots

variable {g : Workflow} {n : Node Group} (hn : g.at? n.id = some n)
  (hslots : (n.inputs.map (·.name)).Nodup) {i : Nat} {s : InputSlot} (hs : n.inputs[i]? = some s)

omit hn in
include hslots hs in
private theorem Node.inputPosition?_of_slot : n.inputPosition? s.name = some i := by
  rcases List.getElem?_eq_some_iff.1 hs with ⟨hi, rfl⟩
  refine List.findIdx?_eq_some_iff_getElem.2 ⟨hi, by simp, fun j hj => ?_⟩
  have hne : n.inputs[j].name ≠ n.inputs[i].name := by
    intro hsame
    have hij : (n.inputs.map (·.name))[j]? = (n.inputs.map (·.name))[i]? := by
      rw [List.getElem?_map, List.getElem?_map, List.getElem?_eq_getElem (hj.trans hi),
        List.getElem?_eq_getElem hi, Option.map_some, Option.map_some, hsame]
    have hlt : j < (n.inputs.map (·.name)).length := by
      rw [List.length_map]
      exact hj.trans hi
    exact hj.ne ((List.getElem?_inj hlt hslots).1 hij)
  simpa using hne

include hn hslots hs in
private theorem Graph.fed_of_slot :
    (g.content n.id s.name).fed = (g.incoming? n.id i).map Link.reference := by
  simp only [content, hn, Option.bind_some, Node.inputPosition?_of_slot hslots hs]

omit hslots hs in
include hn in
/-- What feeds the slot of a name comes through one of the slots. -/
theorem Graph.exists_slot_of_fed {name : String} {r : Reference}
    (h : (g.content n.id name).fed = some r) :
    ∃ i s, n.inputs[i]? = some s ∧ s.name = name ∧
      (g.incoming? n.id i).map Link.reference = some r := by
  simp only [content, hn, Option.bind_some] at h
  rcases Option.map_eq_some_iff.1 h with ⟨l, hl, hr⟩
  rcases Option.bind_eq_some_iff.1 hl with ⟨i, hi, hl⟩
  rcases List.findIdx?_eq_some_iff_getElem.1 hi with ⟨hlt, hname, -⟩
  exact ⟨i, n.inputs[i], List.getElem?_eq_getElem hlt, by simpa using hname, by rw [hl, ← hr]; rfl⟩

end Slots

/-- The link that an input holds leads there from a node of the graph. -/
theorem Graph.Booked.exists_origin {γ : Type} {g : Graph γ} (h : g.Booked) {id : NodeId} {i : Nat}
    {l : Link} (hl : g.incoming? id i = some l) :
    ∃ o a, l.Leaves o a ∧ ∃ n, g.at? o = some n ∧ g.lookup? l.origin = .ok (some n) := by
  rcases Option.bind_eq_some_iff.1 hl with ⟨k, -, hfound⟩
  rcases h.leaves l (List.mem_of_find?_eq_some hfound) with ⟨o, a, ks, hleaves, hlisted, -⟩
  rcases exists_of_listedAt? hlisted with ⟨n, _, hn, -⟩
  refine ⟨o, a, hleaves, n, hn, ?_⟩
  rw [hleaves.1]
  exact lookup?_of_at? hn

/-! ## Order -/

namespace Output.HeldBy

variable {output : Output} {g : Workflow} (h : output.HeldBy g)

include h

private theorem runs : ∀ n ∈ g.nodes, n.Runs := by
  intro n hn
  rcases h.steps n hn with ⟨s, -, hheld⟩
  exact hheld.runs

/-- A node that feeds another one is the one that a reference in the step of the other names. -/
theorem exists_reference_of_feeds {u v : Node Group} (hv : v ∈ g.nodes) (hfeeds : g.Feeds u v) :
    ∃ s name r, output.get? v.id.key = some s ∧ (name, r) ∈ s.references ∧
      r.origin = u.id.key := by
  rcases hfeeds with ⟨slot, hslot, l, hlink, hfound⟩
  rcases h.steps v hv with ⟨s, hs, hheld⟩
  rcases List.getElem?_of_mem hslot with ⟨i, hi⟩
  have hat := at?_of_mem h.booked.ids hv
  have hincoming : g.incoming? v.id i = some l := by
    rw [incoming?, heldAt?_of_at? hat, hi, Option.map_some, Option.join_some]
    exact hlink
  rcases h.booked.exists_origin hincoming with ⟨o, a, hleaves, n, hn, hlookup⟩
  rw [hlookup, Except.ok.injEq, Option.some.injEq] at hfound
  subst hfound
  have hfed := fed_of_slot hat (List.nodup_append.1 hheld.slots).1 hi
  rw [hheld.fed, hincoming, Option.map_some, hleaves.reference] at hfed
  rcases Option.bind_eq_some_iff.1 hfed with ⟨w, hw, hr⟩
  refine ⟨s, slot.name, ⟨o.key, a⟩, hs, ?_, ?_⟩
  · exact List.mem_filterMap.2 ⟨_, Table.mem_of_get? hw, by simp [hr]⟩
  · rw [id_of_at? hn]

variable (hkeys : output.names.Nodup) (horder : output.InDependencyOrder)

include hkeys horder

private theorem idxOf_lt_of_feeds {u v : Node Group} (hv : v ∈ g.nodes) (hfeeds : g.Feeds u v) :
    output.names.idxOf u.id.key < output.names.idxOf v.id.key := by
  rcases h.exists_reference_of_feeds hv hfeeds with ⟨s, name, r, hs, hr, horigin⟩
  rcases List.getElem?_of_mem (Table.mem_of_get? hs) with ⟨j, hj⟩
  rcases horder j _ s hj name r hr with ⟨i, hij, source, hi⟩
  have hindex : ∀ (k : Nat) (key : String) (step : Step), output[k]? = some (key, step) →
      output.names.idxOf key = k := by
    intro k key step hk
    have hname : output.names[k]? = some key := by rw [Table.names, List.getElem?_map, hk]; rfl
    rcases List.getElem?_eq_some_iff.1 hname with ⟨hlt, hsame⟩
    rw [← hsame, hkeys.idxOf_getElem]
  rw [← horigin, hindex i _ _ hi, hindex j _ _ hj]
  exact hij

/-- A graph that holds an output in dependency order has no circles. -/
theorem acyclic : g.Acyclic := by
  have hlt : ∀ u v, Relation.TransGen g.Feeds u v → v ∈ g.nodes →
      output.names.idxOf u.id.key < output.names.idxOf v.id.key := by
    intro u v hpath
    induction hpath with
    | single hfeeds => exact fun hv => h.idxOf_lt_of_feeds hkeys horder hv hfeeds
    | tail _ hfeeds ih =>
      exact fun hv => (ih hfeeds.mem_left).trans (h.idxOf_lt_of_feeds hkeys horder hv hfeeds)
  exact fun n hpath => lt_irrefl _ (hlt n n hpath (mem_left_of_transGen hpath))

private theorem exists_order :
    ∃ order, g.plan = .ok order ∧ (order.filterMap g.at?).Perm g.nodes := by
  have hread : g.OriginsReadable := by
    intro n hn slot hslot l hl
    rcases List.getElem?_of_mem hslot with ⟨i, hi⟩
    have hincoming : g.incoming? n.id i = some l := by
      rw [incoming?, heldAt?_of_at? (at?_of_mem h.booked.ids hn), hi, Option.map_some,
        Option.join_some]
      exact hl
    rcases h.booked.exists_origin hincoming with ⟨-, -, -, o, -, hlookup⟩
    exact ⟨some o, hlookup⟩
  rcases exists_schedule h.booked.ids hread with ⟨ws, hws, s⟩
  have hplan := plan_of_acyclic hws s (h.acyclic hkeys horder)
  exact ⟨_, hplan, (Ordered.mk h.booked.ids ⟨_, hplan⟩).filterMap_plan_perm hplan⟩

end Output.HeldBy

/-! ## Steps -/

/-- A step bears the type of its site, and the title where titles are sent. -/
theorem Site.IsBuilt.head {g : Workflow} {maxHops : Int} {titled : Bool} {s : Site}
    {m : String × Step} (h : s.IsBuilt g maxHops titled m) :
    m.2.className = s.type ∧ m.2.meta? = if titled then some ⟨s.title⟩ else none := by
  rcases m with ⟨key, step⟩
  rcases Fault.bind_eq_ok_iff.1 h.2 with ⟨inputs, -, hstep⟩
  cases hstep
  exact ⟨rfl, rfl⟩

section Step

variable {g : Workflow} {n : Node Group} {s : Step} (hheld : s.HeldBy g n)

include hheld

/-- Under a name that nothing feeds, the step of a node that is compiled again has what the step
that the node holds has there. -/
theorem Step.HeldBy.get?_literals {name : String} (hfree : (g.content n.id name).fed = none) :
    Table.get? (Site.outer n).literals name = Table.get? s.inputs name := by
  rw [Site.get?_literals]
  cases hlast : ((Site.outer n).widgets.filter fun w => w.isSent && w.name == name).getLast? with
  | some w =>
    have hmem := List.mem_filter.1 (List.mem_of_getLast? hlast)
    obtain ⟨hsent, hname⟩ : w.isSent = true ∧ w.name = name := by simpa using hmem.2
    have hliteral : w.literal = w.value := by
      rw [Widget.literal, (hheld.runs.silent w hmem.1).2]
    rw [Option.map_some, hliteral, ← hname, (hheld.shown w hmem.1 hsent).1]
  | none =>
    rw [Option.map_none]
    refine (Table.get?_eq_none fun hname => ?_).symm
    rcases hheld.inputs name hname with hfed | ⟨w, hw, hsent, hw'⟩
    · rw [hfree] at hfed
      cases hfed
    · rw [List.getLast?_eq_none_iff, List.filter_eq_nil_iff] at hlast
      exact hlast w hw (by simp [hsent, hw'])

variable (hbooked : g.Booked) (hruns : ∀ m ∈ g.nodes, m.Runs) (hn : n ∈ g.nodes) {maxHops : Int}
  {titled : Bool} {m : String × Step} (hbuilt : (Site.outer n).IsBuilt g maxHops titled m)

include hbooked hruns hn hbuilt

/-- The step of a node that is compiled again has the inputs of the step that the node holds. -/
theorem Step.HeldBy.get?_inputs {steps : Output}
    (hsteps : ∀ m ∈ g.nodes, steps.has m.id.key = true) (name : String) :
    Table.get? (m.2.keep steps).inputs name = Table.get? s.inputs name := by
  have hat := at?_of_mem hbooked.ids hn
  have hslots := (List.nodup_append.1 hheld.slots).1
  have hlinks : ∀ (i : Nat) r, (Site.outer n).Links g maxHops i r ↔
      (g.incoming? n.id i).map Link.reference = some r := by
    intro i r
    rcases Site.exists_resolve_of_runs hbooked hruns maxHops hn i with ⟨found, hfound, hr⟩
    constructor
    · rintro ⟨found', hfound', hr'⟩
      rw [hfound, Except.ok.injEq] at hfound'
      rw [← hr, hfound', hr']
    · exact fun hr' => ⟨found, hfound, hr.trans hr'⟩
  rw [hbuilt.get?_keep]
  cases hfed : (g.content n.id name).fed with
  | some r =>
    rcases exists_slot_of_fed hat hfed with ⟨i, slot, hslot, rfl, hr⟩
    -- the origin of the link has a step
    rcases Option.map_eq_some_iff.1 hr with ⟨l, hl, hreference⟩
    rcases hbooked.exists_origin hl with ⟨o, a, hleaves, u, hu, -⟩
    have horigin : steps.has r.origin = true := by
      have hkey : r.origin = u.id.key := by rw [← hreference, hleaves.reference, id_of_at? hu]
      rw [hkey]
      exact hsteps u (mem_of_at? hu)
    have hsaid : Table.get? s.inputs slot.name = some r.toJson := by
      rw [hheld.fed] at hfed
      rcases Option.bind_eq_some_iff.1 hfed with ⟨v, hv, hr⟩
      rw [hv, Reference.eq_toJson_of_ofJson? hr]
    rw [hbuilt.get?_of_links hslots hslot ((hlinks i r).2 hr), hsaid]
    simp [Option.filter, Step.refersInto, horigin]
  | none =>
    have hnot : ∀ (i : Nat) slot, (Site.outer n).inputs[i]? = some slot → slot.name = name →
        ∀ r, ¬ (Site.outer n).Links g maxHops i r := by
      rintro i slot hslot rfl r hr
      rw [fed_of_slot hat hslots hslot, (hlinks i r).1 hr] at hfed
      cases hfed
    rw [hbuilt.get?_of_not_links hnot, hheld.get?_literals hfed]
    cases hget : Table.get? s.inputs name with
    | none => rfl
    | some v =>
      have hv : Reference.ofJson? v = none := by
        rw [hheld.fed, hget] at hfed
        exact hfed
      simp [Option.filter, Step.refersInto, hv]

end Step

/-! ## The output -/

/-- A graph that holds an output in dependency order compiles, to the same nested map. -/
theorem Output.HeldBy.compile {output : Output} {g : Workflow} (h : output.HeldBy g)
    (hkeys : output.names.Nodup) (horder : output.InDependencyOrder) {e : Editor}
    (he : e.graph = g) (huntitled : e.settings.devMode = false) :
    ∃ p, Editor.compile.exec e = (.ok p, e) ∧ p.output.asMap = output.asMap := by
  rcases h.exists_order hkeys horder with ⟨order, hplan, hperm⟩
  rcases Editor.exec_compile_of_runs h.booked h.runs he hplan with ⟨steps, hsteps, hexec⟩
  refine ⟨_, hexec, ?_⟩
  rw [huntitled] at hsteps
  have hnames : (Table.names steps).Perm output.names := by
    rw [names_of_isBuilt hsteps, List.map_map, ← h.keys]
    exact hperm.map _
  have hnodup : (((order.filterMap g.at?).map Site.outer).map (·.id.key)).Nodup := by
    rw [← names_of_isBuilt hsteps]
    exact hnames.nodup_iff.2 hkeys
  have hhas : ∀ n ∈ g.nodes, Table.has steps n.id.key = true := by
    intro n hn
    rw [Table.has_iff, hnames.mem_iff, ← h.keys]
    exact List.mem_map_of_mem hn
  rw [update_of_isBuilt hsteps hnodup]
  funext key
  simp only [Output.asMap]
  by_cases hkey : key ∈ output.names
  · rw [← h.keys] at hkey
    rcases List.mem_map.1 hkey with ⟨n, hn, rfl⟩
    rcases h.steps n hn with ⟨s, hs, hheld⟩
    rcases exists_step_of_mem hsteps hnodup
      (List.mem_map_of_mem (hperm.mem_iff.2 hn)) with ⟨m, hm, hbuilt⟩
    have hm : (Output.prune steps).get? n.id.key = some (m.2.keep steps) := hm
    rw [hm, hs, Option.map_some, Option.map_some]
    have hclass : (m.2.keep steps).className = s.className := hbuilt.head.1.trans hheld.type
    have hmeta : (m.2.keep steps).meta? = s.meta? := hbuilt.head.2.trans hheld.untitled.symm
    have hinputs : Table.get? (m.2.keep steps).inputs = Table.get? s.inputs :=
      funext (hheld.get?_inputs h.booked h.runs hn hbuilt hhas)
    rw [hclass, hmeta, hinputs]
  · rw [Table.get?_eq_none hkey, Table.get?_eq_none]
    rw [Output.prune_names]
    exact fun hmem => hkey (hnames.mem_iff.1 hmem)

end NodeFlow
