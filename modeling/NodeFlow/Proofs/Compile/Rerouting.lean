import NodeFlow.Proofs.Compile.DetourCompile
import NodeFlow.Proofs.Compile.FlattenCompile
import NodeFlow.Proofs.Edit.Rerouting

/-!
# Compilations with a reroute in a link

Where the records of links agree, numbers are counted, keys differ and no widget has two primitives, a
reroute can be put into any link that does not start at a primitive: the planner accepts the workflow
as before, and the steps that it compiles to are the same.  There are two conditions.  The links of the
workflow must not find the reroute under the id that it gets, and the compilation must not draw from
the random sources, as the nodes may come in another order.

Main results:

- Structure `Workflow.WellKept`, with an instance of `Decidable`: what a workflow must fulfil.
- Theorem `Editor.compile_rerouted`: putting a reroute into a link changes nothing.
- Theorem `rerouted_differs`: it does where one of the conditions fails.
-/

namespace NodeFlow

open Workflow

/-! ## Decision -/

namespace Graph

variable {γ : Type} {g : Graph γ}

instance (g : Graph γ) : Decidable g.Counted :=
  decidable_of_iff ((∀ l ∈ g.links, l.id.val ≤ g.lastLinkId.val) ∧
      (∀ n ∈ g.nodes, ∀ s ∈ n.inputs, ∀ k ∈ s.link, k ≤ g.lastLinkId.val) ∧
      ∀ n ∈ g.nodes, ∀ o ∈ n.outputs, ∀ k ∈ o.links, k ≤ g.lastLinkId.val)
    ⟨fun h => ⟨h.1, h.2.1, h.2.2⟩, fun h => ⟨h.links, h.held, h.listed⟩⟩

end Graph

namespace Workflow

/-- The records of links agree, the counter of links is not below their numbers, no two steps have one
key, and no widget has two primitives. -/
structure WellKept (g : Workflow) : Prop where
  links : Graph.Consistent g
  counted : Graph.Counted g
  keyed : Keyed g
  single : ∀ p q k, PushesTo g p k → PushesTo g q k → p = q

private theorem wellKept_iff {g : Workflow} :
    WellKept g ↔ (g.nodes.map (·.id)).Nodup ∧ Graph.AgreesById g ∧
    Graph.Counted g ∧ Keyed g ∧ ∀ p ∈ pushList g, ∀ q ∈ pushList g, p.2 = q.2 → p.1 = q.1 := by
  constructor
  · intro h
    have hids := h.keyed.distinct.outer
    exact ⟨hids, (Graph.consistent_iff hids).1 h.links, h.counted, h.keyed, single_iff.1 h.single⟩
  · rintro ⟨hids, hlinks, hcounted, hkeyed, hsingle⟩
    exact ⟨(Graph.consistent_iff hids).2 hlinks, hcounted, hkeyed, single_iff.2 hsingle⟩

instance (g : Workflow) : Decidable (WellKept g) := decidable_of_iff _ wellKept_iff.symm

end Workflow

namespace Editor

variable {e : Editor} {l : Link} {o t r : Node Group} {j : Nat} {id? : Option NodeId} {id : NodeId}

/-- Putting a reroute into a link that does not start at a primitive changes nothing: the edits succeed,
the planner accepts the workflow if it accepted it before, and the steps are the same. -/
theorem compile_rerouted (hkept : WellKept e.graph) (hjoins : Graph.Joins e.graph l o t j)
    (hsteady : o.kind.isPrimitive = false) (hr : r.IsLoose) {g₁ : Workflow}
    (hadd : (Graph.add id? r).exec e.graph = (.ok id, g₁))
    (huncaught : ∀ l ∈ e.graph.links, ¬ g₁.Finds l.origin id ∧ ¬ g₁.Finds l.target id) :
    ∃ g', (reroute id? r o.id t.id l).exec e.graph = (.ok id, g') ∧
      ((∃ order, g'.plan = .ok order) ↔ ∃ order, Graph.plan e.graph = .ok order) ∧
      ∀ p e₁ q e₂, compile.exec e = (.ok p, e₁) → e₁.outside.sources = e.outside.sources →
        compile.exec { e with graph := g' } = (.ok q, e₂) →
        ∀ key, q.output.get? key = p.output.get? key := by
  rcases exists_detour hkept.links hkept.counted hkept.keyed.distinct.outer hjoins hsteady hr
    hadd huncaught with ⟨d, hfits, hexec⟩
  refine ⟨d.apply e.graph, hexec, hfits.exists_plan_apply_iff, ?_⟩
  intro p e₁ q e₂ hp hdry hq key
  exact get?_output_compile_apply hfits hkept.keyed hkept.links.linked hkept.single hp hdry hq key

end Editor

/-! ## Examples -/

private theorem Act.exists_exec_of_isOk {σ α : Type} {act : Act σ α} {s : σ}
    (h : (act.exec s).1.isOk = true) : ∃ a s', act.exec s = (.ok a, s') := by
  rcases hexec : act.exec s with ⟨_ | a, s'⟩
  · rw [hexec] at h
    cases h
  · exact ⟨a, s', rfl⟩

/-- A reroute as it comes. -/
def freshReroute : Node Group :=
  { kind := .reroute, type := "Reroute", title := none, inputs := [{ name := "" }],
    outputs := [{ name := "" }] }

private theorem freshReroute_isLoose : freshReroute.IsLoose :=
  ⟨rfl, by decide, by decide, by decide, rfl, rfl⟩

/-- The two groups, where the counters are at the highest id and the highest number. -/
def numbered : Editor :=
  { assembled with graph := { assembled.graph with lastNodeId := 4, lastLinkId := .number 3 } }

/-- A reroute between the two groups changes nothing. -/
theorem numbered_rerouted : WellKept numbered.graph ∧ ∃ o t g₁ g' p e₁ q e₂,
    Graph.Joins numbered.graph (wire 2 2 3 0) o t 0 ∧ o.kind.isPrimitive = false ∧
    freshReroute.IsLoose ∧
    (Graph.add none freshReroute).exec numbered.graph = (.ok (.number 5), g₁) ∧
    (∀ l ∈ numbered.graph.links,
      ¬ g₁.Finds l.origin (.number 5) ∧ ¬ g₁.Finds l.target (.number 5)) ∧
    (reroute none freshReroute (.number 2) (.number 3) (wire 2 2 3 0)).exec numbered.graph =
      (.ok (.number 5), g') ∧
    (∃ order, g'.plan = .ok order) ∧ Editor.compile.exec numbered = (.ok p, e₁) ∧
    e₁.outside.sources = numbered.outside.sources ∧
    Editor.compile.exec { numbered with graph := g' } = (.ok q, e₂) ∧
    (∀ key, q.output.get? key = p.output.get? key) ∧
    p.output.map (fun m => (m.1, m.2.inputs)) =
      [("1", []), ("2:3", [("seed", .str "pushed"), ("x", .arr [.str "1", .int 0])]),
        ("3:1", [("x", .arr [.str "2:3", .int 0])]),
        ("4", [("seed", .str "hooked"), ("x", .arr [.str "3:1", .int 0])])] := by
  have hkept : WellKept numbered.graph := by decide +kernel
  obtain ⟨o, t, hjoins, hsteady, ho, ht⟩ : ∃ o t, Graph.Joins numbered.graph (wire 2 2 3 0) o t 0 ∧
      o.kind.isPrimitive = false ∧ o.id = .number 2 ∧ t.id = .number 3 :=
    ⟨_, _, ⟨List.mem_of_getElem? (i := 2) rfl, rfl, rfl⟩, rfl, rfl, rfl⟩
  obtain ⟨g₁, hadd, huncaught⟩ : ∃ g₁,
      (Graph.add none freshReroute).exec numbered.graph = (.ok (.number 5), g₁) ∧
      ∀ l ∈ numbered.graph.links,
        ¬ g₁.Finds l.origin (.number 5) ∧ ¬ g₁.Finds l.target (.number 5) :=
    ⟨_, rfl, by decide +kernel⟩
  rcases Editor.compile_rerouted hkept hjoins hsteady freshReroute_isLoose hadd huncaught with
    ⟨g', hexec, hplan, hsame⟩
  rw [ho, ht] at hexec
  obtain ⟨p, e₁, hp, hdry, hsteps⟩ : ∃ p e₁, Editor.compile.exec numbered = (.ok p, e₁) ∧
      e₁.outside.sources = numbered.outside.sources ∧
      p.output.map (fun m => (m.1, m.2.inputs)) =
        [("1", []), ("2:3", [("seed", .str "pushed"), ("x", .arr [.str "1", .int 0])]),
          ("3:1", [("x", .arr [.str "2:3", .int 0])]),
          ("4", [("seed", .str "hooked"), ("x", .arr [.str "3:1", .int 0])])] := ⟨_, _, rfl, rfl, rfl⟩
  obtain ⟨q, e₂, hq⟩ : ∃ q e₂, Editor.compile.exec { numbered with graph := g' } = (.ok q, e₂) := by
    obtain rfl : ((reroute none freshReroute (.number 2) (.number 3) (wire 2 2 3 0)).exec
        numbered.graph).2 = g' := congrArg (·.2) hexec
    exact Act.exists_exec_of_isOk (by decide +kernel)
  exact ⟨hkept, o, t, g₁, g', p, e₁, q, e₂, hjoins, hsteady, freshReroute_isLoose, hadd, huncaught,
    hexec, hplan.2 ⟨_, rfl⟩, hp, hdry, hq, hsame p e₁ q e₂ hp hdry hq, hsteps⟩

/-- A source that goes by the text of a truth value; its links find it by the value. -/
def captured : Editor where
  graph := {
    nodes := [
      { id := .name "True", type := "Source", title := none,
        outputs := [{ name := "o", links := [1] }, { name := "p", links := [2] }] },
      { (passNode 0 (some 1) [] : Node Group) with id := .name "a" },
      { (passNode 0 (some 2) [] : Node Group) with id := .name "b" }]
    links := [
      ⟨.number 1, .bool true, .number 0, .str "a", .number 0, .str "*"⟩,
      ⟨.number 2, .bool true, .number 1, .str "b", .number 0, .str "*"⟩]
    lastLinkId := .number 2 }

/-- A reroute in the first link gets the number that the value stands for. -/
def capturedRerouted : Editor where
  graph := {
    nodes := [
      { id := .name "True", type := "Source", title := none,
        outputs := [{ name := "o", links := [1, 3] }, { name := "p", links := [2] }] },
      { (passNode 0 (some 4) [] : Node Group) with id := .name "a" },
      { (passNode 0 (some 2) [] : Node Group) with id := .name "b" },
      { id := .number 1, kind := .reroute, type := "Reroute", title := none, order := 3,
        inputs := [{ name := "", link := some 3 }], outputs := [{ name := "", links := [4] }] }]
    links := [
      ⟨.number 2, .bool true, .number 1, .str "b", .number 0, .str "*"⟩,
      ⟨.number 3, .str "True", .number 0, .int 1, .number 0, .str "*"⟩,
      ⟨.number 4, .int 1, .number 0, .str "a", .number 0, .str "*"⟩]
    lastNodeId := 1, lastLinkId := .number 4 }

/-- A node that makes a choice before it is sent. -/
def choosingNode (id link : Int) : Node Group :=
  { (passNode id (some link) [] : Node Group) with
    widgets := [
      { name := "pick", value := .str "none", kind := "combo",
        options := [("values", .arr [.str "first", .str "second"])] },
      { name := "mode", value := .str "randomize", options := [("serialize", .bool false)],
        beforeQueued := some (.advance .shared) }] }

/-- Two nodes that choose at random. -/
def choosy : Editor where
  graph := {
    nodes := [sourceNode 1 [1, 2], choosingNode 2 1, choosingNode 3 2]
    links := [wire 1 1 2 0, wire 2 1 3 0]
    lastNodeId := 3, lastLinkId := .number 2 }
  outside := { shared := { picks := [0, 1] } }

/-- With a reroute in front of it, the first node chooses last. -/
def choosyRerouted : Editor where
  graph := {
    nodes := [
      sourceNode 1 [2, 3], choosingNode 2 4, choosingNode 3 2,
      { id := .number 4, kind := .reroute, type := "Reroute", title := none, order := 3,
        inputs := [{ name := "", link := some 3 }], outputs := [{ name := "", links := [4] }] }]
    links := [wire 2 1 3 0, wire 3 1 4 0, wire 4 4 2 0]
    lastNodeId := 4, lastLinkId := .number 4 }
  outside := choosy.outside

/-- Two links, where the counter does not know about them. -/
def outnumbered : Editor where
  graph := {
    nodes := [sourceNode 1 [1], sourceNode 2 [2], passNode 3 (some 1) [], passNode 4 (some 2) []]
    links := [wire 1 1 3 0, wire 2 2 4 0]
    lastNodeId := 4 }

/-- A reroute in the second link takes the number of the first one. -/
def outnumberedRerouted : Editor where
  graph := {
    nodes := [
      sourceNode 1 [1], sourceNode 2 [1], passNode 3 (some 1) [], passNode 4 (some 2) [],
      { id := .number 5, kind := .reroute, type := "Reroute", title := none, order := 4,
        inputs := [{ name := "", link := some 1 }], outputs := [{ name := "", links := [2] }] }]
    links := [wire 1 2 5 0, wire 2 5 4 0]
    lastNodeId := 5, lastLinkId := .number 2 }

/-- The second editor has a reroute in a link of the first one that does not start at a primitive. -/
def Editor.IsRerouted (e e' : Editor) : Prop :=
  ∃ l o t j id, Graph.Joins e.graph l o t j ∧ o.kind.isPrimitive = false ∧
    (reroute none freshReroute o.id t.id l).exec e.graph = (.ok id, e'.graph) ∧
    e' = { e with graph := e'.graph }

/-- Reroutes in these workflows change steps: a link that does not lead through the reroute finds it and
passes nothing on, random choices are made in another order, or a link is lost to another one of its
number. -/
theorem rerouted_differs :
    (WellKept captured.graph ∧ captured.IsRerouted capturedRerouted ∧
      captured.inputsAt "b" = some [("x", .arr [.str "True", .int 1])] ∧
      capturedRerouted.inputsAt "b" = some []) ∧
    (WellKept choosy.graph ∧ choosy.IsRerouted choosyRerouted ∧
      choosy.inputsAt "3" = some [("pick", .str "second"), ("x", .arr [.str "1", .int 0])] ∧
      choosyRerouted.inputsAt "3" = some [("pick", .str "first"), ("x", .arr [.str "1", .int 0])]) ∧
    Graph.Consistent outnumbered.graph ∧ Keyed outnumbered.graph ∧
      (∀ p q k, PushesTo outnumbered.graph p k → PushesTo outnumbered.graph q k → p = q) ∧
      outnumbered.IsRerouted outnumberedRerouted ∧
      outnumbered.inputsAt "3" = some [("x", .arr [.str "1", .int 0])] ∧
      outnumberedRerouted.inputsAt "3" = some [("x", .arr [.str "2", .int 0])] := by
  refine ⟨⟨by decide +kernel, ?_, rfl, rfl⟩, ⟨by decide +kernel, ?_, rfl, rfl⟩,
    (Graph.consistent_iff (by decide)).2 (by decide +kernel), by decide +kernel,
    single_iff.2 (by decide +kernel), ?_, rfl, rfl⟩
  · exact ⟨_, _, _, 0, _, ⟨List.mem_of_getElem? (i := 1) rfl, rfl, rfl⟩, rfl, rfl, rfl⟩
  · exact ⟨_, _, _, 0, _, ⟨List.mem_of_getElem? (i := 1) rfl, rfl, rfl⟩, rfl, rfl, rfl⟩
  · exact ⟨_, _, _, 0, _, ⟨List.mem_of_getElem? (i := 3) rfl, rfl, rfl⟩, rfl, rfl, rfl⟩

end NodeFlow
