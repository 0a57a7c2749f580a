import NodeFlow.Proofs.Compile.FlattenSteps
import NodeFlow.Proofs.Compile.Prepare

/-!
# Values without groups

Which links and nodes the flattened workflow has does not depend on the values of widgets.

Main results:

- Theorem `Workflow.skeleton_flatten`: flattening goes with taking values away.
-/

namespace NodeFlow

/-! ## Ends without values -/

namespace Graph

variable {γ : Type} {f : Node γ → Node γ}

private theorem named?_mapNodes (hf : IsNeutral f) (g : Graph γ) (v : Json) :
    (g.mapNodes f).named? v = (g.named? v).map f := by
  rw [named?, named?, lookup?_mapNodes hf]
  cases g.lookup? v with
  | error e => rfl
  | ok found => cases found <;> rfl

private theorem inLink?_mapNodes (hf : IsNominal f) (g : Graph γ) (n : Node γ) (slot : Int) :
    (g.mapNodes f).inLink? (f n) slot = g.inLink? n slot := by
  rw [inLink?, inLink?, hf.isCutOff, Node.inputLink?, Node.inputLink?, hf.inputs]
  rfl

end Graph

namespace Group

private theorem exit?_bare (x : Group) (slot : Int) :
    x.bare.exit? slot = (x.exit? slot).map fun p => (p.1.bare, p.2) := by
  have houtputs : x.bare.outputs = x.outputs := rfl
  have hnamed : ∀ v, x.bare.graph.named? v = (x.graph.named? v).map Node.bare :=
    Graph.named?_mapNodes Node.isNeutral_bare x.graph
  simp only [exit?, houtputs, hnamed]
  cases position? x.outputs.length slot with
  | none => rfl
  | some i =>
    simp only [Option.bind_eq_bind, Option.bind_some]
    cases x.outputs[i]? with
    | none => rfl
    | some port =>
      simp only [Option.bind_some]
      cases x.graph.named? port.node.toJson <;> rfl

private theorem entrance?_bare (x : Group) (input : Nat) :
    x.bare.entrance? input = (x.entrance? input).map fun p => (p.1.bare, p.2) := by
  have hinputs : x.bare.inputs = x.inputs := rfl
  have hat : ∀ id, x.bare.graph.at? id = (x.graph.at? id).map Node.bare :=
    Graph.at?_mapNodes Node.isNeutral_bare x.graph
  have hlink : ∀ n slot, x.bare.graph.inLink? (Node.bare n) slot = x.graph.inLink? n slot :=
    Graph.inLink?_mapNodes Graph.isNominal_bare x.graph
  have hinput : ∀ n slot, x.bare.inputOf? (Node.bare n) slot = x.inputOf? n slot := fun _ _ => rfl
  simp only [entrance?, hinputs, hat]
  cases x.inputs[input]? with
  | none => rfl
  | some port =>
    simp only [Option.bind_eq_bind, Option.bind_some]
    cases x.graph.at? port.node with
    | none => rfl
    | some n =>
      simp only [Option.map_some, Option.bind_some, hlink, hinput]
      split <;> rfl

end Group

namespace Node

private theorem parts?_hollow (n : Node Group) :
    n.bare.hollow.parts? = n.parts?.map Group.bare := by
  have hskipped : n.bare.hollow.isSkipped = n.isSkipped := rfl
  have hgroup : n.bare.hollow.group? = n.group?.map Group.bare := Node.group?_hollow n.bare
  rw [parts?, parts?, hskipped, hgroup]
  split <;> rfl

private theorem exit?_hollow (n : Node Group) (slot : Whole) :
    n.bare.hollow.exit? slot = (n.exit? slot).map fun p => (p.1.bare, p.2) := by
  rw [exit?, exit?, parts?_hollow]
  cases n.parts? with
  | none => rfl
  | some x =>
    simp only [Option.map_some, Group.exit?_bare, Option.map_map]
    rfl

private theorem entrance?_hollow (n : Node Group) (slot : Whole) :
    n.bare.hollow.entrance? slot = (n.entrance? slot).map fun p => (p.1.bare, p.2) := by
  have hinputs : n.bare.hollow.inputs = n.inputs := rfl
  rw [entrance?, entrance?, parts?_hollow, hinputs]
  cases n.parts? with
  | none => rfl
  | some x =>
    simp only [Option.map_some]
    cases position? n.inputs.length slot.val with
    | none => rfl
    | some i =>
      simp only [Option.bind_some, Group.entrance?_bare, Option.map_map]
      rfl

end Node

/-! ## Links and nodes without values -/

/-- The link, with its part of the workflow without the values of widgets. -/
def Wire.bare : Wire → Wire
  | outer l => outer l
  | inner host x l => inner host.bare.hollow x.bare l

namespace Workflow

variable (g : Workflow)

private theorem named?_skeleton (v : Json) :
    Graph.named? (skeleton g) v = (Graph.named? g v).map fun n => n.bare.hollow := by
  rw [skeleton, Graph.named?_mapNodes Node.isNeutral_hollow, Graph.named?_mapNodes Node.isNeutral_bare,
    Option.map_map]
  rfl

private theorem inLink?_skeleton (n : Node Group) (slot : Int) :
    Graph.inLink? (skeleton g) n.bare.hollow slot = Graph.inLink? g n slot := by
  rw [skeleton, Graph.inLink?_mapNodes Graph.isNominal_hollow,
    Graph.inLink?_mapNodes Graph.isNominal_bare]

private theorem linkNumber_skeleton : linkNumber (skeleton g) = linkNumber g := by
  funext part id
  rw [linkNumber, linkNumber, show (skeleton g).nodes.length = g.nodes.length by
    simp [skeleton, Graph.mapNodes]]

private theorem partOf_skeleton : partOf (skeleton g) = partOf g := by
  have hfind : ∀ (ns : List (Node Group)) (id : NodeId),
      ns.findIdx (·.id == id) = (ns.map (·.id)).findIdx (· == id) := by
    intro ns id
    rw [List.findIdx_map]
    rfl
  funext id
  rw [partOf, partOf, hfind, ids_skeleton, ← hfind]

private theorem wires_skeleton : wires (skeleton g) = (wires g).map Wire.bare := by
  have hinner : ∀ n : Node Group, innerWires n.bare.hollow = (innerWires n).map Wire.bare := by
    intro n
    rw [innerWires, innerWires, Node.parts?_hollow]
    cases n.parts? with
    | none => rfl
    | some x =>
      simp only [Option.map_some, List.map_map]
      rfl
  have hnodes : (skeleton g).nodes = g.nodes.map fun n => n.bare.hollow := by
    simp [skeleton, Graph.mapNodes]
  have hlinks : (skeleton g).links = g.links := rfl
  rw [wires, wires, List.map_append, hlinks, hnodes, List.map_map, List.flatMap_map, List.map_flatMap]
  simp only [hinner]
  rfl

variable {g}

private theorem origin?_bare (w : Wire) :
    w.bare.origin? (skeleton g) = (w.origin? g).map fun o => (o.1.bare, o.2) := by
  cases w with
  | outer l =>
    simp only [Wire.bare, Wire.origin?, named?_skeleton]
    cases Graph.named? g l.origin with
    | none => rfl
    | some n => exact n.exit?_hollow l.originSlot
  | inner host x l =>
    have hnamed := Graph.named?_mapNodes Node.isNeutral_bare x.graph l.origin
    simp only [Wire.bare, Wire.origin?, Group.bare, hnamed]
    cases x.graph.named? l.origin <;> rfl

private theorem target?_bare (w : Wire) :
    w.bare.target? (skeleton g) = (w.target? g).map fun o => (o.1.bare, o.2) := by
  cases w with
  | outer l =>
    simp only [Wire.bare, Wire.target?, named?_skeleton]
    cases Graph.named? g l.target with
    | none => rfl
    | some n => exact n.entrance?_hollow l.targetSlot
  | inner host x l =>
    have hnamed := Graph.named?_mapNodes Node.isNeutral_bare x.graph l.target
    simp only [Wire.bare, Wire.target?, Group.bare, hnamed]
    cases x.graph.named? l.target <;> rfl

private theorem number_bare (w : Wire) : w.bare.number (skeleton g) = w.number g := by
  cases w with
  | outer l => rw [Wire.bare, Wire.number, Wire.number, linkNumber_skeleton]
  | inner host x l =>
    rw [Wire.bare, Wire.number, Wire.number, linkNumber_skeleton, partOf_skeleton]
    rfl

private theorem flat_bare (w : Wire) : w.bare.flat (skeleton g) = w.flat g := by
  have hlink : w.bare.link = w.link := by cases w <;> rfl
  have hids : ∀ o : Option (Site × Whole), (o.map fun o => (o.1.bare, o.2)).map (·.1.id.toJson) =
      o.map (·.1.id.toJson) := by
    intro o
    cases o with
    | none => rfl
    | some o => simp
  have hslots : ∀ o : Option (Site × Whole), (o.map fun o => (o.1.bare, o.2)).map (·.2) =
      o.map (·.2) := by
    intro o
    cases o <;> rfl
  simp only [Wire.flat, number_bare, origin?_bare, target?_bare, hlink, hids, hslots]

private theorem wire?_bare (s : Site) (i : Int) :
    s.bare.wire? (skeleton g) i = (s.wire? g i).map Wire.bare := by
  cases s with
  | outer n =>
    simp only [Site.bare, Site.wire?, inLink?_skeleton]
    cases g.inLink? n i <;> rfl
  | inner host x n =>
    have hlink : x.bare.graph.inLink? n.bare i = x.graph.inLink? n i :=
      Graph.inLink?_mapNodes Graph.isNominal_bare x.graph n i
    have hinput : x.bare.inputOf? n.bare i = x.inputOf? n i := rfl
    simp only [Site.bare, Site.wire?, hinput, inLink?_skeleton, hlink]
    cases x.graph.inLink? n i with
    | some l => rfl
    | none =>
      cases x.inputOf? n i with
      | none => rfl
      | some j =>
        simp only [Option.bind_some]
        cases g.inLink? host j <;> rfl

private theorem held_bare (s : Site) (i : Nat) (slot : InputSlot) :
    s.bare.held (skeleton g) i slot = s.held g i slot := by
  cases s with
  | outer n => simp only [Site.bare, Site.held, linkNumber_skeleton]
  | inner host x n =>
    have hwire := wire?_bare (g := g) (.inner host x n) i
    simp only [Site.bare] at hwire
    simp only [Site.bare, Site.held, hwire, Option.map_map]
    congr 1
    funext w
    exact number_bare w

private theorem listed_bare (s : Site) (i : Nat) (o : OutputSlot) :
    s.bare.listed (skeleton g) i o = s.listed g i o := by
  cases s with
  | outer n => simp only [Site.bare, Site.listed, linkNumber_skeleton]
  | inner host x n =>
    have hid : host.bare.hollow.id = host.id := rfl
    have houtputs : host.bare.hollow.outputs = host.outputs := rfl
    have hcut : n.bare.isCutOff = n.isCutOff := rfl
    simp only [Site.bare, Site.listed, linkNumber_skeleton, partOf_skeleton, hid, houtputs, hcut]
    congr 2
    funext p
    rw [Group.exit?_bare]
    cases x.exit? p.2 <;> rfl

private theorem site_flat_bare (s : Site) : s.bare.flat (skeleton g) = (s.flat g).bare.hollow := by
  have hinputs : s.bare.inputs = s.inputs := by cases s <;> rfl
  have houtputs : s.bare.outputs = s.outputs := by cases s <;> rfl
  simp only [Site.flat, Site.id_bare, hinputs, houtputs, held_bare, listed_bare]
  cases s with
  | outer n => rfl
  | inner host x n =>
    have hkind : ∀ k : Kind Empty, (k.widen : Kind Group).hollow = k.widen := by
      intro k
      cases k with
      | group y => exact y.elim
      | _ => rfl
    simp only [Site.bare, Site.asNode, Node.bare, Node.hollow, Node.widen, hkind]

/-- Flattening goes with taking the values away. -/
theorem skeleton_flatten (g : Workflow) : skeleton (flatten g) = flatten (skeleton g) := by
  have hnodes : ((expanded g).map (Site.flat g)).map (fun n => n.bare.hollow) =
      (expanded (skeleton g)).map (Site.flat (skeleton g)) := by
    rw [expanded_skeleton, List.map_map, List.map_map]
    refine List.map_congr_left fun s _ => ?_
    exact (site_flat_bare s).symm
  have hlinks : (wires g).map (Wire.flat g) = (wires (skeleton g)).map (Wire.flat (skeleton g)) := by
    rw [wires_skeleton, List.map_map]
    refine List.map_congr_left fun w _ => ?_
    exact (flat_bare w).symm
  have hleft : skeleton (flatten g) = { g with
      nodes := ((expanded g).map (Site.flat g)).map fun n => n.bare.hollow
      links := (wires g).map (Wire.flat g) } := by
    simp [skeleton, flatten, Graph.mapNodes]
  rw [hleft, hnodes, hlinks]
  rfl

/-! ## Flattenable workflows of one skeleton -/

private theorem flattenable_skeleton : Flattenable (skeleton g) ↔ Flattenable g := by
  have hkeys : Keyed (skeleton g) ↔ Keyed g := by
    have hsame := congrArg (List.map NodeId.key) (ids_sites_skeleton g)
    simp only [List.map_map, Function.comp_def] at hsame
    rw [Keyed, Keyed, hsame]
  have hpasses := forall_group_skeleton (g := g)
    (P := fun x => ∀ m ∈ x.graph.nodes, m.kind = .reroute → m.inputs ≠ []) fun x => by
      simp only [Group.bare, Graph.mapNodes, List.forall_mem_map]
      rfl
  have hexit : ∀ n : Node Group, ∀ slot, (n.bare.hollow.exit? slot).isSome = (n.exit? slot).isSome := by
    intro n slot
    rw [Node.exit?_hollow, Option.isSome_map]
  have hgroup : ∀ n : Node Group, n.bare.hollow.group?.isSome = n.group?.isSome := by
    intro n
    rw [Node.group?_hollow, Option.isSome_map]
    rfl
  constructor
  · intro h
    refine ⟨hkeys.1 h.keyed, fun n hn hsome => ?_, ?_, hpasses.1 h.passes⟩
    · exact h.active n.bare.hollow (mem_skeleton_nodes.2 ⟨n, hn, rfl⟩) (by rwa [hgroup])
    · intro n hn slot l hl host hhost
      rw [← hexit]
      refine h.exits n.bare.hollow (mem_skeleton_nodes.2 ⟨n, hn, rfl⟩) slot l ?_ host.bare.hollow ?_
      · rw [inLink?_skeleton, hl]
      · rw [lookup?_skeleton, hhost]
        rfl
  · intro h
    refine ⟨hkeys.2 h.keyed, fun m hm hsome => ?_, ?_, hpasses.2 h.passes⟩
    · rcases mem_skeleton_nodes.1 hm with ⟨n, hn, rfl⟩
      exact h.active n hn (by rwa [hgroup] at hsome)
    · intro m hm slot l hl host hhost
      rcases mem_skeleton_nodes.1 hm with ⟨n, hn, rfl⟩
      rw [inLink?_skeleton] at hl
      rw [lookup?_skeleton] at hhost
      rcases Fault.map_eq_ok_iff.1 hhost with ⟨found, hfound, hsame⟩
      rcases Option.map_eq_some_iff.1 hsame with ⟨k, rfl, rfl⟩
      rw [hexit]
      exact h.exits n hn slot l hl k hfound

/-- Whether a workflow can be flattened does not depend on values of widgets. -/
theorem flattenable_of_skeleton_eq {g' : Workflow} (h : skeleton g' = skeleton g)
    (hg : Flattenable g) : Flattenable g' :=
  flattenable_skeleton.1 (h ▸ flattenable_skeleton.2 hg)

/-- The skeleton of a flattened workflow does not depend on values of widgets. -/
theorem skeleton_flatten_of_skeleton_eq {g' : Workflow} (h : skeleton g' = skeleton g) :
    skeleton (flatten g') = skeleton (flatten g) := by
  rw [skeleton_flatten, h, skeleton_flatten]

/-- The node that stands for a site holds the values of the site. -/
theorem valueAt_flatten (hkeyed : Keyed g) {s : Site} (hs : s ∈ expanded g) (i : Nat) :
    valueAt (flatten g) (.outer s.id, i) = valueAt g (s.place, i) := by
  rw [valueAt_place hkeyed.distinct (mem_sites_of_mem_expanded hs)]
  have hmem : s.flat g ∈ (flatten g).nodes := List.mem_map_of_mem hs
  have hvalue := Graph.valueAt_of_mem (nodup_ids_flatten hkeyed) hmem i
  rw [Site.widgets_flat] at hvalue
  exact hvalue

end Workflow

end NodeFlow
