import NodeFlow.Proofs.Compile.Rank
import NodeFlow.Proofs.Compile.Spelling

/-!
# Steps of a respelled workflow

The ends of links and the outputs of groups name nodes, in either spelling.  The inputs of groups name
nodes too, but are compared with ids as they stand, so they keep their spelling here.  A workflow and
the same one with all other references spelled as texts have the same sites, each input has the same
producer, and the steps are the same.

Main results:

- Definition `Workflow.asText`: the workflow with its references spelled as texts.
- Theorem `Site.source_asText`: the producer behind an input.
- Theorem `Site.resolve_asText`: the effective producer.
- Theorem `Editor.compileSites_asText`: the steps.
-/

namespace NodeFlow

/-! ## Workflows -/

/-- The reference to a slot with the text of the node. -/
def PortRef.asText (r : PortRef) : PortRef := { r with node := r.node.asText }

/-- The group with its references spelled as texts, but for its inputs. -/
def Group.asText (x : Group) : Group :=
  { x with graph := x.graph.asText id, outputs := x.outputs.map PortRef.asText }

/-- The node with the references inside it spelled as texts. -/
abbrev Node.asText (n : Node Group) : Node Group := n.mapGroup Group.asText

/-- The workflow with its references spelled as texts. -/
abbrev Workflow.asText (g : Workflow) : Workflow := Graph.asText Group.asText g

namespace Subgraph

private theorem mapGroup_id (n : Node Empty) : n.mapGroup id = n := by
  have hkind : n.kind.mapGroup id = n.kind := by cases n.kind <;> rfl
  rw [Node.mapGroup, hkind]

variable (x : Subgraph)

/-- Another spelling of links leaves the nodes alone. -/
theorem nodes_asText : (Graph.asText id x).nodes = x.nodes := by
  rw [Graph.asText]
  exact (List.map_congr_left fun n _ => mapGroup_id n).trans (List.map_id' _)

/-- Another spelling of links leaves the nodes under their ids. -/
theorem at?_asText (i : NodeId) : (Graph.asText id x).at? i = x.at? i := by
  rw [Graph.at?, nodes_asText]
  rfl

private theorem planned_asText (hx : x.KeysNodup) : (Graph.asText id x).planned = x.planned := by
  rw [Graph.planned_asText id hx]
  have hsame : List.map (Node.mapGroup id) = (id : List (Node Empty) → List (Node Empty)) :=
    funext fun ns => (List.map_congr_left fun n _ => mapGroup_id n).trans (List.map_id' ns)
  rw [hsame]
  cases x.planned <;> rfl

private theorem lookup?_asText (v : Json) : (Graph.asText id x).lookup? v = x.lookup? v := by
  rw [Graph.lookup?_asText]
  have hsame : Node.mapGroup id = (id : Node Empty → Node Empty) := funext mapGroup_id
  rw [hsame]
  cases x.lookup? v with
  | error f => rfl
  | ok found => cases found <;> rfl

private theorem inLink?_asText (n : Node Empty) (slot : Int) :
    (Graph.asText id x).inLink? n slot = (x.inLink? n slot).map Link.asText := by
  rw [← Graph.inLink?_asText id, mapGroup_id]

end Subgraph

/-! ## Sites -/

namespace Site

/-- The site in the workflow with references spelled as texts. -/
def asText : Site → Site
  | outer n => outer n.asText
  | inner host x n => inner host.asText x.asText n

@[simp] theorem place_asText (s : Site) : s.asText.place = s.place := by cases s <;> rfl

@[simp] theorem id_asText (s : Site) : s.asText.id = s.id := by cases s <;> rfl

@[simp] theorem type_asText (s : Site) : s.asText.type = s.type := by cases s <;> rfl

@[simp] theorem title_asText (s : Site) : s.asText.title = s.title := by cases s <;> rfl

@[simp] theorem inputs_asText (s : Site) : s.asText.inputs = s.inputs := by cases s <;> rfl

@[simp] theorem widgets_asText (s : Site) : s.asText.widgets = s.widgets := by cases s <;> rfl

@[simp] theorem isVirtual_asText (s : Site) : s.asText.isVirtual = s.isVirtual := by
  cases s with
  | outer n => exact n.isVirtual_mapGroup _
  | inner host x n => rfl

@[simp] theorem isSkipped_asText (s : Site) : s.asText.isSkipped = s.isSkipped := by
  cases s <;> rfl

@[simp] theorem isBypassed_asText (s : Site) : s.asText.isBypassed = s.isBypassed := by
  cases s <;> rfl

@[simp] theorem passThrough?_asText (s : Site) (output : Int) :
    s.asText.passThrough? output = s.passThrough? output := by
  cases s with
  | outer n => exact n.passThrough?_mapGroup _ output
  | inner host x n => rfl

@[simp] theorem isEmitted_asText (s : Site) : s.asText.isEmitted = s.isEmitted := by
  rw [isEmitted, isEmitted, isVirtual_asText, isSkipped_asText]

@[simp] theorem isPassing_asText (s : Site) : s.asText.isPassing = s.isPassing := by
  rw [isPassing, isPassing, isVirtual_asText, isBypassed_asText]

private theorem nextInput?_asText (s : Site) (l : Link) (wanted : String) :
    s.asText.nextInput? l.asText wanted = s.nextInput? l wanted := by
  simp only [nextInput?, isVirtual_asText, passThrough?_asText, inputs_asText]
  rfl

end Site

/-- The producer and its link with references spelled as texts. -/
abbrev pairAsText : Site × Link → Site × Link := Prod.map Site.asText Link.asText

/-- The effective producer with references spelled as texts. -/
def Resolved.asText (r : Resolved) : Resolved := ⟨r.site.asText, r.slot, r.link.asText⟩

namespace Workflow

variable {g : Workflow}

private theorem DistinctKeys.of_mem_sites (h : DistinctKeys g) {host : Node Group} {x : Group}
    {n : Node Empty} (hs : Site.inner host x n ∈ sites g) : x.graph.KeysNodup := by
  rcases mem_sites_inner.1 hs with ⟨hhost, hx, -⟩
  exact h.inner host hhost x hx

/-- The sites inside a respelled group are the respelled sites. -/
theorem innerSites?_asText (h : DistinctKeys g) {n : Node Group} (hn : n ∈ g.nodes) :
    innerSites? n.asText = (innerSites? n).map (Option.map (List.map Site.asText)) := by
  rw [innerSites?, innerSites?, Node.group?_mapGroup]
  cases hgroup : n.group? with
  | none => rfl
  | some x =>
    have hplanned : x.asText.graph.planned = x.graph.planned :=
      Subgraph.planned_asText x.graph (h.inner n hn x hgroup)
    simp only [Option.map_some, hplanned]
    cases x.graph.planned with
    | error f => rfl
    | ok nodes =>
      simp only [Except.map, bind, Except.bind, pure, Except.pure, Option.map_some, List.map_map]
      rfl

/-! ## Producers -/

private theorem innerProducer?_asText {host : Node Group} {x : Group} (hx : x.graph.KeysNodup)
    (l : Link) : innerProducer? host.asText x.asText l.asText =
      (innerProducer? host x l).map (Option.map pairAsText) := by
  have hlength : x.asText.outputs.length = x.outputs.length := List.length_map _
  have hslot : l.asText.originSlot = l.originSlot := rfl
  rw [innerProducer?, innerProducer?, hlength, hslot]
  split
  · rfl
  · have hport : (position? x.outputs.length l.originSlot.val).bind (x.asText.outputs[·]?) =
        ((position? x.outputs.length l.originSlot.val).bind (x.outputs[·]?)).map PortRef.asText := by
      rw [Option.map_bind]
      refine congrArg _ (funext fun i => ?_)
      exact List.getElem?_map
    rw [hport]
    cases (position? x.outputs.length l.originSlot.val).bind (x.outputs[·]?) with
    | none => rfl
    | some port =>
      have hfound : x.asText.graph.find? port.asText.node = x.graph.find? port.node := by
        rw [PortRef.asText, Graph.find?, NodeId.toJson_asText, Group.asText, Subgraph.lookup?_asText,
          Graph.lookup?_spelling hx]
        rfl
      simp only [Option.map_some, hfound]
      cases x.graph.find? port.node with
      | error f => rfl
      | ok found => cases found <;> rfl

private theorem unwrap_asText (h : DistinctKeys g) {origin : Node Group}
    (horigin : origin ∈ g.nodes)
    (l : Link) : unwrap origin.asText l.asText = (unwrap origin l).map pairAsText := by
  have hmode : origin.asText.mode = origin.mode := rfl
  rw [unwrap, unwrap, Node.group?_mapGroup, hmode]
  cases hgroup : origin.group? with
  | none => rfl
  | some x =>
    simp only [Option.map_some]
    split
    · rw [innerProducer?_asText (h.inner origin horigin x hgroup)]
      cases innerProducer? origin x l with
      | error f => rfl
      | ok found => cases found <;> rfl
    · rfl

private theorem source_asText (h : DistinctKeys g) (n : Node Group) (slot : Int) :
    source g.asText n.asText slot = (source g n slot).map (Option.map pairAsText) := by
  rw [source, source, Graph.inLink?_asText]
  cases Graph.inLink? g n slot with
  | none => rfl
  | some l =>
    have horigin : Graph.lookup? g.asText l.asText.origin =
        (Graph.lookup? g l.origin).map (Option.map Node.asText) := by
      rw [Graph.lookup?_asText, Link.asText, Graph.lookup?_spelling h.outer]
    simp only [Option.map_some, horigin]
    cases hfound : Graph.lookup? g l.origin with
    | error f => rfl
    | ok found =>
      cases found with
      | none => rfl
      | some origin =>
        have hunwrap := unwrap_asText h (Graph.mem_of_lookup? hfound) l
        simp only [Except.map, Option.map_some, bind, Except.bind, hunwrap]
        cases unwrap origin l <;> rfl

end Workflow

namespace Site

open Workflow

variable {g : Workflow} {s : Site}

/-- An input has the same producer, whatever the spelling. -/
theorem source_asText (h : DistinctKeys g) (hs : s ∈ sites g) (slot : Int) :
    s.asText.source g.asText slot = (s.source g slot).map (Option.map pairAsText) := by
  cases s with
  | outer n => exact Workflow.source_asText h n slot
  | inner host x n =>
    have hx := h.of_mem_sites hs
    have hlink : x.asText.graph.inLink? n slot = (x.graph.inLink? n slot).map Link.asText :=
      Subgraph.inLink?_asText x.graph n slot
    rw [asText, source, source, hlink]
    cases x.graph.inLink? n slot with
    | some l =>
      have horigin : x.asText.graph.lookup? l.asText.origin = x.graph.lookup? l.origin := by
        rw [Group.asText, Subgraph.lookup?_asText, Link.asText, Graph.lookup?_spelling hx]
      simp only [Option.map_some, horigin]
      cases x.graph.lookup? l.origin with
      | error f => rfl
      | ok found => cases found <;> rfl
    | none =>
      have hinputs : x.asText.inputs = x.inputs := rfl
      simp only [Option.map_none, hinputs]
      cases x.inputs.findIdx? fun port => port.node == n.id && port.slot == slot with
      | none => rfl
      | some i =>
        simp only [Workflow.source_asText h host i]
        cases Workflow.source g host i with
        | error f => rfl
        | ok found => cases found <;> rfl

/-- The way through passing nodes is the same, by induction on how far it may still go. -/
theorem walk_asText (h : DistinctKeys g) {asker : NodeId} {slot : Int} {wanted : String}
    {left : Nat} (hops : Nat) (seen : List (NodeId × Int)) (hs : s ∈ sites g) (l : Link) :
    walk g.asText asker slot wanted left hops seen s.asText l.asText =
      (walk g asker slot wanted left hops seen s l).map (Option.map Resolved.asText) := by
  induction left generalizing hops seen s l with
  | zero =>
    rw [walk, walk, isPassing_asText]
    split <;> rfl
  | succ left ih =>
    rw [walk, walk, isPassing_asText, nextInput?_asText]
    split
    · rfl
    · dsimp only
      cases s.nextInput? l wanted with
      | none => rfl
      | some next =>
        simp only [source_asText h hs]
        cases hsource : s.source g next with
        | error f => rfl
        | ok found =>
          cases found with
          | none => rfl
          | some p =>
            rcases p with ⟨t, l'⟩
            simp only [Except.map, Option.map_some, bind, Except.bind, Prod.map, id_asText]
            have hslot : l'.asText.originSlot = l'.originSlot := rfl
            rw [hslot]
            split
            · rfl
            · exact ih _ _ (source_mem_sites hs hsource) l'

/-- An input has the same effective producer, whatever the spelling. -/
theorem resolve_asText (h : DistinctKeys g) (hs : s ∈ sites g) (maxHops : Int) (slot : Int) :
    s.asText.resolve g.asText maxHops slot =
      (s.resolve g maxHops slot).map (Option.map Resolved.asText) := by
  rw [resolve, resolve, source_asText h hs, inputs_asText, id_asText]
  cases hsource : s.source g slot with
  | error f => rfl
  | ok found =>
    cases found with
    | none => rfl
    | some p =>
      rcases p with ⟨t, l⟩
      simp only [Except.map, Option.map_some, bind, Except.bind, Prod.map, id_asText]
      split
      · rfl
      · exact walk_asText h _ _ (source_mem_sites hs hsource) l

/-! ## Steps -/

private theorem referenceOf_asText (r : Option Resolved) :
    referenceOf (r.map Resolved.asText) = referenceOf r := by
  cases r with
  | none => rfl
  | some r =>
    simp only [Option.map_some, referenceOf, Resolved.asText, isVirtual_asText, id_asText]

private theorem linkInputs_asText (h : DistinctKeys g) (hs : s ∈ sites g) (maxHops : Int) (i : Nat)
    (slots : List InputSlot) (inputs : Members) :
    linkInputs g.asText maxHops s.asText i slots inputs = linkInputs g maxHops s i slots inputs := by
  induction slots generalizing i inputs with
  | nil => rfl
  | cons slot slots ih =>
    rw [linkInputs, linkInputs, resolve_asText h hs]
    cases s.resolve g maxHops i with
    | error f => rfl
    | ok r =>
      simp only [Except.map, bind, Except.bind, referenceOf_asText, ih]

private theorem step_asText (h : DistinctKeys g) (hs : s ∈ sites g) (maxHops : Int) (titled : Bool)
    (sent : Members) : s.asText.step g.asText maxHops titled sent = s.step g maxHops titled sent := by
  rw [step, step, inputs_asText, linkInputs_asText h hs, type_asText, title_asText]

private theorem expand_asText (h : DistinctKeys g) (hs : s ∈ sites g) :
    s.asText.expand = s.expand.map (List.map asText) := by
  cases s with
  | inner host x n => rfl
  | outer n =>
    have hskipped : n.asText.isSkipped = n.isSkipped := rfl
    rw [asText, expand, expand, hskipped]
    split
    · rfl
    · rw [innerSites?_asText h (mem_sites_outer.1 hs)]
      cases innerSites? n with
      | error f => rfl
      | ok inner => cases inner <;> rfl

end Site

namespace Editor

open Workflow

variable {g : Workflow}

private theorem buildSteps_asText (h : DistinctKeys g) (maxHops : Int) (titled : Bool)
    {ss : List Site} (hss : ∀ s ∈ ss, s ∈ sites g) (output : Output) :
    buildSteps g.asText maxHops titled (ss.map Site.asText) output =
      buildSteps g maxHops titled ss output := by
  induction ss generalizing output with
  | nil => rfl
  | cons s ss ih =>
    have ih := ih fun t ht => hss t (List.mem_cons_of_mem s ht)
    simp only [List.map_cons, buildSteps, Site.isEmitted_asText, Site.id_asText, Site.widgets_asText,
      Site.step_asText h (hss s List.mem_cons_self), ih]

private theorem expandSteps_asText (h : DistinctKeys g) (maxHops : Int) (titled : Bool)
    {ns : List (Node Group)} (hns : ∀ n ∈ ns, n ∈ g.nodes) (output : Output) :
    expandSteps g.asText maxHops titled (ns.map fun n => .outer n.asText) output =
      expandSteps g maxHops titled (ns.map .outer) output := by
  induction ns generalizing output with
  | nil => rfl
  | cons n ns ih =>
    have hn := hns n List.mem_cons_self
    have ih := ih fun m hm => hns m (List.mem_cons_of_mem n hm)
    have hexpand : (Site.outer n.asText).expand = (Site.outer n).expand.map (List.map Site.asText) :=
      Site.expand_asText h (mem_sites_outer.2 hn)
    simp only [List.map_cons, expandSteps, hexpand, ih]
    cases hmet : (Site.outer n).expand with
    | error f => simp only [Except.map, Act.lift_error_bind]
    | ok met =>
      simp only [Except.map, Act.lift_ok_bind,
        buildSteps_asText h maxHops titled (mem_sites_of_expand hn hmet)]

/-- The steps do not depend on the spelling. -/
theorem compileSites_asText (h : DistinctKeys g) (maxHops : Int) (titled : Bool)
    (order : List NodeId) :
    compileSites g.asText maxHops titled ((order.filterMap (Graph.at? g.asText)).map .outer) =
      compileSites g maxHops titled ((order.filterMap (Graph.at? g)).map .outer) := by
  have hnodes : order.filterMap (Graph.at? g.asText) =
      (order.filterMap (Graph.at? g)).map Node.asText := by
    rw [List.map_filterMap]
    exact congrArg (List.filterMap · order) (funext fun id => Graph.at?_asText _ g id)
  have hmem : ∀ n ∈ order.filterMap (Graph.at? g), n ∈ g.nodes := by
    intro n hn
    rcases List.mem_filterMap.1 hn with ⟨id, -, hat⟩
    exact Graph.mem_of_at? hat
  rw [compileSites, compileSites, hnodes, List.map_map]
  exact congrArg (· >>= fun output => pure output.prune) (expandSteps_asText h maxHops titled hmem [])

end Editor

end NodeFlow
