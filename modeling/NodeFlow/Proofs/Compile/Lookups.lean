import NodeFlow.Proofs.Compile.Spelling
import NodeFlow.Proofs.Compile.Steps
import NodeFlow.Proofs.Order.Plan

/-!
# Workflows that answer lookups alike

Nodes and links are reached by lookups: of the origin of a link, of the link of an input, of the inner
node behind an output of a group.  Two workflows may hold the same nodes and links in different orders,
also inside their groups; as long as every lookup finds the same in both, the same producers stand
behind their inputs, the same nodes feed each other, and the steps of their sites are the same.

Main results:

- Structures `Graph.SameLookups` and `Workflow.SameLookups`: every lookup finds the same.
- Theorems `Graph.at?_eq_of_perm` and `Graph.link?_eq_of_perm`: lookups do not see the order.
- Theorem `Graph.SameLookups.plan_cases`: both graphs are ordered, or the same nodes are named.
- Definition `Site.across` and theorem `Site.step_across`: the step of a site in the other workflow.
- Theorem `Workflow.SameLookups.expanded_perm`: the sites that the workflows stand for.
-/

namespace NodeFlow

/-! ## Graphs -/

namespace Graph

variable {γ : Type} {g h : Graph γ}

/-- Every id finds the same node in both graphs, and every number the same link. -/
structure SameLookups (g h : Graph γ) : Prop where
  nodes : h.at? = g.at?
  links : h.link? = g.link?

/-- The order of nodes with different ids does not matter to who looks one up. -/
theorem at?_eq_of_perm (hnodes : h.nodes.Perm g.nodes) (hids : (g.nodes.map (·.id)).Nodup) :
    h.at? = g.at? := by
  funext id
  refine Option.ext fun n => ?_
  constructor
  · intro hn
    rw [← id_of_at? hn, at?_of_mem hids (hnodes.mem_iff.1 (mem_of_at? hn))]
  · intro hn
    rw [← id_of_at? hn,
      at?_of_mem ((hnodes.map _).nodup_iff.2 hids) (hnodes.mem_iff.2 (mem_of_at? hn))]

/-- The order of links with different numbers does not matter to who looks one up. -/
theorem link?_eq_of_perm (hlinks : h.links.Perm g.links)
    (hnumbers : (g.links.map (·.id.val)).Nodup) : h.link? = g.link? := by
  have hfound : ∀ {x : Graph γ} {k : Int} {l : Link}, x.link? k = some l →
      l ∈ x.links ∧ l.id.val = k := fun hl =>
    ⟨List.mem_of_find?_eq_some hl, by simpa using List.find?_some hl⟩
  funext k
  refine Option.ext fun l => ?_
  constructor
  · intro hl
    rcases hfound hl with ⟨hmem, rfl⟩
    exact link?_of_mem hnumbers (hlinks.mem_iff.1 hmem)
  · intro hl
    rcases hfound hl with ⟨hmem, rfl⟩
    exact link?_of_mem ((hlinks.map _).nodup_iff.2 hnumbers) (hlinks.mem_iff.2 hmem)

namespace SameLookups

variable (hsame : SameLookups g h)

include hsame

/-- The two graphs look up the same nodes. -/
theorem lookup?_eq : h.lookup? = g.lookup? := by
  funext v
  cases v <;> simp only [lookup?, hsame.nodes]

private theorem inLink?_eq : h.inLink? = g.inLink? := by
  funext n slot
  rw [inLink?, inLink?, hsame.links]

private theorem outLinks?_eq : h.outLinks? = g.outLinks? := by
  funext n slot
  rw [outLinks?, outLinks?, hsame.links]

private theorem targetsOf_eq : h.targetsOf = g.targetsOf := by
  funext ls
  induction ls with
  | nil => rfl
  | cons l ls ih => simp only [targetsOf, targetOf, hsame.lookup?_eq, ih]

private theorem targets_eq : h.targets = g.targets := by
  funext n
  rw [targets, targets, hsame.outLinks?_eq, hsame.targetsOf_eq]

/-- The two graphs have the same widget at a place. -/
theorem widgetAt?_eq : h.widgetAt? = g.widgetAt? := by
  funext c
  rw [widgetAt?, widgetAt?, hsame.nodes]

/-- The primitives of the two graphs push the same copies. -/
theorem copiesOf_eq : h.copiesOf = g.copiesOf := by
  have htell : h.tell = g.tell := by
    funext c
    rw [tell, tell, hsame.widgetAt?_eq]
  have htellAll : ∀ cs, h.tellAll cs = g.tellAll cs := by
    intro cs
    induction cs with
    | nil => rfl
    | cons c cs ih => rw [tellAll, tellAll, htell, ih]
  funext id
  simp only [copiesOf, hsame.nodes, hsame.targets_eq, htellAll]

private theorem feeds_eq : h.Feeds = g.Feeds := by
  funext u v
  simp only [Feeds, hsame.links, hsame.lookup?_eq]

/-! ### Nodes -/

section Nodes

variable (hg : (g.nodes.map (·.id)).Nodup) (hh : (h.nodes.map (·.id)).Nodup)

include hg hh

/-- The two graphs have the same nodes. -/
theorem mem_nodes_iff {n : Node γ} : n ∈ h.nodes ↔ n ∈ g.nodes := by
  constructor
  · intro hn
    have hat := at?_of_mem hh hn
    rw [hsame.nodes] at hat
    exact mem_of_at? hat
  · intro hn
    have hat := at?_of_mem hg hn
    rw [← hsame.nodes] at hat
    exact mem_of_at? hat

/-- Graphs of different ids that answer alike have the same nodes. -/
theorem nodes_perm : h.nodes.Perm g.nodes :=
  (List.perm_ext_iff_of_nodup hh.of_map hg.of_map).2 fun _ => hsame.mem_nodes_iff hg hh

private theorem originsReadable (hread : g.OriginsReadable) : h.OriginsReadable := by
  intro n hn slot hslot l hl
  rw [hsame.links] at hl
  rw [hsame.lookup?_eq]
  exact hread n ((hsame.mem_nodes_iff hg hh).1 hn) slot hslot l hl

/-- Both graphs can be ordered, or neither of them, and then the same nodes lie on circles or are
reached from one. -/
theorem plan_cases (hread : g.OriginsReadable) :
    (∃ order order', g.plan = .ok order ∧ h.plan = .ok order') ∨
      ∃ ids ids', g.plan = .error (.cyclic ids) ∧ h.plan = .error (.cyclic ids') ∧
        ids'.Perm ids := by
  classical
  rcases exists_schedule hg hread with ⟨ws, hws, s⟩
  rcases exists_schedule hh (hsame.originsReadable hg hh hread) with ⟨ws', hws', s'⟩
  have hfree : h.Acyclic ↔ g.Acyclic := by rw [Acyclic, Acyclic, hsame.feeds_eq]
  by_cases hacyclic : g.Acyclic
  · exact .inl ⟨_, _, plan_of_acyclic hws s hacyclic, plan_of_acyclic hws' s' (hfree.2 hacyclic)⟩
  · refine .inr ⟨_, _, plan_of_not_acyclic hws s hacyclic,
      plan_of_not_acyclic hws' s' fun hh' => hacyclic (hfree.1 hh'), ?_⟩
    have htrapped : h.Trapped = g.Trapped := by
      funext n
      rw [Trapped, Trapped, hsame.feeds_eq]
    have hcandidates : h.candidates.Perm g.candidates :=
      (h.candidates_perm.trans (hsame.nodes_perm hg hh)).trans g.candidates_perm.symm
    simp only [htrapped]
    exact (hcandidates.filter _).map _

end Nodes

end SameLookups

end Graph

/-! ## Workflows -/

/-- The node with what another workflow holds inside the group of its id. -/
def Node.across (h : Workflow) (n : Node Group) : Node Group :=
  n.mapGroup fun x => { x with graph := Workflow.innerGraph h n.id }

@[simp] theorem Node.group?_across (h : Workflow) (n : Node Group) :
    (n.across h).group? = n.group?.map fun x => { x with graph := Workflow.innerGraph h n.id } :=
  n.group?_mapGroup _

/-- Taking a node across to another workflow leaves alone what primitives look at. -/
theorem Node.isNominal_across (h : Workflow) : Graph.IsNominal (Node.across h) where
  id _ := rfl
  order _ := rfl
  inputs _ := rfl
  outputs _ := rfl
  isCutOff _ := rfl
  isPrimitive n := (Node.isNominal_mapGroup _).isPrimitive n
  widgets _ := rfl

/-- Every lookup finds the same in both workflows, in the workflows themselves and inside groups. -/
structure Workflow.SameLookups (g h : Workflow) : Prop where
  outer : Graph.SameLookups (g.mapNodes (Node.across h)) h
  inner : ∀ host, (Workflow.innerGraph g host).SameLookups (Workflow.innerGraph h host)

namespace Site

/-- The site in a workflow that answers lookups alike. -/
def across (h : Workflow) : Site → Site
  | outer n => outer (n.across h)
  | inner host x n => inner (host.across h) { x with graph := Workflow.innerGraph h host.id } n

variable (h : Workflow)

@[simp] theorem id_across (s : Site) : (s.across h).id = s.id := by cases s <;> rfl

@[simp] theorem type_across (s : Site) : (s.across h).type = s.type := by cases s <;> rfl

@[simp] theorem title_across (s : Site) : (s.across h).title = s.title := by cases s <;> rfl

@[simp] theorem inputs_across (s : Site) : (s.across h).inputs = s.inputs := by cases s <;> rfl

@[simp] theorem widgets_across (s : Site) : (s.across h).widgets = s.widgets := by cases s <;> rfl

@[simp] theorem isVirtual_across (s : Site) : (s.across h).isVirtual = s.isVirtual := by
  cases s with
  | outer n => exact n.isVirtual_mapGroup _
  | inner host x n => rfl

@[simp] theorem isSkipped_across (s : Site) : (s.across h).isSkipped = s.isSkipped := by
  cases s <;> rfl

@[simp] theorem isBypassed_across (s : Site) : (s.across h).isBypassed = s.isBypassed := by
  cases s <;> rfl

@[simp] theorem passThrough?_across (s : Site) (output : Int) :
    (s.across h).passThrough? output = s.passThrough? output := by
  cases s with
  | outer n => exact n.passThrough?_mapGroup _ output
  | inner host x n => rfl

@[simp] theorem isEmitted_across (s : Site) : (s.across h).isEmitted = s.isEmitted := by
  rw [isEmitted, isEmitted, isVirtual_across, isSkipped_across]

@[simp] theorem isPassing_across (s : Site) : (s.across h).isPassing = s.isPassing := by
  rw [isPassing, isPassing, isVirtual_across, isBypassed_across]

@[simp] theorem nextInput?_across (s : Site) (l : Link) (wanted : String) :
    (s.across h).nextInput? l wanted = s.nextInput? l wanted := by
  simp only [nextInput?, isVirtual_across, passThrough?_across, inputs_across]

end Site

/-- The producer in the other workflow and its link. -/
def Workflow.pairAcross (h : Workflow) (p : Site × Link) : Site × Link := (p.1.across h, p.2)

/-- The effective producer in the other workflow. -/
def Resolved.across (h : Workflow) (r : Resolved) : Resolved := { r with site := r.site.across h }

namespace Workflow

variable {g h : Workflow} (hsame : SameLookups g h)

section Lookups

include hsame

/-- The two workflows have corresponding nodes under an id. -/
theorem SameLookups.at?_eq (id : NodeId) : Graph.at? h id = (Graph.at? g id).map (Node.across h) := by
  rw [hsame.outer.nodes, Graph.at?_mapNodes (Node.isNominal_across h).toIsNeutral]

/-- The two workflows have the same links under a number. -/
theorem SameLookups.link?_eq : Graph.link? h = Graph.link? g := hsame.outer.links

/-- A value names corresponding nodes of the two workflows. -/
theorem SameLookups.lookup?_eq (v : Json) :
    Graph.lookup? h v = (Graph.lookup? g v).map (Option.map (Node.across h)) := by
  rw [hsame.outer.lookup?_eq, Graph.lookup?_mapNodes (Node.isNominal_across h).toIsNeutral]

private theorem SameLookups.inLink?_eq (n : Node Group) (slot : Int) :
    Graph.inLink? h (n.across h) slot = Graph.inLink? g n slot := by
  rw [hsame.outer.inLink?_eq]
  rfl

end Lookups

/-! ### Producers -/

section Producers

variable (hids : (g.nodes.map (·.id)).Nodup)

include hsame hids

/-- What is inside a group answers alike. -/
theorem SameLookups.group {host : Node Group} (hhost : host ∈ g.nodes) {x : Group}
    (hx : host.group? = some x) : x.graph.SameLookups (innerGraph h host.id) := by
  rw [← innerGraph_of_mem hids hhost hx]
  exact hsame.inner host.id

private theorem innerProducer?_across {host : Node Group} (hhost : host ∈ g.nodes) {x : Group}
    (hx : host.group? = some x) (l : Link) :
    innerProducer? (host.across h) { x with graph := innerGraph h host.id } l =
      (innerProducer? host x l).map (Option.map (pairAcross h)) := by
  rw [innerProducer?, innerProducer?]
  split
  · rfl
  · cases (position? x.outputs.length l.originSlot.val).bind (x.outputs[·]?) with
    | none => rfl
    | some port =>
      simp only [Graph.find?, (hsame.group hids hhost hx).lookup?_eq]
      cases x.graph.lookup? port.node.toJson with
      | error f => rfl
      | ok found => cases found <;> rfl

private theorem unwrap_across {origin : Node Group} (horigin : origin ∈ g.nodes) (l : Link) :
    unwrap (origin.across h) l = (unwrap origin l).map (pairAcross h) := by
  have hmode : (origin.across h).mode = origin.mode := rfl
  rw [unwrap, unwrap, Node.group?_across, hmode]
  cases hgroup : origin.group? with
  | none => rfl
  | some x =>
    simp only [Option.map_some]
    split
    · rw [innerProducer?_across hsame hids horigin hgroup]
      cases innerProducer? origin x l with
      | error f => rfl
      | ok found => cases found <;> rfl
    · rfl

private theorem source_across (n : Node Group) (slot : Int) :
    source h (n.across h) slot = (source g n slot).map (Option.map (pairAcross h)) := by
  rw [source, source, hsame.inLink?_eq]
  cases Graph.inLink? g n slot with
  | none => rfl
  | some l =>
    simp only [hsame.lookup?_eq]
    cases hfound : Graph.lookup? g l.origin with
    | error f => rfl
    | ok found =>
      cases found with
      | none => rfl
      | some origin =>
        have hunwrap := unwrap_across hsame hids (Graph.mem_of_lookup? hfound) l
        simp only [Except.map, Option.map_some, bind, Except.bind, hunwrap]
        cases unwrap origin l <;> rfl

end Producers

end Workflow

namespace Site

open Workflow

variable {g h : Workflow} (hsame : SameLookups g h) (hids : (g.nodes.map (·.id)).Nodup) {s : Site}
  (hs : s ∈ sites g)

include hsame hids hs

/-- The same producer stands behind an input. -/
theorem source_across (slot : Int) :
    (s.across h).source h slot = (s.source g slot).map (Option.map (pairAcross h)) := by
  cases s with
  | outer n => exact Workflow.source_across hsame hids n slot
  | inner host x n =>
    rcases mem_sites_inner.1 hs with ⟨hhost, hgroup, -⟩
    have hinner := hsame.group hids hhost hgroup
    rw [across, source, source, hinner.inLink?_eq]
    cases x.graph.inLink? n slot with
    | some l =>
      simp only [hinner.lookup?_eq]
      cases x.graph.lookup? l.origin with
      | error f => rfl
      | ok found => cases found <;> rfl
    | none =>
      dsimp only
      cases x.inputs.findIdx? fun port => port.node == n.id && port.slot == slot with
      | none => rfl
      | some i =>
        simp only [Workflow.source_across hsame hids host i]
        cases Workflow.source g host i with
        | error f => rfl
        | ok found => cases found <;> rfl

/-- The way through passing nodes is the same, by induction on how far it may still go. -/
theorem walk_across {asker : NodeId} {slot : Int} {wanted : String} {left : Nat} (hops : Nat)
    (seen : List (NodeId × Int)) (l : Link) :
    walk h asker slot wanted left hops seen (s.across h) l =
      (walk g asker slot wanted left hops seen s l).map (Option.map (Resolved.across h)) := by
  induction left generalizing hops seen s l with
  | zero =>
    rw [walk, walk, isPassing_across]
    split <;> rfl
  | succ left ih =>
    rw [walk, walk, isPassing_across, nextInput?_across]
    split
    · rfl
    · dsimp only
      cases s.nextInput? l wanted with
      | none => rfl
      | some next =>
        simp only [source_across hsame hids hs]
        cases hsource : s.source g next with
        | error f => rfl
        | ok found =>
          cases found with
          | none => rfl
          | some p =>
            rcases p with ⟨t, l'⟩
            simp only [Except.map, Option.map_some, bind, Except.bind, pairAcross, id_across]
            split
            · rfl
            · exact ih (source_mem_sites hs hsource) _ _ l'

/-- An input has the same effective producer. -/
theorem resolve_across (maxHops : Int) (slot : Int) :
    (s.across h).resolve h maxHops slot =
      (s.resolve g maxHops slot).map (Option.map (Resolved.across h)) := by
  rw [resolve, resolve, source_across hsame hids hs, inputs_across, id_across]
  cases hsource : s.source g slot with
  | error f => rfl
  | ok found =>
    cases found with
    | none => rfl
    | some p =>
      rcases p with ⟨t, l⟩
      simp only [Except.map, Option.map_some, bind, Except.bind, pairAcross, id_across]
      split
      · rfl
      · exact walk_across hsame hids (source_mem_sites hs hsource) _ _ l

private theorem linkInputs_across (maxHops : Int) (i : Nat) (slots : List InputSlot)
    (inputs : Members) :
    linkInputs h maxHops (s.across h) i slots inputs = linkInputs g maxHops s i slots inputs := by
  have hreference : ∀ r : Option Resolved,
      referenceOf (r.map (Resolved.across h)) = referenceOf r := by
    intro r
    cases r with
    | none => rfl
    | some r => simp only [Option.map_some, referenceOf, Resolved.across, isVirtual_across, id_across]
  induction slots generalizing i inputs with
  | nil => rfl
  | cons slot slots ih =>
    rw [linkInputs, linkInputs, resolve_across hsame hids hs]
    cases s.resolve g maxHops i with
    | error f => rfl
    | ok r => simp only [Except.map, bind, Except.bind, hreference, ih]

/-- A site has the same step. -/
theorem step_across (maxHops : Int) (titled : Bool) (sent : Members) :
    (s.across h).step h maxHops titled sent = s.step g maxHops titled sent := by
  rw [step, step, inputs_across, linkInputs_across hsame hids hs, type_across, title_across]

/-- A site and the one that corresponds to it are built alike. -/
theorem isBuilt_across_iff {maxHops : Int} {titled : Bool} {m : String × Step} :
    (s.across h).IsBuilt h maxHops titled m ↔ s.IsBuilt g maxHops titled m := by
  rw [IsBuilt, IsBuilt, id_across, step_across hsame hids hs, literals, widgets_across]
  rfl

end Site

/-! ## All sites -/

namespace Workflow

variable {g h : Workflow} (hsame : SameLookups g h) (hg : Distinct g) (hh : Distinct h)

include hsame hg hh

/-- The other workflow holds the nodes in some order. -/
theorem SameLookups.nodes_perm : h.nodes.Perm (g.nodes.map (Node.across h)) := by
  refine hsame.outer.nodes_perm ?_ hh.outer
  rw [Graph.ids_mapNodes (Node.isNominal_across h).toIsNeutral]
  exact hg.outer

/-- The nodes of the second workflow correspond to those of the first one. -/
theorem SameLookups.mem_nodes_iff {n' : Node Group} :
    n' ∈ h.nodes ↔ ∃ n ∈ g.nodes, n.across h = n' := by
  rw [(hsame.nodes_perm hg hh).mem_iff, List.mem_map]

/-- A group of the other workflow is the one under its id, with other contents. -/
theorem SameLookups.exists_group {n' : Node Group} (hn' : n' ∈ h.nodes) {x' : Group}
    (hx' : n'.group? = some x') : ∃ n ∈ g.nodes, ∃ x, n.group? = some x ∧ n.across h = n' ∧
      x.inputs = x'.inputs ∧ x.outputs = x'.outputs ∧ x.graph.SameLookups x'.graph ∧
      (x.graph.nodes.map (·.id)).Nodup ∧ (x'.graph.nodes.map (·.id)).Nodup := by
  rcases (hsame.mem_nodes_iff hg hh).1 hn' with ⟨n, hn, rfl⟩
  have hmap := hx'
  rw [Node.group?_across, Option.map_eq_some_iff] at hmap
  rcases hmap with ⟨x, hx, rfl⟩
  exact ⟨n, hn, x, hx, rfl, rfl, rfl, hsame.group hg.outer hn hx, hg.inner n hn x hx,
    hh.inner _ hn' _ hx'⟩

private theorem SameLookups.inside_perm {n : Node Group} (hn : n ∈ g.nodes) {x : Group}
    (hx : n.group? = some x) : ((innerGraph h n.id).nodes.map
      (Site.inner (n.across h) { x with graph := innerGraph h n.id })).Perm
      ((x.graph.nodes.map (Site.inner n x)).map (Site.across h)) := by
  have hinner := (hsame.group hg.outer hn hx).nodes_perm (hg.inner n hn x hx) (hh.innerGraph n.id)
  rw [List.map_map]
  exact hinner.map _

/-- The sites of the other workflow, in some order. -/
theorem SameLookups.sites_perm : (sites h).Perm ((sites g).map (Site.across h)) := by
  rw [sites, sites, List.map_flatMap]
  refine ((hsame.nodes_perm hg hh).flatMap_right _).trans ?_
  rw [List.flatMap_map]
  refine .flatMap_left _ fun n hn => ?_
  rw [Node.group?_across]
  cases hgroup : n.group? with
  | none => exact .refl _
  | some x => exact .cons _ (hsame.inside_perm hg hh hn hgroup)

/-- Whether all keys are distinct does not depend on the order of nodes. -/
theorem SameLookups.keyed (hkeyed : Keyed g) : Keyed h := by
  have hkeys := (hsame.sites_perm hg hh).map (·.id.key)
  rw [List.map_map] at hkeys
  refine hkeys.nodup_iff.2 ?_
  simp only [Function.comp_def, Site.id_across]
  exact hkeyed

private theorem SameLookups.behind_perm {n : Node Group} (hn : n ∈ g.nodes) :
    (behind (n.across h)).Perm ((behind n).map (Site.across h)) := by
  have hskipped : (n.across h).isSkipped = n.isSkipped := rfl
  unfold behind
  rw [hskipped, Node.group?_across]
  split
  · exact .refl _
  · cases hgroup : n.group? with
    | none => exact .refl _
    | some x => exact hsame.inside_perm hg hh hn hgroup

/-- The sites that the other workflow stands for, in some order. -/
theorem SameLookups.expanded_perm : (expanded h).Perm ((expanded g).map (Site.across h)) := by
  rw [expanded, expanded, List.map_flatMap]
  refine ((hsame.nodes_perm hg hh).flatMap_right behind).trans ?_
  rw [List.flatMap_map]
  exact .flatMap_left _ fun n hn => hsame.behind_perm hg hh hn

end Workflow

end NodeFlow
