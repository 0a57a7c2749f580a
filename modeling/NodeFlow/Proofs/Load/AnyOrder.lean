import NodeFlow.Proofs.Compile.Lookups
import NodeFlow.Proofs.Load.Ready

/-!
# Primitives that are finished in any order

Primitives get their widgets one after the other, each from the first widget that it is linked to.
Links lead to nodes with inputs.  Where primitives have none, no primitive sees another one, so each of
them becomes the same whichever of them come before it, and workflows that answer lookups alike still
do when their primitives are finished.

Main results:

- Definition `Node.goal` and structure `Graph.SameGoals`: what links can lead to.
- Theorems `Graph.SameGoals.finished_eq` and `Graph.forall₂_of_sweep`: a node is finished the same way in
  every graph with the same goals, and so are nodes one after the other.
- Type `Node.Shuffled` and theorem `Workflow.sameLookups_iff`: nodes with other contents.
- Theorems `Workflow.SameLookups.finish` and `Workflow.SameLookups.patch`: workflows that answer alike.
-/

namespace NodeFlow

/-! ## Goals of links -/

section Goals

variable {γ : Type}

/-- What a link to the node can lead to: its inputs, and its widgets if it has inputs. -/
def Node.goal (n : Node γ) : NodeId × List InputSlot × List Widget :=
  (n.id, n.inputs, if n.inputs.isEmpty then [] else n.widgets)

section Node

variable {n m : Node γ} (hgoal : m.goal = n.goal)

include hgoal

private theorem Node.inputs_of_goal : m.inputs = n.inputs := congrArg (·.2.1) hgoal

private theorem Node.widgets_of_goal (hne : n.inputs ≠ []) : m.widgets = n.widgets := by
  have hwidgets := congrArg (·.2.2) hgoal
  simpa [goal, inputs_of_goal hgoal, hne] using hwidgets

end Node

namespace Graph

private theorem reachedFrom_of_goal {n m : Node γ} (hgoal : m.goal = n.goal) (l : Link) :
    reachedFrom l m = reachedFrom l n := by
  have hid : m.id = n.id := congrArg (·.1) hgoal
  by_cases hne : n.inputs = []
  · simp [reachedFrom, Node.inputs_of_goal hgoal, hne]
  · rw [reachedFrom, reachedFrom, hid, Node.inputs_of_goal hgoal, Node.widgets_of_goal hgoal hne]

/-- Links lead to the same in both graphs. -/
structure SameGoals (g h : Graph γ) : Prop where
  nodes : ∀ id, (h.at? id).map Node.goal = (g.at? id).map Node.goal
  links : h.link? = g.link?

variable {g h : Graph γ}

/-- A node that is looked up stands under its own id. -/
theorem at?_of_lookup? {v : Json} {n : Node γ} (hfound : g.lookup? v = .ok (some n)) :
    g.at? n.id = some n := by
  have hself : ∀ {id : NodeId}, g.at? id = some n → g.at? n.id = some n := by
    intro id hat
    rw [id_of_at? hat]
    exact hat
  unfold lookup? at hfound
  split at hfound
  · cases hfound
  · cases hfound
  · split at hfound
    · rename_i m hat
      rcases Option.bind_eq_some_iff.1 hat with ⟨id, -, hid⟩
      cases hfound
      exact hself hid
    · rcases Fault.bind_eq_ok_iff.1 hfound with ⟨other, -, hother⟩
      cases other with
      | none => cases hother
      | some id => exact hself (Except.ok.inj hother)

/-- The widget that a primitive takes its own from belongs to a node with inputs. -/
theorem inputs_ne_nil_of_targets {n node : Node γ} {places : List (NodeId × Nat)}
    (hplaces : g.targets n = .ok places) {c : NodeId × Nat} (hc : c ∈ places)
    (hat : g.at? c.1 = some node) : node.inputs ≠ [] := by
  rcases mem_targets hplaces hc with ⟨_, -, l, -, htarget⟩
  rcases targetOf_eq_some htarget with ⟨m, slot, name, hm, hslot, -, hid, -⟩
  rcases Option.bind_eq_some_iff.1 hslot with ⟨i, -, hi⟩
  have hself := at?_of_lookup? hm
  rw [hid, hat] at hself
  cases hself
  exact List.ne_nil_of_mem (List.mem_of_getElem? hi)

/-- What a primitive sees of the widget that it takes its own from. -/
def seen (e : Node γ × Widget) : List InputSlot × List Widget × Widget :=
  (e.1.inputs, e.1.widgets, e.2)

private theorem map_filled_eq (g : Graph γ) (n : Node γ) (pending : List Json) :
    (g.model? n).map (filled n pending) = ((g.model? n).map (Option.map seen)).map fun e? =>
      (e?.map fun e =>
        filled n pending (some ({ n with inputs := e.1, widgets := e.2.1 }, e.2.2))).getD n := by
  cases g.model? n with
  | error f => rfl
  | ok found => cases found <;> rfl

namespace SameGoals

variable (hsame : SameGoals g h)

include hsame

private theorem targets_eq (n : Node γ) : h.targets n = g.targets n := by
  have htargets : h.targetsOf = g.targetsOf := by
    funext ls
    refine targetsOf_congr (fun l => ?_) ls
    exact targetOf_congr hsame.nodes fun _ _ hgoal => reachedFrom_of_goal hgoal l
  rw [targets, targets, outLinks?, outLinks?, hsame.links, htargets]

/-- A primitive takes its widgets from the same widget, of a node with the same slots and widgets. -/
theorem model?_eq (n : Node γ) :
    (h.model? n).map (Option.map seen) = (g.model? n).map (Option.map seen) := by
  rw [model?, model?, hsame.targets_eq]
  cases hplaces : g.targets n with
  | error f => rfl
  | ok places =>
    refine congrArg Except.ok ?_
    cases places with
    | nil => rfl
    | cons c places =>
      simp only [List.head?_cons, Option.bind_some, widgetAt?]
      have hgoal := hsame.nodes c.1
      cases hn : g.at? c.1 with
      | none =>
        rw [hn, Option.map_none, Option.map_eq_none_iff] at hgoal
        rw [hgoal]
      | some node =>
        rw [hn] at hgoal
        rcases Option.map_eq_some_iff.1 hgoal with ⟨node', hn', hgoal⟩
        have hne := inputs_ne_nil_of_targets hplaces List.mem_cons_self hn
        have hwidgets := Node.widgets_of_goal hgoal hne
        rw [hn']
        simp only [Option.bind_eq_bind, Option.bind_some, hwidgets]
        cases node.widgets[c.2]? with
        | none => rfl
        | some w =>
          simp only [Option.bind_some, Option.map_some, pure, seen, Node.inputs_of_goal hgoal,
            hwidgets]

/-- A node is finished the same way in graphs with the same goals. -/
theorem finished_eq (n : Node γ) : h.finished n = g.finished n := by
  by_cases hprimitive : n.kind.isPrimitive = true
  · rcases Kind.isPrimitive_iff.1 hprimitive with ⟨pending, hkind⟩
    by_cases hwidgets : n.widgets = []
    · rw [Graph.finished_eq hkind hwidgets, Graph.finished_eq hkind hwidgets, map_filled_eq,
        hsame.model?_eq, ← map_filled_eq]
    · simp [finished, hkind, hwidgets]
  · rw [Bool.not_eq_true] at hprimitive
    rw [finished_of_not_primitive hprimitive, finished_of_not_primitive hprimitive]

end SameGoals

/-! ## Sweeps -/

section Sweep

variable {f : Graph γ → Node γ → Except Fault (Node γ)}

/-- The nodes of a list look the same for links as those of the graph. -/
theorem sameGoals_of_map {nodes : List (Node γ)}
    (hgoals : nodes.map Node.goal = g.nodes.map Node.goal) : SameGoals g { g with nodes } where
  nodes id := by
    have hfind : ∀ ns : List (Node γ), (ns.find? (·.id == id)).map Node.goal =
        (ns.map Node.goal).find? (·.1 == id) := by
      intro ns
      rw [List.find?_map]
      rfl
    rw [at?, at?, hfind, hfind, hgoals]
  links := rfl

/-- Where a computation reads goals only and keeps them, a sweep does the same to each node as if it
were the first one. -/
theorem forall₂_of_sweep (hread : ∀ h, SameGoals g h → ∀ n, f h n = f g n)
    (hkeep : ∀ n ∈ g.nodes, ∀ n', f g n = .ok n' → n'.goal = n.goal)
    (hids : (g.nodes.map (·.id)).Nodup) (hid : ∀ g n n', f g n = .ok n' → n'.id = n.id)
    {g' : Graph γ} (hsweep : sweep f g (g.nodes.map (·.id)) = .ok g') :
    List.Forall₂ (fun n n' => f g n = .ok n') g.nodes g'.nodes ∧ g'.links = g.links := by
  have hswept : ∀ {front ns ns' : List (Node γ)}, Swept f g front ns ns' →
      (front ++ ns).map Node.goal = g.nodes.map Node.goal → (∀ n ∈ ns, n ∈ g.nodes) →
        List.Forall₂ (fun n n' => f g n = .ok n') ns ns' := by
    intro front ns ns' hswept
    induction hswept with
    | nil => exact fun _ _ => .nil
    | @cons front ns ns' n n' hnode _ ih =>
      intro hgoals hmem
      rw [hread _ (sameGoals_of_map hgoals)] at hnode
      refine .cons hnode (ih ?_ fun m hm => hmem m (List.mem_cons_of_mem n hm))
      have hgoal := hkeep n (hmem n List.mem_cons_self) n' hnode
      simpa [hgoal] using hgoals
  rcases (sweep_eq_ok_iff hid (List.nil_append g.nodes).symm hids).1 hsweep with ⟨ns', hns', rfl⟩
  exact ⟨hswept hns' rfl fun _ hn => hn, rfl⟩

/-- A node that each of the nodes became is found under the id of that node. -/
theorem at?_of_forall₂ {f : Node γ → Except Fault (Node γ)} (hid : ∀ n n', f n = .ok n' → n'.id = n.id)
    {g' : Graph γ} (hnodes : List.Forall₂ (fun n n' => f n = .ok n') g.nodes g'.nodes) (id : NodeId) :
    g'.at? id = (g.at? id).bind fun n => (f n).toOption := by
  have hfind : ∀ {ns ns' : List (Node γ)}, List.Forall₂ (fun n n' => f n = .ok n') ns ns' →
      ns'.find? (·.id == id) = (ns.find? (·.id == id)).bind fun n => (f n).toOption := by
    intro ns ns' hns
    induction hns with
    | nil => rfl
    | @cons n n' _ _ hn _ ih =>
      rw [List.find?_cons, List.find?_cons, hid n n' hn]
      split
      · rw [Option.bind_some, hn]
        rfl
      · exact ih
  exact hfind hnodes

private theorem exists_mem_of_forall₂ {α β : Type} {R : α → β → Prop} {xs : List α} {ys : List β}
    (h : List.Forall₂ R xs ys) : ∀ x ∈ xs, ∃ y ∈ ys, R x y := by
  induction h with
  | nil => exact fun _ hx => absurd hx List.not_mem_nil
  | cons hxy _ ih =>
    refine List.forall_mem_cons.2 ⟨⟨_, List.mem_cons_self, hxy⟩, fun x hx => ?_⟩
    rcases ih x hx with ⟨y, hy, hR⟩
    exact ⟨y, List.mem_cons_of_mem _ hy, hR⟩

private theorem link?_of_links_eq {x y : Graph γ} (hlinks : x.links = y.links) :
    x.link? = y.link? := by
  funext id
  rw [link?, link?, hlinks]

/-- No primitive has inputs. -/
def HasSources (g : Graph γ) : Prop := ∀ n ∈ g.nodes, n.kind.isPrimitive = true → n.inputs = []

/-- Finishing keeps the slots and the kind of a node, and the widgets if it is no primitive. -/
theorem kept_of_finished {n n' : Node γ} (hfinished : g.finished n = .ok n') :
    n'.id = n.id ∧ n'.inputs = n.inputs ∧ n'.kind.isPrimitive = n.kind.isPrimitive ∧
      (n.kind.isPrimitive = false → n' = n) := by
  by_cases hprimitive : n.kind.isPrimitive = true
  · rcases Kind.isPrimitive_iff.1 hprimitive with ⟨pending, hkind⟩
    have hplain : n.kind.isPrimitive = false → n' = n := fun hplain => by
      rw [hprimitive] at hplain
      cases hplain
    by_cases hwidgets : n.widgets = []
    · rw [Graph.finished_eq hkind hwidgets] at hfinished
      rcases Fault.map_eq_ok_iff.1 hfinished with ⟨found, -, rfl⟩
      have hkept := isPrimitive_filled hprimitive (pending.getD []) found
      refine ⟨?_, ?_, hkept.trans hprimitive.symm, hplain⟩ <;> cases found <;> rfl
    · have hself : g.finished n = .ok n := by simp [finished, hkind, hwidgets]
      rw [hself] at hfinished
      cases hfinished
      exact ⟨rfl, rfl, rfl, hplain⟩
  · rw [Bool.not_eq_true] at hprimitive
    rw [finished_of_not_primitive hprimitive] at hfinished
    cases hfinished
    exact ⟨rfl, rfl, rfl, fun _ => rfl⟩

private theorem goal_finished {n n' : Node γ} (hsource : n.kind.isPrimitive = true → n.inputs = [])
    (hfinished : g.finished n = .ok n') : n'.goal = n.goal := by
  rcases kept_of_finished hfinished with ⟨hid, hinputs, -, hplain⟩
  cases hprimitive : n.kind.isPrimitive with
  | true => simp [Node.goal, hid, hinputs, hsource hprimitive]
  | false => rw [hplain hprimitive]

/-- No primitive had inputs if none has any after all of them have been finished. -/
theorem HasSources.of_finishAll (hids : (g.nodes.map (·.id)).Nodup) {g' : Graph γ}
    (hfinish : g.finishAll (g.nodes.map (·.id)) = .ok g') (hsources : g'.HasSources) :
    g.HasSources := by
  rw [finishAll_eq_sweep] at hfinish
  rcases (sweep_eq_ok_iff (fun _ _ _ => id_finished) (List.nil_append g.nodes).symm hids).1 hfinish
    with ⟨ns', hswept, rfl⟩
  intro n hn hprimitive
  rcases exists_mem_of_forall₂ hswept.forall₂ n hn with ⟨n', hn', h, hfinished⟩
  rcases kept_of_finished hfinished with ⟨-, hinputs, hkind, -⟩
  rw [← hinputs]
  exact hsources n' hn' (hkind.trans hprimitive)

private theorem HasSources.of_mapNodes {f : Node γ → Node γ} (hf : IsNominal f)
    (hsources : (g.mapNodes f).HasSources) : g.HasSources := by
  intro n hn hprimitive
  rw [← hf.inputs]
  exact hsources (f n) (List.mem_map_of_mem hn) ((hf.isPrimitive n).trans hprimitive)

private theorem SameLookups.sameGoals (hsame : SameLookups g h) : SameGoals g h :=
  ⟨fun id => by rw [hsame.nodes], hsame.links⟩

private theorem forall₂_of_finishAll (hids : (g.nodes.map (·.id)).Nodup) (hsources : g.HasSources)
    {g' : Graph γ} (hfinish : g.finishAll (g.nodes.map (·.id)) = .ok g') :
    List.Forall₂ (fun n n' => g.finished n = .ok n') g.nodes g'.nodes ∧ g'.links = g.links := by
  rw [finishAll_eq_sweep] at hfinish
  exact forall₂_of_sweep (fun _ hsame n => hsame.finished_eq n)
    (fun n hn _ hfinished => goal_finished (hsources n hn) hfinished) hids
    (fun _ _ _ => id_finished) hfinish

/-- Graphs that answer alike still do when their primitives have been finished. -/
theorem SameLookups.finishAll (hsame : SameLookups g h) (hg : (g.nodes.map (·.id)).Nodup)
    (hh : (h.nodes.map (·.id)).Nodup) (hsources : g.HasSources) {g' h' : Graph γ}
    (hfinish : g.finishAll (g.nodes.map (·.id)) = .ok g')
    (hfinish' : h.finishAll (h.nodes.map (·.id)) = .ok h') : SameLookups g' h' := by
  rcases forall₂_of_finishAll hg hsources hfinish with ⟨hnodes, hlinks⟩
  rcases forall₂_of_finishAll hh (fun n hn => hsources n ((hsame.mem_nodes_iff hg hh).1 hn))
    hfinish' with ⟨hnodes', hlinks'⟩
  refine ⟨funext fun id => ?_, ?_⟩
  · rw [at?_of_forall₂ (fun _ _ => id_finished) hnodes', hsame.nodes,
      at?_of_forall₂ (fun _ _ => id_finished) hnodes]
    exact congrArg _ (funext fun n => by rw [hsame.sameGoals.finished_eq])
  · rw [link?_of_links_eq hlinks', hsame.links, link?_of_links_eq hlinks]

end Sweep

/-- Graphs that answer alike still do when all nodes are changed in the same way. -/
theorem SameLookups.mapNodes (hsame : SameLookups g h) {f : Node γ → Node γ} (hf : IsNeutral f) :
    SameLookups (g.mapNodes f) (h.mapNodes f) where
  nodes := by
    funext id
    rw [at?_mapNodes hf, at?_mapNodes hf, hsame.nodes]
  links := hsame.links

end Graph

end Goals

/-! ## Nodes with other contents -/

/-- The second node is the first one with another graph inside that answers lookups alike. -/
inductive Node.Shuffled (n : Node Group) : Node Group → Prop
  | mk (inner : Subgraph) (h : ∀ x, n.group? = some x → x.graph.SameLookups inner) :
    Shuffled n (n.onGroup fun _ => inner)

namespace Node.Shuffled

variable {n m : Node Group} (h : n.Shuffled m)

include h

private theorem eq_of_none (hnone : n.group? = none) : m = n := by
  cases h
  exact Node.onGroup_of_none _ hnone

private theorem exists_group {x : Group} (hx : n.group? = some x) :
    ∃ inner, x.graph.SameLookups inner ∧ m = n.onGroup fun _ => inner := by
  cases h with
  | mk inner h => exact ⟨inner, h x hx, rfl⟩

private theorem id : m.id = n.id := by
  cases h
  exact Node.id_onGroup _ n

private theorem goal : m.goal = n.goal := by
  cases h
  unfold Node.onGroup
  split <;> rfl

end Node.Shuffled

/-- A node that is no group is shuffled by staying as it is. -/
theorem Node.shuffled_of_none {n : Node Group} (hnone : n.group? = none) : n.Shuffled n := by
  have hself := Shuffled.mk (n := n) {} fun x hx => by rw [hnone] at hx; cases hx
  rwa [Node.onGroup_of_none _ hnone] at hself

private theorem Node.across_eq (h : Workflow) (n : Node Group) :
    n.across h = n.onGroup fun _ => Workflow.innerGraph h n.id := by
  unfold across mapGroup onGroup
  cases hkind : n.kind <;> simp only [Kind.mapGroup]
  all_goals rw [← hkind]

namespace Workflow

variable {g h : Workflow}

/-- Under each id both workflows have nodes, of which the second is the first one with contents that
answer alike, or neither has. -/
def ShuffledNodes (g h : Workflow) : Prop :=
  ∀ id, (Graph.at? g id = none ∧ Graph.at? h id = none) ∨
    ∃ n m, Graph.at? g id = some n ∧ Graph.at? h id = some m ∧ n.Shuffled m

/-- Nodes that are shuffled one by one are shuffled as a workflow. -/
theorem shuffledNodes_of_forall₂ (hnodes : List.Forall₂ Node.Shuffled g.nodes h.nodes) :
    ShuffledNodes g h := by
  intro id
  have hfind : ∀ {ns ms : List (Node Group)}, List.Forall₂ Node.Shuffled ns ms →
      (ns.find? (·.id == id) = none ∧ ms.find? (·.id == id) = none) ∨ ∃ n m,
        ns.find? (·.id == id) = some n ∧ ms.find? (·.id == id) = some m ∧ n.Shuffled m := by
    intro ns ms hns
    induction hns with
    | nil => exact .inl ⟨rfl, rfl⟩
    | @cons n m _ _ hn _ ih =>
      rw [List.find?_cons, List.find?_cons, hn.id]
      split
      · exact .inr ⟨n, m, rfl, rfl, hn⟩
      · exact ih
  exact hfind hnodes

/-- Workflows answer alike if and only if their nodes do. -/
theorem sameLookups_iff :
    SameLookups g h ↔ ShuffledNodes g h ∧ Graph.link? h = Graph.link? g := by
  constructor
  · intro hsame
    refine ⟨fun id => ?_, hsame.link?_eq⟩
    have hat := hsame.at?_eq id
    cases hn : Graph.at? g id with
    | none => exact .inl ⟨rfl, by rw [hat, hn, Option.map_none]⟩
    | some n =>
      refine .inr ⟨n, n.across h, rfl, by rw [hat, hn, Option.map_some], ?_⟩
      rw [Node.across_eq]
      refine .mk _ fun x hx => ?_
      have hinner := hsame.inner id
      rw [innerGraph_of_at? hn hx] at hinner
      rw [Graph.id_of_at? hn]
      exact hinner
  · rintro ⟨hnodes, hlinks⟩
    refine ⟨⟨funext fun id => ?_, hlinks⟩, fun host => ?_⟩
    · rw [Graph.at?_mapNodes (Node.isNominal_across h).toIsNeutral]
      rcases hnodes id with ⟨hn, hm⟩ | ⟨n, m, hn, hm, hshuffled⟩
      · rw [hn, hm, Option.map_none]
      · rw [hn, hm, Option.map_some, Node.across_eq, Graph.id_of_at? hn]
        cases hgroup : n.group? with
        | none => rw [hshuffled.eq_of_none hgroup, Node.onGroup_of_none _ hgroup]
        | some x =>
          rcases hshuffled.exists_group hgroup with ⟨inner, -, rfl⟩
          have hinside : (n.onGroup fun _ => inner).group? = some { x with graph := inner } := by
            rw [Node.group?_onGroup, hgroup, Option.map_some]
          rw [innerGraph_of_at? hm hinside]
    · have hempty : ∀ {x : Workflow}, (Graph.at? x host).bind Node.group? = none →
          innerGraph x host = {} := by
        intro x hx
        rw [innerGraph, hx]
        rfl
      rcases hnodes host with ⟨hn, hm⟩ | ⟨n, m, hn, hm, hshuffled⟩
      · rw [hempty (by rw [hn]; rfl), hempty (by rw [hm]; rfl)]
        exact ⟨rfl, rfl⟩
      · cases hgroup : n.group? with
        | none =>
          rw [hshuffled.eq_of_none hgroup] at hm
          rw [hempty (by rw [hn]; exact hgroup), hempty (by rw [hm]; exact hgroup)]
          exact ⟨rfl, rfl⟩
        | some x =>
          rcases hshuffled.exists_group hgroup with ⟨inner, hinner, rfl⟩
          have hinside : (n.onGroup fun _ => inner).group? = some { x with graph := inner } := by
            rw [Node.group?_onGroup, hgroup, Option.map_some]
          rw [innerGraph_of_at? hn hgroup, innerGraph_of_at? hm hinside]
          exact hinner

/-! ## Finishing and patching -/

/-- No primitive has inputs, neither in the workflow nor inside groups. -/
structure HasSources (g : Workflow) : Prop where
  outer : Graph.HasSources g
  inner : ∀ n ∈ g.nodes, ∀ x, n.group? = some x → x.graph.HasSources

/-- Where no primitive has inputs once a workflow is finished, none had before. -/
theorem HasSources.of_finish (hdistinct : Distinct g) {g' : Workflow} (hfinish : finish g = .ok g')
    (hsources : HasSources g') : HasSources g := by
  rw [finish_eq_sweep] at hfinish
  rcases (Graph.sweep_eq_ok_iff (fun _ _ _ => id_finishedDeep) (List.nil_append g.nodes).symm
    hdistinct.outer).1 hfinish with ⟨ns', hswept, rfl⟩
  have hmade := Graph.exists_mem_of_forall₂ hswept.forall₂
  refine ⟨fun n hn hprimitive => ?_, fun n hn x hx => ?_⟩
  · rcases hmade n hn with ⟨n', hn', h, hfinished⟩
    have hnone : n.group? = none := by
      cases hgroup : n.group? with
      | none => rfl
      | some x =>
        rw [Node.isPrimitive_of_group? hgroup] at hprimitive
        cases hprimitive
    simp only [finishedDeep, hnone] at hfinished
    rcases Graph.kept_of_finished hfinished with ⟨-, hinputs, hkind, -⟩
    rw [← hinputs]
    exact hsources.outer n' hn' (hkind.trans hprimitive)
  · rcases hmade n hn with ⟨n', hn', h, hfinished⟩
    simp only [finishedDeep, hx] at hfinished
    rcases Fault.map_eq_ok_iff.1 hfinished with ⟨inner, hinner, rfl⟩
    refine Graph.HasSources.of_finishAll (hdistinct.inner n hn x hx) hinner ?_
    exact hsources.inner _ hn' { x with graph := inner } (by
      rw [Node.group?_onGroup, hx, Option.map_some])

/-- Where no primitive has inputs once names are replaced, none had before. -/
theorem HasSources.of_patch (hdistinct : Distinct g) {reset : Bool}
    (hsources : HasSources (patch reset g)) : HasSources g := by
  rw [patch_eq hdistinct] at hsources
  refine ⟨Graph.HasSources.of_mapNodes (Graph.isNominal_patchDeep reset) hsources.outer,
    fun n hn x hx => ?_⟩
  have hsome : (n.patch reset).group? = some x := hx
  refine Graph.HasSources.of_mapNodes (Graph.isNominal_patch reset) ?_
  exact hsources.inner _ (List.mem_map_of_mem hn)
    { x with graph := x.graph.mapNodes (Node.patch reset) } (by
      rw [Node.patchDeep, Node.group?_onGroup, hsome, Option.map_some])

private theorem finishedDeep_eq (hgoals : Graph.SameGoals g h) (n : Node Group) :
    finishedDeep h n = finishedDeep g n := by
  unfold finishedDeep
  cases n.group? with
  | none => exact hgoals.finished_eq n
  | some x => rfl

private theorem goal_finishedDeep {n n' : Node Group}
    (hsource : n.kind.isPrimitive = true → n.inputs = [])
    (hfinished : finishedDeep g n = .ok n') : n'.goal = n.goal := by
  unfold finishedDeep at hfinished
  split at hfinished
  · exact Graph.goal_finished hsource hfinished
  · rename_i x hx
    rcases Fault.map_eq_ok_iff.1 hfinished with ⟨inner, -, rfl⟩
    rw [Node.onGroup_of_group? _ hx]
    rfl

private theorem forall₂_of_finish (hdistinct : Distinct g) (hsources : HasSources g) {g' : Workflow}
    (hfinish : finish g = .ok g') :
    List.Forall₂ (fun n n' => finishedDeep g n = .ok n') g.nodes g'.nodes ∧ g'.links = g.links := by
  rw [finish_eq_sweep] at hfinish
  exact Graph.forall₂_of_sweep (fun _ hsame n => finishedDeep_eq hsame n)
    (fun n hn _ hfinished => goal_finishedDeep (hsources.outer n hn) hfinished) hdistinct.outer
    (fun _ _ _ => id_finishedDeep) hfinish

private theorem at?_finish (hdistinct : Distinct g) (hsources : HasSources g) {g' : Workflow}
    (hfinish : finish g = .ok g') (id : NodeId) :
    (Graph.at? g id = none → Graph.at? g' id = none) ∧ ∀ n, Graph.at? g id = some n →
      ∃ n', Graph.at? g' id = some n' ∧ finishedDeep g n = .ok n' := by
  rcases forall₂_of_finish hdistinct hsources hfinish with ⟨hnodes, -⟩
  have hat := Graph.at?_of_forall₂ (fun _ _ => id_finishedDeep) hnodes id
  refine ⟨fun hn => by rw [hat, hn]; rfl, fun n hn => ?_⟩
  rcases Graph.exists_mem_of_forall₂ hnodes n (Graph.mem_of_at? hn) with ⟨n', -, hn'⟩
  refine ⟨n', ?_, hn'⟩
  rw [hat, hn, Option.bind_some, hn']
  rfl

/-- Contents that answer alike still do when they have been finished. -/
theorem shuffled_finishedDeep (hgoals : Graph.SameGoals g h) {n m n' m' : Node Group}
    (hshuffled : n.Shuffled m)
    (hn : ∀ x, n.group? = some x → (x.graph.nodes.map (·.id)).Nodup ∧ x.graph.HasSources)
    (hm : ∀ x, m.group? = some x → (x.graph.nodes.map (·.id)).Nodup)
    (hfinished : finishedDeep g n = .ok n') (hfinished' : finishedDeep h m = .ok m') :
    n'.Shuffled m' := by
  cases hgroup : n.group? with
  | none =>
    rw [hshuffled.eq_of_none hgroup, finishedDeep_eq hgoals, hfinished, Except.ok.injEq] at hfinished'
    rw [← hfinished']
    refine Node.shuffled_of_none ?_
    simp only [finishedDeep, hgroup] at hfinished
    exact (Graph.group?_finished hfinished).trans hgroup
  | some x =>
    rcases hshuffled.exists_group hgroup with ⟨inner, hinner, rfl⟩
    have hinside : (n.onGroup fun _ => inner).group? = some { x with graph := inner } := by
      rw [Node.group?_onGroup, hgroup, Option.map_some]
    simp only [finishedDeep, hgroup] at hfinished
    simp only [finishedDeep, hinside] at hfinished'
    rcases Fault.map_eq_ok_iff.1 hfinished with ⟨y, hy, rfl⟩
    rcases Fault.map_eq_ok_iff.1 hfinished' with ⟨y', hy', rfl⟩
    rcases hn x hgroup with ⟨hids, hsources⟩
    have hsame := hinner.finishAll hids (hm _ hinside) hsources hy hy'
    have hagain := Node.Shuffled.mk (n := n.onGroup fun _ => y) y' fun z hz => by
      rw [Node.group?_onGroup, hgroup, Option.map_some, Option.some.injEq] at hz
      rw [← hz]
      exact hsame
    rw [Node.onGroup_onGroup] at hagain ⊢
    exact hagain

private theorem shuffled_patchDeep {n m : Node Group} {reset : Bool} (hshuffled : n.Shuffled m) :
    (n.patchDeep reset).Shuffled (m.patchDeep reset) := by
  cases hgroup : n.group? with
  | none =>
    rw [hshuffled.eq_of_none hgroup]
    refine Node.shuffled_of_none ?_
    have hnone : (n.patch reset).group? = none := hgroup
    rw [Node.patchDeep, Node.group?_onGroup, hnone, Option.map_none]
  | some x =>
    rcases hshuffled.exists_group hgroup with ⟨inner, hinner, rfl⟩
    have hpatch : (n.onGroup fun _ => inner).patch reset = (n.patch reset).onGroup fun _ => inner := by
      rw [Node.onGroup_of_group? _ hgroup, Node.onGroup_of_group? (n := n.patch reset) _ hgroup]
      rfl
    have hagain := Node.Shuffled.mk (n := n.patchDeep reset) (inner.mapNodes (Node.patch reset))
      fun y hy => by
        have hsome : (n.patch reset).group? = some x := hgroup
        rw [Node.patchDeep, Node.group?_onGroup, hsome, Option.map_some, Option.some.injEq] at hy
        rw [← hy]
        exact hinner.mapNodes (Graph.isNominal_patch reset).toIsNeutral
    rw [Node.patchDeep, Node.onGroup_onGroup] at hagain
    rw [Node.patchDeep, Node.patchDeep, hpatch, Node.onGroup_onGroup]
    exact hagain

namespace SameLookups

variable (hsame : SameLookups g h) (hg : Distinct g) (hh : Distinct h)

include hsame hg hh

private theorem hasSources (hsources : HasSources g) : HasSources h := by
  refine ⟨fun m hm hprimitive => ?_, fun m hm x' hx' => ?_⟩
  · rcases (hsame.mem_nodes_iff hg hh).1 hm with ⟨n, hn, rfl⟩
    rw [(Node.isNominal_across h).isPrimitive] at hprimitive
    exact hsources.outer n hn hprimitive
  · rcases hsame.exists_group hg hh hm hx' with ⟨n, hn, x, hx, -, -, -, hinner, hids, hids'⟩
    exact fun k hk => hsources.inner n hn x hx k ((hinner.mem_nodes_iff hids hids').1 hk)

/-- Workflows that answer alike still do when their primitives have been finished. -/
theorem finish (hsources : HasSources g) {g' h' : Workflow} (hfinish : finish g = .ok g')
    (hfinish' : Workflow.finish h = .ok h') : SameLookups g' h' := by
  have hsources' := hsame.hasSources hg hh hsources
  rcases sameLookups_iff.1 hsame with ⟨hnodes, hlinks⟩
  have hgoals : Graph.SameGoals g h := by
    refine ⟨fun id => ?_, hlinks⟩
    rcases hnodes id with ⟨hn, hm⟩ | ⟨n, m, hn, hm, hshuffled⟩
    · rw [hn, hm]
    · rw [hn, hm, Option.map_some, Option.map_some, hshuffled.goal]
  refine sameLookups_iff.2 ⟨fun id => ?_, ?_⟩
  · have hfinished := at?_finish hg hsources hfinish id
    have hfinished' := at?_finish hh hsources' hfinish' id
    rcases hnodes id with ⟨hn, hm⟩ | ⟨n, m, hn, hm, hshuffled⟩
    · exact .inl ⟨hfinished.1 hn, hfinished'.1 hm⟩
    · rcases hfinished.2 n hn with ⟨n', hn', hnode⟩
      rcases hfinished'.2 m hm with ⟨m', hm', hnode'⟩
      have hmem := Graph.mem_of_at? hn
      exact .inr ⟨n', m', hn', hm', shuffled_finishedDeep hgoals hshuffled
        (fun x hx => ⟨hg.inner n hmem x hx, hsources.inner n hmem x hx⟩)
        (hh.inner m (Graph.mem_of_at? hm)) hnode hnode'⟩
  · rcases forall₂_of_finish hg hsources hfinish with ⟨-, hkept⟩
    rcases forall₂_of_finish hh hsources' hfinish' with ⟨-, hkept'⟩
    rw [Graph.link?_of_links_eq hkept', hlinks, Graph.link?_of_links_eq hkept]

/-- Workflows that answer alike still do when outdated values of widgets have been replaced. -/
theorem patch (reset : Bool) : SameLookups (patch reset g) (Workflow.patch reset h) := by
  rcases sameLookups_iff.1 hsame with ⟨hnodes, hlinks⟩
  have hneutral := (Graph.isNominal_patchDeep reset).toIsNeutral
  rw [patch_eq hg, patch_eq hh]
  refine sameLookups_iff.2 ⟨fun id => ?_, hlinks⟩
  rw [Graph.at?_mapNodes hneutral, Graph.at?_mapNodes hneutral]
  rcases hnodes id with ⟨hn, hm⟩ | ⟨n, m, hn, hm, hshuffled⟩
  · exact .inl ⟨by rw [hn]; rfl, by rw [hm]; rfl⟩
  · exact .inr ⟨_, _, by rw [hn]; rfl, by rw [hm]; rfl, shuffled_patchDeep hshuffled⟩

end SameLookups

end Workflow

end NodeFlow
