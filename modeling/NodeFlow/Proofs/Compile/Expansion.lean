import NodeFlow.Proofs.Compile.Rank
import NodeFlow.Editor.Compile

/-!
# Expansion

The compiler walks through the nodes of a workflow in execution order, and through the nodes inside
a group in the place of the group, unless the group is skipped.  It meets every site that it should
exactly once, and the sites that it meets have ascending ranks.

Main results:

- Definitions `Workflow.expanded` and `Workflow.emitted`: the sites that a compilation should meet,
  and those among them that become steps.
- Theorem `Workflow.flatten_perm`: it meets these, each of them once.
- Theorem `Workflow.flatten_pairwise`: their ranks ascend.
-/

namespace NodeFlow

namespace Workflow

/-- The sites that a node stands for: itself if it is skipped or no group, else the nodes inside. -/
def behind (n : Node Group) : List Site :=
  if n.isSkipped then [.outer n]
  else
    match n.group? with
    | none => [.outer n]
    | some group => group.graph.nodes.map (Site.inner n group)

/-- The sites that the nodes of a workflow stand for. -/
def expanded (g : Workflow) : List Site := g.nodes.flatMap behind

/-- The sites that become steps. -/
def emitted (g : Workflow) : List Site := (expanded g).filter (·.isEmitted)

/-- A site that is met is a site of the workflow. -/
theorem mem_sites_of_mem_expanded {g : Workflow} {s : Site} (h : s ∈ expanded g) : s ∈ sites g := by
  rcases List.mem_flatMap.1 h with ⟨n, hn, hs⟩
  unfold behind at hs
  split at hs
  · rw [List.mem_singleton.1 hs]
    exact mem_sites_outer.2 hn
  · split at hs
    · rw [List.mem_singleton.1 hs]
      exact mem_sites_outer.2 hn
    · rename_i group hgroup
      rcases List.mem_map.1 hs with ⟨m, hm, rfl⟩
      exact mem_sites_inner.2 ⟨hn, hgroup, hm⟩

/-- A site that makes a step is a site of the workflow. -/
theorem mem_sites_of_mem_emitted {g : Workflow} {s : Site} (h : s ∈ emitted g) : s ∈ sites g :=
  mem_sites_of_mem_expanded (List.mem_filter.1 h).1

/-- The sites that are met come in the order of all sites. -/
theorem expanded_sublist (g : Workflow) : (expanded g).Sublist (sites g) := by
  refine List.Sublist.flatMap_right _ fun n _ => ?_
  unfold behind
  split
  · exact List.singleton_sublist.2 List.mem_cons_self
  · cases n.group? with
    | none => exact List.singleton_sublist.2 List.mem_cons_self
    | some group => exact List.sublist_cons_self _ _

/-- The sites of a workflow that are emitted have different keys, in any order. -/
theorem Keyed.emitted_keys_nodup {g : Workflow} (hkeyed : Keyed g) {sites : List Site}
    (hsites : sites.Perm (expanded g)) :
    ((sites.filter (·.isEmitted)).map (·.id.key)).Nodup := by
  have hall : ((expanded g).map (·.id.key)).Nodup := ((expanded_sublist g).map _).nodup hkeyed
  exact (List.filter_sublist.map _).nodup ((hsites.map _).nodup_iff.2 hall)

/-! ## One node -/

section Node

variable {n : Node Group} {met : List Site}

/-- Inside a group are its nodes, in their execution order. -/
theorem innerSites?_cases {n : Node Group} {inner : Option (List Site)}
    (h : innerSites? n = .ok inner) :
    (n.group? = none ∧ inner = none) ∨
      ∃ x order, n.group? = some x ∧ x.graph.plan = .ok order ∧
        inner = some ((order.filterMap x.graph.at?).map (Site.inner n x)) := by
  cases hgroup : n.group? with
  | none =>
    rw [innerSites?, hgroup] at h
    cases h
    exact .inl ⟨rfl, rfl⟩
  | some x =>
    rw [innerSites?, hgroup] at h
    rcases Fault.bind_eq_ok_iff.1 h with ⟨nodes, hnodes, h⟩
    rcases Fault.bind_eq_ok_iff.1 hnodes with ⟨order, horder, hnodes⟩
    cases hnodes
    cases h
    exact .inr ⟨x, order, rfl, horder, rfl⟩

/-- A node is met itself, or the nodes inside it are, in their execution order. -/
theorem expand_cases (h : (Site.outer n).expand = .ok met) :
    (met = [.outer n] ∧ behind n = [.outer n]) ∨
      ∃ group order, n.group? = some group ∧ group.graph.plan = .ok order ∧
        met = (order.filterMap group.graph.at?).map (Site.inner n group) ∧
        behind n = group.graph.nodes.map (Site.inner n group) := by
  simp only [Site.expand] at h
  split at h
  · rename_i hskipped
    cases h
    exact .inl ⟨rfl, by simp [behind, hskipped]⟩
  · rename_i hactive
    rcases Fault.bind_eq_ok_iff.1 h with ⟨inner, hinner, h⟩
    cases h
    rcases innerSites?_cases hinner with ⟨hgroup, rfl⟩ | ⟨group, order, hgroup, horder, rfl⟩
    · exact .inl ⟨rfl, by simp [behind, hactive, hgroup]⟩
    · exact .inr ⟨group, order, hgroup, horder, rfl, by simp [behind, hactive, hgroup]⟩

/-- What stands inside a group in any order is part of the workflow. -/
theorem mem_sites_of_mem_inner {g : Workflow} (hn : n ∈ g.nodes) {x : Group}
    (hgroup : n.group? = some x) {order : List NodeId} :
    ∀ s ∈ (order.filterMap x.graph.at?).map (Site.inner n x), s ∈ sites g := by
  intro s hs
  rcases List.mem_map.1 hs with ⟨m, hm, rfl⟩
  rcases List.mem_filterMap.1 hm with ⟨id, -, hat⟩
  exact mem_sites_inner.2 ⟨hn, hgroup, Graph.mem_of_at? hat⟩

/-- The sites that a node expands to are sites of the workflow. -/
theorem mem_sites_of_expand {g : Workflow} (hn : n ∈ g.nodes) (h : (Site.outer n).expand = .ok met) :
    ∀ s ∈ met, s ∈ sites g := by
  rcases expand_cases h with ⟨rfl, -⟩ | ⟨group, order, hgroup, -, rfl, -⟩
  · intro s hs
    rw [List.mem_singleton.1 hs]
    exact mem_sites_outer.2 hn
  · exact mem_sites_of_mem_inner hn hgroup

private theorem host_of_expand (h : (Site.outer n).expand = .ok met) : ∀ s ∈ met, s.host = n := by
  rcases expand_cases h with ⟨rfl, -⟩ | ⟨group, order, -, -, rfl, -⟩
  · intro s hs
    rw [List.mem_singleton.1 hs]
    rfl
  · intro s hs
    rcases List.mem_map.1 hs with ⟨m, -, rfl⟩
    rfl

private theorem expand_perm (hids : ∀ group, n.group? = some group →
    (group.graph.nodes.map (·.id)).Nodup) (h : (Site.outer n).expand = .ok met) :
    met.Perm (behind n) := by
  rcases expand_cases h with ⟨rfl, hbehind⟩ | ⟨group, order, hgroup, horder, rfl, hbehind⟩
  · rw [hbehind]
  · rw [hbehind]
    have hordered : Graph.Ordered group.graph := ⟨hids group hgroup, order, horder⟩
    exact (hordered.filterMap_plan_perm horder).map _

private theorem expand_pairwise (g : Workflow) (hids : ∀ group, n.group? = some group →
    (group.graph.nodes.map (·.id)).Nodup) (h : (Site.outer n).expand = .ok met) :
    met.Pairwise fun s t => s.rank g < t.rank g := by
  rcases expand_cases h with ⟨rfl, -⟩ | ⟨group, order, hgroup, horder, rfl, -⟩
  · exact List.pairwise_singleton _ _
  · have hordered : Graph.Ordered group.graph := ⟨hids group hgroup, order, horder⟩
    rw [List.pairwise_map]
    apply (hordered.filterMap_plan_pairwise horder).imp
    intro u v hlt
    exact Prod.Lex.toLex_lt_toLex.2 (.inr ⟨rfl, hlt⟩)

end Node

/-! ## All nodes -/

section Nodes

variable {g : Workflow} {ns : List (Node Group)} {met : List (List Site)}
  (hids : ∀ n ∈ ns, ∀ group, n.group? = some group → (group.graph.nodes.map (·.id)).Nodup)
  (hmet : List.Forall₂ (fun s sites => s.expand = .ok sites) (ns.map Site.outer) met)

include hids hmet

private theorem flatten_perm_behind : met.flatten.Perm (ns.flatMap behind) := by
  induction ns generalizing met with
  | nil =>
    cases hmet
    exact .nil
  | cons n ns ih =>
    cases hmet with
    | cons hfirst hrest =>
      rw [List.flatten_cons, List.flatMap_cons]
      exact (expand_perm (hids n List.mem_cons_self) hfirst).append
        (ih (fun m hm => hids m (List.mem_cons_of_mem n hm)) hrest)

omit hids in
private theorem host_mem_of_mem_flatten : ∀ s ∈ met.flatten, s.host ∈ ns := by
  induction ns generalizing met with
  | nil =>
    cases hmet
    simp
  | cons n ns ih =>
    cases hmet with
    | cons hfirst hrest =>
      intro s hs
      rcases List.mem_append.1 hs with hs | hs
      · rw [host_of_expand hfirst s hs]
        exact List.mem_cons_self
      · exact List.mem_cons_of_mem n (ih hrest s hs)

/-- Where the positions of nodes ascend, so do the ranks of the sites that they stand for. -/
theorem flatten_pairwise (hns : ns.Pairwise fun u v => g.position u.id < g.position v.id) :
    met.flatten.Pairwise fun s t => s.rank g < t.rank g := by
  induction ns generalizing met with
  | nil =>
    cases hmet
    exact .nil
  | cons n ns ih =>
    cases hmet with
    | cons hfirst hrest =>
      rcases List.pairwise_cons.1 hns with ⟨hbefore, hns⟩
      rw [List.flatten_cons]
      refine List.pairwise_append.2 ⟨expand_pairwise g (hids n List.mem_cons_self) hfirst,
        ih (fun m hm => hids m (List.mem_cons_of_mem n hm)) hrest hns, ?_⟩
      intro s hs t ht
      apply Site.rank_lt_of_host
      rw [host_of_expand hfirst s hs]
      exact hbefore _ (host_mem_of_mem_flatten hrest t ht)

end Nodes

/-- All sites that a workflow stands for are met, each of them once. -/
theorem flatten_perm {g : Workflow} (hids : ∀ n ∈ g.nodes, ∀ group, n.group? = some group →
    (group.graph.nodes.map (·.id)).Nodup) {ns : List (Node Group)} (hns : ns.Perm g.nodes)
    {met : List (List Site)}
    (hmet : List.Forall₂ (fun s sites => s.expand = .ok sites) (ns.map Site.outer) met) :
    met.flatten.Perm (expanded g) :=
  (flatten_perm_behind (fun n hn => hids n (hns.mem_iff.1 hn)) hmet).trans
    (hns.flatMap_right behind)

end Workflow

end NodeFlow
