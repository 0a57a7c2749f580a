import NodeFlow.Proofs.Compile.Turns
import NodeFlow.Proofs.Edit.Detour

/-!
# The order with a detour

A reroute that is put into a link waits for the origin of the link, and the target waits for it.  So the
planner accepts the workflow with the reroute if and only if it accepts the workflow without it, and the
order that it gives holds the other nodes after all those that they wait for.

Main results:

- Theorem `Graph.exists_plan_of_rank`: what ranks along links say about the planner.
- Theorems `Detour.Fits.feeds_apply` and `Detour.Fits.feeds_of_apply`: which nodes feed others.
- Theorem `Detour.Fits.exists_plan_apply_iff`: the planner accepts both workflows or none.
- Theorems `Workflow.timely_of_plan` and `Detour.Fits.timely_apply`: the order of a workflow is timely,
  and so is that of the workflow with the reroute.
-/

namespace NodeFlow

/-! ## Ranks -/

namespace Graph

variable {γ : Type} {g : Graph γ}

/-- A graph has no circles where a rank grows along all links. -/
theorem acyclic_of_rank {r : NodeId → ℕ}
    (hr : ∀ u, ∀ v ∈ g.nodes, g.Feeds u v → r u.id < r v.id) :
    g.Acyclic := by
  have hgrows : ∀ u v, Relation.TransGen g.Feeds u v → v ∈ g.nodes → r u.id < r v.id := by
    intro u v hreach
    induction hreach with
    | single hfeeds => exact fun hv => hr _ _ hv hfeeds
    | tail _ hfeeds ih => exact fun hv => (ih hfeeds.mem_left).trans (hr _ _ hv hfeeds)
  intro n hcircle
  exact lt_irrefl _ (hgrows n n hcircle (mem_left_of_transGen hcircle))

/-- The planner accepts a graph where a rank grows along all links. -/
theorem exists_plan_of_rank (hids : (g.nodes.map (·.id)).Nodup) (hread : g.OriginsReadable)
    {r : NodeId → ℕ} (hr : ∀ u, ∀ v ∈ g.nodes, g.Feeds u v → r u.id < r v.id) :
    ∃ order, g.plan = .ok order := by
  rcases exists_schedule hids hread with ⟨ws, hws, hschedule⟩
  exact ⟨_, plan_of_acyclic hws hschedule (acyclic_of_rank hr)⟩

private theorem originsReadable_iff :
    g.OriginsReadable ↔ ∀ n ∈ g.nodes, ∀ j l, g.heldLink? n j = some l →
    ∃ found, g.lookup? l.origin = .ok found := by
  constructor
  · intro hread n hn j l hl
    rcases Option.bind_eq_some_iff.1 hl with ⟨k, hk, hl⟩
    rcases Option.bind_eq_some_iff.1 hk with ⟨slot, hslot, hk⟩
    exact hread n hn slot (List.mem_of_getElem? hslot) l (by rw [hk, Option.bind_some, hl])
  · intro hread n hn slot hslot l hl
    rcases List.getElem?_of_mem hslot with ⟨j, hj⟩
    exact hread n hn j l (by rw [heldLink?, hj, Option.bind_some, hl])

end Graph

/-! ## Rows of turns along links -/

namespace Workflow

variable {g : Workflow} {order : List NodeId}

/-- A row of turns is timely if nodes have theirs after those that feed them. -/
theorem timely_of_feeds (hlinked : Graph.IsLinked g) (hnodup : order.Nodup)
    (hall : ∀ n ∈ g.nodes, n.id ∈ order)
    (hfeeds : ∀ u, ∀ v ∈ g.nodes, Graph.Feeds g u v → order.idxOf u.id < order.idxOf v.id) :
    Timely g order := by
  refine ⟨hnodup, hall, fun id k hpushes => ?_⟩
  generalize hplace : Place.outer id = place at hpushes
  cases hpushes with
  | inner hpushes => cases hplace
  | @outer id c hpushes =>
    cases hplace
    rcases Graph.exists_feeds_of_pushesTo hlinked hpushes with ⟨n, t, rfl, ht, hid, hfed⟩
    have hlt := hfeeds n t ht hfed
    rw [hid] at hlt
    exact hlt

/-- The order of a workflow is timely. -/
theorem timely_of_plan (hids : (g.nodes.map (·.id)).Nodup) (hlinked : Graph.IsLinked g)
    (horder : Graph.plan g = .ok order) : Timely g order := by
  have hordered : Graph.Ordered g := ⟨hids, order, horder⟩
  refine timely_of_feeds hlinked (hordered.plan_nodup horder) (fun n hn => ?_) fun u v hv hfeeds => ?_
  · exact (hordered.plan_perm horder).mem_iff.2 (List.mem_map_of_mem hn)
  · rw [← Graph.position_eq horder, ← Graph.position_eq horder]
    exact hordered.position_lt hv hfeeds

end Workflow

namespace Detour

open NodeFlow.Graph

variable {d : Detour} {g : Workflow}

/-! ## Nodes that feed others -/

/-- The nodes after a detour are the rewired ones and the reroute. -/
theorem mem_apply_nodes {x : Node Group} :
    x ∈ (d.apply g).nodes ↔ (∃ n ∈ g.nodes, d.rewire n = x) ∨ x = d.node := by
  rw [apply, List.mem_append, List.mem_map, List.mem_singleton]

namespace Replaces

variable {l : Link} {o t n : Node Group} (h : d.Replaces g l o t)

include h

private theorem feeds : g.Feeds o t := feeds_iff.2 ⟨d.entry, l, h.heldLink?, h.origin⟩

end Replaces

namespace Fits

variable (h : d.Fits g)

include h

/-- A detour leaves the ids distinct. -/
theorem nodup_ids_apply : ((d.apply g).nodes.map (·.id)).Nodup := by
  rw [ids_apply, ← List.concat_eq_append, List.nodup_concat, List.mem_map]
  exact ⟨fun ⟨n, hn, hid⟩ => h.ne_of_mem hn hid, h.ids⟩

section Ends

variable {l : Link} {o t : Node Group} (ht : d.Replaces g l o t)

include ht

private theorem feeds_node : (d.apply g).Feeds (d.rewire o) d.node :=
  feeds_iff.2 ⟨0, d.first, h.heldLink?_node, h.lookup?_first ht⟩

private theorem node_feeds : (d.apply g).Feeds d.node (d.rewire t) := by
  refine feeds_iff.2 ⟨d.entry, d.second, ?_, h.lookup?_second⟩
  rw [h.heldLink?_apply ht.mem, if_pos ⟨ht.targetId, rfl⟩]

end Ends

/-- Nodes that fed others still do, directly or through the reroute. -/
theorem feeds_apply {u v : Node Group} (hv : v ∈ g.nodes) (hfeeds : g.Feeds u v) :
    (d.apply g).Feeds (d.rewire u) (d.rewire v) ∨
      (d.apply g).Feeds (d.rewire u) d.node ∧ (d.apply g).Feeds d.node (d.rewire v) := by
  rcases feeds_iff.1 hfeeds with ⟨j, k, hk, hu⟩
  have hheld := h.heldLink?_apply hv j
  split at hheld
  · rename_i hslot
    rcases h.replaces with ⟨l, o, t, ht⟩
    have hv := h.eq_target ht hv hslot.1
    rw [hv, hslot.2, ht.heldLink?, Option.some.injEq] at hk
    rw [← hk, ht.origin, Except.ok.injEq, Option.some.injEq] at hu
    rw [← hu, hv]
    exact .inr ⟨h.feeds_node ht, h.node_feeds ht⟩
  · refine .inl (feeds_iff.2 ⟨j, k, hheld.trans hk, ?_⟩)
    rw [d.lookup?_apply (h.uncaught k (mem_of_heldLink? hk)).1, hu]
    rfl

/-- Nodes feed others that did so before, or one of the two is the reroute. -/
theorem feeds_of_apply {x y : Node Group} (hy : y ∈ (d.apply g).nodes)
    (hfeeds : (d.apply g).Feeds x y) :
    (∃ u, ∃ v ∈ g.nodes, d.rewire u = x ∧ d.rewire v = y ∧ g.Feeds u v) ∨
      x.id = d.origin ∧ y = d.node ∨ x = d.node ∧ y.id = d.target := by
  rcases feeds_iff.1 hfeeds with ⟨j, k, hk, hx⟩
  rcases mem_apply_nodes.1 hy with ⟨v, hv, rfl⟩ | rfl
  · rw [h.heldLink?_apply hv] at hk
    split at hk
    · rename_i hslot
      cases hk
      rw [h.lookup?_second, Except.ok.injEq, Option.some.injEq] at hx
      exact .inr (.inr ⟨hx.symm, hslot.1⟩)
    · rw [d.lookup?_apply (h.uncaught k (mem_of_heldLink? hk)).1] at hx
      rcases Fault.map_eq_ok_iff.1 hx with ⟨found, hfound, hsome⟩
      rcases Option.map_eq_some_iff.1 hsome with ⟨u, hu, hux⟩
      rw [hu] at hfound
      exact .inl ⟨u, v, hv, hux, rfl, feeds_iff.2 ⟨j, k, hk, hfound⟩⟩
  · rw [d.heldLink?_node] at hk
    split at hk
    · rcases h.replaces with ⟨l, o, t, ht⟩
      rw [h.link?_first, Option.some.injEq] at hk
      rw [← hk, h.lookup?_first ht, Except.ok.injEq, Option.some.injEq] at hx
      exact .inr (.inl ⟨by rw [← hx, id_rewire, ht.originId], rfl⟩)
    · cases hk

/-! ## Orders -/

private theorem originsReadable_apply (hread : g.OriginsReadable) :
    (d.apply g).OriginsReadable := by
  rw [originsReadable_iff] at hread ⊢
  intro x hx j k hk
  rcases mem_apply_nodes.1 hx with ⟨n, hn, rfl⟩ | rfl
  · rw [h.heldLink?_apply hn] at hk
    split at hk
    · cases hk
      exact ⟨_, h.lookup?_second⟩
    · rcases hread n hn j k hk with ⟨found, hfound⟩
      refine ⟨found.map d.rewire, ?_⟩
      rw [d.lookup?_apply (h.uncaught k (mem_of_heldLink? hk)).1, hfound]
      rfl
  · rw [d.heldLink?_node] at hk
    split at hk
    · rcases h.replaces with ⟨l, o, t, ht⟩
      rw [h.link?_first, Option.some.injEq] at hk
      exact ⟨_, hk ▸ h.lookup?_first ht⟩
    · cases hk

private theorem originsReadable_of_apply (hread : (d.apply g).OriginsReadable) :
    g.OriginsReadable := by
  rw [originsReadable_iff] at hread ⊢
  intro n hn j k hk
  have hheld := h.heldLink?_apply hn j
  split at hheld
  · rename_i hslot
    rcases h.replaces with ⟨l, o, t, ht⟩
    rw [h.eq_target ht hn hslot.1, hslot.2, ht.heldLink?, Option.some.injEq] at hk
    exact ⟨_, hk ▸ ht.origin⟩
  · rcases hread (d.rewire n) (mem_apply_nodes.2 (.inl ⟨n, hn, rfl⟩)) j k (hheld.trans hk) with
      ⟨found, hfound⟩
    rw [d.lookup?_apply (h.uncaught k (mem_of_heldLink? hk)).1] at hfound
    rcases Fault.map_eq_ok_iff.1 hfound with ⟨found, hfound, -⟩
    exact ⟨found, hfound⟩

/-- With the reroute, nodes come after those that fed them without it. -/
theorem position_lt (hordered : (d.apply g).Ordered) {u v : Node Group} (hv : v ∈ g.nodes)
    (hfeeds : g.Feeds u v) : (d.apply g).position u.id < (d.apply g).position v.id := by
  have hmem : d.rewire v ∈ (d.apply g).nodes := mem_apply_nodes.2 (.inl ⟨v, hv, rfl⟩)
  rcases h.feeds_apply hv hfeeds with hdirect | ⟨hfirst, hsecond⟩
  · have hlt := hordered.position_lt hmem hdirect
    exact hlt
  · have hlt := (hordered.position_lt (mem_apply_nodes.2 (.inr rfl)) hfirst).trans
      (hordered.position_lt hmem hsecond)
    exact hlt

/-- The planner accepts the workflow with the reroute if and only if it accepts the one without it. -/
theorem exists_plan_apply_iff :
    (∃ order, (d.apply g).plan = .ok order) ↔ ∃ order, g.plan = .ok order := by
  constructor
  · intro hplan
    have hordered : (d.apply g).Ordered := ⟨h.nodup_ids_apply, hplan⟩
    exact exists_plan_of_rank h.ids (h.originsReadable_of_apply hordered.originsReadable)
      fun u v hv hfeeds => h.position_lt hordered hv hfeeds
  · intro hplan
    have hordered : Graph.Ordered g := ⟨h.ids, hplan⟩
    rcases h.replaces with ⟨l, o, t, ht⟩
    have hends : g.position d.origin < g.position d.target := by
      rw [← ht.originId, ← ht.targetId]
      exact hordered.position_lt ht.mem ht.feeds
    have horigin : d.origin ≠ d.node.id := ht.originId ▸ h.ne_of_mem (mem_of_lookup? ht.origin)
    have htarget : d.target ≠ d.node.id := ht.targetId ▸ h.ne_of_mem ht.mem
    -- the rank of the reroute lies between those of the ends of the link
    let rank : NodeId → ℕ := fun id =>
      if id = d.node.id then 2 * g.position d.origin + 1 else 2 * g.position id
    refine exists_plan_of_rank (r := rank) h.nodup_ids_apply
      (h.originsReadable_apply hordered.originsReadable) fun x y hy hfeeds => ?_
    rcases h.feeds_of_apply hy hfeeds with ⟨u, v, hv, rfl, rfl, hold⟩ | ⟨hx, rfl⟩ | ⟨rfl, hy⟩
    · have hlt := hordered.position_lt hv hold
      simp only [rank, id_rewire, if_neg (h.ne_of_mem hold.mem_left), if_neg (h.ne_of_mem hv)]
      omega
    · simp only [rank, hx, if_neg horigin, if_true]
      omega
    · simp only [rank, hy, if_neg htarget, if_true]
      omega

/-- The order of the workflow with the reroute is a timely one for the workflow without it. -/
theorem timely_apply (hlinked : Graph.IsLinked g) {order : List NodeId}
    (horder : (d.apply g).plan = .ok order) : Workflow.Timely g order := by
  have hordered : (d.apply g).Ordered := ⟨h.nodup_ids_apply, order, horder⟩
  refine Workflow.timely_of_feeds hlinked (hordered.plan_nodup horder) (fun n hn => ?_)
    fun u v hv hfeeds => ?_
  · rw [(hordered.plan_perm horder).mem_iff, ids_apply]
    exact List.mem_append_left _ (List.mem_map_of_mem hn)
  · rw [← position_eq horder, ← position_eq horder]
    exact h.position_lt hordered hv hfeeds

end Fits

end Detour

end NodeFlow
