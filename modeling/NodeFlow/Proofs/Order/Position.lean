import NodeFlow.Proofs.Order.Plan

/-!
# Positions in the execution order

A graph that can be ordered gives every node a position, and a producer a smaller one than its
consumers.

Main results:

- Definitions `Graph.Ordered` and `Graph.position`.
- Theorem `Graph.Ordered.originsReadable`: a graph that can be ordered has readable links.
- Theorems `Graph.Ordered.plan_perm` and `Graph.Ordered.filterMap_plan_pairwise`: the order holds
  every node once, and the nodes in this order have ascending positions.
- Theorem `Graph.Ordered.position_lt`: a node that feeds another has the smaller position.
-/

namespace NodeFlow

namespace Graph

variable {γ : Type} {g : Graph γ}

/-- Nodes have different ids and can be ordered. -/
structure Ordered (g : Graph γ) : Prop where
  ids_nodup : (g.nodes.map (·.id)).Nodup
  planned : ∃ order, g.plan = .ok order

/-- The position of a node in the execution order. -/
def position (g : Graph γ) (id : NodeId) : Nat :=
  match g.plan with
  | .ok order => order.idxOf id
  | .error _ => 0

/-- The position of a node is that in the order. -/
theorem position_eq {order : List NodeId} (horder : g.plan = .ok order) (id : NodeId) :
    g.position id = order.idxOf id := by
  simp [position, horder]

private theorem exists_producer?_of_producers {slots : List InputSlot} {known ids : List NodeId}
    (h : g.producers slots known = .ok ids) :
    ∀ slot ∈ slots, ∃ found, g.producer? slot = .ok found := by
  induction slots generalizing known with
  | nil => simp
  | cons slot slots ih =>
    cases hfound : g.producer? slot with
    | error f => simp [producers, hfound, bind, Except.bind] at h
    | ok found =>
      intro s hs
      rcases List.mem_cons.1 hs with rfl | hs
      · exact ⟨found, hfound⟩
      · cases found <;>
        · simp only [producers, hfound, bind, Except.bind] at h
          exact ih h s hs

private theorem exists_dependencies_of_waitingList {ns : List (Node γ)} {ws : List Waiting}
    (h : g.waitingList ns = .ok ws) : ∀ n ∈ ns, ∃ needs, g.dependencies n = .ok needs := by
  induction ns generalizing ws with
  | nil => simp
  | cons n ns ih =>
    cases hneeds : g.dependencies n with
    | error f => simp [waitingList, hneeds, bind, Except.bind] at h
    | ok needs =>
      cases hrest : g.waitingList ns with
      | error f => simp [waitingList, hneeds, hrest, bind, Except.bind] at h
      | ok rest =>
        intro m hm
        rcases List.mem_cons.1 hm with rfl | hm
        · exact ⟨needs, hneeds⟩
        · exact ih hrest m hm

private theorem originsReadable_of_waitingList {ws : List Waiting}
    (h : g.waitingList g.candidates = .ok ws) : g.OriginsReadable := by
  intro n hn slot hslot l hl
  obtain ⟨needs, hneeds⟩ :=
    exists_dependencies_of_waitingList h n (g.candidates_perm.mem_iff.2 hn)
  rcases exists_producer?_of_producers hneeds slot hslot with ⟨found, hfound⟩
  cases hlookup : g.lookup? l.origin with
  | error f => simp [producer?, hl, hlookup, bind, Except.bind] at hfound
  | ok origin => exact ⟨origin, rfl⟩

namespace Ordered

variable (h : g.Ordered)

include h

private theorem exists_waitingList :
    ∃ ws, g.waitingList g.candidates = .ok ws ∧ g.OriginsReadable := by
  rcases h.planned with ⟨order, horder⟩
  cases hws : g.waitingList g.candidates with
  | error f => simp [plan, hws, bind, Except.bind] at horder
  | ok ws => exact ⟨ws, rfl, originsReadable_of_waitingList hws⟩

/-- The origins of links can be read where there is an order. -/
theorem originsReadable : g.OriginsReadable := by
  rcases h.exists_waitingList with ⟨_, -, hread⟩
  exact hread

/-- The order is that of the planner, which has placed all nodes. -/
theorem exists_schedule : ∃ ws, Schedule g ws ∧ g.plan = .ok (Planner.order ws) ∧
    (Planner.order ws).length = ws.length := by
  rcases Graph.exists_schedule h.ids_nodup h.originsReadable with ⟨ws, hws, s⟩
  rcases h.planned with ⟨order, horder⟩
  by_cases hlen : (Planner.order ws).length = ws.length
  · exact ⟨ws, s, by simp [plan, hws, bind, Except.bind, pure, Except.pure, hlen], hlen⟩
  · simp [plan, hws, bind, Except.bind, throw, throwThe, MonadExceptOf.throw, hlen] at horder

/-- The order holds every node once. -/
theorem plan_perm {order : List NodeId} (horder : g.plan = .ok order) :
    order.Perm (g.nodes.map (·.id)) := by
  rcases h.exists_schedule with ⟨ws, s, hplan, hlen⟩
  rw [hplan, Except.ok.injEq] at horder
  rw [← horder]
  exact (Planner.order_perm_of_length s.closed hlen).trans s.ids_perm

/-- No node comes twice in an order. -/
theorem plan_nodup {order : List NodeId} (horder : g.plan = .ok order) : order.Nodup :=
  (h.plan_perm horder).nodup_iff.2 h.ids_nodup

/-- The nodes in execution order are those of the graph. -/
theorem filterMap_plan_perm {order : List NodeId} (horder : g.plan = .ok order) :
    (order.filterMap g.at?).Perm g.nodes := filterMap_at?_perm h.ids_nodup (h.plan_perm horder)

/-- Positions ascend along the order. -/
theorem plan_pairwise {order : List NodeId} (horder : g.plan = .ok order) :
    order.Pairwise fun a b => g.position a < g.position b := by
  rw [List.pairwise_iff_getElem]
  intro i j hi hj hij
  have hnodup := h.plan_nodup horder
  rw [position_eq horder, position_eq horder, hnodup.idxOf_getElem, hnodup.idxOf_getElem]
  exact hij

/-- The nodes in execution order have ascending positions. -/
theorem filterMap_plan_pairwise {order : List NodeId} (horder : g.plan = .ok order) :
    (order.filterMap g.at?).Pairwise fun u v => g.position u.id < g.position v.id := by
  have hids : (order.filterMap g.at?).map (·.id) = order :=
    map_id_filterMap_at? (h.plan_perm horder).subset
  have hpositions := h.plan_pairwise horder
  rw [← hids, List.pairwise_map] at hpositions
  exact hpositions

/-- A node that feeds another one comes first. -/
theorem position_lt {u v : Node γ} (hv : v ∈ g.nodes) (hfeeds : g.Feeds u v) :
    g.position u.id < g.position v.id := by
  rcases h.exists_schedule with ⟨ws, s, hplan, hlen⟩
  have hmem : v.id ∈ Planner.order ws :=
    (Planner.order_perm_of_length s.closed hlen).mem_iff.2 (s.mem_ids_iff.2 ⟨v, hv, rfl⟩)
  simp only [position, hplan]
  exact (Planner.idxOf_lt_of_needs s.closed (s.needs_of_feeds hv hfeeds) hmem).2

end Ordered

/-- A producer behind an input feeds the node. -/
theorem feeds_of_inLink? {n u : Node γ} {slot : Int} {l : Link} (hlink : g.inLink? n slot = some l)
    (hfound : g.lookup? l.origin = .ok (some u)) : g.Feeds u n := by
  unfold inLink? at hlink
  split at hlink
  · cases hlink
  · rcases Option.bind_eq_some_iff.1 hlink with ⟨id, hid, hl⟩
    unfold Node.inputLink? at hid
    split at hid
    · cases hid
    · rcases Option.bind_eq_some_iff.1 hid with ⟨s, hs, hsid⟩
      refine ⟨s, List.mem_of_getElem? hs, l, ?_, hfound⟩
      rw [hsid]
      exact hl

end Graph

end NodeFlow
