import Mathlib.Data.Fintype.Pigeonhole
import Mathlib.Data.Set.Finite.List
import NodeFlow.Order

/-!
# The planner's queue

The planner places the first node of its queue and queues the nodes that this completes.  Between
two steps, the nodes placed or queued are exactly those whose needs are all placed.  So the run ends
with a set of nodes that is closed in both directions: a node is placed if and only if everything it
needs is.  What is left over needs something that is left over, and in a finite list that leads back
to a circle.

Main results:

- Structure `Planner.Progress` and theorem `Planner.Progress.step`: what one step keeps.
- Theorem `Planner.order_progress`: what a whole run ends with.
- Theorem `Planner.mem_order_iff`: a node is placed if and only if no circle is upstream of it.
- Theorem `Planner.length_order_eq_iff`: all nodes are placed if and only if there is no circle.
-/

namespace NodeFlow

namespace Planner

open Relation

variable {ws : List Graph.Waiting}

/-! ## Needs -/

/-- The second node waits for the first. -/
def Needs (ws : List Graph.Waiting) (u v : NodeId) : Prop := ∃ w ∈ ws, w.id = v ∧ u ∈ w.needs

/-- A node with a circle upstream: it lies on one or is reached from one. -/
def Trapped (ws : List Graph.Waiting) (v : NodeId) : Prop :=
  ∃ c, TransGen (Needs ws) c c ∧ ReflTransGen (Needs ws) c v

/-- No two nodes have the same id, and nodes wait for nodes of the list only. -/
structure Closed (ws : List Graph.Waiting) : Prop where
  ids_nodup : (ws.map (·.id)).Nodup
  needs_mem : ∀ w ∈ ws, ∀ u ∈ w.needs, u ∈ ws.map (·.id)

/-- What waits is told apart by its id. -/
theorem Closed.eq_of_id_eq (h : Closed ws) {w x : Graph.Waiting} (hw : w ∈ ws) (hx : x ∈ ws)
    (hid : w.id = x.id) : w = x :=
  List.inj_on_of_nodup_map h.ids_nodup hw hx hid

/-- What is completed by a node needed it and nothing else that is still to be placed. -/
theorem mem_completed {last x : NodeId} {placed : List NodeId} :
    x ∈ completed ws last placed ↔
      ∃ w ∈ ws, w.id = x ∧ last ∈ w.needs ∧ ∀ u ∈ w.needs, u ∈ placed := by
  simp only [completed, List.mem_map, List.mem_filter, Bool.and_eq_true, List.contains_iff_mem,
    List.all_eq_true]
  grind

/-- What is ready needs nothing. -/
theorem mem_ready {x : NodeId} : x ∈ ready ws ↔ ∃ w ∈ ws, w.id = x ∧ w.needs = [] := by
  simp only [ready, List.mem_map, List.mem_filter, List.isEmpty_iff]
  grind

private theorem completed_nodup (h : Closed ws) (last : NodeId) (placed : List NodeId) :
    (completed ws last placed).Nodup :=
  h.ids_nodup.sublist (List.filter_sublist.map _)

private theorem ready_nodup (h : Closed ws) : (ready ws).Nodup :=
  h.ids_nodup.sublist (List.filter_sublist.map _)

/-! ## One step -/

/-- What holds between two steps of the planner. -/
structure Progress (ws : List Graph.Waiting) (queue placed : List NodeId) : Prop where
  nodup : (placed ++ queue).Nodup
  subset : ∀ x ∈ placed ++ queue, x ∈ ws.map (·.id)
  mem_iff : ∀ w ∈ ws, w.id ∈ placed ++ queue ↔ ∀ u ∈ w.needs, u ∈ placed
  before : ∀ front v back, placed = front ++ v :: back → ∀ u, Needs ws u v → u ∈ front

/-- At the start, what is ready is queued and nothing is placed. -/
theorem Progress.start (h : Closed ws) : Progress ws (ready ws) [] where
  nodup := by simpa using ready_nodup h
  subset := by
    intro x hx
    rcases mem_ready.1 (by simpa using hx) with ⟨w, hw, rfl, -⟩
    exact List.mem_map_of_mem hw
  mem_iff := by
    intro w hw
    have hready : w.id ∈ ready ws ↔ w.needs = [] := by
      rw [mem_ready]
      constructor
      · rintro ⟨x, hx, hid, hnone⟩
        rwa [h.eq_of_id_eq hw hx hid.symm]
      · intro hnone
        exact ⟨w, hw, rfl, hnone⟩
    simp [hready, List.eq_nil_iff_forall_not_mem]
  before := by
    intro front v back hplaced
    simp at hplaced

section Step

variable {id : NodeId} {queue placed : List NodeId} (p : Progress ws (id :: queue) placed)

include p

/-- A node that is completed was neither placed nor queued before. -/
theorem Progress.fresh {v : NodeId} (hnew : v ∈ completed ws id (placed ++ [id])) :
    v ∉ placed ++ id :: queue := by
  intro hold
  rcases mem_completed.1 hnew with ⟨w, hw, rfl, hlast, -⟩
  have hplaced : id ∈ placed := (p.mem_iff w hw).1 hold id hlast
  exact (List.nodup_append.1 p.nodup).2.2 id hplaced id List.mem_cons_self rfl

/-- Placed, queued or completed are exactly the nodes whose needs are all placed now. -/
theorem Progress.mem_completed_iff (h : Closed ws) {w : Graph.Waiting} (hw : w ∈ ws) :
    w.id ∈ (placed ++ id :: queue) ++ completed ws id (placed ++ [id]) ↔
      ∀ u ∈ w.needs, u ∈ placed ++ [id] := by
  constructor
  · intro hmem u hu
    rcases List.mem_append.1 hmem with hold | hnew
    · exact List.mem_append_left _ ((p.mem_iff w hw).1 hold u hu)
    · rcases mem_completed.1 hnew with ⟨x, hx, hxid, -, hall⟩
      rw [h.eq_of_id_eq hx hw hxid] at hall
      exact hall u hu
  · intro hall
    by_cases hlast : id ∈ w.needs
    · exact List.mem_append_right _ (mem_completed.2 ⟨w, hw, rfl, hlast, hall⟩)
    · apply List.mem_append_left _ ((p.mem_iff w hw).2 _)
      intro u hu
      rcases List.mem_append.1 (hall u hu) with hplaced | hsame
      · exact hplaced
      · rw [List.mem_singleton] at hsame
        exact absurd (hsame ▸ hu) hlast

/-- What a placed node needs stands in front of it, also for the node just placed. -/
theorem Progress.before_concat {front back : List NodeId} {v : NodeId}
    (hplaced : placed ++ [id] = front ++ v :: back) {u : NodeId} (hu : Needs ws u v) :
    u ∈ front := by
  rcases List.eq_nil_or_concat back with rfl | ⟨back, last, rfl⟩
  · rcases List.append_inj' hplaced rfl with ⟨rfl, hv⟩
    rcases hu with ⟨w, hw, hwid, huw⟩
    have hmem : w.id ∈ placed ++ id :: queue := by
      rw [hwid, ← (List.cons.inj hv).1]
      simp
    exact (p.mem_iff w hw).1 hmem u huw
  · have hplaced : placed ++ [id] = (front ++ v :: back) ++ [last] := by simpa using hplaced
    exact p.before front v back (List.append_inj' hplaced rfl).1 u hu

/-- Placing the first node of the queue and queueing what it completes keeps the progress. -/
theorem Progress.step (h : Closed ws) :
    Progress ws (queue ++ completed ws id (placed ++ [id])) (placed ++ [id]) := by
  have hsplit : (placed ++ [id]) ++ (queue ++ completed ws id (placed ++ [id])) =
      (placed ++ id :: queue) ++ completed ws id (placed ++ [id]) := by simp
  refine ⟨?_, ?_, ?_, ?_⟩
  · rw [hsplit, List.nodup_append]
    refine ⟨p.nodup, completed_nodup h _ _, ?_⟩
    rintro x hold y hnew rfl
    exact p.fresh hnew hold
  · rw [hsplit]
    intro x hx
    rcases List.mem_append.1 hx with hold | hnew
    · exact p.subset x hold
    · rcases mem_completed.1 hnew with ⟨w, hw, rfl, -⟩
      exact List.mem_map_of_mem hw
  · rw [hsplit]
    intro w hw
    exact p.mem_completed_iff h hw
  · intro front v back hplaced u hu
    exact p.before_concat hplaced hu

end Step

/-! ## A whole run -/

/-- No more is placed and queued than there is. -/
theorem Progress.length_le {queue placed : List NodeId} (p : Progress ws queue placed) :
    placed.length + queue.length ≤ ws.length := by
  have hle := (p.nodup.subperm p.subset).length_le
  simpa using hle

/-- As many steps as there are nodes left to place empty the queue. -/
theorem Progress.run (h : Closed ws) {queue placed : List NodeId} (p : Progress ws queue placed)
    {steps : Nat} (hsteps : placed.length + steps = ws.length) :
    Progress ws [] (run ws steps queue placed) := by
  induction steps generalizing queue placed with
  | zero =>
    have hle := p.length_le
    have hqueue : queue = [] := List.eq_nil_of_length_eq_zero (by omega)
    rw [hqueue] at p
    simpa [Planner.run] using p
  | succ steps ih =>
    cases queue with
    | nil => simpa [Planner.run] using p
    | cons id queue => exact ih (p.step h) (by simp; omega)

/-- In the end nothing is queued, and what is placed is the order. -/
theorem order_progress (h : Closed ws) : Progress ws [] (order ws) :=
  (Progress.start h).run h (by simp)

private theorem order_nodup (h : Closed ws) : (order ws).Nodup := by
  simpa using (order_progress h).nodup

private theorem order_subset (h : Closed ws) {x : NodeId} (hx : x ∈ order ws) : x ∈ ws.map (·.id) :=
  (order_progress h).subset x (by simpa using hx)

/-- What a placed node needs has been placed, and before it. -/
theorem idxOf_lt_of_needs (h : Closed ws) {u v : NodeId} (hneeds : Needs ws u v)
    (hv : v ∈ order ws) : u ∈ order ws ∧ (order ws).idxOf u < (order ws).idxOf v := by
  rcases List.append_of_mem hv with ⟨front, back, hplaced⟩
  have hu : u ∈ front := (order_progress h).before front v back hplaced u hneeds
  have hnodup := order_nodup h
  rw [hplaced] at hnodup ⊢
  have hvfront : v ∉ front := by
    intro hmem
    exact (List.nodup_append.1 hnodup).2.2 v hmem v List.mem_cons_self rfl
  refine ⟨List.mem_append_left _ hu, ?_⟩
  rw [List.idxOf_append_of_mem hu, List.idxOf_append_of_notMem hvfront]
  have := List.idxOf_lt_length_of_mem hu
  omega

private theorem idxOf_lt_of_transGen (h : Closed ws) {u v : NodeId}
    (hneeds : TransGen (Needs ws) u v)
    (hv : v ∈ order ws) : u ∈ order ws ∧ (order ws).idxOf u < (order ws).idxOf v := by
  induction hneeds with
  | single hstep => exact idxOf_lt_of_needs h hstep hv
  | tail _ hstep ih =>
    rcases idxOf_lt_of_needs h hstep hv with ⟨hmid, hlt⟩
    rcases ih hmid with ⟨hu, hlt'⟩
    exact ⟨hu, hlt'.trans hlt⟩

/-! ## What is left over -/

/-- A node that is left over needs another one that is. -/
theorem exists_needs_of_not_mem (h : Closed ws) {v : NodeId} (hv : v ∈ ws.map (·.id))
    (hleft : v ∉ order ws) : ∃ u, Needs ws u v ∧ u ∈ ws.map (·.id) ∧ u ∉ order ws := by
  rcases List.mem_map.1 hv with ⟨w, hw, rfl⟩
  have hnot : ¬ ∀ u ∈ w.needs, u ∈ order ws := by
    intro hall
    exact hleft (by simpa using ((order_progress h).mem_iff w hw).2 hall)
  push Not at hnot
  rcases hnot with ⟨u, hu, hout⟩
  exact ⟨u, ⟨w, hw, rfl, hu⟩, h.needs_mem w hw u hu, hout⟩

/-- Going from need to need among finitely many nodes that are left over, one meets a node twice. -/
theorem trapped_of_not_mem (h : Closed ws) {v : NodeId} (hv : v ∈ ws.map (·.id))
    (hleft : v ∉ order ws) : Trapped ws v := by
  let Left := {x : NodeId // x ∈ ws.map (·.id) ∧ x ∉ order ws}
  have hfinite : Finite Left :=
    ((List.finite_toSet (ws.map (·.id))).subset fun x hx => hx.1).to_subtype
  have hback : ∀ x : Left, ∃ y : Left, Needs ws y.1 x.1 := by
    intro x
    rcases exists_needs_of_not_mem h x.2.1 x.2.2 with ⟨u, hu, hmem, hout⟩
    exact ⟨⟨u, hmem, hout⟩, hu⟩
  choose back hneeds using hback
  let chain (n : Nat) : Left := back^[n] ⟨v, hv, hleft⟩
  have hstep : ∀ n, Needs ws (chain (n + 1)).1 (chain n).1 := by
    intro n
    simpa only [chain, Function.iterate_succ_apply'] using hneeds (chain n)
  have hreach : ∀ m n, m < n → TransGen (Needs ws) (chain n).1 (chain m).1 := by
    intro m n hlt
    induction n, hlt using Nat.le_induction with
    | base => exact .single (hstep m)
    | succ n _ ih => exact .head (hstep n) ih
  rcases Finite.exists_ne_map_eq_of_infinite chain with ⟨m, n, hne, heq⟩
  have hcircle : TransGen (Needs ws) (chain n).1 (chain n).1 := by
    rcases lt_or_gt_of_ne hne with hlt | hlt
    · have := hreach m n hlt
      rwa [heq] at this
    · have := hreach n m hlt
      rwa [heq] at this
  refine ⟨(chain n).1, hcircle, ?_⟩
  rcases Nat.eq_zero_or_pos n with rfl | hpos
  · exact .refl
  · exact (hreach 0 n hpos).to_reflTransGen

/-- A node is placed if and only if no circle is upstream of it. -/
theorem mem_order_iff (h : Closed ws) {v : NodeId} (hv : v ∈ ws.map (·.id)) :
    v ∈ order ws ↔ ¬ Trapped ws v := by
  constructor
  · rintro hplaced ⟨c, hcircle, hreach⟩
    have hc : c ∈ order ws := by
      rcases reflTransGen_iff_eq_or_transGen.1 hreach with rfl | hpath
      · exact hplaced
      · exact (idxOf_lt_of_transGen h hpath hplaced).1
    exact absurd (idxOf_lt_of_transGen h hcircle hc).2 (lt_irrefl _)
  · intro hfree
    by_contra hleft
    exact hfree (trapped_of_not_mem h hv hleft)

/-- A node on a circle is one of the list. -/
theorem mem_ids_of_needs {u v : NodeId} (hneeds : TransGen (Needs ws) u v) :
    v ∈ ws.map (·.id) := by
  cases hneeds with
  | single hstep =>
    rcases hstep with ⟨w, hw, rfl, -⟩
    exact List.mem_map_of_mem hw
  | tail _ hstep =>
    rcases hstep with ⟨w, hw, rfl, -⟩
    exact List.mem_map_of_mem hw

/-- An order of full length has every node once. -/
theorem order_perm_of_length (h : Closed ws) (hlen : (order ws).length = ws.length) :
    (order ws).Perm (ws.map (·.id)) :=
  ((order_nodup h).subperm fun _ hx => order_subset h hx).perm_of_length_le (by simp [hlen])

/-- All nodes are placed if and only if there is no circle. -/
theorem length_order_eq_iff (h : Closed ws) :
    (order ws).length = ws.length ↔ ∀ c, ¬ TransGen (Needs ws) c c := by
  constructor
  · intro hlen c hcircle
    have hmem := mem_ids_of_needs hcircle
    have hplaced := (order_perm_of_length h hlen).mem_iff.2 hmem
    exact (mem_order_iff h hmem).1 hplaced ⟨c, hcircle, .refl⟩
  · intro hfree
    have hall : ws.map (·.id) ⊆ order ws := by
      intro v hv
      apply (mem_order_iff h hv).2
      rintro ⟨c, hcircle, -⟩
      exact hfree c hcircle
    have hle := (h.ids_nodup.subperm hall).length_le
    have hge := ((order_nodup h).subperm fun _ hx => order_subset h hx).length_le
    rw [List.length_map] at hle hge
    omega

end Planner

end NodeFlow
