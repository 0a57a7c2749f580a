import Mathlib.Data.Prod.Lex
import Mathlib.Order.Lattice.Nat
import NodeFlow.Proofs.Order.Position

/-!
# Ties in the execution order

The queue of the planner leaves nothing to chance.  The nodes that wait for nothing come first, in
candidate order; of two others that one comes first whose last dependency comes first, and where they
have the last one in common, again the candidate order decides.  So the links matter only by who
waits for whom, and nodes come by the length of the longest way that leads to them.

Main results:

- Definition `Planner.stage` and theorem `Planner.order_pairwise`: how many nodes are placed before a
  node is complete, and that the order goes by it.
- Theorem `Planner.order_congr`: the order depends on what is in the lists of needs only.
- Definitions `Graph.rank` and `Graph.precedence`; theorem `Graph.rank_lt_iff`: ranks go by order
  attribute, then by insertion.
- Theorem `Graph.Ordered.position_lt_iff`: the positions of nodes that have dependencies.
- Definition `Graph.depth` and theorem `Graph.Ordered.pathTo_of_lt`: the longest way to a node.
- Theorem `Graph.planned_canonical`: the execution order of a graph without circles.
-/

namespace NodeFlow

private theorem idxOf_lt_of_pairwise {α : Type} [DecidableEq α] {R : α → α → Prop} {l : List α}
    (hl : l.Pairwise R) {a b : α} (hb : b ∈ l) (hlt : l.idxOf a < l.idxOf b) : R a b := by
  have hb' := List.idxOf_lt_length_of_mem hb
  have hpair := List.pairwise_iff_getElem.1 hl _ _ (by omega) hb' hlt
  simpa only [List.getElem_idxOf] using hpair

private theorem pairwise_idxOf_lt {α : Type} [DecidableEq α] {l : List α} (hl : l.Nodup) :
    l.Pairwise fun a b => l.idxOf a < l.idxOf b := by
  rw [List.pairwise_iff_getElem]
  intro i j hi hj hij
  rw [hl.idxOf_getElem, hl.idxOf_getElem]
  exact hij

namespace Planner

variable {ws : List Graph.Waiting}

/-! ## Stages -/

/-- How many nodes of an order have been placed once all of a list have been. -/
def stage (order : List NodeId) : List NodeId → Nat
  | [] => 0
  | u :: needs => max (order.idxOf u + 1) (stage order needs)

private theorem stage_le_iff {order needs : List NodeId} {k : Nat} :
    stage order needs ≤ k ↔ ∀ u ∈ needs, order.idxOf u + 1 ≤ k := by
  induction needs with
  | nil => simp [stage]
  | cons u needs ih => simp [stage, ih]

private theorem stage_le_length {order needs : List NodeId} (h : ∀ u ∈ needs, u ∈ order) :
    stage order needs ≤ order.length := by
  rw [stage_le_iff]
  intro u hu
  exact List.idxOf_lt_length_of_mem (h u hu)

/-- What is placed later does not change the stage of a node that is complete. -/
theorem stage_append {order needs : List NodeId} (h : ∀ u ∈ needs, u ∈ order)
    (more : List NodeId) : stage (order ++ more) needs = stage order needs := by
  induction needs with
  | nil => rfl
  | cons u needs ih =>
    simp only [List.mem_cons, forall_eq_or_imp] at h
    simp [stage, List.idxOf_append_of_mem h.1, ih h.2]

private theorem stage_eq_of_last {order needs : List NodeId} {u : NodeId} (hu : u ∈ needs)
    (hlast : ∀ x ∈ needs, order.idxOf x ≤ order.idxOf u) :
    stage order needs = order.idxOf u + 1 := by
  apply le_antisymm
  · rw [stage_le_iff]
    intro x hx
    have := hlast x hx
    omega
  · exact stage_le_iff.1 le_rfl u hu

/-- The first node is complete before the second, or with it and has the smaller rank. -/
def Earlier (ws : List Graph.Waiting) (order : List NodeId) (a b : NodeId) : Prop :=
  ∀ w ∈ ws, ∀ x ∈ ws, w.id = a → x.id = b →
    toLex (stage order w.needs, (ws.map (·.id)).idxOf a) <
      toLex (stage order x.needs, (ws.map (·.id)).idxOf b)

/-! ## One step -/

private theorem pairwise_rank (h : Closed ws) {ids : List NodeId}
    (hids : ids.Sublist (ws.map (·.id))) :
    ids.Pairwise fun a b => (ws.map (·.id)).idxOf a < (ws.map (·.id)).idxOf b :=
  (pairwise_idxOf_lt h.ids_nodup).sublist hids

/-- The nodes that wait for nothing are queued by rank. -/
theorem ready_pairwise (h : Closed ws) : (ready ws).Pairwise (Earlier ws []) := by
  have hrank := pairwise_rank h (List.filter_sublist.map _ : (ready ws).Sublist _)
  apply hrank.imp_of_mem
  intro a b ha hb hlt w hw x hx hwa hxb
  obtain ⟨w', hw', hid, hnone⟩ := mem_ready.1 ha
  obtain ⟨x', hx', hid', hnone'⟩ := mem_ready.1 hb
  rw [h.eq_of_id_eq hw hw' (hwa.trans hid.symm), h.eq_of_id_eq hx hx' (hxb.trans hid'.symm),
    hnone, hnone']
  exact Prod.Lex.toLex_lt_toLex.2 (.inr ⟨rfl, hlt⟩)

section Step

variable {id : NodeId} {queue placed : List NodeId} (p : Progress ws (id :: queue) placed)

include p

/-- A node that is completed by the last placed one has the next stage. -/
theorem Progress.stage_completed (h : Closed ws) {w : Graph.Waiting} (hw : w ∈ ws)
    (hnew : w.id ∈ completed ws id (placed ++ [id])) :
    stage (placed ++ [id]) w.needs = placed.length + 1 := by
  obtain ⟨x, hx, hid, hlast, hall⟩ := mem_completed.1 hnew
  rw [h.eq_of_id_eq hx hw hid] at hlast hall
  have hfresh : id ∉ placed := by
    intro hmem
    exact (List.nodup_append.1 p.nodup).2.2 id hmem id List.mem_cons_self rfl
  have hidx : (placed ++ [id]).idxOf id = placed.length := by
    rw [List.idxOf_append_of_notMem hfresh]
    simp
  rw [stage_eq_of_last hlast, hidx]
  intro u hu
  have := List.idxOf_lt_length_of_mem (hall u hu)
  simp only [List.length_append, List.length_singleton] at this
  omega

/-- Completed nodes are queued behind those that were complete before, and by rank. -/
theorem Progress.pairwise_step (h : Closed ws)
    (hold : (placed ++ id :: queue).Pairwise (Earlier ws placed)) :
    ((placed ++ [id]) ++ (queue ++ completed ws id (placed ++ [id]))).Pairwise
      (Earlier ws (placed ++ [id])) := by
  have hsplit : (placed ++ [id]) ++ (queue ++ completed ws id (placed ++ [id])) =
      (placed ++ id :: queue) ++ completed ws id (placed ++ [id]) := by simp
  have hcomplete : ∀ w ∈ ws, w.id ∈ placed ++ id :: queue → ∀ u ∈ w.needs, u ∈ placed :=
    fun w hw => (p.mem_iff w hw).1
  rw [hsplit, List.pairwise_append]
  refine ⟨?_, ?_, ?_⟩
  · apply hold.imp_of_mem
    intro a b ha hb hab w hw x hx hwa hxb
    rw [stage_append (hcomplete w hw (hwa ▸ ha)), stage_append (hcomplete x hx (hxb ▸ hb))]
    exact hab w hw x hx hwa hxb
  · have hrank := pairwise_rank h
      (List.filter_sublist.map _ : (completed ws id (placed ++ [id])).Sublist _)
    apply hrank.imp_of_mem
    intro a b ha hb hlt w hw x hx hwa hxb
    rw [p.stage_completed h hw (hwa ▸ ha), p.stage_completed h hx (hxb ▸ hb)]
    exact Prod.Lex.toLex_lt_toLex.2 (.inr ⟨rfl, hlt⟩)
  · intro a ha b hb w hw x hx hwa hxb
    have hneeds := hcomplete w hw (hwa ▸ ha)
    rw [stage_append hneeds, p.stage_completed h hx (hxb ▸ hb)]
    apply Prod.Lex.toLex_lt_toLex.2
    left
    have := stage_le_length hneeds
    simp only
    omega

end Step

/-! ## A whole run -/

/-- A run keeps the order of what is complete, and what it places goes on from there. -/
theorem Progress.run_pairwise (h : Closed ws) {queue placed : List NodeId}
    (p : Progress ws queue placed) (hold : (placed ++ queue).Pairwise (Earlier ws placed))
    {steps : Nat} (hsteps : placed.length + steps = ws.length) :
    (Planner.run ws steps queue placed).Pairwise (Earlier ws (Planner.run ws steps queue placed)) ∧
      (placed ++ queue).IsPrefix (Planner.run ws steps queue placed) := by
  induction steps generalizing queue placed with
  | zero =>
    have hle := p.length_le
    have hqueue : queue = [] := List.eq_nil_of_length_eq_zero (by omega)
    subst hqueue
    simpa [Planner.run] using hold
  | succ steps ih =>
    cases queue with
    | nil => simpa [Planner.run] using hold
    | cons id queue =>
      obtain ⟨hpairwise, hprefix⟩ := ih (p.step h) (p.pairwise_step h hold) (by simp; omega)
      refine ⟨hpairwise, List.IsPrefix.trans ?_ hprefix⟩
      simp

/-- Each node of the order comes later than those that are to come before it. -/
theorem order_pairwise (h : Closed ws) : (order ws).Pairwise (Earlier ws (order ws)) :=
  ((Progress.start h).run_pairwise h (ready_pairwise h) (by simp)).1

/-- The nodes that wait for nothing come first. -/
theorem ready_isPrefix_order (h : Closed ws) : (ready ws).IsPrefix (order ws) :=
  ((Progress.start h).run_pairwise h (ready_pairwise h) (by simp)).2

/-! ## Lists of needs that hold the same -/

/-- The same node, which waits for the same. -/
def SameNeeds (w x : Graph.Waiting) : Prop := w.id = x.id ∧ ∀ u, u ∈ w.needs ↔ u ∈ x.needs

section Congr

variable {ws' : List Graph.Waiting} (h : List.Forall₂ SameNeeds ws ws')

include h

private theorem filter_congr {p : List NodeId → Bool}
    (hp : ∀ needs needs' : List NodeId, (∀ u, u ∈ needs ↔ u ∈ needs') → p needs = p needs') :
    (ws.filter fun w => p w.needs).map (·.id) = (ws'.filter fun w => p w.needs).map (·.id) := by
  induction h with
  | nil => rfl
  | @cons w x ws ws' hsame _ ih =>
    rw [List.filter_cons, List.filter_cons, hp _ _ hsame.2]
    split <;> simp [ih, hsame.1]

private theorem ready_congr : ready ws = ready ws' := by
  apply filter_congr h
  intro needs needs' hsame
  rw [Bool.eq_iff_iff]
  simp only [List.isEmpty_iff, List.eq_nil_iff_forall_not_mem, hsame]

private theorem completed_congr (last : NodeId) (placed : List NodeId) :
    completed ws last placed = completed ws' last placed := by
  apply filter_congr h (p := fun needs => needs.contains last && needs.all placed.contains)
  intro needs needs' hsame
  rw [Bool.eq_iff_iff]
  simp only [Bool.and_eq_true, List.contains_iff_mem, List.all_eq_true, hsame]

private theorem run_congr (steps : Nat) (queue placed : List NodeId) :
    run ws steps queue placed = run ws' steps queue placed := by
  induction steps generalizing queue placed with
  | zero => rfl
  | succ steps ih =>
    cases queue with
    | nil => rfl
    | cons id queue => simp only [run, completed_congr h, ih]

/-- In which order a node lists what it waits for does not matter, nor how often. -/
theorem order_congr : order ws = order ws' := by
  rw [order, order, ready_congr h, h.length_eq, run_congr h]

end Congr

end Planner

namespace Graph

open Relation

variable {γ : Type} {g : Graph γ}

/-! ## Ranks -/

/-- The position of a node among the candidates. -/
def rank (g : Graph γ) (id : NodeId) : Nat := (g.candidates.map (·.id)).idxOf id

/-- The position of a node in the order of insertion. -/
def insertion (g : Graph γ) (id : NodeId) : Nat := (g.nodes.map (·.id)).idxOf id

/-- The order attribute of a node, then when it was inserted. -/
def precedence (g : Graph γ) (n : Node γ) : ℤ ×ₗ ℕ := toLex (n.order, g.insertion n.id)

private theorem pairwise_insertByOrder {key : Node γ → ℕ} {n : Node γ} {ns : List (Node γ)}
    (hns : ns.Pairwise fun u v => toLex (u.order, key u) < toLex (v.order, key v))
    (hkey : ∀ m ∈ ns, key n < key m) :
    (insertByOrder n ns).Pairwise fun u v => toLex (u.order, key u) < toLex (v.order, key v) := by
  induction ns with
  | nil => simp [insertByOrder]
  | cons m ns ih =>
    rw [List.pairwise_cons] at hns
    simp only [List.mem_cons, forall_eq_or_imp] at hkey
    have hlt : ∀ x : Node γ, n.order ≤ x.order → key n < key x →
        toLex (n.order, key n) < toLex (x.order, key x) := by
      intro x horder hlt
      rw [Prod.Lex.toLex_lt_toLex]
      rcases lt_or_eq_of_le horder with h | h
      · exact .inl h
      · exact .inr ⟨h, hlt⟩
    unfold insertByOrder
    split
    · rename_i horder
      rw [List.pairwise_cons, List.pairwise_cons]
      refine ⟨?_, hns⟩
      intro x hx
      rcases List.mem_cons.1 hx with rfl | hx
      · exact hlt x horder hkey.1
      · apply hlt x (horder.trans ?_) (hkey.2 x hx)
        have := Prod.Lex.toLex_lt_toLex.1 (hns.1 x hx)
        simp only at this
        omega
    · rename_i horder
      rw [List.pairwise_cons]
      refine ⟨?_, ih hns.2 hkey.2⟩
      intro x hx
      rcases List.mem_cons.1 ((insertByOrder_perm n ns).mem_iff.1 hx) with rfl | hx
      · exact Prod.Lex.toLex_lt_toLex.2 (.inl (by simpa using horder))
      · exact hns.1 x hx

private theorem pairwise_sortByOrder {key : Node γ → ℕ} {ns : List (Node γ)}
    (hkey : ns.Pairwise fun u v => key u < key v) :
    (sortByOrder ns).Pairwise fun u v => toLex (u.order, key u) < toLex (v.order, key v) := by
  induction ns with
  | nil => exact .nil
  | cons n ns ih =>
    rw [List.pairwise_cons] at hkey
    apply pairwise_insertByOrder (ih hkey.2)
    intro m hm
    exact hkey.1 m ((sortByOrder_perm ns).mem_iff.1 hm)

/-- The candidates go by order attribute, then by insertion. -/
theorem candidates_pairwise (hids : (g.nodes.map (·.id)).Nodup) :
    g.candidates.Pairwise fun u v => g.precedence u < g.precedence v := by
  apply pairwise_sortByOrder
  have hpairwise := pairwise_idxOf_lt hids
  rwa [List.pairwise_map] at hpairwise

/-- Nodes are ranked by their precedence. -/
theorem rank_lt_iff (hids : (g.nodes.map (·.id)).Nodup) {u v : Node γ} (hu : u ∈ g.nodes)
    (hv : v ∈ g.nodes) : g.rank u.id < g.rank v.id ↔ g.precedence u < g.precedence v := by
  have hpairwise : (g.candidates.map (·.id)).Pairwise fun a b => ∀ u ∈ g.nodes, ∀ v ∈ g.nodes,
      u.id = a → v.id = b → g.precedence u < g.precedence v := by
    rw [List.pairwise_map]
    apply (candidates_pairwise hids).imp_of_mem
    intro x y hx hy hxy u hu v hv hux hvy
    rw [List.inj_on_of_nodup_map hids hu (g.candidates_perm.mem_iff.1 hx) hux,
      List.inj_on_of_nodup_map hids hv (g.candidates_perm.mem_iff.1 hy) hvy]
    exact hxy
  have hmem : ∀ n ∈ g.nodes, n.id ∈ g.candidates.map (·.id) := fun n hn =>
    List.mem_map_of_mem (g.candidates_perm.mem_iff.2 hn)
  constructor
  · intro hlt
    exact idxOf_lt_of_pairwise hpairwise (hmem v hv) hlt u hu v hv rfl rfl
  · intro hlt
    by_contra hle
    rcases eq_or_lt_of_le (not_lt.1 hle) with heq | hlt'
    · have hid : v.id = u.id := (List.idxOf_inj (hmem v hv)).1 heq
      rw [List.inj_on_of_nodup_map hids hv hu hid] at hlt
      exact lt_irrefl _ hlt
    · have hgt := idxOf_lt_of_pairwise hpairwise (hmem u hu) hlt' v hv u hu rfl rfl
      exact lt_asymm hlt hgt

/-! ## Positions of nodes that have dependencies -/

/-- The node waits for nothing. -/
def IsFree (g : Graph γ) (n : Node γ) : Prop := ∀ u, ¬ g.Feeds u n

/-- The largest position of a dependency of the node. -/
noncomputable def latest (g : Graph γ) (n : Node γ) : ℕ :=
  sSup {i | ∃ u, g.Feeds u n ∧ g.position u.id = i}

/-- A path of so many links that ends at the node. -/
inductive PathTo (g : Graph γ) : ℕ → Node γ → Prop
  | nil (n : Node γ) : PathTo g 0 n
  | snoc {k : ℕ} {u n : Node γ} (path : PathTo g k u) (last : g.Feeds u n) : PathTo g (k + 1) n

/-- The number of links on the longest path that ends at the node. -/
noncomputable def depth (g : Graph γ) (n : Node γ) : ℕ := sSup {k | g.PathTo k n}

namespace Ordered

variable (h : g.Ordered)

include h

/-- The largest position of a dependency is the position of one. -/
theorem exists_latest {n : Node γ} (hn : n ∈ g.nodes) (hwaits : ¬ g.IsFree n) :
    (∃ u, g.Feeds u n ∧ g.position u.id = g.latest n) ∧
      ∀ u, g.Feeds u n → g.position u.id ≤ g.latest n := by
  have hbounded : BddAbove {i | ∃ u, g.Feeds u n ∧ g.position u.id = i} := by
    refine ⟨g.position n.id, ?_⟩
    rintro i ⟨u, hfeeds, rfl⟩
    exact (h.position_lt hn hfeeds).le
  simp only [IsFree, not_forall, not_not] at hwaits
  obtain ⟨u, hu⟩ := hwaits
  have hattained : g.latest n ∈ {i | ∃ u, g.Feeds u n ∧ g.position u.id = i} :=
    Nat.sSup_mem ⟨_, u, hu, rfl⟩ hbounded
  exact ⟨hattained, fun v hv => le_csSup hbounded ⟨v, hv, rfl⟩⟩

/-- The stage of a node that waits is the place behind its last dependency. -/
theorem stage_eq {ws : List Waiting} (hplan : g.plan = .ok (Planner.order ws)) {n : Node γ}
    {w : Waiting} (hwait : g.IsWait n w) (hn : n ∈ g.nodes) (hwaits : ¬ g.IsFree n) :
    Planner.stage (Planner.order ws) w.needs = g.latest n + 1 := by
  obtain ⟨⟨u, hu, hlast⟩, hle⟩ := h.exists_latest hn hwaits
  rw [position_eq hplan] at hlast
  rw [Planner.stage_eq_of_last ((hwait.2 u.id).2 ⟨u, rfl, hu⟩), hlast]
  intro id hid
  obtain ⟨v, rfl, hv⟩ := (hwait.2 id).1 hid
  rw [hlast, ← position_eq hplan]
  exact hle v hv

/-- A node that waits comes before another one if its last dependency does, or if they have this in
common and it has the smaller rank. -/
theorem precedes_of_position_lt {u v : Node γ} (hu : u ∈ g.nodes) (hv : v ∈ g.nodes)
    (hu' : ¬ g.IsFree u) (hv' : ¬ g.IsFree v) (hlt : g.position u.id < g.position v.id) :
    toLex (g.latest u, g.rank u.id) < toLex (g.latest v, g.rank v.id) := by
  obtain ⟨ws, s, hplan, hlen⟩ := h.exists_schedule
  obtain ⟨w, hw, hwait⟩ := exists_wait_of_mem s.isWait (g.candidates_perm.mem_iff.2 hu)
  obtain ⟨x, hx, hwait'⟩ := exists_wait_of_mem s.isWait (g.candidates_perm.mem_iff.2 hv)
  have hmem : v.id ∈ Planner.order ws :=
    (Planner.order_perm_of_length s.closed hlen).mem_iff.2 (s.mem_ids_iff.2 ⟨v, hv, rfl⟩)
  rw [position_eq hplan, position_eq hplan] at hlt
  have hearlier := idxOf_lt_of_pairwise (Planner.order_pairwise s.closed) hmem hlt w hw x hx
    hwait.1 hwait'.1
  rw [h.stage_eq hplan hwait hu hu', h.stage_eq hplan hwait' hv hv', s.map_id] at hearlier
  simp only [Prod.Lex.toLex_lt_toLex] at hearlier ⊢
  rcases hearlier with hlt | ⟨heq, hlt⟩
  · exact .inl (by omega)
  · exact .inr ⟨by omega, hlt⟩

private theorem eq_of_position_eq {u v : Node γ} (hu : u ∈ g.nodes) (hv : v ∈ g.nodes)
    (heq : g.position u.id = g.position v.id) : u = v := by
  obtain ⟨order, horder⟩ := h.planned
  have hmem : u.id ∈ order := (h.plan_perm horder).mem_iff.2 (List.mem_map_of_mem hu)
  rw [position_eq horder, position_eq horder] at heq
  exact List.inj_on_of_nodup_map h.ids_nodup hu hv ((List.idxOf_inj hmem).1 heq)

/-- The order of nodes that wait. -/
theorem position_lt_iff {u v : Node γ} (hu : u ∈ g.nodes) (hv : v ∈ g.nodes)
    (hu' : ¬ g.IsFree u) (hv' : ¬ g.IsFree v) : g.position u.id < g.position v.id ↔
      toLex (g.latest u, g.rank u.id) < toLex (g.latest v, g.rank v.id) := by
  constructor
  · exact h.precedes_of_position_lt hu hv hu' hv'
  · intro hlt
    by_contra hle
    rcases eq_or_lt_of_le (not_lt.1 hle) with heq | hlt'
    · rw [h.eq_of_position_eq hv hu heq] at hlt
      exact lt_irrefl _ hlt
    · exact lt_asymm hlt (h.precedes_of_position_lt hv hu hv' hu' hlt')

/-! ## Nodes that wait for nothing -/

omit h in
open Classical in
/-- The nodes that the queue starts with. -/
theorem ready_eq {ns : List (Node γ)} {ws : List Waiting} (hwaits : List.Forall₂ g.IsWait ns ws) :
    Planner.ready ws = (ns.filter fun n => g.IsFree n).map (·.id) := by
  induction hwaits with
  | nil => rfl
  | @cons n w ns ws hwait _ ih =>
    have hfree : w.needs.isEmpty = decide (g.IsFree n) := by
      rw [Bool.eq_iff_iff, List.isEmpty_iff, List.eq_nil_iff_forall_not_mem, decide_eq_true_iff]
      simp only [hwait.2, not_exists, not_and, IsFree]
      exact ⟨fun hnone u hu => hnone u.id u rfl hu, fun hfree _ u _ hu => hfree u hu⟩
    rw [Planner.ready] at ih ⊢
    rw [List.filter_cons, List.filter_cons, hfree]
    split
    · rw [List.map_cons, List.map_cons, ih, hwait.1]
    · exact ih

/-- The free nodes stand in front of all others. -/
theorem exists_ids_front {order : List NodeId} (horder : g.plan = .ok order) :
    ∃ front rest, order = front ++ rest ∧
      (open Classical in front = (g.candidates.filter fun n => g.IsFree n).map (·.id)) := by
  obtain ⟨ws, s, hplan, -⟩ := h.exists_schedule
  rw [hplan, Except.ok.injEq] at horder
  subst horder
  obtain ⟨rest, hrest⟩ := Planner.ready_isPrefix_order s.closed
  exact ⟨_, rest, hrest.symm, ready_eq s.isWait⟩

/-- A node has its id in the front if and only if it is free. -/
theorem mem_front_iff {n : Node γ} (hn : n ∈ g.nodes) :
    (open Classical in n.id ∈ (g.candidates.filter fun n => g.IsFree n).map (·.id)) ↔
      g.IsFree n := by
  simp only [List.mem_map, List.mem_filter, decide_eq_true_iff, g.candidates_perm.mem_iff]
  constructor
  · rintro ⟨m, ⟨hm, hfree⟩, hid⟩
    rwa [← List.inj_on_of_nodup_map h.ids_nodup hm hn hid]
  · intro hfree
    exact ⟨n, ⟨hn, hfree⟩, rfl⟩

open Classical in
/-- The free nodes come first, by rank. -/
theorem exists_front {order : List NodeId} (horder : g.plan = .ok order) :
    ∃ rest, order.filterMap g.at? = g.candidates.filter (fun n => g.IsFree n) ++ rest ∧
      ∀ n ∈ rest, ¬ g.IsFree n := by
  obtain ⟨front, rest, hsplit, hfront⟩ := h.exists_ids_front horder
  have hnodes : (g.candidates.filter fun n => g.IsFree n) ⊆ g.nodes := by
    intro n hn
    exact g.candidates_perm.mem_iff.1 (List.mem_of_mem_filter hn)
  refine ⟨rest.filterMap g.at?, ?_, ?_⟩
  · rw [hsplit, List.filterMap_append, hfront, filterMap_at?_map_id h.ids_nodup hnodes]
  · intro n hn hfree
    obtain ⟨id, hid, hat⟩ := List.mem_filterMap.1 hn
    rw [← id_of_at? hat] at hid
    have hmem : n.id ∈ front := by
      rw [hfront]
      exact (h.mem_front_iff (mem_of_at? hat)).2 hfree
    have hnodup := h.plan_nodup horder
    rw [hsplit] at hnodup
    exact (List.nodup_append.1 hnodup).2.2 n.id hmem n.id hid rfl

private theorem position_lt_of_isFree {u v : Node γ} (hu : u ∈ g.nodes) (hv : v ∈ g.nodes)
    (hu' : g.IsFree u) (hv' : ¬ g.IsFree v) : g.position u.id < g.position v.id := by
  obtain ⟨order, horder⟩ := h.planned
  obtain ⟨front, rest, hsplit, hfront⟩ := h.exists_ids_front horder
  have hmem : u.id ∈ front := by
    rw [hfront]
    exact (h.mem_front_iff hu).2 hu'
  have hnot : v.id ∉ front := by
    rw [hfront]
    exact fun hmem => hv' ((h.mem_front_iff hv).1 hmem)
  rw [position_eq horder, position_eq horder, hsplit, List.idxOf_append_of_mem hmem,
    List.idxOf_append_of_notMem hnot]
  have := List.idxOf_lt_length_of_mem hmem
  omega

/-! ## Depth -/

private theorem le_position_of_pathTo {k : ℕ} {n : Node γ} (hpath : g.PathTo k n)
    (hn : n ∈ g.nodes) : k ≤ g.position n.id := by
  induction hpath with
  | nil n => exact Nat.zero_le _
  | snoc path last ih =>
    have hle := ih last.mem_left
    have hlt := h.position_lt hn last
    omega

/-- A node has paths as long as those of the nodes in front of it. -/
theorem pathTo_of_lt {u v : Node γ} (hu : u ∈ g.nodes) (hv : v ∈ g.nodes)
    (hlt : g.position u.id < g.position v.id) {k : ℕ} (hpath : g.PathTo k u) : g.PathTo k v := by
  induction hk : g.position v.id using Nat.strong_induction_on generalizing u v k with
  | _ p ih =>
  subst hk
  cases hpath with
  | nil => exact .nil v
  | @snoc k d _ path last =>
    have hu' : ¬ g.IsFree u := fun hfree => hfree d last
    have hv' : ¬ g.IsFree v := by
      intro hfree
      exact lt_asymm hlt (h.position_lt_of_isFree hv hu hfree hu')
    obtain ⟨⟨e, he, hlast⟩, -⟩ := h.exists_latest hv hv'
    have hle : g.position d.id ≤ g.position e.id := by
      have hlex := (h.position_lt_iff hu hv hu' hv').1 hlt
      have hlatest := (h.exists_latest hu hu').2 d last
      rw [Prod.Lex.toLex_lt_toLex] at hlex
      simp only at hlex
      omega
    have hpath : g.PathTo k e := by
      rcases eq_or_lt_of_le hle with heq | hlt'
      · rwa [← h.eq_of_position_eq last.mem_left he.mem_left heq]
      · exact ih _ (h.position_lt hv he) last.mem_left he.mem_left hlt' path rfl
    exact hpath.snoc he

private theorem depth_le_of_lt {u v : Node γ} (hu : u ∈ g.nodes) (hv : v ∈ g.nodes)
    (hlt : g.position u.id < g.position v.id) : g.depth u ≤ g.depth v := by
  apply csSup_le_csSup
  · exact ⟨g.position v.id, fun k hk => h.le_position_of_pathTo hk hv⟩
  · exact ⟨0, .nil u⟩
  · intro k hk
    exact h.pathTo_of_lt hu hv hlt hk

/-- A graph that can be ordered has no circle. -/
theorem acyclic : g.Acyclic := by
  have hlt : ∀ {u v : Node γ}, TransGen g.Feeds u v → v ∈ g.nodes →
      g.position u.id < g.position v.id := by
    intro u v hpath
    induction hpath with
    | single last =>
      intro hv
      exact h.position_lt hv last
    | tail _ last ih =>
      intro hv
      exact (ih last.mem_left).trans (h.position_lt hv last)
  intro n hcircle
  exact lt_irrefl _ (hlt hcircle (mem_left_of_transGen hcircle))

end Ordered

/-! ## Graphs with the same dependencies -/

/-- The second graph has nodes of the same ids and order attributes, inserted in the same order, and
the same ones wait for each other. -/
structure SameDependencies {γ' : Type} (g : Graph γ) (h : Graph γ') : Prop where
  nodes : List.Forall₂ (fun n m => m.id = n.id ∧ m.order = n.order) g.nodes h.nodes
  feeds : ∀ a b, (∃ u v, u.id = a ∧ v ∈ h.nodes ∧ v.id = b ∧ h.Feeds u v) ↔
    ∃ u v, u.id = a ∧ v ∈ g.nodes ∧ v.id = b ∧ g.Feeds u v

section SameDependencies

variable {γ' : Type} {h : Graph γ'}

private theorem forall₂_insertByOrder {n : Node γ} {m : Node γ'}
    (hnode : m.id = n.id ∧ m.order = n.order) {ns : List (Node γ)} {ms : List (Node γ')}
    (hnodes : List.Forall₂ (fun n m => m.id = n.id ∧ m.order = n.order) ns ms) :
    List.Forall₂ (fun n m => m.id = n.id ∧ m.order = n.order) (insertByOrder n ns)
      (insertByOrder m ms) := by
  induction hnodes with
  | nil => exact .cons hnode .nil
  | @cons n' m' ns ms hfirst hrest ih =>
    simp only [insertByOrder, hnode.2, hfirst.2]
    split
    · exact .cons hnode (.cons hfirst hrest)
    · exact .cons hfirst ih

private theorem SameDependencies.candidates (hsame : g.SameDependencies h) :
    List.Forall₂ (fun n m => m.id = n.id ∧ m.order = n.order) g.candidates h.candidates := by
  have hsort : ∀ {ns : List (Node γ)} {ms : List (Node γ')},
      List.Forall₂ (fun n m => m.id = n.id ∧ m.order = n.order) ns ms →
        List.Forall₂ (fun n m => m.id = n.id ∧ m.order = n.order) (sortByOrder ns)
          (sortByOrder ms) := by
    intro ns ms hnodes
    induction hnodes with
    | nil => exact .nil
    | cons hnode _ ih => exact forall₂_insertByOrder hnode ih
  exact hsort hsame.nodes

private theorem SameDependencies.ids (hsame : g.SameDependencies h) :
    h.nodes.map (·.id) = g.nodes.map (·.id) := by
  have hmap : ∀ {ns : List (Node γ)} {ms : List (Node γ')},
      List.Forall₂ (fun n m => m.id = n.id ∧ m.order = n.order) ns ms →
        ms.map (·.id) = ns.map (·.id) := by
    intro ns ms hnodes
    induction hnodes with
    | nil => rfl
    | cons hnode _ ih => rw [List.map_cons, List.map_cons, hnode.1, ih]
  exact hmap hsame.nodes

/-- Nodes of the same id wait for the same. -/
theorem SameDependencies.sameNeeds_of_isWait (hsame : g.SameDependencies h)
    (hids : (g.nodes.map (·.id)).Nodup) {n : Node γ} {m : Node γ'} (hn : n ∈ g.nodes)
    (hm : m ∈ h.nodes) (hid : m.id = n.id) {w x : Waiting} (hwait : g.IsWait n w)
    (hwait' : h.IsWait m x) : Planner.SameNeeds w x := by
  have hids' : (h.nodes.map (·.id)).Nodup := by rwa [hsame.ids]
  refine ⟨hwait.1.trans (hid.symm.trans hwait'.1.symm), fun id => ?_⟩
  rw [hwait.2, hwait'.2]
  have hfeeds := hsame.feeds id n.id
  constructor
  · rintro ⟨u, hu, hun⟩
    obtain ⟨u', m', hu', hm', hid', hfeeds'⟩ := hfeeds.2 ⟨u, n, hu, hn, rfl, hun⟩
    rw [List.inj_on_of_nodup_map hids' hm' hm (hid'.trans hid.symm)] at hfeeds'
    exact ⟨u', hu', hfeeds'⟩
  · rintro ⟨u, hu, hum⟩
    obtain ⟨u', n', hu', hn', hid', hfeeds'⟩ := hfeeds.1 ⟨u, m, hu, hm, hid, hum⟩
    rw [List.inj_on_of_nodup_map hids hn' hn hid'] at hfeeds'
    exact ⟨u', hu', hfeeds'⟩

private theorem forall₂_sameNeeds {ns : List (Node γ)} {ms : List (Node γ')} {ws ws' : List Waiting}
    (hnodes : List.Forall₂ (fun n m => ∀ w x, g.IsWait n w → h.IsWait m x →
      Planner.SameNeeds w x) ns ms)
    (hwaits : List.Forall₂ g.IsWait ns ws) (hwaits' : List.Forall₂ h.IsWait ms ws') :
    List.Forall₂ Planner.SameNeeds ws ws' := by
  induction hnodes generalizing ws ws' with
  | nil =>
    cases hwaits
    cases hwaits'
    exact .nil
  | cons hnode _ ih =>
    obtain ⟨w, ws, hwait, hrest, rfl⟩ := List.forall₂_cons_left_iff.1 hwaits
    obtain ⟨x, ws', hwait', hrest', rfl⟩ := List.forall₂_cons_left_iff.1 hwaits'
    exact .cons (hnode w x hwait hwait') (ih hrest hrest')

/-- What the nodes wait for is the same in both graphs. -/
theorem SameDependencies.sameNeeds (hsame : g.SameDependencies h) {ws ws' : List Waiting}
    (s : Schedule g ws) (s' : Schedule h ws') : List.Forall₂ Planner.SameNeeds ws ws' := by
  apply forall₂_sameNeeds ?_ s.isWait s'.isWait
  have hnodes : List.Forall₂ (fun n m => n ∈ g.nodes ∧ m ∈ h.nodes ∧ m.id = n.id)
      g.candidates h.candidates := by
    rw [List.forall₂_iff_get]
    refine ⟨hsame.candidates.length_eq, fun i hi hi' => ⟨?_, ?_, ?_⟩⟩
    · exact g.candidates_perm.mem_iff.1 (List.get_mem ..)
    · exact h.candidates_perm.mem_iff.1 (List.get_mem ..)
    · exact ((List.forall₂_iff_get.1 hsame.candidates).2 i hi hi').1
  apply hnodes.imp
  intro n m hnode w x hwait hwait'
  exact hsame.sameNeeds_of_isWait s.ids_nodup hnode.1 hnode.2.1 hnode.2.2 hwait hwait'

/-- The order depends on ids, order attributes and who waits for whom. -/
theorem SameDependencies.plan_eq (hsame : g.SameDependencies h)
    (hids : (g.nodes.map (·.id)).Nodup) (hread : g.OriginsReadable) (hread' : h.OriginsReadable)
    (hfree : g.Acyclic) : h.plan = g.plan := by
  have hids' : (h.nodes.map (·.id)).Nodup := by rwa [hsame.ids]
  obtain ⟨ws, hws, s⟩ := exists_schedule hids hread
  obtain ⟨ws', hws', s'⟩ := exists_schedule hids' hread'
  have hneeds := hsame.sameNeeds s s'
  have hplan := plan_of_acyclic hws s hfree
  have hlen := (Planner.length_order_eq_iff s.closed).2 (s.acyclic_iff.1 hfree)
  rw [Planner.order_congr hneeds, hneeds.length_eq] at hlen
  rw [hplan, Planner.order_congr hneeds]
  simp [plan, hws', bind, Except.bind, pure, Except.pure, hlen]

end SameDependencies

/-! ## The order -/

private theorem map_id_of_planned {order : List (Node γ)} {ids : List NodeId} (h : g.Ordered)
    (hplan : g.plan = .ok ids) (horder : g.planned = .ok order) :
    order = ids.filterMap g.at? ∧ order.map (·.id) = ids := by
  have heq : order = ids.filterMap g.at? := by
    simpa [planned, hplan, bind, Except.bind, pure, Except.pure, eq_comm] using horder
  rw [heq]
  exact ⟨rfl, map_id_filterMap_at? (h.plan_perm hplan).subset⟩

open Classical in
/-- A graph without circles has one execution order, given by candidate order and dependencies alone.
Candidates go by order attribute, then by insertion.  The nodes without dependencies come first, as
candidates; any two others go by the position of their last dependency, then as candidates.  So
nodes are sorted by depth, and every graph with the same dependencies has the same order. -/
theorem planned_canonical (g : Graph γ) (hids : (g.nodes.map (·.id)).Nodup)
    (hread : g.OriginsReadable) (hfree : g.Acyclic) :
    (∀ u ∈ g.nodes, ∀ v ∈ g.nodes, g.rank u.id < g.rank v.id ↔
      toLex (u.order, g.insertion u.id) < toLex (v.order, g.insertion v.id)) ∧
    ∃ order, g.planned = .ok order ∧ order.Perm g.nodes ∧
      (∀ (i : ℕ) n, order[i]? = some n → g.position n.id = i) ∧
      (∃ rest, order = g.candidates.filter (fun n => g.IsFree n) ++ rest ∧
        ∀ n ∈ rest, ¬ g.IsFree n) ∧
      (∀ u ∈ g.nodes, ∀ v ∈ g.nodes, ¬ g.IsFree u → ¬ g.IsFree v →
        (g.position u.id < g.position v.id ↔
          toLex (g.latest u, g.rank u.id) < toLex (g.latest v, g.rank v.id))) ∧
      (order.Pairwise fun u v => g.depth u ≤ g.depth v) ∧
      ∀ {γ' : Type} (h : Graph γ'), h.OriginsReadable → g.SameDependencies h →
        ∃ order', h.planned = .ok order' ∧ order'.map (·.id) = order.map (·.id) := by
  obtain ⟨ws, hws, s⟩ := exists_schedule hids hread
  have hplan := plan_of_acyclic hws s hfree
  have h : g.Ordered := ⟨hids, _, hplan⟩
  generalize Planner.order ws = ids at hplan
  have hplanned : g.planned = .ok (ids.filterMap g.at?) := by
    simp [planned, hplan, bind, Except.bind, pure, Except.pure]
  obtain ⟨-, hmap⟩ := map_id_of_planned h hplan hplanned
  have hperm := h.filterMap_plan_perm hplan
  refine ⟨fun u hu v hv => rank_lt_iff hids hu hv, _, hplanned, hperm, ?_, h.exists_front hplan,
    fun u hu v hv => h.position_lt_iff hu hv, ?_, ?_⟩
  · intro i n hn
    have hid : ids[i]? = some n.id := by
      rw [← hmap, List.getElem?_map, hn, Option.map_some]
    obtain ⟨hi, hget⟩ := List.getElem?_eq_some_iff.1 hid
    rw [position_eq hplan, ← hget, (h.plan_nodup hplan).idxOf_getElem]
  · apply (h.filterMap_plan_pairwise hplan).imp_of_mem
    intro u v hu hv hlt
    exact h.depth_le_of_lt (hperm.mem_iff.1 hu) (hperm.mem_iff.1 hv) hlt
  · intro γ' h' hread' hsame
    have hplan' := (hsame.plan_eq hids hread hread' hfree).trans hplan
    have h'' : h'.Ordered := ⟨by rwa [hsame.ids], _, hplan'⟩
    have hplanned' : h'.planned = .ok (ids.filterMap h'.at?) := by
      simp [planned, hplan', bind, Except.bind, pure, Except.pure]
    exact ⟨_, hplanned', (map_id_of_planned h'' hplan' hplanned').2.trans hmap.symm⟩

/-- Two nodes that wait for nothing, one node that waits for each of them, one that waits for both,
twice for the one. -/
def staggered : Graph Empty where
  nodes := [
    { id := .number 1, type := "Late", title := none, order := 2 },
    { id := .number 2, type := "Early", title := none, order := 1 },
    { id := .number 3, type := "BehindLate", title := none,
      inputs := [{ name := "x", link := some 1 }] },
    { id := .number 4, type := "BehindBoth", title := none, order := 1,
      inputs := [{ name := "x", link := some 2 }, { name := "y", link := some 3 },
        { name := "z", link := some 4 }] },
    { id := .name "5", type := "BehindEarly", title := none,
      inputs := [{ name := "x", link := some 5 }] }]
  links := [
    ⟨.number 1, .int 1, .number 0, .int 3, .number 0, .str "*"⟩,
    ⟨.number 2, .int 1, .number 0, .int 4, .number 0, .str "*"⟩,
    ⟨.number 3, .int 2, .number 0, .int 4, .number 1, .str "*"⟩,
    ⟨.number 4, .int 1, .number 1, .int 4, .number 2, .str "*"⟩,
    ⟨.number 5, .str "2", .number 0, .int 5, .number 0, .str "*"⟩]

/-- The node behind the earlier one comes before the nodes behind the later one. -/
theorem plan_staggered :
    staggered.plan = .ok [.number 2, .number 1, .name "5", .number 3, .number 4] := rfl

open Classical in
/-- Of two nodes that wait, the one comes first whose last producer does. -/
theorem staggered_canonical :
    (staggered.nodes.map (·.id)).Nodup ∧ staggered.OriginsReadable ∧ staggered.Acyclic ∧
      ∃ order, staggered.planned = .ok order ∧
        (order.Pairwise fun u v => staggered.depth u ≤ staggered.depth v) ∧
        ∀ u ∈ staggered.nodes, ∀ v ∈ staggered.nodes, ¬ staggered.IsFree u →
          ¬ staggered.IsFree v → (staggered.position u.id < staggered.position v.id ↔
            toLex (staggered.latest u, staggered.rank u.id) <
              toLex (staggered.latest v, staggered.rank v.id)) := by
  have hids : (staggered.nodes.map (·.id)).Nodup := by decide
  have h : staggered.Ordered := ⟨hids, _, plan_staggered⟩
  obtain ⟨-, order, horder, -, -, -, hlex, hdepth, -⟩ :=
    planned_canonical staggered hids h.originsReadable h.acyclic
  exact ⟨hids, h.originsReadable, h.acyclic, order, horder, hdepth, hlex⟩

end Graph

end NodeFlow
