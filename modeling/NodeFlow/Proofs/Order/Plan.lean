import NodeFlow.Proofs.Order.Planner

/-!
# The execution order

A graph is ordered if and only if no node feeds itself along links.  The order then holds every node
once, and a node that feeds another before it.  Otherwise the fault names the nodes that lie on a
circle or are reached from one, in candidate order.

Main results:

- Definitions `Graph.Feeds`, `Graph.Acyclic` and `Graph.Trapped`: the links between nodes as a
  relation.
- Theorem `Graph.exists_waitingList`: what the nodes wait for, read off that relation.
- Theorem `Graph.planned_sorts_or_names_circles`: the outcome of planning in all cases.
-/

namespace NodeFlow

namespace Graph

open Relation

variable {γ : Type} {g : Graph γ}

/-! ## Nodes that feed others -/

/-- The first node feeds the second: an input of the second holds a link that is there, and the
origin of that link is the first. -/
def Feeds (g : Graph γ) (u v : Node γ) : Prop :=
  ∃ slot ∈ v.inputs, ∃ l, slot.link.bind g.link? = some l ∧ g.lookup? l.origin = .ok (some u)

/-- No node feeds itself, directly or through others. -/
def Acyclic (g : Graph γ) : Prop := ∀ n, ¬ TransGen g.Feeds n n

/-- A node that lies on a circle or is reached from one. -/
def Trapped (g : Graph γ) (n : Node γ) : Prop :=
  ∃ c, TransGen g.Feeds c c ∧ ReflTransGen g.Feeds c n

/-- The origin of every link that an input holds can be looked up, whether or not it is found. -/
def OriginsReadable (g : Graph γ) : Prop :=
  ∀ n ∈ g.nodes, ∀ slot ∈ n.inputs, ∀ l, slot.link.bind g.link? = some l →
    ∃ found, g.lookup? l.origin = .ok found

/-- A node that feeds another one is in the graph. -/
theorem Feeds.mem_left {u v : Node γ} (h : g.Feeds u v) : u ∈ g.nodes := by
  rcases h with ⟨_, _, _, _, hfound⟩
  exact mem_of_lookup? hfound

/-- A node that a chain starts from is in the graph. -/
theorem mem_left_of_transGen {u v : Node γ} (h : TransGen g.Feeds u v) : u ∈ g.nodes := by
  rcases TransGen.head'_iff.1 h with ⟨_, hfirst, -⟩
  exact hfirst.mem_left

/-! ## What a node waits for -/

private theorem producer?_eq_some_iff {slot : InputSlot} {id : NodeId} :
    g.producer? slot = .ok (some id) ↔
      ∃ l u, slot.link.bind g.link? = some l ∧ g.lookup? l.origin = .ok (some u) ∧ u.id = id := by
  unfold producer?
  cases hlink : slot.link.bind g.link? with
  | none => simp
  | some l =>
    cases hfound : g.lookup? l.origin with
    | error f => simp [bind, Except.bind, hfound]
    | ok found => cases found <;> simp [bind, Except.bind, pure, Except.pure, hfound]

private theorem exists_producer? (hread : g.OriginsReadable) {n : Node γ} (hn : n ∈ g.nodes)
    {slot : InputSlot} (hslot : slot ∈ n.inputs) : ∃ found, g.producer? slot = .ok found := by
  unfold producer?
  cases hlink : slot.link.bind g.link? with
  | none => exact ⟨none, rfl⟩
  | some l =>
    rcases hread n hn slot hslot l hlink with ⟨found, hfound⟩
    exact ⟨found.map (·.id), by simp [bind, Except.bind, pure, Except.pure, hfound]⟩

/-- The producers behind inputs are collected one by one. -/
theorem exists_producers {slots : List InputSlot}
    (hread : ∀ slot ∈ slots, ∃ found, g.producer? slot = .ok found) (known : List NodeId) :
    ∃ ids, g.producers slots known = .ok ids ∧
      ∀ id, id ∈ ids ↔ id ∈ known ∨ ∃ slot ∈ slots, g.producer? slot = .ok (some id) := by
  induction slots generalizing known with
  | nil => exact ⟨known, rfl, by simp⟩
  | cons slot slots ih =>
    rcases hread slot List.mem_cons_self with ⟨found, hfound⟩
    have hrest : ∀ s ∈ slots, ∃ found, g.producer? s = .ok found := fun s hs =>
      hread s (List.mem_cons_of_mem slot hs)
    cases found with
    | none =>
      rcases ih hrest known with ⟨ids, hids, hmem⟩
      refine ⟨ids, by simp [producers, hfound, bind, Except.bind, hids], ?_⟩
      intro id
      simp [hmem, hfound]
    | some first =>
      obtain ⟨ids, hids, hmem⟩ :=
        ih hrest (if known.contains first then known else known ++ [first])
      refine ⟨ids, by simpa [producers, hfound, bind, Except.bind] using hids, ?_⟩
      intro id
      have hknown : id ∈ (if known.contains first then known else known ++ [first]) ↔
          id ∈ known ∨ first = id := by
        split
        · rename_i hcontains
          grind
        · grind
      simp only [hmem, hknown, List.mem_cons, exists_eq_or_imp, hfound, Except.ok.injEq,
        Option.some.injEq, or_assoc]

/-- A node waits for those that feed it. -/
theorem exists_dependencies (hread : g.OriginsReadable) {n : Node γ} (hn : n ∈ g.nodes) :
    ∃ ids, g.dependencies n = .ok ids ∧ ∀ id, id ∈ ids ↔ ∃ u, u.id = id ∧ g.Feeds u n := by
  obtain ⟨ids, hids, hmem⟩ :=
    exists_producers (fun slot hslot => exists_producer? hread hn hslot) []
  refine ⟨ids, hids, ?_⟩
  intro id
  simp only [hmem, List.not_mem_nil, false_or, producer?_eq_some_iff, Feeds]
  constructor
  · rintro ⟨slot, hslot, l, u, hlink, hfound, hid⟩
    exact ⟨u, hid, slot, hslot, l, hlink, hfound⟩
  · rintro ⟨u, hid, slot, hslot, l, hlink, hfound⟩
    exact ⟨slot, hslot, l, u, hlink, hfound, hid⟩

/-- An entry of the waiting list is right for a node. -/
def IsWait (g : Graph γ) (n : Node γ) (w : Waiting) : Prop :=
  w.id = n.id ∧ ∀ id, id ∈ w.needs ↔ ∃ u, u.id = id ∧ g.Feeds u n

/-- Where origins can be read, what each node waits for can be told. -/
theorem exists_waitingList (hread : g.OriginsReadable) {ns : List (Node γ)} (hns : ns ⊆ g.nodes) :
    ∃ ws, g.waitingList ns = .ok ws ∧ List.Forall₂ g.IsWait ns ws := by
  induction ns with
  | nil => exact ⟨[], rfl, .nil⟩
  | cons n ns ih =>
    rcases exists_dependencies hread (hns List.mem_cons_self) with ⟨needs, hneeds, hmem⟩
    rcases ih fun m hm => hns (List.mem_cons_of_mem n hm) with ⟨ws, hws, hall⟩
    exact ⟨⟨n.id, needs⟩ :: ws,
      by simp [waitingList, hneeds, hws, bind, Except.bind, pure, Except.pure],
      .cons ⟨rfl, hmem⟩ hall⟩

/-! ## The relation on ids and the one on nodes -/

section Waiting

variable {ns : List (Node γ)} {ws : List Waiting}

private theorem map_id_of_isWait (h : List.Forall₂ g.IsWait ns ws) :
    ws.map (·.id) = ns.map (·.id) := by
  induction h with
  | nil => rfl
  | cons hw _ ih => simp [hw.1, ih]

private theorem exists_node_of_isWait (h : List.Forall₂ g.IsWait ns ws) {w : Waiting}
    (hw : w ∈ ws) : ∃ n ∈ ns, g.IsWait n w := by
  induction h with
  | nil => cases hw
  | @cons n x ns ws hx _ ih =>
    rcases List.mem_cons.1 hw with rfl | hw
    · exact ⟨n, List.mem_cons_self, hx⟩
    · rcases ih hw with ⟨m, hm, hwait⟩
      exact ⟨m, List.mem_cons_of_mem n hm, hwait⟩

/-- For each node there is what it waits for. -/
theorem exists_wait_of_mem (h : List.Forall₂ g.IsWait ns ws) {n : Node γ} (hn : n ∈ ns) :
    ∃ w ∈ ws, g.IsWait n w := by
  induction h with
  | nil => cases hn
  | @cons m x ns ws hx _ ih =>
    rcases List.mem_cons.1 hn with rfl | hn
    · exact ⟨x, List.mem_cons_self, hx⟩
    · rcases ih hn with ⟨w, hw, hwait⟩
      exact ⟨w, List.mem_cons_of_mem x hw, hwait⟩

/-- What the nodes of a graph wait for, in the order of its candidates. -/
structure Schedule (g : Graph γ) (ws : List Waiting) : Prop where
  ids_nodup : (g.nodes.map (·.id)).Nodup
  isWait : List.Forall₂ g.IsWait g.candidates ws

variable (s : Schedule g ws)

include s

/-- The nodes wait in the order of the candidates. -/
theorem Schedule.map_id : ws.map (·.id) = g.candidates.map (·.id) := map_id_of_isWait s.isWait

/-- Every node waits exactly once. -/
theorem Schedule.ids_perm : (ws.map (·.id)).Perm (g.nodes.map (·.id)) := by
  rw [s.map_id]
  exact g.candidates_perm.map _

/-- What waits are the nodes of the graph. -/
theorem Schedule.mem_ids_iff {id : NodeId} :
    id ∈ ws.map (·.id) ↔ ∃ n ∈ g.nodes, n.id = id := by
  rw [s.map_id, List.mem_map]
  simp only [g.candidates_perm.mem_iff]

private theorem Schedule.eq_of_id_eq {u v : Node γ} (hu : u ∈ g.nodes) (hv : v ∈ g.nodes)
    (hid : u.id = v.id) : u = v := List.inj_on_of_nodup_map s.ids_nodup hu hv hid

/-- The nodes wait for each other only. -/
theorem Schedule.closed : Planner.Closed ws where
  ids_nodup := s.ids_perm.nodup_iff.2 s.ids_nodup
  needs_mem := by
    intro w hw id hid
    rcases exists_node_of_isWait s.isWait hw with ⟨n, -, hwait⟩
    rcases (hwait.2 id).1 hid with ⟨u, rfl, hfeeds⟩
    exact s.mem_ids_iff.2 ⟨u, hfeeds.mem_left, rfl⟩

/-- A node waits for those that feed it. -/
theorem Schedule.needs_of_feeds {u v : Node γ} (hv : v ∈ g.nodes) (hfeeds : g.Feeds u v) :
    Planner.Needs ws u.id v.id := by
  rcases exists_wait_of_mem s.isWait (g.candidates_perm.mem_iff.2 hv) with ⟨w, hw, hwait⟩
  exact ⟨w, hw, hwait.1, (hwait.2 u.id).2 ⟨u, rfl, hfeeds⟩⟩

private theorem Schedule.exists_feeds_of_needs {id : NodeId} {v : Node γ} (hv : v ∈ g.nodes)
    (hneeds : Planner.Needs ws id v.id) : ∃ u, u.id = id ∧ g.Feeds u v := by
  rcases hneeds with ⟨w, hw, hid, hmem⟩
  rcases exists_node_of_isWait s.isWait hw with ⟨n, hn, hwait⟩
  have hsame : n = v :=
    s.eq_of_id_eq (g.candidates_perm.mem_iff.1 hn) hv (hwait.1.symm.trans hid)
  rw [hsame] at hwait
  exact (hwait.2 id).1 hmem

private theorem Schedule.transGen_needs {u v : Node γ} (hv : v ∈ g.nodes)
    (hfeeds : TransGen g.Feeds u v) : TransGen (Planner.Needs ws) u.id v.id := by
  induction hfeeds with
  | single hstep => exact .single (s.needs_of_feeds hv hstep)
  | tail _ hstep ih => exact .tail (ih hstep.mem_left) (s.needs_of_feeds hv hstep)

private theorem Schedule.transGen_feeds {id : NodeId} {v : Node γ} (hv : v ∈ g.nodes)
    (hneeds : TransGen (Planner.Needs ws) id v.id) : ∃ u, u.id = id ∧ TransGen g.Feeds u v := by
  induction hneeds using TransGen.head_induction_on with
  | single hstep =>
    rcases s.exists_feeds_of_needs hv hstep with ⟨u, hid, hfeeds⟩
    exact ⟨u, hid, .single hfeeds⟩
  | head hstep _ ih =>
    rcases ih with ⟨m, rfl, hpath⟩
    rcases s.exists_feeds_of_needs (mem_left_of_transGen hpath) hstep with ⟨u, hid, hfeeds⟩
    exact ⟨u, hid, .head hfeeds hpath⟩

private theorem Schedule.transGen_self_iff {n : Node γ} (hn : n ∈ g.nodes) :
    TransGen (Planner.Needs ws) n.id n.id ↔ TransGen g.Feeds n n := by
  constructor
  · intro hneeds
    rcases s.transGen_feeds hn hneeds with ⟨u, hid, hpath⟩
    rwa [s.eq_of_id_eq (mem_left_of_transGen hpath) hn hid] at hpath
  · exact s.transGen_needs hn

/-- A graph is acyclic exactly if no node waits for itself, however indirectly. -/
theorem Schedule.acyclic_iff : g.Acyclic ↔ ∀ id, ¬ TransGen (Planner.Needs ws) id id := by
  constructor
  · intro hfree id hneeds
    rcases s.mem_ids_iff.1 (Planner.mem_ids_of_needs hneeds) with ⟨n, hn, rfl⟩
    exact hfree n ((s.transGen_self_iff hn).1 hneeds)
  · intro hfree n hpath
    exact hfree n.id (s.transGen_needs (mem_left_of_transGen hpath) hpath)

private theorem Schedule.trapped_iff {n : Node γ} (hn : n ∈ g.nodes) :
    Planner.Trapped ws n.id ↔ g.Trapped n := by
  constructor
  · rintro ⟨id, hcircle, hreach⟩
    rcases s.mem_ids_iff.1 (Planner.mem_ids_of_needs hcircle) with ⟨c, hc, rfl⟩
    refine ⟨c, (s.transGen_self_iff hc).1 hcircle, ?_⟩
    rcases reflTransGen_iff_eq_or_transGen.1 hreach with hid | hpath
    · rw [s.eq_of_id_eq hn hc hid]
    · rcases s.transGen_feeds hn hpath with ⟨u, hid, hfeeds⟩
      rw [s.eq_of_id_eq (mem_left_of_transGen hfeeds) hc hid] at hfeeds
      exact hfeeds.to_reflTransGen
  · rintro ⟨c, hcircle, hreach⟩
    refine ⟨c.id, s.transGen_needs (mem_left_of_transGen hcircle) hcircle, ?_⟩
    rcases reflTransGen_iff_eq_or_transGen.1 hreach with rfl | hpath
    · exact .refl
    · exact (s.transGen_needs hn hpath).to_reflTransGen

end Waiting

/-! ## The order -/

/-- Nodes that are looked up under ids of the graph have these ids. -/
theorem map_id_filterMap_at? {ids : List NodeId} (hids : ids ⊆ g.nodes.map (·.id)) :
    (ids.filterMap g.at?).map (·.id) = ids := by
  induction ids with
  | nil => rfl
  | cons id ids ih =>
    rcases List.mem_map.1 (hids List.mem_cons_self) with ⟨n, hn, hid⟩
    have hsome : (g.at? id).isSome := List.find?_isSome.2 ⟨n, hn, by simpa using hid⟩
    rcases Option.isSome_iff_exists.1 hsome with ⟨m, hm⟩
    simp [hm, id_of_at? hm, ih fun x hx => hids (List.mem_cons_of_mem id hx)]

/-- Nodes of the graph are found under their own ids. -/
theorem filterMap_at?_map_id (hnodup : (g.nodes.map (·.id)).Nodup) {ns : List (Node γ)}
    (hns : ns ⊆ g.nodes) : (ns.map (·.id)).filterMap g.at? = ns := by
  induction ns with
  | nil => rfl
  | cons n ns ih =>
    simp [at?_of_mem hnodup (hns List.mem_cons_self),
      ih fun x hx => hns (List.mem_cons_of_mem n hx)]

/-- Nodes that are looked up under the ids of the graph are those of the graph. -/
theorem filterMap_at?_perm (hnodup : (g.nodes.map (·.id)).Nodup) {ids : List NodeId}
    (hperm : ids.Perm (g.nodes.map (·.id))) : (ids.filterMap g.at?).Perm g.nodes := by
  have hnodes := hperm.filterMap g.at?
  rwa [filterMap_at?_map_id hnodup (List.Subset.refl _)] at hnodes

/-- Where ids are distinct and origins can be read, there is a schedule. -/
theorem exists_schedule (hids : (g.nodes.map (·.id)).Nodup) (hread : g.OriginsReadable) :
    ∃ ws, g.waitingList g.candidates = .ok ws ∧ Schedule g ws := by
  rcases exists_waitingList hread g.candidates_perm.subset with ⟨ws, hws, hall⟩
  exact ⟨ws, hws, hids, hall⟩

section Planned

variable {ws : List Waiting} (hws : g.waitingList g.candidates = .ok ws) (s : Schedule g ws)

include hws s

/-- An acyclic graph is planned. -/
theorem plan_of_acyclic (hfree : g.Acyclic) : g.plan = .ok (Planner.order ws) := by
  have hlen := (Planner.length_order_eq_iff s.closed).2 (s.acyclic_iff.1 hfree)
  simp [plan, hws, bind, Except.bind, pure, Except.pure, hlen]

open Classical in
/-- A graph with circles is refused with the nodes that have one upstream. -/
theorem plan_of_not_acyclic (hcircle : ¬ g.Acyclic) :
    g.plan = .error (.cyclic ((g.candidates.filter fun n => g.Trapped n).map (·.id))) := by
  have hlen : (Planner.order ws).length ≠ ws.length := by
    intro hlen
    exact hcircle (s.acyclic_iff.2 ((Planner.length_order_eq_iff s.closed).1 hlen))
  have hleft : (ws.map (·.id)).filter (fun id => !(Planner.order ws).contains id) =
      (g.candidates.filter fun n => g.Trapped n).map (·.id) := by
    rw [s.map_id, List.filter_map]
    congr 1
    apply List.filter_congr
    intro n hn
    have hmem : n ∈ g.nodes := g.candidates_perm.mem_iff.1 hn
    have hplaced := Planner.mem_order_iff s.closed (s.mem_ids_iff.2 ⟨n, hmem, rfl⟩)
    rw [s.trapped_iff hmem] at hplaced
    simp [hplaced]
  rw [← hleft]
  simp [plan, hws, bind, Except.bind, throw, throwThe, MonadExceptOf.throw, hlen]

omit hws in
/-- A node comes after those that feed it. -/
theorem sublist_of_feeds {u v : Node γ} (hv : v ∈ g.nodes) (hfeeds : g.Feeds u v)
    (hplaced : v.id ∈ Planner.order ws) :
    [u, v].Sublist ((Planner.order ws).filterMap g.at?) := by
  rcases List.append_of_mem hplaced with ⟨front, back, hsplit⟩
  have hmem : u.id ∈ front :=
    (Planner.order_progress s.closed).before front v.id back hsplit u.id
      (s.needs_of_feeds hv hfeeds)
  have hu : u ∈ front.filterMap g.at? :=
    List.mem_filterMap.2 ⟨u.id, hmem, at?_of_mem s.ids_nodup hfeeds.mem_left⟩
  rw [hsplit, List.filterMap_append, List.filterMap_cons_some (at?_of_mem s.ids_nodup hv)]
  exact (List.singleton_sublist.2 hu).append (List.singleton_sublist.2 List.mem_cons_self)

end Planned

open Classical in
/-- Planning gives an order if and only if there is no circle.  The order holds every node once and
producers before their consumers; without one, the fault names the nodes that lie on a circle or are
reached from one, in candidate order. -/
theorem planned_sorts_or_names_circles (g : Graph γ) (hids : (g.nodes.map (·.id)).Nodup)
    (hread : g.OriginsReadable) :
    ((∃ order, g.planned = .ok order) ↔ g.Acyclic) ∧
      (∀ order, g.planned = .ok order →
        order.Perm g.nodes ∧ ∀ u, ∀ v ∈ g.nodes, g.Feeds u v → [u, v].Sublist order) ∧
      (¬ g.Acyclic → g.planned =
        .error (.cyclic ((g.candidates.filter fun n => g.Trapped n).map (·.id)))) := by
  rcases exists_schedule hids hread with ⟨ws, hws, s⟩
  have hsorted : g.Acyclic → g.planned = .ok ((Planner.order ws).filterMap g.at?) := by
    intro hfree
    simp [planned, plan_of_acyclic hws s hfree, bind, Except.bind, pure, Except.pure]
  have hrefused : ¬ g.Acyclic → g.planned =
      .error (.cyclic ((g.candidates.filter fun n => g.Trapped n).map (·.id))) := by
    intro hcircle
    simp [planned, plan_of_not_acyclic hws s hcircle, bind, Except.bind]
  have hfree_of_ok : ∀ order, g.planned = .ok order → g.Acyclic := by
    intro order horder
    by_contra hcircle
    rw [hrefused hcircle] at horder
    cases horder
  refine ⟨⟨fun ⟨order, horder⟩ => hfree_of_ok order horder, fun hfree => ⟨_, hsorted hfree⟩⟩, ?_,
    hrefused⟩
  intro order horder
  have hfree := hfree_of_ok order horder
  rw [hsorted hfree, Except.ok.injEq] at horder
  subst horder
  have hperm := Planner.order_perm_of_length s.closed
    ((Planner.length_order_eq_iff s.closed).2 (s.acyclic_iff.1 hfree))
  refine ⟨filterMap_at?_perm hids (hperm.trans s.ids_perm), ?_⟩
  intro u v hv hfeeds
  exact sublist_of_feeds s hv hfeeds (hperm.mem_iff.2 (s.mem_ids_iff.2 ⟨v, hv, rfl⟩))

/-- Two nodes in a circle, one behind them, one beside them that hangs on a link that is gone. -/
def knot : Graph Empty where
  nodes := [
    { id := .number 4, type := "Beside", title := none,
      inputs := [{ name := "x", link := some 9 }] },
    { id := .number 1, type := "First", title := none,
      inputs := [{ name := "x", link := some 2 }] },
    { id := .name "2", type := "Second", title := none,
      inputs := [{ name := "x", link := some 1 }, { name := "y", link := some 4 }] },
    { id := .number 3, type := "Behind", title := none,
      inputs := [{ name := "x", link := some 3 }] }]
  links := [
    ⟨.number 1, .int 1, .number 0, .int 2, .number 0, .str "*"⟩,
    ⟨.number 2, .int 2, .number 0, .int 1, .number 0, .str "*"⟩,
    ⟨.number 3, .str "2", .number 0, .int 3, .number 0, .str "*"⟩,
    ⟨.number 4, .int 1, .number 0, .str "2", .number 1, .str "*"⟩]

private theorem knot_originsReadable : knot.OriginsReadable := by
  have hlinks : ∀ l ∈ knot.links, ∃ found, knot.lookup? l.origin = .ok found := by
    intro l hl
    simp only [knot, List.mem_cons, List.not_mem_nil, or_false] at hl
    rcases hl with rfl | rfl | rfl | rfl <;> exact ⟨_, rfl⟩
  intro n _ slot _ l hl
  rcases Option.bind_eq_some_iff.1 hl with ⟨k, -, hfind⟩
  exact hlinks l (List.mem_of_find?_eq_some hfind)

open Classical in
/-- Two nodes in a circle are named, and so is the one behind them, which waits for ever. -/
theorem planned_knot :
    (knot.nodes.map (·.id)).Nodup ∧ knot.OriginsReadable ∧
      ((∃ order, knot.planned = .ok order) ↔ knot.Acyclic) ∧
      (∀ order, knot.planned = .ok order →
        order.Perm knot.nodes ∧
          ∀ u, ∀ v ∈ knot.nodes, knot.Feeds u v → [u, v].Sublist order) ∧
      (¬ knot.Acyclic → knot.planned =
        .error (.cyclic ((knot.candidates.filter fun n => knot.Trapped n).map (·.id)))) :=
  ⟨by decide, knot_originsReadable,
    planned_sorts_or_names_circles knot (by decide) knot_originsReadable⟩

example : knot.planned = .error (.cyclic [.number 1, .name "2", .number 3]) := rfl

end Graph

end NodeFlow
