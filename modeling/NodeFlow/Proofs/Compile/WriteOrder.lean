import NodeFlow.Proofs.Compile.Delivery

/-!
# Rows of writes

A preparation takes one node after the other.  In the turn of a node all its hooks run, those inside
it too, and then its primitives push.  Together the turns write what the sites of the workflow write.
Where primitives push to later widgets only, and no two of them to the same one, every write of the
row may stand where it stands.

Main results:

- Definition `Workflow.siteWrites`: what a site writes.
- Theorem `Workflow.writes_perm`: the writes of a preparation, site by site.
- Structure `Workflow.Orderly`: primitives push to later widgets.
- Theorem `Workflow.Orderly.writes_pairwise`: no write comes after a read of a cell that it writes.
-/

namespace NodeFlow

namespace Workflow

variable {g : Workflow}

/-! ## Turns -/

/-- What the hooks and the primitive of a site write. -/
def siteWrites (g : Workflow) (s : Site) : List CellWrite :=
  hooksAt g s.place ++ pushesAt g s.place

/-- A hook at a place writes to its own widget there. -/
theorem mem_hooksAt {place : Place} {w : CellWrite} (h : w ∈ hooksAt g place) :
    w.IsOwn ∧ ∃ i u, w.source = (place, i) ∧ (widgetsAt g place)[i]? = some u ∧
      u.beforeQueued.isSome = true := by
  rcases List.mem_filterMap.1 h with ⟨i, -, hi⟩
  rcases Option.bind_eq_some_iff.1 hi with ⟨u, hu, hwrite⟩
  rcases Option.map_eq_some_iff.1 hwrite with ⟨q, hq, rfl⟩
  exact ⟨rfl, i, u, rfl, hu, by rw [hq]; rfl⟩

private theorem hooksAt_pairwise (g : Workflow) (place : Place) :
    (hooksAt g place).Pairwise Write.MayPrecede := by
  refine List.pairwise_filterMap.2 (List.pairwise_lt_range.imp fun hlt w hw v hv => ?_)
  rcases Option.bind_eq_some_iff.1 hw with ⟨_, -, hw⟩
  rcases Option.map_eq_some_iff.1 hw with ⟨_, -, rfl⟩
  rcases Option.bind_eq_some_iff.1 hv with ⟨_, -, hv⟩
  rcases Option.map_eq_some_iff.1 hv with ⟨_, -, rfl⟩
  refine Write.IsOwn.mayPrecede rfl rfl fun hsame => ?_
  exact absurd (congrArg Prod.snd hsame) (Nat.ne_of_lt hlt)

/-- A push at a place writes to widgets that it is linked to. -/
theorem mem_pushesAt {place : Place} {w : CellWrite} (h : w ∈ pushesAt g place) :
    w.source = (place, 0) ∧ ∀ k ∈ w.targets, PushesTo g place k := by
  rcases List.mem_map.1 h with ⟨c, hc, rfl⟩
  have hc := (List.mem_filter.1 hc).1
  cases hcs : copiesAt g place with
  | error f =>
    rw [hcs] at hc
    cases hc
  | ok cs =>
    rw [hcs] at hc
    rcases copiesAt_eq_ok hcs with rfl | ⟨targets, rfl, htargets⟩
    · cases hc
    · rw [List.mem_singleton.1 hc]
      exact ⟨rfl, htargets⟩

private theorem pushesAt_pairwise (g : Workflow) (place : Place)
    (R : CellWrite → CellWrite → Prop) : (pushesAt g place).Pairwise R := by
  have hshort : (pushesAt g place).length ≤ 1 := by
    rw [pushesAt, Write.copies, List.length_map]
    refine (List.length_filter_le _ _).trans ?_
    cases hcs : copiesAt g place with
    | error f => simp [Except.toOption]
    | ok cs => rcases copiesAt_eq_ok hcs with rfl | ⟨targets, rfl, -⟩ <;> simp [Except.toOption]
  rcases hpushes : pushesAt g place with _ | ⟨w, _ | ⟨v, vs⟩⟩
  · exact .nil
  · exact List.pairwise_singleton _ _
  · rw [hpushes] at hshort
    simp at hshort

/-- A site that is no virtual node copies nothing. -/
theorem copiesAt_of_not_isVirtual (hdistinct : Distinct g) {s : Site} (hs : s ∈ sites g)
    (hvirtual : s.isVirtual = false) : copiesAt g s.place = .ok [] := by
  have hprimitive : s.isPrimitive = false := by
    cases h : s.isPrimitive with
    | false => rfl
    | true => exact absurd (Site.isVirtual_of_isPrimitive h) (by simp [hvirtual])
  cases s with
  | outer n =>
    have hn := Graph.at?_of_mem hdistinct.outer (mem_sites_outer.1 hs)
    have hkind : n.kind.isPrimitive = false := hprimitive
    simp [Site.place, copiesAt, Graph.copiesOf, hn, hkind, Except.map]
  | inner host x n =>
    rcases mem_sites_inner.1 hs with ⟨hhost, hgroup, hn⟩
    have hn := Graph.at?_of_mem (hdistinct.inner host hhost x hgroup) hn
    have hkind : n.kind.isPrimitive = false := hprimitive
    simp [Site.place, copiesAt, innerGraph_of_mem hdistinct.outer hhost hgroup, Graph.copiesOf, hn,
      hkind, Except.map]

/-- The copies of virtual sites are pushes, one site after the other, and the other sites have
none. -/
theorem copies_of_allCopies (hdistinct : Distinct g) {met : List Site} (hmet : met ⊆ sites g)
    {cs : List (Copy Cell)}
    (h : allCopies (copiesAt g) ((met.filter (·.isVirtual)).map (·.place)) = .ok cs) :
    (∀ s ∈ met, ∃ ds, copiesAt g s.place = .ok ds) ∧
      Write.copies cs = met.flatMap fun s => pushesAt g s.place := by
  induction met generalizing cs with
  | nil =>
    cases h
    exact ⟨fun s hs => absurd hs List.not_mem_nil, rfl⟩
  | cons s met ih =>
    have hs : s ∈ sites g := hmet List.mem_cons_self
    have hrest : met ⊆ sites g := fun t ht => hmet (List.mem_cons_of_mem s ht)
    have hfirst : ∀ ds es : List (Copy Cell), copiesAt g s.place = .ok ds →
        ((∀ t ∈ met, ∃ ds, copiesAt g t.place = .ok ds) ∧
          Write.copies es = met.flatMap fun t => pushesAt g t.place) →
        (∀ t ∈ s :: met, ∃ ds, copiesAt g t.place = .ok ds) ∧
          Write.copies (ds ++ es) = (s :: met).flatMap fun t => pushesAt g t.place := by
      rintro ds es hds ⟨hall, hes⟩
      refine ⟨List.forall_mem_cons.2 ⟨⟨ds, hds⟩, hall⟩, ?_⟩
      rw [List.flatMap_cons, ← hes, pushesAt, hds]
      simp [Write.copies, Except.toOption]
    cases hvirtual : s.isVirtual with
    | false =>
      rw [List.filter_cons_of_neg (by simp [hvirtual])] at h
      exact hfirst [] cs (copiesAt_of_not_isVirtual hdistinct hs hvirtual) (ih hrest h)
    | true =>
      rw [List.filter_cons_of_pos hvirtual] at h
      rcases Fault.bind_eq_ok_iff.1 h with ⟨ds, hds, h⟩
      rcases Fault.bind_eq_ok_iff.1 h with ⟨es, hes, h⟩
      cases h
      exact hfirst ds es hds (ih hrest hes)

/-! ## Turns of nodes -/

private theorem innerSites?_subset {n : Node Group} (hn : n ∈ g.nodes) {inner : Option (List Site)}
    (h : innerSites? n = .ok inner) : inner.getD [.outer n] ⊆ sites g := by
  rcases innerSites?_cases h with ⟨-, rfl⟩ | ⟨x, order, hgroup, -, rfl⟩
  · intro s hs
    rw [List.mem_singleton.1 hs]
    exact mem_sites_outer.2 hn
  · exact mem_sites_of_mem_inner hn hgroup

/-- In the turn of a node, all its hooks run before the primitives push. -/
theorem nodeWrites_eq_ok (hdistinct : Distinct g) {n : Node Group} (hn : n ∈ g.nodes)
    {ws : List CellWrite} (h : nodeWrites g n = .ok ws) :
    ∃ inner, innerSites? n = .ok inner ∧
      (∀ s ∈ inner.getD [.outer n], ∃ cs, copiesAt g s.place = .ok cs) ∧
      ws = ((Site.outer n :: inner.getD []).flatMap fun s => hooksAt g s.place) ++
        (inner.getD [.outer n]).flatMap fun s => pushesAt g s.place := by
  rcases Fault.bind_eq_ok_iff.1 h with ⟨hooked, hhooked, h⟩
  rcases Fault.bind_eq_ok_iff.1 h with ⟨pushing, hpushing, h⟩
  rcases Fault.bind_eq_ok_iff.1 h with ⟨cs, hcs, h⟩
  cases h
  rcases Fault.bind_eq_ok_iff.1 hpushing with ⟨inner, hinner, hplaces⟩
  cases hplaces
  rw [hookPlaces, Editor.hookSites, hinner] at hhooked
  cases hhooked
  rcases copies_of_allCopies hdistinct (innerSites?_subset hn hinner) hcs with ⟨hall, hcopies⟩
  exact ⟨inner, hinner, hall, by rw [hcopies, List.flatMap_map]⟩

/-- The turn of a node has writes if what it copies is known. -/
theorem exists_nodeWrites {n : Node Group} {inner : Option (List Site)}
    (hinner : innerSites? n = .ok inner)
    (hcopies : ∀ s ∈ inner.getD [.outer n], ∃ cs, copiesAt g s.place = .ok cs) :
    ∃ ws, nodeWrites g n = .ok ws := by
  have hall : ∀ ps : List Place, (∀ p ∈ ps, ∃ cs, copiesAt g p = .ok cs) →
      ∃ cs, allCopies (copiesAt g) ps = .ok cs := by
    intro ps hps
    induction ps with
    | nil => exact ⟨[], rfl⟩
    | cons p ps ih =>
      rcases hps p List.mem_cons_self with ⟨cs, hcs⟩
      rcases ih fun q hq => hps q (List.mem_cons_of_mem p hq) with ⟨rest, hrest⟩
      exact ⟨cs ++ rest, by rw [allCopies, hcs, hrest]; rfl⟩
  rcases hall (((inner.getD [.outer n]).filter (·.isVirtual)).map (·.place)) fun p hp => by
    rcases List.mem_map.1 hp with ⟨s, hs, rfl⟩
    exact hcopies s (List.mem_filter.1 hs).1 with ⟨cs, hcs⟩
  rw [nodeWrites, hookPlaces, Editor.hookSites, hinner, Node.pushPlaces, hinner]
  simp only [bind, Except.bind, pure, Except.pure, hcs]
  exact ⟨_, rfl⟩

/-- What the hooks of a group itself write. -/
def hostWrites (g : Workflow) (n : Node Group) : List CellWrite :=
  if n.group?.isSome then hooksAt g (.outer n.id) else []

/-- In its turn, a group that is not skipped writes itself, and then the sites write that it stands
for. -/
theorem nodeWrites_perm (hdistinct : Distinct g) {n : Node Group} (hn : n ∈ g.nodes)
    (hactive : n.group?.isSome = true → n.isSkipped = false) {ws : List CellWrite}
    (h : nodeWrites g n = .ok ws) :
    ws.Perm (hostWrites g n ++ (behind n).flatMap (siteWrites g)) ∧
      ∀ s ∈ behind n, ∃ cs, copiesAt g s.place = .ok cs := by
  rcases nodeWrites_eq_ok hdistinct hn h with ⟨inner, hinner, hcopies, rfl⟩
  rcases innerSites?_cases hinner with ⟨hgroup, rfl⟩ | ⟨x, order, hgroup, horder, rfl⟩
  · have hbehind : behind n = [.outer n] := by simp [behind, hgroup]
    refine ⟨?_, by rwa [hbehind]⟩
    simp [hbehind, hostWrites, hgroup, siteWrites]
  · have hordered : x.graph.Ordered := ⟨hdistinct.inner n hn x hgroup, order, horder⟩
    have hbehind : behind n = x.graph.nodes.map (Site.inner n x) := by
      simp [behind, hgroup, hactive (by rw [hgroup]; rfl)]
    have hmet : ((order.filterMap x.graph.at?).map (Site.inner n x)).Perm (behind n) := by
      rw [hbehind]
      exact (hordered.filterMap_plan_perm horder).map _
    have hhost : hostWrites g n = hooksAt g (Site.outer n).place := by
      simp [hostWrites, hgroup, Site.place]
    refine ⟨?_, fun s hs => hcopies s (hmet.mem_iff.2 hs)⟩
    rw [Option.getD_some, Option.getD_some, List.flatMap_cons, List.append_assoc, hhost]
    refine List.Perm.append_left _ (.trans ?_ (hmet.flatMap_right (siteWrites g)))
    exact List.flatMap_append_perm _ _ _

/-! ## All turns -/

private theorem writesFor_eq_ok {id : NodeId} {ws : List CellWrite} (h : writesFor g id = .ok ws) :
    (g.at? id = none ∧ ws = []) ∨ ∃ n, g.at? id = some n ∧ nodeWrites g n = .ok ws := by
  unfold writesFor at h
  split at h
  · rename_i hnone
    cases h
    exact .inl ⟨hnone, rfl⟩
  · rename_i n hn
    exact .inr ⟨n, hn, h⟩

/-- A preparation writes what the groups themselves and the sites write, in some order. -/
theorem writes_perm (hdistinct : Distinct g)
    (hactive : ∀ n ∈ g.nodes, n.group?.isSome = true → n.isSkipped = false) {order : List NodeId}
    (horder : g.plan = .ok order) {ws : List CellWrite} (h : writes g order = .ok ws) :
    ws.Perm (g.nodes.flatMap (hostWrites g) ++ (expanded g).flatMap (siteWrites g)) ∧
      ∀ s ∈ expanded g, ∃ cs, copiesAt g s.place = .ok cs := by
  have hturns : ∀ (ids : List NodeId) (vs : List CellWrite), writes g ids = .ok vs →
      vs.Perm ((ids.filterMap g.at?).flatMap fun n =>
        hostWrites g n ++ (behind n).flatMap (siteWrites g)) ∧
      ∀ n ∈ ids.filterMap g.at?, ∀ s ∈ behind n, ∃ cs, copiesAt g s.place = .ok cs := by
    intro ids
    induction ids with
    | nil =>
      intro vs hvs
      cases hvs
      exact ⟨.nil, fun n hn => absurd hn List.not_mem_nil⟩
    | cons id ids ih =>
      intro vs hvs
      rcases Fault.bind_eq_ok_iff.1 hvs with ⟨us, hus, hvs⟩
      rcases Fault.bind_eq_ok_iff.1 hvs with ⟨rest, hrest, hvs⟩
      cases hvs
      rcases ih rest hrest with ⟨hperm, hcopies⟩
      rcases writesFor_eq_ok hus with ⟨hnone, rfl⟩ | ⟨n, hn, hturn⟩
      · rw [List.filterMap_cons_none hnone]
        exact ⟨hperm, hcopies⟩
      · have hmem := Graph.mem_of_at? hn
        rcases nodeWrites_perm hdistinct hmem (hactive n hmem) hturn with ⟨hfirst, hbehind⟩
        rw [List.filterMap_cons_some hn]
        exact ⟨hfirst.append hperm, List.forall_mem_cons.2 ⟨hbehind, hcopies⟩⟩
  have hordered : Graph.Ordered g := ⟨hdistinct.outer, order, horder⟩
  have hnodes := hordered.filterMap_plan_perm horder
  rcases hturns order ws h with ⟨hperm, hcopies⟩
  constructor
  · refine (hperm.trans (hnodes.flatMap_right _)).trans ?_
    rw [expanded, List.flatMap_assoc]
    exact (List.flatMap_append_perm _ _ _).symm
  · intro s hs
    rcases List.mem_flatMap.1 hs with ⟨n, hn, hs⟩
    exact hcopies n (hnodes.mem_iff.2 hn) s hs

/-- Where the writes of every node can be told, so can those of all nodes of an order. -/
theorem exists_writes (h : ∀ n ∈ g.nodes, ∃ ws, nodeWrites g n = .ok ws) (order : List NodeId) :
    ∃ ws, writes g order = .ok ws := by
  induction order with
  | nil => exact ⟨[], rfl⟩
  | cons id ids ih =>
    rcases ih with ⟨rest, hrest⟩
    have hturn : ∃ ws, writesFor g id = .ok ws := by
      rw [writesFor]
      cases hn : g.at? id with
      | none => exact ⟨[], rfl⟩
      | some n => exact h n (Graph.mem_of_at? hn)
    rcases hturn with ⟨ws, hws⟩
    exact ⟨ws ++ rest, by rw [writes, hws, hrest]; rfl⟩

/-! ## The order of writes -/

/-- The node at a place pushes its value to a widget. -/
def Pushes (g : Workflow) (place : Place) (k : Cell) : Prop := ∃ w ∈ pushesAt g place, k ∈ w.targets

/-- Primitives push to later widgets, no two of them to the same one, and inside groups, where all
hooks run first, they push to widgets without hooks. -/
structure Orderly (g : Workflow) : Prop where
  ascends : ∀ place k, Pushes g place k → placeRank g place < placeRank g k.1
  single : ∀ p q k, Pushes g p k → Pushes g q k → p = q
  unhooked : ∀ host id k, Pushes g (.inner host id) k → ∀ w ∈ hooksAt g k.1, w.source ≠ k

/-- The write is one of a hook or of a push at the place. -/
def WrittenAt (g : Workflow) (place : Place) (w : CellWrite) : Prop :=
  w ∈ hooksAt g place ∨ w ∈ pushesAt g place

private theorem WrittenAt.place {place : Place} {w : CellWrite} (h : WrittenAt g place w) :
    w.source.1 = place := by
  rcases h with h | h
  · rcases mem_hooksAt h with ⟨-, i, -, hsource, -⟩
    rw [hsource]
  · rw [(mem_pushesAt h).1]

namespace Orderly

variable (h : Orderly g)

include h

private theorem mayPrecede_of_rank {p q : Place} {w v : CellWrite} (hw : WrittenAt g p w)
    (hv : WrittenAt g q v) (hlt : placeRank g p < placeRank g q) : w.MayPrecede v := by
  have hne : p ≠ q := fun hsame => absurd (hsame ▸ hlt) (lt_irrefl _)
  refine .of_source_not_mem (fun hmem => ?_) ?_
  · rcases hv with hv | hv
    · rw [(mem_hooksAt hv).1, List.mem_singleton] at hmem
      exact hne (by rw [← hw.place, hmem, WrittenAt.place (.inl hv)])
    · have hback := h.ascends q w.source ⟨v, hv, hmem⟩
      rw [hw.place] at hback
      exact absurd hback (not_lt_of_gt hlt)
  · rcases hw with hw | hw
    · exact .inl (mem_hooksAt hw).1
    · rcases hv with hv | hv
      · exact .inr (.inl (mem_hooksAt hv).1)
      · exact .inr (.inr fun k hk hk' => hne (h.single p q k ⟨w, hw, hk⟩ ⟨v, hv, hk'⟩))

omit h in
/-- The hooks of a turn are at different places. -/
theorem hookSites_pairwise (hdistinct : Distinct g) {n : Node Group} (hn : n ∈ g.nodes)
    {inner : Option (List Site)} (hinner : innerSites? n = .ok inner) :
    (Site.outer n :: inner.getD []).Pairwise fun s t => s.place ≠ t.place := by
  rcases innerSites?_cases hinner with ⟨-, rfl⟩ | ⟨x, order, hgroup, horder, rfl⟩
  · exact List.pairwise_singleton _ _
  · have hordered : x.graph.Ordered := ⟨hdistinct.inner n hn x hgroup, order, horder⟩
    refine List.pairwise_cons.2 ⟨fun s hs => ?_, List.pairwise_map.2 ?_⟩
    · rcases List.mem_map.1 hs with ⟨m, -, rfl⟩
      exact Place.noConfusion
    · refine (hordered.filterMap_plan_pairwise horder).imp fun hlt hsame => ?_
      rw [(Place.inner.inj hsame).2] at hlt
      exact lt_irrefl _ hlt

omit h in
/-- The primitives of a turn push in the order of their ranks. -/
theorem pushSites_pairwise (hdistinct : Distinct g) {n : Node Group} (hn : n ∈ g.nodes)
    {inner : Option (List Site)} (hinner : innerSites? n = .ok inner) :
    (inner.getD [.outer n]).Pairwise fun s t => placeRank g s.place < placeRank g t.place := by
  rcases innerSites?_cases hinner with ⟨-, rfl⟩ | ⟨x, order, hgroup, horder, rfl⟩
  · exact List.pairwise_singleton _ _
  · have hordered : x.graph.Ordered := ⟨hdistinct.inner n hn x hgroup, order, horder⟩
    refine List.pairwise_map.2 ((hordered.filterMap_plan_pairwise horder).imp fun hlt => ?_)
    simp only [Site.place, placeRank, innerGraph_of_mem hdistinct.outer hn hgroup]
    exact Prod.Lex.toLex_lt_toLex.2 (.inr ⟨rfl, hlt⟩)

/-- No primitive pushes to a widget whose hook has run in the same turn. -/
theorem not_pushes_of_hook {n : Node Group} {inner : Option (List Site)}
    (hinner : innerSites? n = .ok inner) {s t : Site} (hs : s ∈ Site.outer n :: inner.getD [])
    (ht : t ∈ inner.getD [.outer n]) {w : CellWrite} (hw : w ∈ hooksAt g s.place) :
    ¬ Pushes g t.place w.source := by
  intro hpushes
  rcases innerSites?_cases hinner with ⟨-, rfl⟩ | ⟨x, order, -, -, rfl⟩
  · rw [Option.getD_none, List.mem_singleton] at hs ht
    have hlt := h.ascends _ _ hpushes
    rw [WrittenAt.place (.inl hw), hs, ht] at hlt
    exact lt_irrefl _ hlt
  · rcases List.mem_map.1 ht with ⟨m, -, rfl⟩
    have hplace := WrittenAt.place (.inl hw)
    exact h.unhooked n.id m.id w.source hpushes w (by rwa [hplace]) rfl

/-- The writes of one turn may stand in their order. -/
theorem nodeWrites_pairwise (hdistinct : Distinct g) {n : Node Group} (hn : n ∈ g.nodes)
    {ws : List CellWrite} (hws : nodeWrites g n = .ok ws) : ws.Pairwise Write.MayPrecede := by
  rcases nodeWrites_eq_ok hdistinct hn hws with ⟨inner, hinner, -, rfl⟩
  refine List.pairwise_append.2 ⟨List.pairwise_flatMap.2 ⟨fun s _ => hooksAt_pairwise g s.place, ?_⟩,
    List.pairwise_flatMap.2 ⟨fun s _ => pushesAt_pairwise g s.place _, ?_⟩, ?_⟩
  · refine (hookSites_pairwise hdistinct hn hinner).imp fun hne w hw v hv => ?_
    refine (mem_hooksAt hw).1.mayPrecede (mem_hooksAt hv).1 fun hsame => hne ?_
    rw [← WrittenAt.place (.inl hw), hsame, WrittenAt.place (.inl hv)]
  · exact (pushSites_pairwise hdistinct hn hinner).imp fun hlt w hw v hv =>
      h.mayPrecede_of_rank (.inr hw) (.inr hv) hlt
  · intro w hw v hv
    rcases List.mem_flatMap.1 hw with ⟨s, hs, hw⟩
    rcases List.mem_flatMap.1 hv with ⟨t, ht, hv⟩
    exact .of_source_not_mem (fun hmem => h.not_pushes_of_hook hinner hs ht hw ⟨v, hv, hmem⟩)
      (.inl (mem_hooksAt hw).1)

omit h in
private theorem exists_place_of_mem (hdistinct : Distinct g) {n : Node Group} (hn : n ∈ g.nodes)
    {ws : List CellWrite} (hws : nodeWrites g n = .ok ws) {w : CellWrite} (hw : w ∈ ws) :
    ∃ p : Place, p.host = n.id ∧ WrittenAt g p w := by
  rcases nodeWrites_eq_ok hdistinct hn hws with ⟨inner, hinner, -, rfl⟩
  have hhosts : ∀ s ∈ Site.outer n :: inner.getD [.outer n], s.place.host = n.id := by
    intro s hs
    rw [Site.host_place]
    rcases List.mem_cons.1 hs with rfl | hs
    · rfl
    · rcases innerSites?_cases hinner with ⟨-, rfl⟩ | ⟨x, order, -, -, rfl⟩
      · rw [List.mem_singleton.1 hs]
        rfl
      · rcases List.mem_map.1 hs with ⟨m, -, rfl⟩
        rfl
  rcases List.mem_append.1 hw with hw | hw
  · rcases List.mem_flatMap.1 hw with ⟨s, hs, hw⟩
    refine ⟨s.place, hhosts s ?_, .inl hw⟩
    rcases List.mem_cons.1 hs with rfl | hs
    · exact List.mem_cons_self
    · cases inner with
      | none => cases hs
      | some met => exact List.mem_cons_of_mem _ hs
  · rcases List.mem_flatMap.1 hw with ⟨s, hs, hw⟩
    exact ⟨s.place, hhosts s (List.mem_cons_of_mem _ hs), .inr hw⟩

/-- The writes of a preparation may stand in their order: none of them comes after a read of a cell
that it writes. -/
theorem writes_pairwise (hdistinct : Distinct g) {order : List NodeId} (horder : g.plan = .ok order)
    {ws : List CellWrite} (hws : writes g order = .ok ws) : ws.Pairwise Write.MayPrecede := by
  have hordered : Graph.Ordered g := ⟨hdistinct.outer, order, horder⟩
  have hascending : order.Pairwise fun a b => g.position a < g.position b :=
    hordered.plan_pairwise horder
  have hhosts : ∀ id us, writesFor g id = .ok us → ∀ w ∈ us,
      ∃ p : Place, p.host = id ∧ WrittenAt g p w := by
    intro id us hus w hw
    rcases writesFor_eq_ok hus with ⟨-, rfl⟩ | ⟨n, hn, hturn⟩
    · cases hw
    · rw [← Graph.id_of_at? hn]
      exact exists_place_of_mem hdistinct (Graph.mem_of_at? hn) hturn hw
  have hmem : ∀ ids vs, writes g ids = .ok vs → ∀ v ∈ vs, ∃ id ∈ ids, ∃ p : Place, p.host = id ∧
      WrittenAt g p v := by
    intro ids
    induction ids with
    | nil =>
      intro vs hvs v hv
      cases hvs
      cases hv
    | cons id ids ih =>
      intro vs hvs v hv
      rcases Fault.bind_eq_ok_iff.1 hvs with ⟨us, hus, hvs⟩
      rcases Fault.bind_eq_ok_iff.1 hvs with ⟨rest, hrest, hvs⟩
      cases hvs
      rcases List.mem_append.1 hv with hv | hv
      · exact ⟨id, List.mem_cons_self, hhosts id us hus v hv⟩
      · rcases ih rest hrest v hv with ⟨other, hother, hp⟩
        exact ⟨other, List.mem_cons_of_mem id hother, hp⟩
  clear horder
  induction order generalizing ws with
  | nil =>
    cases hws
    exact .nil
  | cons id ids ih =>
    rcases Fault.bind_eq_ok_iff.1 hws with ⟨us, hus, hws⟩
    rcases Fault.bind_eq_ok_iff.1 hws with ⟨rest, hrest, hws⟩
    cases hws
    rcases List.pairwise_cons.1 hascending with ⟨hfirst, hascending⟩
    refine List.pairwise_append.2 ⟨?_, ih hrest hascending, fun w hw v hv => ?_⟩
    · rcases writesFor_eq_ok hus with ⟨-, rfl⟩ | ⟨n, hn, hturn⟩
      · exact .nil
      · exact h.nodeWrites_pairwise hdistinct (Graph.mem_of_at? hn) hturn
    · rcases hhosts id us hus w hw with ⟨p, hp, hw⟩
      rcases hmem ids rest hrest v hv with ⟨other, hother, q, hq, hv⟩
      exact h.mayPrecede_of_rank hw hv (placeRank_lt_of_host (by
        rw [hp, hq]
        exact hfirst other hother))

end Orderly

end Workflow

end NodeFlow
