import NodeFlow.Proofs.Compile.FlattenWrites
import NodeFlow.Proofs.Compile.WriteOrder

/-!
# Transparent groups

Without groups, the nodes of a workflow are prepared in another order: what is inside a group no
longer waits for all of the group, and other nodes come in between.  In a transparent workflow this
makes no difference, since there the writes of a preparation may change places.

Main results:

- Structure `Workflow.Separable`: the groups of the workflow can be taken apart, and primitives stay on
  their side of the border.
- Structure `Workflow.Transparent`: besides, hooks and primitives do the same whoever comes first.
- Theorems `Workflow.Transparent.orderly` and `Workflow.Transparent.orderly_flatten`: primitives push
  to later widgets, before flattening and after it.
- Theorem `Workflow.Transparent.exists_writes_flatten`: after flattening, a preparation writes the same.
- Theorem `Editor.exec_prepare_flatten`: a preparation of the flattened workflow leaves the flattened
  form of what is left of the workflow.
-/

namespace NodeFlow

/-- Where a primitive is linked to a widget, an input of the node receives a link from it. -/
def Graph.Receives {γ : Type} (g : Graph γ) : Prop :=
  ∀ id c, g.PushesTo id c → ∃ n t slot l, n.id = id ∧ t ∈ g.nodes ∧ t.id = c.1 ∧
    g.inLink? t slot = some l ∧ g.lookup? l.origin = .ok (some n)

private theorem Graph.Receives.exists_link {γ : Type} {g : Graph γ} (h : g.Receives)
    (hids : (g.nodes.map (·.id)).Nodup) {n t : Node γ} (hn : n ∈ g.nodes) (ht : t ∈ g.nodes) {i : Nat}
    (hpushes : g.PushesTo n.id (t.id, i)) :
    ∃ slot l, g.inLink? t slot = some l ∧ g.lookup? l.origin = .ok (some n) := by
  rcases h n.id (t.id, i) hpushes with ⟨m, u, slot, l, hm, hu, hid, hlink, horigin⟩
  have hsource : m = n := List.inj_on_of_nodup_map hids (Graph.mem_of_lookup? horigin) hn hm
  have htarget : u = t := List.inj_on_of_nodup_map hids hu ht hid
  subst hsource htarget
  exact ⟨slot, l, hlink, horigin⟩

namespace Workflow

/-- The groups of the workflow can be taken apart, and primitives stay on their side of the
border. -/
structure Separable (g : Workflow) : Prop extends Confined g where
  /-- All sites have different keys. -/
  keyed : Keyed g
  /-- Groups are active. -/
  active : ∀ n ∈ g.nodes, n.group?.isSome = true → n.mode = normalMode
  /-- A group output that an input is linked to leads to a node inside. -/
  exits : ∀ n ∈ g.nodes, ∀ slot l, g.inLink? n slot = some l → ∀ host,
    g.lookup? l.origin = .ok (some host) → (host.exit? l.originSlot).isSome = true
  /-- No two primitives are linked to one widget. -/
  single : ∀ p q k, PushesTo g p k → PushesTo g q k → p = q

/-- What the hooks and the primitives of a separable workflow do does not depend on who comes
first. -/
structure Transparent (g : Workflow) : Prop extends Separable g where
  /-- A reroute inside a group has an input. -/
  passes : ∀ n ∈ g.nodes, ∀ x, n.group? = some x → ∀ m ∈ x.graph.nodes, m.kind = .reroute →
    m.inputs ≠ []
  /-- Hooks follow scripts, and each of them fails always or never. -/
  reliable : AllWidgets Widget.IsReliable g
  /-- Links of primitives arrive where they lead to. -/
  receives : Graph.Receives g
  receivesInside : ∀ n ∈ g.nodes, ∀ x, n.group? = some x → x.graph.Receives
  /-- A widget that a primitive inside a group is linked to has no hook that runs before a
  submission. -/
  unhooked : ∀ host id k, PushesTo g (.inner host id) k → ∀ w, (widgetsAt g k.1)[k.2]? = some w →
    w.beforeQueued = none

variable {g : Workflow} {s t : Site}

/-- A transparent workflow can be flattened. -/
theorem Transparent.toFlattenable (h : Transparent g) : Flattenable g where
  keyed := h.keyed
  active := h.active
  exits := h.exits
  passes := h.passes

/-! ## Nodes of the flattened workflow -/

private theorem mem_nodes_flatten {n : Node Group} :
    n ∈ (flatten g).nodes ↔ ∃ s ∈ expanded g, s.flat g = n := List.mem_map

/-- The flattened workflow has no groups. -/
theorem group?_of_mem_flatten (h : Flattenable g) {n : Node Group} (hn : n ∈ (flatten g).nodes) :
    n.group? = none := by
  rcases mem_nodes_flatten.1 hn with ⟨s, hs, rfl⟩
  exact h.group?_flat hs

/-- Nodes of a flattened workflow have different ids. -/
theorem distinct_flatten (h : Flattenable g) : Distinct (flatten g) := by
  refine ⟨nodup_ids_flatten h.keyed, fun n hn x hgroup => ?_⟩
  rw [group?_of_mem_flatten h hn] at hgroup
  cases hgroup

/-- The sites that are met in a flattened workflow are the nodes that stand for those of the
workflow. -/
theorem expanded_flatten (h : Flattenable g) :
    expanded (flatten g) = (expanded g).map fun s => .outer (s.flat g) := by
  have hbehind : ∀ s ∈ expanded g, behind (s.flat g) = [.outer (s.flat g)] := by
    intro s hs
    simp [behind, h.group?_flat hs]
  rw [expanded, flatten, List.flatMap_map, List.flatMap_congr hbehind, ← List.map_eq_flatMap]

private theorem Transparent.reliable_flatten (h : Transparent g) :
    AllWidgets Widget.IsReliable (flatten g) := by
  refine ⟨fun n hn => ?_, fun n hn x hgroup => ?_⟩
  · rcases mem_nodes_flatten.1 hn with ⟨s, hs, rfl⟩
    rw [Site.widgets_flat]
    exact h.reliable.of_mem_sites (mem_sites_of_mem_expanded hs)
  · rw [group?_of_mem_flatten h.toFlattenable hn] at hgroup
    cases hgroup

/-! ## Primitives and later widgets -/

private theorem eq_of_place_eq (hdistinct : Distinct g) (hs : s ∈ sites g) (ht : t ∈ sites g)
    (hplace : s.place = t.place) : s = t := by
  have hsite := siteAt?_place hdistinct hs
  rw [hplace, siteAt?_place hdistinct ht, Option.some.injEq] at hsite
  exact hsite.symm

private theorem pushesTo_of_pushes {place : Place} {k : Cell} (h : Pushes g place k) :
    PushesTo g place k := by
  rcases h with ⟨w, hw, hk⟩
  exact (mem_pushesAt hw).2 k hk

namespace Transparent

variable (h : Transparent g)

include h

/-- In a transparent workflow that is planned, primitives push to later widgets, one to each. -/
theorem orderly (hplanned : Planned g) : Orderly g where
  ascends place k hpushes := by
    have hordered := hplanned.ordered h.keyed
    refine placeRank_lt_of_position (fun id c hid => ?_) (fun n hn x hgroup id c hid => ?_)
      (pushesTo_of_pushes hpushes)
    · rcases h.receives id c hid with ⟨m, u, slot, l, rfl, hu, hid, hlink, horigin⟩
      rw [← hid]
      exact hordered.position_lt hu (Graph.feeds_of_inLink? hlink horigin)
    · rcases h.receivesInside n hn x hgroup id c hid with ⟨m, u, slot, l, rfl, hu, hid, hlink, horigin⟩
      rw [← hid]
      exact (hplanned.inner_ordered h.keyed hn hgroup).position_lt hu
        (Graph.feeds_of_inLink? hlink horigin)
  single p q k hp hq := h.single p q k (pushesTo_of_pushes hp) (pushesTo_of_pushes hq)
  unhooked host id k hpushes w hw hsame := by
    rcases mem_hooksAt hw with ⟨-, i, u, hsource, hu, hhook⟩
    have hi : k.2 = i := by rw [← hsame, hsource]
    rw [h.unhooked host id k (pushesTo_of_pushes hpushes) u (by rw [hi]; exact hu)] at hhook
    cases hhook

/-- A primitive that pushes to a widget feeds the node of the widget after flattening. -/
theorem feeds_flat (hs : s ∈ expanded g) (ht : t ∈ expanded g) {i : Nat}
    (hpushes : PushesTo g s.place (t.place, i)) :
    (flatten g).Feeds (s.flat g) (t.flat g) := by
  have hids := h.keyed.ids_nodup
  generalize hp : s.place = p at hpushes
  generalize hk : (t.place, i) = k at hpushes
  cases hpushes with
  | @outer id c hid =>
    cases s with
    | inner => cases hp
    | outer n =>
      cases t with
      | inner => cases congrArg Prod.fst hk
      | outer v =>
        have hcell : outerCell (v.id, i) = outerCell c := hk
        rw [← Place.outer.inj hp, ← outerCell_injective hcell] at hid
        rcases mem_expanded_outer.1 hs with ⟨hn, hparts⟩
        rcases h.receives.exists_link hids hn (mem_expanded_outer.1 ht).1 hid with
          ⟨slot, l, hlink, horigin⟩
        exact feeds_flat_outer h.keyed hparts (Graph.feeds_of_inLink? hlink horigin)
  | @inner host id c hid =>
    cases s with
    | outer => cases hp
    | inner m x n =>
      cases t with
      | outer => cases congrArg Prod.fst hk
      | inner m' y v =>
        rcases mem_expanded_inner.1 hs with ⟨hm, hparts, hn⟩
        rcases mem_expanded_inner.1 ht with ⟨hm', hparts', hv⟩
        rcases Place.inner.inj hp with ⟨rfl, rfl⟩
        have hsame : m' = m :=
          List.inj_on_of_nodup_map hids hm' hm (Place.inner.inj (congrArg Prod.fst hk)).1
        subst hsame
        have hcell : innerCell m'.id (v.id, i) = innerCell m'.id c := hk
        rw [hparts, Option.some.injEq] at hparts'
        subst hparts'
        have hgroup := (parts?_eq_some.1 hparts).2
        rw [innerGraph_of_mem hids hm hgroup, ← innerCell_injective _ hcell] at hid
        rcases (h.receivesInside m' hm x hgroup).exists_link (h.keyed.inner_ids_nodup hm hgroup) hn hv
          hid with ⟨slot, l, hlink, horigin⟩
        have hcut : v.isCutOff = false := by
          cases hcut : v.isCutOff with
          | false => rfl
          | true =>
            rw [Graph.inLink?_of_isCutOff hcut] at hlink
            cases hlink
        exact feeds_flat_inner h.keyed ht hcut (Graph.feeds_of_inLink? hlink horigin)

variable (hcopies : ∀ s ∈ expanded g, ∃ cs, copiesAt g s.place = .ok cs)

include hcopies

/-- What is pushed after flattening was pushed before. -/
theorem exists_pushes {p : Place} {k : Cell} (hpushes : Pushes (flatten g) p k) :
    ∃ s ∈ expanded g, p = .outer s.id ∧ ∃ k₀, Pushes g s.place k₀ ∧ movedCell? g k₀ = some k := by
  have hlinked := pushesTo_of_pushes hpushes
  cases hlinked with
  | @outer id c hid =>
    rcases hid with ⟨n, _, hn, -⟩
    rcases mem_nodes_flatten.1 (Graph.mem_of_at? hn) with ⟨s, hs, rfl⟩
    have hid : s.id = id := Graph.id_of_at? hn
    subst hid
    rcases hcopies s hs with ⟨cs, hcs⟩
    rcases hpushes with ⟨w, hw, hk⟩
    rw [pushesAt_flatten h.toFlattenable h.toConfined hs hcs] at hw
    rcases List.mem_filterMap.1 hw with ⟨w₀, hw₀, hcarry⟩
    rw [(Write.eq_of_carry? hcarry).2] at hk
    rcases List.mem_filterMap.1 hk with ⟨k₀, hk₀, hmoved⟩
    exact ⟨s, hs, rfl, k₀, ⟨w₀, hw₀, hk₀⟩, hmoved⟩
  | @inner host id c hid =>
    rcases innerGraph_cases (flatten g) host with hnone | ⟨n, hn, x, hgroup, -⟩
    · rw [hnone] at hid
      rcases hid with ⟨m, _, hm, -⟩
      cases hm
    · rw [group?_of_mem_flatten h.toFlattenable hn] at hgroup
      cases hgroup

/-- In a flattened transparent workflow, too, primitives push to later widgets, one to each. -/
theorem orderly_flatten (hplanned : Planned g) : Orderly (flatten g) where
  ascends place k hpushes := by
    rcases h.exists_pushes hcopies hpushes with ⟨s, hs, rfl, k₀, hpushes, hmoved⟩
    rcases Option.map_eq_some_iff.1 hmoved with ⟨d, hd, rfl⟩
    rcases exists_of_moved? hd with ⟨t, ht, rfl, hname⟩
    have hfeeds := h.feeds_flat hs ht (pushesTo_of_pushes hpushes)
    have hlt := (plan_flatten h.keyed hplanned).position_lt (List.mem_map_of_mem ht) hfeeds
    rw [hname]
    exact Prod.Lex.toLex_lt_toLex.2 (.inl hlt)
  single p q k hp hq := by
    rcases h.exists_pushes hcopies hp with ⟨s, hs, rfl, k₀, hp, hmoved⟩
    rcases h.exists_pushes hcopies hq with ⟨t, ht, rfl, k₁, hq, hmoved'⟩
    have hcells := movedCell?_injective h.keyed hmoved hmoved'
    subst hcells
    have hplaces := h.single _ _ _ (pushesTo_of_pushes hp) (pushesTo_of_pushes hq)
    rw [eq_of_place_eq h.keyed.distinct (mem_sites_of_mem_expanded hs) (mem_sites_of_mem_expanded ht)
      hplaces]
  unhooked host id k hpushes := by
    rcases h.exists_pushes hcopies hpushes with ⟨s, -, hplace, -⟩
    cases hplace

end Transparent

/-! ## Writes under other names -/

/-- What a group itself writes is not written after flattening. -/
theorem movedCell?_hostWrites (h : Flattenable g) {n : Node Group} (hn : n ∈ g.nodes) {w : CellWrite}
    (hw : w ∈ hostWrites g n) : w.targets.filterMap (movedCell? g) = [] := by
  unfold hostWrites at hw
  split at hw
  · rename_i hgroup
    rcases mem_hooksAt hw with ⟨hown, i, u, hsource, -, -⟩
    rcases Option.isSome_iff_exists.1 hgroup with ⟨x, hx⟩
    have htargets : w.targets = [w.source] := hown
    have hgone : movedCell? g w.source = none := by
      rw [hsource, movedCell?, moved?_host h.ids_nodup hn (by rw [h.parts? hn, hx]) i]
      rfl
    rw [htargets, List.filterMap_cons_none hgone, List.filterMap_nil]
  · cases hw

private theorem isSome_movedCell?_of_mem_siteWrites (hdistinct : Distinct g) (hs : s ∈ expanded g)
    {w : CellWrite} (hw : w ∈ siteWrites g s) : (movedCell? g w.source).isSome = true := by
  have hsource : ∃ i, w.source = (s.place, i) := by
    rcases List.mem_append.1 hw with hw | hw
    · rcases mem_hooksAt hw with ⟨-, i, u, hsource, -, -⟩
      exact ⟨i, hsource⟩
    · exact ⟨0, (mem_pushesAt hw).1⟩
  rcases hsource with ⟨i, hsource⟩
  rw [hsource, movedCell?_place hdistinct hs]
  rfl

/-- The node that stands for a site writes what the site writes. -/
theorem siteWrites_flatten (h : Flattenable g) (hconfined : Confined g) (hs : s ∈ expanded g)
    {cs : List (Copy Cell)} (hcs : copiesAt g s.place = .ok cs) :
    siteWrites (flatten g) (.outer (s.flat g)) =
      (siteWrites g s).filterMap (Write.carry? (movedCell? g)) := by
  rw [siteWrites, siteWrites, List.filterMap_append, ← hooksAt_flatten h.keyed hs,
    ← pushesAt_flatten h hconfined hs hcs]
  rfl

namespace Transparent

variable (h : Transparent g) {order : List NodeId} (horder : g.plan = .ok order)
  {ws : List CellWrite} (hws : writes g order = .ok ws)

include h horder hws

private theorem writes_sites :
    ws.Perm (g.nodes.flatMap (hostWrites g) ++ (expanded g).flatMap (siteWrites g)) ∧
      ∀ s ∈ expanded g, ∃ cs, copiesAt g s.place = .ok cs :=
  writes_perm h.keyed.distinct (fun _ hn => h.toFlattenable.isSkipped hn) horder hws

/-- What is written to a widget that stays comes from one that stays. -/
theorem isSome_movedCell?_source {w : CellWrite} (hw : w ∈ ws)
    (htargets : (w.targets.filterMap (movedCell? g)).isEmpty = false) :
    (movedCell? g w.source).isSome = true := by
  rcases List.mem_append.1 ((h.writes_sites horder hws).1.mem_iff.1 hw) with hw | hw
  · rcases List.mem_flatMap.1 hw with ⟨n, hn, hw⟩
    simp [movedCell?_hostWrites h.toFlattenable hn hw] at htargets
  · rcases List.mem_flatMap.1 hw with ⟨s, hs, hw⟩
    exact isSome_movedCell?_of_mem_siteWrites h.keyed.distinct hs hw

/-- The flattened workflow writes the same under other names, in some order. -/
theorem exists_writes_flatten {order' : List NodeId} (horder' : Graph.plan (flatten g) = .ok order') :
    ∃ vs, writes (flatten g) order' = .ok vs ∧
      (ws.filterMap (Write.carry? (movedCell? g))).Perm vs := by
  have hflat := h.toFlattenable
  rcases h.writes_sites horder hws with ⟨hperm, hcopies⟩
  have hturns : ∀ n ∈ (flatten g).nodes, ∃ vs, nodeWrites (flatten g) n = .ok vs := by
    intro n hn
    rcases mem_nodes_flatten.1 hn with ⟨s, hs, rfl⟩
    have hinner : innerSites? (s.flat g) = .ok none := by rw [innerSites?, hflat.group?_flat hs]
    refine exists_nodeWrites hinner fun t ht => ?_
    rw [List.mem_singleton.1 ht]
    rcases hcopies s hs with ⟨cs, hcs⟩
    exact ⟨_, copiesAt_flatten hflat h.toConfined hs hcs⟩
  rcases exists_writes hturns order' with ⟨vs, hvs⟩
  have hperm' := (writes_perm (distinct_flatten hflat) (fun n hn hgroup => by
    rw [group?_of_mem_flatten hflat hn] at hgroup
    cases hgroup) horder' hvs).1
  have hhosts : (g.nodes.flatMap (hostWrites g)).filterMap (Write.carry? (movedCell? g)) = [] := by
    rw [List.filterMap_eq_nil_iff]
    intro w hw
    rcases List.mem_flatMap.1 hw with ⟨n, hn, hw⟩
    simp [Write.carry?, movedCell?_hostWrites hflat hn hw]
  have hhosts' : (flatten g).nodes.flatMap (hostWrites (flatten g)) = [] := by
    rw [List.flatMap_eq_nil_iff]
    intro n hn
    simp [hostWrites, group?_of_mem_flatten hflat hn]
  have hsites : ((expanded g).flatMap (siteWrites g)).filterMap (Write.carry? (movedCell? g)) =
      (expanded (flatten g)).flatMap (siteWrites (flatten g)) := by
    rw [List.filterMap_flatMap, expanded_flatten hflat, List.flatMap_map]
    refine List.flatMap_congr fun s hs => ?_
    rcases hcopies s hs with ⟨cs, hcs⟩
    exact (siteWrites_flatten hflat h.toConfined hs hcs).symm
  refine ⟨vs, hvs, (hperm.filterMap _).trans (.trans ?_ hperm'.symm)⟩
  rw [List.filterMap_append, hhosts, hhosts', hsites]

end Transparent

/-! ## Values -/

private theorem exists_expanded_of_skeleton_eq {g' : Workflow}
    (hskeleton : skeleton g' = skeleton g)
    (hs : s ∈ expanded g') : ∃ t ∈ expanded g, t.bare = s.bare := by
  have hmem : s.bare ∈ expanded (skeleton g') := by
    rw [expanded_skeleton]
    exact List.mem_map_of_mem hs
  rw [hskeleton, expanded_skeleton] at hmem
  exact List.mem_map.1 hmem

/-- A widget of the flattened workflow stands for one of the workflow. -/
theorem exists_place_of_valueAt (h : Flattenable g) {k : Cell} (hk : (valueAt (flatten g) k).isSome) :
    ∃ s ∈ expanded g, k = (.outer s.id, k.2) := by
  rcases k with ⟨place, i⟩
  cases place with
  | outer id =>
    rw [valueAt, Graph.valueAt_eq] at hk
    cases hn : (flatten g).at? id with
    | none => simp [hn] at hk
    | some n =>
      rcases mem_nodes_flatten.1 (Graph.mem_of_at? hn) with ⟨s, hs, rfl⟩
      have hid : s.id = id := Graph.id_of_at? hn
      exact ⟨s, hs, by rw [hid]⟩
  | inner host id =>
    rcases innerGraph_cases (flatten g) host with hnone | ⟨n, hn, x, hgroup, -⟩
    · rw [valueAt, hnone] at hk
      cases hk
    · rw [group?_of_mem_flatten h hn] at hgroup
      cases hgroup

private theorem valueAt_flatten_of_movedCell? (hkeyed : Keyed g) {k c : Cell}
    (hmoved : movedCell? g k = some c) : valueAt (flatten g) c = valueAt g k := by
  rcases Option.map_eq_some_iff.1 hmoved with ⟨d, hd, rfl⟩
  rcases exists_of_moved? hd with ⟨s, hs, rfl, hname⟩
  rw [hname]
  exact valueAt_flatten hkeyed hs d.2

/-- The flattened workflow is fixed by its skeleton and the values of the workflow. -/
theorem eq_flatten {g₁ g₂ : Workflow} (h : Flattenable g) (h₁ : skeleton g₁ = skeleton g)
    (h₂ : skeleton g₂ = skeleton (flatten g))
    (hvalues : ∀ k c, movedCell? g k = some c → valueAt g₂ c = valueAt g₁ k) : g₂ = flatten g₁ := by
  have hflattenable₁ := flattenable_of_skeleton_eq h₁ h
  have hskeleton : skeleton g₂ = skeleton (flatten g₁) := by
    rw [h₂, skeleton_flatten_of_skeleton_eq h₁]
  refine eq_of_valueAt (distinct_flatten hflattenable₁) hskeleton (funext fun k => ?_)
  have hsome := isSome_valueAt_of_skeleton_eq hskeleton k
  cases hk : valueAt (flatten g₁) k with
  | none =>
    rw [hk] at hsome
    exact Option.not_isSome_iff_eq_none.1 (by simp [hsome])
  | some v =>
    rcases exists_place_of_valueAt hflattenable₁ (by rw [hk]; rfl) with ⟨s, hs, hplace⟩
    rcases exists_expanded_of_skeleton_eq h₁ hs with ⟨t, ht, hbare⟩
    have hid : t.id = s.id := by rw [← Site.id_bare, hbare, Site.id_bare]
    have hsame : t.place = s.place := by rw [← Site.place_bare, hbare, Site.place_bare]
    have hmoved := movedCell?_place h.keyed.distinct ht k.2
    rw [hid, hsame, ← hplace] at hmoved
    rw [hvalues _ _ hmoved, ← hk, hplace, valueAt_flatten hflattenable₁.keyed hs]

/-! ## Preparations -/

/-- The writes of a preparation leave the values that those of the flattened workflow leave. -/
theorem Transparent.exists_run_flatten (h : Transparent g) (hplanned : Planned g)
    {order order' : List NodeId} (horder : g.plan = .ok order)
    (horder' : Graph.plan (flatten g) = .ok order') {ws : List CellWrite}
    (hws : writes g order = .ok ws) {values : Cell → Option Json}
    (hrun : Write.run ws (valueAt g) = .ok values) :
    ∃ vs values', writes (flatten g) order' = .ok vs ∧
      Write.run vs (valueAt (flatten g)) = .ok values' ∧
      ∀ k c, movedCell? g k = some c → values' c = values k := by
  have hcopies := (h.writes_sites horder hws).2
  have hinjective : ∀ k l c, movedCell? g k = some c → movedCell? g l = some c → k = l :=
    fun k l c hk hl => movedCell?_injective h.keyed hk hl
  rcases h.exists_writes_flatten horder hws horder' with ⟨vs, hvs, hperm⟩
  -- the same writes under other names
  rcases Write.run_filterMap_carry? hinjective
    (fun w hw htargets => h.isSome_movedCell?_source horder hws hw htargets)
    (fun k c hk => valueAt_flatten_of_movedCell? h.keyed hk) hrun with ⟨values', hrun', hvalues'⟩
  -- and in another order
  have hpairwise : (ws.filterMap (Write.carry? (movedCell? g))).Pairwise Write.MayPrecede := by
    have hrow := (h.orderly hplanned).writes_pairwise h.keyed.distinct horder hws
    refine List.pairwise_filterMap.2 (hrow.imp ?_)
    intro w v hprecede w' hw v' hv
    exact hprecede.carry hinjective hw hv
  have hpairwise' : vs.Pairwise Write.MayPrecede :=
    (h.orderly_flatten hcopies hplanned).writes_pairwise (distinct_flatten h.toFlattenable) horder' hvs
  exact ⟨vs, values', hvs, Write.run_perm hperm hpairwise hpairwise' hrun', hvalues'⟩

end Workflow

open Workflow in
/-- Where the preparation of a workflow comes to its end, so does that of the flattened one, and it
leaves the flattened form of what the first leaves. -/
theorem Editor.exec_prepare_flatten {e e₁ : Editor} (h : Transparent e.graph) {order : List NodeId}
    (horder : e.graph.plan = .ok order) (hprepare : (prepare order).exec e = (.ok ⟨⟩, e₁))
    {order' : List NodeId} (horder' : Graph.plan (flatten e.graph) = .ok order') :
    skeleton e₁.graph = skeleton e.graph ∧ e₁.settings = e.settings ∧
      ∃ o, (prepare order').exec { e with graph := flatten e.graph } =
        (.ok ⟨⟩, { e with graph := flatten e₁.graph, outside := o }) := by
  have hdistinct := h.keyed.distinct
  rcases (prepare_performs hdistinct h.reliable order e rfl).exists_result hprepare with
    ⟨values, hvalues, g₁, o₁, rfl, hg₁, hleft⟩
  rcases Fault.bind_eq_ok_iff.1 hvalues with ⟨ws, hws, hrun⟩
  rcases h.exists_run_flatten (planned_of_prepare hdistinct horder rfl hprepare) horder horder' hws
    hrun with ⟨vs, values', hvs, hrun', hvalues'⟩
  have hperforms := prepare_performs (distinct_flatten h.toFlattenable) h.reliable_flatten order'
    { e with graph := flatten e.graph } rfl
  rw [hvs] at hperforms
  have hperforms : (prepare order').Tracks { e with graph := flatten e.graph }
      (Write.run vs (valueAt (flatten e.graph))) _ := hperforms
  rw [hrun'] at hperforms
  rcases hperforms with ⟨e₂, hexec, g₂, o₂, rfl, hg₂, hleft₂⟩
  have hsame : g₂ = flatten g₁ := eq_flatten h.toFlattenable hg₁ hg₂ fun k c hk => by
    rw [hleft₂, hleft, hvalues' k c hk]
  exact ⟨hg₁, rfl, o₂, by rw [hexec, hsame]⟩

end NodeFlow
