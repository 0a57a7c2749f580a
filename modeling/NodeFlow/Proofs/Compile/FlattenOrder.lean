import NodeFlow.Proofs.Compile.FlattenSteps

/-!
# The order without groups

Where the node that stands for a site feeds another one, the first site has the smaller rank in the
workflow with groups.  If that workflow and its groups can be ordered, so can the flattened one, though
its order may be a different one.

Main results:

- Theorem `Workflow.rank_lt_of_feeds_flat`: a feed after flattening goes up in rank.
- Theorem `Workflow.plan_flatten`: the flattened workflow can be ordered.
- Theorems `Workflow.feeds_flat_outer` and `Workflow.feeds_flat_inner`: nodes that fed others still do.
-/

namespace NodeFlow

open Relation

namespace Workflow

variable {g : Workflow}

private theorem flat_injective (hkeyed : Keyed g) {s t : Site} (hs : s ∈ expanded g)
    (ht : t ∈ expanded g) (h : s.flat g = t.flat g) : s = t :=
  hkeyed.eq_of_id_eq (mem_sites_of_mem_expanded hs) (mem_sites_of_mem_expanded ht)
    (congrArg Node.id h)

/-! ## Feeds go up -/

private theorem host_of_exit? {n : Node Group} {slot i : Whole} {t : Site}
    (h : n.exit? slot = some (t, i)) : t.host = n := by
  unfold Node.exit? at h
  split at h
  · cases h
    rfl
  · rcases Option.map_eq_some_iff.1 h with ⟨_, -, hsame⟩
    cases hsame
    rfl

private theorem lookup?_of_origin?_outer {l : Link} {s : Site} {i : Whole}
    (h : (Wire.outer l).origin? g = some (s, i)) : g.lookup? l.origin = .ok (some s.host) := by
  rcases Option.bind_eq_some_iff.1 h with ⟨n, hn, h⟩
  rw [host_of_exit? h]
  exact Graph.lookup?_of_named? hn

/-- A link of the flattened workflow is one that the workflow carries. -/
theorem exists_wire_of_link? {k : Int} {l : Link} (h : (flatten g).link? k = some l) :
    ∃ w, g.Carries w ∧ l = w.flat g := by
  rw [link?_flatten] at h
  rcases Option.map_eq_some_iff.1 h with ⟨w, hw, rfl⟩
  refine ⟨w, ?_, rfl⟩
  rcases List.mem_append.1 (List.mem_of_find?_eq_some hw) with hmem | hmem
  · rcases List.mem_map.1 hmem with ⟨l, -, rfl⟩
    trivial
  · rcases List.mem_flatMap.1 hmem with ⟨n, hn, hmem⟩
    unfold innerWires at hmem
    split at hmem
    · cases hmem
    · rename_i x hparts
      rcases List.mem_map.1 hmem with ⟨l, -, rfl⟩
      exact ⟨hn, hparts⟩

/-- Whoever feeds the node that stands for a site stands for a site of smaller rank. -/
theorem rank_lt_of_feeds_flat (hkeyed : Keyed g) (hplanned : Planned g) {t : Site}
    (ht : t ∈ expanded g) {u : Node Group} (h : (flatten g).Feeds u (t.flat g)) :
    ∃ s ∈ expanded g, u = s.flat g ∧ s.rank g < t.rank g := by
  have hordered := hplanned.ordered hkeyed
  rcases h with ⟨_, hheld, l, hlink, horigin⟩
  rcases List.getElem?_of_mem hheld with ⟨i, hi⟩
  rw [Site.getElem?_inputs_flat] at hi
  rcases Option.map_eq_some_iff.1 hi with ⟨slot, hslot, rfl⟩
  -- the link leads from a site, and it is enough to compare the rank of this one
  have hstart : ∀ w, g.Carries w → l = w.flat g →
      (∀ s o, w.origin? g = some (s, o) → s.rank g < t.rank g) →
      ∃ s ∈ expanded g, u = s.flat g ∧ s.rank g < t.rank g := by
    rintro w hw rfl hlt
    rw [lookup?_origin_flat hw hkeyed, Except.ok.injEq] at horigin
    rcases Option.map_eq_some_iff.1 horigin with ⟨⟨s, o⟩, ho, rfl⟩
    exact ⟨s, mem_expanded_of_origin? hw ho, rfl, hlt s o ho⟩
  cases t with
  | outer n =>
    have hn := (mem_expanded_outer.1 ht).1
    simp only [Site.held, link?_flatten_held] at hlink
    rcases Option.map_eq_some_iff.1 hlink with ⟨l₀, hl₀, rfl⟩
    refine hstart (.outer l₀) trivial rfl fun s o ho => Site.rank_lt_of_host ?_
    have hmem : slot ∈ n.inputs := List.mem_of_getElem? hslot
    exact hordered.position_lt hn ⟨slot, hmem, l₀, hl₀, lookup?_of_origin?_outer ho⟩
  | inner host x n =>
    rcases mem_expanded_inner.1 ht with ⟨hhost, hparts, hn⟩
    have hgroup := (parts?_eq_some.1 hparts).2
    simp only [Site.held] at hlink
    cases hw : (Site.inner host x n).wire? g i with
    | none => simp [hw] at hlink
    | some w =>
      rw [hw, Option.map_some, Option.bind_some, link?_number_of_wire? hordered.ids_nodup ht hw,
        Option.some.injEq] at hlink
      refine hstart w (carries_of_wire? ht hw) hlink.symm fun s o ho => ?_
      simp only [Site.wire?] at hw
      split at hw
      · rename_i l₀ hl₀
        cases hw
        rcases Option.map_eq_some_iff.1 ho with ⟨m, hm, hsame⟩
        cases hsame
        have hfeeds := Graph.feeds_of_inLink? hl₀ (Graph.lookup?_of_named? hm)
        exact Prod.Lex.toLex_lt_toLex.2 (.inr
          ⟨rfl, (hplanned.inner_ordered hkeyed hhost hgroup).position_lt hn hfeeds⟩)
      · rcases Option.bind_eq_some_iff.1 hw with ⟨j, -, hw⟩
        rcases Option.map_eq_some_iff.1 hw with ⟨l₀, hl₀, rfl⟩
        exact Site.rank_lt_of_host (hordered.position_lt hhost
          (Graph.feeds_of_inLink? hl₀ (lookup?_of_origin?_outer ho)))

private theorem rank_lt_of_transGen_flat (hkeyed : Keyed g) (hplanned : Planned g) {t : Site}
    (ht : t ∈ expanded g) {u : Node Group} (h : TransGen (flatten g).Feeds u (t.flat g)) :
    ∃ s ∈ expanded g, u = s.flat g ∧ s.rank g < t.rank g := by
  induction h using TransGen.head_induction_on with
  | single hstep => exact rank_lt_of_feeds_flat hkeyed hplanned ht hstep
  | head hstep _ ih =>
    rcases ih with ⟨s, hs, rfl, hlt⟩
    rcases rank_lt_of_feeds_flat hkeyed hplanned hs hstep with ⟨r, hr, rfl, hlt'⟩
    exact ⟨r, hr, rfl, hlt'.trans hlt⟩

/-- The flattened workflow can be ordered. -/
theorem plan_flatten (hkeyed : Keyed g) (hplanned : Planned g) : Graph.Ordered (flatten g) := by
  have hids := nodup_ids_flatten hkeyed
  have hread : (flatten g).OriginsReadable := by
    intro n _ slot _ l hl
    obtain ⟨k, -, hk⟩ := Option.bind_eq_some_iff.1 hl
    rcases exists_wire_of_link? hk with ⟨w, hw, rfl⟩
    exact ⟨_, lookup?_origin_flat hw hkeyed⟩
  have hfree : (flatten g).Acyclic := by
    intro n hcircle
    rcases List.mem_map.1 (Graph.mem_left_of_transGen hcircle) with ⟨t, ht, rfl⟩
    rcases rank_lt_of_transGen_flat hkeyed hplanned ht hcircle with ⟨s, hs, hsame, hlt⟩
    rw [flat_injective hkeyed ht hs hsame] at hlt
    exact lt_irrefl _ hlt
  rcases Graph.exists_schedule hids hread with ⟨ws, hws, s⟩
  exact ⟨hids, _, Graph.plan_of_acyclic hws s hfree⟩

/-! ## Feeds that stay -/

/-- A node of the workflow that feeds another one still does. -/
theorem feeds_flat_outer (hkeyed : Keyed g) {u n : Node Group} (hparts : u.parts? = none)
    (h : g.Feeds u n) :
    (flatten g).Feeds (Site.flat g (.outer u)) (Site.flat g (.outer n)) := by
  rcases h with ⟨slot, hslot, l, hl, horigin⟩
  rcases List.getElem?_of_mem hslot with ⟨i, hi⟩
  have hslot' := Site.getElem?_inputs_flat g (.outer n) i
  simp only [Site.inputs, hi, Option.map_some] at hslot'
  refine ⟨_, List.mem_of_getElem? hslot', (Wire.outer l).flat g, ?_, ?_⟩
  · simp only [Site.held, link?_flatten_held, hl, Option.map_some]
  · have ho : (Wire.outer l).origin? g = some (.outer u, l.originSlot) := by
      simp [Wire.origin?, Graph.named?_of_lookup? horigin, Node.exit?, hparts]
    rw [lookup?_origin_flat (w := .outer l) trivial hkeyed, ho]
    rfl

/-- A node inside a group that feeds another one there still does, unless that is cut off. -/
theorem feeds_flat_inner (hkeyed : Keyed g) {host : Node Group} {x : Group} {u n : Node Empty}
    (hn : Site.inner host x n ∈ expanded g) (hcut : n.isCutOff = false) (h : x.graph.Feeds u n) :
    (flatten g).Feeds (Site.flat g (.inner host x u)) (Site.flat g (.inner host x n)) := by
  rcases h with ⟨slot, hslot, l, hl, horigin⟩
  rcases List.getElem?_of_mem hslot with ⟨i, hi⟩
  have hslot' := Site.getElem?_inputs_flat g (.inner host x n) i
  simp only [Site.inputs, hi, Option.map_some] at hslot'
  have hw : (Site.inner host x n).wire? g i = some (.inner host x l) := by
    have hin : x.graph.inLink? n i = some l := by
      rw [Graph.inLink?, hcut, Node.inputLink?, if_neg (by omega : ¬ ((i : Int) < 0)),
        Int.toNat_natCast, hi]
      exact hl
    simp only [Site.wire?, hin]
  refine ⟨_, List.mem_of_getElem? hslot', (Wire.inner host x l).flat g, ?_, ?_⟩
  · simp only [Site.held, hw, Option.map_some, Option.bind_some]
    exact link?_number_of_wire? hkeyed.ids_nodup hn hw
  · have ho : (Wire.inner host x l).origin? g = some (.inner host x u, l.originSlot) := by
      simp [Wire.origin?, Graph.named?_of_lookup? horigin]
    rw [lookup?_origin_flat (carries_of_wire? hn hw) hkeyed, ho]
    rfl

end Workflow

end NodeFlow
