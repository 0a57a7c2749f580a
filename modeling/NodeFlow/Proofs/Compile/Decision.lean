import NodeFlow.Proofs.Compile.Obstructed
import NodeFlow.Proofs.Compile.Transparent

/-!
# Deciding transparency

Whether the groups of a workflow are transparent can be seen from its nodes and links: slots are
those that nodes have, and widgets are those that the links of primitives lead to.

Main results:

- Definitions `Graph.inLinks` and `Workflow.pushList`: the links that arrive at a node, and the widgets
  that primitives are linked to.
- Instances of `Decidable` for `Workflow.Separable` and `Workflow.Transparent`.
-/

namespace NodeFlow

/-! ## Links and widgets of a graph -/

namespace Graph

variable {γ : Type} {g : Graph γ}

/-- The links that arrive at a node. -/
def inLinks (g : Graph γ) (n : Node γ) : List Link :=
  (List.range n.inputs.length).filterMap fun i : Nat => g.inLink? n i

private theorem mem_inLinks {n : Node γ} {l : Link} :
    l ∈ g.inLinks n ↔ ∃ slot, g.inLink? n slot = some l := by
  rw [inLinks, List.mem_filterMap]
  constructor
  · rintro ⟨i, -, hl⟩
    exact ⟨i, hl⟩
  · rintro ⟨slot, hl⟩
    have hheld : ∃ i : Nat, slot = i ∧ i < n.inputs.length := by
      rcases Option.bind_eq_some_iff.1 (Option.ite_none_left_eq_some.1 hl).2 with ⟨id, hid, -⟩
      rcases Option.ite_none_left_eq_some.1 hid with ⟨hslot, hid⟩
      rcases Option.bind_eq_some_iff.1 hid with ⟨s, hs, -⟩
      exact ⟨slot.toNat, (Int.toNat_of_nonneg (Int.not_lt.1 hslot)).symm,
        (List.getElem?_eq_some_iff.1 hs).1⟩
    rcases hheld with ⟨i, rfl, hi⟩
    exact ⟨i, List.mem_range.2 hi, hl⟩

/-- The widgets that primitives are linked to, with the ids of these. -/
def pushList (g : Graph γ) : List (NodeId × (NodeId × Nat)) :=
  g.nodes.flatMap fun n => ((g.at? n.id).filter (·.kind.isPrimitive)).toList.flatMap fun m =>
    ((g.targets m).toOption.getD []).map fun c => (n.id, c)

private theorem mem_pushList {id : NodeId} {c : NodeId × Nat} :
    (id, c) ∈ g.pushList ↔ g.PushesTo id c := by
  simp only [pushList, List.mem_flatMap, List.mem_map, Option.mem_toList, Option.filter_eq_some_iff,
    Prod.mk.injEq]
  constructor
  · rintro ⟨n, -, m, ⟨hm, hprimitive⟩, d, hd, rfl, rfl⟩
    cases hplaces : g.targets m with
    | error f =>
      rw [hplaces] at hd
      cases hd
    | ok places =>
      rw [hplaces] at hd
      exact ⟨m, places, hm, hprimitive, hplaces, hd⟩
  · rintro ⟨m, places, hm, hprimitive, hplaces, hc⟩
    have hid := id_of_at? hm
    refine ⟨m, mem_of_at? hm, m, ⟨by rw [hid, hm], hprimitive⟩, c, ?_, hid, rfl⟩
    rw [hplaces]
    exact hc

private theorem receives_iff : g.Receives ↔ ∀ p ∈ g.pushList, ∃ t ∈ g.nodes, t.id = p.2.1 ∧
    ∃ l ∈ g.inLinks t, (g.named? l.origin).map (·.id) = some p.1 := by
  constructor
  · rintro h ⟨id, c⟩ hp
    rcases h id c (mem_pushList.1 hp) with ⟨n, t, slot, l, rfl, ht, hid, hlink, horigin⟩
    exact ⟨t, ht, hid, l, mem_inLinks.2 ⟨slot, hlink⟩, by rw [named?_of_lookup? horigin]; rfl⟩
  · intro h id c hp
    rcases h (id, c) (mem_pushList.2 hp) with ⟨t, ht, hid, l, hl, horigin⟩
    rcases mem_inLinks.1 hl with ⟨slot, hlink⟩
    rcases Option.map_eq_some_iff.1 horigin with ⟨n, hn, rfl⟩
    exact ⟨n, t, slot, l, rfl, ht, hid, hlink, lookup?_of_named? hn⟩

instance (g : Graph γ) : Decidable g.Receives := decidable_of_iff _ receives_iff.symm

end Graph

/-! ## Conditions on workflows -/

namespace Workflow

variable {g : Workflow}

/-- The widgets that primitives inside groups are linked to, with the places of these. -/
def innerPushList (g : Workflow) : List (Place × Cell) :=
  g.nodes.flatMap fun n =>
    (innerGraph g n.id).pushList.map fun p => (.inner n.id p.1, innerCell n.id p.2)

private theorem mem_innerPushList {place : Place} {k : Cell} : (place, k) ∈ innerPushList g ↔
    ∃ host id, place = .inner host id ∧ PushesTo g place k := by
  simp only [innerPushList, List.mem_flatMap, List.mem_map, Prod.mk.injEq]
  constructor
  · rintro ⟨n, -, ⟨id, c⟩, hp, rfl, rfl⟩
    exact ⟨n.id, id, rfl, .inner (Graph.mem_pushList.1 hp)⟩
  · rintro ⟨host, id, rfl, h⟩
    cases h with
    | @inner _ _ c h =>
      cases hn : g.at? host with
      | none =>
        rcases h with ⟨m, _, hm, -⟩
        rw [innerGraph, hn] at hm
        cases hm
      | some n =>
        have hid := Graph.id_of_at? hn
        subst hid
        exact ⟨n, Graph.mem_of_at? hn, _, Graph.mem_pushList.2 h, rfl, rfl⟩

/-- The widgets that primitives are linked to, inside groups too, with the places of these. -/
def pushList (g : Workflow) : List (Place × Cell) :=
  (Graph.pushList g).map (fun p => (.outer p.1, outerCell p.2)) ++ innerPushList g

private theorem mem_pushList {place : Place} {k : Cell} :
    (place, k) ∈ pushList g ↔ PushesTo g place k := by
  rw [pushList, List.mem_append, mem_innerPushList, List.mem_map]
  constructor
  · rintro (⟨⟨id, c⟩, hp, hsame⟩ | ⟨host, id, -, h⟩)
    · cases hsame
      exact .outer (Graph.mem_pushList.1 hp)
    · exact h
  · intro h
    cases hplace : place with
    | outer id =>
      rw [hplace] at h
      cases h with
      | outer h => exact .inl ⟨_, Graph.mem_pushList.2 h, rfl⟩
    | inner host id => exact .inr ⟨host, id, rfl, hplace ▸ h⟩

/-- Primitives share no widget if no two entries of the list do. -/
theorem single_iff : (∀ p q k, PushesTo g p k → PushesTo g q k → p = q) ↔
    ∀ p ∈ pushList g, ∀ q ∈ pushList g, p.2 = q.2 → p.1 = q.1 := by
  constructor
  · rintro hsingle ⟨p, k⟩ hp ⟨q, k'⟩ hq hsame
    exact hsingle p q k (mem_pushList.1 hp) (mem_pushList.1 (by rwa [show k = k' from hsame]))
  · intro hsingle p q k hp hq
    exact hsingle (p, k) (mem_pushList.2 hp) (q, k) (mem_pushList.2 hq) rfl

private theorem confined_iff : Confined g ↔
    (∀ n ∈ g.nodes, n.kind.isPrimitive = true → ∀ l ∈ (Graph.outLinks? g n 0).toOption.getD [],
      ∀ t ∈ Graph.named? g l.target, t.group?.isNone = true) ∧
    ∀ host ∈ g.nodes, ∀ x ∈ host.group?, ∀ p ∈ host.outputs.zipIdx, ∀ e ∈ x.exit? p.2,
      e.1.kind.isPrimitive = true → ∀ k ∈ p.1.links, (Graph.link? g k).isNone = true := by
  constructor
  · rintro ⟨hentering, hleaving⟩
    constructor
    · intro n hn hprimitive l hl t ht
      cases hls : Graph.outLinks? g n 0 with
      | error f =>
        rw [hls] at hl
        cases hl
      | ok ls =>
        rw [hls] at hl
        exact Option.isNone_iff_eq_none.2
          (hentering n hn hprimitive ls hls l hl t (Graph.lookup?_of_named? ht))
    · rintro host hhost x hx ⟨p, j⟩ hp ⟨m, i⟩ hexit hprimitive k hk
      exact Option.isNone_iff_eq_none.2 (hleaving host hhost x hx j p
        (List.mem_zipIdx_iff_getElem?.1 hp) m i hexit hprimitive k hk)
  · rintro ⟨hentering, hleaving⟩
    constructor
    · intro n hn hprimitive ls hls l hl t ht
      refine Option.isNone_iff_eq_none.1 (hentering n hn hprimitive l ?_ t (Graph.named?_of_lookup? ht))
      rw [hls]
      exact hl
    · intro host hhost x hx j p hp m i hexit hprimitive k hk
      exact Option.isNone_iff_eq_none.1 (hleaving host hhost x hx (p, j)
        (List.mem_zipIdx_iff_getElem?.2 hp) (m, i) hexit hprimitive k hk)

instance (g : Workflow) : Decidable (Confined g) := decidable_of_iff _ confined_iff.symm

private theorem separable_iff : Separable g ↔ Confined g ∧ Keyed g ∧
    (∀ n ∈ g.nodes, n.group?.isSome = true → n.mode = normalMode) ∧
    (∀ n ∈ g.nodes, ∀ l ∈ Graph.inLinks g n, ∀ host ∈ Graph.named? g l.origin,
      (host.exit? l.originSlot).isSome = true) ∧
    ∀ p ∈ pushList g, ∀ q ∈ pushList g, p.2 = q.2 → p.1 = q.1 := by
  constructor
  · intro h
    refine ⟨h.toConfined, h.keyed, h.active, ?_, single_iff.1 h.single⟩
    intro n hn l hl host hhost
    rcases Graph.mem_inLinks.1 hl with ⟨slot, hlink⟩
    exact h.exits n hn slot l hlink host (Graph.lookup?_of_named? hhost)
  · rintro ⟨hconfined, hkeyed, hactive, hexits, hsingle⟩
    refine ⟨hconfined, hkeyed, hactive, ?_, single_iff.2 hsingle⟩
    intro n hn slot l hlink host hhost
    exact hexits n hn l (Graph.mem_inLinks.2 ⟨slot, hlink⟩) host (Graph.named?_of_lookup? hhost)

instance (g : Workflow) : Decidable (Keyed g) := inferInstanceAs (Decidable (List.Nodup _))

instance (g : Workflow) : Decidable (Separable g) := decidable_of_iff _ separable_iff.symm

end Workflow

/-! ## Reliable widgets -/

instance (k : Kind Empty) : Decidable (k = .reroute) :=
  match k with
  | .reroute => isTrue rfl
  | .plain => isFalse nofun
  | .missing _ => isFalse nofun
  | .note => isFalse nofun
  | .primitive _ => isFalse nofun

instance (h : Hook) : Decidable h.IsSteady :=
  decidable_of_iff (h.script.raises.isSome = true → h.script.raiseLimit.isNone = true)
    (by rw [Hook.IsSteady, Option.isNone_iff_eq_none])

instance decidableIsSteady : (h : QueueHook) → Decidable h.IsSteady
  | .advance _ => inferInstanceAs (Decidable False)
  | .scripted h => inferInstanceAs (Decidable h.IsSteady)
  | .chained h previous =>
    have := decidableIsSteady previous
    inferInstanceAs (Decidable (h.IsSteady ∧ previous.IsSteady))

private theorem Widget.isReliable_iff {w : Widget} :
    w.IsReliable ↔ (∀ h ∈ w.beforeQueued, h.IsSteady) ∧
    (∀ h ∈ w.callback, h.IsSteady) ∧ ∀ h ∈ w.serializer, h.IsSteady :=
  ⟨fun h => ⟨h.beforeQueued, h.callback, h.serializer⟩, fun h => ⟨h.1, h.2.1, h.2.2⟩⟩

instance (w : Widget) : Decidable w.IsReliable := decidable_of_iff _ Widget.isReliable_iff.symm

namespace Workflow

variable {g : Workflow}

private theorem allWidgets_iff {P : Widget → Prop} :
    AllWidgets P g ↔ (∀ n ∈ g.nodes, ∀ w ∈ n.widgets, P w) ∧
    ∀ n ∈ g.nodes, ∀ x ∈ n.group?, ∀ m ∈ x.graph.nodes, ∀ w ∈ m.widgets, P w :=
  ⟨fun h => ⟨h.outer, h.inner⟩, fun h => ⟨h.1, h.2⟩⟩

private theorem transparent_iff : Transparent g ↔ Separable g ∧
    (∀ n ∈ g.nodes, ∀ x ∈ n.group?, ∀ m ∈ x.graph.nodes, m.kind = .reroute →
      m.inputs.isEmpty = false) ∧ AllWidgets Widget.IsReliable g ∧ Graph.Receives g ∧
    (∀ n ∈ g.nodes, ∀ x ∈ n.group?, x.graph.Receives) ∧
    ∀ p ∈ innerPushList g, ∀ w ∈ (widgetsAt g p.2.1)[p.2.2]?, w.beforeQueued.isNone = true := by
  constructor
  · intro h
    refine ⟨h.toSeparable, ?_, h.reliable, h.receives, h.receivesInside, ?_⟩
    · intro n hn x hx m hm hkind
      exact List.isEmpty_eq_false_iff.2 (h.passes n hn x hx m hm hkind)
    · rintro ⟨place, k⟩ hp w hw
      rcases mem_innerPushList.1 hp with ⟨host, id, rfl, hpushes⟩
      exact Option.isNone_iff_eq_none.2 (h.unhooked host id k hpushes w hw)
  · rintro ⟨hseparable, hpasses, hreliable, hreceives, hinside, hunhooked⟩
    refine ⟨hseparable, ?_, hreliable, hreceives, hinside, ?_⟩
    · intro n hn x hx m hm hkind
      exact List.isEmpty_eq_false_iff.1 (hpasses n hn x hx m hm hkind)
    · intro host id k hpushes w hw
      exact Option.isNone_iff_eq_none.1
        (hunhooked (_, k) (mem_innerPushList.2 ⟨host, id, rfl, hpushes⟩) w hw)

instance (g : Workflow) : Decidable (AllWidgets Widget.IsReliable g) :=
  decidable_of_iff _ allWidgets_iff.symm

instance (g : Workflow) : Decidable (Transparent g) := decidable_of_iff _ transparent_iff.symm

end Workflow

end NodeFlow
