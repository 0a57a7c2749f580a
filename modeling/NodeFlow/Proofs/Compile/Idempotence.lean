import NodeFlow.Proofs.Compile.DependencyOrder
import NodeFlow.Proofs.Compile.Prepare

/-!
# Compiling twice

Where links agree at both ends, a primitive feeds the nodes whose widgets it is linked to, so every
primitive that writes the value of another one comes before it in the execution order.  The copies
that a preparation makes are then settled, and a second preparation changes nothing.  Building the
steps reads the workflow only, so a second compilation gives the same prompt.

Main results:

- Definitions `Workflow.IsLinked` and `Workflow.IsTarget`.
- Theorem `Workflow.copies_settled`: no copy writes what has been read before.
- Definition `Act.IsConstant` and theorem `Editor.compileSites_isConstant`: building without hooks.
- Theorem `Editor.compile_idempotent`: what a second compilation gives, and what the first changed.
-/

namespace NodeFlow

/-! ## Links that agree at both ends -/

namespace Graph

variable {γ : Type} {g : Graph γ}

/-- A link that an output lists starts at its node, and the input that it leads to holds it. -/
def IsLinked (g : Graph γ) : Prop :=
  ∀ n ∈ g.nodes, ∀ o ∈ n.outputs, ∀ id ∈ o.links, ∀ l, g.link? id = some l →
    g.lookup? l.origin = .ok (some n) ∧
      ∀ t slot, g.lookup? l.target = .ok (some t) →
        (position? t.inputs.length l.targetSlot.val).bind (t.inputs[·]?) = some slot →
        slot.link = some id

/-- A link that leaves an output is listed by it. -/
theorem exists_output_of_mem_outLinks {n : Node γ} {slot : Int} {ls : List Link}
    (h : g.outLinks? n slot = .ok ls) {l : Link} (hl : l ∈ ls) :
    ∃ o ∈ n.outputs, ∃ id ∈ o.links, g.link? id = some l := by
  unfold outLinks? at h
  split at h
  · cases h
    cases hl
  · split at h
    · rename_i o ho
      cases h
      rcases Option.bind_eq_some_iff.1 ho with ⟨i, -, hi⟩
      rcases List.mem_filterMap.1 hl with ⟨id, hid, hlink⟩
      exact ⟨o, List.mem_of_getElem? hi, id, hid, hlink⟩
    · cases h

/-- The primitive of an id is linked to the widget at a place. -/
def PushesTo (g : Graph γ) (id : NodeId) (c : NodeId × Nat) : Prop :=
  ∃ n places, g.at? id = some n ∧ n.kind.isPrimitive = true ∧ g.targets n = .ok places ∧ c ∈ places

/-- A primitive feeds the nodes whose widgets it is linked to. -/
theorem exists_feeds_of_pushesTo (hlinked : g.IsLinked) {id : NodeId} {c : NodeId × Nat}
    (h : g.PushesTo id c) : ∃ n t, n.id = id ∧ t ∈ g.nodes ∧ t.id = c.1 ∧ g.Feeds n t := by
  rcases h with ⟨n, places, hn, -, hplaces, hc⟩
  rcases mem_targets hplaces hc with ⟨ls, hls, l, hl, htarget⟩
  rcases targetOf_eq_some htarget with ⟨t, slot, name, ht, hslot, -, hid, -⟩
  rcases exists_output_of_mem_outLinks hls hl with ⟨o, ho, link, hmem, hlink⟩
  rcases hlinked n (mem_of_at? hn) o ho link hmem l hlink with ⟨horigin, hheld⟩
  rcases Option.bind_eq_some_iff.1 hslot with ⟨i, -, hi⟩
  refine ⟨n, t, id_of_at? hn, mem_of_lookup? ht, hid, slot, List.mem_of_getElem? hi, l, ?_, horigin⟩
  rw [hheld t slot ht hslot]
  exact hlink

/-- A primitive comes before the nodes whose widgets it is linked to. -/
theorem Ordered.position_lt_of_pushesTo (hordered : g.Ordered) (hlinked : g.IsLinked) {id : NodeId}
    {c : NodeId × Nat} (h : g.PushesTo id c) : g.position id < g.position c.1 := by
  rcases exists_feeds_of_pushesTo hlinked h with ⟨n, t, rfl, ht, hid, hfeeds⟩
  rw [← hid]
  exact hordered.position_lt ht hfeeds

end Graph

/-- The node of the workflow that a place is or is inside of. -/
def Place.host : Place → NodeId
  | outer id => id
  | inner host _ => host

namespace Workflow

/-- Links agree at both ends, in the workflow and inside groups. -/
structure IsLinked (g : Workflow) : Prop where
  outer : Graph.IsLinked g
  inner : ∀ n ∈ g.nodes, ∀ group, n.group? = some group → group.graph.IsLinked

/-- The primitive at a place is linked to the widget. -/
inductive PushesTo (g : Workflow) : Place → Cell → Prop
  | outer {id : NodeId} {c : NodeId × Nat} (h : Graph.PushesTo g id c) :
    PushesTo g (.outer id) (outerCell c)
  | inner {host id : NodeId} {c : NodeId × Nat} (h : (innerGraph g host).PushesTo id c) :
    PushesTo g (.inner host id) (innerCell host c)

/-- A primitive is linked to the widget. -/
def IsTarget (g : Workflow) (k : Cell) : Prop := ∃ place, PushesTo g place k

variable {g : Workflow}

/-! ## Where copies come from -/

/-- The rank of the node at a place. -/
def placeRank (g : Workflow) : Place → ℕ ×ₗ ℕ
  | .outer id => toLex (g.position id, 0)
  | .inner host id => toLex (g.position host, (innerGraph g host).position id)

/-- Places in different graphs are ranked by their hosts. -/
theorem placeRank_lt_of_host {p q : Place} (h : g.position p.host < g.position q.host) :
    placeRank g p < placeRank g q := by
  cases p <;> cases q <;> exact Prod.Lex.toLex_lt_toLex.2 (.inl h)

/-- What is inside a node, if anything is. -/
theorem innerGraph_cases (g : Workflow) (host : NodeId) :
    innerGraph g host = {} ∨ ∃ n ∈ g.nodes, ∃ group, n.group? = some group ∧
      innerGraph g host = group.graph := by
  unfold innerGraph
  cases hn : g.at? host with
  | none => exact .inl rfl
  | some n =>
    cases hgroup : n.group? with
    | none => exact .inl (by simp [hgroup])
    | some group => exact .inr ⟨n, Graph.mem_of_at? hn, group, hgroup, by simp [hgroup]⟩

/-- Where primitives come before the nodes that they are linked to, their ranks are smaller. -/
theorem placeRank_lt_of_position
    (houter : ∀ id c, Graph.PushesTo g id c → g.position id < g.position c.1)
    (hinner : ∀ n ∈ g.nodes, ∀ group, n.group? = some group → ∀ id c, group.graph.PushesTo id c →
      group.graph.position id < group.graph.position c.1)
    {place : Place} {k : Cell} (h : PushesTo g place k) : placeRank g place < placeRank g k.1 := by
  cases h with
  | outer h => exact Prod.Lex.toLex_lt_toLex.2 (.inl (houter _ _ h))
  | @inner host id c h =>
    refine Prod.Lex.toLex_lt_toLex.2 (.inr ⟨rfl, ?_⟩)
    rcases innerGraph_cases g host with hnone | ⟨n, hn, group, hgroup, hsame⟩
    · rw [hnone] at h
      rcases h with ⟨m, _, hm, -⟩
      cases hm
    · rw [hsame] at h ⊢
      exact hinner n hn group hgroup id c h

/-- A primitive has a smaller rank than the nodes whose widgets it is linked to. -/
theorem placeRank_lt_of_pushesTo (hdistinct : Distinct g) (hplanned : Planned g)
    (hlinked : IsLinked g) {place : Place} {k : Cell} (h : PushesTo g place k) :
    placeRank g place < placeRank g k.1 := by
  have hordered : Graph.Ordered g := ⟨hdistinct.outer, hplanned.outer⟩
  refine placeRank_lt_of_position
    (fun id c hid => hordered.position_lt_of_pushesTo hlinked.outer hid)
    (fun n hn group hgroup id c hid => ?_) h
  have hinner : group.graph.Ordered :=
    ⟨hdistinct.inner n hn group hgroup, hplanned.inner n hn group hgroup⟩
  exact hinner.position_lt_of_pushesTo (hlinked.inner n hn group hgroup) hid

/-- A copy of several items is a copy of one of them. -/
theorem mem_allCopies {β : Type} {f : β → Except Fault (List (Copy Cell))} {xs : List β}
    {cs : List (Copy Cell)} (h : allCopies f xs = .ok cs) {c : Copy Cell} (hc : c ∈ cs) :
    ∃ x ∈ xs, ∃ ds, f x = .ok ds ∧ c ∈ ds := by
  induction xs generalizing cs with
  | nil =>
    cases h
    cases hc
  | cons x xs ih =>
    rcases Fault.bind_eq_ok_iff.1 h with ⟨ds, hds, h⟩
    rcases Fault.bind_eq_ok_iff.1 h with ⟨rest, hrest, h⟩
    cases h
    rcases List.mem_append.1 hc with hc | hc
    · exact ⟨x, List.mem_cons_self, ds, hds, hc⟩
    · rcases ih hrest hc with ⟨y, hy, hfound⟩
      exact ⟨y, List.mem_cons_of_mem x hy, hfound⟩

/-- Where all copies can be found, so can those of each item. -/
theorem exists_of_allCopies {β : Type} {f : β → Except Fault (List (Copy Cell))} {xs : List β}
    {cs : List (Copy Cell)} (h : allCopies f xs = .ok cs) {x : β} (hx : x ∈ xs) :
    ∃ ds, f x = .ok ds := by
  induction xs generalizing cs with
  | nil => cases hx
  | cons y ys ih =>
    rcases Fault.bind_eq_ok_iff.1 h with ⟨ds, hds, h⟩
    rcases Fault.bind_eq_ok_iff.1 h with ⟨rest, hrest, -⟩
    rcases List.mem_cons.1 hx with rfl | hx
    · exact ⟨ds, hds⟩
    · exact ih hrest hx

/-- What relates copies of one item, and copies of different ones, relates all copies. -/
theorem allCopies_pairwise {β : Type} {R : Copy Cell → Copy Cell → Prop}
    {f : β → Except Fault (List (Copy Cell))} {xs : List β} {cs : List (Copy Cell)}
    (h : allCopies f xs = .ok cs) (hself : ∀ x ∈ xs, ∀ ds, f x = .ok ds → ds.Pairwise R)
    (hxs : xs.Pairwise fun x y => ∀ ds es, f x = .ok ds → f y = .ok es →
      ∀ c ∈ ds, ∀ d ∈ es, R c d) : cs.Pairwise R := by
  induction xs generalizing cs with
  | nil =>
    cases h
    exact .nil
  | cons x xs ih =>
    rcases Fault.bind_eq_ok_iff.1 h with ⟨ds, hds, h⟩
    rcases Fault.bind_eq_ok_iff.1 h with ⟨rest, hrest, h⟩
    cases h
    rcases List.pairwise_cons.1 hxs with ⟨hfirst, hxs⟩
    refine List.pairwise_append.2 ⟨hself x List.mem_cons_self ds hds,
      ih hrest (fun y hy => hself y (List.mem_cons_of_mem x hy)) hxs, ?_⟩
    intro c hc d hd
    rcases mem_allCopies hrest hd with ⟨y, hy, es, hes, hd⟩
    exact hfirst y hy ds es hds hes c hc d hd

/-- The copies at a place: those of a primitive that stands there, from its first widget to its
targets. -/
theorem copiesAt_eq_ok {place : Place} {cs : List (Copy Cell)} (h : copiesAt g place = .ok cs) :
    cs = [] ∨ ∃ targets, cs = [⟨(place, 0), targets⟩] ∧ ∀ k ∈ targets, PushesTo g place k := by
  cases place with
  | outer id =>
    rcases Fault.map_eq_ok_iff.1 h with ⟨ds, hds, rfl⟩
    rcases Graph.copiesOf_eq_ok hds with rfl | ⟨n, places, hn, hprimitive, hplaces, rfl⟩
    · exact .inl rfl
    · refine .inr ⟨_, rfl, fun k hk => ?_⟩
      rcases List.mem_map.1 hk with ⟨c, hc, rfl⟩
      exact .outer ⟨n, places, hn, hprimitive, hplaces, hc⟩
  | inner host id =>
    rcases Fault.map_eq_ok_iff.1 h with ⟨ds, hds, rfl⟩
    rcases Graph.copiesOf_eq_ok hds with rfl | ⟨n, places, hn, hprimitive, hplaces, rfl⟩
    · exact .inl rfl
    · refine .inr ⟨_, rfl, fun k hk => ?_⟩
      rcases List.mem_map.1 hk with ⟨c, hc, rfl⟩
      exact .inner ⟨n, places, hn, hprimitive, hplaces, hc⟩

/-- The places that push with a node: the node itself if it is no group, else the nodes inside, in
their execution order. -/
theorem pushPlaces_cases {n : Node Group} {places : List Place} (h : n.pushPlaces = .ok places) :
    (n.group? = none ∧ places.Sublist [.outer n.id]) ∨
      ∃ group order, n.group? = some group ∧ group.graph.plan = .ok order ∧
        places.Sublist ((order.filterMap group.graph.at?).map fun m => .inner n.id m.id) := by
  rcases Fault.bind_eq_ok_iff.1 h with ⟨inner, hinner, h⟩
  cases h
  rcases innerSites?_cases hinner with ⟨hgroup, rfl⟩ | ⟨group, order, hgroup, horder, rfl⟩
  · exact .inl ⟨hgroup, List.filter_sublist.map _⟩
  · refine .inr ⟨group, order, hgroup, horder, ?_⟩
    have hplaces : ((order.filterMap group.graph.at?).map (Site.inner n group)).map (·.place) =
        (order.filterMap group.graph.at?).map fun m => .inner n.id m.id := by
      rw [List.map_map]
      rfl
    rw [← hplaces]
    exact List.filter_sublist.map _

/-- The places that push with a node have ascending ranks, and stand in its part of the order. -/
theorem placeRank_pushPlaces (hdistinct : Distinct g) {n : Node Group} (hn : n ∈ g.nodes)
    {places : List Place} (h : n.pushPlaces = .ok places) :
    places.Pairwise (fun p q => placeRank g p < placeRank g q) ∧ ∀ p ∈ places, p.host = n.id := by
  rcases pushPlaces_cases h with ⟨-, hsub⟩ | ⟨group, order, hgroup, horder, hsub⟩
  · refine ⟨(List.pairwise_singleton _ _).sublist hsub, fun p hp => ?_⟩
    rw [List.mem_singleton.1 (hsub.subset hp)]
    rfl
  · constructor
    · refine List.Pairwise.sublist hsub (List.pairwise_map.2 ?_)
      have hordered : group.graph.Ordered := ⟨hdistinct.inner n hn group hgroup, order, horder⟩
      refine (hordered.filterMap_plan_pairwise horder).imp fun hlt => ?_
      simp only [placeRank, innerGraph_of_mem hdistinct.outer hn hgroup]
      exact Prod.Lex.toLex_lt_toLex.2 (.inr ⟨rfl, hlt⟩)
    · intro p hp
      rcases List.mem_map.1 (hsub.subset hp) with ⟨m, -, rfl⟩
      rfl

/-- The copies that are made when the turn of a node comes start at places of ascending ranks, in
its part of the order. -/
theorem copiesFor_eq_ok (hdistinct : Distinct g) {id : NodeId} {cs : List (Copy Cell)}
    (h : copiesFor g id = .ok cs) :
    cs.Pairwise (fun c d => placeRank g c.source.1 ≤ placeRank g d.source.1) ∧
      ∀ c ∈ cs, c.source.1.host = id ∧ ∀ k ∈ c.targets, PushesTo g c.source.1 k := by
  unfold copiesFor at h
  split at h
  · cases h
    exact ⟨.nil, nofun⟩
  · rename_i n hn
    rcases Fault.bind_eq_ok_iff.1 h with ⟨places, hplaces, h⟩
    rcases placeRank_pushPlaces hdistinct (Graph.mem_of_at? hn) hplaces with ⟨hascending, hhost⟩
    have hat : ∀ p cs, copiesAt g p = .ok cs → ∀ c ∈ cs, c.source.1 = p := by
      intro p cs hcs c hc
      rcases copiesAt_eq_ok hcs with rfl | ⟨targets, rfl, -⟩
      · cases hc
      · rw [List.mem_singleton.1 hc]
    refine ⟨allCopies_pairwise h (fun p _ ds hds => ?_) (hascending.imp ?_), fun c hc => ?_⟩
    · rcases copiesAt_eq_ok hds with rfl | ⟨targets, rfl, -⟩
      · exact .nil
      · exact List.pairwise_singleton _ _
    · intro p q hlt ds es hds hes c hc d hd
      rw [hat p ds hds c hc, hat q es hes d hd]
      exact hlt.le
    · rcases mem_allCopies h hc with ⟨p, hp, ds, hds, hc⟩
      rcases copiesAt_eq_ok hds with rfl | ⟨targets, rfl, htargets⟩
      · cases hc
      · rw [List.mem_singleton.1 hc, ← Graph.id_of_at? hn]
        exact ⟨hhost p hp, htargets⟩

section Order

variable {order : List NodeId} {cs : List (Copy Cell)} (hdistinct : Distinct g)
  (horder : g.plan = .ok order) (hcopies : copies g order = .ok cs)

include hdistinct horder hcopies

/-- Where the copies of all nodes are known, groups can be ordered. -/
theorem planned_of_copies : Planned g := by
  refine ⟨⟨order, horder⟩, fun n hn group hgroup => ?_⟩
  have hordered : Graph.Ordered g := ⟨hdistinct.outer, order, horder⟩
  have hmem : n.id ∈ order := (hordered.plan_perm horder).mem_iff.2 (List.mem_map_of_mem hn)
  have hfor : ∃ ds, copiesFor g n.id = .ok ds := exists_of_allCopies hcopies hmem
  rcases hfor with ⟨ds, hds⟩
  rw [copiesFor, Graph.at?_of_mem hdistinct.outer hn] at hds
  rcases Fault.bind_eq_ok_iff.1 hds with ⟨places, hplaces, -⟩
  rcases pushPlaces_cases hplaces with ⟨hnone, -⟩ | ⟨group', order', hgroup', horder', -⟩
  · rw [hgroup] at hnone
    cases hnone
  · rw [hgroup] at hgroup'
    cases hgroup'
    exact ⟨order', horder'⟩

/-- No copy of a preparation writes what has been read before. -/
theorem copies_settled (hlinked : IsLinked g) : Copy.Settled cs := by
  have hordered : Graph.Ordered g := ⟨hdistinct.outer, order, horder⟩
  have hplanned := planned_of_copies hdistinct horder hcopies
  refine Copy.settled_of_pairwise (fun k => placeRank g k.1)
    (allCopies_pairwise hcopies (fun id _ ds hds => (copiesFor_eq_ok hdistinct hds).1) ?_) ?_
  · have hpositions : order.Pairwise fun a b => g.position a < g.position b :=
      hordered.plan_pairwise horder
    refine hpositions.imp fun hlt ds es hds hes c hc d hd => ?_
    have hc' := ((copiesFor_eq_ok hdistinct hds).2 c hc).1
    have hd' := ((copiesFor_eq_ok hdistinct hes).2 d hd).1
    exact (placeRank_lt_of_host (by rwa [hc', hd'])).le
  · intro d hd c hc htarget
    rcases mem_allCopies hcopies hd with ⟨id, -, ds, hds, hd⟩
    exact placeRank_lt_of_pushesTo hdistinct hplanned hlinked
      (((copiesFor_eq_ok hdistinct hds).2 d hd).2 c.source htarget)

omit horder in
/-- Copies write widgets that primitives are linked to. -/
theorem isTarget_of_writes {k : Cell} (h : Copy.Writes cs k) : IsTarget g k := by
  rcases h with ⟨c, hc, hk⟩
  rcases mem_allCopies hcopies hc with ⟨id, -, ds, hds, hc⟩
  exact ⟨_, ((copiesFor_eq_ok hdistinct hds).2 c hc).2 k hk⟩

end Order

end Workflow

/-! ## Actions that change nothing -/

namespace Act

variable {σ τ α β : Type}

/-- The action comes to the same from every state, and leaves it as it is. -/
def IsConstant (act : Act σ α) : Prop := ∃ r, ∀ s, act.exec s = (r, s)

namespace IsConstant

private theorem pure (a : α) : (pure a : Act σ α).IsConstant := ⟨.ok a, fun _ => rfl⟩

private theorem lift (r : Except Fault α) : (lift r : Act σ α).IsConstant := ⟨r, fun _ => rfl⟩

private theorem waitFor (ticks : Nat) : (waitFor ticks : Act σ PUnit).IsConstant :=
  ⟨.ok ⟨⟩, exec_waitFor ticks⟩

private theorem bind {act : Act σ α} {f : α → Act σ β} (h : act.IsConstant)
    (hf : ∀ a, (f a).IsConstant) : (act >>= f).IsConstant := by
  rcases h with ⟨e | a, hr⟩
  · refine ⟨.error e, fun s => ?_⟩
    rw [exec_bind, hr]
  · rcases hf a with ⟨r, hr'⟩
    refine ⟨r, fun s => ?_⟩
    rw [exec_bind, hr]
    exact hr' s

/-- A computation in front matters only if it succeeds. -/
theorem bind_lift {r : Except Fault α} {f : α → Act σ β}
    (hf : ∀ a, r = .ok a → (f a).IsConstant) : (Act.lift r >>= f).IsConstant := by
  cases r with
  | error e => exact ⟨.error e, fun _ => rfl⟩
  | ok a =>
    rcases hf a rfl with ⟨r, hr⟩
    exact ⟨r, hr⟩

end IsConstant

end Act

namespace Editor

open Workflow

/-! ## Building without hooks -/

section Silent

variable {g : Workflow} {maxHops : Int} {titled : Bool}

private theorem sentValues_isConstant {ws : List Widget} (hsilent : ∀ w ∈ ws, w.IsSilent)
    (node : NodeId) (i : Nat) (sent : Members) : (sentValues node i ws sent).IsConstant := by
  induction ws generalizing i sent with
  | nil => exact .pure _
  | cons w ws ih =>
    have ih := fun i sent => ih (fun u hu => hsilent u (List.mem_cons_of_mem w hu)) i sent
    have hvalue : (outward (w.sentValue node i)).IsConstant := by
      rw [Widget.sentValue, (hsilent w List.mem_cons_self).serializer]
      exact ⟨.ok w.value, fun _ => rfl⟩
    rw [sentValues]
    split
    · exact .bind (.waitFor _) fun _ => .bind hvalue fun v => ih _ _
    · exact ih _ _

private theorem buildSteps_isConstant {sites : List Site}
    (hsilent : ∀ s ∈ sites, ∀ w ∈ s.widgets, w.IsSilent) (output : Output) :
    (buildSteps g maxHops titled sites output).IsConstant := by
  induction sites generalizing output with
  | nil => exact .pure _
  | cons s sites ih =>
    have ih := ih fun t ht => hsilent t (List.mem_cons_of_mem s ht)
    rw [buildSteps]
    split
    · exact .bind (sentValues_isConstant (hsilent s List.mem_cons_self) _ _ _) fun _ =>
        .bind (.lift _) fun _ => ih _
    · exact ih _

private theorem expandSteps_isConstant (hsilent : AllWidgets Widget.IsSilent g)
    {nodes : List (Node Group)} (hnodes : ∀ n ∈ nodes, n ∈ g.nodes) (output : Output) :
    (expandSteps g maxHops titled (nodes.map Site.outer) output).IsConstant := by
  induction nodes generalizing output with
  | nil => exact .pure _
  | cons n nodes ih =>
    have ih := ih fun m hm => hnodes m (List.mem_cons_of_mem n hm)
    refine .bind_lift fun met hmet => .bind (buildSteps_isConstant (fun s hs => ?_) _) fun _ => ih _
    exact hsilent.of_mem_sites (mem_sites_of_expand (hnodes n List.mem_cons_self) hmet s hs)

/-- Without hooks, building the output reads the workflow only. -/
theorem compileSites_isConstant (hsilent : AllWidgets Widget.IsSilent g) {nodes : List (Node Group)}
    (hnodes : ∀ n ∈ nodes, n ∈ g.nodes) :
    (compileSites g maxHops titled (nodes.map Site.outer)).IsConstant :=
  .bind (expandSteps_isConstant hsilent hnodes []) fun _ => .pure _

end Silent

/-! ## Compiling twice -/

/-- Whatever primitives there are in the workflow and inside groups, and whatever they are linked
to, if ids are distinct, links agree at both ends and no widget has a hook that runs before or with a
submission, then after a compilation that succeeds

* the workflow is the one that was captured with the prompt;
* another compilation gives the same prompt and changes nothing;
* nothing but the values of widgets that primitives are linked to has changed. -/
theorem compile_idempotent {e e' : Editor} {p : Prompt} (hdistinct : Distinct e.graph)
    (hlinked : IsLinked e.graph) (hsilent : AllWidgets Widget.IsSilent e.graph)
    (h : compile.exec e = (.ok p, e')) :
    Workflow.save e'.graph = p.workflow ∧ compile.exec e' = (.ok p, e') ∧
      e' = { e with graph := e'.graph } ∧ skeleton e'.graph = skeleton e.graph ∧
      ∀ k, ¬ IsTarget e.graph k → valueAt e'.graph k = valueAt e.graph k := by
  rcases exec_compile_eq_ok_iff.1 h with ⟨order, prepared, output, horder, hprepare, hbuild, rfl⟩
  have hmakes := prepare_makes hdistinct (hsilent.imp fun w hw => hw.isSteady) order
  rcases hmakes e rfl with ⟨g, o, hexec, hskeleton, hvalues, hquiet⟩
  rw [hprepare] at hexec
  rcases Fault.map_eq_ok_iff.1 (congrArg Prod.fst hexec).symm with ⟨cs, hcopies, -⟩
  have hprepared : prepared = { e with graph := g, outside := o } := congrArg Prod.snd hexec
  rw [hquiet hsilent] at hprepared
  subst hprepared
  -- building leaves no trace
  have hnodes : ∀ n ∈ order.filterMap g.at?, n ∈ g.nodes := by
    intro n hn
    rcases List.mem_filterMap.1 hn with ⟨id, -, hat⟩
    exact Graph.mem_of_at? hat
  rcases compileSites_isConstant (allWidgets_of_skeleton_eq Widget.isSilent_bare hskeleton hsilent)
    hnodes with ⟨r, hr⟩
  have hlast : e' = { e with graph := g } := by
    rw [hr] at hbuild
    exact (congrArg Prod.snd hbuild).symm
  subst hlast
  -- a second preparation finds the values that the first one has left
  have hagain : (prepare order).exec { e with graph := g } = (.ok (), { e with graph := g }) := by
    rcases hmakes { e with graph := g } hskeleton with ⟨g₂, o₂, hexec₂, hskeleton₂, hvalues₂, hquiet₂⟩
    have hsettled := copies_settled hdistinct horder hcopies hlinked
    have hsame : valueAt g₂ = valueAt g := by
      rw [hvalues₂ cs hcopies, hvalues cs hcopies, Copy.run_run hsettled]
    have hgraph : g₂ = g := eq_of_valueAt (distinct_of_skeleton_eq hskeleton hdistinct)
      (hskeleton₂.trans hskeleton.symm) hsame
    rw [hexec₂, hcopies, hquiet₂ hsilent, hgraph]
    rfl
  refine ⟨rfl, ?_, rfl, hskeleton, fun k hk => ?_⟩
  · have horder' : g.plan = .ok order := by rw [plan_of_skeleton_eq hskeleton, horder]
    exact exec_compile_eq_ok_iff.2 ⟨order, _, output, horder', hagain, hbuild, rfl⟩
  · have hwrites : ¬ Copy.Writes cs k := fun h => hk (isTarget_of_writes hdistinct hcopies h)
    rw [hvalues cs hcopies, Copy.run_of_not_writes hwrites]

end Editor

open Workflow

/-- A primitive that feeds another one, which feeds a sink, listed backwards. -/
def relay {γ : Type} : Graph γ where
  nodes := [
    { id := .number 3, type := "Sink", title := none,
      inputs := [{ name := "seed", link := some 2, widget := .str "seed" }],
      widgets := [{ name := "seed", value := .int 0 }] },
    { id := .number 2, kind := .primitive none, type := "Primitive", title := none,
      inputs := [{ name := "value", link := some 1, widget := .str "value" }],
      outputs := [{ name := "o", links := [2] }], widgets := [{ name := "value", value := .int 1 }] },
    { id := .number 1, kind := .primitive none, type := "Primitive", title := none,
      outputs := [{ name := "o", links := [1] }], widgets := [{ name := "value", value := .int 7 }] }]
  links := [
    ⟨.number 1, .int 1, .number 0, .int 2, .number 0, .str "*"⟩,
    ⟨.number 2, .int 2, .number 0, .int 3, .number 0, .str "*"⟩]

/-- Primitives that feed each other, in the workflow and inside a group. -/
def relayed : Editor where
  graph := { (relay : Workflow) with nodes := relay.nodes ++
    [{ id := .number 4, kind := .group ⟨relay, [], []⟩, type := "Group", title := none }] }

private theorem relayed_distinct : Distinct relayed.graph := by
  refine ⟨by decide, ?_⟩
  intro n hn group hgroup
  simp only [relayed, relay, List.cons_append, List.nil_append, List.mem_cons, List.not_mem_nil,
    or_false] at hn
  rcases hn with rfl | rfl | rfl | rfl <;> cases hgroup
  decide

/-- The links of a relay agree at both ends, whatever nodes without outputs stand beside it. -/
theorem relay_isLinked {γ : Type} {ns : List (Node γ)} (hns : ∀ n ∈ ns, n.outputs = []) :
    Graph.IsLinked { (relay : Graph γ) with nodes := relay.nodes ++ ns } := by
  intro n hn o ho id hid l hl
  simp only [relay, List.cons_append, List.nil_append, List.mem_cons] at hn
  rcases hn with rfl | rfl | rfl | hn
  · cases ho
  · rw [List.mem_singleton.1 ho] at hid
    rw [List.mem_singleton.1 hid] at hl ⊢
    cases hl
    refine ⟨rfl, fun t slot ht hslot => ?_⟩
    cases ht
    cases hslot
    rfl
  · rw [List.mem_singleton.1 ho] at hid
    rw [List.mem_singleton.1 hid] at hl ⊢
    cases hl
    refine ⟨rfl, fun t slot ht hslot => ?_⟩
    cases ht
    cases hslot
    rfl
  · rw [hns n hn] at ho
    cases ho

private theorem relayed_isLinked : IsLinked relayed.graph := by
  refine ⟨relay_isLinked (by simp), ?_⟩
  intro n hn group hgroup
  simp only [relayed, relay, List.cons_append, List.nil_append, List.mem_cons, List.not_mem_nil,
    or_false] at hn
  rcases hn with rfl | rfl | rfl | rfl <;> cases hgroup
  exact relay_isLinked (by simp : ∀ n ∈ ([] : List (Node Empty)), n.outputs = [])

private theorem relayed_isSilent : AllWidgets Widget.IsSilent relayed.graph := by
  have hrelay : ∀ {γ : Type}, (relay : Graph γ).AllWidgets Widget.IsSilent := by
    intro γ n hn w hw
    simp only [relay, List.mem_cons, List.not_mem_nil, or_false] at hn
    rcases hn with rfl | rfl | rfl <;>
    · rw [List.mem_singleton.1 hw]
      exact ⟨rfl, rfl, rfl⟩
  constructor
  · intro n hn w hw
    rcases List.mem_append.1 hn with hn | hn
    · exact hrelay n hn w hw
    · rw [List.mem_singleton.1 hn] at hw
      cases hw
  · intro n hn group hgroup
    simp only [relayed, relay, List.cons_append, List.nil_append, List.mem_cons, List.not_mem_nil,
      or_false] at hn
    rcases hn with rfl | rfl | rfl | rfl <;> cases hgroup
    exact hrelay

/-- The value of the first primitive passes through the second one, and is there at once. -/
theorem relayed_idempotent :
    Distinct relayed.graph ∧ IsLinked relayed.graph ∧
      AllWidgets Widget.IsSilent relayed.graph ∧ ∃ p e', Editor.compile.exec relayed = (.ok p, e') ∧
        Workflow.save e'.graph = p.workflow ∧ Editor.compile.exec e' = (.ok p, e') ∧
        e' = { relayed with graph := e'.graph } ∧ skeleton e'.graph = skeleton relayed.graph ∧
        (∀ k, ¬ IsTarget relayed.graph k → valueAt e'.graph k = valueAt relayed.graph k) ∧
        valueAt relayed.graph (.inner (.number 4) (.number 3), 0) = some (.int 0) ∧
        valueAt e'.graph (.inner (.number 4) (.number 3), 0) = some (.int 7) := by
  obtain ⟨p, h⟩ : ∃ p, Editor.compile.exec relayed = (.ok p, (Editor.compile.exec relayed).2) :=
    ⟨_, rfl⟩
  rcases Editor.compile_idempotent relayed_distinct relayed_isLinked relayed_isSilent h with
    ⟨hsaved, hagain, hgraph, hskeleton, hvalues⟩
  exact ⟨relayed_distinct, relayed_isLinked, relayed_isSilent, p, _, h, hsaved, hagain, hgraph,
    hskeleton, hvalues, rfl, rfl⟩

end NodeFlow
