import NodeFlow.Proofs.Compile.Delivery
import NodeFlow.Proofs.Compile.Draws

/-!
# The order of turns

The turn of a node reads and writes the widgets of this node and of what is inside it, takes from the
random sources, and pushes to widgets of other nodes.  Where every primitive has its turn before the
nodes that it is linked to, and no two of them are linked to one widget, a widget has its final value
once its node has had its turn.  So preparations that give the same turns in different orders leave the
same workflow, if both succeed and nothing is drawn.

Main results:

- Structure `Workflow.Timely`: a row of turns with primitives before what they are linked to.
- Theorems `Editor.prepareNode_keepsOthers`, `Editor.valueAt_of_push` and
  `Editor.prepareNode_determined`: what one turn does.
- Theorem `Editor.valueAt_of_pushed`: what a widget holds before the turn of its node.
- Theorem `Editor.valueAt_behind`: what nodes hold that have had their turn.
- Theorem `Editor.prepare_anyOrder`: the order of turns does not matter.
-/

namespace NodeFlow

namespace Workflow

variable {g g' : Workflow}

/-! ## Rows of turns -/

/-- Every node has one turn, and primitives have theirs before the nodes that they are linked to. -/
structure Timely (g : Workflow) (order : List NodeId) : Prop where
  nodup : order.Nodup
  complete : ∀ n ∈ g.nodes, n.id ∈ order
  early : ∀ id k, PushesTo g (.outer id) k → order.idxOf id < order.idxOf k.1.host

namespace Timely

variable {order front back : List NodeId} {id other : NodeId} {k : Cell}

private theorem host_ne (h : Timely g order) (hpushes : PushesTo g (.outer id) k) :
    k.1.host ≠ id := by
  intro hsame
  have hlt := h.early id k hpushes
  rw [hsame] at hlt
  exact absurd hlt (lt_irrefl _)

/-- A primitive that is linked to a widget of a node has had its turn when the node has its own. -/
theorem mem_front (h : Timely g (front ++ id :: back)) (hpushes : PushesTo g (.outer other) k)
    (hk : k.1.host = id) : other ∈ front := by
  have hlt := h.early other k hpushes
  have hnot : id ∉ front := by
    intro hmem
    exact (List.nodup_append.1 h.nodup).2.2 id hmem id List.mem_cons_self rfl
  rw [hk, List.idxOf_append_of_notMem hnot, List.idxOf_cons_self, Nat.add_zero] at hlt
  by_contra hother
  rw [List.idxOf_append_of_notMem hother] at hlt
  omega

/-- The nodes whose turn is still to come do not reach what is behind. -/
theorem not_pushesTo (h : Timely g (front ++ back)) (hk : k.1.host ∈ front) (hother : other ∈ back) :
    ¬ PushesTo g (.outer other) k := by
  intro hpushes
  have hlt := h.early other k hpushes
  have hnot : other ∉ front := fun hmem => (List.nodup_append.1 h.nodup).2.2 other hmem other hother rfl
  rw [List.idxOf_append_of_mem hk, List.idxOf_append_of_notMem hnot] at hlt
  have hinside := List.idxOf_lt_length_of_mem hk
  omega

end Timely

/-! ## Nodes and their widgets -/

/-- A node is fixed by the skeleton and the values of its widgets and of those inside it. -/
theorem at?_eq_of_valueAt (hdistinct : Distinct g) (hskeleton : skeleton g' = skeleton g) {id : NodeId}
    (hvalues : ∀ k : Cell, k.1.host = id → valueAt g' k = valueAt g k) :
    Graph.at? g' id = Graph.at? g id := by
  have hfound : (Graph.at? g' id).map (fun n => n.bare.hollow) =
      (Graph.at? g id).map fun n => n.bare.hollow := by
    rw [← at?_skeleton, hskeleton, at?_skeleton]
  cases hn : Graph.at? g id with
  | none => simpa [hn] using hfound
  | some n =>
    rw [hn] at hfound
    rcases Option.map_eq_some_iff.1 hfound with ⟨n', hn', hsame⟩
    rw [hn', Option.some.injEq]
    have hwidgets : n'.widgets = n.widgets := by
      refine Widget.list_eq_of_bare (congrArg (·.widgets) hsame) fun i => ?_
      have hvalue : Graph.valueAt g' (id, i) = Graph.valueAt g (id, i) :=
        hvalues (.outer id, i) rfl
      simpa [Graph.valueAt_eq, hn, hn'] using hvalue
    refine Node.eq_of_hollow hsame hwidgets fun x x' hx hx' => ?_
    refine Graph.eq_of_valueAt (hdistinct.inner n (Graph.mem_of_at? hn) x hx) ?_ (funext fun c => ?_)
    · have hgroups : n'.bare.hollow.group? = n.bare.hollow.group? := congrArg Node.group? hsame
      rw [Node.group?_hollow, Node.group?_hollow] at hgroups
      have hbare : some x'.bare = some x.bare := (congrArg (·.map Group.bare) hx').symm.trans
        (hgroups.trans (congrArg (·.map Group.bare) hx))
      exact congrArg (·.graph) (Option.some.inj hbare)
    · have hvalue := hvalues (.inner id c.1, c.2) rfl
      rwa [valueAt, valueAt, innerGraph_of_at? hn hx, innerGraph_of_at? hn' hx'] at hvalue

private theorem valueAt_of_at?_eq {id : NodeId} (h : Graph.at? g' id = Graph.at? g id) {k : Cell}
    (hk : k.1.host = id) : valueAt g' k = valueAt g k := by
  rcases k with ⟨other | ⟨host, other⟩, i⟩
  · rw [valueAt, valueAt, Graph.valueAt_eq, Graph.valueAt_eq, show other = id from hk, h]
  · rw [valueAt, valueAt, innerGraph, innerGraph, show host = id from hk, h]

/-- A widget belongs to a node of the workflow. -/
theorem exists_host_of_valueAt {k : Cell} (hk : (valueAt g k).isSome = true) :
    ∃ n ∈ g.nodes, n.id = k.1.host := by
  rcases k with ⟨other | ⟨host, other⟩, i⟩
  · rw [valueAt, Graph.valueAt_eq] at hk
    cases hn : g.at? other with
    | none => simp [hn] at hk
    | some n => exact ⟨n, Graph.mem_of_at? hn, Graph.id_of_at? hn⟩
  · rw [valueAt, innerGraph] at hk
    cases hn : g.at? host with
    | none =>
      rw [hn] at hk
      cases hk
    | some n => exact ⟨n, Graph.mem_of_at? hn, Graph.id_of_at? hn⟩

/-- A node that the workflow does not have has no widgets, whatever the values of widgets. -/
theorem valueAt_eq_none_of_absent (hskeleton : skeleton g' = skeleton g) {ids : List NodeId}
    (hall : ∀ n ∈ g.nodes, n.id ∈ ids) {k : Cell} (hk : k.1.host ∉ ids) : valueAt g' k = none := by
  rw [← Option.not_isSome_iff_eq_none, isSome_valueAt_of_skeleton_eq hskeleton k]
  intro hsome
  rcases exists_host_of_valueAt hsome with ⟨n, hn, hhost⟩
  exact hk (hhost ▸ hall n hn)

private theorem PushesTo.exists_primitive {id : NodeId} {k : Cell} (h : PushesTo g (.outer id) k) :
    ∃ n, g.at? id = some n ∧ n.kind.isPrimitive = true := by
  generalize hplace : Place.outer id = place at h
  cases h with
  | outer h =>
    cases hplace
    rcases h with ⟨n, _, hn, hprimitive, -⟩
    exact ⟨n, hn, hprimitive⟩
  | inner h => cases hplace

private theorem PushesTo.linkedTo {id : NodeId} {k : Cell} (h : PushesTo g (.outer id) k) :
    LinkedTo g (.outer id) k := by
  generalize hplace : Place.outer id = place at h
  cases h with
  | outer h =>
    cases hplace
    rcases h with ⟨n, places, hn, hprimitive, hplaces, hk⟩
    rcases Graph.mem_targets hplaces hk with ⟨ls, hls, l, hl, htarget⟩
    exact .outer ⟨n, ls, l, hn, hprimitive, hls, hl, htarget⟩
  | inner h => cases hplace

end Workflow

private theorem Node.pushPlaces_of_isPrimitive {n : Node Group} (h : n.kind.isPrimitive = true) :
    n.pushPlaces = .ok [.outer n.id] := by
  cases hkind : n.kind with
  | primitive pending =>
    have hgroup : n.group? = none := by rw [Node.group?, hkind]
    have hvirtual : (Site.outer n).isVirtual = true := by
      rw [Site.isVirtual, Node.isVirtual, hkind]
      rfl
    rw [Node.pushPlaces, Workflow.innerSites?, hgroup]
    simp only [bind, Except.bind, pure, Except.pure, Option.getD_none,
      List.filter_cons_of_pos hvirtual]
    rfl
  | _ =>
    rw [hkind] at h
    cases h

namespace Editor

open Workflow

variable {g : Workflow} {id : NodeId} {k : Cell} {e e' : Editor}

/-- Preparing a node that is not there does nothing. -/
theorem exec_prepareNode_of_none (h : Graph.at? e.graph id = none) :
    (prepareNode id).exec e = (.ok ⟨⟩, e) := by
  rw [prepareNode, Act.exec_bind, Act.exec_get]
  simp only [h]
  rfl

/-- A primitive without widgets pushes nothing. -/
theorem exec_pushAt_of_valueless (hvalue : valueAt e.graph (.outer id, 0) = none)
    (h : (pushAt (.outer id)).exec e = (.ok ⟨⟩, e')) : e'.graph = e.graph := by
  have hpush : (pushAt (.outer id)).exec e = _ := exec_onGraph (Graph.pushValue id) e
  have hempty : ∀ n, Graph.at? e.graph id = some n → n.widgets = [] := by
    intro n hn
    have hfirst : Graph.valueAt e.graph (id, 0) = none := hvalue
    simpa [Graph.valueAt_eq, hn] using hfirst
  rw [h] at hpush
  rcases Graph.exec_pushValue_eq e.graph id e.outside with
    ⟨n, w, ws, -, hn, -, hwidgets, -⟩ | ⟨n, f, hn, -, hwidgets, -⟩ | ⟨-, hexec⟩
  · rw [hempty n hn] at hwidgets
    cases hwidgets
  · rw [hempty n hn] at hwidgets
    cases hwidgets
  · rw [hexec] at hpush
    exact congrArg (fun r => r.2.graph) hpush

section Distinct

variable (hdistinct : Distinct g)

include hdistinct

/-! ## One turn -/

/-- The turn of a node leaves the widgets of other nodes alone that the node is not linked to. -/
theorem prepareNode_keepsOthers (id : NodeId) :
    Keeps g (fun k => k.1.host ≠ id ∧ ¬ PushesTo g (.outer id) k) (prepareNode id) := by
  refine prepareNode_keeps hdistinct ?_
  rintro n hn k ⟨hhost, hfree⟩
  have hid := Graph.id_of_at? hn
  refine ⟨fun hooked hhooked hmem => ?_, fun pushing hpushing q hq hpushes => ?_⟩
  · exact absurd ((host_of_mem_hookPlaces hhooked hmem).trans hid) hhost
  · have hq := (placeRank_pushPlaces hdistinct (Graph.mem_of_at? hn) hpushing).2 q hq
    cases hpushes with
    | outer h =>
      have hsame : _ = id := hq.trans hid
      exact hfree (hsame ▸ .outer h)
    | inner h => exact hhost (hq.trans hid)

/-- A widget of another node that a primitive is linked to has, after its turn, the value of the
primitive if that has one. -/
theorem valueAt_of_push (hpushes : PushesTo g (.outer id) k) (hother : k.1.host ≠ id)
    (he : skeleton e.graph = skeleton g) (h : (prepareNode id).exec e = (.ok ⟨⟩, e')) :
    valueAt e'.graph k = (valueAt e'.graph (.outer id, 0)).or (valueAt e.graph k) := by
  rcases hpushes.exists_primitive with ⟨n, hn, hprimitive⟩
  rcases exec_prepareNode hn he h with ⟨hooked, pushing, hhooked, hpushing, hturn⟩
  rw [Node.pushPlaces_of_isPrimitive hprimitive, Graph.id_of_at? hn, Except.ok.injEq] at hpushing
  subst hpushing
  rcases Act.exec_bind_eq_ok_iff.1 hturn with ⟨_, e₁, hhooks, hpush⟩
  have hsingle : (pushAt (.outer id)).exec e₁ = (.ok ⟨⟩, e') := by
    rcases Act.exec_bind_eq_ok_iff.1 hpush with ⟨_, e₂, hpush, hend⟩
    cases hend
    exact hpush
  -- the hooks do not reach the widget
  have hkeeps : Keeps g (· = k) (Act.each hooked runBefore) := by
    refine hooks_keep hdistinct ?_
    rintro _ rfl hmem
    exact absurd ((host_of_mem_hookPlaces hhooked hmem).trans (Graph.id_of_at? hn)) hother
  rcases hkeeps e e₁ he hhooks with ⟨he₁, hvalue₁⟩
  rcases pushAt_eq_ok hdistinct he₁ hsingle with ⟨he', -, hpushed⟩
  have hsome := isSome_valueAt_of_skeleton_eq (he'.trans he₁.symm) (.outer id, 0)
  cases hfirst : valueAt e₁.graph (.outer id, 0) with
  | none =>
    rw [hfirst, Option.isSome_none, Option.isSome_eq_false_iff, Option.isNone_iff_eq_none] at hsome
    rw [hsome, Option.none_or, exec_pushAt_of_valueless hfirst hsingle, hvalue₁ k rfl]
  | some v =>
    rw [hfirst, Option.isSome_some] at hsome
    rcases Option.isSome_iff_exists.1 hsome with ⟨v', hv'⟩
    rw [hpushed k hpushes.linkedTo (by rw [hfirst]; rfl), hv', Option.some_or]

/-- The hooks of a node and a push of its own, where they succeed from the same values of its widgets and
the same random sources, leave the same. -/
theorem push_determined {hooked pushing : List Place} (hhooked : ∀ q ∈ hooked, q.host = id)
    (hpushing : ∀ q ∈ pushing, q = .outer id)
    (hself : ∀ k, PushesTo g (.outer id) k → k.1.host ≠ id) {u₁ u₂ v₁ v₂ : Editor}
    (h₁ : skeleton u₁.graph = skeleton g) (h₂ : skeleton u₂.graph = skeleton g)
    (halike : AlikeAt id u₂ u₁)
    (hturn₁ : (Act.each hooked runBefore >>= fun _ => Act.each pushing pushAt).exec u₁ = (.ok ⟨⟩, v₁))
    (hturn₂ : (Act.each hooked runBefore >>= fun _ => Act.each pushing pushAt).exec u₂ = (.ok ⟨⟩, v₂)) :
    (∀ k : Cell, k.1.host = id → valueAt v₂.graph k = valueAt v₁.graph k) ∧
      v₂.outside.sources = v₁.outside.sources := by
  rcases Act.exec_bind_eq_ok_iff.1 hturn₁ with ⟨_, t₁, hhooks₁, hpushes₁⟩
  rcases Act.exec_bind_eq_ok_iff.1 hturn₂ with ⟨_, t₂, hhooks₂, hpushes₂⟩
  have hhooks : (Act.each hooked runBefore).Concurs (AlikeAt id) :=
    .each fun q hq => runBefore_concurs (hhooked q hq)
  have hmid := (hhooks u₂ u₁ halike _ _ _ _ hhooks₂ hhooks₁).2
  -- the push does not reach the widgets of the node
  have hkeeps : Keeps g (fun k => k.1.host = id) (Act.each pushing pushAt) := by
    refine .each fun q hq => pushAt_keeps hdistinct fun k hk hpushes => ?_
    rw [hpushing q hq] at hpushes
    exact hself k hpushes hk
  have hskeleton : ∀ {u t : Editor}, skeleton u.graph = skeleton g →
      (Act.each hooked runBefore).exec u = (.ok ⟨⟩, t) → skeleton t.graph = skeleton g := by
    intro u t hu ht
    have hnone : Keeps g (fun _ => False) (Act.each hooked runBefore) :=
      hooks_keep hdistinct fun _ hk => hk.elim
    exact (hnone u t hu ht).1
  have hdry : (Act.each pushing pushAt).Within (.keeping fun e => e.outside.sources) :=
    .each pushAt_undrawn
  refine ⟨fun k hk => ?_, ?_⟩
  · rw [(hkeeps t₂ v₂ (hskeleton h₂ hhooks₂) hpushes₂).2 k hk,
      (hkeeps t₁ v₁ (hskeleton h₁ hhooks₁) hpushes₁).2 k hk, valueAt_of_at?_eq hmid.node hk]
  · exact (hdry.of_exec hpushes₂).trans (hmid.sources.trans (hdry.of_exec hpushes₁).symm)

/-- Two turns of a node that succeed, from the same values of its widgets and the same random sources,
leave the same. -/
theorem prepareNode_determined {u₁ u₂ v₁ v₂ : Editor} (h₁ : skeleton u₁.graph = skeleton g)
    (h₂ : skeleton u₂.graph = skeleton g) (hself : ∀ k, PushesTo g (.outer id) k → k.1.host ≠ id)
    (hvalues : ∀ k : Cell, k.1.host = id → valueAt u₂.graph k = valueAt u₁.graph k)
    (hsources : u₂.outside.sources = u₁.outside.sources)
    (hr₁ : (prepareNode id).exec u₁ = (.ok ⟨⟩, v₁))
    (hr₂ : (prepareNode id).exec u₂ = (.ok ⟨⟩, v₂)) :
    (∀ k : Cell, k.1.host = id → valueAt v₂.graph k = valueAt v₁.graph k) ∧
      v₂.outside.sources = v₁.outside.sources := by
  have hshape := h₂.trans h₁.symm
  have halike : AlikeAt id u₂ u₁ :=
    ⟨at?_eq_of_valueAt (distinct_of_skeleton_eq h₁ hdistinct) hshape hvalues, hsources⟩
  cases hn : Graph.at? u₁.graph id with
  | none =>
    rw [exec_prepareNode_of_none hn] at hr₁
    rw [exec_prepareNode_of_none (halike.node.trans hn)] at hr₂
    cases hr₁
    cases hr₂
    exact ⟨hvalues, hsources⟩
  | some n =>
    have hid := Graph.id_of_at? hn
    rcases exec_prepareNode hn rfl hr₁ with ⟨hooked, pushing, hhooked, hpushing, hturn₁⟩
    rcases exec_prepareNode hn hshape hr₂ with ⟨hooked', pushing', hhooked', hpushing', hturn₂⟩
    cases hhooked.symm.trans hhooked'
    cases hpushing.symm.trans hpushing'
    have hhost : ∀ q ∈ hooked, q.host = id := fun q hq =>
      (host_of_mem_hookPlaces hhooked hq).trans hid
    rcases pushPlaces_cases hpushing with ⟨-, hsub⟩ | ⟨x, order, -, -, hsub⟩
    · refine push_determined hdistinct hhost (fun q hq => ?_) hself h₁ h₂ halike hturn₁ hturn₂
      rw [List.mem_singleton.1 (hsub.subset hq), hid]
    · -- the primitives inside push inside
      have hhooks : (Act.each hooked runBefore).Concurs (AlikeAt id) :=
        .each fun q hq => runBefore_concurs (hhost q hq)
      have hpushes : (Act.each pushing pushAt).Concurs (AlikeAt id) := by
        refine .each fun q hq => ?_
        rcases List.mem_map.1 (hsub.subset hq) with ⟨m, -, rfl⟩
        rw [hid]
        exact pushInner_concurs m.id
      have hend := ((hhooks.bind fun _ => hpushes) u₂ u₁ halike _ _ _ _ hturn₂ hturn₁).2
      exact ⟨fun k hk => valueAt_of_at?_eq hend.node hk, hend.sources⟩

/-! ## Rows of turns -/

private theorem skeleton_prepare {ids : List NodeId} (he : skeleton e.graph = skeleton g)
    (h : (prepare ids).exec e = (.ok ⟨⟩, e')) : skeleton e'.graph = skeleton g :=
  ((prepare_sameSkeleton ids).of_exec h (distinct_of_skeleton_eq he hdistinct)).trans he

variable {order order' front back ids : List NodeId}

/-- Later turns leave the nodes alone that have had theirs. -/
theorem prepare_keepsBehind (h : Timely g (front ++ back)) (hids : ids ⊆ back) :
    Keeps g (fun k => k.1.host ∈ front) (prepare ids) := by
  refine .each fun id hid => ?_
  intro e e' he hexec
  rcases prepareNode_keepsOthers hdistinct id e e' he hexec with ⟨he', hvalues⟩
  refine ⟨he', fun k hk => hvalues k ⟨fun hsame => ?_, h.not_pushesTo hk (hids hid)⟩⟩
  exact (List.nodup_append.1 h.nodup).2.2 k.1.host hk id (hids hid) hsame

/-- Turns of other nodes leave a widget alone that none of these nodes is linked to. -/
theorem prepare_keepsUnlinked (hk : k.1.host ∉ ids)
    (hfree : ∀ other ∈ ids, ¬ PushesTo g (.outer other) k) : Keeps g (· = k) (prepare ids) := by
  refine .each fun id hid => ?_
  intro e e' he hexec
  rcases prepareNode_keepsOthers hdistinct id e e' he hexec with ⟨he', hvalues⟩
  refine ⟨he', ?_⟩
  rintro _ rfl
  exact hvalues _ ⟨fun hsame => hk (hsame ▸ hid), hfree id hid⟩

variable (hsingle : ∀ p q k, PushesTo g p k → PushesTo g q k → p = q)

include hsingle

/-- When the turn of its node comes, a widget that a primitive is linked to holds the value that the
primitive ends up with. -/
theorem valueAt_of_pushed (h : Timely g (front ++ back)) {other : NodeId}
    (hpushes : PushesTo g (.outer other) k) (hother : other ∈ front) (hk : k.1.host ∉ front)
    (he : skeleton e.graph = skeleton g) (hrun : (prepare front).exec e = (.ok ⟨⟩, e')) :
    valueAt e'.graph k = (valueAt e'.graph (.outer other, 0)).or (valueAt e.graph k) := by
  obtain ⟨before, after, rfl⟩ := List.append_of_mem hother
  have hnodup := (List.nodup_append.1 h.nodup).1
  have hothers : ∀ p ∈ before ++ after, ¬ PushesTo g (.outer p) k := by
    intro p hp hp'
    cases Place.outer.inj (hsingle _ _ k hp' hpushes)
    exact (List.nodup_cons.1 (List.nodup_middle.1 hnodup)).1 hp
  have hbeside : ∀ p ∈ before ++ after, p ∈ before ++ other :: after := by
    intro p hp
    rw [List.mem_append, List.mem_cons]
    exact (List.mem_append.1 hp).imp_right .inr
  rcases Act.exec_each_append_eq_ok_iff.1 hrun with ⟨x, hbefore, hrest⟩
  rcases Act.exec_bind_eq_ok_iff.1 hrest with ⟨_, y, hturn, hafter⟩
  rcases prepare_keepsUnlinked hdistinct
    (fun hmem => hk (hbeside _ (List.mem_append_left _ hmem)))
    (fun p hp => hothers p (List.mem_append_left _ hp)) e x he hbefore with ⟨hx, hvaluex⟩
  have hpushed := valueAt_of_push hdistinct hpushes (h.host_ne hpushes) hx hturn
  have hy : skeleton y.graph = skeleton g :=
    (prepareNode_keepsOthers hdistinct other x y hx hturn).1
  -- the turns after that of the primitive reach neither the widget nor the primitive
  have hwidget := (prepare_keepsUnlinked hdistinct
    (fun hmem => hk (hbeside _ (List.mem_append_right _ hmem)))
    (fun p hp => hothers p (List.mem_append_right _ hp)) y e' hy hafter).2 k rfl
  have htimely : Timely g ((before ++ [other]) ++ (after ++ back)) := by simpa using h
  have hsource := (prepare_keepsBehind hdistinct htimely (List.subset_append_left after back) y e' hy
    hafter).2 (.outer other, 0) (List.mem_append_right _ List.mem_cons_self)
  rw [hwidget, hpushed, hsource, hvaluex k rfl]

/-- Before the turn of its node, a widget holds the same in two rows of turns in which the primitives
end up with the same. -/
theorem valueAt_before_turn {back' front' : List NodeId} {id : NodeId} {u u' : Editor}
    (h : Timely g (front ++ id :: back)) (h' : Timely g (front' ++ id :: back'))
    (he : skeleton e.graph = skeleton g) (hu : (prepare front).exec e = (.ok ⟨⟩, u))
    (hu' : (prepare front').exec e = (.ok ⟨⟩, u'))
    (hsources : ∀ other ∈ front, other ∈ front' →
      valueAt u'.graph (.outer other, 0) = valueAt u.graph (.outer other, 0))
    (hk : k.1.host = id) : valueAt u'.graph k = valueAt u.graph k := by
  have hnot : k.1.host ∉ front := fun hmem =>
    (List.nodup_append.1 h.nodup).2.2 _ hmem id List.mem_cons_self hk
  have hnot' : k.1.host ∉ front' := fun hmem =>
    (List.nodup_append.1 h'.nodup).2.2 _ hmem id List.mem_cons_self hk
  by_cases hlinked : ∃ other, PushesTo g (.outer other) k
  · rcases hlinked with ⟨other, hpushes⟩
    have hother := h.mem_front hpushes hk
    have hother' := h'.mem_front hpushes hk
    rw [valueAt_of_pushed hdistinct hsingle h hpushes hother hnot he hu,
      valueAt_of_pushed hdistinct hsingle h' hpushes hother' hnot' he hu',
      hsources other hother hother']
  · have hfree := not_exists.1 hlinked
    rw [(prepare_keepsUnlinked hdistinct hnot (fun p _ => hfree p) e u he hu).2 k rfl,
      (prepare_keepsUnlinked hdistinct hnot' (fun p _ => hfree p) e u' he hu').2 k rfl]

/-- The turn of a node leaves on its widgets what another row of turns ends up with, if the turns before
it have done so. -/
theorem valueAt_after_turn (h : Timely g order) (h' : Timely g (front ++ id :: back)) {u v : Editor}
    (he : skeleton e.graph = skeleton g) (hrun : (prepare order).exec e = (.ok ⟨⟩, e'))
    (hdry : e'.outside.sources = e.outside.sources) (hu : (prepare front).exec e = (.ok ⟨⟩, u))
    (hsources : u.outside.sources = e.outside.sources)
    (hvalues : ∀ k : Cell, k.1.host ∈ front → valueAt u.graph k = valueAt e'.graph k)
    (hturn : (prepareNode id).exec u = (.ok ⟨⟩, v)) :
    v.outside.sources = e.outside.sources ∧
      ∀ k : Cell, k.1.host = id → valueAt v.graph k = valueAt e'.graph k := by
  by_cases hid : id ∈ order
  · obtain ⟨before, after, rfl⟩ := List.append_of_mem hid
    rcases Act.exec_each_append_eq_ok_iff.1 hrun with ⟨x, hbefore, hrest⟩
    rcases Act.exec_bind_eq_ok_iff.1 hrest with ⟨_, y, hturn', hafter⟩
    -- nothing is drawn in any part of the first row
    have hy : y.outside.sources = e.outside.sources := Outside.sources_between
      (Outside.drains.trans ((prepare_drains before).of_exec hbefore)
        ((prepareNode_drains id).of_exec hturn'))
      ((prepare_drains after).of_exec hafter) hdry
    have hx : x.outside.sources = e.outside.sources := Outside.sources_between
      ((prepare_drains before).of_exec hbefore) ((prepareNode_drains id).of_exec hturn') hy
    have hbehind : ∀ k : Cell, k.1.host ∈ before → valueAt e'.graph k = valueAt x.graph k :=
      (prepare_keepsBehind hdistinct h (List.Subset.refl (id :: after)) x e'
        (skeleton_prepare hdistinct he hbefore) hrest).2
    have hsame : ∀ k : Cell, k.1.host = id → valueAt u.graph k = valueAt x.graph k := by
      refine fun k hk => valueAt_before_turn hdistinct hsingle h h' he hbefore hu ?_ hk
      intro other hbefore' hfront
      rw [hvalues (.outer other, 0) hfront, hbehind (.outer other, 0) hbefore']
    have hagree := prepareNode_determined hdistinct (skeleton_prepare hdistinct he hbefore)
      (skeleton_prepare hdistinct he hu) (fun k => h.host_ne) hsame (hsources.trans hx.symm) hturn'
        hturn
    have hown : ∀ k : Cell, k.1.host = id → valueAt e'.graph k = valueAt y.graph k := by
      have htimely : Timely g ((before ++ [id]) ++ after) := by simpa using h
      have hskeleton : skeleton y.graph = skeleton g := (prepareNode_keepsOthers hdistinct id x y
        (skeleton_prepare hdistinct he hbefore) hturn').1
      rintro k rfl
      exact (prepare_keepsBehind hdistinct htimely (List.Subset.refl after) y e' hskeleton hafter).2 k
        (List.mem_append_right _ List.mem_cons_self)
    exact ⟨hagree.2.trans hy, fun k hk => (hagree.1 k hk).trans (hown k hk).symm⟩
  · -- there is no such node
    have hnone : Graph.at? u.graph id = none := by
      have hu' := skeleton_prepare hdistinct he hu
      refine Option.eq_none_iff_forall_ne_some.2 fun n hn => ?_
      have hn' := at?_skeleton u.graph id
      rw [hu', at?_skeleton, hn] at hn'
      rcases Option.map_eq_some_iff.1 hn' with ⟨m, hm, -⟩
      exact hid (Graph.id_of_at? hm ▸ h.complete m (Graph.mem_of_at? hm))
    rw [exec_prepareNode_of_none hnone] at hturn
    cases hturn
    refine ⟨hsources, fun k hk => ?_⟩
    rw [valueAt_eq_none_of_absent (skeleton_prepare hdistinct he hu) h.complete (hk ▸ hid),
      valueAt_eq_none_of_absent (skeleton_prepare hdistinct he hrun) h.complete (hk ▸ hid)]

/-- In any row of turns, a node that has had its turn has what it ends up with in another row that draws
nothing. -/
theorem valueAt_behind (h : Timely g order) (he : skeleton e.graph = skeleton g)
    (hrun : (prepare order).exec e = (.ok ⟨⟩, e')) (hdry : e'.outside.sources = e.outside.sources)
    (front : List NodeId) {back : List NodeId} {u : Editor} (h' : Timely g (front ++ back))
    (hu : (prepare front).exec e = (.ok ⟨⟩, u)) :
    u.outside.sources = e.outside.sources ∧
      ∀ k : Cell, k.1.host ∈ front → valueAt u.graph k = valueAt e'.graph k := by
  induction front using List.reverseRecOn generalizing back u with
  | nil =>
    cases hu
    exact ⟨rfl, fun k hk => absurd hk List.not_mem_nil⟩
  | append_singleton front id ih =>
    rw [List.append_assoc, List.singleton_append] at h'
    rcases Act.exec_each_append_eq_ok_iff.1 hu with ⟨x, hx, hrest⟩
    rcases Act.exec_bind_eq_ok_iff.1 hrest with ⟨_, _, hturn, hend⟩
    cases hend
    rcases ih h' hx with ⟨hsources, hvalues⟩
    have hkeeps := (prepareNode_keepsOthers hdistinct id x u (skeleton_prepare hdistinct he hx) hturn).2
    rcases valueAt_after_turn hdistinct hsingle h h' he hrun hdry hx hsources hvalues hturn with
      ⟨hdrawn, hown⟩
    refine ⟨hdrawn, fun k hk => ?_⟩
    rcases List.mem_append.1 hk with hk | hk
    · rw [hkeeps k ⟨fun hsame => ?_, h'.not_pushesTo hk List.mem_cons_self⟩, hvalues k hk]
      exact (List.nodup_append.1 h'.nodup).2.2 _ hk id List.mem_cons_self hsame
    · exact hown k (List.mem_singleton.1 hk)

/-- Two preparations that succeed leave the same workflow, whatever the order of turns, if primitives
have theirs before what they are linked to and the first preparation draws nothing. -/
theorem prepare_anyOrder (h : Timely g order) (h' : Timely g order') {e₁ e₂ : Editor}
    (he : skeleton e.graph = skeleton g) (h₁ : (prepare order).exec e = (.ok ⟨⟩, e₁))
    (hdry : e₁.outside.sources = e.outside.sources)
    (h₂ : (prepare order').exec e = (.ok ⟨⟩, e₂)) : e₂.graph = e₁.graph := by
  have he₁ := skeleton_prepare hdistinct he h₁
  have he₂ := skeleton_prepare hdistinct he h₂
  refine eq_of_valueAt (distinct_of_skeleton_eq he₁ hdistinct) (he₂.trans he₁.symm)
    (funext fun k => ?_)
  by_cases hk : k.1.host ∈ order'
  · have hall : Timely g (order' ++ []) := (List.append_nil order').symm ▸ h'
    exact (valueAt_behind hdistinct hsingle h he h₁ hdry order' hall h₂).2 k hk
  · rw [valueAt_eq_none_of_absent he₁ h'.complete hk, valueAt_eq_none_of_absent he₂ h'.complete hk]

end Distinct

end Editor

end NodeFlow
