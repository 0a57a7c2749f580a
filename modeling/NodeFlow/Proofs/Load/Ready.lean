import NodeFlow.Proofs.Load.NewNodes
import NodeFlow.Proofs.Load.Stored

/-!
# What a load leaves behind for compilations

The widgets of a loaded graph carry no hooks that run before or with a submission, and the links of
its primitives have been followed when the primitives got their widgets, so that they can be
followed again.

Main results:

- Definition `Graph.Aimed`: the links of primitives can be followed.
- Type `Workflow.IsReady`: a graph without such hooks whose primitives are aimed.
- Theorem `Registry.load_isReady`: loaded graphs are ready.
-/

namespace NodeFlow

/-! ## Widgets without hooks -/

namespace Widget

/-- What widgets are but for their values says whether they have hooks. -/
theorem isSilent_of_bare {ws ws' : List Widget} (hbare : ws'.map bare = ws.map bare)
    (h : ∀ w ∈ ws, w.IsSilent) : ∀ w ∈ ws', w.IsSilent := by
  intro w hw
  have hmem : w.bare ∈ ws.map bare := hbare ▸ List.mem_map_of_mem hw
  rcases List.mem_map.1 hmem with ⟨u, hu, hsame⟩
  rw [← isSilent_bare, ← hsame, isSilent_bare]
  exact h u hu

end Widget

section Nodes

variable {γ : Type} {b n n' : Node γ}

/-- A node before its primitive, if it is one, has got its widgets. -/
structure Node.IsUnaimed (n : Node γ) : Prop where
  silent : ∀ w ∈ n.widgets, w.IsSilent
  bare : n.kind.isPrimitive = true → n.widgets = []

private theorem Node.isUnaimed_of_nil (h : n.widgets = []) : n.IsUnaimed :=
  ⟨fun _ hw => absurd (h ▸ hw) List.not_mem_nil, fun _ => h⟩

private theorem Registry.isUnaimed_buildSimple {r : Registry} {type : String}
    (h : r.buildSimple type = .ok b) : b.IsUnaimed := by
  unfold buildSimple at h
  split at h
  · split at h
    · cases h
    · unfold create at h
      split at h
      · rename_i v _
        cases h
        unfold VirtualKind.node
        cases v.kind with
        | note =>
          refine ⟨fun w hw => ?_, fun hprimitive => by cases hprimitive⟩
          rw [List.mem_singleton.1 hw]
          exact ⟨rfl, rfl, rfl⟩
        | _ => exact Node.isUnaimed_of_nil rfl
      · split at h
        · rcases Fault.bind_eq_ok_iff.1 h with ⟨front, hfront, h⟩
          cases h
          exact ⟨Definition.isSilent_frontOf hfront, fun hprimitive => by cases hprimitive⟩
        · cases h
  · cases h
    exact Node.isUnaimed_of_nil rfl

private theorem Node.isPrimitive_configure (saved : NodeRecord) (n : Node γ) :
    (n.configure saved).kind.isPrimitive = n.kind.isPrimitive := by
  unfold configure
  cases n.kind <;> rfl

private theorem Node.IsUnaimed.configure (h : b.IsUnaimed) (saved : NodeRecord) :
    (b.configure saved).IsUnaimed where
  silent := Widget.isSilent_of_bare (Widget.bare_fill b.widgets _) h.silent
  bare hprimitive := by
    rw [Node.isPrimitive_configure] at hprimitive
    have hfilled : (b.configure saved).widgets = Widget.fill b.widgets (saved.values.getD []) := rfl
    rw [hfilled, h.bare hprimitive]
    cases saved.values.getD [] <;> rfl

end Nodes

/-! ## Primitives and their links -/

namespace Graph

variable {γ : Type} {g h : Graph γ}

/-- The links of primitives can be followed to the widgets they lead to. -/
def Aimed (g : Graph γ) : Prop :=
  ∀ n ∈ g.nodes, n.kind.isPrimitive = true → ∃ places, g.targets n = .ok places

/-- What following a link depends on. -/
def shape (g : Graph γ) : List (NodeId × Nat) := g.nodes.map fun n => (n.id, n.inputs.length)

/-- A link that can be followed in a graph can be followed in one of the same shape. -/
theorem exists_targetOf_congr (hshape : h.shape = g.shape) {l : Link}
    {place : Option (NodeId × Nat)} (hplace : g.targetOf l = .ok place) :
    ∃ place', h.targetOf l = .ok place' := by
  have hat : ∀ id, (h.at? id).map (fun n => (n.id, n.inputs.length)) =
      (g.at? id).map fun n => (n.id, n.inputs.length) := by
    have hfind : ∀ (x : Graph γ) (id : NodeId), (x.at? id).map (fun n => (n.id, n.inputs.length)) =
        x.shape.find? (·.1 == id) := by
      intro x id
      rw [shape, List.find?_map]
      rfl
    intro id
    rw [hfind, hfind, hshape]
  have hlookup := lookup?_map_congr hat l.target
  rw [targetOf_eq] at hplace ⊢
  rcases Fault.bind_eq_ok_iff.1 hplace with ⟨found, hfound, hplace⟩
  rw [hfound] at hlookup
  rcases Fault.map_eq_ok_iff.1 hlookup with ⟨found', hfound', hsame⟩
  rw [hfound']
  cases found with
  | none =>
    rw [Option.map_eq_none_iff.1 hsame]
    exact ⟨none, rfl⟩
  | some n =>
    rcases Option.map_eq_some_iff.1 hsame with ⟨m, rfl, hsize⟩
    have hlength : m.inputs.length = n.inputs.length := congrArg (·.2) hsize
    simp only [reachedFrom] at hplace
    show ∃ place', reachedFrom l m = .ok place'
    rw [reachedFrom, hlength]
    split
    · exact ⟨none, rfl⟩
    · rename_i hlt
      rw [if_neg hlt] at hplace
      cases hp : position? n.inputs.length l.targetSlot.val with
      | none =>
        rw [hp] at hplace
        cases hplace
      | some p =>
        have hin : p < m.inputs.length := hlength ▸ position?_lt hp
        rw [Option.bind_some, List.getElem?_eq_getElem hin]
        exact ⟨_, rfl⟩

/-- Targets that could be looked up still can where links and the shape of the graph are the same.
-/
theorem exists_targets_congr (hlinks : h.links = g.links) (hshape : h.shape = g.shape)
    {n m : Node γ} (houtputs : m.outputs.map (·.links) = n.outputs.map (·.links))
    (hcut : m.isCutOff = n.isCutOff) {places : List (NodeId × Nat)}
    (hplaces : g.targets n = .ok places) : ∃ places', h.targets m = .ok places' := by
  have hall : ∀ (ls : List Link) (places : List (NodeId × Nat)), g.targetsOf ls = .ok places →
      ∃ places', h.targetsOf ls = .ok places' := by
    intro ls
    induction ls with
    | nil => exact fun _ _ => ⟨[], rfl⟩
    | cons l ls ih =>
      intro places hplaces
      rcases Fault.bind_eq_ok_iff.1 hplaces with ⟨place, hplace, hplaces⟩
      rcases Fault.bind_eq_ok_iff.1 hplaces with ⟨rest, hrest, -⟩
      rcases exists_targetOf_congr hshape hplace with ⟨place', hplace'⟩
      rcases ih rest hrest with ⟨rest', hrest'⟩
      exact ⟨_, Fault.bind_eq_ok_iff.2 ⟨place', hplace',
        Fault.bind_eq_ok_iff.2 ⟨rest', hrest', rfl⟩⟩⟩
  rcases Fault.bind_eq_ok_iff.1 hplaces with ⟨ls, hls, hplaces⟩
  rcases hall ls places hplaces with ⟨places', hplaces'⟩
  refine ⟨places', Fault.bind_eq_ok_iff.2 ⟨ls, ?_, hplaces'⟩⟩
  rw [outLinks?_congr hlinks houtputs hcut, hls]

section Nominal

variable {f : Node γ → Node γ} (hf : IsNominal f)

include hf

private theorem Aimed.mapNodes (hg : g.Aimed) : (g.mapNodes f).Aimed := by
  intro m hm hprimitive
  rcases List.mem_map.1 hm with ⟨n, hn, rfl⟩
  rw [hf.isPrimitive] at hprimitive
  rcases hg n hn hprimitive with ⟨places, hplaces⟩
  exact ⟨places, (targets_mapNodes hf.isNamed g n).trans hplaces⟩

private theorem AllWidgets.mapNodes_isSilent (hg : g.AllWidgets Widget.IsSilent) :
    (g.mapNodes f).AllWidgets Widget.IsSilent := by
  intro m hm
  rcases List.mem_map.1 hm with ⟨n, hn, rfl⟩
  exact Widget.isSilent_of_bare (hf.widgets n) (hg n hn)

end Nominal

/-- Replacing names leaves alone what primitives look at. -/
theorem isNominal_patch (reset : Bool) : IsNominal (Node.patch (γ := γ) reset) where
  id _ := rfl
  order _ := rfl
  inputs _ := rfl
  outputs _ := rfl
  isCutOff _ := rfl
  isPrimitive _ := rfl
  widgets n := Widget.map_bare_patch n.type reset n.widgets

/-- Replacing names inside groups, too, leaves alone what primitives look at. -/
theorem isNominal_patchDeep (reset : Bool) : IsNominal (Node.patchDeep reset) := by
  have hall : ∀ n : Node Group, (n.patchDeep reset).id = n.id ∧ (n.patchDeep reset).order = n.order ∧
      (n.patchDeep reset).inputs = n.inputs ∧ (n.patchDeep reset).outputs = n.outputs ∧
      (n.patchDeep reset).isCutOff = n.isCutOff ∧
      (n.patchDeep reset).kind.isPrimitive = n.kind.isPrimitive ∧
      (n.patchDeep reset).widgets = (n.patch reset).widgets := by
    intro n
    have hpatch : (n.patch reset).group? = n.group? := rfl
    cases hgroup : n.group? with
    | none =>
      rw [Node.patchDeep, Node.onGroup_of_none _ (hpatch.trans hgroup)]
      exact ⟨rfl, rfl, rfl, rfl, rfl, rfl, rfl⟩
    | some x =>
      rw [Node.patchDeep, Node.onGroup_of_group? _ (hpatch.trans hgroup),
        Node.kind_eq_of_group? hgroup]
      exact ⟨rfl, rfl, rfl, rfl, rfl, rfl, rfl⟩
  exact
    { id := fun n => (hall n).1
      order := fun n => (hall n).2.1
      inputs := fun n => (hall n).2.2.1
      outputs := fun n => (hall n).2.2.2.1
      isCutOff := fun n => (hall n).2.2.2.2.1
      isPrimitive := fun n => (hall n).2.2.2.2.2.1
      widgets := fun n => by
        rw [(hall n).2.2.2.2.2.2]
        exact Widget.map_bare_patch n.type reset n.widgets }

/-- What finishing makes of a node: its links have been followed, and the shape of the graph stays. -/
structure Aims (h : Graph γ) (n n' : Node γ) : Prop where
  id : n'.id = n.id
  inputs : n'.inputs.length = n.inputs.length
  silent : ∀ w ∈ n'.widgets, w.IsSilent
  targets : n'.kind.isPrimitive = true → ∃ places, h.targets n' = .ok places

private theorem isSilent_primitiveWidgets (node : Node γ) (target : Widget) (pending : List Json) :
    ∀ w ∈ primitiveWidgets node target pending, w.IsSilent := by
  rw [primitiveWidgets_eq]
  dsimp only
  intro w hw
  split at hw
  · rcases List.mem_cons.1 hw with rfl | hw
    · exact ⟨rfl, rfl, rfl⟩
    · rw [List.mem_singleton.1 hw]
      exact ⟨rfl, rfl, rfl⟩
  · rw [List.mem_singleton.1 hw]
    exact ⟨rfl, rfl, rfl⟩

/-- Finishing a node that has no widgets yet follows its links. -/
theorem aims_finished {n n' : Node γ} (hn : n.IsUnaimed) (hfinished : h.finished n = .ok n') :
    h.Aims n n' := by
  cases hprimitive : n.kind.isPrimitive with
  | false =>
    rw [finished_of_not_primitive hprimitive] at hfinished
    cases hfinished
    exact ⟨rfl, rfl, hn.silent, fun h => absurd (hprimitive.symm.trans h) Bool.false_ne_true⟩
  | true =>
    rcases Kind.isPrimitive_iff.1 hprimitive with ⟨pending, hkind⟩
    rw [finished_eq hkind (hn.bare hprimitive)] at hfinished
    rcases Fault.map_eq_ok_iff.1 hfinished with ⟨found, hmodel, rfl⟩
    rcases Fault.map_eq_ok_iff.1 hmodel with ⟨places, hplaces, -⟩
    have htargets : h.targets (filled n (pending.getD []) found) = h.targets n :=
      (Alike.targets_eq ⟨rfl, rfl⟩ (links_filled n _ found) (isCutOff_filled n _ found))
    refine ⟨?_, ?_, ?_, fun _ => ⟨places, htargets.trans hplaces⟩⟩
    · cases found <;> rfl
    · cases found <;> rfl
    · rcases found with _ | ⟨node, target⟩
      · exact hn.silent
      · exact isSilent_primitiveWidgets node target _

/-- A sweep that aims every node aims the primitives of the graph. -/
theorem aimed_of_swept {f : Graph γ → Node γ → Except Fault (Node γ)} {P Q : Node γ → Prop}
    (hf : ∀ h n n', P n → f h n = .ok n' → h.Aims n n' ∧ Q n') {front ns ns' : List (Node γ)}
    (hswept : Swept f g front ns ns') (hns : ∀ n ∈ ns, P n) :
    ns'.map (fun n => (n.id, n.inputs.length)) = ns.map (fun n => (n.id, n.inputs.length)) ∧
      ∀ n' ∈ ns', (∀ w ∈ n'.widgets, w.IsSilent) ∧ Q n' ∧ (n'.kind.isPrimitive = true →
        ∃ places, targets { g with nodes := front ++ ns' } n' = .ok places) := by
  induction hswept with
  | nil => exact ⟨rfl, fun _ hn => absurd hn List.not_mem_nil⟩
  | @cons front ns ns' n n' hnode _ ih =>
    obtain ⟨haims, hQ⟩ := hf _ n n' (hns n List.mem_cons_self) hnode
    obtain ⟨hsizes, hall⟩ := ih fun m hm => hns m (List.mem_cons_of_mem n hm)
    have hsize : (n'.id, n'.inputs.length) = (n.id, n.inputs.length) := by
      rw [haims.id, haims.inputs]
    refine ⟨by rw [List.map_cons, List.map_cons, hsize, hsizes], fun m hm => ?_⟩
    rcases List.mem_cons.1 hm with rfl | hm
    · refine ⟨haims.silent, hQ, fun hprimitive => ?_⟩
      rcases haims.targets hprimitive with ⟨places, hplaces⟩
      refine exists_targets_congr ?_ ?_ rfl rfl hplaces
      · rfl
      · simp only [shape, List.map_append, List.map_cons, hsize, hsizes]
    · rw [List.append_cons]
      exact hall m hm

/-- A finished graph, given that its nodes were unaimed. -/
theorem aimed_sweep {f : Graph γ → Node γ → Except Fault (Node γ)} {P Q : Node γ → Prop}
    (hf : ∀ h n n', P n → f h n = .ok n' → h.Aims n n' ∧ Q n')
    (hids : (g.nodes.map (·.id)).Nodup) (hg : ∀ n ∈ g.nodes, P n) {g' : Graph γ}
    (hid : ∀ g n n', f g n = .ok n' → n'.id = n.id)
    (hsweep : sweep f g (g.nodes.map (·.id)) = .ok g') :
    g'.Aimed ∧ g'.AllWidgets Widget.IsSilent ∧ ∀ n ∈ g'.nodes, Q n := by
  have hnodes : g.nodes = [] ++ g.nodes := rfl
  rcases (sweep_eq_ok_iff hid hnodes hids).1 hsweep with ⟨ns', hswept, rfl⟩
  have hall := (aimed_of_swept hf hswept hg).2
  exact ⟨fun n hn => (hall n hn).2.2, fun n hn => (hall n hn).1, fun n hn => (hall n hn).2.1⟩

end Graph

namespace Workflow

/-- No hook runs before or with a submission, and the links of primitives can be followed. -/
structure IsReady (g : Workflow) : Prop where
  distinct : Distinct g
  silent : AllWidgets Widget.IsSilent g
  aimed : Graph.Aimed g
  aimedInside : ∀ n ∈ g.nodes, ∀ x, n.group? = some x → x.graph.Aimed

/-- A node that is unaimed, also inside. -/
structure IsUnaimedDeep (n : Node Group) : Prop where
  outside : n.IsUnaimed
  inside : ∀ x, n.group? = some x → ∀ m ∈ x.graph.nodes, m.IsUnaimed
  distinct : ∀ x, n.group? = some x → (x.graph.nodes.map (·.id)).Nodup

private theorem aims_finishedDeep {h : Workflow} {n n' : Node Group} (hn : IsUnaimedDeep n)
    (hfinished : finishedDeep h n = .ok n') : Graph.Aims h n n' ∧ ∀ x, n'.group? = some x →
      x.graph.Aimed ∧ x.graph.AllWidgets Widget.IsSilent := by
  rcases finishedDeep_cases hfinished with ⟨-, hnone, hfinished⟩ | ⟨x, inner, hgroup, hinner, rfl⟩
  · refine ⟨Graph.aims_finished hn.outside hfinished, fun x hx => ?_⟩
    rw [hnone] at hx
    cases hx
  · rw [Graph.finishAll_eq_sweep] at hinner
    have hsame : n.onGroup (fun _ => inner) =
        { n with kind := .group { x with graph := inner } } := Node.onGroup_of_group? _ hgroup
    have hall := Graph.aimed_sweep (P := Node.IsUnaimed) (Q := fun _ => True)
      (fun _ _ _ hm hm' => ⟨Graph.aims_finished hm hm', trivial⟩) (hn.distinct x hgroup)
      (hn.inside x hgroup) (fun _ _ _ => Graph.id_finished) hinner
    rw [hsame]
    refine ⟨⟨rfl, rfl, hn.outside.silent, fun hprimitive => by cases hprimitive⟩, ?_⟩
    rintro _ ⟨⟩
    exact ⟨hall.1, hall.2.1⟩

end Workflow

namespace Registry

variable {r : Registry}

/-- What is built from an entry has not got the widgets of its primitives yet. -/
theorem isUnaimed_build {saved : SavedNode Document} {b : Node Group} (h : r.build saved = .ok b) :
    Workflow.IsUnaimedDeep (b.configure saved.toNodeRecord) := by
  have hgroup? := group?_configure saved.toNodeRecord b
  unfold build at h
  split at h
  · rw [group?_buildSimple h] at hgroup?
    refine ⟨(isUnaimed_buildSimple h).configure _, ?_, ?_⟩ <;>
    · rw [hgroup?]
      intro x hx
      cases hx
  · split at h
    · cases h
    · rcases Fault.bind_eq_ok_iff.1 h with ⟨inner, hinner, h⟩
      cases h
      rcases Graph.configure_distinct hinner with ⟨hkeys, hbuilt⟩
      refine ⟨(Node.isUnaimed_of_nil rfl).configure _, ?_, ?_⟩
      · rintro _ ⟨⟩ m hm
        rcases hbuilt m hm with ⟨entry, -, c, hc, rfl⟩
        exact (isUnaimed_buildSimple hc).configure _
      · rintro _ ⟨⟩
        exact hkeys.ids_nodup

private theorem assemble_isReady {d : Document} {g : Workflow} (h : r.assemble d = .ok g) :
    g.IsReady := by
  have hdistinct := (assemble_distinctKeys h).distinct
  rcases Fault.bind_eq_ok_iff.1 h with ⟨g₀, hconfigured, hfinish⟩
  rcases Graph.configure_distinct hconfigured with ⟨hkeys, hbuilt⟩
  rw [Workflow.finish_eq_sweep] at hfinish
  have hall := Graph.aimed_sweep (fun _ _ _ => Workflow.aims_finishedDeep) hkeys.ids_nodup
    (fun n hn => by
      rcases hbuilt n hn with ⟨saved, -, b, hb, rfl⟩
      exact isUnaimed_build hb)
    (fun _ _ _ => Workflow.id_finishedDeep) hfinish
  exact ⟨hdistinct, ⟨hall.2.1, fun n hn x hx => (hall.2.2 n hn x hx).2⟩, hall.1,
    fun n hn x hx => (hall.2.2 n hn x hx).1⟩

/-- A loaded graph is ready to be compiled. -/
theorem load_isReady {source : LoadSource} {g : Workflow} {missing : List MissingType}
    (h : r.load source = .ok (g, missing)) : g.IsReady := by
  have hdistinct := (Workflow.IsLoaded.alone h).distinctKeys.distinct
  rcases load_eq_ok_iff.1 h with ⟨_, g₀, -, hassemble, rfl, -⟩
  have hready := assemble_isReady hassemble
  have hnominal := Graph.isNominal_patchDeep source.resets
  have hgroup : ∀ n : Node Group, (n.patchDeep source.resets).group? = n.group?.map fun x =>
      { x with graph := x.graph.mapNodes (Node.patch source.resets) } := fun n =>
    Node.group?_onGroup _ _
  have hinner : ∀ m ∈ (Graph.mapNodes (Node.patchDeep source.resets) g₀).nodes, ∀ x,
      m.group? = some x → x.graph.AllWidgets Widget.IsSilent ∧ x.graph.Aimed := by
    intro m hm x hx
    rcases List.mem_map.1 hm with ⟨n, hn, rfl⟩
    rw [hgroup] at hx
    rcases Option.map_eq_some_iff.1 hx with ⟨y, hy, rfl⟩
    exact ⟨(hready.silent.inner n hn y hy).mapNodes_isSilent (Graph.isNominal_patch _),
      (hready.aimedInside n hn y hy).mapNodes (Graph.isNominal_patch _)⟩
  rw [Workflow.patch_eq hready.distinct] at hdistinct ⊢
  exact ⟨hdistinct,
    ⟨hready.silent.outer.mapNodes_isSilent hnominal, fun m hm x hx => (hinner m hm x hx).1⟩,
    hready.aimed.mapNodes hnominal, fun m hm x hx => (hinner m hm x hx).2⟩

end Registry

end NodeFlow
