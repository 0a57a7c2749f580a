import NodeFlow.Proofs.Load.Entries
import NodeFlow.Proofs.Load.Stored

/-!
# Loading what was saved

A loaded workflow is saved to a document that is loaded again to the same workflow, and saved to the
same document.  Three things are not saved: an input's widget name that counts as false, a free
member that is null, and whether the counter of links was written as a truth value.  Outdated type
names and names of samplers with a lead must be gone, since a load would replace them.

Main results:

- Definition `Registry.StoresDeep`: a node that is built again from what is saved of it.
- Theorem `Registry.load_dump_save`: loading the value of a saved workflow.
-/

namespace NodeFlow

/-! ## Nodes that are built -/

namespace Registry

variable {r : Registry}

private theorem isBlank_blank {γ : Type} (type : String) :
    (({} : NodeSetup).blank type : Node γ).IsBlank := ⟨rfl, nofun⟩

/-- A node that is built has the type it was asked for, and no state of its own. -/
theorem isBlank_buildSimple {γ : Type} (hnamed : r.IsNamed) {type : String} {b : Node γ}
    (h : r.buildSimple type = .ok b) : b.type = type ∧ b.IsBlank := by
  unfold buildSimple at h
  split at h
  · split at h
    · cases h
    · unfold create at h
      split at h
      · rename_i v _
        cases h
        unfold VirtualKind.node
        cases v.kind <;> exact ⟨rfl, rfl, fun h => by first | rfl | cases h⟩
      · split at h
        · rename_i d hd
          rcases Fault.bind_eq_ok_iff.1 h with ⟨front, -, h⟩
          cases h
          exact ⟨hnamed type d hd, rfl, nofun⟩
        · cases h
  · cases h
    exact ⟨rfl, rfl, fun _ => rfl⟩

/-! ## Nodes that are built again -/

/-- The node is built again from what is saved of it. -/
structure Stores {γ : Type} (r : Registry) (n : Node γ) : Prop where
  free : n.record.IsFree
  settled : n.record.IsSettled r.knows
  built : ∃ b, r.buildSimple n.type = .ok b ∧ b.Fits n

private theorem Stores.of_fits {γ : Type} {n n' : Node γ} (h : r.Stores n)
    (htype : n'.type = n.type) (hextra : ∀ name ∈ Table.names n'.extra, name ∈ Table.names n.extra)
    (hfits : ∀ b : Node γ, b.Fits n → b.Fits n') : r.Stores n' where
  free name hname := h.free name (hextra name hname)
  settled := by
    have hsettled : r.knows n.type = true ∨ sanitize n.type = n.type := h.settled
    rw [← htype] at hsettled
    exact hsettled
  built := by
    rcases h.built with ⟨b, hb, hn⟩
    exact ⟨b, htype ▸ hb, hfits b hn⟩

private theorem stores_configure {γ : Type} (hnamed : r.IsNamed) {saved : NodeRecord} {b : Node γ}
    (hb : r.buildSimple saved.type = .ok b) (hfree : saved.IsFree)
    (hsettled : saved.IsSettled r.knows) : r.Stores (b.configure saved) := by
  rcases isBlank_buildSimple hnamed hb with ⟨htype, hblank⟩
  have hsame : (b.configure saved).type = saved.type := htype
  refine ⟨hfree, ?_, ⟨b, hsame.symm ▸ hb, hblank.fits saved⟩⟩
  have hknown : r.knows (b.configure saved).type = true ∨
      sanitize (b.configure saved).type = (b.configure saved).type := by
    rw [hsame]
    exact hsettled
  exact hknown

variable {γ : Type} {n n' : Node γ}

private theorem Stores.finished (h : r.Stores n) {g : Graph γ} (hfresh : n.IsFresh)
    (hfinished : g.finished n = .ok n') : r.Stores n' := by
  have hkept : n'.type = n.type ∧ n'.extra = n.extra := by
    cases hprimitive : n.kind.isPrimitive with
    | false =>
      rw [Graph.finished_of_not_primitive hprimitive] at hfinished
      cases hfinished
      exact ⟨rfl, rfl⟩
    | true =>
      rcases Kind.isPrimitive_iff.1 hprimitive with ⟨pending, hkind⟩
      rw [Graph.finished_eq hkind (hfresh pending hkind).2] at hfinished
      rcases Fault.map_eq_ok_iff.1 hfinished with ⟨found, -, rfl⟩
      cases found <;> exact ⟨rfl, rfl⟩
  exact h.of_fits hkept.1 (fun name hname => hkept.2 ▸ hname) fun b hb =>
    hb.finished hfresh hfinished

private theorem names_present (ms : Members) : ∀ name ∈ Table.names (Table.present ms),
    name ∈ Table.names ms := by
  intro name hname
  rcases List.mem_map.1 hname with ⟨m, hm, rfl⟩
  exact List.mem_map_of_mem (List.mem_filter.1 hm).1

private theorem Stores.patch_trim (h : r.Stores n) (reset : Bool) : r.Stores (n.patch reset).trim :=
  h.of_fits rfl (names_present n.extra) fun _ hb => (hb.patch reset).trim

end Registry

/-! ## Nodes that are ready to be saved -/

/-- The node without the group it stands for. -/
def Node.shell (n : Node Group) : Node Group := { n with kind := .plain }

/-- The node of a group is built again from what is saved of it. -/
structure Registry.StoresGroup (r : Registry) (n : Node Group) (x : Group) : Prop where
  free : n.record.IsFree
  shell : (({} : NodeSetup).blank n.type : Node Group).Fits n.shell
  inside : x.graph.IsStored r.Stores

/-- The node is built again from what is saved of it, group or not. -/
structure Registry.StoresDeep (r : Registry) (n : Node Group) : Prop where
  outside : n.group? = none → r.Stores n
  inside : ∀ x, n.group? = some x → r.StoresGroup n x

/-- Primitives are settled, also inside groups. -/
structure Node.IsSettledDeep (n : Node Group) : Prop where
  outside : n.IsSettled
  inside : ∀ x, n.group? = some x → ∀ m ∈ x.graph.nodes, m.IsSettled

/-- The node holds nothing that is not saved. -/
def Node.IsTrimmed {γ : Type} (n : Node γ) : Prop := n.inputs.map InputSlot.trim = n.inputs

/-- The node holds nothing that is not saved, and neither do the nodes inside it. -/
structure Node.IsTrimmedDeep (n : Node Group) : Prop where
  outside : n.IsTrimmed
  inside : ∀ x, n.group? = some x → ∀ m ∈ x.graph.nodes, m.IsTrimmed
  counter : ∀ x, n.group? = some x → x.graph.lastLinkId = .number x.graph.lastLinkId.val

namespace Registry

variable {r : Registry}

/-- A node is built again and takes its state on again, but for the widgets of primitives. -/
theorem Stores.build {γ : Type} {n : Node γ} (h : r.Stores n) (hsettled : n.IsSettled)
    (htrimmed : n.IsTrimmed) :
    ∃ b, r.buildSimple n.type = .ok b ∧ b.configure n.record = n.unfinish := by
  rcases h.built with ⟨b, hb, hfits⟩
  exact ⟨b, hb, hfits.configure hsettled htrimmed⟩

/-- The graph inside a group is configured from its own document. -/
theorem configure_save {g : Subgraph} (h : g.IsStored r.Stores)
    (hsettled : ∀ n ∈ g.nodes, n.IsSettled) (htrimmed : ∀ n ∈ g.nodes, n.IsTrimmed)
    (hcounter : g.lastLinkId = .number g.lastLinkId.val) :
    Graph.configure (fun inner => r.buildSimple inner.type) (Subgraph.save g) =
      .ok (g.mapNodes Node.unfinish) := by
  have hall : g.IsStored fun n => r.Stores n ∧ n.IsSettled ∧ n.IsTrimmed :=
    { h with nodes := fun n hn => ⟨h.nodes n hn, hsettled n hn, htrimmed n hn⟩ }
  refine Graph.configure_saveWith hall hcounter (fun _ => rfl) Node.id_unfinish ?_
  rintro n ⟨hstores, hn, hn'⟩
  exact hstores.build hn hn'

/-- A node that may be a group is built again and takes its state on again. -/
theorem StoresDeep.build {n : Node Group} (h : r.StoresDeep n) (hsettled : n.IsSettledDeep)
    (htrimmed : n.IsTrimmedDeep) :
    ∃ b, r.build n.save = .ok b ∧ b.configure n.save.toNodeRecord = n.unfinishDeep := by
  cases hgroup : n.group? with
  | none =>
    rcases (h.outside hgroup).build hsettled.outside htrimmed.outside with ⟨b, hb, hn⟩
    have hsave : n.save = { n.record with } := by simp only [Node.save, hgroup]
    have hundone : n.unfinish.group? = none := by rw [Node.group?_unfinish, hgroup]
    rw [hsave, Node.unfinishDeep, Node.onGroup_of_none _ hundone]
    exact ⟨b, hb, hn⟩
  | some x =>
    have hstored := h.inside x hgroup
    have hkind := Node.kind_eq_of_group? hgroup
    have hinner := configure_save hstored.inside (hsettled.inside x hgroup)
      (htrimmed.inside x hgroup) (htrimmed.counter x hgroup)
    have hsave : n.save = { n.record with
        subgraph := some (Subgraph.save x.graph)
        groupInputs := some x.inputs
        groupOutputs := some x.outputs } := by simp only [Node.save, hgroup]
    have hrecord : n.shell.record = n.record := by
      simp [Node.record, Node.shell, Node.savedValues, hkind]
    have hshell : n.shell.IsSettled := fun pending hpending => by cases hpending
    have hconfigured := hstored.shell.configure hshell htrimmed.outside
    rw [hrecord, Node.unfinish_of_not_primitive rfl] at hconfigured
    have hflat : (Subgraph.save x.graph).nodes.any (·.subgraph.isSome) = false := by
      simp [Subgraph.save, Graph.saveWith]
    refine ⟨{ (({} : NodeSetup).blank n.type : Node Group) with
      kind := .group { x with graph := x.graph.mapNodes Node.unfinish } }, ?_, ?_⟩
    · rw [hsave, Registry.build]
      simp only [hflat, hinner]
      rfl
    · have hplain : n.unfinish = n := Node.unfinish_of_not_primitive (by rw [hkind]; rfl)
      rw [hsave, Node.unfinishDeep, hplain, Node.onGroup_of_group? _ hgroup]
      exact congrArg (fun m : Node Group => { m with
        kind := .group { x with graph := x.graph.mapNodes Node.unfinish } }) hconfigured

/-! ## From the document to the workflow -/

variable {n n' : Node Group}

/-- The entry of a node is free of names of fields and has a settled type where one is needed. -/
abbrev IsEntry (r : Registry) (n : SavedNode Document) : Prop :=
  n.toNodeRecord.IsFree ∧ (n.subgraph = none → n.toNodeRecord.IsSettled r.knows)

/-- The graph inside a group is stored, and fresh. -/
theorem configure_inner (hnamed : r.IsNamed) {d : Document} {g : Subgraph}
    (hnested : d.nodes.any (·.subgraph.isSome) = false) (hd : d.Every r.IsEntry 1)
    (h : Graph.configure (fun inner => r.buildSimple inner.type) d = .ok g) :
    g.IsStored fun n => r.Stores n ∧ n.IsFresh := by
  refine Graph.configure_isStored h ?_
  intro saved hsaved b hb
  rcases (hd saved hsaved).1 with ⟨hfree, hsettled⟩
  have hnone : saved.subgraph = none := by
    have hnot := List.any_eq_false.1 hnested saved hsaved
    simpa using hnot
  exact ⟨stores_configure hnamed hb hfree (hsettled hnone),
    (isBlank_buildSimple hnamed hb).2.isFresh_configure _⟩

/-- A node that is built from an entry is stored, and fresh. -/
theorem build_stores (hnamed : r.IsNamed) {saved : SavedNode Document} {b : Node Group}
    (hsaved : r.IsEntry saved) (hinner : ∀ d, saved.subgraph = some d → d.Every r.IsEntry 1)
    (hb : r.build saved = .ok b) :
    r.StoresDeep (b.configure saved.toNodeRecord) ∧
      (b.configure saved.toNodeRecord).IsFreshDeep := by
  have hgroup? := group?_configure saved.toNodeRecord b
  unfold Registry.build at hb
  split at hb
  · rename_i hnone
    rw [group?_buildSimple hb] at hgroup?
    have hstores := stores_configure hnamed hb hsaved.1 (hsaved.2 hnone)
    have hfresh := (isBlank_buildSimple hnamed hb).2.isFresh_configure saved.toNodeRecord
    refine ⟨⟨fun _ => hstores, ?_⟩, ⟨hfresh, ?_, ?_⟩⟩ <;>
    · rw [hgroup?]
      exact nofun
  · rename_i d hd
    split at hb
    · cases hb
    · rename_i hnested
      rcases Fault.bind_eq_ok_iff.1 hb with ⟨g, hg, hb⟩
      cases hb
      have hstored := configure_inner hnamed (Bool.not_eq_true _ ▸ hnested) (hinner d hd) hg
      have hdistinct := (Graph.configure_distinct hg).1.ids_nodup
      have hblank := (isBlank_blank (γ := Group) saved.type).fits saved.toNodeRecord
      refine ⟨⟨nofun, ?_⟩, ⟨nofun, ?_, ?_⟩⟩
      · rintro _ ⟨⟩
        exact ⟨hsaved.1, hblank, { hstored with nodes := fun n hn => (hstored.nodes n hn).1 }⟩
      · rintro _ ⟨⟩
        exact fun n hn => (hstored.nodes n hn).2
      · rintro _ ⟨⟩
        exact hdistinct

/-- A finished node is stored, and its primitives are settled. -/
theorem StoresDeep.finishedDeep (h : r.StoresDeep n) (hfresh : n.IsFreshDeep) {g : Workflow}
    (hfinished : Workflow.finishedDeep g n = .ok n') : r.StoresDeep n' ∧ n'.IsSettledDeep := by
  rcases Workflow.finishedDeep_cases hfinished with
    ⟨hgroup, hnone, hfinished⟩ | ⟨x, inner, hgroup, hinner, rfl⟩
  · have hstores := (h.outside hgroup).finished hfresh.outside hfinished
    have hsettled := Graph.isSettled_finished hfresh.outside hfinished
    refine ⟨⟨fun _ => hstores, ?_⟩, ⟨hsettled, ?_⟩⟩ <;>
    · rw [hnone]
      intro x hx
      cases hx
  · rw [Graph.finishAll_eq_sweep] at hinner
    have hstored := h.inside x hgroup
    have hall : x.graph.IsStored fun m => r.Stores m ∧ m.IsFresh := { hstored.inside with
      nodes := fun m hm => ⟨hstored.inside.nodes m hm, hfresh.inside x hgroup m hm⟩ }
    have hswept : inner.IsStored fun m => r.Stores m ∧ m.IsSettled := hall.sweep
      (hfresh.distinct x hgroup) (fun _ _ _ => Graph.id_finished)
      (fun g m m' hm hm' => ⟨hm.1.finished hm.2 hm', Graph.isSettled_finished hm.2 hm'⟩) hinner
    rw [Node.onGroup_of_group? _ hgroup]
    refine ⟨⟨fun hnone => (by cases hnone), ?_⟩, ⟨fun _ hkind => (by cases hkind), ?_⟩⟩
    · rintro _ ⟨⟩
      exact ⟨hstored.free, hstored.shell, { hswept with nodes := fun m hm => (hswept.nodes m hm).1 }⟩
    · rintro _ ⟨⟩
      exact fun m hm => (hswept.nodes m hm).2

end Registry

/-! ## What is done to the values -/

section Settle

variable {γ : Type} {n : Node γ} (reset : Bool)

private theorem InputSlot.trim_trim (s : InputSlot) : s.trim.trim = s.trim := by
  unfold trim
  cases h : s.widget.truthy <;> simp [h]

private theorem Node.isTrimmed_trim (n : Node γ) : n.trim.IsTrimmed := by
  have htwice : (n.inputs.map InputSlot.trim).map InputSlot.trim = n.inputs.map InputSlot.trim := by
    rw [List.map_map]
    exact List.map_congr_left fun s _ => InputSlot.trim_trim s
  exact htwice

private theorem Node.isSettled_patch_trim (h : n.IsSettled) : (n.patch reset).trim.IsSettled := by
  intro pending hkind
  have hsettled := h pending hkind
  have hwidgets : (n.patch reset).trim.widgets ≠ [] ↔ n.widgets ≠ [] := by
    simp [Node.patch, Node.trim]
  rw [hsettled, hwidgets]

private theorem Node.matches_patch_trim (h : n.IsSettled) : n.Matches (n.patch reset).trim where
  face := by
    have htwice : (n.inputs.map InputSlot.trim).map InputSlot.trim =
        n.inputs.map InputSlot.trim := n.isTrimmed_trim
    have hwidgets := Widget.map_bare_patch n.type reset n.widgets
    exact Prod.ext rfl (Prod.ext htwice hwidgets)
  outputs := rfl
  isCutOff := rfl
  isPrimitive := rfl
  settled := isSettled_patch_trim reset h

private theorem Node.patch_trim_again {n : Node γ}
    (h : ∀ w ∈ (n.patch false).widgets, w.IsCurrent n.type) :
    (n.patch false).trim.patch false = (n.patch false).trim := by
  have hwidgets : ((n.widgets.map (Widget.patch n.type false)).map (Widget.patch n.type false)) =
      n.widgets.map (Widget.patch n.type false) := by
    rw [List.map_map]
    refine List.map_congr_left fun w hw => Widget.patch_patch (h _ ?_)
    exact List.mem_map_of_mem hw
  exact congrArg (fun ws => { (n.patch false).trim with widgets := ws }) hwidgets

end Settle

private theorem SavedNode.isFree_normalize {knows : String → Bool} (n : SavedNode Document)
    (h : n.toNodeRecord.IsFree) : (n.normalize knows).toNodeRecord.IsFree := by
  rcases n with ⟨n, _ | d⟩ <;> exact h

private theorem Node.id_save (n : Node Group) : n.save.id = n.id := by
  unfold save
  split <;> rfl

private theorem Node.id_unfinishDeep (n : Node Group) : n.unfinishDeep.id = n.id := by
  rw [unfinishDeep, id_onGroup, id_unfinish]

/-- The node with the widget values in use and without what is not saved. -/
def Node.settle (reset : Bool) (n : Node Group) : Node Group := (n.patchDeep reset).trimDeep

section SettleDeep

variable {n : Node Group} {x : Group} (reset : Bool)

private theorem Node.settle_eq (n : Node Group) : n.settle reset = (n.patch reset).trim.onGroup
    fun g => (g.mapNodes (Node.patch reset)).trim := by
  have hcomm : ∀ (f : Subgraph → Subgraph) (m : Node Group), (m.onGroup f).trim =
      m.trim.onGroup f := by
    intro f m
    cases hgroup : m.group? with
    | none => rw [onGroup_of_none f hgroup, onGroup_of_none f (n := m.trim) hgroup]
    | some x =>
      rw [onGroup_of_group? f hgroup, onGroup_of_group? f (n := m.trim) hgroup]
      rfl
  rw [settle, patchDeep, trimDeep, hcomm, onGroup_onGroup]

private theorem Node.settle_of_none (h : n.group? = none) :
    n.settle reset = (n.patch reset).trim := by
  rw [settle_eq, onGroup_of_none _ (n := (n.patch reset).trim) h]

private theorem Node.settle_of_group? (h : n.group? = some x) :
    n.settle reset = { (n.patch reset).trim with
      kind := .group { x with graph := (x.graph.mapNodes (Node.patch reset)).trim } } := by
  rw [settle_eq, onGroup_of_group? _ (n := (n.patch reset).trim) h]

private theorem Node.id_settle (n : Node Group) : (n.settle reset).id = n.id := by
  rw [settle_eq, id_onGroup]
  rfl

/-- The nodes inside a settled node. -/
theorem Node.mem_settle {m : Node Empty} {g : Subgraph}
    (h : m ∈ ((g.mapNodes (Node.patch reset)).trim).nodes) :
    ∃ m' ∈ g.nodes, m = (m'.patch reset).trim := by
  rcases List.mem_map.1 h with ⟨m₁, hm₁, rfl⟩
  rcases List.mem_map.1 hm₁ with ⟨m', hm', rfl⟩
  exact ⟨m', hm', rfl⟩

private theorem Node.isSettledDeep_settle (h : n.IsSettledDeep) :
    (n.settle reset).IsSettledDeep := by
  cases hgroup : n.group? with
  | none =>
    rw [settle_of_none reset hgroup]
    have hnone : (n.patch reset).trim.group? = none := hgroup
    refine ⟨isSettled_patch_trim reset h.outside, ?_⟩
    rw [hnone]
    exact nofun
  | some x =>
    rw [settle_of_group? reset hgroup]
    refine ⟨nofun, ?_⟩
    rintro _ ⟨⟩ m hm
    rcases mem_settle reset hm with ⟨m', hm', rfl⟩
    exact isSettled_patch_trim reset (h.inside x hgroup m' hm')

private theorem Node.isTrimmedDeep_settle (n : Node Group) : (n.settle reset).IsTrimmedDeep := by
  cases hgroup : n.group? with
  | none =>
    rw [settle_of_none reset hgroup]
    have hnone : (n.patch reset).trim.group? = none := hgroup
    refine ⟨(n.patch reset).isTrimmed_trim, ?_, ?_⟩ <;>
    · rw [hnone]
      exact nofun
  | some x =>
    rw [settle_of_group? reset hgroup]
    refine ⟨(n.patch reset).isTrimmed_trim, ?_, ?_⟩
    · rintro _ ⟨⟩ m hm
      rcases mem_settle reset hm with ⟨m', hm', rfl⟩
      exact (m'.patch reset).isTrimmed_trim
    · rintro _ ⟨⟩
      rfl

private theorem Node.matchesDeep_settle (h : n.IsSettledDeep) : n.MatchesDeep (n.settle reset) := by
  have hmatches := matches_patch_trim reset h.outside
  cases hgroup : n.group? with
  | none =>
    rw [settle_of_none reset hgroup]
    have hnone : (n.patch reset).trim.group? = none := hgroup
    refine ⟨hmatches, ?_⟩
    rw [hgroup, hnone]
    exact .none
  | some x =>
    rw [settle_of_group? reset hgroup]
    have hkind := kind_eq_of_group? hgroup
    refine ⟨⟨hmatches.face, rfl, rfl, ?_, nofun⟩, ?_⟩
    · rw [hkind]
      rfl
    · rw [hgroup]
      refine .some ⟨rfl, ?_⟩
      have hnodes : ((x.graph.mapNodes (Node.patch reset)).trim).nodes =
          x.graph.nodes.map fun m => (m.patch reset).trim := List.map_map
      rw [hnodes]
      refine List.forall₂_map_right_iff.2 (List.forall₂_same.2 fun m hm => ?_)
      exact matches_patch_trim reset (h.inside x hgroup m hm)

private theorem Registry.StoresDeep.settle {r : Registry} (h : r.StoresDeep n) :
    r.StoresDeep (n.settle reset) := by
  cases hgroup : n.group? with
  | none =>
    rw [Node.settle_of_none reset hgroup]
    have hnone : (n.patch reset).trim.group? = none := hgroup
    refine ⟨fun _ => (h.outside hgroup).patch_trim reset, ?_⟩
    rw [hnone]
    exact nofun
  | some x =>
    have hstored := h.inside x hgroup
    rw [Node.settle_of_group? reset hgroup]
    refine ⟨nofun, ?_⟩
    rintro _ ⟨⟩
    refine ⟨fun name hname => hstored.free name (names_present n.extra name hname),
      (hstored.shell.patch reset).trim, hstored.inside.of_forall₂ rfl rfl rfl ?_⟩
    have hnodes : ((x.graph.mapNodes (Node.patch reset)).trim).nodes =
        x.graph.nodes.map fun m => (m.patch reset).trim := List.map_map
    rw [hnodes]
    exact List.forall₂_map_right_iff.2 (List.forall₂_same.2 fun m hm =>
      ⟨rfl, fun hm' => hm'.patch_trim reset⟩)

end SettleDeep

/-! ## Loading again -/

/-- No type name and no sampler name of the workflow is outdated. -/
structure Workflow.IsCurrent (g : Workflow) : Prop where
  types : ∀ s ∈ sites g, outdatedTypes.get? s.type = none
  samplers : ∀ s ∈ sites g, ∀ w ∈ s.widgets, w.IsCurrent s.type

private theorem Node.settle_patchDeep {n : Node Group}
    (houter : ∀ w ∈ (n.patchDeep false).widgets, w.IsCurrent (n.patchDeep false).type)
    (hinner : ∀ x, (n.patchDeep false).group? = some x →
      ∀ m ∈ x.graph.nodes, ∀ w ∈ m.widgets, w.IsCurrent m.type) :
    (n.settle false).patchDeep false = n.settle false := by
  have hshell : ∀ f, ((n.patch false).onGroup f).widgets = (n.patch false).widgets ∧
      ((n.patch false).onGroup f).type = n.type := by
    intro f
    unfold onGroup
    split <;> exact ⟨rfl, rfl⟩
  rw [patchDeep, (hshell _).1, (hshell _).2] at houter
  have hagain := patch_trim_again houter
  cases hgroup : n.group? with
  | none =>
    rw [settle_of_none false hgroup, patchDeep, hagain]
    exact onGroup_of_none _ (n := (n.patch false).trim) hgroup
  | some x =>
    have hpatched : (n.patchDeep false).group? =
        some { x with graph := x.graph.mapNodes (Node.patch false) } := by
      have hsame : (n.patch false).group? = some x := hgroup
      rw [patchDeep, group?_onGroup, hsame]
      rfl
    have hgraph : ((x.graph.mapNodes (Node.patch false)).trim).mapNodes (Node.patch false) =
        (x.graph.mapNodes (Node.patch false)).trim := by
      refine congrArg (fun ns => { (x.graph.mapNodes (Node.patch false)).trim with nodes := ns }) ?_
      simp only [Graph.mapNodes, Graph.trim, List.map_map]
      refine List.map_congr_left fun m hm => patch_trim_again ?_
      exact hinner _ hpatched (m.patch false) (List.mem_map_of_mem hm)
    rw [settle_of_group? false hgroup, patchDeep]
    have hpatch := congrArg (fun m : Node Group => { m with
      kind := .group { x with graph := (x.graph.mapNodes (Node.patch false)).trim } }) hagain
    refine (congrArg (onGroup _) hpatch).trans ?_
    rw [onGroup_of_group? _ rfl, hgraph]

namespace Registry

variable {r : Registry}

private theorem StoresDeep.isFree {n : Node Group} (h : r.StoresDeep n) : n.record.IsFree := by
  cases hgroup : n.group? with
  | none => exact (h.outside hgroup).free
  | some x => exact (h.inside x hgroup).free

private theorem normalize_record {γ : Type} {n : Node γ} (h : n.record.IsSettled r.knows)
    (htype : outdatedTypes.get? n.type = none) :
    SavedNode.normalize r.knows { n.record with } = { n.record with } := by
  have hcurrent : currentType n.type = n.type := by rw [currentType, htype]; rfl
  have hsettled : (if r.knows n.type then n.type else sanitize n.type) = n.type := by
    rcases h with hknows | hclean
    · exact if_pos hknows
    · split
      · rfl
      · exact hclean
  have hsame : (if r.knows (currentType n.record.type) then currentType n.record.type
      else sanitize (currentType n.record.type)) = n.record.type := by
    rw [show n.record.type = n.type from rfl, hcurrent, hsettled]
  simp only [SavedNode.normalize, hsame]

/-- Saved nodes have settled types, and those that are in use stay. -/
theorem normalize_save {g : Workflow} (hg : ∀ n ∈ g.nodes, r.StoresDeep n)
    (htypes : ∀ s ∈ Workflow.sites g, outdatedTypes.get? s.type = none) :
    ((Workflow.save g).normalize r.knows).1 = Workflow.save g := by
  refine Document.normalize_self fun saved hsaved => ?_
  rcases List.mem_map.1 hsaved with ⟨n, hn, rfl⟩
  cases hgroup : n.group? with
  | none =>
    rw [Node.save_of_none hgroup]
    exact normalize_record ((hg n hn).outside hgroup).settled
      (htypes (.outer n) (Workflow.mem_sites_outer.2 hn))
  | some x =>
    have hinner : ((Subgraph.save x.graph).normalize r.knows).1 = Subgraph.save x.graph := by
      refine Document.normalize_self fun saved hsaved => ?_
      rcases List.mem_map.1 hsaved with ⟨m, hm, rfl⟩
      exact normalize_record (((hg n hn).inside x hgroup).inside.nodes m hm).settled
        (htypes (.inner n x m) (Workflow.mem_sites_inner.2 ⟨hn, hgroup, hm⟩))
    rw [Node.save_of_group? hgroup]
    simp only [SavedNode.normalize, hinner]

/-- A graph that is assembled from a document holds stored nodes with settled primitives, and comes
from fresh ones. -/
theorem assemble_stored (hnamed : r.IsNamed) {d : Document} (hd : d.Every r.IsEntry 2)
    {g : Workflow} (h : r.assemble d = .ok g) :
    g.IsStored (fun n => r.StoresDeep n ∧ n.IsSettledDeep) ∧
      ∀ g' : Workflow, g'.links = g.links → List.Forall₂ Node.MatchesDeep g.nodes g'.nodes →
        Workflow.finish (g'.mapNodes Node.unfinishDeep) = .ok g' := by
  rcases Fault.bind_eq_ok_iff.1 h with ⟨g₀, hconfigured, hfinish⟩
  have hids := (Graph.configure_distinct hconfigured).1.ids_nodup
  have hstored : g₀.IsStored fun n => r.StoresDeep n ∧ n.IsFreshDeep := by
    refine Graph.configure_isStored hconfigured fun saved hsaved b hb => ?_
    rcases hd saved hsaved with ⟨hentry, hinner⟩
    exact build_stores hnamed hentry hinner hb
  have hsweep := hfinish
  rw [Workflow.finish_eq_sweep] at hsweep
  refine ⟨hstored.sweep hids (fun _ _ _ => Workflow.id_finishedDeep)
    (fun _ _ _ hn hn' => hn.1.finishedDeep hn.2 hn') hsweep, ?_⟩
  intro g' hlinks hmatches
  exact Workflow.finish_unfinish hids (fun n hn => (hstored.nodes n hn).2) hfinish hlinks hmatches

/-- The value of a patched workflow of stored nodes can be read back. -/
theorem read_dump_patched {g : Workflow} (hg : ∀ n ∈ g.nodes, r.StoresDeep n) :
    Document.read (Workflow.save (g.mapNodes (Node.patchDeep false))).dump =
      .ok (Workflow.save (Workflow.trim (g.mapNodes (Node.patchDeep false)))) := by
  have hextra : ∀ n : Node Group, (n.patchDeep false).extra = n.extra := by
    intro n
    unfold Node.patchDeep Node.onGroup
    split <;> rfl
  refine Workflow.read_dump_save ?_ ?_
  · intro n hn
    rcases List.mem_map.1 hn with ⟨m, hm, rfl⟩
    rw [hextra]
    exact (hg m hm).isFree
  · intro n hn group hgroup
    rcases List.mem_map.1 hn with ⟨m, hm, rfl⟩
    rw [Node.patchDeep, Node.group?_onGroup] at hgroup
    rcases Option.map_eq_some_iff.1 hgroup with ⟨x, hx, rfl⟩
    intro k hk
    rcases List.mem_map.1 hk with ⟨k', hk', rfl⟩
    exact (((hg m hm).inside x hx).inside.nodes k' hk').free

private theorem type_of_mem_sites_trim {g : Workflow} {s : Site}
    (hs : s ∈ Workflow.sites (Workflow.trim g)) : ∃ s' ∈ Workflow.sites g, s'.type = s.type := by
  have htype : ∀ n : Node Group, n.trimDeep.type = n.type := by
    intro n
    unfold Node.trimDeep Node.onGroup
    split <;> rfl
  cases s with
  | outer n =>
    rcases List.mem_map.1 (Workflow.mem_sites_outer.1 hs) with ⟨m, hm, rfl⟩
    exact ⟨.outer m, Workflow.mem_sites_outer.2 hm, (htype m).symm⟩
  | inner host group n =>
    rcases Workflow.mem_sites_inner.1 hs with ⟨hhost, hgroup, hn⟩
    rcases List.mem_map.1 hhost with ⟨host', hhost', rfl⟩
    rw [Node.group?_trimDeep] at hgroup
    rcases Option.map_eq_some_iff.1 hgroup with ⟨x, hx, rfl⟩
    rcases List.mem_map.1 hn with ⟨n', hn', rfl⟩
    exact ⟨.inner host' x n', Workflow.mem_sites_inner.2 ⟨hhost', hx, hn'⟩, rfl⟩

private theorem nodes_trim_patched (g : Workflow) :
    (Workflow.trim (g.mapNodes (Node.patchDeep false))).nodes = g.nodes.map (Node.settle false) :=
  List.map_map

/-- Patching and trimming keep a graph of stored nodes one of stored nodes. -/
theorem isStored_trim_patched {g : Workflow}
    (h : g.IsStored fun n => r.StoresDeep n ∧ n.IsSettledDeep) :
    (Workflow.trim (g.mapNodes (Node.patchDeep false))).IsStored
      fun n => r.StoresDeep n ∧ n.IsSettledDeep ∧ n.IsTrimmedDeep := by
  refine h.of_forall₂ rfl rfl rfl ?_
  rw [nodes_trim_patched]
  refine List.forall₂_map_right_iff.2 (List.forall₂_same.2 fun n _ => ?_)
  exact ⟨n.id_settle false, fun hn => ⟨hn.1.settle false, n.isSettledDeep_settle false hn.2,
    n.isTrimmedDeep_settle false⟩⟩

/-- A graph of stored, settled and trimmed nodes is assembled again from its document, if finishing
its fresh nodes leads back to it. -/
theorem assemble_save {z : Workflow}
    (hz : z.IsStored fun n => r.StoresDeep n ∧ n.IsSettledDeep ∧ n.IsTrimmedDeep)
    (hcounter : z.lastLinkId = .number z.lastLinkId.val)
    (hfinish : Workflow.finish (z.mapNodes Node.unfinishDeep) = .ok z) :
    r.assemble (Workflow.save z) = .ok z := by
  have hconfigured : Graph.configure r.build (Workflow.save z) =
      .ok (z.mapNodes Node.unfinishDeep) := by
    refine Graph.configure_saveWith hz hcounter Node.id_save Node.id_unfinishDeep ?_
    rintro n ⟨hn, hsettled, htrimmed⟩
    exact hn.build hsettled htrimmed
  exact Fault.bind_eq_ok_iff.2 ⟨_, hconfigured, hfinish⟩

/-- A patch finds nothing to do in a workflow that was patched and trimmed, if all names are current. -/
theorem patch_trim_patched {g : Workflow}
    (hdistinct : Workflow.Distinct (Workflow.trim (g.mapNodes (Node.patchDeep false))))
    (hcurrent : Workflow.IsCurrent (g.mapNodes (Node.patchDeep false))) :
    Workflow.patch false (Workflow.trim (g.mapNodes (Node.patchDeep false))) =
      Workflow.trim (g.mapNodes (Node.patchDeep false)) := by
  have hagain : (g.nodes.map (Node.settle false)).map (Node.patchDeep false) =
      g.nodes.map (Node.settle false) := by
    rw [List.map_map]
    refine List.map_congr_left fun n hn => ?_
    have hmem : n.patchDeep false ∈ (g.mapNodes (Node.patchDeep false)).nodes :=
      List.mem_map_of_mem hn
    refine Node.settle_patchDeep (hcurrent.samplers _ (Workflow.mem_sites_outer.2 hmem)) ?_
    intro x hx m hm
    exact hcurrent.samplers _ (Workflow.mem_sites_inner.2 ⟨hmem, hx, hm⟩)
  rw [Workflow.patch_eq hdistinct, Graph.mapNodes, nodes_trim_patched, hagain,
    ← nodes_trim_patched]

/-- Loading the value of a saved workflow comes to the workflow again, but for what is not saved. -/
theorem load_value_dump (hnamed : r.IsNamed) {source : LoadSource} {v : Json}
    (hread : source.read = Document.read v) (hresets : source.resets = false) {g : Workflow}
    {missing : List MissingType} (hload : r.load source = .ok (g, missing)) (hg : g.IsCurrent) :
    ∃ missing', r.load (.value (Workflow.save g).dump) = .ok (Workflow.trim g, missing') := by
  rcases load_eq_ok_iff.1 hload with ⟨d, g₁, hd, hassembled, rfl, -⟩
  rw [hresets, Workflow.patch_eq (assemble_distinctKeys hassembled).distinct] at hg ⊢
  -- what is known of the document and of the graph that is assembled from it
  have hentries : (d.normalize r.knows).1.Every r.IsEntry 2 :=
    Document.every_normalize (fun n hn => n.isFree_normalize hn)
      (Document.every_read (hread ▸ hd) 2)
  rcases assemble_stored hnamed hentries hassembled with ⟨hstored, hfinish⟩
  have hall := isStored_trim_patched hstored
  have hread' := read_dump_patched fun n hn => (hstored.nodes n hn).1
  -- the stages of the second load: each finds the trimmed workflow as it is
  generalize hz : Workflow.trim (g₁.mapNodes (Node.patchDeep false)) = z at hall hread' ⊢
  have hnormal : ((Workflow.save z).normalize r.knows).1 = Workflow.save z := by
    refine normalize_save (fun n hn => (hall.nodes n hn).1) fun s hs => ?_
    rcases type_of_mem_sites_trim (hz ▸ hs) with ⟨s', hs', htype⟩
    exact htype ▸ hg.types s' hs'
  have hassembled' : r.assemble (Workflow.save z) = .ok z := by
    refine assemble_save hall (by rw [← hz]; rfl) (hfinish z (by rw [← hz]; rfl) ?_)
    rw [← hz, nodes_trim_patched]
    exact List.forall₂_map_right_iff.2 (List.forall₂_same.2 fun n hn =>
      n.matchesDeep_settle false (hstored.nodes n hn).2)
  have hpatched : Workflow.patch false z = z := by
    subst hz
    exact patch_trim_patched (assemble_distinctKeys hassembled').distinct hg
  exact ⟨_, load_eq_ok_iff.2 ⟨_, z, hread', hnormal.symm ▸ hassembled', hpatched.symm, rfl⟩⟩

/-- A workflow that was loaded is saved to a document that is loaded again to the same workflow and
saved to the same document.  Only what is not saved is lost. -/
theorem load_dump_save (hnamed : r.IsNamed) {source : LoadSource} {v : Json}
    (hread : source.read = Document.read v) (hresets : source.resets = false) {g : Workflow}
    {missing : List MissingType} (hload : r.load source = .ok (g, missing)) (hg : g.IsCurrent) :
    (∃ missing', r.load (.value (Workflow.save g).dump) = .ok (Workflow.trim g, missing')) ∧
      (Workflow.save (Workflow.trim g)).dump = (Workflow.save g).dump :=
  ⟨load_value_dump hnamed hread hresets hload hg, Workflow.dump_save_trim g⟩

end Registry

/-- A primitive that is linked to an input of a note, and the note; the input was made from a widget
of the given name. -/
def primitiveAndNote (widget : String) : List Json :=
  [.obj [("id", .int 1), ("type", .str "PrimitiveNode"), ("widgets_values", .arr [.str "hi"]),
      ("outputs", .arr [.obj [("name", .str "value"), ("links", .arr [.int 1])]])],
    .obj [("id", .int 2), ("type", .str "Note"), ("widgets_values", .arr [.str "hello"]),
      ("inputs", .arr [.obj [("name", .str "text"), ("link", .int 1),
        ("widget", .obj [("name", .str widget)])]])]]

/-- The link between the two. -/
def primitiveLinks : Json := .arr [.arr [.int 1, .int 1, .int 0, .int 2, .int 0, .str "STRING"]]

/-- A primitive, a note and a group that holds two more, beside a node of a type nobody knows. -/
def notedDocument (widget : String) : Json :=
  .obj [
    ("nodes", .arr (primitiveAndNote widget ++ [
      .obj [("id", .int 3), ("type", .str "Group"), ("subgraph", .obj [
        ("nodes", .arr (primitiveAndNote widget)), ("links", primitiveLinks)])],
      .obj [("id", .str "x"), ("type", .str "Some<b>"), ("widgets_values", .arr [.int 5])]])),
    ("links", primitiveLinks)]

/-- The workflow of the document. -/
def noted (widget : String) : Workflow :=
  ((({} : Registry).load (.value (notedDocument widget))).toOption.map (·.1)).getD {}

private theorem isCurrent_of_types {g : Workflow} (h : (Workflow.sites g).map (·.type) =
    ["PrimitiveNode", "Note", "Group", "PrimitiveNode", "Note", "Someb"]) : g.IsCurrent := by
  have hall : ∀ s ∈ Workflow.sites g, outdatedTypes.get? s.type = none ∧
      samplerTypes.contains s.type = false := by
    intro s hs
    have hmem : s.type ∈ (Workflow.sites g).map (·.type) := List.mem_map_of_mem hs
    rw [h] at hmem
    revert hmem
    generalize s.type = type
    revert type
    decide
  refine ⟨fun s hs => (hall s hs).1, fun s hs w _ hsampler => ?_⟩
  rw [(hall s hs).2] at hsampler
  cases hsampler

/-- The primitives take their widgets from the notes, with the values that were saved for them. -/
theorem noted_text_reloads :
    ({} : Registry).IsNamed ∧ ∃ missing,
      ({} : Registry).load (.value (notedDocument "text")) = .ok (noted "text", missing) ∧
      (noted "text").IsCurrent ∧
      (noted "text").nodes.map (fun n => n.widgets.map (·.value)) =
        [[.str "hi"], [.str "hello"], [], []] ∧
      (∃ missing', ({} : Registry).load (.value (Workflow.save (noted "text")).dump) =
        .ok (Workflow.trim (noted "text"), missing')) ∧
      (Workflow.save (Workflow.trim (noted "text"))).dump = (Workflow.save (noted "text")).dump := by
  have hread : (LoadSource.value (notedDocument "text")).read =
      Document.read (notedDocument "text") := rfl
  obtain ⟨missing, hload⟩ : ∃ missing,
      ({} : Registry).load (.value (notedDocument "text")) = .ok (noted "text", missing) := ⟨_, rfl⟩
  have hcurrent : (noted "text").IsCurrent := isCurrent_of_types rfl
  exact ⟨Registry.isNamed_empty, missing, hload, hcurrent, rfl,
    Registry.load_dump_save Registry.isNamed_empty hread rfl hload hcurrent⟩

/-- An input whose widget has the empty name is saved without a widget, and loses it. -/
theorem noted_empty_loses :
    ∃ missing g missing',
      ({} : Registry).load (.value (notedDocument "")) = .ok (noted "", missing) ∧
      ({} : Registry).load (.value (Workflow.save (noted "")).dump) = .ok (g, missing') ∧
      (noted "").IsCurrent ∧
      (noted "").nodes.map (fun n => n.inputs.map (·.widget)) = [[], [.str ""], [], []] ∧
      g.nodes.map (fun n => n.inputs.map (·.widget)) = [[], [.null], [], []] := by
  have hread : (LoadSource.value (notedDocument "")).read = Document.read (notedDocument "") := rfl
  obtain ⟨missing, hload⟩ : ∃ missing,
      ({} : Registry).load (.value (notedDocument "")) = .ok (noted "", missing) := ⟨_, rfl⟩
  have hcurrent : (noted "").IsCurrent := isCurrent_of_types rfl
  rcases Registry.load_value_dump Registry.isNamed_empty hread rfl hload hcurrent with
    ⟨missing', hload'⟩
  exact ⟨missing, _, missing', hload, hload', hcurrent, rfl, rfl⟩

end NodeFlow
