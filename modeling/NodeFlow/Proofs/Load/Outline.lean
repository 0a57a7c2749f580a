import NodeFlow.Proofs.Load.Entries
import NodeFlow.Proofs.Load.Finish
import NodeFlow.Proofs.Load.Patch

/-!
# What becomes of the entries of a document

Loading makes one node of every entry, in the order of the entries.  Finishing primitives and
replacing outdated values changes widgets and the types of outputs only, so that the id, the type,
the free members and the kind of a node can be read off its entry.

Main results:

- Type `Label`: what loading fixes about a node; definitions `Node.outline` and `Registry.outlineOf`.
- Theorem `Graph.map_configure`: what is read off nodes as they are built.
- Theorem `Registry.load_outlines`: the nodes of a loaded graph as the entries say.
-/

namespace NodeFlow

/-- What loading fixes about a node when it is built. -/
structure Label where
  id : NodeId
  type : String
  extra : Members
  kind : String

section Label

variable {γ : Type}

/-- The label of a node. -/
def Node.label (n : Node γ) : Label := ⟨n.id, n.type, n.extra, n.kind.name⟩

private theorem Node.kindName_configure (saved : NodeRecord) (n : Node γ) :
    (n.configure saved).kind.name = n.kind.name := by
  unfold Node.configure
  cases n.kind <;> rfl

/-- Finishing a node keeps its label. -/
theorem Graph.label_finished {g : Graph γ} {n n' : Node γ} (h : g.finished n = .ok n') :
    n'.label = n.label := by
  unfold finished at h
  split at h
  · rename_i pending hkind
    split at h
    · cases h
      rfl
    · rcases Fault.bind_eq_ok_iff.1 h with ⟨places, -, h⟩
      split at h
      · cases h
        rfl
      · cases h
        simp [Node.label, Kind.name, hkind]
  · cases h
    rfl

end Label

/-- The label of a node and of the nodes inside it. -/
def Node.outline (n : Node Group) : Label × Option (List Label) :=
  (n.label, n.group?.map fun x => x.graph.nodes.map Node.label)

private theorem Node.label_onGroup (f : Subgraph → Subgraph) (n : Node Group) :
    (n.onGroup f).label = n.label := by
  cases hgroup : n.group? with
  | none => rw [Node.onGroup_of_none _ hgroup]
  | some x =>
    rw [Node.onGroup_of_group? _ hgroup]
    simp [Node.label, Kind.name, Node.kind_eq_of_group? hgroup]

private theorem Node.outline_patchDeep (reset : Bool) (n : Node Group) :
    (n.patchDeep reset).outline = n.outline := by
  have hpatch : (n.patch reset).group? = n.group? := rfl
  refine Prod.ext (Node.label_onGroup _ _) ?_
  simp only [outline, patchDeep, Node.group?_onGroup, hpatch, Option.map_map]
  refine congrArg (n.group?.map ·) (funext fun x => ?_)
  exact List.map_map

/-! ## One node for every entry -/

namespace Graph

variable {γ β : Type}

private theorem map_addNodes {build : SavedNode Document → Except Fault (Node γ)} {F : Node γ → β}
    {G : SavedNode Document → β} {g g' : Graph γ} {i : Nat} {entries : List (SavedNode Document)}
    (hbuild : ∀ saved ∈ entries, ∀ b, build saved = .ok b →
      F (b.configure saved.toNodeRecord) = G saved)
    (h : g.addNodes build i entries = .ok g') :
    g'.nodes.map F = g.nodes.map F ++ entries.map G := by
  induction entries generalizing g i with
  | nil =>
    cases h
    simp
  | cons saved entries ih =>
    rcases addNodes_cons h with ⟨-, b, hb, h⟩
    have hnodes : (g.addNode (b.configure saved.toNodeRecord)).nodes =
        g.nodes ++ [b.configure saved.toNodeRecord] := rfl
    rw [ih (fun s hs => hbuild s (List.mem_cons_of_mem saved hs)) h, hnodes, List.map_append,
      List.map_singleton, hbuild saved List.mem_cons_self b hb, List.append_assoc,
      List.singleton_append, List.map_cons]

/-- What can be read off an entry as well as off the node that is built from it. -/
theorem map_configure {build : SavedNode Document → Except Fault (Node γ)} {F : Node γ → β}
    {G : SavedNode Document → β} {g : Graph γ} {d : Document}
    (hbuild : ∀ saved ∈ d.nodes, ∀ b, build saved = .ok b →
      F (b.configure saved.toNodeRecord) = G saved)
    (h : configure build d = .ok g) : g.nodes.map F = d.nodes.map G := by
  rcases Fault.bind_eq_ok_iff.1 h with ⟨g₀, hlinks, h⟩
  have hempty : g₀.nodes = [] := nodes_addLinks hlinks
  rw [map_addNodes hbuild h, hempty]
  rfl

/-- Every entry of a graph that is configured has been built. -/
theorem exists_build_of_configure {build : SavedNode Document → Except Fault (Node γ)} {g : Graph γ}
    {d : Document} (h : configure build d = .ok g) :
    ∀ saved ∈ d.nodes, ∃ b, build saved = .ok b := by
  have hadd : ∀ (entries : List (SavedNode Document)) (g₀ : Graph γ) (i : Nat),
      g₀.addNodes build i entries = .ok g → ∀ saved ∈ entries, ∃ b, build saved = .ok b := by
    intro entries
    induction entries with
    | nil => exact fun _ _ _ saved hsaved => absurd hsaved List.not_mem_nil
    | cons first entries ih =>
      intro g₀ i h saved hsaved
      rcases addNodes_cons h with ⟨-, b, hb, h⟩
      rcases List.mem_cons.1 hsaved with rfl | hsaved
      · exact ⟨b, hb⟩
      · exact ih _ _ h saved hsaved
  rcases Fault.bind_eq_ok_iff.1 h with ⟨g₀, -, h⟩
  exact hadd d.nodes g₀ 0 h

/-- What finishing every node of a graph keeps of each. -/
theorem map_sweep {f : Graph γ → Node γ → Except Fault (Node γ)} {F : Node γ → β} {g g' : Graph γ}
    (hid : ∀ g n n', f g n = .ok n' → n'.id = n.id) (hids : (g.nodes.map (·.id)).Nodup)
    (hkeep : ∀ n ∈ g.nodes, ∀ h n', f h n = .ok n' → F n' = F n)
    (h : sweep f g (g.nodes.map (·.id)) = .ok g') : g'.nodes.map F = g.nodes.map F := by
  have hnodes : g.nodes = [] ++ g.nodes := rfl
  rcases (sweep_eq_ok_iff hid hnodes hids).1 h with ⟨ns, hswept, rfl⟩
  have hmap : ∀ (ns ns' : List (Node γ)), List.Forall₂ (fun n n' => ∃ h, f h n = .ok n') ns ns' →
      (∀ n ∈ ns, ∀ h n', f h n = .ok n' → F n' = F n) → ns'.map F = ns.map F := by
    intro ns ns' hforall hkeep
    induction hforall with
    | nil => rfl
    | @cons n n' ns ns' hn _ ih =>
      rcases hn with ⟨h, hn⟩
      rw [List.map_cons, List.map_cons, hkeep n List.mem_cons_self h n' hn,
        ih fun m hm => hkeep m (List.mem_cons_of_mem n hm)]
  exact hmap _ _ hswept.forall₂ hkeep

end Graph

/-! ## Labels of entries -/

/-- The name of the kind that nodes of a virtual type are of. -/
def VirtualKind.name : VirtualKind → String
  | reroute => "RerouteNode"
  | note => "NoteNode"
  | primitive => "PrimitiveNode"

private theorem VirtualKind.label_node {γ : Type} (kind : VirtualKind) (setup : NodeSetup)
    (type : String) : (kind.node setup type : Node γ).type = type ∧
      (kind.node setup type : Node γ).kind.name = kind.name := by
  cases kind <;> exact ⟨rfl, rfl⟩

namespace Registry

variable {r : Registry}

/-- The type that new nodes of a type show. -/
def typeOf (r : Registry) (type : String) : String :=
  if r.virtuals.has type then type else ((r.definitions.get? type).map (·.name)).getD type

/-- The kind of new nodes of a type; nodes of unknown type are placeholders. -/
def kindOf (r : Registry) (type : String) : String :=
  ((r.virtuals.get? type).map (·.kind.name)).getD
    (if r.definitions.has type then "GraphNode" else "MissingNode")

/-- The label of the node of an entry. -/
def labelOf (r : Registry) (saved : SavedNode Document) : Label where
  id := saved.id
  type := if saved.subgraph.isSome then saved.type else r.typeOf saved.type
  extra := saved.extra
  kind := if saved.subgraph.isSome then "GroupNode" else r.kindOf saved.type

/-- The labels of the node of an entry and of the nodes inside it. -/
def outlineOf (r : Registry) (saved : SavedNode Document) : Label × Option (List Label) :=
  (r.labelOf saved, saved.subgraph.map fun d => d.nodes.map r.labelOf)

/-- A type that is not known is shown as it is. -/
theorem typeOf_of_not_knows {type : String} (h : r.knows type = false) : r.typeOf type = type := by
  rw [knows, Bool.or_eq_false_iff, Table.has, Option.isSome_eq_false_iff, Option.isNone_iff_eq_none]
    at h
  simp [typeOf, h.1, h.2]

/-- Exactly the unknown types make placeholders. -/
theorem kindOf_eq_missing_iff {type : String} :
    r.kindOf type = "MissingNode" ↔ r.knows type = false := by
  have hhas : r.virtuals.has type = (r.virtuals.get? type).isSome := rfl
  rw [kindOf, knows, hhas]
  cases r.virtuals.get? type with
  | none => cases r.definitions.has type <;> decide
  | some v =>
    simp only [Option.map_some, Option.getD_some, Option.isSome_some, Bool.or_true]
    cases v.kind <;> decide

private theorem type_create {γ : Type} {type : String} {b : Node γ} (h : r.create {} type = .ok b) :
    b.type = r.typeOf type ∧ b.kind.name = r.kindOf type := by
  have hhas : r.virtuals.has type = (r.virtuals.get? type).isSome := rfl
  unfold create at h
  rw [typeOf, kindOf, hhas]
  cases hv : r.virtuals.get? type with
  | some v =>
    rw [hv] at h
    cases h
    exact VirtualKind.label_node v.kind {} type
  | none =>
    rw [hv] at h
    cases hd : r.definitions.get? type with
    | none =>
      simp only [hd] at h
      cases h
    | some d =>
      simp only [hd] at h
      rcases Fault.bind_eq_ok_iff.1 h with ⟨front, -, h⟩
      cases h
      rw [Table.has, hd]
      exact ⟨rfl, rfl⟩

private theorem type_buildSimple {γ : Type} {type : String} {b : Node γ}
    (h : r.buildSimple type = .ok b) : b.type = r.typeOf type ∧ b.kind.name = r.kindOf type := by
  unfold buildSimple at h
  split at h
  · split at h
    · cases h
    · exact type_create h
  · rename_i hknows
    cases h
    rw [Bool.not_eq_true] at hknows
    rw [typeOf_of_not_knows hknows, kindOf_eq_missing_iff.2 hknows]
    exact ⟨rfl, rfl⟩

private theorem label_configure_simple {γ : Type} {saved : SavedNode Document} {b : Node γ}
    (hnone : saved.subgraph = none) (h : r.buildSimple saved.type = .ok b) :
    (b.configure saved.toNodeRecord).label = r.labelOf saved := by
  rcases type_buildSimple h with ⟨htype, hkind⟩
  rw [Node.label, Node.kindName_configure, hkind, labelOf, hnone, ← htype]
  rfl

/-- Entries inside the group of an entry that is built are no groups. -/
theorem flat_of_build {saved : SavedNode Document} {b : Node Group} (h : r.build saved = .ok b)
    {d : Document} (hd : saved.subgraph = some d) : ∀ n ∈ d.nodes, n.subgraph = none := by
  intro n hn
  simp only [build, hd] at h
  split at h
  · cases h
  · rename_i hflat
    have hnot := List.any_eq_false.1 (Bool.not_eq_true _ ▸ hflat) n hn
    simpa using hnot

private theorem outline_build {saved : SavedNode Document} {b : Node Group}
    (h : r.build saved = .ok b) : (b.configure saved.toNodeRecord).outline = r.outlineOf saved := by
  have hgroup := group?_configure saved.toNodeRecord b
  cases hsub : saved.subgraph with
  | none =>
    simp only [build, hsub] at h
    rw [group?_buildSimple h] at hgroup
    rw [Node.outline, hgroup, label_configure_simple hsub h, outlineOf, hsub]
    rfl
  | some d =>
    have hflat := flat_of_build h hsub
    simp only [build, hsub] at h
    split at h
    · cases h
    · rcases Fault.bind_eq_ok_iff.1 h with ⟨inner, hinner, h⟩
      cases h
      have hlabels : inner.nodes.map Node.label = d.nodes.map r.labelOf :=
        Graph.map_configure (fun n hn _ hb => label_configure_simple (hflat n hn) hb) hinner
      rw [Node.outline, hgroup, outlineOf, labelOf, hsub]
      exact Prod.ext rfl (congrArg some hlabels)

private theorem outline_finishedDeep {g : Workflow} {n n' : Node Group}
    (hinner : ∀ x, n.group? = some x → (x.graph.nodes.map (·.id)).Nodup)
    (h : Workflow.finishedDeep g n = .ok n') : n'.outline = n.outline := by
  rcases Workflow.finishedDeep_cases h with ⟨hgroup, hnone, h⟩ | ⟨x, inner, hgroup, hfinish, rfl⟩
  · rw [Node.outline, Node.outline, Graph.label_finished h, hgroup, hnone]
  · rw [Graph.finishAll_eq_sweep] at hfinish
    have hlabels := Graph.map_sweep (fun _ _ _ => Graph.id_finished) (hinner x hgroup)
      (fun _ _ _ _ => Graph.label_finished) hfinish
    rw [Node.outline, Node.outline, Node.group?_onGroup, hgroup, Node.label_onGroup,
      Option.map_some, Option.map_some, hlabels, Option.map_some]

/-- The nodes of an assembled graph are as the entries of its document say. -/
theorem assemble_outlines {d : Document} {g : Workflow} (h : r.assemble d = .ok g) :
    g.nodes.map Node.outline = d.nodes.map r.outlineOf := by
  rcases Fault.bind_eq_ok_iff.1 h with ⟨g₀, hconfigured, hfinish⟩
  rcases Graph.configure_distinct hconfigured with ⟨hkeys, hbuilt⟩
  rw [Workflow.finish_eq_sweep] at hfinish
  rw [← Graph.map_configure (fun _ _ _ => outline_build) hconfigured]
  refine Graph.map_sweep (fun _ _ _ => Workflow.id_finishedDeep) hkeys.ids_nodup ?_ hfinish
  intro n hn _ _
  refine outline_finishedDeep fun x hx => ?_
  rcases hbuilt n hn with ⟨saved, -, b, hb, rfl⟩
  rw [group?_configure] at hx
  rcases build_group hb hx with ⟨_, -, hinner⟩
  exact (Graph.configure_distinct hinner).1.ids_nodup

/-- The nodes of a loaded graph are as the entries of its document say, once the names of their types
are those in use. -/
theorem load_outlines {source : LoadSource} {d : Document} (hread : source.read = .ok d)
    {g : Workflow} {missing : List MissingType} (hload : r.load source = .ok (g, missing)) :
    g.nodes.map Node.outline =
        d.nodes.map (fun saved => r.outlineOf (saved.normalize r.knows)) ∧
      missing = (d.normalize r.knows).2.map MissingType.ofEntry ∧
      ∀ saved ∈ d.nodes, ∀ inner, saved.subgraph = some inner → ∀ n ∈ inner.nodes,
        n.subgraph = none := by
  rcases load_eq_ok_iff.1 hload with ⟨_, g₀, hd, hassemble, rfl, rfl⟩
  cases hd.symm.trans hread
  have hnodes : (d.normalize r.knows).1.nodes = d.nodes.map (SavedNode.normalize r.knows) := by
    rw [Document.normalize_eq]
  refine ⟨?_, rfl, ?_⟩
  · have hlabels := assemble_outlines hassemble
    rw [hnodes, List.map_map] at hlabels
    rw [Workflow.patch_eq (assemble_distinctKeys hassemble).distinct, Graph.mapNodes, List.map_map]
    exact (List.map_congr_left fun n _ => Node.outline_patchDeep _ n).trans hlabels
  · intro saved hsaved inner hinner n hn
    rcases Fault.bind_eq_ok_iff.1 hassemble with ⟨g₁, hconfigured, -⟩
    have hmem : saved.normalize r.knows ∈ (d.normalize r.knows).1.nodes :=
      hnodes ▸ List.mem_map_of_mem hsaved
    rcases Graph.exists_build_of_configure hconfigured _ hmem with ⟨b, hb⟩
    have hsub : (saved.normalize r.knows).subgraph = some (inner.normalize r.knows).1 := by
      rw [Document.subgraph_normalize, hinner, Option.map_some]
    have hflat := flat_of_build hb hsub (n.normalize r.knows) (by
      rw [Document.normalize_eq]
      exact List.mem_map_of_mem hn)
    rwa [Document.subgraph_normalize, Option.map_eq_none_iff] at hflat

end Registry

end NodeFlow
