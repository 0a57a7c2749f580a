import Mathlib.Data.List.Nodup
import NodeFlow.Editor.Load
import NodeFlow.Proofs.Compile.Skeleton
import NodeFlow.Proofs.Numeral
import NodeFlow.Proofs.Outcome

/-!
# The names of loaded nodes

A node of a document is refused if a node in front of it can be looked up under its id.  A lookup
finds a number under its text and a text under its number, so the nodes that are taken in differ
not only by their ids but by the texts of their ids, in the workflow and inside each group.  What
follows the building of a graph leaves its names alone.

Main results:

- Definitions `Node.names` and `Workflow.names`: the ids of a workflow, those inside groups included.
- Definition `Workflow.DistinctKeys`: no two nodes of one graph have ids of the same text.
- Definition `Workflow.IsLoaded`: the workflows that loads come to.
- Theorem `Graph.key_ne_of_find?`: what a failed lookup says about the nodes of a graph.
- Theorem `Graph.addNodes_distinct`: taking in the nodes of a document.
- Theorem `Workflow.IsLoaded.distinctKeys`: loaded nodes have ids of different texts.
-/

namespace NodeFlow

/-- The images of entries stay different if one with a new image is added at the end. -/
theorem nodup_map_append_singleton {α β : Type} {f : α → β} {xs : List α} {x : α}
    (hxs : (xs.map f).Nodup) (hx : ∀ y ∈ xs, f y ≠ f x) : ((xs ++ [x]).map f).Nodup := by
  rw [List.map_append, List.map_singleton, ← List.concat_eq_append, List.nodup_concat, List.mem_map]
  exact ⟨fun ⟨y, hy, hsame⟩ => hx y hy hsame, hxs⟩

/-! ## Lookups -/

namespace Graph

variable {γ : Type} {g : Graph γ}

/-- A node of the graph carries no id under which none is found. -/
theorem ne_of_at?_eq_none {id : NodeId} (h : g.at? id = none) {n : Node γ} (hn : n ∈ g.nodes) :
    n.id ≠ id := by
  have hnone := List.find?_eq_none.1 h n hn
  simpa using hnone

/-- An id that finds nothing has been looked up in both spellings. -/
theorem find?_eq_none {id : NodeId} (h : g.find? id = .ok none) :
    g.at? id = none ∧ ∃ other, otherSpelling? id.toJson = .ok other ∧
      ∀ id', other = some id' → g.at? id' = none := by
  cases id <;>
  · simp only [find?, lookup?, NodeId.toJson, idOf?, Option.bind_some] at h
    split at h
    · cases h
    · rename_i hnone
      rcases Fault.bind_eq_ok_iff.1 h with ⟨other, hother, h⟩
      refine ⟨hnone, other, hother, ?_⟩
      rintro id' rfl
      exact Except.ok.inj h

/-- An id that finds nothing has another text than the ids of the nodes. -/
theorem key_ne_of_find? {id : NodeId} (h : g.find? id = .ok none) {n : Node γ}
    (hn : n ∈ g.nodes) : n.id.key ≠ id.key := by
  rcases find?_eq_none h with ⟨hsame, other, hother, hnone⟩
  have hne := ne_of_at?_eq_none hsame hn
  intro hkey
  cases hid : n.id with
  | number k =>
    cases id with
    | number k' =>
      rw [hid] at hkey hne
      exact hne (congrArg NodeId.number (eq_of_toString_eq hkey))
    | name s =>
      -- the text is that of a number, so the node of that number has been looked for
      have hs : s = toString k := by
        rw [hid] at hkey
        exact hkey.symm
      subst hs
      simp only [NodeId.toJson, otherSpelling?, Text.looksNumeric_toString, if_true] at hother
      cases hread : Fault.readWhole (toString k) with
      | error f =>
        rw [hread] at hother
        cases hother
      | ok m =>
        rw [hread, Fault.eq_of_readWhole_toString hread] at hother
        cases hother
        exact ne_of_at?_eq_none (hnone (.number k) rfl) hn hid
  | name s =>
    cases id with
    | number k =>
      have hs : s = toString k := by
        rw [hid] at hkey
        exact hkey
      subst hs
      cases hother
      exact ne_of_at?_eq_none (hnone (.name (toString k)) rfl) hn hid
    | name s' =>
      rw [hid] at hkey hne
      exact hne (congrArg NodeId.name hkey)

/-! ## Taking in the nodes of a document -/

/-- The keys of a graph differ from each other. -/
def KeysNodup (g : Graph γ) : Prop := (g.nodes.map (·.id.key)).Nodup

/-- Nodes with different keys have different ids. -/
theorem KeysNodup.ids_nodup (h : g.KeysNodup) : (g.nodes.map (·.id)).Nodup := by
  have hmap : (g.nodes.map (·.id)).map NodeId.key = g.nodes.map (·.id.key) := by
    rw [List.map_map]
    rfl
  exact List.Nodup.of_map NodeId.key (hmap ▸ h)

/-- The first entry is added where no node stands in its way, and the others behind it. -/
theorem addNodes_cons {build : SavedNode Document → Except Fault (Node γ)} {g g' : Graph γ}
    {i : Nat} {saved : SavedNode Document} {rest : List (SavedNode Document)}
    (h : g.addNodes build i (saved :: rest) = .ok g') :
    g.find? saved.id = .ok none ∧ ∃ n, build saved = .ok n ∧
      (g.addNode (n.configure saved.toNodeRecord)).addNodes build (i + 1) rest = .ok g' := by
  rw [addNodes] at h
  rcases Fault.bind_eq_ok_iff.1 h with ⟨found, hfound, h⟩
  cases found with
  | some n => cases h
  | none =>
    refine ⟨hfound, ?_⟩
    cases hbuild : build saved with
    | error f => simp [hbuild, throw, throwThe, MonadExceptOf.throw] at h
    | ok n => exact ⟨n, rfl, by simpa [hbuild] using h⟩

/-- Nodes that are taken in differ by their keys, and each of them is built from an entry. -/
theorem addNodes_distinct {build : SavedNode Document → Except Fault (Node γ)} {g g' : Graph γ}
    {i : Nat} {entries : List (SavedNode Document)} (h : g.addNodes build i entries = .ok g')
    (hg : g.KeysNodup) :
    g'.KeysNodup ∧ ∀ n ∈ g'.nodes, n ∈ g.nodes ∨
      ∃ saved ∈ entries, ∃ m, build saved = .ok m ∧ n = m.configure saved.toNodeRecord := by
  induction entries generalizing g i with
  | nil =>
    cases h
    exact ⟨hg, fun n hn => .inl hn⟩
  | cons saved entries ih =>
    rcases addNodes_cons h with ⟨hfind, m, hbuild, h⟩
    have hadded : (g.addNode (m.configure saved.toNodeRecord)).KeysNodup := by
      have hnodes : (g.addNode (m.configure saved.toNodeRecord)).nodes =
          g.nodes ++ [m.configure saved.toNodeRecord] := rfl
      rw [KeysNodup, hnodes]
      exact nodup_map_append_singleton hg fun n hn => key_ne_of_find? hfind hn
    rcases ih h hadded with ⟨hdistinct, hmem⟩
    refine ⟨hdistinct, ?_⟩
    intro n hn
    rcases hmem n hn with hold | ⟨saved', hsaved', built⟩
    · rcases List.mem_append.1 hold with hold | hnew
      · exact .inl hold
      · exact .inr ⟨saved, List.mem_cons_self, m, hbuild, List.mem_singleton.1 hnew⟩
    · exact .inr ⟨saved', List.mem_cons_of_mem saved hsaved', built⟩

/-- Adding links adds no nodes. -/
theorem nodes_addLinks {g g' : Graph γ} {i : Nat} {entries : List (List Json)}
    (h : g.addLinks i entries = .ok g') : g'.nodes = g.nodes := by
  induction entries generalizing g i with
  | nil =>
    cases h
    rfl
  | cons entry entries ih =>
    rcases Fault.bind_eq_ok_iff.1 h with ⟨l, -, h⟩
    rw [ih h, addLink]
    split <;> rfl

/-- The nodes of a configured graph differ by their keys, and each of them is built from an entry of
the document. -/
theorem configure_distinct {build : SavedNode Document → Except Fault (Node γ)} {g : Graph γ}
    {d : Document} (h : configure build d = .ok g) :
    g.KeysNodup ∧ ∀ n ∈ g.nodes,
      ∃ saved ∈ d.nodes, ∃ m, build saved = .ok m ∧ n = m.configure saved.toNodeRecord := by
  rcases Fault.bind_eq_ok_iff.1 h with ⟨linked, hlinked, h⟩
  have hnone : linked.nodes = [] := nodes_addLinks hlinked
  have hempty : linked.KeysNodup := by
    rw [KeysNodup, hnone]
    exact .nil
  rcases addNodes_distinct h hempty with ⟨hdistinct, hmem⟩
  refine ⟨hdistinct, ?_⟩
  intro n hn
  rcases hmem n hn with hold | built
  · rw [hnone] at hold
    cases hold
  · exact built

end Graph

/-! ## Names -/

/-- The id of a node and those of the nodes inside it. -/
def Node.names (n : Node Group) : NodeId × Option (List NodeId) :=
  (n.id, n.group?.map fun x => x.graph.nodes.map (·.id))

namespace Workflow

/-- The ids of a workflow, those inside groups included. -/
def names (g : Workflow) : List (NodeId × Option (List NodeId)) := g.nodes.map Node.names

/-- In the workflow and inside each group, the texts of ids differ. -/
structure DistinctKeys (g : Workflow) : Prop where
  outer : Graph.KeysNodup g
  inner : ∀ n ∈ g.nodes, ∀ group, n.group? = some group → group.graph.KeysNodup

variable {g g' : Workflow}

/-- Nodes with different keys have different ids, in the workflow and inside groups. -/
theorem DistinctKeys.distinct (h : DistinctKeys g) : Distinct g :=
  ⟨h.outer.ids_nodup, fun n hn group hgroup => (h.inner n hn group hgroup).ids_nodup⟩

private theorem distinctKeys_iff_names : DistinctKeys g ↔
    ((names g).map (·.1.key)).Nodup ∧
      ∀ e ∈ names g, ∀ ids, e.2 = some ids → (ids.map NodeId.key).Nodup := by
  have houter : (names g).map (·.1.key) = g.nodes.map (·.id.key) := by
    rw [names, List.map_map]
    rfl
  have hinner : ∀ x : Group, (x.graph.nodes.map (·.id)).map NodeId.key =
      x.graph.nodes.map (·.id.key) := by
    intro x
    rw [List.map_map]
    rfl
  rw [houter]
  constructor
  · intro h
    refine ⟨h.outer, ?_⟩
    intro e he ids hids
    rcases List.mem_map.1 he with ⟨n, hn, rfl⟩
    rcases Option.map_eq_some_iff.1 hids with ⟨x, hx, rfl⟩
    rw [hinner]
    exact h.inner n hn x hx
  · rintro ⟨hkeys, hgroups⟩
    refine ⟨hkeys, ?_⟩
    intro n hn group hgroup
    have hmem := hgroups n.names (List.mem_map_of_mem hn) _ (by rw [Node.names, hgroup]; rfl)
    rwa [hinner] at hmem

/-- Whether keys are distinct depends on the ids only. -/
theorem distinctKeys_of_names (h : names g' = names g) (hg : DistinctKeys g) : DistinctKeys g' :=
  distinctKeys_iff_names.2 (h ▸ distinctKeys_iff_names.1 hg)

/-- A change of a node that keeps its ids keeps those of the workflow. -/
theorem names_modifyNode {id : NodeId} {f : Node Group → Node Group}
    (h : ∀ n ∈ g.nodes, n.id = id → (f n).names = n.names) :
    names (Graph.modifyNode id f g) = names g := by
  rw [names, Graph.modifyNode, List.map_map]
  refine List.map_congr_left fun n hn => ?_
  by_cases hid : n.id = id
  · simp [hid, h n hn hid]
  · simp [hid]

private theorem names_modifyGroup {host : NodeId} {f : Subgraph → Subgraph}
    (h : ∀ n ∈ g.nodes, n.id = host → ∀ x, n.group? = some x →
      (f x.graph).nodes.map (·.id) = x.graph.nodes.map (·.id)) :
    names (modifyGroup host f g) = names g := by
  refine names_modifyNode fun n hn hid => ?_
  cases hkind : n.kind with
  | group x =>
    have hx := h n hn hid x (by rw [Node.group?, hkind])
    simp [Node.names, Node.group?, hkind, hx]
  | _ => rfl

/-- A change of a node that keeps its id keeps the ids of the graph. -/
theorem ids_modifyNode {γ : Type} {g : Graph γ} {id : NodeId} {f : Node γ → Node γ}
    (h : ∀ n ∈ g.nodes, n.id = id → (f n).id = n.id) :
    (g.modifyNode id f).nodes.map (·.id) = g.nodes.map (·.id) := by
  rw [Graph.modifyNode, List.map_map]
  refine List.map_congr_left fun n hn => ?_
  by_cases hid : n.id = id
  · simp [hid, h n hn hid]
  · simp [hid]

/-- Changing something else about the node at a place leaves the names alone. -/
theorem names_modifyAt {place : Place} {outer : Node Group → Node Group}
    {inner : Node Empty → Node Empty} (houter : ∀ n, (outer n).names = n.names)
    (hinner : ∀ n, (inner n).id = n.id) : names (modifyAt place outer inner g) = names g := by
  cases place with
  | outer id => exact names_modifyNode fun n _ _ => houter n
  | inner host id =>
    exact names_modifyGroup fun _ _ _ x _ => ids_modifyNode fun n _ _ => hinner n

end Workflow

/-! ## Finishing -/

namespace Graph

variable {γ : Type} {g g' : Graph γ}

/-- A finished node is the same node with other widgets and outputs. -/
theorem finished_cases {n n' : Node γ} (h : g.finished n = .ok n') :
    n' = n ∨ n'.id = n.id ∧ n'.group? = none ∧ n.group? = none := by
  unfold finished at h
  split at h
  · rename_i pending hkind
    split at h
    · cases h
      exact .inl rfl
    · rcases Fault.bind_eq_ok_iff.1 h with ⟨places, -, h⟩
      split at h
      · cases h
        exact .inl rfl
      · cases h
        exact .inr ⟨rfl, rfl, by rw [Node.group?, hkind]⟩
  · cases h
    exact .inl rfl

/-- Finishing a node keeps its id. -/
theorem id_finished {n n' : Node γ} (h : g.finished n = .ok n') : n'.id = n.id := by
  rcases finished_cases h with rfl | ⟨hid, -⟩
  · rfl
  · exact hid

/-- Finishing a node has nothing to do with what is inside it. -/
theorem group?_finished {n n' : Node γ} (h : g.finished n = .ok n') : n'.group? = n.group? := by
  rcases finished_cases h with rfl | ⟨-, hnone', hnone⟩
  · rfl
  · rw [hnone', hnone]

/-- Finishing a node that is not there does nothing, and otherwise puts the finished node in its
place. -/
theorem finishNode_cases {id : NodeId} (h : g.finishNode id = .ok g') :
    g' = g ∨ ∃ n n', g.at? id = some n ∧ g.finished n = .ok n' ∧
      g' = g.modifyNode id fun _ => n' := by
  unfold finishNode at h
  split at h
  · cases h
    exact .inl rfl
  · rename_i n hn
    rcases Fault.bind_eq_ok_iff.1 h with ⟨n', hn', h⟩
    cases h
    exact .inr ⟨n, n', hn, hn', rfl⟩

/-- Finishing a node keeps the ids of the graph. -/
theorem ids_finishNode {id : NodeId} (h : g.finishNode id = .ok g') :
    g'.nodes.map (·.id) = g.nodes.map (·.id) := by
  rcases finishNode_cases h with rfl | ⟨n, n', hn, hn', rfl⟩
  · rfl
  · have hid : n'.id = id := (id_finished hn').trans (id_of_at? hn)
    exact Workflow.ids_modifyNode fun m _ hm => hid.trans hm.symm

private theorem ids_finishAll {ids : List NodeId} (h : g.finishAll ids = .ok g') :
    g'.nodes.map (·.id) = g.nodes.map (·.id) := by
  induction ids generalizing g with
  | nil =>
    cases h
    rfl
  | cons id ids ih =>
    rcases Fault.bind_eq_ok_iff.1 h with ⟨g₁, hfirst, h⟩
    rw [ih h, ids_finishNode hfirst]

end Graph

namespace Workflow

variable {g g' : Workflow}

/-- Where nodes have different ids, the node of an id is the one that is found under it. -/
theorem eq_of_at? (hdistinct : (g.nodes.map (·.id)).Nodup) {id : NodeId} {n m : Node Group}
    (hn : Graph.at? g id = some n) (hm : m ∈ g.nodes) (hid : m.id = id) : m = n := by
  subst hid
  exact Option.some.inj ((Graph.at?_of_mem hdistinct hm).symm.trans hn)

/-- Finishing a node keeps all ids, those inside groups included. -/
theorem names_finishNode (hdistinct : (g.nodes.map (·.id)).Nodup) {id : NodeId}
    (h : Graph.finishNode g id = .ok g') : names g' = names g := by
  rcases Graph.finishNode_cases h with rfl | ⟨n, n', hn, hn', rfl⟩
  · rfl
  · refine names_modifyNode fun m hm hid => ?_
    rw [eq_of_at? hdistinct hn hm hid]
    rw [Node.names, Node.names, Graph.id_finished hn', Graph.group?_finished hn']

/-- The ids of the nodes themselves, without those inside groups. -/
theorem ids_names (g : Workflow) : (names g).map (·.1) = g.nodes.map (·.id) := by
  rw [names, List.map_map]
  rfl

/-- Finishing a node and what is inside it keeps all ids. -/
theorem names_finishDeep (hdistinct : (g.nodes.map (·.id)).Nodup) {id : NodeId}
    (h : finishDeep g id = .ok g') : names g' = names g := by
  rcases Fault.bind_eq_ok_iff.1 h with ⟨g₁, hfirst, h⟩
  have hnames := names_finishNode hdistinct hfirst
  have hdistinct₁ : (g₁.nodes.map (·.id)).Nodup := by
    rw [← ids_names, hnames, ids_names]
    exact hdistinct
  rw [← hnames]
  split at h
  · cases h
    rfl
  · rename_i group hgroup
    rcases Fault.bind_eq_ok_iff.1 h with ⟨inner, hinner, h⟩
    cases h
    rcases Option.bind_eq_some_iff.1 hgroup with ⟨n, hn, hgroup⟩
    refine names_modifyGroup fun m hm hid x hx => ?_
    rw [eq_of_at? hdistinct₁ hn hm hid, hgroup] at hx
    cases hx
    exact Graph.ids_finishAll hinner

/-- Finishing nodes one by one keeps all ids. -/
theorem names_finishEach (hdistinct : (g.nodes.map (·.id)).Nodup) {ids : List NodeId}
    (h : finishEach g ids = .ok g') : names g' = names g := by
  induction ids generalizing g with
  | nil =>
    cases h
    rfl
  | cons id ids ih =>
    rcases Fault.bind_eq_ok_iff.1 h with ⟨g₁, hfirst, h⟩
    have hnames := names_finishDeep hdistinct hfirst
    rw [← hnames]
    refine ih ?_ h
    rw [← ids_names, hnames, ids_names]
    exact hdistinct

end Workflow

/-! ## Building -/

namespace Registry

variable {r : Registry}

/-- A node that is simply built is no group. -/
theorem group?_buildSimple {γ : Type} {type : String} {n : Node γ}
    (h : r.buildSimple type = .ok n) : n.group? = none := by
  unfold buildSimple at h
  split at h
  · split at h
    · cases h
    · unfold create at h
      split at h
      · rename_i v _
        cases h
        unfold VirtualKind.node
        cases v.kind <;> rfl
      · split at h
        · rcases Fault.bind_eq_ok_iff.1 h with ⟨front, -, h⟩
          cases h
          rfl
        · cases h
  · cases h
    rfl

/-- A group is configured from the document of its entry. -/
theorem build_group {saved : SavedNode Document} {n : Node Group} (h : r.build saved = .ok n)
    {group : Group} (hgroup : n.group? = some group) :
    ∃ d, saved.subgraph = some d ∧
      Graph.configure (fun inner => r.buildSimple inner.type) d = .ok group.graph := by
  unfold build at h
  split at h
  · rw [group?_buildSimple h] at hgroup
    cases hgroup
  · rename_i d hsubgraph
    split at h
    · cases h
    · rcases Fault.bind_eq_ok_iff.1 h with ⟨inner, hinner, h⟩
      cases h
      cases hgroup
      exact ⟨d, hsubgraph, hinner⟩

/-- Taking on a saved state keeps what is inside a group. -/
theorem group?_configure (saved : NodeRecord) (n : Node Group) :
    (n.configure saved).group? = n.group? := by
  unfold Node.configure Node.group?
  cases n.kind <;> rfl

/-- The nodes of a configured workflow differ by their keys, and so do those inside each group. -/
theorem configure_distinctKeys {d : Document} {g : Workflow}
    (h : Graph.configure r.build d = .ok g) : Workflow.DistinctKeys g := by
  rcases Graph.configure_distinct h with ⟨houter, hbuilt⟩
  refine ⟨houter, ?_⟩
  intro n hn group hgroup
  rcases hbuilt n hn with ⟨saved, -, m, hm, rfl⟩
  rw [group?_configure] at hgroup
  rcases build_group hm hgroup with ⟨d', -, hinner⟩
  exact (Graph.configure_distinct hinner).1

/-- The nodes of an assembled graph differ by their keys. -/
theorem assemble_distinctKeys {d : Document} {g : Workflow} (h : r.assemble d = .ok g) :
    Workflow.DistinctKeys g := by
  rcases Fault.bind_eq_ok_iff.1 h with ⟨g₀, hconfigured, h⟩
  have hkeys := configure_distinctKeys hconfigured
  exact Workflow.distinctKeys_of_names
    (Workflow.names_finishEach hkeys.distinct.outer h) hkeys

/-- A load assembles the document under the type names in use, and patches the graph. -/
theorem load_eq_ok_iff {source : LoadSource} {g : Workflow} {missing : List MissingType} :
    r.load source = .ok (g, missing) ↔ ∃ d g₀, source.read = .ok d ∧
      r.assemble (d.normalize r.knows).1 = .ok g₀ ∧ g = Workflow.patch source.resets g₀ ∧
      missing = (d.normalize r.knows).2.map MissingType.ofEntry := by
  rw [load, Fault.bind_eq_ok_iff]
  constructor
  · rintro ⟨d, hread, h⟩
    rcases Fault.bind_eq_ok_iff.1 h with ⟨g₀, hassemble, h⟩
    cases h
    exact ⟨d, g₀, hread, hassemble, rfl, rfl⟩
  · rintro ⟨d, g₀, hread, hassemble, rfl, rfl⟩
    exact ⟨d, hread, Fault.bind_eq_ok_iff.2 ⟨g₀, hassemble, rfl⟩⟩

end Registry

/-! ## After building -/

namespace Workflow

/-- Replacing names at one place keeps all ids. -/
theorem names_patchAt (reset : Bool) (g : Workflow) (place : Place) :
    names (patchAt reset g place) = names g := names_modifyAt (fun _ => rfl) fun _ => rfl

/-- Replacing names keeps all ids. -/
theorem names_patch (reset : Bool) (g : Workflow) : names (patch reset g) = names g := by
  have hfold : ∀ (places : List Place) (g : Workflow),
      names (places.foldl (patchAt reset) g) = names g := by
    intro places
    induction places with
    | nil => exact fun _ => rfl
    | cons place places ih => exact fun g => (ih _).trans (names_patchAt reset g place)
  exact hfold _ g

end Workflow

namespace Editor

open Workflow

private theorem names_offerNode {g g' : Workflow} {place : Place} {e e' : Editor}
    (h : (offerNode g place).exec e = (.ok g', e')) : names g' = names g := by
  unfold offerNode at h
  split at h
  · rcases Act.exec_bind_eq_ok_iff.1 h with ⟨answer, u, -, h⟩
    split at h
    · cases h
      exact names_modifyAt (fun _ => rfl) fun _ => rfl
    · cases h
      rfl
  · cases h
    rfl

/-- Settling the nodes of a loaded workflow keeps all ids. -/
theorem names_settleNodes {reset : Bool} {g g' : Workflow} {places : List Place} {e e' : Editor}
    (h : (settleNodes reset g places).exec e = (.ok g', e')) : names g' = names g := by
  induction places generalizing g e with
  | nil =>
    cases h
    rfl
  | cons place places ih =>
    rcases Act.exec_bind_eq_ok_iff.1 h with ⟨g₁, u, hfirst, h⟩
    rw [ih h, names_offerNode hfirst, names_patchAt]

/-- A load in an editor assembles the document that its extensions leave, and offers them the nodes
of the graph. -/
theorem exists_assembled {source : LoadSource} {e e' : Editor} {g : Workflow}
    {missing : List MissingType} (h : (assemble source).exec e = (.ok (g, missing), e')) :
    ∃ d d' given e₁ g₀ e₂, (offerDocument d).exec e = (.ok (d', given), e₁) ∧
      e₁.registry.assemble (d'.normalize e₁.registry.knows).1 = .ok g₀ ∧
      (settleNodes source.resets g₀ ((sites g₀).map (·.place))).exec e₁ = (.ok g, e₂) ∧
      missing = (given ++ (d'.normalize e₁.registry.knows).2).map MissingType.ofEntry := by
  rcases Act.exec_bind_eq_ok_iff.1 h with ⟨d, _, hread, h⟩
  rcases Act.exec_lift_eq_ok_iff.1 hread with ⟨-, rfl⟩
  rcases Act.exec_bind_eq_ok_iff.1 h with ⟨⟨d', given⟩, e₁, hoffered, h⟩
  rcases Act.exec_bind_eq_ok_iff.1 h with ⟨_, _, hget, h⟩
  cases hget
  rcases Act.exec_bind_eq_ok_iff.1 h with ⟨g₀, _, hlift, h⟩
  rcases Act.exec_lift_eq_ok_iff.1 hlift with ⟨hassembled, rfl⟩
  rcases Act.exec_bind_eq_ok_iff.1 h with ⟨g₁, e₂, hsettled, h⟩
  rcases Act.exec_bind_eq_ok_iff.1 h with ⟨_, _, -, h⟩
  cases h
  exact ⟨d, d', given, e₁, g₀, e₂, hoffered, hassembled, hsettled, rfl⟩

/-- What extensions may do to a document that is loaded does not repeat a key either. -/
theorem assemble_distinctKeys {source : LoadSource} {e e' : Editor} {g : Workflow}
    {missing : List MissingType} (h : (assemble source).exec e = (.ok (g, missing), e')) :
    DistinctKeys g := by
  rcases exists_assembled h with ⟨_, _, _, _, g₀, _, -, hassembled, hsettled, -⟩
  exact distinctKeys_of_names (names_settleNodes hsettled) (Registry.assemble_distinctKeys hassembled)

end Editor

/-! ## Loaded workflows -/

/-- A load comes to this workflow: on its own, or in an editor with its extensions. -/
inductive Workflow.IsLoaded : Workflow → Prop
  | alone {r : Registry} {source : LoadSource} {g : Workflow} {missing : List MissingType}
      (h : r.load source = .ok (g, missing)) : IsLoaded g
  | inEditor {e e' : Editor} {source : LoadSource} {g : Workflow} {missing : List MissingType}
      (h : (Editor.assemble source).exec e = (.ok (g, missing), e')) : IsLoaded g

/-- The nodes of a loaded workflow have ids of different texts, and so have the nodes inside each
group. -/
theorem Workflow.IsLoaded.distinctKeys {g : Workflow} (h : IsLoaded g) : DistinctKeys g := by
  cases h with
  | alone h =>
    rcases Registry.load_eq_ok_iff.1 h with ⟨_, g₀, -, hassembled, rfl, -⟩
    exact distinctKeys_of_names (names_patch _ g₀) (Registry.assemble_distinctKeys hassembled)
  | inEditor h => exact Editor.assemble_distinctKeys h

end NodeFlow
