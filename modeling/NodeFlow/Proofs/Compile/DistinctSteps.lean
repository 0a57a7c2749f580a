import NodeFlow.Proofs.Compile.References
import NodeFlow.Proofs.Load.Names

/-!
# The keys of a prompt

A step stands under the text of the id of its site, and a step under a key that is taken already is
written over the one that was there.  In a loaded workflow the ids of nodes differ by their texts,
and so do those of the nodes inside a group.  A node inside a group is named by the id of the group,
a colon and its own id; it meets another node under this name only if an id of the workflow begins
with the id of a group and a colon, and nothing keeps the ids of documents from doing so.

Main results:

- Definition `Workflow.Unclaimed`: no id of the workflow begins like one inside a group.
- Theorem `Workflow.nodup_keys_expanded`: the keys of a workflow of that kind differ.
- Theorem `Editor.compile_distinctSteps`: the keys of the prompt of a loaded workflow.
- Theorem `claimed_overwrites`: a loaded workflow of two emitted nodes and one step.
-/

namespace NodeFlow

open Workflow

/-! ## Keys inside groups -/

/-- The characters of the id of an inner node. -/
theorem NodeId.toList_key_within (group inner : NodeId) :
    (group.within inner).key.toList = group.key.toList ++ ':' :: inner.key.toList := by
  simp [within]

private theorem Site.toList_key_inner (host : Node Group) (group : Group) (n : Node Empty) :
    (Site.inner host group n).id.key.toList = host.id.key.toList ++ ':' :: n.id.key.toList :=
  NodeId.toList_key_within _ _

private theorem NodeId.key_within_injective {group inner inner' : NodeId}
    (h : (group.within inner).key = (group.within inner').key) : inner.key = inner'.key := by
  have hlist := congrArg String.toList h
  rw [toList_key_within, toList_key_within] at hlist
  exact String.toList_inj.1 (List.cons.inj (List.append_cancel_left hlist)).2

/-- Of two texts that become the same by a colon and something behind it, one begins with the other
and a colon, unless they are the same already. -/
theorem begins_of_append_colon {a b i j : List Char} (h : a ++ ':' :: i = b ++ ':' :: j) :
    a = b ∨ (a ++ [':']) <+: b ∨ (b ++ [':']) <+: a := by
  have hhead : ∀ {t k l : List Char}, t ≠ [] → t ++ ':' :: k = ':' :: l → [':'] <+: t := by
    intro t k l ht heq
    cases t with
    | nil => exact absurd rfl ht
    | cons c t =>
      rw [(List.cons.inj heq).1]
      exact ⟨t, rfl⟩
  rcases List.append_eq_append_iff.1 h with ⟨t, rfl, ht⟩ | ⟨t, rfl, ht⟩
  · by_cases hempty : t = []
    · exact .inl (by simp [hempty])
    · exact .inr (.inl ((List.prefix_append_right_inj a).2 (hhead hempty ht.symm)))
  · by_cases hempty : t = []
    · exact .inl (by simp [hempty])
    · exact .inr (.inr ((List.prefix_append_right_inj b).2 (hhead hempty ht.symm)))

namespace Workflow

/-- No id of the workflow begins with the id of a group that is taken apart and a colon. -/
def Unclaimed (g : Workflow) : Prop :=
  ∀ host ∈ g.nodes, host.isSkipped = false → host.group?.isSome = true →
    ∀ n ∈ g.nodes, ¬ (host.id.key.toList ++ [':']) <+: n.id.key.toList

/-- A node stands for itself, or it is a group and stands for the nodes inside it. -/
theorem behind_cases (n : Node Group) :
    behind n = [.outer n] ∨ ∃ group, n.isSkipped = false ∧ n.group? = some group ∧
      behind n = group.graph.nodes.map (Site.inner n group) := by
  unfold behind
  split
  · exact .inl rfl
  · rename_i hactive
    cases hgroup : n.group? with
    | none => exact .inl rfl
    | some group => exact .inr ⟨group, by simpa using hactive, rfl, rfl⟩

private theorem nodup_keys_behind {n : Node Group}
    (hinner : ∀ group, n.group? = some group → group.graph.KeysNodup) :
    ((behind n).map (·.id.key)).Nodup := by
  rcases behind_cases n with hbehind | ⟨group, -, hgroup, hbehind⟩
  · rw [hbehind]
    exact List.nodup_singleton _
  · rw [hbehind, List.map_map]
    have hnodup : (group.graph.nodes.map (·.id.key)).Nodup := hinner group hgroup
    refine List.Nodup.map_on (fun m hm m' hm' hkey => ?_) hnodup.of_map
    exact List.inj_on_of_nodup_map hnodup hm hm' (NodeId.key_within_injective hkey)

/-- Different nodes of such a workflow stand for sites of different keys. -/
theorem disjoint_keys_behind {g : Workflow} (h : Unclaimed g) {n m : Node Group}
    (hn : n ∈ g.nodes) (hm : m ∈ g.nodes) (hne : n.id.key ≠ m.id.key) :
    List.Disjoint ((behind n).map (·.id.key)) ((behind m).map (·.id.key)) := by
  intro key hkey hkey'
  rcases List.mem_map.1 hkey with ⟨s, hs, rfl⟩
  rcases List.mem_map.1 hkey' with ⟨t, ht, heq⟩
  have hlist := congrArg String.toList heq
  rcases behind_cases n with hbehind | ⟨group, hactive, hgroup, hbehind⟩ <;>
    rcases behind_cases m with hbehind' | ⟨group', hactive', hgroup', hbehind'⟩ <;>
      rw [hbehind] at hs <;> rw [hbehind'] at ht
  · rw [List.mem_singleton.1 hs, List.mem_singleton.1 ht] at heq
    exact hne heq.symm
  · rcases List.mem_map.1 ht with ⟨i, -, rfl⟩
    rw [List.mem_singleton.1 hs, Site.toList_key_inner] at hlist
    refine h m hm hactive' (by rw [hgroup']; rfl) n hn ⟨i.id.key.toList, ?_⟩
    rw [List.append_assoc]
    exact hlist
  · rcases List.mem_map.1 hs with ⟨i, -, rfl⟩
    rw [List.mem_singleton.1 ht, Site.toList_key_inner] at hlist
    refine h n hn hactive (by rw [hgroup]; rfl) m hm ⟨i.id.key.toList, ?_⟩
    rw [List.append_assoc]
    exact hlist.symm
  · rcases List.mem_map.1 hs with ⟨i, -, rfl⟩
    rcases List.mem_map.1 ht with ⟨j, -, rfl⟩
    rw [Site.toList_key_inner, Site.toList_key_inner] at hlist
    rcases begins_of_append_colon hlist with hsame | hbegins | hbegins
    · exact hne (String.toList_inj.1 hsame.symm)
    · exact h m hm hactive' (by rw [hgroup']; rfl) n hn hbegins
    · exact h n hn hactive (by rw [hgroup]; rfl) m hm hbegins

/-- The sites that such a workflow stands for have different keys. -/
theorem nodup_keys_expanded {g : Workflow} (hkeys : DistinctKeys g) (h : Unclaimed g) :
    ((expanded g).map (·.id.key)).Nodup := by
  rw [expanded, List.map_flatMap, List.nodup_flatMap]
  refine ⟨fun n hn => nodup_keys_behind (hkeys.inner n hn), ?_⟩
  have hdiffer : g.nodes.Pairwise fun n m => n.id.key ≠ m.id.key := List.pairwise_map.1 hkeys.outer
  exact hdiffer.imp_of_mem fun hn hm hne => disjoint_keys_behind h hn hm hne

private theorem nodup_keys_emitted {g : Workflow} (hkeys : DistinctKeys g) (h : Unclaimed g) :
    ((emitted g).map (·.id.key)).Nodup :=
  (nodup_keys_expanded hkeys h).sublist (List.filter_sublist.map _)

end Workflow

/-! ## The steps of a prompt -/

/-- The keys of a prompt of a loaded workflow.  The nodes of the workflow have different keys, and so
have the nodes inside each group.  The keys of the prompt are those of the emitted sites, each once.
If no id begins with the id of a group and a colon, all of them are different: there are as many
steps as emitted sites, and every one of these has its own step. -/
theorem Editor.compile_distinctSteps {e e' : Editor} {p : Prompt} (hloaded : IsLoaded e.graph)
    (h : compile.exec e = (.ok p, e')) :
    DistinctKeys e.graph ∧
    p.output.names.Perm ((emitted e.graph).map (·.id.key)).dedup ∧
    (Unclaimed e.graph →
      ((emitted e.graph).map (·.id.key)).Nodup ∧
      p.output.length = (emitted e.graph).length ∧
      ∀ s ∈ emitted e'.graph, ∃ m,
        s.IsBuilt e'.graph e'.settings.maxHops e'.settings.devMode m ∧
        p.output.get? s.id.key = some (m.2.keep p.output)) := by
  have hkeys := hloaded.distinctKeys
  rcases exists_sites_of_compile hkeys.distinct h with
    ⟨hskeleton, built, steps, hperm, -, hbuilt, houtput⟩
  have hsame : (built.map (·.id.key)).Perm ((emitted e.graph).map (·.id.key)) := by
    rw [← keys_emitted_of_skeleton_eq hskeleton]
    exact hperm.map _
  have hnames : p.output.names.Perm ((emitted e.graph).map (·.id.key)).dedup := by
    rw [houtput, Output.prune_names]
    refine (Table.names_update_perm steps).trans ?_
    rw [names_of_isBuilt hbuilt]
    exact hsame.dedup
  refine ⟨hkeys, hnames, ?_⟩
  intro hunclaimed
  have hnodup := nodup_keys_emitted hkeys hunclaimed
  have hnodup' : (built.map (·.id.key)).Nodup := hsame.nodup_iff.2 hnodup
  rw [hnodup.dedup] at hnames
  refine ⟨hnodup, ?_, ?_⟩
  · have hlength := hnames.length_eq
    simpa [Table.names] using hlength
  · intro s hs
    rcases exists_step_of_mem hbuilt hnodup' (hperm.mem_iff.2 hs) with ⟨m, hget, hsbuilt⟩
    refine ⟨m, hsbuilt, ?_⟩
    rw [houtput, update_of_isBuilt hbuilt hnodup', hget, Output.keep_prune]

/-- A node of some id beside a group of the id 2 with a node of the id 1 inside. -/
def besideGroup (id : NodeId) : Document where
  nodes := [
    { id := id, type := "Sampler" },
    { id := .number 2, type := "Group", groupInputs := some [], groupOutputs := some [],
      subgraph := some { nodes := [{ id := .number 1, type := "Decoder" }] } }]

/-- The editor with the graph of this document. -/
def loadedBeside (id : NodeId) : Editor where
  graph := ((Registry.load {} (.document (besideGroup id))).toOption.map (·.1)).getD {}

/-- An id that begins with the id of the group, but without a colon behind it, takes no key away. -/
theorem loadedBeside_distinctSteps :
    IsLoaded (loadedBeside (.name "21")).graph ∧ Unclaimed (loadedBeside (.name "21")).graph ∧
      ∃ p e', Editor.compile.exec (loadedBeside (.name "21")) = (.ok p, e') ∧
        p.output.length = (emitted (loadedBeside (.name "21")).graph).length := by
  have hload : ∃ missing, Registry.load {} (.document (besideGroup (.name "21"))) =
      .ok ((loadedBeside (.name "21")).graph, missing) := ⟨_, rfl⟩
  have hloaded : IsLoaded (loadedBeside (.name "21")).graph := .alone hload.choose_spec
  have hunclaimed : Unclaimed (loadedBeside (.name "21")).graph := by
    unfold Unclaimed
    decide
  obtain ⟨p, e', hcompile⟩ : ∃ p e', Editor.compile.exec (loadedBeside (.name "21")) = (.ok p, e') :=
    ⟨_, _, rfl⟩
  obtain ⟨-, hlength, -⟩ := (Editor.compile_distinctSteps hloaded hcompile).2.2 hunclaimed
  exact ⟨hloaded, hunclaimed, p, e', hcompile, hlength⟩

/-- A document that loads and compiles.  The outer node and the node inside the group are both
emitted, under one key, and only the step of the latter is left. -/
theorem claimed_overwrites :
    ∃ g missing p e', Registry.load {} (.document (besideGroup (.name "2:1"))) = .ok (g, missing) ∧
      Editor.compile.exec { graph := g } = (.ok p, e') ∧
      (emitted g).map (fun s => (s.id.key, s.type)) = [("2:1", "Sampler"), ("2:1", "Decoder")] ∧
      p.output.map (fun m => (m.1, m.2.className)) = [("2:1", "Decoder")] :=
  ⟨_, _, _, _, rfl, rfl, rfl, rfl⟩

end NodeFlow
