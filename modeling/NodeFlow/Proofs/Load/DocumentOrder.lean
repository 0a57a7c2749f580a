import NodeFlow.Proofs.Compile.Decision
import NodeFlow.Proofs.Compile.Reordered
import NodeFlow.Proofs.Editor.Idle
import NodeFlow.Proofs.Load.Rearranged

/-!
# The order of a document

The nodes and the links of a document stand in some order, and so do those of the groups in it.  The
order decides in which turn primitives take their widgets and push their values, which candidate the
planner comes to first and which step is built first.  None of it can be seen in a step: where the
document holds together, its steps, and the nodes on its circles, are those of every other order.

Main results:

- Structure `Workflow.IsTidy`: links and outputs of groups start at nodes that are there, primitives
  take nothing and share no widget, and sites have different keys; whether this is so can be decided.
- Theorem `Editor.graph_of_load`: the graph that a load leaves in an editor.
- Theorem `Editor.compile_rearranged`: documents in different orders compile to the same steps.
- Definition `Document.reversed`: a document in another order.
-/

namespace NodeFlow

/-! ## Tidy workflows -/

namespace Graph

variable {γ : Type} {g : Graph γ}

/-- The id finds a node of the graph. -/
def Names (g : Graph γ) (id : NodeId) : Prop := ∃ n, g.find? id = .ok (some n)

/-- Every link starts at an id, a number or a text, that finds a node, and not before its first
output. -/
def IsAnchored (g : Graph γ) : Prop :=
  ∀ l ∈ g.links, (∃ id, l.origin = id.toJson ∧ g.Names id) ∧ 0 ≤ l.originSlot.val

private theorem Names.not_refuses {id : NodeId} (h : g.Names id) : ¬ g.Refuses id.toJson := by
  rw [refuses_iff]
  rintro ⟨f, hf⟩
  rcases h with ⟨n, hn⟩
  rw [find?, hf] at hn
  cases hn

private theorem IsAnchored.of_holds (hanchored : g.IsAnchored) {l : Link} (hl : g.Holds l) :
    ¬ g.Refuses l.origin ∧ 0 ≤ l.originSlot.val := by
  rcases hl with ⟨n, -, slot, -, hlink⟩
  rcases Option.bind_eq_some_iff.1 hlink with ⟨k, -, hk⟩
  rcases hanchored l (List.mem_of_find?_eq_some hk) with ⟨⟨id, horigin, hnames⟩, hslot⟩
  rw [horigin]
  exact ⟨hnames.not_refuses, hslot⟩

end Graph

namespace Workflow

/-- Links and outputs of groups start at nodes that are there, primitives take nothing and share no
widget, and sites have different keys. -/
structure IsTidy (g : Workflow) : Prop extends PushesOnce g where
  keyed : Keyed g
  outer : Graph.IsAnchored g
  inner : ∀ n ∈ g.nodes, ∀ x, n.group? = some x → x.graph.IsAnchored
  exits : ∀ n ∈ g.nodes, ∀ x, n.group? = some x → ∀ port ∈ x.outputs, x.graph.Names port.node

variable {g : Workflow}

private theorem IsTidy.not_obstructed (htidy : IsTidy g) : ¬ Obstructed g := by
  intro h
  cases h with
  | origin hl h => exact (htidy.outer.of_holds hl).1 h
  | inside hhost hx hl h => exact ((htidy.inner _ hhost _ hx).of_holds hl).1 h
  | output hl hhost hx hmode h =>
    have hslot := (htidy.outer.of_holds hl).2
    omega
  | port hhost hx hmode hport h => exact (htidy.exits _ hhost _ hx _ hport).not_refuses h

private theorem PushesOnce.hasSources (honce : PushesOnce g) : HasSources g where
  outer n hn := honce.sources (.outer n) (mem_sites_outer.2 hn)
  inner n hn x hx m hm := honce.sources (.inner n x m) (mem_sites_inner.2 ⟨hn, hx, hm⟩)

end Workflow

/-! ### Decision -/

/-- The id that a value is. -/
def NodeId.ofJson? : Json → Option NodeId
  | .int n => some (.number n)
  | .str s => some (.name s)
  | _ => none

private theorem NodeId.ofJson?_eq_some_iff {v : Json} {id : NodeId} :
    ofJson? v = some id ↔ v = id.toJson := by
  constructor
  · intro h
    cases v <;> cases h <;> rfl
  · rintro rfl
    cases id <;> rfl

namespace Graph

variable {γ : Type}

instance (g : Graph γ) (id : NodeId) : Decidable (g.Names id) :=
  decidable_of_iff ((g.named? id.toJson).isSome = true) <| by
    rw [Option.isSome_iff_exists]
    exact exists_congr fun n => ⟨lookup?_of_named?, named?_of_lookup?⟩

private theorem isAnchored_iff {g : Graph γ} : g.IsAnchored ↔
    ∀ l ∈ g.links, (∃ id ∈ NodeId.ofJson? l.origin, g.Names id) ∧ 0 ≤ l.originSlot.val := by
  simp only [IsAnchored, Option.mem_def, NodeId.ofJson?_eq_some_iff]

instance (g : Graph γ) : Decidable g.IsAnchored := decidable_of_iff _ isAnchored_iff.symm

end Graph

namespace Workflow

variable {g : Workflow}

private theorem pushesOnce_iff : PushesOnce g ↔
    (∀ s ∈ sites g, s.isPrimitive = true → s.inputs.isEmpty = true) ∧
      ∀ p ∈ pushList g, ∀ q ∈ pushList g, p.2 = q.2 → p.1 = q.1 := by
  constructor
  · rintro ⟨hsources, hsingle⟩
    exact ⟨fun s hs hprimitive => List.isEmpty_iff.2 (hsources s hs hprimitive), single_iff.1 hsingle⟩
  · rintro ⟨hsources, hsingle⟩
    exact ⟨fun s hs hprimitive => List.isEmpty_iff.1 (hsources s hs hprimitive), single_iff.2 hsingle⟩

instance (g : Workflow) : Decidable (PushesOnce g) := decidable_of_iff _ pushesOnce_iff.symm

private theorem isTidy_iff : IsTidy g ↔ PushesOnce g ∧ Keyed g ∧ Graph.IsAnchored g ∧
    ∀ n ∈ g.nodes, ∀ x ∈ n.group?, x.graph.IsAnchored ∧
      ∀ port ∈ x.outputs, x.graph.Names port.node :=
  ⟨fun h => ⟨h.toPushesOnce, h.keyed, h.outer, fun n hn x hx =>
      ⟨h.inner n hn x hx, h.exits n hn x hx⟩⟩,
    fun h => ⟨h.1, h.2.1, h.2.2.1, fun n hn x hx => (h.2.2.2 n hn x hx).1,
      fun n hn x hx => (h.2.2.2 n hn x hx).2⟩⟩

instance (g : Workflow) : Decidable (IsTidy g) := decidable_of_iff _ isTidy_iff.symm

end Workflow

/-! ## Loads -/

namespace Editor

open Workflow

private theorem display_onlyOutside (entry : Trace.Entry) : (display entry).Within onlyOutside := by
  refine .bind .get fun e => ?_
  split
  · exact .pure _
  · split
    · exact .throw _
    · exact outward_onlyOutside _

private theorem showMissing_onlyOutside (missing : List MissingType) (nodesAdded : Bool) :
    (showMissing missing nodesAdded).Within onlyOutside := by
  unfold showMissing
  split
  · exact .pure _
  · exact display_onlyOutside _

/-- What an editor whose extensions do nothing holds after a load that came to something. -/
theorem graph_of_load {e e₁ : Editor} (hidle : ∀ x ∈ e.extensions, x.IsIdle) {source : LoadSource}
    {isClean : Bool} {l : Loaded} (h : (load source isClean).exec e = (.ok (some l), e₁)) :
    ∃ missing, e.registry.load source = .ok (e₁.graph, missing) ∧ e₁.settings = e.settings := by
  -- a clean load is a load of an editor that has been cleaned
  wlog hclean : isClean = false generalizing e isClean
  · rw [Bool.not_eq_false] at hclean
    subst hclean
    rw [exec_load_clean] at h
    exact this (e := { e with outputs := [], nodeErrors := none, executionError := none
                              running := none }) hidle h rfl
  subst hclean
  rcases exec_assemble hidle source with ⟨o, hassemble⟩
  simp only [load, Bool.false_eq_true, if_false, Act.exec_bind, Act.exec_attempt, hassemble] at h
  rcases hload : e.registry.load source with f | ⟨g, missing⟩
  · -- a load that is refused comes to nothing, and other failures are passed on
    rw [hload] at h
    split at h
    · rename_i hok
      cases hok
    · rcases Act.exec_bind_eq_ok_iff.1 h with ⟨_, _, -, h⟩
      rcases Act.exec_bind_eq_ok_iff.1 h with ⟨_, _, -, h⟩
      cases h
    · cases h
  · rw [hload] at h
    rcases Act.exec_bind_eq_ok_iff.1 h with ⟨_, _, hforget, h⟩
    rcases Act.exec_bind_eq_ok_iff.1 h with ⟨_, _, hreplace, h⟩
    cases hforget
    cases hreplace
    have hkept : { e₁ with outside := {} } =
        { e with loadError := none, graph := g, outside := {} } :=
      Act.Within.of_exec (D := onlyOutside) (.bind (showMissing_onlyOutside missing true) fun _ =>
        .bind (display_onlyOutside .redraw) fun _ => .pure _) h
    have hgraph : e₁.graph = g := congrArg Editor.graph hkept
    exact ⟨missing, by rw [hgraph], (congrArg Editor.settings hkept :)⟩

variable {e e' e₁ e₂ : Editor} {source source' : LoadSource} {d d' : Document}
  {isClean isClean' : Bool} {l l' : Loaded}

/-- Two documents that differ in the order of nodes and links only, also inside groups, and that two
editors with the same node types and settings, whose extensions do nothing, have loaded.  Then both
compile, to the same step under every key, or both have a circle, or both have an endless chain.  If
the nodes outside groups depend on each other in a circle, both name the same nodes. -/
theorem compile_rearranged (hidle : ∀ x ∈ e.extensions, x.IsIdle)
    (hidle' : ∀ x ∈ e'.extensions, x.IsIdle) (hregistry : e'.registry = e.registry)
    (hsettings : e'.settings = e.settings) (hread : source.read = .ok d)
    (hread' : source'.read = .ok d') (hresets : source'.resets = source.resets)
    (hsame : d.Rearranges d') (hlinks : d.HasDistinctLinks)
    (hload : (load source isClean).exec e = (.ok (some l), e₁))
    (hload' : (load source' isClean').exec e' = (.ok (some l'), e₂)) (htidy : IsTidy e₁.graph) :
    Prompt.Agree (compile.exec e₁).1 (compile.exec e₂).1 ∧
      (¬ Graph.Acyclic e₁.graph → ∃ ids ids', (compile.exec e₁).1 = .error (.cyclic ids) ∧
        (compile.exec e₂).1 = .error (.cyclic ids') ∧ ids'.Perm ids) := by
  rcases graph_of_load hidle hload with ⟨missing, hgraph, hkept⟩
  rcases graph_of_load hidle' hload' with ⟨missing', hgraph', hkept'⟩
  rw [hregistry] at hgraph'
  have hready := Registry.load_isReady hgraph
  have hready' := Registry.load_isReady hgraph'
  have hclear := htidy.not_obstructed
  have hlookups : SameLookups e₁.graph e₂.graph := Registry.load_rearranged hread hread' hresets hsame
    hlinks hgraph hgraph' htidy.hasSources
  refine ⟨compile_sameLookups hlookups hready hready' hclear htidy.keyed htidy.toPushesOnce
    (by rw [hkept, hkept', hsettings]), fun hcircle => ?_⟩
  rcases compile_circles hlookups hready hready' hclear hcircle with ⟨ids, ids', hperm, hids, hids'⟩
  exact ⟨ids, ids', hids, hids', hperm⟩

end Editor

/-! ## A document and its reverse -/

/-- The nodes and the links in reverse order, those of groups left alone. -/
def Document.flip (d : Document) : Document :=
  { d with nodes := d.nodes.reverse, links := d.links.reverse }

/-- The nodes and the links in reverse order, also inside groups. -/
def Document.reversed (d : Document) : Document :=
  { d with
    nodes := (d.nodes.map fun n => { n with subgraph := n.subgraph.map flip }).reverse
    links := d.links.reverse }

private theorem Document.rearranges_reversed (d : Document) : d.Rearranges d.reversed := by
  refine ⟨_, _, _, ?_, List.reverse_perm _, List.reverse_perm d.links, rfl⟩
  rw [List.forall₂_map_right_iff, List.forall₂_same]
  intro n _
  refine ⟨rfl, ?_⟩
  cases n.subgraph with
  | none => exact .none
  | some x => exact .some ⟨_, _, List.reverse_perm _, List.reverse_perm _, rfl⟩

/-- The editor that has loaded a document. -/
def Document.opened (d : Document) : Editor := ((Editor.load (.document d) true).exec {}).2

/-- A note with a primitive, and a group of two nodes before two more. -/
def braided : Document where
  nodes := [
    { id := .number 1, type := "PrimitiveNode", outputs := [{ name := "value", links := some [1] }]
      values := some [.str "hi"] },
    { id := .number 2, type := "Note", values := some [.str "hello"]
      inputs := [{ name := "text", link := some 1, widget := some [("name", .str "text")] }] },
    { id := .number 3, type := "Group", outputs := [{ name := "y", links := some [2, 3] }]
      groupOutputs := some [⟨.number 1, 0⟩]
      subgraph := some {
        nodes := [
          { id := .number 1, type := "Blend", outputs := [{ name := "y" }]
            inputs := [{ name := "a", link := some 1 }, { name := "b", link := some 2 }] },
          { id := .number 2, type := "Source", outputs := [{ name := "o", links := some [1, 2] }] }]
        links := [[.int 1, .int 2, .int 0, .int 1, .int 0, .str "*"],
          [.int 2, .int 2, .int 0, .int 1, .int 1, .str "*"]] } },
    { id := .number 4, type := "Sink", inputs := [{ name := "z", link := some 2 }] },
    { id := .number 5, type := "Sink", inputs := [{ name := "z", link := some 3 }] }]
  links := [[.int 1, .int 1, .int 0, .int 2, .int 0, .str "STRING"],
    [.int 2, .int 3, .int 0, .int 4, .int 0, .str "*"],
    [.int 3, .int 3, .int 0, .int 5, .int 0, .str "*"]]

/-- In reverse order, the document compiles to the same steps in another order. -/
theorem braided_compiles_reversed :
    braided.Rearranges braided.reversed ∧ braided.HasDistinctLinks ∧
    Workflow.IsTidy braided.opened.graph ∧
    Prompt.Agree (Editor.compile.exec braided.opened).1
      (Editor.compile.exec braided.reversed.opened).1 ∧
    (Editor.compile.exec braided.opened).1.toOption.map (·.output.names) =
      some ["3:2", "3:1", "4", "5"] ∧
    (Editor.compile.exec braided.reversed.opened).1.toOption.map (·.output.names) =
      some ["3:2", "3:1", "5", "4"] := by
  have hopens : ∀ d : Document,
      ((Editor.load (.document d) true).exec {}).1.toOption.join.isSome = true → ∃ l,
        (Editor.load (.document d) true).exec {} = (.ok (some l), d.opened) := by
    intro d h
    rcases hexec : (Editor.load (.document d) true).exec {} with ⟨f | l, e⟩
    · rw [hexec] at h
      cases h
    · rw [hexec] at h
      rcases Option.isSome_iff_exists.1 h with ⟨loaded, rfl : l = some loaded⟩
      exact ⟨loaded, by rw [Document.opened, hexec]⟩
  rcases hopens braided (by decide +kernel) with ⟨l, hload⟩
  rcases hopens braided.reversed (by decide +kernel) with ⟨l', hload'⟩
  have hlinks : braided.HasDistinctLinks := by
    refine ⟨by decide, fun n hn x hx => ?_⟩
    have hinner : ∀ n ∈ braided.nodes, ∀ x ∈ n.subgraph, (x.links.map linkNumber?).Nodup := by
      decide
    exact hinner n hn x hx
  have htidy : Workflow.IsTidy braided.opened.graph := by decide +kernel
  have hidle : ∀ x ∈ ({} : Editor).extensions, x.IsIdle := fun _ hx => absurd hx List.not_mem_nil
  have hread : ∀ d : Document, (LoadSource.document d).read = .ok d := fun _ => rfl
  have hagree := Editor.compile_rearranged hidle hidle (Eq.refl ({} : Editor).registry)
    (Eq.refl ({} : Editor).settings) (hread _) (hread _) (Eq.refl false) braided.rearranges_reversed
    hlinks hload hload' htidy
  exact ⟨braided.rearranges_reversed, hlinks, htidy, hagree.1, by decide +kernel, by decide +kernel⟩

end NodeFlow
