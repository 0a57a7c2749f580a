import NodeFlow.Proofs.Compile.RespellingCompile
import NodeFlow.Proofs.Load.Entries

/-!
# Loading respelled documents

In a document, links name nodes at both ends, and a group names the inner nodes behind its inputs and
its outputs.  A name is the id of a node or its other spelling, the numeral of a number or the number
of a numeral.  Loading keeps the spelling, and compiling does not depend on it, except at the inputs
of groups.

Main results:

- Definition `Document.asText`: the document with numerals in place of the numbers that name nodes, but
  for the inputs of groups.
- Theorem `Registry.load_asText`: the load of such a document.
- Theorem `Registry.compile_respelledDocument`: documents that differ in the spelling of references
  compile to the same output.
- Theorem `piped_loses`: an input of a group whose respelling changes the output.
-/

namespace NodeFlow

/-! ## Links -/

/-- The entry of a link with numerals at its ends. -/
def Link.entryAsText (entry : List Json) : List Json :=
  (entry.modify 1 Json.asText).modify 3 Json.asText

/-- The link of an entry has the spelling of the entry. -/
theorem Link.ofJson_entryAsText (entry : List Json) (location : String) :
    ofJson (.arr (entryAsText entry)) location = (ofJson (.arr entry) location).map asText := by
  rcases entry with _ | ⟨a, _ | ⟨b, _ | ⟨c, _ | ⟨d, _ | ⟨e, rest⟩⟩⟩⟩⟩
  · rfl
  · rfl
  · rfl
  · rfl
  · rfl
  · have hparts : ∀ b d, parts? (.arr (a :: b :: c :: d :: e :: rest)) =
        some (a :: b :: c :: d :: e :: rest) := by
      intro b d
      simp [parts?]
    have hentry : entryAsText (a :: b :: c :: d :: e :: rest) =
        a :: b.asText :: c :: d.asText :: e :: rest := rfl
    rw [ofJson, ofJson, hentry, hparts, hparts]
    dsimp only
    cases Whole.ofJson? a with
    | none => rfl
    | some id =>
      cases Whole.ofJson? c with
      | none => rfl
      | some originSlot =>
        cases Whole.ofJson? e with
        | none => rfl
        | some targetSlot =>
          simp only [Json.isNull_asText]
          split <;> rfl

/-! ## Documents -/

/-- The record with numerals behind the outputs of a group. -/
def NodeRecord.asText (n : NodeRecord) : NodeRecord :=
  { n with groupOutputs := n.groupOutputs.map (List.map PortRef.asText) }

mutual
/-- The document with numerals in place of the numbers that name nodes.  What stands behind the inputs
of groups keeps its spelling. -/
def Document.asText : Document → Document
  | ⟨lastNodeId, lastLinkId, nodes, links, groups, config, extraData, version, extra⟩ =>
    ⟨lastNodeId, lastLinkId, Document.nodesAsText nodes, links.map Link.entryAsText, groups, config,
      extraData, version, extra⟩

/-- Nodes with numerals inside them. -/
def Document.nodesAsText : List (SavedNode Document) → List (SavedNode Document)
  | [] => []
  | ⟨n, some d⟩ :: rest => ⟨n.asText, some d.asText⟩ :: Document.nodesAsText rest
  | ⟨n, none⟩ :: rest => ⟨n.asText, none⟩ :: Document.nodesAsText rest
end

/-- The node with numerals inside it. -/
def SavedNode.asText (n : SavedNode Document) : SavedNode Document :=
  ⟨n.toNodeRecord.asText, n.subgraph.map Document.asText⟩

namespace Document

private theorem nodesAsText_eq (ns : List (SavedNode Document)) :
    nodesAsText ns = ns.map SavedNode.asText := by
  induction ns with
  | nil => rw [nodesAsText, List.map_nil]
  | cons n ns ih =>
    rcases n with ⟨n, _ | d⟩ <;>
    · rw [nodesAsText, List.map_cons, ← ih]
      rfl

private theorem asText_eq (d : Document) : d.asText =
    { d with nodes := d.nodes.map SavedNode.asText, links := d.links.map Link.entryAsText } := by
  cases d
  rw [asText, nodesAsText_eq]

variable (knows : String → Bool)

mutual
/-- Type names have nothing to do with the spelling of ids. -/
theorem normalize_asText (d : Document) :
    d.asText.normalize knows = ((d.normalize knows).1.asText, (d.normalize knows).2) := by
  cases d with
  | mk lastNodeId lastLinkId nodes links groups config extraData version extra =>
    rw [asText, normalize, normalize, normalizeNodes_asText nodes, asText]

/-- Normalizing entries and writing ids as texts can change places. -/
theorem normalizeNodes_asText (ns : List (SavedNode Document)) :
    normalizeNodes knows (nodesAsText ns) =
      (nodesAsText (normalizeNodes knows ns).1, (normalizeNodes knows ns).2) := by
  cases ns with
  | nil => rfl
  | cons n ns =>
    cases n with
    | mk n subgraph =>
      cases subgraph with
      | none =>
        have htype : n.asText.type = n.type := rfl
        rw [nodesAsText, normalizeNodes, normalizeNodes, normalizeNodes_asText ns, htype]
        dsimp only
        split
        · rw [nodesAsText]
          rfl
        · rw [nodesAsText]
          rfl
      | some d =>
        rw [nodesAsText, normalizeNodes, normalizeNodes, normalize_asText d,
          normalizeNodes_asText ns, nodesAsText]
end

end Document

/-! ## Building -/

namespace Graph

variable {γ : Type} (ψ : γ → γ)

private theorem putLink_asText (l : Link) (g : Graph γ) :
    (g.asText ψ).putLink l.asText = (g.putLink l).asText ψ := by
  have hany : (g.links.map Link.asText).any (fun m => m.id.val == l.id.val) =
      g.links.any fun m => m.id.val == l.id.val := by
    rw [List.any_map]
    rfl
  have hlinks : (g.asText ψ).links = g.links.map Link.asText := rfl
  have hid : l.asText.id = l.id := rfl
  rw [putLink, putLink, hlinks, hid, hany]
  split
  · have hmap : ((g.links.map Link.asText).map fun m => if m.id.val = l.id.val then l.asText else m) =
        (g.links.map fun m => if m.id.val = l.id.val then l else m).map Link.asText := by
      rw [List.map_map, List.map_map]
      refine List.map_congr_left fun m _ => ?_
      have hsame : m.asText.id = m.id := rfl
      simp only [Function.comp, hsame]
      split <;> rfl
    rw [hmap]
    rfl
  · have happend : g.links.map Link.asText ++ [l.asText] = (g.links ++ [l]).map Link.asText := by
      rw [List.map_append, List.map_singleton]
    rw [happend]
    rfl

private theorem addLink_asText (l : Link) (g : Graph γ) :
    (g.asText ψ).addLink l.asText = (g.addLink l).asText ψ := by
  have hlast : ((g.putLink l).asText ψ).lastLinkId = (g.putLink l).lastLinkId := rfl
  have hid : l.asText.id = l.id := rfl
  rw [addLink, addLink, putLink_asText, hlast, hid]
  split <;> rfl

private theorem addLinks_asText (g : Graph γ) (i : Nat) (entries : List (List Json)) :
    (g.asText ψ).addLinks i (entries.map Link.entryAsText) =
      (g.addLinks i entries).map (asText ψ) := by
  induction entries generalizing g i with
  | nil => rfl
  | cons entry entries ih =>
    rw [List.map_cons, addLinks, addLinks, Link.ofJson_entryAsText]
    cases Link.ofJson (.arr entry) ("links." ++ toString i) with
    | error f => rfl
    | ok l =>
      have hrest := ih (g.addLink l) (i + 1)
      rw [← addLink_asText] at hrest
      exact hrest

private theorem configure_mapGroup (saved : SavedNode Document) (n : Node γ) :
    (n.mapGroup ψ).configure saved.asText.toNodeRecord =
      (n.configure saved.toNodeRecord).mapGroup ψ := by
  have hkind : (n.kind.mapGroup ψ).remember saved.values =
      (n.kind.remember saved.values).mapGroup ψ := by
    cases n.kind <;> rfl
  unfold Node.mapGroup Node.configure
  rw [← hkind]
  rfl

private theorem addNode_asText (n : Node γ) (g : Graph γ) :
    (g.asText ψ).addNode (n.mapGroup ψ) = (g.addNode n).asText ψ := by
  have hnodes : g.nodes.map (Node.mapGroup ψ) ++ [n.mapGroup ψ] =
      (g.nodes ++ [n]).map (Node.mapGroup ψ) := by rw [List.map_append, List.map_singleton]
  rw [addNode, addNode, asText, asText, ← hnodes]
  rfl

variable {ψ} {build : SavedNode Document → Except Fault (Node γ)}
  (hbuild : ∀ saved, build saved.asText = (build saved).map (Node.mapGroup ψ))

include hbuild

private theorem addNodes_asText (g : Graph γ) (i : Nat) (entries : List (SavedNode Document)) :
    (g.asText ψ).addNodes build i (entries.map SavedNode.asText) =
      (g.addNodes build i entries).map (asText ψ) := by
  induction entries generalizing g i with
  | nil => rfl
  | cons saved entries ih =>
    have hid : saved.asText.id = saved.id := rfl
    rw [List.map_cons, addNodes, addNodes, hid, find?, lookup?_asText, ← find?, hbuild]
    cases g.find? saved.id with
    | error f => rfl
    | ok found =>
      cases found with
      | some n => rfl
      | none =>
        cases build saved with
        | error f => rfl
        | ok n =>
          have hrest := ih (g.addNode (n.configure saved.toNodeRecord)) (i + 1)
          rw [← addNode_asText, ← configure_mapGroup] at hrest
          exact hrest

/-- Building keeps the spelling. -/
theorem configure_asText (d : Document) :
    configure build d.asText = (configure build d).map (asText ψ) := by
  obtain ⟨empty, hempty⟩ : ∃ g : Graph γ, g =
    { lastNodeId := d.lastNodeId, lastLinkId := .number d.lastLinkId, groups := d.groups
      config := d.config, extra := d.extraData, version := d.version } := ⟨_, rfl⟩
  have hself : empty.asText ψ = empty := by rw [hempty]; rfl
  have hlinks := addLinks_asText ψ empty 0 d.links
  rw [hself] at hlinks
  rw [d.asText_eq, configure, configure]
  dsimp only
  rw [← hempty, hlinks]
  cases empty.addLinks 0 d.links with
  | error f => rfl
  | ok g => exact addNodes_asText hbuild g 0 d.nodes

end Graph

/-! ## Groups -/

private theorem Node.mapGroup_of_none {γ : Type} {n : Node γ} (h : n.group? = none) (ψ : γ → γ) :
    n.mapGroup ψ = n := by
  have hkind : n.kind.mapGroup ψ = n.kind := by
    rw [group?] at h
    cases hkind : n.kind with
    | group x =>
      rw [hkind] at h
      cases h
    | plain | missing | reroute | note | primitive => rfl
  rw [mapGroup, hkind]

namespace Registry

variable (r : Registry)

private theorem buildSimple_mapGroup {γ : Type} (ψ : γ → γ) (type : String) :
    (r.buildSimple type).map (Node.mapGroup ψ) = r.buildSimple type := by
  cases hbuilt : r.buildSimple (γ := γ) type with
  | error f => rfl
  | ok n => exact congrArg Except.ok (Node.mapGroup_of_none (group?_buildSimple hbuilt) ψ)

private theorem build_asText (saved : SavedNode Document) :
    r.build saved.asText = (r.build saved).map Node.asText := by
  have hsubgraph : saved.asText.subgraph = saved.subgraph.map Document.asText := rfl
  have htype : saved.asText.type = saved.type := rfl
  have hid : saved.asText.id = saved.id := rfl
  rw [build, build, hsubgraph, htype, hid]
  cases saved.subgraph with
  | none => exact (r.buildSimple_mapGroup Group.asText saved.type).symm
  | some d =>
    have hnested : d.asText.nodes.any (·.subgraph.isSome) = d.nodes.any (·.subgraph.isSome) := by
      rw [d.asText_eq, List.any_map]
      refine congrArg (List.any d.nodes) (funext fun n => ?_)
      exact Option.isSome_map
    have hgraph : Graph.configure (fun inner => r.buildSimple (γ := Empty) inner.type) d.asText =
        (Graph.configure (fun inner => r.buildSimple inner.type) d).map (Graph.asText id) :=
      Graph.configure_asText (fun inner => (r.buildSimple_mapGroup id inner.type).symm) d
    simp only [Option.map_some, hnested]
    split
    · rfl
    · rw [hgraph]
      cases Graph.configure (fun inner => r.buildSimple (γ := Empty) inner.type) d with
      | error f => rfl
      | ok graph =>
        have houtputs : saved.asText.groupOutputs.getD [] =
            (saved.groupOutputs.getD []).map PortRef.asText := by
          have hsaved : saved.asText.groupOutputs =
            saved.groupOutputs.map (List.map PortRef.asText) := rfl
          rw [hsaved]
          cases saved.groupOutputs <;> rfl
        simp only [Except.map, bind, Except.bind, pure, Except.pure, houtputs]
        rfl

end Registry

/-! ## Finishing -/

namespace Workflow

variable {g : Workflow}

private theorem finishDeep_asText (h : DistinctKeys g) (host : NodeId) :
    finishDeep g.asText host = (finishDeep g host).map asText := by
  rw [finishDeep, finishDeep, Graph.finishNode_asText _ h.outer]
  cases hfirst : Graph.finishNode g host with
  | error f => rfl
  | ok g₁ =>
    have h₁ : DistinctKeys g₁ :=
      distinctKeys_of_names (names_finishNode h.distinct.outer hfirst) h
    have hgroup : (Graph.at? (asText g₁) host).bind (·.group?) =
        ((Graph.at? g₁ host).bind (·.group?)).map Group.asText := by
      rw [Graph.at?_asText]
      cases Graph.at? g₁ host with
      | none => rfl
      | some n => exact n.group?_mapGroup _
    simp only [Except.map, bind, Except.bind, hgroup]
    cases hx : (Graph.at? g₁ host).bind (·.group?) with
    | none => rfl
    | some x =>
      obtain ⟨n, hn, hgroup⟩ := Option.bind_eq_some_iff.1 hx
      have hkeys := h₁.inner n (Graph.mem_of_at? hn) x hgroup
      have hinner : x.asText.graph.finishAll (x.asText.graph.nodes.map (·.id)) =
          (x.graph.finishAll (x.graph.nodes.map (·.id))).map (Graph.asText id) := by
        have hnodes : x.asText.graph.nodes = x.graph.nodes := Subgraph.nodes_asText x.graph
        rw [hnodes]
        exact Graph.finishAll_asText id hkeys _
      simp only [Option.map_some, hinner]
      cases x.graph.finishAll (x.graph.nodes.map (·.id)) with
      | error f => rfl
      | ok inner => exact congrArg Except.ok (putInner_asText g₁ host inner)

private theorem finishEach_asText (h : DistinctKeys g) (hosts : List NodeId) :
    finishEach g.asText hosts = (finishEach g hosts).map asText := by
  induction hosts generalizing g with
  | nil => rfl
  | cons host hosts ih =>
    rw [finishEach, finishEach, finishDeep_asText h]
    cases hfirst : finishDeep g host with
    | error f => rfl
    | ok g₁ => exact ih (distinctKeys_of_names (names_finishDeep h.distinct.outer hfirst) h)

/-! ## Patching -/

private theorem patchAt_asText (reset : Bool) (g : Workflow) (place : Place) :
    patchAt reset g.asText place = (patchAt reset g place).asText := by
  cases place with
  | outer id =>
    refine Graph.modifyNode_asText _ (fun n => ?_) g id
    rfl
  | inner host i =>
    refine modifyGroup_asText (fun x => ?_) g host
    refine Graph.modifyNode_asText id (fun n => ?_) x i
    rfl

private theorem sites_asText (g : Workflow) : sites g.asText = (sites g).map Site.asText := by
  have hnodes : g.asText.nodes = g.nodes.map Node.asText := rfl
  rw [sites, sites, hnodes, List.flatMap_map, List.map_flatMap]
  refine congrArg (List.flatMap · g.nodes) (funext fun n => ?_)
  rw [List.map_cons, Node.group?_mapGroup]
  cases n.group? with
  | none => rfl
  | some x =>
    have hinner : x.asText.graph.nodes = x.graph.nodes := Subgraph.nodes_asText x.graph
    simp only [Option.map_some, hinner, List.map_map]
    rfl

private theorem patch_asText (reset : Bool) (g : Workflow) :
    patch reset g.asText = (patch reset g).asText := by
  have hplaces : (sites g.asText).map (·.place) = (sites g).map (·.place) := by
    rw [sites_asText, List.map_map]
    exact List.map_congr_left fun s _ => s.place_asText
  have hfold : ∀ (places : List Place) (g : Workflow),
      places.foldl (patchAt reset) g.asText = (places.foldl (patchAt reset) g).asText := by
    intro places
    induction places with
    | nil => exact fun _ => rfl
    | cons place places ih =>
      intro g
      rw [List.foldl_cons, List.foldl_cons, patchAt_asText, ih]
  rw [patch, patch, hplaces, hfold]

end Workflow

namespace Registry

private theorem assemble_asText (r : Registry) (d : Document) :
    r.assemble d.asText = (r.assemble d).map Workflow.asText := by
  rw [assemble, assemble, Graph.configure_asText r.build_asText]
  cases hconfigured : Graph.configure r.build d with
  | error f => rfl
  | ok g =>
    have hfinish : Workflow.finish (Workflow.asText g) = (Workflow.finish g).map Workflow.asText := by
      have hids : (Workflow.asText g).nodes.map (·.id) = g.nodes.map (·.id) := Graph.ids_asText _ g
      rw [Workflow.finish, hids]
      exact Workflow.finishEach_asText (configure_distinctKeys hconfigured) _
    exact hfinish

/-- Loading keeps the spelling. -/
theorem load_asText (r : Registry) (d : Document) :
    r.load (.document d.asText) = (r.load (.document d)).map (Prod.map Workflow.asText id) := by
  rw [load, load]
  simp only [LoadSource.read, bind, Except.bind, Document.normalize_asText, assemble_asText]
  cases r.assemble (d.normalize r.knows).1 with
  | error f => rfl
  | ok g =>
    have hpatch := Workflow.patch_asText (LoadSource.resets (.document d)) g
    exact congrArg (fun h => Except.ok (h, _)) hpatch

/-- Two documents that have the same numerals, so that they differ in the spelling of references at
most, but not at the inputs of groups.  If one of them loads, so does the other, with the same report.
If, whatever else the editor holds, the graph of one compiles, so does that of the other, to the same
output: the same steps in the same order with the same inputs. -/
theorem compile_respelledDocument {r : Registry} {d d' : Document} (hsame : d'.asText = d.asText)
    {g : Workflow} {missing : List MissingType}
    (hload : r.load (.document d) = .ok (g, missing)) :
    ∃ g', r.load (.document d') = .ok (g', missing) ∧
      ∀ (e e₁ : Editor) (p : Prompt), Editor.compile.exec { e with graph := g } = (.ok p, e₁) →
        ∃ p' e₂, Editor.compile.exec { e with graph := g' } = (.ok p', e₂) ∧ p'.output = p.output := by
  have hloads : (r.load (.document d')).map (Prod.map Workflow.asText id) =
      .ok (Workflow.asText g, missing) := by
    rw [← load_asText, hsame, load_asText, hload]
    rfl
  obtain ⟨⟨g', missing'⟩, hload', hpair⟩ := Fault.map_eq_ok_iff.1 hloads
  obtain ⟨hgraph, rfl⟩ := Prod.mk.inj hpair
  refine ⟨g', hload', fun e e₁ p hcompile => ?_⟩
  -- both compilations come to what that of the graph with numerals comes to
  have hkeys := (Workflow.IsLoaded.alone hload).distinctKeys
  have hkeys' := (Workflow.IsLoaded.alone hload').distinctKeys
  have hnumerals := Editor.compile_respelled (e := { e with graph := g }) ⟨rfl, hkeys⟩
  have hnumerals' := Editor.compile_respelled (e := { e with graph := g' }) ⟨rfl, hkeys'⟩
  dsimp only at hnumerals hnumerals'
  rw [hgraph, hnumerals, hcompile] at hnumerals'
  obtain ⟨p', hp', houtput⟩ := Fault.map_eq_ok_iff.1 hnumerals'.symm
  exact ⟨p', _, Prod.ext hp' rfl, houtput⟩

end Registry

/-! ## The inputs of groups -/

/-- The references of the steps that a document compiles to, if it loads and compiles. -/
def Document.references? (d : Document) : Option (Table (Table Reference)) := do
  let (g, _) ← (Registry.load {} (.document d)).toOption
  let p ← (Editor.compile.exec { graph := g }).1.toOption
  pure (p.output.map fun m => (m.1, m.2.references))

/-- A document with a group between two nodes: the group at the end of the first link and at the origin
of the second one, and the node inside it behind its input and behind its output. -/
def piped (target origin : Json) (entry exit : NodeId) : Document where
  nodes := [
    { id := .number 2, type := "Source", outputs := [{ name := "o", links := some [1] }] },
    { id := .number 1, type := "Group", inputs := [{ name := "i", link := some 1 }]
      outputs := [{ name := "o", links := some [2] }]
      groupInputs := some [⟨entry, 0⟩], groupOutputs := some [⟨exit, 0⟩]
      subgraph := some
        { nodes := [{ id := .number 1, type := "Relay", inputs := [{ name := "x" }]
                      outputs := [{ name := "y" }] }] } },
    { id := .number 3, type := "Sink", inputs := [{ name := "z", link := some 2 }] }]
  links := [[.int 1, .int 2, .int 0, target, .int 0, .str "*"],
    [.int 2, origin, .int 0, .int 3, .int 0, .str "*"]]

private theorem piped_asText {target target' origin origin' : Json} (entry : NodeId)
    {exit exit' : NodeId}
    (htarget : target'.asText = target.asText) (horigin : origin'.asText = origin.asText)
    (hexit : exit'.asText = exit.asText) :
    (piped target' origin' entry exit').asText = (piped target origin entry exit).asText := by
  rw [Document.asText_eq, Document.asText_eq]
  simp only [piped, List.map_cons, List.map_nil, Link.entryAsText, SavedNode.asText, NodeRecord.asText,
    PortRef.asText, Option.map_some, Option.map_none, hexit]
  simp [htarget, horigin]

/-- With all but the input of the group spelled as a text, the document compiles to what it does with
everything spelled as a number. -/
theorem piped_respelled :
    (piped (.str "1") (.str "1") (.number 1) (.name "1")).asText =
      (piped (.int 1) (.int 1) (.number 1) (.number 1)).asText ∧
    ∃ g missing p e₁ g' p' e₂,
      Registry.load {} (.document (piped (.int 1) (.int 1) (.number 1) (.number 1))) =
        .ok (g, missing) ∧
      Editor.compile.exec { graph := g } = (.ok p, e₁) ∧
      Registry.load {} (.document (piped (.str "1") (.str "1") (.number 1) (.name "1"))) =
        .ok (g', missing) ∧
      Editor.compile.exec { graph := g' } = (.ok p', e₂) ∧ p'.output = p.output := by
  have hreadable : IsReadable 1 := by decide +kernel
  have hone : (Json.str "1").asText = (Json.int 1).asText :=
    Json.asText_eq_iff.2 (.inr ⟨1, hreadable, .inl ⟨rfl, rfl⟩⟩)
  have hexit : (NodeId.name "1").asText = (NodeId.number 1).asText := by
    rw [NodeId.asText, NodeId.asText, if_pos hreadable]
    rfl
  have hsame := piped_asText (.number 1) hone hone hexit
  have hruns : (piped (.int 1) (.int 1) (.number 1) (.number 1)).references?.isSome = true := by
    decide +kernel
  rw [Document.references?] at hruns
  cases hload : Registry.load {} (.document (piped (.int 1) (.int 1) (.number 1) (.number 1))) with
  | error f =>
    rw [hload] at hruns
    cases hruns
  | ok loaded =>
    obtain ⟨g, missing⟩ := loaded
    rcases hcompile : Editor.compile.exec { graph := g } with ⟨f | p, e₁⟩
    · simp [hload, hcompile, Except.toOption] at hruns
    · obtain ⟨g', hload', hcompiles⟩ := Registry.compile_respelledDocument hsame hload
      obtain ⟨p', e₂, hcompile', houtput⟩ := hcompiles {} e₁ p hcompile
      exact ⟨hsame, g, missing, p, e₁, g', p', e₂, rfl, hcompile, hload', hcompile', houtput⟩

/-- If the id behind the input of the group is spelled as a text, the step inside has no reference. -/
theorem piped_loses :
    (piped (.int 1) (.int 1) (.number 1) (.number 1)).references? =
      some [("2", []), ("1:1", [("x", ⟨"2", 0⟩)]), ("3", [("z", ⟨"1:1", 0⟩)])] ∧
    (piped (.int 1) (.int 1) (.name "1") (.number 1)).references? =
      some [("2", []), ("1:1", []), ("3", [("z", ⟨"1:1", 0⟩)])] := by
  decide +kernel

end NodeFlow
