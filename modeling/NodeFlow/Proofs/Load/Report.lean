import NodeFlow.Proofs.Load.Outline

/-!
# The report of missing types

A load reports the nodes whose type is unknown, in the order of the sites of the graph.  A type is
looked up twice, under its name in use when it is reported and under its clean name when its node is
built, so a node that is reported can still turn out to be of a known type.

Main results:

- Definition `Document.entries`: the entries of a document in the order of the sites.
- Theorem `Document.missing_normalize`: the report, read off the entries.
- Theorem `Registry.load_report`: the report of a load beside the sites of the graph.
- Theorem `bracketed_reported`: a node that is reported although its graph holds no placeholder.
-/

namespace NodeFlow

namespace Site

/-- The name of the kind of the node. -/
def kindName : Site → String
  | outer n => n.kind.name
  | inner _ _ n => n.kind.name

/-- Whether the node is shown as faulty. -/
def hasErrors : Site → Bool
  | outer n => n.hasErrors
  | inner _ _ n => n.hasErrors

/-- The label of the node. -/
def label : Site → Label
  | outer n => n.label
  | inner _ _ n => n.label

private theorem label_eq (s : Site) :
    s.label.id = s.place.node ∧ s.label.type = s.type ∧ s.label.kind = s.kindName := by
  cases s <;> exact ⟨rfl, rfl, rfl⟩

/-- Exactly the placeholders are shown as faulty. -/
theorem hasErrors_eq (s : Site) : s.hasErrors = (s.kindName == "MissingNode") := by
  have hkind : ∀ {γ : Type} (n : Node γ), n.hasErrors = (n.kind.name == "MissingNode") := by
    intro γ n
    unfold Node.hasErrors
    cases n.kind <;> rfl
  cases s with
  | outer n => exact hkind n
  | inner host x n => exact hkind n

end Site

private theorem Workflow.labels_sites (g : Workflow) :
    (sites g).map Site.label = (g.nodes.map Node.outline).flatMap fun o => o.1 :: o.2.getD [] := by
  rw [sites, List.map_flatMap, List.flatMap_map]
  refine congrArg (List.flatMap · g.nodes) (funext fun n => ?_)
  rw [List.map_cons, Node.outline]
  cases n.group? with
  | none => rfl
  | some x =>
    rw [List.map_map, Option.map_some, Option.getD_some]
    rfl

/-! ## Entries -/

/-- The entries of a document, and behind the entry of a group those inside it. -/
def Document.entries (d : Document) : List (SavedNode Document) :=
  d.nodes.flatMap fun n => n :: (n.subgraph.map (·.nodes)).getD []

namespace Registry

/-- Whether the type of an entry is reported. -/
def reports (r : Registry) (saved : SavedNode Document) : Bool :=
  saved.subgraph.isNone && !r.knows (currentType saved.type)

/-- The type under which the node of an entry is built. -/
def builtType (r : Registry) (saved : SavedNode Document) : String :=
  if r.knows (currentType saved.type) then currentType saved.type
  else sanitize (currentType saved.type)

/-- What is reported about an entry. -/
def reportOf (saved : SavedNode Document) : MissingType :=
  ⟨currentType saved.type, sanitize (currentType saved.type), .null⟩

end Registry

namespace Document

variable {r : Registry}

/-- The report on nodes that are no groups. -/
theorem missing_normalizeNodes {ns : List (SavedNode Document)}
    (hflat : ∀ n ∈ ns, n.subgraph = none) :
    (normalizeNodes r.knows ns).2 =
      ((ns.filter r.reports).map fun n => MissingEntry.known (Registry.reportOf n)) := by
  induction ns with
  | nil => rfl
  | cons n ns ih =>
    have ih := ih fun m hm => hflat m (List.mem_cons_of_mem n hm)
    rcases n with ⟨n, _ | d⟩
    · rw [normalizeNodes, List.filter_cons]
      cases hknows : r.knows (currentType n.type) with
      | true => simp [Registry.reports, hknows, ih]
      | false => simp [Registry.reports, Registry.reportOf, hknows, ih]
    · cases hflat _ List.mem_cons_self

private theorem missing_normalizeNodes_deep {ns : List (SavedNode Document)}
    (hflat : ∀ n ∈ ns, ∀ inner, n.subgraph = some inner → ∀ m ∈ inner.nodes, m.subgraph = none) :
    (normalizeNodes r.knows ns).2 =
      (((ns.flatMap fun n => n :: (n.subgraph.map (·.nodes)).getD []).filter r.reports).map
        fun n => MissingEntry.known (Registry.reportOf n)) := by
  induction ns with
  | nil => rfl
  | cons n ns ih =>
    have ih := ih fun m hm => hflat m (List.mem_cons_of_mem n hm)
    rw [List.flatMap_cons, List.filter_append, List.map_append, ← ih]
    rcases n with ⟨n, _ | d⟩
    · rw [normalizeNodes]
      cases hknows : r.knows (currentType n.type) with
      | true => simp [Registry.reports, hknows]
      | false => simp [Registry.reports, Registry.reportOf, hknows]
    · have hinner := missing_normalizeNodes (r := r) (hflat _ List.mem_cons_self d rfl)
      have hgroup : r.reports ⟨n, some d⟩ = false := rfl
      simp only [normalizeNodes, normalize_report, hinner, List.filter_cons, hgroup, Option.map_some,
        Option.getD_some, Bool.false_eq_true, if_false]

end Document

/-- The report on a document in which no node inside a group is a group. -/
theorem Document.missing_normalize {r : Registry} {d : Document}
    (hflat : ∀ n ∈ d.nodes, ∀ inner, n.subgraph = some inner → ∀ m ∈ inner.nodes,
      m.subgraph = none) :
    (d.normalize r.knows).2.map MissingType.ofEntry =
      (d.entries.filter r.reports).map Registry.reportOf := by
  rw [normalize_report, missing_normalizeNodes_deep hflat, List.map_map]
  rfl

/-! ## Entries beside sites -/

namespace Registry

variable {r : Registry}

private theorem labels_entries (d : Document) :
    d.entries.map (fun saved => r.labelOf (saved.normalize r.knows)) =
      (d.nodes.map fun saved => r.outlineOf (saved.normalize r.knows)).flatMap
        fun o => o.1 :: o.2.getD [] := by
  rw [Document.entries, List.map_flatMap, List.flatMap_map]
  refine congrArg (List.flatMap · d.nodes) (funext fun n => ?_)
  rw [List.map_cons, outlineOf, Document.subgraph_normalize]
  cases n.subgraph with
  | none => rfl
  | some d =>
    simp only [Option.map_some, Option.getD_some, Document.normalize_eq, List.map_map]
    rfl

/-- What loading makes of an entry: a group of a group; a node of the type under which the entry is
built of anything else. -/
structure Makes (r : Registry) (saved : SavedNode Document) (s : Site) : Prop where
  node : s.place.node = saved.id
  group : saved.subgraph.isSome → s.kindName = "GroupNode"
  type : saved.subgraph = none → s.type = r.typeOf (r.builtType saved)
  kind : saved.subgraph = none → s.kindName = r.kindOf (r.builtType saved)

private theorem makes_of_label {saved : SavedNode Document} {s : Site}
    (h : s.label = r.labelOf (saved.normalize r.knows)) : r.Makes saved s := by
  obtain ⟨hid, htype, hkind⟩ := s.label_eq
  rw [h] at hid htype hkind
  rcases saved with ⟨n, _ | d⟩
  · exact ⟨hid.symm, (absurd · Bool.false_ne_true), fun _ => htype.symm, fun _ => hkind.symm⟩
  · exact ⟨hid.symm, fun _ => hkind.symm, (absurd · (Option.some_ne_none d)),
      (absurd · (Option.some_ne_none d))⟩

/-- Only nodes that are reported are placeholders. -/
theorem Makes.hasErrors {saved : SavedNode Document} {s : Site} (h : r.Makes saved s) :
    s.hasErrors = (r.reports saved && !r.knows (sanitize (currentType saved.type))) := by
  rw [Bool.eq_iff_iff, s.hasErrors_eq, beq_iff_eq, Bool.and_eq_true, reports]
  cases hsub : saved.subgraph with
  | some d =>
    simp [h.group (by rw [hsub, Option.isSome_some])]
  | none =>
    rw [h.kind hsub, kindOf_eq_missing_iff, builtType]
    cases hknows : r.knows (currentType saved.type) with
    | true => simp [hknows]
    | false => simp

/-- A node that is neither a group nor a placeholder is of a known type. -/
theorem Makes.exists_type {saved : SavedNode Document} {s : Site} (h : r.Makes saved s)
    (hsound : s.hasErrors = false) (hgroup : s.kindName ≠ "GroupNode") :
    ∃ type, r.knows type = true ∧ s.type = r.typeOf type ∧ s.kindName = r.kindOf type := by
  have hsub : saved.subgraph = none := by
    by_contra hsome
    exact hgroup (h.group (Option.ne_none_iff_isSome.1 hsome))
  refine ⟨r.builtType saved, ?_, h.type hsub, h.kind hsub⟩
  have hkind : ¬ r.kindOf (r.builtType saved) = "MissingNode" := by
    rw [← h.kind hsub, ← beq_iff_eq, ← s.hasErrors_eq, hsound]
    exact Bool.false_ne_true
  rwa [kindOf_eq_missing_iff, Bool.not_eq_false] at hkind

/-- A placeholder shows the clean name of its type. -/
theorem Makes.type_of_hasErrors {saved : SavedNode Document} {s : Site} (h : r.Makes saved s)
    (hfaulty : s.hasErrors = true) : s.type = sanitize (currentType saved.type) := by
  rw [h.hasErrors, Bool.and_eq_true, reports, Bool.and_eq_true, Bool.not_eq_true',
    Bool.not_eq_true', Option.isNone_iff_eq_none] at hfaulty
  have hbuilt : r.builtType saved = sanitize (currentType saved.type) := by
    rw [builtType, hfaulty.1.2, if_neg Bool.false_ne_true]
  rw [h.type hfaulty.1.1, hbuilt, typeOf_of_not_knows hfaulty.2]

variable {source : LoadSource} {d : Document} {g : Workflow} {missing : List MissingType}

/-- Loading makes one site of every entry, in order. -/
theorem load_makes (hread : source.read = .ok d) (hload : r.load source = .ok (g, missing)) :
    List.Forall₂ r.Makes d.entries (Workflow.sites g) := by
  have hlabels : (Workflow.sites g).map Site.label =
      d.entries.map fun saved => r.labelOf (saved.normalize r.knows) := by
    rw [Workflow.labels_sites, (load_outlines hread hload).1, labels_entries]
  rw [← List.forall₂_eq_eq_eq, List.forall₂_map_left_iff, List.forall₂_map_right_iff] at hlabels
  exact hlabels.flip.imp fun saved s h => makes_of_label h

/-- The report of a load lists, in the order of the sites, those whose type is unknown.  They are
the placeholders, unless the clean name of an unknown type is the name of a known one. -/
theorem load_report (hread : source.read = .ok d) (hload : r.load source = .ok (g, missing)) :
    ∃ placed : List (SavedNode Document × Site),
      placed.map Prod.fst = d.entries ∧ placed.map Prod.snd = Workflow.sites g ∧
      (∀ p ∈ placed, r.Makes p.1 p.2 ∧ (p.2.hasErrors = false → p.2.kindName ≠ "GroupNode" →
        ∃ type, r.knows type = true ∧ p.2.type = r.typeOf type ∧ p.2.kindName = r.kindOf type)) ∧
      missing = (placed.filter fun p => r.reports p.1).map (fun p => reportOf p.1) ∧
      ((∀ saved ∈ d.entries, r.reports saved = true →
          r.knows (sanitize (currentType saved.type)) = false) ↔
        missing = (placed.filter fun p => p.2.hasErrors).map
          fun p => ⟨currentType p.1.type, p.2.type, .null⟩) := by
  have hmakes := load_makes hread hload
  have hfst := List.map_fst_zip hmakes.length_eq.le
  have hsnd := List.map_snd_zip hmakes.length_eq.ge
  have hall : ∀ p ∈ d.entries.zip (Workflow.sites g), r.Makes p.1 p.2 :=
    fun _ hp => List.forall₂_zip hmakes hp
  generalize d.entries.zip (Workflow.sites g) = placed at hfst hsnd hall
  have hmissing : missing = (placed.filter fun p => r.reports p.1).map fun p => reportOf p.1 := by
    obtain ⟨-, hreport, hflat⟩ := load_outlines hread hload
    rw [hreport, Document.missing_normalize hflat, ← hfst, List.filter_map, List.map_map]
    rfl
  refine ⟨placed, hfst, hsnd, fun p hp => ⟨hall p hp, (hall p hp).exists_type⟩, hmissing, ?_, ?_⟩
  · intro hclean
    have hsame : (placed.filter fun p => p.2.hasErrors) = placed.filter fun p => r.reports p.1 := by
      refine List.filter_congr fun p hp => ?_
      have hentry : p.1 ∈ d.entries := hfst ▸ List.mem_map_of_mem hp
      rw [(hall p hp).hasErrors]
      cases hreports : r.reports p.1 with
      | false => rfl
      | true => rw [hclean p.1 hentry hreports]; rfl
    rw [hmissing, ← hsame]
    refine List.map_congr_left fun p hp => ?_
    rcases List.mem_filter.1 hp with ⟨hp, hfaulty⟩
    rw [reportOf, (hall p hp).type_of_hasErrors hfaulty]
  · -- As many placeholders as reported nodes leave no reported node that is no placeholder.
    intro hfaulty saved hsaved hreports
    rw [hmissing] at hfaulty
    have hsub : (placed.filter fun p => p.2.hasErrors) =
        (placed.filter fun p => r.reports p.1).filter fun p => p.2.hasErrors := by
      rw [List.filter_filter]
      refine List.filter_congr fun p hp => ?_
      rw [(hall p hp).hasErrors]
      cases r.reports p.1 <;> simp
    have hlength := congrArg List.length hfaulty
    rw [List.length_map, List.length_map, hsub] at hlength
    have hself := List.filter_eq_self.1
      (List.filter_sublist.eq_of_length hlength.symm)
    rw [← hfst] at hsaved
    rcases List.mem_map.1 hsaved with ⟨p, hp, rfl⟩
    have herrors := hself p (List.mem_filter.2 ⟨hp, hreports⟩)
    rw [(hall p hp).hasErrors, hreports, Bool.true_and, Bool.not_eq_true'] at herrors
    exact herrors

end Registry

/-- Two nodes of an unknown type, and a group with a note and a node of an outdated name inside. -/
def unlisted : Document where
  nodes := [
    { id := .number 1, type := "Custom<Node>" },
    { id := .number 2, type := "Group", groupInputs := some [], groupOutputs := some []
      subgraph := some { nodes := [{ id := .number 1, type := "Note" },
        { id := .number 2, type := "T2IAdapterLoader" }] } },
    { id := .number 3, type := "Custom<Node>" }]

/-- Both nodes are reported, each on its own, and the node of the outdated name under its new one. -/
theorem unlisted_reported : ∃ g missing,
    ({} : Registry).load (.document unlisted) = .ok (g, missing) ∧
      missing.map (fun m => (m.type, m.shown)) = [("Custom<Node>", "CustomNode"),
        ("ControlNetLoader", "ControlNetLoader"), ("Custom<Node>", "CustomNode")] ∧
      ∃ placed : List (SavedNode Document × Site), placed.map Prod.snd = Workflow.sites g ∧
        missing = (placed.filter fun p => p.2.hasErrors).map
          fun p => ⟨currentType p.1.type, p.2.type, .null⟩ := by
  obtain ⟨g, missing, hload, hmissing⟩ : ∃ g missing,
      ({} : Registry).load (.document unlisted) = .ok (g, missing) ∧
      missing.map (fun m => (m.type, m.shown)) = [("Custom<Node>", "CustomNode"),
        ("ControlNetLoader", "ControlNetLoader"), ("Custom<Node>", "CustomNode")] :=
    ⟨_, _, rfl, rfl⟩
  obtain ⟨placed, -, hsites, -, -, hreport⟩ := Registry.load_report rfl hload
  exact ⟨g, missing, hload, hmissing, placed, hsites, hreport.1 (by decide)⟩

/-- The clean name of an unknown type is the name of a known one: the node is reported as missing,
and it is a note. -/
theorem bracketed_reported : ∃ g,
    ({} : Registry).load (.document { nodes := [{ id := .number 1, type := "<Note>" }] }) =
        .ok (g, [⟨"<Note>", "Note", .null⟩]) ∧
      (Workflow.sites g).map (fun s => (s.type, s.kindName, s.hasErrors)) =
        [("Note", "NoteNode", false)] :=
  ⟨_, rfl, rfl⟩

end NodeFlow
