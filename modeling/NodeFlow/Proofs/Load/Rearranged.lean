import NodeFlow.Proofs.Load.AnyOrder
import NodeFlow.Proofs.Load.Entries
import NodeFlow.Proofs.Load.Stored

/-!
# Documents in another order

The nodes and the links of a document may stand in any order, also in the documents of groups.  Where
the links have different numbers, documents that differ by these orders only are loaded as graphs that
answer lookups alike.

Main results:

- Definitions `Document.Shuffles` and `Document.Rearranges`: the same entries in other orders.
- Structure `Document.HasDistinctLinks`: links have different numbers.
- Theorem `Graph.configure_shuffled`: graphs that are configured from the same entries.
- Theorem `Registry.load_rearranged`: graphs that are loaded from the same entries.
-/

namespace NodeFlow

/-! ## Orders of documents -/

/-- The second document has the nodes and the links of the first one, in any order. -/
def Document.Shuffles (d d' : Document) : Prop :=
  ∃ ns ls, ns.Perm d.nodes ∧ ls.Perm d.links ∧ d' = { d with nodes := ns, links := ls }

/-- The same entry, or the entry of a group with its document in another order. -/
structure SavedNode.Shuffles (n m : SavedNode Document) : Prop where
  record : m.toNodeRecord = n.toNodeRecord
  subgraph : Option.Rel Document.Shuffles n.subgraph m.subgraph

/-- The second document has the nodes and the links of the first one, in any order, also inside
groups. -/
def Document.Rearranges (d d' : Document) : Prop :=
  ∃ ms ns ls, List.Forall₂ SavedNode.Shuffles d.nodes ms ∧ ns.Perm ms ∧ ls.Perm d.links ∧
    d' = { d with nodes := ns, links := ls }

/-- The number of the link of an entry. -/
def linkNumber? (entry : List Json) : Option Int := (Whole.ofJson? (entry.headD .null)).map (·.val)

/-- The links of a document have different numbers, and so do those inside each group. -/
structure Document.HasDistinctLinks (d : Document) : Prop where
  outer : (d.links.map linkNumber?).Nodup
  inner : ∀ n ∈ d.nodes, ∀ x, n.subgraph = some x → (x.links.map linkNumber?).Nodup

/-! ## Links -/

/-- The link of an entry, wherever it stands. -/
def Link.IsRead (entry : List Json) (l : Link) : Prop := Link.ofJson (.arr entry) "" = .ok l

private theorem Link.isRead_of_ofJson {entry : List Json} {location : String} {l : Link}
    (h : Link.ofJson (.arr entry) location = .ok l) : Link.IsRead entry l := by
  have hsame : ∀ location, (Link.ofJson (.arr entry) location).toOption =
      (Link.ofJson (.arr entry) "").toOption := by
    intro location
    unfold Link.ofJson
    split
    · split
      · split <;> rfl
      · rfl
    · rfl
  have hok := hsame location
  rw [h] at hok
  unfold IsRead
  cases hread : Link.ofJson (.arr entry) "" with
  | error f =>
    rw [hread] at hok
    cases hok
  | ok l' =>
    rw [hread] at hok
    rw [Option.some.inj hok]

private theorem Link.IsRead.linkNumber? {entry : List Json} {l : Link} (h : IsRead entry l) :
    linkNumber? entry = some l.id.val := by
  unfold IsRead Link.ofJson at h
  split at h
  · rename_i id _ _ _ _ rest hparts
    have hentry : entry.headD .null = id := by
      unfold parts? at hparts
      simp only at hparts
      split at hparts
      · rw [Option.some.inj hparts, List.headD_cons]
      · cases hparts
    split at h
    · rename_i hid _ _
      split at h
      · cases h
      · cases h
        rw [NodeFlow.linkNumber?, hentry, hid, Option.map_some]
    · cases h
  · cases h

private theorem Link.numbers_of_isRead {entries : List (List Json)} {ls : List Link}
    (h : List.Forall₂ IsRead entries ls) :
    entries.map NodeFlow.linkNumber? = (ls.map (·.id.val)).map some := by
  induction h with
  | nil => rfl
  | cons hread _ ih => rw [List.map_cons, List.map_cons, List.map_cons, ih, hread.linkNumber?]

namespace Graph

variable {γ : Type}

/-- Links of different numbers are all taken in. -/
theorem links_addLinks {g g' : Graph γ} {i : Nat} {entries : List (List Json)}
    (h : g.addLinks i entries = .ok g')
    (hdistinct : (g.links.map (fun l => some l.id.val) ++ entries.map linkNumber?).Nodup) :
    ∃ ls, g'.links = g.links ++ ls ∧ List.Forall₂ Link.IsRead entries ls := by
  induction entries generalizing g i with
  | nil =>
    cases h
    exact ⟨[], (List.append_nil _).symm, .nil⟩
  | cons entry entries ih =>
    rcases Fault.bind_eq_ok_iff.1 h with ⟨l, hl, h⟩
    have hread := Link.isRead_of_ofJson hl
    have hnew : g.links.any (·.id.val == l.id.val) = false := by
      rw [List.any_eq_false]
      intro m hm hval
      rw [List.map_cons, hread.linkNumber?, List.nodup_append] at hdistinct
      exact hdistinct.2.2 _ (List.mem_map_of_mem hm) _ List.mem_cons_self
        (congrArg some (beq_iff_eq.1 hval))
    have hadd : (g.addLink l).links = g.links ++ [l] := by
      simp only [addLink, putLink, hnew, Bool.false_eq_true, if_false]
      split <;> rfl
    rcases ih h (by
      rw [hadd, List.map_append, List.map_singleton, ← hread.linkNumber?]
      simpa using hdistinct) with ⟨ls, hls, hreads⟩
    refine ⟨l :: ls, ?_, .cons hread hreads⟩
    rw [hls, hadd, List.append_assoc, List.singleton_append]

/-- The entry of a node that was taken in. -/
def IsBuilt (build : SavedNode Document → Except Fault (Node γ)) (saved : SavedNode Document)
    (n : Node γ) : Prop :=
  ∃ b, build saved = .ok b ∧ n = b.configure saved.toNodeRecord

private theorem nodes_addNodes {build : SavedNode Document → Except Fault (Node γ)} {g g' : Graph γ}
    {i : Nat} {entries : List (SavedNode Document)} (h : g.addNodes build i entries = .ok g') :
    ∃ ns, g'.nodes = g.nodes ++ ns ∧ List.Forall₂ (IsBuilt build) entries ns ∧
      g'.links = g.links := by
  induction entries generalizing g i with
  | nil =>
    cases h
    exact ⟨[], (List.append_nil _).symm, .nil, rfl⟩
  | cons saved entries ih =>
    rcases addNodes_cons h with ⟨-, b, hb, h⟩
    rcases ih h with ⟨ns, hns, hbuilt, hlinks⟩
    refine ⟨b.configure saved.toNodeRecord :: ns, ?_, .cons ⟨b, hb, rfl⟩ hbuilt, hlinks⟩
    rw [hns]
    exact List.append_assoc g.nodes [_] ns

/-- The nodes and the links of a configured graph are those of its entries. -/
theorem exists_parts_of_configure {build : SavedNode Document → Except Fault (Node γ)}
    {d : Document} {g : Graph γ} (h : configure build d = .ok g)
    (hdistinct : (d.links.map linkNumber?).Nodup) :
    List.Forall₂ (IsBuilt build) d.nodes g.nodes ∧ List.Forall₂ Link.IsRead d.links g.links ∧
      (g.nodes.map (·.id)).Nodup ∧ (g.links.map (·.id.val)).Nodup := by
  rcases Fault.bind_eq_ok_iff.1 h with ⟨linked, hlinked, hnodes⟩
  rcases links_addLinks hlinked hdistinct with ⟨ls, hls, hreads⟩
  rcases nodes_addNodes hnodes with ⟨ns, hns, hbuilt, hkept⟩
  rw [nodes_addLinks hlinked, List.nil_append] at hns
  rw [← hkept, List.nil_append] at hls
  refine ⟨hns ▸ hbuilt, hls ▸ hreads, (configure_distinct h).1.ids_nodup, ?_⟩
  rw [Link.numbers_of_isRead hreads, ← hls] at hdistinct
  exact List.Nodup.of_map some hdistinct

/-- Entries in another order stand for the same things in another order. -/
theorem perm_of_forall₂ {α β : Type} {R : α → β → Prop} (hright : Relator.RightUnique R)
    {xs ys : List α} {as bs : List β} (hperm : ys.Perm xs) (hxs : List.Forall₂ R xs as)
    (hys : List.Forall₂ R ys bs) : bs.Perm as := by
  rcases List.perm_comp_forall₂ hperm hxs with ⟨cs, hcs, hsame⟩
  rwa [hright.forall₂ hcs hys] at hsame

private theorem rightUnique_isRead : Relator.RightUnique Link.IsRead := fun _ _ _ h h' =>
  Except.ok.inj (h.symm.trans h')

private theorem rightUnique_isBuilt (build : SavedNode Document → Except Fault (Node γ)) :
    Relator.RightUnique (IsBuilt build) := by
  rintro saved n n' ⟨b, hb, rfl⟩ ⟨b', hb', rfl⟩
  rw [Except.ok.inj (hb.symm.trans hb')]

/-- Graphs that are configured from the same entries answer lookups alike. -/
theorem configure_shuffled {build : SavedNode Document → Except Fault (Node γ)} {d d' : Document}
    (hshuffles : d.Shuffles d') (hdistinct : (d.links.map linkNumber?).Nodup) {g g' : Graph γ}
    (h : configure build d = .ok g) (h' : configure build d' = .ok g') : SameLookups g g' := by
  rcases hshuffles with ⟨ns, ls, hns, hls, rfl⟩
  have hdistinct' : (ls.map linkNumber?).Nodup := (hls.map _).nodup_iff.2 hdistinct
  rcases exists_parts_of_configure h hdistinct with ⟨hnodes, hlinks, hids, hnumbers⟩
  rcases exists_parts_of_configure h' hdistinct' with ⟨hnodes', hlinks', -, -⟩
  exact ⟨at?_eq_of_perm (perm_of_forall₂ (rightUnique_isBuilt build) hns hnodes hnodes') hids,
    link?_eq_of_perm (perm_of_forall₂ rightUnique_isRead hls hlinks hlinks') hnumbers⟩

end Graph

/-! ## Nodes -/

namespace Registry

variable {r : Registry}

/-- What the entry of a group becomes. -/
theorem exists_graph_of_build {saved : SavedNode Document} {b : Node Group}
    (h : r.build saved = .ok b) {d : Document} (hsubgraph : saved.subgraph = some d) :
    ∃ graph, Graph.configure (fun inner => r.buildSimple inner.type) d = .ok graph ∧
      b = { (({} : NodeSetup).blank saved.type : Node Group) with
        kind := .group ⟨graph, saved.groupInputs.getD [], saved.groupOutputs.getD []⟩ } := by
  unfold build at h
  simp only [hsubgraph] at h
  split at h
  · cases h
  · rcases Fault.bind_eq_ok_iff.1 h with ⟨graph, hgraph, h⟩
    cases h
    exact ⟨graph, hgraph, rfl⟩

/-- Nodes of the same entry are the same, but for what is inside a group. -/
theorem shuffled_of_isBuilt {saved saved' : SavedNode Document} (hsame : saved.Shuffles saved')
    (hlinks : ∀ d, saved.subgraph = some d → (d.links.map linkNumber?).Nodup) {n n' : Node Group}
    (h : Graph.IsBuilt r.build saved n) (h' : Graph.IsBuilt r.build saved' n') : n.Shuffled n' := by
  rcases h with ⟨b, hb, rfl⟩
  rcases h' with ⟨b', hb', rfl⟩
  have hsubgraph := hsame.subgraph
  cases hd : saved.subgraph with
  | none =>
    have hd' : saved'.subgraph = none := by
      rw [hd] at hsubgraph
      cases hnone : saved'.subgraph with
      | none => rfl
      | some d' =>
        rw [hnone] at hsubgraph
        cases hsubgraph
    rw [build, hd] at hb
    rw [build, hd', hsame.record] at hb'
    rw [Except.ok.inj (hb'.symm.trans hb), hsame.record]
    exact Node.shuffled_of_none ((group?_configure _ _).trans (group?_buildSimple hb))
  | some d =>
    rw [hd] at hsubgraph
    cases hd' : saved'.subgraph with
    | none =>
      rw [hd'] at hsubgraph
      cases hsubgraph
    | some d' =>
      rw [hd'] at hsubgraph
      cases hsubgraph with
      | some hshuffles =>
        rcases exists_graph_of_build hb hd with ⟨graph, hgraph, rfl⟩
        rcases exists_graph_of_build hb' hd' with ⟨graph', hgraph', rfl⟩
        have hinner := Graph.configure_shuffled hshuffles (hlinks d hd) hgraph hgraph'
        rw [hsame.record]
        exact .mk graph' fun x hx => by
          cases hx
          exact hinner

/-- Entries in another order become nodes of which each is one of the others, but for what is inside
it. -/
theorem shuffled_of_forall₂ {ns ms : List (SavedNode Document)}
    (hms : List.Forall₂ SavedNode.Shuffles ns ms)
    (hlinks : ∀ saved ∈ ns, ∀ d, saved.subgraph = some d → (d.links.map linkNumber?).Nodup)
    {us vs : List (Node Group)} (hus : List.Forall₂ (Graph.IsBuilt r.build) ns us)
    (hvs : List.Forall₂ (Graph.IsBuilt r.build) ms vs) : List.Forall₂ Node.Shuffled us vs := by
  induction hms generalizing us vs with
  | nil =>
    cases hus
    cases hvs
    exact .nil
  | cons hsame _ ih =>
    cases hus with
    | cons hu hus =>
      cases hvs with
      | cons hv hvs =>
        refine .cons (shuffled_of_isBuilt hsame (hlinks _ List.mem_cons_self) hu hv) ?_
        exact ih (fun saved hsaved => hlinks saved (List.mem_cons_of_mem _ hsaved)) hus hvs

/-- Workflows that are configured from the same entries answer lookups alike. -/
theorem configure_rearranged {d d' : Document} (hsame : d.Rearranges d')
    (hlinks : d.HasDistinctLinks) {g g' : Workflow} (h : Graph.configure r.build d = .ok g)
    (h' : Graph.configure r.build d' = .ok g') : Workflow.SameLookups g g' := by
  rcases hsame with ⟨ms, ns, ls, hms, hns, hls, rfl⟩
  have hdistinct' : (ls.map linkNumber?).Nodup := (hls.map _).nodup_iff.2 hlinks.outer
  rcases Graph.exists_parts_of_configure h hlinks.outer with ⟨hnodes, hread, -, hnumbers⟩
  rcases Graph.exists_parts_of_configure h' hdistinct' with ⟨hnodes', hread', hids', -⟩
  refine Workflow.sameLookups_iff.2 ⟨?_, ?_⟩
  · rcases List.perm_comp_forall₂ hns.symm hnodes' with ⟨ks, hks, hperm⟩
    have hat : Graph.at? { g' with nodes := ks } = Graph.at? g' := Graph.at?_eq_of_perm hperm hids'
    intro id
    rw [← hat]
    exact Workflow.shuffledNodes_of_forall₂ (shuffled_of_forall₂ hms hlinks.inner hnodes hks) id
  · exact Graph.link?_eq_of_perm (Graph.perm_of_forall₂ Graph.rightUnique_isRead hls hread hread')
      hnumbers

end Registry

/-! ## Type names -/

section Normal

variable (knows : String → Bool)

private theorem Document.Shuffles.normalize {d d' : Document} (h : d.Shuffles d') :
    (d.normalize knows).1.Shuffles (d'.normalize knows).1 := by
  rcases h with ⟨ns, ls, hns, hls, rfl⟩
  rw [normalize_eq, normalize_eq]
  exact ⟨_, ls, hns.map _, hls, rfl⟩

private theorem SavedNode.Shuffles.normalize {n m : SavedNode Document} (h : n.Shuffles m) :
    (n.normalize knows).Shuffles (m.normalize knows) := by
  rcases n with ⟨n, sub⟩
  rcases m with ⟨m, sub'⟩
  rcases h with ⟨rfl, hsubgraph⟩
  cases hsubgraph with
  | none => exact ⟨rfl, .none⟩
  | some hsame => exact ⟨rfl, .some (hsame.normalize knows)⟩

private theorem Document.Rearranges.normalize {d d' : Document} (h : d.Rearranges d') :
    (d.normalize knows).1.Rearranges (d'.normalize knows).1 := by
  rcases h with ⟨ms, ns, ls, hms, hns, hls, rfl⟩
  rw [normalize_eq, normalize_eq]
  refine ⟨_, _, ls, ?_, hns.map _, hls, rfl⟩
  rw [List.forall₂_map_left_iff, List.forall₂_map_right_iff]
  exact hms.imp fun _ _ hsame => hsame.normalize knows

private theorem Document.HasDistinctLinks.normalize {d : Document} (h : d.HasDistinctLinks) :
    (d.normalize knows).1.HasDistinctLinks := by
  rw [normalize_eq]
  refine ⟨h.outer, fun m hm x hx => ?_⟩
  rcases List.mem_map.1 hm with ⟨n, hn, rfl⟩
  rw [subgraph_normalize] at hx
  rcases Option.map_eq_some_iff.1 hx with ⟨y, hy, rfl⟩
  rw [normalize_eq]
  exact h.inner n hn y hy

end Normal

/-! ## Loads -/

namespace Registry

variable {r : Registry}

/-- What is loaded from the same entries answers lookups alike, if no primitive has inputs. -/
theorem load_rearranged {source source' : LoadSource} {d d' : Document}
    (hread : source.read = .ok d) (hread' : source'.read = .ok d')
    (hresets : source'.resets = source.resets) (hsame : d.Rearranges d')
    (hlinks : d.HasDistinctLinks) {g g' : Workflow} {missing missing' : List MissingType}
    (hload : r.load source = .ok (g, missing)) (hload' : r.load source' = .ok (g', missing'))
    (hsources : Workflow.HasSources g) : Workflow.SameLookups g g' := by
  have hparts : ∀ {source : LoadSource} {d : Document} {g : Workflow} {missing : List MissingType},
      source.read = .ok d → r.load source = .ok (g, missing) → ∃ g₀ g₁,
        Graph.configure r.build (d.normalize r.knows).1 = .ok g₀ ∧ Workflow.finish g₀ = .ok g₁ ∧
          Workflow.Distinct g₁ ∧ g = Workflow.patch source.resets g₁ := by
    intro source d g missing hread hload
    rcases load_eq_ok_iff.1 hload with ⟨_, g₁, hd, hassemble, rfl, -⟩
    cases hd.symm.trans hread
    have hdistinct := (assemble_distinctKeys hassemble).distinct
    rcases Fault.bind_eq_ok_iff.1 hassemble with ⟨g₀, hconfigure, hfinish⟩
    exact ⟨g₀, g₁, hconfigure, hfinish, hdistinct, rfl⟩
  rcases hparts hread hload with ⟨g₀, g₁, hconfigure, hfinish, hg₁, rfl⟩
  rcases hparts hread' hload' with ⟨h₀, h₁, hconfigure', hfinish', hh₁, rfl⟩
  have hg₀ := (configure_distinctKeys hconfigure).distinct
  have hh₀ := (configure_distinctKeys hconfigure').distinct
  have hsame₀ := configure_rearranged (hsame.normalize r.knows) (hlinks.normalize r.knows) hconfigure
    hconfigure'
  have hsources₀ := (hsources.of_patch hg₁).of_finish hg₀ hfinish
  rw [hresets]
  exact (hsame₀.finish hg₀ hh₀ hsources₀ hfinish hfinish').patch hg₁ hh₁ _

end Registry

end NodeFlow
