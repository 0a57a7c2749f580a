import NodeFlow.Proofs.Editor.Idle
import NodeFlow.Proofs.Load.CleanNames
import NodeFlow.Proofs.Load.Rejected
import NodeFlow.Proofs.Load.Report
import NodeFlow.Proofs.Service.CompileReply

/-!
# Answers to loads

The body of a load is a prompt or a document.  Where extensions do nothing, its graph takes the place
of the old one, or the old one stays: then the answer says why, unless the body has one of the flaws
that fail a load.

Main results:

- Theorem `Json.isPortable_visible`: leaving internal members out keeps a value portable.
- Types `Service.Loads` and `Service.Trips`: what comes of a body, and the flaws that fail its load.
- Theorem `Service.load_answers`: the answer to a load, and the graph that it leaves.
-/

namespace NodeFlow

/-! ## Bodies of answers -/

mutual
/-- A portable value is portable as it is shown. -/
theorem Json.isPortable_visible {v : Json} (h : v.isPortable = true) :
    v.visible.isPortable = true := by
  cases v with
  | arr xs => exact itemsPortable_visibleItems h
  | obj ms => exact membersPortable_visibleMembers h
  | null => rfl
  | bool b => rfl
  | int n => rfl
  | float x => exact h
  | str s => rfl

/-- Portable items are portable as they are shown. -/
theorem Json.itemsPortable_visibleItems {xs : List Json} (h : itemsPortable xs = true) :
    itemsPortable (visibleItems xs) = true := by
  cases xs with
  | nil => rfl
  | cons x xs =>
    rw [itemsPortable, Bool.and_eq_true] at h
    rw [visibleItems, itemsPortable, Json.isPortable_visible h.1,
      Json.itemsPortable_visibleItems h.2, Bool.true_and]

/-- Portable members are portable as they are shown. -/
theorem Json.membersPortable_visibleMembers {ms : List (String × Json)}
    (h : membersPortable ms = true) : membersPortable (visibleMembers ms) = true := by
  cases ms with
  | nil => rfl
  | cons m ms =>
    rw [membersPortable, Bool.and_eq_true] at h
    rw [visibleMembers]
    split
    · exact Json.membersPortable_visibleMembers h.2
    · rw [membersPortable, Json.isPortable_visible h.1, Json.membersPortable_visibleMembers h.2,
        Bool.true_and]
end

private theorem Fault.IsConfiguration.isPortable_body {f : Fault} (h : f.IsConfiguration) :
    (ServiceReply.ofFault f).body.isPortable = true := by
  rcases h with ⟨d, l, s, rfl⟩
  cases l <;> cases s <;> rfl

/-- A report without hints can be shown. -/
theorem Service.isPortable_missingToJson {missing : List MissingType}
    (h : ∀ m ∈ missing, m.hint = .null) : (missingToJson missing).isPortable = true := by
  have hitems : Json.itemsPortable (missing.map MissingType.toJson) = true := by
    induction missing with
    | nil => rfl
    | cons m missing ih =>
      have hone : m.toJson.isPortable = true := by
        rw [MissingType.toJson, h m List.mem_cons_self]
        rfl
      rw [List.map_cons, Json.itemsPortable, hone, Bool.true_and]
      exact ih fun k hk => h k (List.mem_cons_of_mem m hk)
  exact hitems

private theorem Service.isPortable_loadedReply (count : Nat) {missing : List MissingType}
    (h : ∀ m ∈ missing, m.hint = .null) : (loadedReply count missing).body.isPortable = true := by
  have hbody : (Json.obj [("node_count", .int count),
      ("missing_node_types", missingToJson missing)]).isPortable = true := by
    simp [Json.isPortable, Json.membersPortable, isPortable_missingToJson h]
  exact Json.isPortable_visible hbody

/-- The report of a load gives no hints. -/
theorem Registry.hint_of_load {r : Registry} {source : LoadSource} {g : Workflow}
    {missing : List MissingType} (h : r.load source = .ok (g, missing)) :
    ∀ m ∈ missing, m.hint = .null := by
  rcases load_eq_ok_iff.1 h with ⟨d, _, hread, -⟩
  obtain ⟨-, hreport, hflat⟩ := load_outlines hread h
  intro m hm
  rw [hreport, Document.missing_normalize hflat] at hm
  rcases List.mem_map.1 hm with ⟨saved, -, rfl⟩
  rfl

namespace Service

/-! ## Loads -/

/-- The graph and the missing types that come of a body. -/
inductive Loads (r : Registry) (ms : Members) : Workflow → List MissingType → Prop
  | prompt {g : Workflow} (hprompt : isPrompt (.obj ms) = true)
      (h : r.rebuild (.obj ms) = .ok (some g, [])) : Loads r ms g []
  | document {g : Workflow} {missing : List MissingType} (hdocument : isPrompt (.obj ms) = false)
      (h : r.load (.value (.obj ms)) = .ok (g, missing)) : Loads r ms g missing

/-- What is wrong with a body whose load fails. -/
inductive Trips (r : Registry) (ms : Members) : Prop
  | prompt (hprompt : isPrompt (.obj ms) = true) (h : Rebuild.Trips r ms)
  | document {d : Document} (hdocument : isPrompt (.obj ms) = false)
      (hread : Document.read (.obj ms) = .ok d) (h : d.Trips r)

variable {e : Editor}

private theorem serve_load (ms : Members) : serve (.obj ms) .loadGraph =
    if isPrompt (.obj ms) then loadPrompt (.obj ms) else loadDocument (.obj ms) := rfl

private theorem exec_handle_error {method : String} {content : Json} {r : Route} {f : Fault}
    {e' : Editor} (hserve : (serve content r).exec e = (.error f, e')) :
    (handle method content r).exec e = (.error f, e') := by
  rw [handle, Act.exec_bind, hserve]

/-- What comes of a prompt: its graph, or the report of its unknown classes. -/
theorem rebuild_ok_cases {r : Registry} {ms : Members} {loaded : Option Workflow × List MissingType}
    (h : r.rebuild (.obj ms) = .ok loaded) : (∃ g, loaded = (some g, [])) ∨
      ∃ missing, loaded = (none, missing) ∧ ∀ m ∈ missing, m.hint = .null := by
  rcases Fault.bind_eq_ok_iff.1 h with ⟨missing, hmissing, h⟩
  cases missing with
  | nil =>
    dsimp only at h
    split at h
    · cases h
      exact .inl ⟨_, rfl⟩
    · cases h
  | cons m missing =>
    cases h
    refine .inr ⟨_, rfl, fun m' hm' => ?_⟩
    rcases Rebuild.exists_of_mem_missingClasses hmissing m' hm' with ⟨type, rfl⟩
    rfl

private theorem loadPrompt_answers (hshows : e.view.Shows) {ms : Members}
    (hprompt : isPrompt (.obj ms) = true) : ∃ e',
    (∃ g, Loads e.registry ms g [] ∧ (handle "POST" (.obj ms) .loadGraph).exec e =
      (.ok (loadedReply g.nodes.length []), e') ∧ e'.graph = g) ∨
    (∃ message diagnostics, (handle "POST" (.obj ms) .loadGraph).exec e =
      (.ok (.faulty message diagnostics), e') ∧ e'.graph = e.graph) ∨
    ∃ f, (handle "POST" (.obj ms) .loadGraph).exec e = (.error f, e') ∧ e'.graph = e.graph ∧
      Trips e.registry ms := by
  have hserve : (serve (.obj ms) .loadGraph).exec e = (loadPrompt (.obj ms)).exec e := by
    rw [serve_load, if_pos hprompt]
  rw [loadPrompt, Act.exec_bind, Editor.loadPrompt, Act.exec_bind, Act.exec_get] at hserve
  dsimp only at hserve
  rw [Act.exec_bind, Act.exec_lift] at hserve
  cases hrebuild : e.registry.rebuild (.obj ms) with
  | error f =>
    rw [hrebuild] at hserve
    exact ⟨e, .inr (.inr ⟨f, exec_handle_error hserve, rfl,
      .prompt hprompt (Registry.rebuild_failsWith hprompt f hrebuild)⟩)⟩
  | ok loaded =>
    rw [hrebuild] at hserve
    rcases rebuild_ok_cases hrebuild with ⟨g, rfl⟩ | ⟨missing, rfl, hhints⟩
    · rcases Editor.exec_display (e := { e with graph := g }) hshows .redraw with ⟨o, hredraw⟩
      simp only [Editor.replaceGraph, Editor.redraw, Act.exec_bind, Act.exec_modify, hredraw,
        Act.exec_pure] at hserve
      exact ⟨_, .inl ⟨g, .prompt hprompt hrebuild, exec_handle hserve
        (isPortable_loadedReply _ fun _ hm => absurd hm List.not_mem_nil) (by decide), rfl⟩⟩
    · rcases Editor.exec_display hshows (.dialog (dialogText (MissingType.listing missing false)))
        with ⟨o, hdialog⟩
      simp only [Editor.showDialog, Act.exec_bind, hdialog, Act.exec_pure] at hserve
      refine ⟨_, .inr (.inl ⟨_, _, exec_handle hserve ?_ (by decide), rfl⟩)⟩
      simp [ServiceReply.faulty, Json.isPortable, Json.membersPortable,
        isPortable_missingToJson hhints]

private theorem loadDocument_answers (hidle : ∀ x ∈ e.extensions, x.IsIdle) (hshows : e.view.Shows)
    {ms : Members} (hdocument : isPrompt (.obj ms) = false) : ∃ e',
    (∃ g missing, Loads e.registry ms g missing ∧ (handle "POST" (.obj ms) .loadGraph).exec e =
      (.ok (loadedReply g.nodes.length missing), e') ∧ e'.graph = g) ∨
    (∃ f, f.IsConfiguration ∧ (handle "POST" (.obj ms) .loadGraph).exec e =
      (.ok (.ofFault f), e') ∧ e'.graph = e.graph ∧ e'.loadError = some f) ∨
    ∃ f, (handle "POST" (.obj ms) .loadGraph).exec e = (.error f, e') ∧ e'.graph = e.graph ∧
      Trips e.registry ms := by
  have hserve : (serve (.obj ms) .loadGraph).exec e = (loadDocument (.obj ms)).exec e := by
    rw [serve_load, if_neg (hdocument ▸ Bool.false_ne_true)]
  have hsource : LoadSource.ofJson (.obj ms) = .value (.obj ms) := rfl
  rw [loadDocument, Act.exec_bind, Editor.exec_load_clean, hsource] at hserve
  let clean : Editor :=
    { e with outputs := [], nodeErrors := none, executionError := none, running := none }
  cases hload : e.registry.load (.value (.obj ms)) with
  | ok loaded =>
    obtain ⟨g, missing⟩ := loaded
    rcases Editor.exec_load_ok (e := clean) hidle hshows _ hload with ⟨o, hexec⟩
    rw [hexec] at hserve
    exact ⟨_, .inl ⟨g, missing, .document hdocument hload, exec_handle hserve
      (isPortable_loadedReply _ (Registry.hint_of_load hload)) (by decide), rfl⟩⟩
  | error f =>
    by_cases hf : f.IsConfiguration
    · have hbody := hf.isPortable_body
      rcases hf with ⟨d, l, s, rfl⟩
      rcases Editor.exec_load_refused (e := clean) hidle hshows _ hload with ⟨o, hexec⟩
      rw [hexec] at hserve
      exact ⟨_, .inr (.inl ⟨_, ⟨d, l, s, rfl⟩, exec_handle hserve hbody (by decide), rfl, rfl⟩)⟩
    · rcases Editor.exec_load_failed (e := clean) hidle _ hload
        (fun d l s hsame => hf ⟨d, l, s, hsame⟩) with ⟨o, hexec⟩
      rw [hexec] at hserve
      refine ⟨_, .inr (.inr ⟨f, exec_handle_error hserve, rfl, ?_⟩)⟩
      cases hread : Document.read (.obj ms) with
      | error f' =>
        have hsame : e.registry.load (.value (.obj ms)) = .error f' := by
          rw [Registry.load, LoadSource.read, hread]
          rfl
        cases hload.symm.trans hsame
        exact absurd (Document.read_failsWith _ f hread) hf
      | ok d =>
        have hsource : (LoadSource.value (.obj ms)).read = .ok d := hread
        rcases Registry.load_failsWith hsource f hload with hconfiguration | htrips
        · exact absurd hconfiguration hf
        · exact .document hdocument hread htrips

/-- The address of loads. -/
theorem answer_loadGraph {content : Json} (h : content.isPortable = true) :
    answer "POST" "/api/v1/graph" content = handle "POST" content .loadGraph :=
  answer_of_mem (m := ("POST", "/api/v1/graph", .loadGraph)) (by decide) h

/-- The answer to a load: the graph of the body takes the place of the old one; or the old one stays,
and the answer says why, which the editor keeps if the body is a document; or the body has a flaw, and
the old one stays. -/
theorem load_answers (hidle : ∀ x ∈ e.extensions, x.IsIdle) (hshows : e.view.Shows) (ms : Members) :
    ∃ e',
    (∃ g missing, Loads e.registry ms g missing ∧ (handle "POST" (.obj ms) .loadGraph).exec e =
      (.ok (loadedReply g.nodes.length missing), e') ∧ e'.graph = g) ∨
    (∃ message diagnostics, (handle "POST" (.obj ms) .loadGraph).exec e =
      (.ok (.faulty message diagnostics), e') ∧ e'.graph = e.graph ∧
      (isPrompt (.obj ms) = false → ∃ f, f.IsConfiguration ∧ e'.loadError = some f ∧
        message = f.detail ∧ diagnostics = f.diagnostics)) ∨
    ∃ f, (handle "POST" (.obj ms) .loadGraph).exec e = (.error f, e') ∧ e'.graph = e.graph ∧
      Trips e.registry ms := by
  cases hprompt : isPrompt (.obj ms) with
  | true =>
    rcases loadPrompt_answers hshows hprompt with ⟨e', ⟨g, hloads, hexec, hgraph⟩ |
      ⟨message, diagnostics, hexec, hgraph⟩ | hfails⟩
    · exact ⟨e', .inl ⟨g, [], hloads, hexec, hgraph⟩⟩
    · exact ⟨e', .inr (.inl ⟨message, diagnostics, hexec, hgraph, fun h => by cases h⟩)⟩
    · exact ⟨e', .inr (.inr hfails)⟩
  | false =>
    rcases loadDocument_answers hidle hshows hprompt with ⟨e', hloads |
      ⟨f, hf, hexec, hgraph, hkept⟩ | hfails⟩
    · exact ⟨e', .inl hloads⟩
    · exact ⟨e', .inr (.inl ⟨_, _, hexec, hgraph, fun _ => ⟨f, hf, hkept, rfl, rfl⟩⟩)⟩
    · exact ⟨e', .inr (.inr hfails)⟩

end Service

/-- An editor with one node and an extension whose hooks are called and do nothing. -/
def furnished : Editor where
  extensions := [{ name := .str "idle", hooks := [("before_configure_graph", some { ticks := 2 }),
    ("loaded_graph_node", some {}), ("after_configure_graph", some { raises := some {} })] }]
  graph := { nodes := [{ id := .number 7, kind := .note, type := "Note", title := none }] }

/-- Two nodes of one id. -/
def doubled : Members :=
  [("nodes", .arr [.obj [("id", .int 1), ("type", .str "Note")],
    .obj [("id", .str "1"), ("type", .str "Note")]])]

/-- A document with two nodes of one id is refused, the refusal is kept, and the graph stays. -/
theorem doubled_answered : (∀ x ∈ furnished.extensions, x.IsIdle) ∧ furnished.view.Shows ∧
    ∃ f e', f.IsConfiguration ∧
      (Service.answer "POST" "/api/v1/graph" (.obj doubled)).exec furnished =
        (.ok (.faulty f.detail f.diagnostics), e') ∧ e'.graph = furnished.graph ∧
      e'.loadError = some f := by
  have hidle : ∀ x ∈ furnished.extensions, x.IsIdle := by
    intro x hx
    rw [List.mem_singleton.1 hx]
    refine Extension.isIdle_of_hooks fun entry hentry hook hhook => ?_
    simp only [List.mem_cons, List.not_mem_nil, or_false] at hentry
    rcases hentry with rfl | rfl | rfl <;> cases hhook <;> rfl
  have hshows : furnished.view.Shows := fun _ _ => rfl
  have hrefused : ((Service.handle "POST" (.obj doubled) .loadGraph).exec furnished).1.toOption.any
      (fun reply => reply.status == 422) = true := by
    decide +kernel
  refine ⟨hidle, hshows, ?_⟩
  rw [Service.answer_loadGraph (by decide)]
  rcases Service.load_answers hidle hshows doubled with ⟨e', ⟨g, missing, -, hexec, -⟩ |
    ⟨message, diagnostics, hexec, hgraph, hkept⟩ | ⟨f, hexec, -, -⟩⟩
  · rw [hexec] at hrefused
    cases hrefused
  · rcases hkept (by decide) with ⟨f, hf, herror, rfl, rfl⟩
    exact ⟨f, e', hf, hexec, hgraph, herror⟩
  · rw [hexec] at hrefused
    cases hrefused

/-- The id of a node looks like a number and is none: the load fails with a fault that is no refusal,
and nothing is kept. -/
theorem superscript_fails : ∃ text e',
    (Service.answer "POST" "/api/v1/graph"
      (.obj [("nodes", .arr [.obj [("id", .str "²"), ("type", .str "Note")]])])).exec {} =
        (.error (.badValue text), e') ∧ e'.loadError = none := by
  rw [Service.answer_loadGraph (by decide)]
  exact ⟨_, _, rfl, rfl⟩

end NodeFlow
