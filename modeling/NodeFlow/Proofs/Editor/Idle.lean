import NodeFlow.Editor.Load
import NodeFlow.Proofs.Editor.Gathering
import NodeFlow.Proofs.Editor.Units
import NodeFlow.Proofs.Load.Patch

/-!
# Editors whose extensions do nothing

Extensions may change a document and its nodes while it is loaded.  If their hooks do nothing, though
they may be called, wait and fail, the editor loads what the registry loads, and the outside is all
that the calls leave a trace in.

Main results:

- Definition `Extension.IsIdle`: the hooks of an extension do nothing.
- Theorems `Extension.subjects_announce` and `Extension.subjects_broadcast`: what such hooks leave of
  their subjects.
- Theorem `Editor.exec_assemble`: the graph of a source is the one that the registry loads.
- Theorems `Editor.exec_load_ok`, `Editor.exec_load_refused` and `Editor.exec_load_failed`: what a load
  comes to.
-/

namespace NodeFlow

open Workflow

/-! ## Idle hooks -/

/-- The hooks of an extension do nothing with their subjects. -/
def Extension.IsIdle (x : Extension) : Prop :=
  ∀ name h, x.hook? name = some h → h.deeds = []

/-- An extension is idle if all that is stored in it is. -/
theorem Extension.isIdle_of_hooks {x : Extension}
    (h : ∀ entry ∈ x.hooks, ∀ hook, entry.2 = some hook → hook.deeds = []) : x.IsIdle := by
  intro name hook hhook
  exact h _ (mem_of_hook? hhook) hook rfl

namespace Extension

variable {es : List Extension} (hidle : ∀ x ∈ es, x.IsIdle) (name : String) (s : Scene)

include hidle

/-- Hooks without deeds preserve whatever is said of their subjects. -/
theorem keeps_of_isIdle (P : List Subject → Prop) : ∀ x ∈ es, x.Keeps P name := by
  intro x hx h hhook d hd
  rw [hidle x hx name h hhook] at hd
  cases hd

/-- An announcement to idle extensions leaves the subjects alone. -/
theorem subjects_announce : (announce name es s).2.subjects = s.subjects :=
  announce_keeps (P := (· = s.subjects)) (keeps_of_isIdle hidle name _) rfl

/-- A broadcast to idle extensions leaves the subjects alone. -/
theorem subjects_broadcast : (broadcast name es s).2.subjects = s.subjects :=
  broadcast_keeps (P := (· = s.subjects)) (keeps_of_isIdle hidle name _) rfl

end Extension

/-! ## Calls -/

namespace Editor

section Calls

variable {e : Editor} (hidle : ∀ x ∈ e.extensions, x.IsIdle) (hook : String)
  (subjects : List Subject)

include hidle

private theorem exec_announce : ∃ answers o, (announce hook subjects).exec e =
    (.ok (answers, subjects), { e with outside := o }) := by
  have hkept := Extension.subjects_announce hidle hook ⟨subjects ++ [.editor], e.outside⟩
  rcases hcall : Extension.announce hook e.extensions ⟨subjects ++ [.editor], e.outside⟩ with
    ⟨answers, scene⟩
  rw [hcall] at hkept
  have hsubjects : scene.subjects.dropLast = subjects := by
    rw [show scene.subjects = subjects ++ [.editor] from hkept, List.dropLast_concat]
  refine ⟨answers, scene.outside, ?_⟩
  rw [announce, Act.exec_bind, Act.exec_get]
  simp only [hcall, hsubjects, Act.exec_bind, Act.exec_set, Act.exec_pure]

private theorem exec_broadcast : ∃ answers o, (broadcast hook subjects).exec e =
    (.ok (answers, subjects), { e with outside := o }) := by
  rw [broadcast, Act.exec_bind, Act.exec_get]
  dsimp only
  split
  · exact ⟨[], e.outside, rfl⟩
  · have hkept := Extension.subjects_broadcast hidle hook ⟨subjects ++ [.editor], e.outside⟩
    rcases hcall : Extension.broadcast hook e.extensions ⟨subjects ++ [.editor], e.outside⟩ with
      ⟨answers, scene⟩
    rw [hcall] at hkept
    have hsubjects : scene.subjects.dropLast = subjects := by
      rw [show scene.subjects = subjects ++ [.editor] from hkept, List.dropLast_concat]
    refine ⟨answers, scene.outside, ?_⟩
    simp only [Act.exec_bind, Act.exec_wait, Act.exec_get, hcall, hsubjects, Act.exec_set,
      Act.exec_pure]

end Calls

/-! ## Loads -/

private theorem modifyNode_eq_self {γ : Type} {g : Graph γ} (hids : (g.nodes.map (·.id)).Nodup)
    {id : NodeId}
    {f : Node γ → Node γ} (h : ∀ n, g.at? id = some n → f n = n) : g.modifyNode id f = g := by
  have hnodes : g.nodes.map (fun n => if n.id = id then f n else n) = g.nodes := by
    refine (List.map_congr_left fun n hn => ?_).trans (List.map_id' g.nodes)
    split
    · rename_i hid
      exact h n (hid ▸ Graph.at?_of_mem hids hn)
    · rfl
  rw [Graph.modifyNode, hnodes]

/-- A node that gets the title and the widgets that it has stays as it is. -/
theorem modifyAt_eq_self {g : Workflow} (hdistinct : Distinct g) {place : Place} {s : Site}
    (hs : siteAt? g place = some s) :
    modifyAt place (fun n => { n with title := s.title, widgets := s.widgets })
      (fun n => { n with title := s.title, widgets := s.widgets }) g = g := by
  cases place with
  | outer id =>
    refine modifyNode_eq_self hdistinct.outer fun n hn => ?_
    rw [siteAt?_outer, hn] at hs
    cases hs
    rfl
  | inner host id =>
    refine modifyNode_eq_self hdistinct.outer fun n hn => ?_
    rcases Option.bind_eq_some_iff.1 hs with ⟨n', hn', hs⟩
    rcases Option.bind_eq_some_iff.1 hs with ⟨x, hx, hs⟩
    rcases Option.bind_eq_some_iff.1 hs with ⟨m, hm, hs⟩
    cases hs
    cases hn.symm.trans hn'
    have hself : x.graph.modifyNode id
        (fun k => { k with title := m.title, widgets := m.widgets }) = x.graph := by
      refine modifyNode_eq_self (hdistinct.inner n (Graph.mem_of_at? hn) x hx) fun k hk => ?_
      cases hk.symm.trans hm
      rfl
    have hkind := Node.kind_eq_of_group? hx
    simp only [hkind, Site.title, Site.widgets, hself]
    rw [← hkind]

variable {e : Editor} (hidle : ∀ x ∈ e.extensions, x.IsIdle)

include hidle

private theorem exec_offerDocument (d : Document) : ∃ o, (offerDocument d).exec e =
    (.ok (d, []), { e with outside := o }) := by
  rcases exec_broadcast hidle "before_configure_graph" [.document d, .missing []] with
    ⟨answers, o, hexec⟩
  refine ⟨o, ?_⟩
  rw [offerDocument, Act.exec_bind, hexec]
  rfl

private theorem exec_offerNode {g : Workflow} (hdistinct : Distinct g) (place : Place) :
    ∃ o, (offerNode g place).exec e = (.ok g, { e with outside := o }) := by
  unfold offerNode
  cases hs : siteAt? g place with
  | none => exact ⟨e.outside, rfl⟩
  | some s =>
    rcases exec_announce hidle "loaded_graph_node" [.node place.node s.title s.widgets] with
      ⟨answers, o, hexec⟩
    refine ⟨o, ?_⟩
    dsimp only
    rw [Act.exec_bind, hexec]
    dsimp only
    rw [Act.exec_pure, modifyAt_eq_self hdistinct hs]

private theorem exec_settleNodes (reset : Bool) {g : Workflow} (hkeys : DistinctKeys g)
    (places : List Place) : ∃ o, (settleNodes reset g places).exec e =
      (.ok (places.foldl (patchAt reset) g), { e with outside := o }) := by
  induction places generalizing g e with
  | nil => exact ⟨e.outside, rfl⟩
  | cons place places ih =>
    have hkeys' := distinctKeys_of_names (names_patchAt reset g place) hkeys
    rcases exec_offerNode hidle hkeys'.distinct place with ⟨o, hexec⟩
    rcases ih (e := { e with outside := o }) hidle hkeys' with ⟨o', hrest⟩
    refine ⟨o', ?_⟩
    rw [settleNodes, Act.exec_bind, hexec]
    exact hrest

/-- The graph of a source and its missing types are those that the registry loads. -/
theorem exec_assemble (source : LoadSource) : ∃ o, (assemble source).exec e =
    (e.registry.load source, { e with outside := o }) := by
  rw [assemble, Act.exec_bind, Act.exec_lift]
  cases hread : source.read with
  | error f =>
    rw [Registry.load, hread]
    exact ⟨e.outside, rfl⟩
  | ok d =>
    have hload : e.registry.load source = (e.registry.assemble (d.normalize e.registry.knows).1).map
        fun g => (patch source.resets g,
          (d.normalize e.registry.knows).2.map MissingType.ofEntry) := by
      rw [Registry.load, hread]
      cases hassemble : e.registry.assemble (d.normalize e.registry.knows).1 with
      | error f => simp only [bind, Except.bind, hassemble, Except.map]
      | ok g => simp only [bind, Except.bind, hassemble, Except.map, pure, Except.pure]
    rcases exec_offerDocument hidle d with ⟨o₁, hoffer⟩
    dsimp only
    rw [Act.exec_bind, hoffer]
    dsimp only
    rw [Act.exec_bind, Act.exec_get]
    dsimp only
    rw [Act.exec_bind, Act.exec_lift, hload]
    cases hassemble : e.registry.assemble (d.normalize e.registry.knows).1 with
    | error f => exact ⟨o₁, rfl⟩
    | ok g =>
      rcases exec_settleNodes (e := { e with outside := o₁ }) hidle source.resets
        (Registry.assemble_distinctKeys hassemble) ((sites g).map (·.place)) with ⟨o₂, hsettle⟩
      rcases exec_broadcast (e := { e with outside := o₂ }) hidle "after_configure_graph"
        [.missing (((d.normalize e.registry.knows).2.map MissingType.ofEntry).map .known)] with
        ⟨answers, o₃, hafter⟩
      refine ⟨o₃, ?_⟩
      dsimp only
      rw [Act.exec_bind, hsettle]
      dsimp only
      rw [Act.exec_bind]
      simp only [List.nil_append, hafter]
      rfl

omit hidle in
/-- Where the view shows whatever it is given, showing something changes the outside only. -/
theorem exec_display (hshows : e.view.Shows) (entry : Trace.Entry) :
    ∃ o, (display entry).exec e = (.ok ⟨⟩, { e with outside := o }) := by
  rw [display, Act.exec_bind, Act.exec_get]
  dsimp only
  split
  · exact ⟨e.outside, rfl⟩
  · rw [hshows]
    exact ⟨_, rfl⟩

omit hidle in
/-- A clean load forgets what the last runs left, and reads none of it. -/
theorem exec_load_clean (source : LoadSource) : (load source true).exec e = (load source false).exec
    { e with outputs := [], nodeErrors := none, executionError := none, running := none } := rfl

variable (hshows : e.view.Shows) (source : LoadSource)

include hshows

/-- A document that can be loaded is shown, and nothing fails. -/
theorem exec_load_ok {g : Workflow} {missing : List MissingType}
    (hload : e.registry.load source = .ok (g, missing)) : ∃ o, (load source false).exec e =
      (.ok (some ⟨some g.nodes.length, missing⟩),
        { e with outside := o, loadError := none, graph := g }) := by
  rcases exec_assemble hidle source with ⟨o₁, hassemble⟩
  have hdisplay := fun (o : Outside) (entry : Trace.Entry) => exec_display
    (e := { e with outside := o, loadError := none, graph := g }) hshows entry
  obtain ⟨o₂, hmissing⟩ : ∃ o₂, (showMissing missing true).exec
      { e with outside := o₁, loadError := none, graph := g } =
        (.ok ⟨⟩, { e with outside := o₂, loadError := none, graph := g }) := by
    unfold showMissing
    split
    · exact ⟨o₁, rfl⟩
    · exact hdisplay o₁ _
  rcases hdisplay o₂ .redraw with ⟨o₃, hredraw⟩
  refine ⟨o₃, ?_⟩
  simp only [load, Bool.false_eq_true, if_false, Act.exec_bind, Act.exec_attempt, hassemble, hload,
    replaceGraph, redraw, Act.exec_modify, hmissing, hredraw, Act.exec_pure]

/-- A document that is refused leaves the graph, and the refusal is kept and shown. -/
theorem exec_load_refused {d : String} {l s : Option String}
    (hload : e.registry.load source = .error (.configuration d l s)) :
    ∃ o, (load source false).exec e =
      (.ok none, { e with outside := o, loadError := some (.configuration d l s) }) := by
  rcases exec_assemble hidle source with ⟨o₁, hassemble⟩
  rcases exec_display (e := { e with outside := o₁, loadError := some (.configuration d l s) })
    hshows (.dialog (dialogText (loadReport (.configuration d l s)))) with ⟨o₂, hdialog⟩
  refine ⟨o₂, ?_⟩
  simp only [load, Bool.false_eq_true, if_false, Act.exec_bind, Act.exec_attempt, hassemble, hload,
    showDialog, Act.exec_modify, hdialog, Act.exec_pure]

omit hshows in
/-- Another failure of a load leaves the editor alone. -/
theorem exec_load_failed {f : Fault} (hload : e.registry.load source = .error f)
    (hf : ∀ d l s, f ≠ .configuration d l s) :
    ∃ o, (load source false).exec e = (.error f, { e with outside := o }) := by
  rcases exec_assemble hidle source with ⟨o₁, hassemble⟩
  refine ⟨o₁, ?_⟩
  simp only [load, Bool.false_eq_true, if_false, Act.exec_bind, Act.exec_attempt, hassemble, hload,
    Act.exec_throw]

end Editor

end NodeFlow
