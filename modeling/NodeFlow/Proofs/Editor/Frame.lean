import NodeFlow.Editor.Queue
import NodeFlow.Proofs.Compile.Steps
import NodeFlow.Proofs.Editor.Echo
import NodeFlow.Proofs.Editor.Gathering

/-!
# What goes on beside the queue

Compiling a graph, what the backend does to the graph and dealing with its answer change many parts of
the editor, but neither the requests that wait nor the mark that somebody works on them.  They hand
nothing to the backend and do not announce the end of a run either, and the view goes on showing what
it has shown before.

Main results:

- Definition `Outside.announcements`: the ends of runs that have been announced.
- Definitions `Editor.sameQueue`, `Editor.unspoken` and `Editor.aside`: what leaves the queue alone,
  what hands nothing over and announces nothing, and what does both.
- Theorems `Editor.compile_aside`, `Editor.disturb_aside` and `Editor.conclude_aside`: the parts of a
  unit but for the submission itself.
- Theorem `Editor.submitTo_sameQueue`: a submission leaves the queue alone.
-/

namespace NodeFlow

/-! ## The outside -/

/-- The number and the batch with which the end of a run is announced. -/
def Trace.Entry.announcement? : Trace.Entry → Option (Json × Json)
  | promptQueued number batch => some (number, batch)
  | _ => none

/-- Something is handed to a backend, or the end of a run is announced. -/
def Trace.Entry.isSpoken (entry : Trace.Entry) : Bool :=
  entry.isSubmission || entry.announcement?.isSome

namespace Outside

/-- The ends of runs that have been announced, in order. -/
def announcements (o : Outside) : List (Json × Json) :=
  (o.trace.filterMap (·.announcement?)).reverse

/-- Nothing is handed to a backend, and no end of a run is announced. -/
def unspoken : Drift Outside := .keeping fun o => (o.submissions, o.announcements)

/-- What is neither a submission nor an announcement may be seen. -/
theorem unspoken_record (o : Outside) {entry : Trace.Entry} (h : entry.isSpoken = false) :
    unspoken.rel o (o.record entry) := by
  rw [Trace.Entry.isSpoken, Bool.or_eq_false_iff, Option.isSome_eq_false_iff,
    Option.isNone_iff_eq_none] at h
  refine Prod.ext (o.submissions_record h.1) ?_
  simp [announcements, record, h.2]

end Outside

open Outside

/-! ## Hooks -/

section Hooks

variable {α γ : Type}

/-- What a widget hook and the actions around it leave alone: all of the outside that is spoken. -/
abbrev unspokenBeside (X : Type) : Drift (X × Outside) := .through Prod.snd unspoken

private theorem note_unspoken {entry : Trace.Entry} (h : entry.isSpoken = false) :
    (note entry).Within unspoken := .modify fun o => o.unspoken_record h

private theorem draw_unspoken (source : RandomSource) (take : Random → α × Random) :
    (draw source take).Within unspoken := by
  intro o
  cases source <;> rfl

private theorem Hook.call_unspoken (h : Hook) {entry : Trace.Entry}
    (hentry : entry.isSpoken = false) : (h.call entry).Within unspoken := by
  refine .bind (note_unspoken hentry) fun _ => .bind (fun o => rfl) fun count => ?_
  split
  · exact .lift _
  · exact .pure _

namespace Widget

private theorem outward_unspoken {act : Act Outside α} (h : act.Within unspoken) :
    (outward act).Within (unspokenBeside (List Widget)) := .focus h fun _ _ ho => ho

private theorem assign_unspoken (i : Nat) (v : Json) :
    (assign i v).Within (unspokenBeside (List Widget)) := by
  refine .bind (.modify fun b => rfl) fun _ => .bind .get fun b => ?_
  split
  · rename_i w _
    refine outward_unspoken ?_
    unfold announce
    split
    · exact Hook.call_unspoken _ rfl
    · exact .pure _
  · exact .pure _

private theorem applyControl_unspoken (target : Widget) (source : RandomSource) (mode : Json)
    (i : Nat) : (applyControl target source mode i).Within (unspokenBeside (List Widget)) := by
  unfold applyControl
  split
  · exact .pure _
  · refine .bind (outward_unspoken (draw_unspoken _ _)) fun _ => .bind (.lift _) fun next => ?_
    split
    · exact assign_unspoken _ _
    · exact .pure _

private theorem sentValue_unspoken (w : Widget) (node : NodeId) (i : Nat) :
    (w.sentValue node i).Within unspoken := by
  unfold sentValue
  split
  · exact .pure _
  · exact .bind (Hook.call_unspoken _ rfl) fun _ => .pure _

end Widget

namespace QueueHook

private theorem follow_unspoken (name : String) (h : Hook) (i : Nat) :
    (follow name h i).Within (unspokenBeside (List Widget)) := by
  refine .bind .get fun b => ?_
  split
  · exact .pure _
  · refine .bind (Widget.outward_unspoken (Hook.call_unspoken _ rfl)) fun _ => ?_
    extract_lets rest
    have hrest : ∀ u, (rest u).Within (unspokenBeside (List Widget)) := by
      intro u
      refine .bind .get fun b => ?_
      split
      · exact .bind (.lift _) fun _ => Widget.assign_unspoken _ _
      · exact .pure _
    split
    · exact .bind (Widget.assign_unspoken _ _) hrest
    · exact hrest ⟨⟩

private theorem run_unspoken (h : QueueHook) (name : String) (i : Nat) :
    (h.run name i).Within (unspokenBeside (List Widget)) := by
  induction h with
  | advance source =>
    refine .bind .get fun b => ?_
    dsimp only
    split
    · exact Widget.applyControl_unspoken _ _ _ _
    · exact .pure _
  | scripted h => exact follow_unspoken name h i
  | chained h previous ih => exact .bind (follow_unspoken name h i) fun _ => ih

end QueueHook

namespace Graph

private theorem onWidgets_unspoken (id : NodeId) {act : Act Bench α}
    (h : act.Within (unspokenBeside (List Widget))) :
    (onWidgets id act : Act (Graph γ × Outside) α).Within (unspokenBeside (Graph γ)) :=
  .focus h fun _ _ ho => ho

private theorem pushValue_unspoken (id : NodeId) :
    (pushValue id : Act (Graph γ × Outside) PUnit).Within (unspokenBeside (Graph γ)) := by
  refine .bind .get fun s => ?_
  dsimp only
  split
  · exact .pure _
  · split
    · exact .bind (.lift _) fun _ => .each fun _ => onWidgets_unspoken _ (Widget.assign_unspoken _ _)
    · exact .pure _

end Graph

end Hooks

/-! ## Extensions -/

private theorem ExtensionHook.perform_unspoken (h : ExtensionHook) (owner : Json) (name : String)
    (s : Scene) : unspoken.rel s.outside (h.perform owner name s).2.outside := by
  rcases (h.perform_snd owner name s).2 with houtside | houtside <;> rw [houtside]
  · exact unspoken.refl _
  · exact unspoken_record _ rfl

namespace Extension

private theorem callee_unspoken {name : String} {es : List Extension} {o : Outside} :
    ∀ c ∈ es.map (callee name), ∀ h, c.hook = some h →
      h.act.Keeps fun s => unspoken.rel o s.outside := by
  intro c hc h hhook
  obtain ⟨x, -, rfl⟩ := List.mem_map.1 hc
  obtain ⟨k, -, rfl⟩ := Option.map_eq_some_iff.1 hhook
  exact .bind (.modify fun s hs => unspoken.trans hs (unspoken_record _ rfl)) fun _ =>
    .bind (.waitFor _) fun _ s hs => unspoken.trans hs (k.perform_unspoken x.name name s)

private theorem announce_unspoken (name : String) (es : List Extension) (s : Scene) :
    unspoken.rel s.outside (announce name es s).2.outside := by
  rw [announce_eq_tellEach]
  exact tellEach_keeps callee_unspoken (unspoken.refl _)

private theorem broadcast_unspoken (name : String) (es : List Extension) (s : Scene) :
    unspoken.rel s.outside (broadcast name es s).2.outside := by
  rw [broadcast_eq_gatherAll name es s (Nat.le_refl _)]
  exact gatherAll_keeps callee_unspoken (unspoken.refl _)

end Extension

namespace Editor

/-! ## The editor -/

/-- The requests that wait and the mark that somebody works on them stay as they are. -/
def sameQueue : Drift Editor := .keeping fun e => (e.pending, e.draining)

/-- The backend stays as it is, the view goes on showing what it has shown before, and nothing is
handed over or announced. -/
def unspoken : Drift Editor := .keeping fun e =>
  (e.backend, e.view.silent, e.view.objects, e.outside.submissions, e.outside.announcements)

/-- The queue is left alone, and nothing is handed over or announced. -/
def aside : Drift Editor where
  rel e u := sameQueue.rel e u ∧ unspoken.rel e u
  refl e := ⟨sameQueue.refl e, unspoken.refl e⟩
  trans h h' := ⟨sameQueue.trans h.1 h'.1, unspoken.trans h.2 h'.2⟩

variable {α : Type}

/-- The graph and the outside may change. -/
theorem aside_scene (e : Editor) (g : Workflow) {o : Outside}
    (h : Outside.unspoken.rel e.outside o) : aside.rel e { e with graph := g, outside := o } :=
  ⟨rfl, congrArg (fun spoken => (e.backend, e.view.silent, e.view.objects, spoken)) h⟩

/-! ## The collaborators -/

private theorem outward_aside {act : Act Outside α} (h : act.Within Outside.unspoken) :
    (outward act).Within aside := .focus h fun e _ ho => aside_scene e e.graph ho

private theorem onGraph_aside {act : Act (Workflow × Outside) α}
    (h : act.Within (unspokenBeside Workflow)) :
    (onGraph act).Within aside := .focus h fun e s ho => aside_scene e s.1 ho

private theorem onInner_unspoken (host : NodeId) {act : Act (Subgraph × Outside) α}
    (h : act.Within (unspokenBeside Subgraph)) :
    (onInner host act).Within (unspokenBeside Workflow) := .focus h fun _ _ ho => ho

private theorem onPlace_aside (place : Place) {act : Act Bench α}
    (h : act.Within (unspokenBeside (List Widget))) : (onPlace place act).Within aside := by
  cases place with
  | outer id => exact onGraph_aside (Graph.onWidgets_unspoken id h)
  | inner host id => exact onGraph_aside (onInner_unspoken host (Graph.onWidgets_unspoken id h))

private theorem pushAt_aside (place : Place) : (pushAt place).Within aside := by
  cases place with
  | outer id => exact onGraph_aside (Graph.pushValue_unspoken id)
  | inner host id => exact onGraph_aside (onInner_unspoken host (Graph.pushValue_unspoken id))

/-- Showing something that is neither a submission nor an announcement leaves queue and
announcements alone. -/
theorem display_aside {entry : Trace.Entry} (h : entry.isSpoken = false) :
    (display entry).Within aside := by
  refine .bind .get fun e => ?_
  split
  · exact .pure _
  · split
    · exact .throw _
    · exact outward_aside (note_unspoken h)

private theorem broadcast_aside (hook : String) (subjects : List Subject) :
    (broadcast hook subjects).Within aside := by
  refine .bind .get fun e => ?_
  split
  · exact .pure _
  · exact .bind .wait fun _ => .bind_get fun e =>
      aside_scene e e.graph (Extension.broadcast_unspoken hook e.extensions _)

private theorem announce_aside (hook : String) (subjects : List Subject) :
    (announce hook subjects).Within aside := .bind_get fun e =>
  aside_scene e e.graph (Extension.announce_unspoken hook e.extensions _)

/-! ## Compilation -/

private theorem sentValues_aside (node : NodeId) (i : Nat) (ws : List Widget) (sent : Members) :
    (sentValues node i ws sent).Within aside := by
  induction ws generalizing i sent with
  | nil => exact .pure _
  | cons w ws ih =>
    rw [sentValues]
    split
    · exact .bind (.waitFor _) fun _ =>
        .bind (outward_aside (w.sentValue_unspoken node i)) fun _ => ih _ _
    · exact ih _ _

private theorem buildSteps_aside (g : Workflow) (maxHops : Int) (titled : Bool) (sites : List Site)
    (output : Output) : (buildSteps g maxHops titled sites output).Within aside := by
  induction sites generalizing output with
  | nil => exact .pure _
  | cons s sites ih =>
    rw [buildSteps]
    split
    · exact .bind (sentValues_aside _ _ _ _) fun _ => .bind (.lift _) fun _ => ih _
    · exact ih _

private theorem expandSteps_aside (g : Workflow) (maxHops : Int) (titled : Bool) (sites : List Site)
    (output : Output) : (expandSteps g maxHops titled sites output).Within aside := by
  induction sites generalizing output with
  | nil => exact .pure _
  | cons s sites ih =>
    exact .bind (.lift _) fun _ => .bind (buildSteps_aside _ _ _ _ _) fun _ => ih _

private theorem runBefore_aside (place : Place) : (runBefore place).Within aside := by
  refine .bind .get fun e => .each fun i => ?_
  split
  · exact onPlace_aside place (QueueHook.run_unspoken _ _ _)
  · exact .pure _

private theorem prepareNode_aside (id : NodeId) : (prepareNode id).Within aside := by
  refine .bind .get fun e => ?_
  split
  · exact .pure _
  · exact .bind (.lift _) fun _ => .bind (.each fun _ => runBefore_aside _) fun _ =>
      .bind (.lift _) fun _ => .each fun _ => pushAt_aside _

/-- A compilation leaves the queue alone, and nothing is handed over or announced. -/
theorem compile_aside : compile.Within aside := by
  refine .bind .get fun e => .bind (.lift _) fun order =>
    .bind (.each fun _ => prepareNode_aside _) fun _ => .bind .get fun e => ?_
  exact .bind (.bind (expandSteps_aside _ _ _ _ _) fun _ => .pure _) fun _ => .pure _

/-! ## The backend -/

private theorem settleNodes_aside (reset : Bool) (g : Workflow) (places : List Place) :
    (settleNodes reset g places).Within aside := by
  induction places generalizing g with
  | nil => exact .pure _
  | cons place places ih =>
    refine .bind ?_ fun _ => ih _
    unfold offerNode
    split
    · refine .bind (announce_aside _ _) fun answer => ?_
      split <;> exact .pure _
    · exact .pure _

private theorem assemble_aside (source : LoadSource) : (assemble source).Within aside := by
  refine .bind (.lift _) fun d => .bind ?_ fun offered => .bind .get fun e => ?_
  · refine .bind (broadcast_aside _ _) fun answer => ?_
    split <;> exact .pure _
  · exact .bind (.lift _) fun _ => .bind (settleNodes_aside _ _ _) fun _ =>
      .bind (broadcast_aside _ _) fun _ => .pure _

private theorem showMissing_aside (missing : List MissingType) (nodesAdded : Bool) :
    (showMissing missing nodesAdded).Within aside := by
  unfold showMissing
  split
  · exact .pure _
  · exact display_aside rfl

private theorem load_aside (source : LoadSource) (isClean : Bool) :
    (load source isClean).Within aside := by
  unfold load
  extract_lets rest
  have hrest : ∀ u, (rest u).Within aside := by
    intro u
    refine .bind (.attempt (assemble_aside _)) fun outcome => ?_
    split
    · exact .bind (.modify fun _ => ⟨rfl, rfl⟩) fun _ => .bind (.modify fun _ => ⟨rfl, rfl⟩) fun _ =>
        .bind (showMissing_aside _ _) fun _ => .bind (display_aside rfl) fun _ => .pure _
    · exact .bind (.modify fun _ => ⟨rfl, rfl⟩) fun _ => .bind (display_aside rfl) fun _ => .pure _
    · exact .throw _
  split
  · exact .bind (.modify fun _ => ⟨rfl, rfl⟩) hrest
  · exact hrest ⟨⟩

/-- What a reply does to the graph leaves the queue alone, and nothing is handed over or announced. -/
theorem disturb_aside (reply : BackendReply) : (disturb reply).Within aside := by
  unfold disturb
  extract_lets rest
  have hrest : ∀ u, (rest u).Within aside := by
    intro u
    dsimp only [rest]
    split
    · exact .bind (load_aside _ _) fun _ => .pure _
    · exact .pure _
  split
  · exact .bind (.focus_free _ fun e g => ⟨rfl, rfl⟩) hrest
  · exact hrest ⟨⟩

/-! ## The answer -/

/-- Showing a failure leaves queue and announcements alone. -/
theorem showFailure_aside (f : Fault) : (showFailure f).Within aside :=
  .bind (.lift _) fun _ => display_aside rfl

private theorem settle_aside (p : Prompt) : (settle p).Within aside := by
  refine .each fun id => .bind .get fun e => .bind (.lift _) fun found => ?_
  split
  · exact .pure _
  · refine .bind (.lift _) fun sites => .each fun s => .bind .get fun e => .each fun i => ?_
    split
    · exact .bind (.attempt (onPlace_aside _ (QueueHook.run_unspoken _ _ _))) fun _ => .pure _
    · exact .pure _

private theorem showQueue_aside : showQueue.Within aside := by
  refine .bind .get fun e => .bind (.waitFor _) fun _ => .bind .get fun e => ?_
  dsimp only
  split
  · exact .pure _
  · refine .bind (.modify fun _ => ⟨rfl, rfl⟩) fun _ => .bind (display_aside rfl) fun _ => ?_
    split
    · exact .pure _
    · exact .throw _
    · exact .pure _

private theorem keepComplaints_aside (f : Fault) : (keepComplaints f).Within aside := by
  unfold keepComplaints
  split
  · split
    · exact .bind (.modify fun _ => ⟨rfl, rfl⟩) fun _ => display_aside rfl
    · exact .pure _
  · exact .pure _

private theorem keepAnswer_aside (answer : QueueResponse) : (keepAnswer answer).Within aside := by
  unfold keepAnswer
  split
  · exact .modify fun _ => ⟨rfl, rfl⟩
  · exact .bind (.modify fun _ => ⟨rfl, rfl⟩) fun _ => display_aside rfl

/-- Dealing with an answer leaves the queue alone, and nothing is handed over or announced. -/
theorem conclude_aside (p : Prompt) (answer : Except Fault QueueResponse) :
    (conclude p answer).Within aside := by
  unfold conclude
  extract_lets rest
  have hrest : ∀ u, (rest u).Within aside := fun _ =>
    .bind (settle_aside p) fun _ => .bind (display_aside rfl) fun _ => showQueue_aside
  split
  · exact .bind (keepAnswer_aside _) hrest
  · exact .bind (showFailure_aside _) fun _ => .bind (keepComplaints_aside _) hrest

/-! ## The queue -/

/-- What leaves queue and announcements alone leaves the queue alone. -/
theorem sameQueue_of_aside (e u : Editor) (h : aside.rel e u) : sameQueue.rel e u := h.1

/-- Whatever is shown, the queue stays. -/
theorem display_sameQueue (entry : Trace.Entry) : (display entry).Within sameQueue := by
  refine .bind .get fun e => ?_
  split
  · exact .pure _
  · split
    · exact .throw _
    · exact .focus_free _ fun _ _ => rfl

/-- A submission leaves the queue alone. -/
theorem submitTo_sameQueue (number : Int) (p : Prompt) :
    (submitTo number p).Within sameQueue := by
  refine .bind .get fun e => ?_
  split
  · exact .bind (.modify fun _ => rfl) fun _ => .bind (.focus_free _ fun _ _ => rfl) fun _ =>
      .bind (.waitFor _) fun _ => .bind ((disturb_aside _).mono sameQueue_of_aside) fun _ => .lift _
  · exact .bind (.waitFor _) fun _ => .focus_free _ fun _ _ => rfl

end Editor

end NodeFlow
