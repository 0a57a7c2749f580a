import NodeFlow.Proofs.Editor.Handing

/-!
# What follows an answer

Whatever the backend answers, a view that shows everything shows it, one round of hooks runs, and the
view of the queue is brought up to date, which changes nothing that a later unit reads.

Main results:

- Definition `View.Shows`: views that fail to show nothing.
- Definition `Editor.IsCalm`: what happens at once and leaves the graph alone.
- Theorem `Editor.conclude_eq`: what follows an answer is a round of hooks, and then the view.
-/

namespace NodeFlow

open Workflow Fault

/-- The view shows whatever it is asked to show. -/
def View.Shows (v : View) : Prop := ∀ seen entry, v.objects seen entry = none

namespace Editor

/-! ## The view -/

/-- Showing something that is no submission leaves the editor still. -/
theorem display_still {entry : Trace.Entry} (hentry : entry.isSubmission = false) :
    (display entry).Within still := by
  refine .bind .get fun e => ?_
  split
  · exact .pure _
  · split
    · exact .throw _
    · exact .focus (E := .keeping fun o => (o.own, o.shared, o.calls, o.submissions))
        (.modify fun o => by simp [Drift.keeping, Outside.submissions, Outside.record, hentry])
        fun e o ho => ⟨rfl, rfl, rfl, rfl, congrArg (·.1) ho, congrArg (·.2.1) ho,
          congrArg (·.2.2.1) ho, congrArg (·.2.2.2) ho⟩

/-- Showing the queue leaves the editor still. -/
theorem showQueue_still : showQueue.Within still := by
  refine .bind .get fun e => .bind (.waitFor _) fun _ => .bind .get fun e => ?_
  dsimp only
  split
  · exact .pure _
  · refine .bind (.modify fun _ => ⟨rfl, rfl, rfl, rfl, rfl, rfl, rfl, rfl⟩) fun _ =>
      .bind (display_still rfl) fun _ => ?_
    split
    · exact .pure _
    · exact .throw _
    · exact .pure _

/-- If the view shows everything, the action is done at once and succeeds, and it leaves the graph and
what hooks read alone. -/
def IsCalm (act : EditorAct PUnit) : Prop :=
  ∀ e : Editor, e.view.Shows → ∃ u, act e = .ended (.ok ⟨⟩) u ∧ Still e u

private theorem Still.shows {e u : Editor} (h : Still e u) (hview : e.view.Shows) :
    u.view.Shows := by
  unfold View.Shows
  rw [h.objects]
  exact hview

namespace IsCalm

private theorem pure : IsCalm (Pure.pure ⟨⟩) := fun e _ => ⟨e, rfl, still.refl e⟩

private theorem modify {f : Editor → Editor} (h : ∀ e, Still e (f e)) :
    IsCalm (modify f) := fun e _ => ⟨f e, rfl, h e⟩

/-- What comes next goes on from a state that others may have left. -/
theorem exists_next {act : EditorAct PUnit} (h : IsCalm act) {e : Editor} (hview : e.view.Shows) :
    ∃ u, Still e u ∧ ∀ {β : Type} (f : PUnit → EditorAct β), (act >>= f) e = f ⟨⟩ u := by
  rcases h e hview with ⟨u, hact, hstill⟩
  exact ⟨u, hstill, fun f => congrArg (Course.andThen · f) hact⟩

private theorem bind {act : EditorAct PUnit} {f : PUnit → EditorAct PUnit} (h : IsCalm act)
    (hf : IsCalm (f ⟨⟩)) : IsCalm (act >>= f) := by
  intro e hview
  rcases h.exists_next hview with ⟨u, hstill, hnext⟩
  rcases hf u (hstill.shows hview) with ⟨v, hrest, hstill'⟩
  exact ⟨v, (hnext f).trans hrest, still.trans hstill hstill'⟩

end IsCalm

private theorem isCalm_display {entry : Trace.Entry} (hentry : entry.isSubmission = false) :
    IsCalm (display entry) := by
  intro e hview
  have hstill := (display_still hentry).exec e
  rw [display, Act.exec_bind, Act.exec_get] at hstill
  dsimp only at hstill
  rw [display, Act.bind_get_apply]
  split at hstill
  · rename_i hsilent
    rw [if_pos hsilent]
    exact ⟨e, rfl, hstill⟩
  · rename_i hsilent
    rw [if_neg hsilent]
    rw [hview] at hstill ⊢
    exact ⟨_, rfl, hstill⟩

private theorem isCalm_keepAnswer (answer : QueueResponse) : IsCalm (keepAnswer answer) := by
  unfold keepAnswer
  split
  · exact .modify fun _ => ⟨rfl, rfl, rfl, rfl, rfl, rfl, rfl, rfl⟩
  · exact .bind (.modify fun _ => ⟨rfl, rfl, rfl, rfl, rfl, rfl, rfl, rfl⟩) (isCalm_display rfl)

private theorem isCalm_keepComplaints (f : Fault) : IsCalm (keepComplaints f) := by
  unfold keepComplaints
  split
  · split
    · exact .bind (.modify fun _ => ⟨rfl, rfl, rfl, rfl, rfl, rfl, rfl, rfl⟩) (isCalm_display rfl)
    · exact .pure
  · exact .pure

private theorem isCalm_showFailure {f : Fault} (h : f.IsShowable) : IsCalm (showFailure f) := by
  rcases h with ⟨text, htext⟩
  rw [showFailure, htext]
  have hcalm : IsCalm (showDialog text) := isCalm_display rfl
  exact hcalm

/-! ## Answers -/

/-- What follows an answer that can be shown is one round of hooks, and then the view is brought up to
date. -/
theorem conclude_eq {e t : Editor} {K : Nat → Prop} {sent : List Trace.Entry}
    (hdistinct : Distinct t.graph)
    (hplaces : ∀ n ∈ t.graph.nodes, ∃ hooked, hookPlaces n = .ok hooked) {p : Prompt}
    (hp : p.workflow.nodes.map (·.id) = t.graph.nodes.map (·.id)) (h : e.Echoes K sent t)
    (hview : e.view.Shows) {answer : Except Fault QueueResponse} (hanswer : FailsOpenly answer) :
    ∃ u, conclude p answer e = showQueue u ∧ u.Echoes K sent t.settled ∧ u.backend = e.backend ∧
      u.view.objects = e.view.objects := by
  -- what the backend says is kept and shown
  obtain ⟨e₁, hkept, hstart⟩ : ∃ e₁, Still e e₁ ∧ conclude p answer e =
      ((settle p >>= fun _ => redraw >>= fun _ => showQueue : EditorAct (Option Call)) e₁) := by
    cases answer with
    | ok a =>
      rcases (isCalm_keepAnswer a).exists_next hview with ⟨e₁, hkept, hnext⟩
      exact ⟨e₁, hkept, hnext _⟩
    | error f =>
      rcases (isCalm_showFailure (hanswer f rfl)).exists_next hview with ⟨e₁, hshown, hnext⟩
      rcases (isCalm_keepComplaints f).exists_next (hshown.shows hview) with ⟨e₂, hkept, hnext'⟩
      exact ⟨e₂, still.trans hshown hkept, (hnext _).trans (hnext' _)⟩
  -- the hooks run as they do after the preparation of the round
  have hechoes : e₁.Echoes K sent t := h.of_sends hkept.sends
  have hround := exec_settle hdistinct hplaces hp (e := e₁) (by rw [hechoes.graph])
  have hmirrors : (Act.each (roundPlaces t.graph) runAfter).Mirrors (Echoes K sent) :=
    .each runAfter_mirrors
  rcases hmirrors e₁ t hechoes with ⟨-, hsettled⟩
  have hfine := Act.exec_each_fst exec_runAfter_fst (roundPlaces t.graph) e₁
  rcases hrun : (Act.each (roundPlaces t.graph) runAfter).exec e₁ with ⟨r, e₂⟩
  rw [hrun] at hsettled hfine hround
  dsimp only at hsettled hfine
  subst hfine
  have hscene : onlyScene.rel e₁ e₂ :=
    Act.Within.of_exec (.each fun _ => runAfter_onlyScene _) hrun
  have hview₂ : e₂.view = e₁.view := congrArg (·.view) hscene
  have hnext : ((settle p >>= fun _ => redraw >>= fun _ => showQueue : EditorAct (Option Call)) e₁) =
      ((redraw >>= fun _ => showQueue : EditorAct (Option Call)) e₂) := by
    have hended : settle p e₁ = .ended (.ok ⟨⟩) e₂ := by rw [settle_isStraight p e₁, hround]
    exact congrArg (Course.andThen · _) hended
  -- and the graph is drawn again
  have hcalm : IsCalm redraw := isCalm_display rfl
  have hshows : e₂.view.Shows := by
    rw [hview₂]
    exact hkept.shows hview
  rcases hcalm.exists_next hshows with ⟨u, hdrawn, hlast⟩
  refine ⟨u, ?_, hsettled.of_sends hdrawn.sends, ?_, ?_⟩
  · rw [hstart, hnext]
    exact hlast _
  · rw [hdrawn.backend, ← hkept.backend]
    exact congrArg (·.backend) hscene
  · rw [hdrawn.objects, hview₂, hkept.objects]

end Editor

end NodeFlow
