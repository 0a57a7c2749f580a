import NodeFlow.Proofs.Editor.Batches

/-!
# Answers and the hooks after them

A unit ends with the answer of the backend: what it says is kept or shown, then the hooks run that come
after a submission.  These are looked up in the workflow that is in place by then, under the ids of the
document of the prompt.

Main results:

- Structure `Prompt.ComesFrom` and theorem `Editor.compile_comesFrom`: a prompt has the nodes of the
  workflow that it was compiled from.
- Definition `Editor.deal` and theorem `Editor.conclude_eq_runUnder`: what follows an answer.
- Theorem `Editor.conclude_eq_round`: it is one round of hooks if the workflow is still in place.
-/

namespace NodeFlow

open Workflow

/-! ## What a prompt says about its workflow -/

/-- The document of a prompt has the nodes of a workflow, whose hooks all have their order. -/
structure Prompt.ComesFrom (g : Workflow) (p : Prompt) : Prop where
  ids : p.workflow.nodes.map (·.id) = g.nodes.map (·.id)
  places : ∀ n ∈ g.nodes, ∃ hooked, hookPlaces n = .ok hooked

private theorem Course.ensures_true {σ α : Type} {D : Drift σ} (c : Course σ α) :
    c.Ensures D fun _ _ => True := by
  induction c with
  | ended r s => trivial
  | waiting s resume ih => exact fun t _ => ih t

private theorem Course.andThen_andThen {σ α β γ : Type} (c : Course σ α) (f : α → Act σ β)
    (k : β → Act σ γ) : (c.andThen f).andThen k = c.andThen fun a s => (f a s).andThen k := by
  induction c with
  | ended r s => cases r <;> rfl
  | waiting s resume ih => exact congrArg (Course.waiting s) (funext ih)

namespace Editor

variable {e : Editor}

/-- Whatever others do while a compilation waits, its prompt comes from the workflow that was in place
when it began. -/
theorem compile_comesFrom (hdistinct : Distinct e.graph) :
    (compile e).Ensures .free fun r _ => ∀ p, r = .ok p → p.ComesFrom e.graph := by
  have hstart : compile e = ((Act.lift e.graph.plan >>= fun order => prepare order >>= fun _ =>
      MonadState.get >>= fun e => compileSites e.graph e.settings.maxHops e.settings.devMode
        ((order.filterMap e.graph.at?).map Site.outer) >>= fun output =>
          pure ⟨Workflow.save e.graph, output⟩) : EditorAct Prompt) e := rfl
  rw [hstart]
  cases horder : e.graph.plan with
  | error f =>
    rintro p ⟨⟩
  | ok order =>
    rw [Act.lift_ok_bind]
    refine Act.ensures_bind ((prepare_isStraight order).ensures
      (Q := fun r u => (prepare order).exec e = (r, u)) rfl) ?_ ?_
    · rintro _ prepared hprepare
      have hkept : skeleton prepared.graph = skeleton e.graph :=
        (prepare_sameSkeleton order).of_exec hprepare hdistinct
      have hbuilds : (compileSites prepared.graph prepared.settings.maxHops prepared.settings.devMode
          ((order.filterMap prepared.graph.at?).map Site.outer) prepared).Ensures .free
            fun _ _ => True := Course.ensures_true _
      refine Act.ensures_bind hbuilds ?_ ?_
      · rintro output u -
        rintro p ⟨⟩
        refine ⟨?_, fun n hn => ?_⟩
        · rw [ids_save, ← ids_skeleton, hkept, ids_skeleton]
        · rcases exists_places_of_prepare hdistinct horder rfl hprepare hn with ⟨hooked, _, h, -⟩
          exact ⟨hooked, h⟩
      · rintro f u - p ⟨⟩
    · rintro f u - p ⟨⟩

/-! ## What follows an answer -/

/-- Keep what the backend says, and show it if it has refused the prompt. -/
def deal : Except Fault QueueResponse → EditorAct PUnit
  | .ok answer => keepAnswer answer
  | .error f => do
    showFailure f
    keepComplaints f

private theorem display_isStraight (entry : Trace.Entry) : (display entry).IsStraight := by
  refine .bind .get fun e => ?_
  split
  · exact .pure _
  · split
    · exact .lift _
    · exact .focus (.modify _) _ _

private theorem deal_isStraight (answer : Except Fault QueueResponse) :
    (deal answer).IsStraight := by
  cases answer with
  | ok a =>
    refine (?_ : (keepAnswer a).IsStraight)
    unfold keepAnswer
    split
    · exact .modify _
    · exact .bind (.modify _) fun _ => display_isStraight _
  | error f =>
    refine .bind (.bind (.lift _) fun _ => display_isStraight _) fun _ => ?_
    unfold keepComplaints
    split
    · split
      · exact .bind (.modify _) fun _ => display_isStraight _
      · exact .pure _
    · exact .pure _

private theorem deal_sameGraph (answer : Except Fault QueueResponse) :
    (deal answer).Within (.keeping (·.graph)) := by
  have hdisplay : ∀ entry : Trace.Entry, entry.isSubmission = false →
      (display entry).Within (.keeping (·.graph)) :=
    fun _ hentry => (display_still hentry).mono fun _ _ h => h.graph
  cases answer with
  | ok a =>
    refine (?_ : (keepAnswer a).Within _)
    unfold keepAnswer
    split
    · exact .modify fun _ => rfl
    · exact .bind (.modify fun _ => rfl) fun _ => hdisplay _ rfl
  | error f =>
    refine .bind (.bind (.lift _) fun _ => hdisplay _ rfl) fun _ => ?_
    unfold keepComplaints
    split
    · split
      · exact .bind (.modify fun _ => rfl) fun _ => hdisplay _ rfl
      · exact .pure _
    · exact .pure _

private theorem conclude_eq_deal (p : Prompt) (answer : Except Fault QueueResponse) :
    conclude p answer = (do
      deal answer
      settle p
      redraw
      showQueue : EditorAct (Option Call)) := by
  cases answer with
  | ok a => rfl
  | error f =>
    funext e
    exact (Course.andThen_andThen (showFailure f e) _ _).symm

/-- What follows an answer, where the hooks that come after the submission do what an action does. -/
theorem conclude_eq_of_settle {p : Prompt} {hooks : EditorAct PUnit} (hstraight : hooks.IsStraight)
    (hhooks : ∀ u : Editor, u.graph = e.graph → (settle p).exec u = hooks.exec u)
    (answer : Except Fault QueueResponse) :
    conclude p answer e = (do
      deal answer
      hooks
      redraw
      showQueue : EditorAct (Option Call)) e := by
  have hdealt : ∀ f : PUnit → EditorAct (Option Call), (deal answer >>= f) e =
      (Course.ended ((deal answer).exec e).1 ((deal answer).exec e).2).andThen f :=
    fun f => congrArg (Course.andThen · f) (deal_isStraight answer e)
  have hkept : ((deal answer).exec e).2.graph = e.graph := (deal_sameGraph answer).exec e
  rw [conclude_eq_deal, hdealt, hdealt]
  revert hkept
  rcases (deal answer).exec e with ⟨f | _, u⟩
  · exact fun _ => rfl
  · intro hkept
    have hsettled : settle p u = hooks u := by
      rw [settle_isStraight p u, hstraight u, hhooks u hkept]
    exact congrArg (Course.andThen · _) hsettled

private theorem runUnder_isStraight (g : Workflow) (ids : List NodeId) :
    (runUnder g ids).IsStraight :=
  .each fun _ => .bind (.lift _) fun _ => .each fun _ => runAfter_isStraight _

/-- Once the answer has been dealt with, the hooks run that the workflow in place has under the ids of
the document. -/
theorem conclude_eq_runUnder (hdistinct : Distinct e.graph) (p : Prompt)
    (answer : Except Fault QueueResponse) :
    conclude p answer e = (do
      deal answer
      runUnder e.graph (p.workflow.nodes.map (·.id))
      redraw
      showQueue : EditorAct (Option Call)) e :=
  conclude_eq_of_settle (runUnder_isStraight _ _)
    (fun _ hu => exec_settle_eq_runUnder hdistinct (congrArg skeleton hu) p) answer

/-- If the workflow that the prompt comes from is still in place, one round of its hooks runs. -/
theorem conclude_eq_round {g : Workflow} (hdistinct : Distinct g)
    (hsame : skeleton e.graph = skeleton g) {p : Prompt} (hp : p.ComesFrom g)
    (answer : Except Fault QueueResponse) :
    conclude p answer e = (do
      deal answer
      Act.each (roundPlaces g) runAfter
      redraw
      showQueue : EditorAct (Option Call)) e :=
  conclude_eq_of_settle (.each fun _ => runAfter_isStraight _)
    (fun _ hu => exec_settle hdistinct hp.places hp.ids ((congrArg skeleton hu).trans hsame)) answer

end Editor

end NodeFlow
