import NodeFlow.Proofs.Editor.Rounds

/-!
# Compilations that follow a round

Sending values to the backend calls the hooks that replace them, and changes nothing else.  Where each
of these hooks has a counter of its own, a compilation comes to the same prompt as one that starts from
the state after so many rounds, whatever others do to the queue and to the trace while it waits.

Main results:

- Definition `Editor.still`: what others may do while a unit waits.
- Definition `Editor.sending`: what sending values may do besides.
- Theorem `Editor.compile_ensures`: a compilation that starts from the state after a round.
-/

namespace NodeFlow

open Workflow

variable {K : Nat → Prop} {sent : List Trace.Entry}

/-! ## The outside -/

/-- The hook that replaces the value that is sent uses none of certain counters. -/
def Widget.SendsApart (K : Nat → Prop) (w : Widget) : Prop :=
  ∀ h, w.serializer = some h → ¬ K h.counter

/-- Whether a hook keeps to its counters does not depend on the value of its widget. -/
theorem Widget.sendsApart_bare (w : Widget) : w.bare.SendsApart K ↔ w.SendsApart K := Iff.rfl

/-- Calls are counted that do not matter. -/
def Outside.spending (K : Nat → Prop) : Drift Outside where
  rel o t := t.Follows K o ∧ t.submissions = o.submissions
  refl o := ⟨.refl o, rfl⟩
  trans h h' := ⟨h'.1.trans h.1, h'.2.trans h.2⟩

namespace Hook

private theorem exec_call_eq_ok_iff {h : Hook} {entry : Trace.Entry} {o o' : Outside} :
    (h.call entry).exec o = (.ok ⟨⟩, o') ↔ h.failure? (o.calls.getD h.counter 0 + 1) = none ∧
      ((o.record entry).countCall h.counter).2 = o' := by
  rw [call, note, Act.exec_bind, Act.exec_modify]
  dsimp only
  rw [Act.exec_bind, Act.exec_ofExec]
  have hcount : ((o.record entry).countCall h.counter).1 = o.calls.getD h.counter 0 + 1 := rfl
  rw [hcount]
  dsimp only
  cases h.failure? (o.calls.getD h.counter 0 + 1) <;> simp

/-- A hook that has stopped failing does not fail again. -/
theorem failure?_mono {h : Hook} {c c' : Nat} (hc : c ≤ c') (hfine : h.failure? c = none) :
    h.failure? c' = none := by
  unfold failure? at *
  cases hraises : h.script.raises with
  | none => rfl
  | some r =>
    cases hlimit : h.script.raiseLimit with
    | none =>
      rw [hraises, hlimit] at hfine
      cases hfine
    | some limit =>
      rw [hraises, hlimit] at hfine
      dsimp only at hfine ⊢
      split at hfine
      · cases hfine
      · rw [if_neg]
        omega

private theorem call_spending {h : Hook} (hcounter : ¬ K h.counter) {entry : Trace.Entry}
    (hentry : entry.isSubmission = false) : (h.call entry).Within (Outside.spending K) := by
  refine .bind (.modify fun o => ⟨⟨rfl, rfl, rfl, fun _ _ => rfl, fun _ => le_rfl⟩,
    o.submissions_record hentry⟩) fun _ => .bind (fun o => ?_) fun count => ?_
  · exact ⟨Outside.follows_countCall hcounter o, rfl⟩
  · split
    · exact .lift _
    · exact .pure _

end Hook

namespace Widget

variable {w : Widget}

private theorem sentValue_spending (h : w.SendsApart K) (node : NodeId) (i : Nat) :
    (w.sentValue node i).Within (Outside.spending K) := by
  unfold sentValue
  cases hw : w.serializer with
  | none => exact .pure _
  | some hook => exact .bind (Hook.call_spending (h hook hw) rfl) fun _ => .pure _

private theorem sentValue_isStraight (w : Widget) (node : NodeId) (i : Nat) :
    (w.sentValue node i).IsStraight := by
  unfold sentValue
  cases w.serializer with
  | none => exact .pure _
  | some hook => exact .bind (hook.call_isStraight _) fun _ => .pure _

/-- A value that can be sent can be sent after more calls too. -/
theorem exec_sentValue_of_follows {o t t' : Outside} (h : o.Follows K t) {node : NodeId} {i : Nat}
    {v : Json} (hvalue : (w.sentValue node i).exec t = (.ok v, t')) :
    ∃ o', (w.sentValue node i).exec o = (.ok v, o') ∧ o'.Follows K t' := by
  unfold sentValue at *
  cases hw : w.serializer with
  | none =>
    rw [hw] at hvalue
    cases hvalue
    exact ⟨o, rfl, h⟩
  | some hook =>
    rw [hw] at hvalue
    rcases Act.exec_bind_eq_ok_iff.1 hvalue with ⟨_, _, hcall, hlast⟩
    rcases Hook.exec_call_eq_ok_iff.1 hcall with ⟨hfine, rfl⟩
    cases hlast
    have hmore := Nat.add_le_add_right (h.spent hook.counter) 1
    refine ⟨_, Act.exec_bind_eq_ok_iff.2 ⟨⟨⟩, _, Hook.exec_call_eq_ok_iff.2
      ⟨Hook.failure?_mono hmore hfine, rfl⟩, rfl⟩, ?_⟩
    exact (h.record _ _).countCall _

end Widget

namespace Editor

/-! ## What others do -/

/-- The workflow, the backend and what hooks read stay as they are, and nothing is handed over. -/
structure Still (e u : Editor) : Prop where
  graph : u.graph = e.graph
  settings : u.settings = e.settings
  backend : u.backend = e.backend
  objects : u.view.objects = e.view.objects
  own : u.outside.own = e.outside.own
  shared : u.outside.shared = e.outside.shared
  calls : u.outside.calls = e.outside.calls
  submissions : u.outside.submissions = e.outside.submissions

/-- What others may do while a unit waits. -/
def still : Drift Editor where
  rel := Still
  refl _ := ⟨rfl, rfl, rfl, rfl, rfl, rfl, rfl, rfl⟩
  trans h h' := ⟨h'.1.trans h.1, h'.2.trans h.2, h'.3.trans h.3, h'.4.trans h.4, h'.5.trans h.5,
    h'.6.trans h.6, h'.7.trans h.7, h'.8.trans h.8⟩

/-- Everything stays as it is but the trace and the counters of calls that do not matter. -/
structure Sends (K : Nat → Prop) (e u : Editor) : Prop where
  graph : u.graph = e.graph
  settings : u.settings = e.settings
  backend : u.backend = e.backend
  objects : u.view.objects = e.view.objects
  outside : (Outside.spending K).rel e.outside u.outside

/-- What sending values may do. -/
def sending (K : Nat → Prop) : Drift Editor where
  rel := Sends K
  refl e := ⟨rfl, rfl, rfl, rfl, (Outside.spending K).refl e.outside⟩
  trans h h' := ⟨h'.1.trans h.1, h'.2.trans h.2, h'.3.trans h.3, h'.4.trans h.4,
    (Outside.spending K).trans h.5 h'.5⟩

variable {e u t t' : Editor}

private theorem Still.follows (h : Still e u) {o : Outside} (ho : e.outside.Follows K o) :
    u.outside.Follows K o where
  own := h.own.trans ho.own
  shared := h.shared.trans ho.shared
  length := h.calls ▸ ho.length
  count := h.calls ▸ ho.count
  spent := h.calls ▸ ho.spent

/-- What others may do while a unit waits is no more than what sending may do. -/
theorem Still.sends (h : Still e u) : Sends K e u :=
  ⟨h.graph, h.settings, h.backend, h.objects, h.follows (.refl _), h.submissions⟩

/-- An echo of an editor is an echo of what sending makes of it. -/
theorem Echoes.of_sends (h : e.Echoes K sent t) (hsends : Sends K e u) : u.Echoes K sent t :=
  ⟨hsends.graph.trans h.graph, hsends.settings.trans h.settings, h.counts,
    hsends.outside.1.trans h.outside.toFollows, hsends.outside.2.trans h.outside.submissions⟩

/-! ## Values -/

private theorem outward_sending {α : Type} {act : Act Outside α}
    (h : act.Within (Outside.spending K)) :
    (outward act).Within (sending K) := .focus h fun _ _ hrel => ⟨rfl, rfl, rfl, rfl, hrel⟩

private theorem sentValues_sending {ws : List Widget} (hapart : ∀ w ∈ ws, w.SendsApart K)
    (node : NodeId)
    (i : Nat) (values : Members) : (sentValues node i ws values).Within (sending K) := by
  induction ws generalizing i values with
  | nil => exact .pure _
  | cons w ws ih =>
    have ih := fun i values => ih (fun u hu => hapart u (List.mem_cons_of_mem w hu)) i values
    rw [sentValues]
    split
    · exact .bind (.waitFor _) fun _ => .bind
        (outward_sending (Widget.sentValue_spending (hapart w List.mem_cons_self) _ _)) fun _ => ih _ _
    · exact ih _ _

/-- Where values can be sent, they can be sent after more calls too. -/
theorem sentValues_ensures {ws : List Widget} {node : NodeId} {i : Nat} {values out : Members}
    (h : e.outside.Follows K t.outside)
    (hsent : (sentValues node i ws values).exec t = (.ok out, t')) :
    (sentValues node i ws values e).Ensures still fun r u =>
      r = .ok out ∧ u.outside.Follows K t'.outside := by
  induction ws generalizing i values e t with
  | nil =>
    cases hsent
    exact ⟨rfl, h⟩
  | cons w ws ih =>
    rw [sentValues] at hsent ⊢
    split at hsent
    · rename_i hsends
      rw [if_pos hsends]
      rcases Act.exec_bind_eq_ok_iff.1 hsent with ⟨_, t₁, hwait, hsent⟩
      rw [Act.exec_waitFor] at hwait
      cases hwait
      rcases Act.exec_bind_eq_ok_iff.1 hsent with ⟨v, t₂, hvalue, hsent⟩
      refine Act.ensures_bind (Act.ensures_waitFor _) ?_ ?_
      · rintro _ e₁ ⟨-, hstill⟩
        rcases houtward : (w.sentValue node i).exec t.outside with ⟨r, o⟩
        rw [exec_outward, houtward] at hvalue
        cases hvalue
        rcases Widget.exec_sentValue_of_follows (hstill.follows h) houtward with ⟨o', hexec, ho'⟩
        have hstraight : (outward (w.sentValue node i)).IsStraight :=
          (w.sentValue_isStraight node i).focus _ _
        refine Act.ensures_bind (hstraight.ensures (Q := fun r u => r = .ok v ∧ u.outside = o') ?_)
          ?_ ?_
        · rw [exec_outward, hexec]
          exact ⟨rfl, rfl⟩
        · rintro a e₂ ⟨ha, rfl⟩
          cases ha
          exact ih ho' hsent
        · rintro f e₂ ⟨hf, -⟩
          cases hf
      · rintro f e₁ ⟨hf, -⟩
        cases hf
    · rename_i hsends
      rw [if_neg hsends]
      exact ih h hsent

/-! ## Steps -/

section Steps

variable {g : Workflow} {maxHops : Int} {titled : Bool}

private theorem buildSteps_sending {sites : List Site}
    (hapart : ∀ s ∈ sites, ∀ w ∈ s.widgets, w.SendsApart K)
    (output : Output) : (buildSteps g maxHops titled sites output).Within (sending K) := by
  induction sites generalizing output with
  | nil => exact .pure _
  | cons s sites ih =>
    have ih := ih fun t ht => hapart t (List.mem_cons_of_mem s ht)
    rw [buildSteps]
    split
    · exact .bind (sentValues_sending (hapart s List.mem_cons_self) _ _ _) fun _ =>
        .bind (.lift _) fun _ => ih _
    · exact ih _

private theorem buildSteps_ensures {sites : List Site} {output out : Output}
    (h : e.outside.Follows K t.outside)
    (hbuild : (buildSteps g maxHops titled sites output).exec t = (.ok out, t')) :
    (buildSteps g maxHops titled sites output e).Ensures still fun r u =>
      r = .ok out ∧ u.outside.Follows K t'.outside := by
  induction sites generalizing output e t with
  | nil =>
    cases hbuild
    exact ⟨rfl, h⟩
  | cons s sites ih =>
    rw [buildSteps] at hbuild ⊢
    split at hbuild
    · rename_i hemitted
      rw [if_pos hemitted]
      rcases Act.exec_bind_eq_ok_iff.1 hbuild with ⟨values, t₁, hvalues, hbuild⟩
      rcases Act.exec_bind_eq_ok_iff.1 hbuild with ⟨step, _, hstep, hbuild⟩
      rcases Act.exec_lift_eq_ok_iff.1 hstep with ⟨hok, rfl⟩
      refine Act.ensures_bind (sentValues_ensures h hvalues) ?_ ?_
      · rintro _ e₁ ⟨hvalues, he₁⟩
        cases hvalues
        rw [hok]
        exact ih he₁ hbuild
      · rintro f e₁ ⟨hf, -⟩
        cases hf
    · rename_i hskipped
      rw [if_neg hskipped]
      exact ih h hbuild

private theorem expandSteps_sending (hapart : AllWidgets (Widget.SendsApart K) g)
    {nodes : List (Node Group)} (hnodes : ∀ n ∈ nodes, n ∈ g.nodes) (output : Output) :
    (expandSteps g maxHops titled (nodes.map Site.outer) output).Within (sending K) := by
  induction nodes generalizing output with
  | nil => exact .pure _
  | cons n nodes ih =>
    have ih := ih fun m hm => hnodes m (List.mem_cons_of_mem n hm)
    refine .bind_lift fun met hmet => .bind (buildSteps_sending (fun s hs => ?_) _) fun _ => ih _
    exact hapart.of_mem_sites (mem_sites_of_expand (hnodes n List.mem_cons_self) hmet s hs)

private theorem expandSteps_ensures {nodes : List Site} {output out : Output}
    (h : e.outside.Follows K t.outside)
    (hbuild : (expandSteps g maxHops titled nodes output).exec t = (.ok out, t')) :
    (expandSteps g maxHops titled nodes output e).Ensures still fun r u =>
      r = .ok out ∧ u.outside.Follows K t'.outside := by
  induction nodes generalizing output e t with
  | nil =>
    cases hbuild
    exact ⟨rfl, h⟩
  | cons s nodes ih =>
    rcases Act.exec_bind_eq_ok_iff.1 hbuild with ⟨sites, _, hsites, hbuild⟩
    rcases Act.exec_lift_eq_ok_iff.1 hsites with ⟨hok, rfl⟩
    rcases Act.exec_bind_eq_ok_iff.1 hbuild with ⟨built, t₁, hfirst, hbuild⟩
    rw [expandSteps, hok]
    refine Act.ensures_bind (buildSteps_ensures h hfirst) ?_ ?_
    · rintro _ e₁ ⟨hbuilt, he₁⟩
      cases hbuilt
      exact ih he₁ hbuild
    · rintro f e₁ ⟨hf, -⟩
      cases hf

/-- An output that can be built can be built after more calls too. -/
theorem compileSites_ensures (hapart : AllWidgets (Widget.SendsApart K) g)
    {nodes : List (Node Group)} (hnodes : ∀ n ∈ nodes, n ∈ g.nodes) {output : Output}
    (h : e.outside.Follows K t.outside)
    (houtput : (compileSites g maxHops titled (nodes.map Site.outer)).exec t = (.ok output, t')) :
    (compileSites g maxHops titled (nodes.map Site.outer) e).Ensures still fun r u =>
      r = .ok output ∧ Sends K e u := by
  rcases Act.exec_bind_eq_ok_iff.1 houtput with ⟨built, t₁, hbuilt, hlast⟩
  cases hlast
  have hbuilds := (expandSteps_ensures h hbuilt).and
    ((expandSteps_sending hapart hnodes [] e).ensures fun _ _ hstill => Still.sends hstill)
  refine Act.ensures_bind hbuilds ?_ ?_
  · rintro _ u ⟨⟨hout, -⟩, hsends⟩
    cases hout
    exact ⟨rfl, hsends⟩
  · rintro f u ⟨⟨hf, -⟩, -⟩
    cases hf

end Steps

/-! ## Compilations -/

/-- A compilation that follows others in the state after a round comes to the prompt that belongs to
that state, and leaves the state after its preparation. -/
theorem compile_ensures (hdistinct : Distinct t.graph)
    (hapart : AllWidgets (Widget.SendsApart K) t.graph) {p : Prompt}
    (hcompile : compile.exec t = (.ok p, t')) (h : e.Echoes K sent t) :
    (compile e).Ensures still fun r u => r = .ok p ∧ u.Echoes K sent t.prepared ∧
      u.backend = e.backend ∧ u.view.objects = e.view.objects := by
  rcases exec_compile_eq_ok_iff.1 hcompile with
    ⟨order, prepared, output, horder, hprepare, houtput, rfl⟩
  have hprepared : t.prepared = prepared := prepared_eq horder hprepare
  have hskeleton := skeleton_prepared hdistinct
  rw [hprepared] at hskeleton ⊢
  -- the preparation does what it did there
  rcases prepare_mirrors order e t h with ⟨houtcome, hechoes⟩
  rw [hprepare] at houtcome hechoes
  rcases hrun : (prepare order).exec e with ⟨r, e₁⟩
  rw [hrun] at houtcome hechoes
  dsimp only at houtcome hechoes
  have hscene := (prepare_onlyScene order).of_exec hrun
  -- and so does building the steps
  have hgraph : e₁.graph = prepared.graph := hechoes.graph
  rw [← hgraph, ← hechoes.settings] at houtput
  have hnodes : ∀ n ∈ order.filterMap e₁.graph.at?, n ∈ e₁.graph.nodes := by
    intro n hn
    rcases List.mem_filterMap.1 hn with ⟨id, -, hid⟩
    exact Graph.mem_of_at? hid
  have hbuilds := compileSites_ensures
    (allWidgets_of_skeleton_eq Widget.sendsApart_bare (hgraph ▸ hskeleton) hapart) hnodes
    hechoes.outside.toFollows houtput
  have hstart : compile e = ((Act.lift e.graph.plan >>= fun order => prepare order >>= fun _ =>
      MonadState.get >>= fun e => compileSites e.graph e.settings.maxHops e.settings.devMode
        ((order.filterMap e.graph.at?).map Site.outer) >>= fun output =>
          pure ⟨Workflow.save e.graph, output⟩) : EditorAct Prompt) e := rfl
  rw [hstart, h.graph, horder]
  refine Act.ensures_bind ((prepare_isStraight order).ensures
    (Q := fun r u => r = .ok ⟨⟩ ∧ u = e₁) ?_) ?_ ?_
  · rw [hrun]
    exact ⟨houtcome, rfl⟩
  · rintro _ _ ⟨-, rfl⟩
    refine Act.ensures_bind hbuilds ?_ ?_
    · rintro _ u ⟨hout, hsends⟩
      cases hout
      exact ⟨by rw [hgraph], hechoes.of_sends hsends,
        hsends.backend.trans (congrArg (·.backend) hscene),
        hsends.objects.trans (congrArg (·.view.objects) hscene)⟩
    · rintro f u ⟨hf, -⟩
      cases hf
  · rintro f u ⟨hf, -⟩
    cases hf

end Editor

end NodeFlow
