import NodeFlow.Editor.Submit
import NodeFlow.Proofs.Compile.Hooks
import NodeFlow.Proofs.Mirror

/-!
# Hooks that count apart

The hooks that run around a submission read the widgets, the random sources and how often they have
been called before.  They do not read the trace, and where each hook has a counter of its own, they do
not read how often values have been sent to the backend either: in two states that agree in the rest,
preparations and rounds of hooks do the same.

Main results:

- Definition `Outside.submissions`: what has been handed to a backend.
- Structures `Outside.Follows` and `Editor.Echoes`: states that agree in what hooks read.
- Definition `Widget.CountsIn`: a widget whose hooks, but for the one that replaces the value that is
  sent, use certain counters.
- Theorems `Editor.prepare_mirrors` and `Editor.runAfter_mirrors`: hooks do the same in such states.
-/

namespace NodeFlow

/-! ## The outside -/

/-- Whether something is handed to a backend. -/
def Trace.Entry.isSubmission : Trace.Entry → Bool
  | submitted .. => true
  | request .. => true
  | _ => false

namespace Outside

/-- What has been handed to a backend, in order. -/
def submissions (o : Outside) : List Trace.Entry := (o.trace.filter (·.isSubmission)).reverse

/-- The random sources agree, and counters too where it matters; the other ones have not fallen
behind. -/
structure Follows (K : Nat → Prop) (o t : Outside) : Prop where
  own : o.own = t.own
  shared : o.shared = t.shared
  length : o.calls.length = t.calls.length
  count : ∀ k, K k → o.calls.getD k 0 = t.calls.getD k 0
  spent : ∀ k, t.calls.getD k 0 ≤ o.calls.getD k 0

variable {K : Nat → Prop} {o t u : Outside}

/-- Every outside follows itself. -/
theorem Follows.refl (o : Outside) : o.Follows K o := ⟨rfl, rfl, rfl, fun _ _ => rfl, fun _ => le_rfl⟩

/-- An outside follows all that those which it follows do. -/
theorem Follows.trans (h : o.Follows K t) (h' : t.Follows K u) : o.Follows K u where
  own := h.own.trans h'.own
  shared := h.shared.trans h'.shared
  length := h.length.trans h'.length
  count k hk := (h.count k hk).trans (h'.count k hk)
  spent k := (h'.spent k).trans (h.spent k)

/-- Both outsides may record something, and one still follows the other. -/
theorem Follows.record (h : o.Follows K t) (entry entry' : Trace.Entry) :
    (o.record entry).Follows K (t.record entry') := ⟨h.own, h.shared, h.length, h.count, h.spent⟩

/-- An entry that is no submission adds none to the submissions. -/
theorem submissions_record (o : Outside) {entry : Trace.Entry} (h : entry.isSubmission = false) :
    (o.record entry).submissions = o.submissions := by
  simp [submissions, record, h]

private theorem getD_calls_countCall (o : Outside) (counter k : Nat) :
    (o.countCall counter).2.calls.getD k 0 =
      if k = counter ∧ counter < o.calls.length then o.calls.getD k 0 + 1 else o.calls.getD k 0 := by
  rw [countCall, List.getD_eq_getElem?_getD, List.getElem?_set]
  by_cases hk : counter = k
  · subst hk
    by_cases hlt : counter < o.calls.length <;> simp [hlt]
  · simp [hk, Ne.symm hk]

/-- Both count a call. -/
theorem Follows.countCall (h : o.Follows K t) (counter : Nat) :
    (o.countCall counter).2.Follows K (t.countCall counter).2 where
  own := h.own
  shared := h.shared
  length := by simpa [Outside.countCall] using h.length
  count k hk := by rw [getD_calls_countCall, getD_calls_countCall, h.count k hk, h.length]
  spent k := by
    rw [getD_calls_countCall, getD_calls_countCall, h.length]
    have hspent := h.spent k
    split <;> omega

/-- A call that does not matter is counted. -/
theorem follows_countCall {counter : Nat} (hcounter : ¬ K counter) (o : Outside) :
    (o.countCall counter).2.Follows K o where
  own := rfl
  shared := rfl
  length := by simp [Outside.countCall]
  count k hk := by
    rw [getD_calls_countCall, if_neg]
    rintro ⟨rfl, -⟩
    exact hcounter hk
  spent k := by
    rw [getD_calls_countCall]
    split <;> omega

/-- The first outside follows the second one, and certain things have been handed over there. -/
structure Echoes (K : Nat → Prop) (sent : List Trace.Entry) (o t : Outside) : Prop
    extends o.Follows K t where
  submissions : o.submissions = sent

end Outside

/-! ## Hooks -/

variable {K : Nat → Prop} {sent : List Trace.Entry}

open Outside

private theorem note_mirrors {entry : Trace.Entry} (hentry : entry.isSubmission = false) :
    (note entry).Mirrors (Echoes K sent) :=
  .modify fun o _ h => ⟨h.toFollows.record _ _, (submissions_record o hentry).trans h.submissions⟩

private theorem draw_mirrors {α : Type} (source : RandomSource) (take : Random → α × Random) :
    (draw source take).Mirrors (Echoes K sent) := by
  intro o t h
  have hrandom : o.random source = t.random source := by
    cases source
    · exact h.own
    · exact h.shared
  rw [Act.Matches, draw, Act.exec_ofExec, Act.exec_ofExec, hrandom]
  refine ⟨rfl, ?_⟩
  cases source
  · exact ⟨⟨rfl, h.shared, h.length, h.count, h.spent⟩, h.submissions⟩
  · exact ⟨⟨h.own, rfl, h.length, h.count, h.spent⟩, h.submissions⟩

/-- A call that matters fails in both states or in none. -/
theorem Hook.call_mirrors {h : Hook} (hcounter : K h.counter) {entry : Trace.Entry}
    (hentry : entry.isSubmission = false) : (h.call entry).Mirrors (Echoes K sent) := by
  refine .bind (note_mirrors hentry) fun _ => .bind (fun o t ho => ?_) fun count => ?_
  · refine ⟨?_, ho.toFollows.countCall h.counter, ho.submissions⟩
    simp only [Act.exec_ofExec, Outside.countCall, ho.count _ hcounter]
  · split
    · exact .lift _
    · exact .pure _

namespace QueueHook

/-- All hooks in a chain use certain counters. -/
def CountsIn (K : Nat → Prop) : QueueHook → Prop
  | advance _ => True
  | scripted h => K h.counter
  | chained h previous => K h.counter ∧ previous.CountsIn K

end QueueHook

/-- All hooks of the widget but the one that replaces the value that is sent use certain counters. -/
structure Widget.CountsIn (K : Nat → Prop) (w : Widget) : Prop where
  beforeQueued : ∀ h, w.beforeQueued = some h → h.CountsIn K
  afterQueued : ∀ h, w.afterQueued = some h → h.CountsIn K
  callback : ∀ h, w.callback = some h → K h.counter

private theorem Widget.CountsIn.withValue {w : Widget} (h : w.CountsIn K) (v : Json) :
    (w.withValue v).CountsIn K := ⟨h.1, h.2, h.3⟩

/-- States that agree in a part that is sound, beside outsides of which one follows the other. -/
structure Agree {X : Type} (P : X → Prop) (K : Nat → Prop) (sent : List Trace.Entry)
    (s t : X × Outside) : Prop where
  same : s.1 = t.1
  sound : P t.1
  outside : s.2.Echoes K sent t.2

/-- The widgets of a node count in certain counters. -/
def Bench.CountIn (K : Nat → Prop) (ws : List Widget) : Prop := ∀ w ∈ ws, w.CountsIn K

namespace Widget

private theorem outward_mirrors {α : Type} {act : Act Outside α} (h : act.Mirrors (Echoes K sent)) :
    (outward act).Mirrors (Agree (Bench.CountIn K) K sent) := by
  rintro ⟨ws, o⟩ ⟨_, o'⟩ ⟨rfl, hsound, houtside⟩
  rw [Act.Matches, exec_outward, exec_outward]
  rcases h o o' houtside with ⟨houtcome, hstate⟩
  exact ⟨houtcome, rfl, hsound, hstate⟩

private theorem announce_mirrors {w : Widget} (h : w.CountsIn K) (v : Json) :
    (w.announce v).Mirrors (Echoes K sent) := by
  unfold announce
  cases hw : w.callback with
  | none => exact .pure _
  | some hook => exact Hook.call_mirrors (h.callback hook hw) rfl

private theorem assign_mirrors (i : Nat) (v : Json) :
    (assign i v).Mirrors (Agree (Bench.CountIn K) K sent) := by
  refine .bind (.modify fun s t h => ⟨congrArg (List.modify · i (·.withValue v)) h.same, ?_,
    h.outside⟩) fun _ => ?_
  · intro w hw
    rcases List.getElem?_of_mem hw with ⟨j, hj⟩
    rw [List.getElem?_modify, Option.map_eq_map, Option.map_eq_some_iff] at hj
    rcases hj with ⟨w', hw', rfl⟩
    split
    · exact (h.sound w' (List.mem_of_getElem? hw')).withValue v
    · exact h.sound w' (List.mem_of_getElem? hw')
  · rintro ⟨ws, o⟩ ⟨_, o'⟩ h
    cases h.same
    refine .bind_get ?_
    dsimp only
    cases hw : ws[i]? with
    | none => exact .pure _ h
    | some w =>
      exact outward_mirrors (announce_mirrors (h.sound w (List.mem_of_getElem? hw)) v) _ _ h

private theorem applyControl_mirrors (target : Widget) (source : RandomSource) (mode : Json)
    (i : Nat) : (applyControl target source mode i).Mirrors (Agree (Bench.CountIn K) K sent) := by
  unfold applyControl
  split
  · exact .pure _
  · refine .bind (outward_mirrors (draw_mirrors _ _)) fun _ => .bind (.lift _) fun next => ?_
    split
    · exact assign_mirrors _ _
    · exact .pure _

end Widget

namespace QueueHook

private theorem advanceTarget_mirrors (source : RandomSource) (i : Nat) :
    (advanceTarget source i).Mirrors (Agree (Bench.CountIn K) K sent) := by
  rintro ⟨ws, o⟩ ⟨_, o'⟩ h
  cases h.same
  refine .bind_get ?_
  dsimp only
  split
  · exact Widget.applyControl_mirrors _ _ _ _ _ _ h
  · exact .pure _ h

private theorem follow_mirrors {name : String} {h : Hook} (hcounter : K h.counter) (i : Nat) :
    (follow name h i).Mirrors (Agree (Bench.CountIn K) K sent) := by
  rintro ⟨ws, o⟩ ⟨_, o'⟩ hagree
  cases hagree.same
  refine .bind_get ?_
  dsimp -zeta only
  split
  · exact .pure _ hagree
  · refine Act.Mirrors.bind (Widget.outward_mirrors (Hook.call_mirrors hcounter rfl)) (fun _ => ?_)
      _ _ hagree
    extract_lets rest
    have hrest : ∀ u, (rest u).Mirrors (Agree (Bench.CountIn K) K sent) := by
      rintro u ⟨ws, o⟩ ⟨_, o'⟩ hagree
      cases hagree.same
      refine .bind_get ?_
      dsimp only
      split
      · exact Act.Mirrors.bind (.lift _) (fun _ => Widget.assign_mirrors _ _) _ _ hagree
      · exact .pure _ hagree
    split
    · exact .bind (Widget.assign_mirrors _ _) hrest
    · exact hrest ⟨⟩

private theorem run_mirrors {h : QueueHook} (hcounts : h.CountsIn K) (name : String) (i : Nat) :
    (h.run name i).Mirrors (Agree (Bench.CountIn K) K sent) := by
  induction h with
  | advance source => exact advanceTarget_mirrors source i
  | scripted h => exact follow_mirrors hcounts i
  | chained h previous ih => exact .bind (follow_mirrors hcounts.1 i) fun _ => ih hcounts.2

end QueueHook

/-! ## Graphs -/

namespace Graph

variable {γ : Type} {P : Graph γ → Prop} (hwidgets : ∀ g, P g → g.AllWidgets (Widget.CountsIn K))
  (hput : ∀ g id ws, P g → Bench.CountIn K ws →
    P (Graph.modifyNode id (fun n => { n with widgets := ws }) g))

include hwidgets hput

private theorem onWidgets_mirrors {α : Type} {act : Act Bench α} (hstraight : act.IsStraight)
    (hact : act.Mirrors (Agree (Bench.CountIn K) K sent)) (id : NodeId) :
    (onWidgets (γ := γ) id act).Mirrors (Agree P K sent) := by
  rintro ⟨g, o⟩ ⟨_, o'⟩ h
  cases h.same
  refine .focus hstraight hstraight (hact _ _ ⟨rfl, (hwidgets g h.sound).widgets_at? id, h.outside⟩) ?_
  rintro ⟨ws, u⟩ ⟨_, v⟩ hagree
  cases hagree.same
  exact ⟨rfl, hput g id ws h.sound hagree.sound, hagree.outside⟩

private theorem pushValue_mirrors (id : NodeId) :
    (pushValue (γ := γ) id).Mirrors (Agree P K sent) := by
  rintro ⟨g, o⟩ ⟨_, o'⟩ h
  cases h.same
  refine .bind_get ?_
  dsimp only
  split
  · exact .pure _ h
  · split
    · exact Act.Mirrors.bind (.lift _) (fun _ => .each fun c => onWidgets_mirrors hwidgets hput
        (Widget.assign_isStraight _ _) (Widget.assign_mirrors _ _) _) _ _ h
    · exact .pure _ h

end Graph

/-! ## The editor -/

namespace Editor

open Workflow

/-- The editors agree in what hooks read; in the first one, certain things have been handed over. -/
structure Echoes (K : Nat → Prop) (sent : List Trace.Entry) (e t : Editor) : Prop where
  graph : e.graph = t.graph
  settings : e.settings = t.settings
  counts : AllWidgets (Widget.CountsIn K) t.graph
  outside : e.outside.Echoes K sent t.outside

private theorem onInner_mirrors {α : Type} {act : Act (Subgraph × Outside) α}
    (hstraight : act.IsStraight)
    (h : act.Mirrors (Agree (Graph.AllWidgets (Widget.CountsIn K)) K sent)) (host : NodeId) :
    (onInner host act).Mirrors (Agree (AllWidgets (Widget.CountsIn K)) K sent) := by
  rintro ⟨g, o⟩ ⟨_, o'⟩ hagree
  cases hagree.same
  refine .focus hstraight hstraight (h _ _ ⟨rfl, hagree.sound.innerGraph host, hagree.outside⟩) ?_
  rintro ⟨inner, u⟩ ⟨_, v⟩ hinner
  cases hinner.same
  exact ⟨rfl, hagree.sound.modifyGroup host hinner.sound, hinner.outside⟩

private theorem onGraph_mirrors {α : Type} {act : Act (Workflow × Outside) α}
    (hstraight : act.IsStraight) (h : act.Mirrors (Agree (AllWidgets (Widget.CountsIn K)) K sent)) :
    (onGraph act).Mirrors (Echoes K sent) := by
  intro e t he
  refine .focus hstraight hstraight (h _ _ ⟨he.graph, he.counts, he.outside⟩) ?_
  rintro ⟨g, o⟩ ⟨_, o'⟩ hagree
  cases hagree.same
  exact ⟨rfl, he.settings, hagree.sound, hagree.outside⟩

private theorem onPlace_mirrors {α : Type} {act : Act Bench α} (hstraight : act.IsStraight)
    (hact : act.Mirrors (Agree (Bench.CountIn K) K sent)) (place : Place) :
    (onPlace place act).Mirrors (Echoes K sent) := by
  cases place with
  | outer id =>
    exact onGraph_mirrors (hstraight.focus _ _) (Graph.onWidgets_mirrors (fun _ h => h.outer)
      (fun _ id _ h hws => h.modifyNode id hws) hstraight hact id)
  | inner host id =>
    exact onGraph_mirrors ((hstraight.focus _ _).focus _ _) (onInner_mirrors (hstraight.focus _ _)
      (Graph.onWidgets_mirrors (fun _ h => h) (fun _ id _ h hws => Graph.AllWidgets.modifyNode h id hws)
        hstraight hact id) host)

private theorem pushAt_mirrors (place : Place) : (pushAt place).Mirrors (Echoes K sent) := by
  cases place with
  | outer id =>
    exact onGraph_mirrors (pushValue_isStraight id) (Graph.pushValue_mirrors (fun _ h => h.outer)
      (fun _ id _ h hws => h.modifyNode id hws) id)
  | inner host id =>
    exact onGraph_mirrors ((pushValue_isStraight id).focus _ _) (onInner_mirrors
      (pushValue_isStraight id) (Graph.pushValue_mirrors (fun _ h => h)
        (fun _ id _ h hws => Graph.AllWidgets.modifyNode h id hws) id) host)

private theorem Echoes.widgetsAt {e t : Editor} (h : e.Echoes K sent t) (place : Place) :
    e.widgetsAt place = t.widgetsAt place := by rw [Editor.widgetsAt, Editor.widgetsAt, h.graph]

private theorem runBefore_mirrors (place : Place) : (runBefore place).Mirrors (Echoes K sent) := by
  intro e t h
  refine .bind_get ?_
  rw [h.widgetsAt]
  refine Act.Mirrors.each (fun i => ?_) _ _ h
  cases hw : (t.widgetsAt place)[i]? with
  | none => exact .pure _
  | some w =>
    have hcounts := h.counts.widgetsAt place w (List.mem_of_getElem? hw)
    cases hhook : w.beforeQueued with
    | none =>
      simp only [Option.bind_some, hhook]
      exact .pure _
    | some hook =>
      simp only [Option.bind_some, hhook]
      exact onPlace_mirrors (hook.run_isStraight _ _)
        (QueueHook.run_mirrors (hcounts.beforeQueued hook hhook) _ _) place

/-- The hook behind a submission does to an echo what it does to the editor. -/
theorem runAfter_mirrors (place : Place) : (runAfter place).Mirrors (Echoes K sent) := by
  intro e t h
  refine .bind_get ?_
  rw [h.widgetsAt]
  refine Act.Mirrors.each (fun i => ?_) _ _ h
  cases hw : (t.widgetsAt place)[i]? with
  | none => exact .pure _
  | some w =>
    have hcounts := h.counts.widgetsAt place w (List.mem_of_getElem? hw)
    cases hhook : w.afterQueued with
    | none =>
      simp only [Option.bind_some, hhook]
      exact .pure _
    | some hook =>
      simp only [Option.bind_some, hhook]
      exact .bind (.attempt (onPlace_mirrors (hook.run_isStraight _ _)
        (QueueHook.run_mirrors (hcounts.afterQueued hook hhook) _ _) place)) fun _ => .pure _

private theorem prepareNode_mirrors (id : NodeId) : (prepareNode id).Mirrors (Echoes K sent) := by
  intro e t h
  refine .bind_get ?_
  rw [h.graph]
  split
  · exact .pure _ h
  · exact Act.Mirrors.bind (.lift _) (fun _ => .bind (.each fun _ => runBefore_mirrors _) fun _ =>
      .bind (.lift _) fun _ => .each fun _ => pushAt_mirrors _) _ _ h

/-- Preparations do the same in states that agree in what hooks read. -/
theorem prepare_mirrors (order : List NodeId) : (prepare order).Mirrors (Echoes K sent) :=
  .each fun _ => prepareNode_mirrors _

end Editor

end NodeFlow
