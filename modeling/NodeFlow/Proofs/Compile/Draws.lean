import NodeFlow.Proofs.Compile.Pushes
import NodeFlow.Proofs.Edit.Ends
import NodeFlow.Proofs.Mirror

/-!
# What hooks take from the random sources

The hooks that run before a submission may draw from the random sources and are counted when they are
called.  A draw leaves less to draw, so a preparation that leaves the sources as they are has not
drawn anything.  And where two runs of the same hooks, on the same widgets and with the same sources,
both succeed, they leave the same widgets and the same sources, whatever has been counted before.

Main results:

- Definition `Outside.sources`, and `Outside.drains`: the sources are left alone, or hold less.
- Theorem `Outside.sources_between`: nothing is taken on the way between equal sources.
- Theorems `Editor.prepare_drains` and `Editor.compileSites_drains`.
- Structure `Editor.AlikeAt`: two editors with the same node of an id and the same sources.
- Theorems `Editor.runBefore_concurs` and `Editor.pushInner_concurs`: they stay alike.
-/

namespace NodeFlow

/-! ## The random sources -/

/-- How many answers a random source still holds. -/
def Random.size (r : Random) : Nat := r.fractions.length + r.picks.length

namespace Outside

/-- The random sources. -/
def sources (o : Outside) : Random × Random := (o.own, o.shared)

/-- How many answers the random sources still hold. -/
def stock (o : Outside) : Nat := o.sources.1.size + o.sources.2.size

variable {o t u : Outside}

/-- The random sources are left alone, or hold less than before. -/
def drains : Drift Outside where
  rel o t := t.sources = o.sources ∨ t.stock < o.stock
  refl _ := .inl rfl
  trans := by
    rintro o t u (ht | ht) (hu | hu)
    · exact .inl (hu.trans ht)
    · exact .inr (by simpa only [stock, ht] using hu)
    · exact .inr (by simpa only [stock, hu] using ht)
    · exact .inr (hu.trans ht)

/-- Where the sources are in the end what they were in the beginning, nothing has been taken from them
on the way. -/
theorem sources_between (ho : drains.rel o t) (ht : drains.rel t u) (h : u.sources = o.sources) :
    t.sources = o.sources := by
  rcases ho with ho | hless
  · exact ho
  · rcases ht with hu | hless'
    · exact hu.symm.trans h
    · have hsame : u.stock = o.stock := by rw [stock, stock, h]
      omega

private theorem sources_countCall (o : Outside) (counter : Nat) :
    (o.countCall counter).2.sources = o.sources := rfl

private theorem sources_record (o : Outside) (entry : Trace.Entry) :
    (o.record entry).sources = o.sources :=
  rfl

/-- A source that is put back as it was, or with less in it. -/
theorem drains_setRandom (o : Outside) (source : RandomSource) {r : Random}
    (h : r = o.random source ∨ r.size < (o.random source).size) :
    drains.rel o (o.setRandom source r) := by
  rcases h with rfl | h
  · exact .inl (by cases source <;> rfl)
  · refine .inr ?_
    cases source
    · exact Nat.add_lt_add_right h _
    · exact Nat.add_lt_add_left h _

private theorem sources_setRandom (h : o.sources = t.sources) (source : RandomSource) (r : Random) :
    (o.setRandom source r).sources = (t.setRandom source r).sources := by
  cases source
  · exact congrArg (fun s => (r, s.2)) h
  · exact congrArg (fun s => (s.1, r)) h

end Outside

namespace Random

/-- A draw leaves a source as it is or takes an answer out of it. -/
def Takes {α : Type} (take : Random → α × Random) : Prop :=
  ∀ r, (take r).2 = r ∨ (take r).2.size < r.size

private theorem takes_fraction : Takes fraction := by
  intro r
  unfold fraction
  split
  · exact .inl rfl
  · rename_i x xs hr
    exact .inr (by simp [size, hr])

private theorem takes_index (bound : Nat) : Takes (index · bound) := by
  intro r
  cases hr : r.picks with
  | nil => exact .inl (by simp [index, hr])
  | cons n ns => exact .inr (by simp [index, size, hr])

end Random

namespace ControlMode

open NodeFlow.Random

private theorem takes_nextPosition (mode : ControlMode) (current size : Nat) :
    Takes (mode.nextPosition current size) := by
  cases mode with
  | randomize => exact takes_index size
  | increment | decrement => exact fun _ => .inl rfl

private theorem takes_nextChoice (mode : ControlMode) (w : Widget) : Takes (mode.nextChoice w) := by
  intro r
  unfold nextChoice
  split
  · exact .inl rfl
  · exact .inl rfl
  · split
    · exact .inl rfl
    · exact takes_nextPosition mode _ _ r

private theorem takes_randomValue (step low high : Json) : Takes (randomValue step low high) := by
  intro r
  unfold randomValue
  dsimp only
  split
  · exact .inl rfl
  · exact takes_fraction r

private theorem takes_nextNumber (mode : ControlMode) (w : Widget) : Takes (mode.nextNumber w) := by
  intro r
  unfold nextNumber
  cases mode with
  | randomize => exact takes_randomValue _ _ _ r
  | increment | decrement => exact .inl rfl

private theorem takes_next? (mode : ControlMode) (w : Widget) : Takes (mode.next? w) := by
  intro r
  unfold next?
  split
  · exact takes_nextChoice mode w r
  · exact takes_nextNumber mode w r

end ControlMode

/-! ## Calls and pushes -/

open Outside

/-- The random sources beside a state are left alone. -/
def undrawn {X : Type} : Drift (X × Outside) := .keeping (·.2.sources)

private theorem Hook.call_undrawn (h : Hook) (entry : Trace.Entry) :
    (h.call entry).Within (.keeping sources) := by
  refine .bind (.modify fun o => sources_record o entry) fun _ =>
    .bind (fun o => sources_countCall o h.counter) fun count => ?_
  split
  · exact .lift _
  · exact .pure _

private theorem Widget.assign_undrawn (i : Nat) (v : Json) : (assign i v).Within undrawn := by
  refine .bind (.modify fun _ => rfl) fun _ => .bind .get fun b => ?_
  split
  · refine .focus (E := .keeping sources) ?_ fun _ _ hsame => hsame
    unfold announce
    split
    · exact Hook.call_undrawn _ _
    · exact .pure _
  · exact .pure _

private theorem Graph.pushValue_undrawn {γ : Type} (id : NodeId) :
    (pushValue (γ := γ) id).Within undrawn := by
  refine .bind .get fun s => ?_
  dsimp only
  split
  · exact .pure _
  · split
    · exact .bind (.lift _) fun _ => .each fun _ =>
        .focus (Widget.assign_undrawn _ _) fun _ _ hsame => hsame
    · exact .pure _

/-- A push draws nothing. -/
theorem Editor.pushAt_undrawn (place : Place) :
    (pushAt place).Within (.keeping fun e => e.outside.sources) := by
  cases place with
  | outer id => exact .focus (Graph.pushValue_undrawn id) fun _ _ hsame => hsame
  | inner host id =>
    refine .focus (E := undrawn) ?_ fun _ _ hsame => hsame
    exact .focus (Graph.pushValue_undrawn id) fun _ _ hsame => hsame

/-! ## What hooks take -/

/-- The outside is left within the drift of its sources. -/
def drained {X : Type} : Drift (X × Outside) := drains.through (·.2)

private theorem Hook.call_drains (h : Hook) (entry : Trace.Entry) : (h.call entry).Within drains :=
  (h.call_undrawn entry).mono fun _ _ => .inl

private theorem draw_drains {α : Type} (source : RandomSource) {take : Random → α × Random}
    (htake : Random.Takes take) : (draw source take).Within drains :=
  fun o => drains_setRandom o source (htake (o.random source))

namespace Widget

private theorem outward_drained {α : Type} {act : Act Outside α} (h : act.Within drains) :
    (outward act).Within drained := .focus h fun _ _ hrel => hrel

private theorem assign_drained (i : Nat) (v : Json) : (assign i v).Within drained :=
  (assign_undrawn i v).mono fun _ _ => .inl

private theorem applyControl_drained (target : Widget) (source : RandomSource) (mode : Json)
    (i : Nat) : (applyControl target source mode i).Within drained := by
  unfold applyControl
  split
  · exact .pure _
  · rename_i c _
    refine .bind (outward_drained (draw_drains source (c.takes_next? target))) fun _ =>
      .bind (.lift _) fun next => ?_
    split
    · exact assign_drained _ _
    · exact .pure _

end Widget

namespace QueueHook

private theorem follow_drained (name : String) (h : Hook) (i : Nat) :
    (follow name h i).Within drained := by
  refine .bind .get fun b => ?_
  split
  · exact .pure _
  · refine .bind (Widget.outward_drained (h.call_drains _)) fun _ => ?_
    extract_lets rest
    have hrest : ∀ u, (rest u).Within drained := by
      intro u
      refine .bind .get fun b => ?_
      split
      · exact .bind (.lift _) fun _ => Widget.assign_drained _ _
      · exact .pure _
    split
    · exact .bind (Widget.assign_drained _ _) hrest
    · exact hrest ⟨⟩

private theorem run_drained (name : String) (i : Nat) (h : QueueHook) :
    (h.run name i).Within drained := by
  induction h with
  | advance source =>
    refine .bind .get fun b => ?_
    dsimp only
    split
    · exact Widget.applyControl_drained _ _ _ _
    · exact .pure _
  | scripted h => exact follow_drained name h i
  | chained h previous ih => exact .bind (follow_drained name h i) fun _ => ih

end QueueHook

private theorem Graph.onWidgets_drained {γ α : Type} {act : Act Bench α} (h : act.Within drained)
    (id : NodeId) : (onWidgets (γ := γ) id act).Within drained := .focus h fun _ _ hrel => hrel

namespace Editor

private theorem onInner_drained {α : Type} {act : Act (Subgraph × Outside) α}
    (h : act.Within drained)
    (host : NodeId) : (onInner host act).Within drained := .focus h fun _ _ hrel => hrel

private theorem onGraph_drains {α : Type} {act : Act (Workflow × Outside) α}
    (h : act.Within drained) :
    (onGraph act).Within (drains.through (·.outside)) := .focus h fun _ _ hrel => hrel

private theorem runBefore_drains (place : Place) :
    (runBefore place).Within (drains.through (·.outside)) := by
  refine .bind .get fun e => .each fun i => ?_
  split
  · cases place with
    | outer id => exact onGraph_drains (Graph.onWidgets_drained (QueueHook.run_drained _ _ _) id)
    | inner host id =>
      exact onGraph_drains
        (onInner_drained (Graph.onWidgets_drained (QueueHook.run_drained _ _ _) id) host)
  · exact .pure _

/-- Preparing a node leaves the random sources or takes draws out of them. -/
theorem prepareNode_drains (id : NodeId) :
    (prepareNode id).Within (drains.through (·.outside)) := by
  refine .bind .get fun e => ?_
  split
  · exact .pure _
  · exact .bind (.lift _) fun _ => .bind (.each fun _ => runBefore_drains _) fun _ =>
      .bind (.lift _) fun _ => .each fun _ => (pushAt_undrawn _).mono fun _ _ => .inl

/-- A preparation takes from the random sources and gives nothing back. -/
theorem prepare_drains (order : List NodeId) :
    (prepare order).Within (drains.through (·.outside)) := .each prepareNode_drains

private theorem outward_drains {α : Type} {act : Act Outside α} (h : act.Within drains) :
    (outward act).Within (drains.through (·.outside)) := .focus h fun _ _ hrel => hrel

private theorem sentValues_drains (node : NodeId) (i : Nat) (ws : List Widget) (sent : Members) :
    (sentValues node i ws sent).Within (drains.through (·.outside)) := by
  induction ws generalizing i sent with
  | nil => exact .pure _
  | cons w ws ih =>
    rw [sentValues]
    split
    · refine .bind (.waitFor _) fun _ => .bind (outward_drains ?_) fun _ => ih _ _
      unfold Widget.sentValue
      split
      · exact .pure _
      · exact .bind (Hook.call_drains _ _) fun _ => .pure _
    · exact ih _ _

private theorem buildSteps_drains (g : Workflow) (maxHops : Int) (titled : Bool) (sites : List Site)
    (output : Output) :
    (buildSteps g maxHops titled sites output).Within (drains.through (·.outside)) := by
  induction sites generalizing output with
  | nil => exact .pure _
  | cons s sites ih =>
    rw [buildSteps]
    split
    · exact .bind (sentValues_drains _ _ _ _) fun _ => .bind (.lift _) fun _ => ih _
    · exact ih _

/-- Building steps takes nothing back either. -/
theorem compileSites_drains (g : Workflow) (maxHops : Int) (titled : Bool) (sites : List Site) :
    (compileSites g maxHops titled sites).Within (drains.through (·.outside)) := by
  have hexpand : ∀ output,
      (expandSteps g maxHops titled sites output).Within (drains.through (·.outside)) := by
    induction sites with
    | nil => exact fun _ => .pure _
    | cons s sites ih =>
      exact fun _ => .bind (.lift _) fun _ => .bind (buildSteps_drains _ _ _ _ _) ih
  exact .bind (hexpand []) fun _ => .pure _

end Editor

/-! ## Runs of hooks that both succeed -/

/-- Two states are the same but for an outside, and the random sources there are the same too. -/
structure Alike {X : Type} (s t : X × Outside) : Prop where
  same : s.1 = t.1
  sources : s.2.sources = t.2.sources

private theorem Alike.exists_eq {X : Type} {s t : X × Outside} (h : Alike s t) :
    ∃ x o o', s = (x, o) ∧ t = (x, o') ∧ o.sources = o'.sources :=
  ⟨s.1, s.2, t.2, rfl, Prod.ext h.same.symm rfl, h.sources⟩

private theorem Hook.call_concurs (h : Hook) (entry : Trace.Entry) :
    (h.call entry).Concurs fun o t => o.sources = t.sources := by
  intro o t hsame a b u v hu hv
  have hkeep := h.call_undrawn entry
  exact ⟨rfl, (hkeep.of_exec hu).trans (hsame.trans (hkeep.of_exec hv).symm)⟩

private theorem draw_concurs {α : Type} (source : RandomSource) (take : Random → α × Random) :
    (draw source take).Concurs fun o t => o.sources = t.sources := by
  intro o t hsame a b u v hu hv
  have hrandom : o.random source = t.random source := by
    cases source
    · exact congrArg Prod.fst hsame
    · exact congrArg Prod.snd hsame
  rw [draw, Act.exec_ofExec, hrandom] at hu
  rw [draw, Act.exec_ofExec] at hv
  cases hu
  cases hv
  exact ⟨rfl, sources_setRandom hsame source _⟩

namespace Widget

private theorem outward_concurs {α : Type} {act : Act Outside α}
    (h : act.Concurs fun o t => o.sources = t.sources) : (outward act).Concurs Alike := by
  rintro ⟨ws, o⟩ ⟨_, o'⟩ ⟨rfl, hsources⟩ a b ⟨ws₁, u⟩ ⟨ws₂, v⟩ hu hv
  rw [exec_outward, Prod.mk.injEq, Prod.mk.injEq] at hu hv
  rcases hu with ⟨hu, rfl, rfl⟩
  rcases hv with ⟨hv, rfl, rfl⟩
  rcases h o o' hsources a b _ _ (Prod.ext hu rfl) (Prod.ext hv rfl) with ⟨hsame, hrel⟩
  exact ⟨hsame, rfl, hrel⟩

private theorem assign_concurs (i : Nat) (v : Json) : (assign i v).Concurs Alike := by
  refine .bind (.modify fun s t h => ⟨congrArg (List.modify · i (·.withValue v)) h.same, h.sources⟩)
    fun _ => ?_
  intro s t h
  rcases h.exists_eq with ⟨ws, o, o', rfl, rfl, -⟩
  refine .bind_get ?_
  dsimp only
  split
  · refine outward_concurs ?_ _ _ h
    unfold announce
    split
    · exact Hook.call_concurs _ _
    · exact .pure _
  · exact .pure _ h

private theorem applyControl_concurs (target : Widget) (source : RandomSource) (mode : Json)
    (i : Nat) : (applyControl target source mode i).Concurs Alike := by
  unfold applyControl
  split
  · exact .pure _
  · refine .bind (outward_concurs (draw_concurs _ _)) fun _ => .bind (.lift _) fun next => ?_
    split
    · exact assign_concurs _ _
    · exact .pure _

end Widget

namespace QueueHook

private theorem follow_concurs (name : String) (h : Hook) (i : Nat) :
    (follow name h i).Concurs Alike := by
  intro s t halike
  rcases halike.exists_eq with ⟨ws, o, o', rfl, rfl, -⟩
  refine .bind_get ?_
  dsimp -zeta only
  split
  · exact .pure _ halike
  · refine Act.Concurs.bind (Widget.outward_concurs (h.call_concurs _)) (fun _ => ?_) _ _ halike
    extract_lets rest
    have hrest : ∀ u, (rest u).Concurs Alike := by
      intro u s t halike
      rcases halike.exists_eq with ⟨ws, o, o', rfl, rfl, -⟩
      refine .bind_get ?_
      dsimp only
      split
      · exact Act.Concurs.bind (.lift _) (fun _ => Widget.assign_concurs _ _) _ _ halike
      · exact .pure _ halike
    split
    · exact .bind (Widget.assign_concurs _ _) hrest
    · exact hrest ⟨⟩

/-- Two runs of a hook that succeed leave the same widgets. -/
theorem run_concurs (name : String) (i : Nat) (h : QueueHook) : (h.run name i).Concurs Alike := by
  induction h with
  | advance source =>
    intro s t halike
    rcases halike.exists_eq with ⟨ws, o, o', rfl, rfl, -⟩
    refine .bind_get ?_
    dsimp only
    split
    · exact Widget.applyControl_concurs _ _ _ _ _ _ halike
    · exact .pure _ halike
  | scripted h => exact follow_concurs name h i
  | chained h previous ih => exact .bind (follow_concurs name h i) fun _ => ih

end QueueHook

namespace Graph

variable {γ : Type}

private theorem onWidgets_concurs {α : Type} {act : Act Bench α} (hstraight : act.IsStraight)
    (h : act.Concurs Alike) (id : NodeId) : (onWidgets (γ := γ) id act).Concurs Alike := by
  refine .focus hstraight h (fun s t hst => ⟨by rw [hst.same], hst.sources⟩) ?_
  intro s t u v hst huv
  exact ⟨by rw [hst.same, huv.same], huv.sources⟩

private theorem pushValue_concurs (id : NodeId) : (pushValue (γ := γ) id).Concurs Alike := by
  intro s t h
  rcases h.exists_eq with ⟨g, o, o', rfl, rfl, -⟩
  refine .bind_get ?_
  dsimp only
  split
  · exact .pure _ h
  · split
    · exact Act.Concurs.bind (.lift _) (fun _ => .each fun _ _ =>
        onWidgets_concurs (Widget.assign_isStraight _ _) (Widget.assign_concurs _ _) _) _ _ h
    · exact .pure _ h

end Graph

namespace Editor

open Workflow

/-- The two workflows have the same node of an id, with the same graph inside if it is a group, and
the random sources are the same. -/
structure AlikeAt (id : NodeId) (e t : Editor) : Prop where
  node : Graph.at? e.graph id = Graph.at? t.graph id
  sources : e.outside.sources = t.outside.sources

variable {id : NodeId} {e t : Editor}

private theorem AlikeAt.innerGraph (h : AlikeAt id e t) :
    innerGraph e.graph id = innerGraph t.graph id := by
  rw [Workflow.innerGraph, Workflow.innerGraph, h.node]

private theorem AlikeAt.widgetsAt (h : AlikeAt id e t) {place : Place} (hplace : place.host = id) :
    e.widgetsAt place = t.widgetsAt place := by
  have hsite : siteAt? e.graph place = siteAt? t.graph place := by
    cases place with
    | outer other =>
      rw [siteAt?_outer, siteAt?_outer, show other = id from hplace, h.node]
    | inner host other =>
      rw [siteAt?, siteAt?, show host = id from hplace, h.node]
  rw [Editor.widgetsAt, Editor.widgetsAt, hsite]

/-- What is done inside a group in both. -/
theorem onInner_concurs {α : Type} {act : Act (Subgraph × Outside) α} (hstraight : act.IsStraight)
    (h : act.Concurs Alike) : (onGraph (onInner id act)).Concurs (AlikeAt id) := by
  intro e t het
  refine .focus (S := fun s u => Graph.at? s.1 id = Graph.at? u.1 id ∧ s.2.sources = u.2.sources)
    (hstraight.focus _ _) (hstraight.focus _ _) ?_ fun u v huv => ⟨huv.1, huv.2⟩
  refine .focus hstraight hstraight (h _ _ ⟨het.innerGraph, het.sources⟩)
    fun u v huv => ⟨?_, huv.sources⟩
  rw [at?_modifyGroup, at?_modifyGroup, het.node, huv.same]

/-- What is done to the widgets of a node in both. -/
theorem onOuter_concurs {α : Type} {act : Act Bench α} (hstraight : act.IsStraight)
    (h : act.Concurs Alike) : (onGraph (Graph.onWidgets id act)).Concurs (AlikeAt id) := by
  intro e t het
  refine .focus (S := fun s u => Graph.at? s.1 id = Graph.at? u.1 id ∧ s.2.sources = u.2.sources)
    (hstraight.focus _ _) (hstraight.focus _ _) ?_ fun u v huv => ⟨huv.1, huv.2⟩
  refine .focus hstraight hstraight (h _ _ ⟨?_, het.sources⟩) fun u v huv => ⟨?_, huv.sources⟩
  · rw [het.node]
  · have hid : ∀ ws : List Widget, ∀ n : Node Group,
        ({ n with widgets := ws } : Node Group).id = n.id :=
      fun _ _ => rfl
    rw [Graph.at?_modifyNode (hid u.1), Graph.at?_modifyNode (hid v.1), if_pos rfl, if_pos rfl,
      het.node, huv.same]

/-- The hooks at a place of the node leave the same there. -/
theorem runBefore_concurs {place : Place} (hplace : place.host = id) :
    (runBefore place).Concurs (AlikeAt id) := by
  intro e t het
  refine .bind_get ?_
  rw [het.widgetsAt hplace]
  refine Act.Concurs.each (fun i _ => ?_) _ _ het
  split
  · rename_i h _
    cases hplace
    cases place with
    | outer id => exact onOuter_concurs (QueueHook.run_isStraight _ _ _) (h.run_concurs _ _)
    | inner host id =>
      exact onInner_concurs ((QueueHook.run_isStraight _ _ _).focus _ _)
        (Graph.onWidgets_concurs (QueueHook.run_isStraight _ _ _) (h.run_concurs _ _) id)
  · exact .pure _

/-- So do the primitives inside a group. -/
theorem pushInner_concurs (other : NodeId) :
    (pushAt (.inner id other)).Concurs (AlikeAt id) :=
  onInner_concurs (pushValue_isStraight other) (Graph.pushValue_concurs other)

end Editor

end NodeFlow
