import Mathlib.Data.List.Forall2
import NodeFlow.Editor.Compile
import NodeFlow.Proofs.Drift
import NodeFlow.Proofs.Outcome
import NodeFlow.Proofs.Table

/-!
# The steps of a prompt

Building steps calls the hooks of widgets and reads the workflow.  What comes of it does not depend
on the calls: every widget sends a literal that is known beforehand, and the steps are those of the
emitted sites, in the order in which the sites are walked through.

Main results:

- Definitions `Widget.literal` and `Site.literals`: what widgets send.
- Definition `Site.IsBuilt`: a site and its step.
- Theorem `Editor.exists_steps_of_expandSteps`: the steps that are built.
- Theorems `Editor.exec_compile_of_plan`, `Editor.exec_compile_of_prepare` and
  `Editor.exec_compile_of_prepared`: a compilation, stage by stage.
- Theorems `Editor.exec_compile_eq_ok_iff` and `Editor.exists_steps_of_compile`: a compilation that
  succeeds.
-/

namespace NodeFlow

/-! ## Literals -/

/-- What a widget sends. -/
def Widget.literal (w : Widget) : Json :=
  match w.serializer with
  | none => w.value
  | some h => h.script.returns.getD (.str (h.script.lead ++ w.value.display))

private theorem Widget.eq_literal_of_sentValue {w : Widget} {node : NodeId} {i : Nat} {o : Outside}
    {v : Json} (h : ((w.sentValue node i).exec o).1 = .ok v) : v = w.literal := by
  cases hw : w.serializer with
  | none =>
    simp only [sentValue, hw] at h
    cases h
    simp only [literal, hw]
  | some hook =>
    simp only [sentValue, hw] at h
    rcases Act.exec_bind_eq_ok_iff.1 (Prod.ext h rfl) with ⟨_, _, -, hlast⟩
    cases hlast
    simp only [literal, hw]

/-- The literals of the widgets that send any; of several under one name the last one counts. -/
def Site.literals (s : Site) : Members :=
  Table.update [] ((s.widgets.filter (·.isSent)).map fun w => (w.name, w.literal))

/-- The step belongs to the site, under its key. -/
def Site.IsBuilt (g : Workflow) (maxHops : Int) (titled : Bool) (s : Site) (m : String × Step) :
    Prop :=
  m.1 = s.id.key ∧ s.step g maxHops titled s.literals = .ok m.2

namespace Editor

/-! ## What building leaves alone -/

/-- Everything but the outside stays as it is. -/
def onlyOutside : Drift Editor := .keeping fun e => { e with outside := {} }

/-- An action on the outside leaves the rest of the editor. -/
theorem outward_onlyOutside {α : Type} (act : Act Outside α) : (outward act).Within onlyOutside :=
  .focus_free act fun _ _ => rfl

private theorem sentValues_onlyOutside (node : NodeId) (i : Nat) (ws : List Widget)
    (sent : Members) : (sentValues node i ws sent).Within onlyOutside := by
  induction ws generalizing i sent with
  | nil => exact .pure _
  | cons w ws ih =>
    rw [sentValues]
    split
    · exact .bind (.waitFor _) fun _ => .bind (outward_onlyOutside _) fun _ => ih _ _
    · exact ih _ _

private theorem buildSteps_onlyOutside (g : Workflow) (maxHops : Int) (titled : Bool)
    (sites : List Site)
    (output : Output) : (buildSteps g maxHops titled sites output).Within onlyOutside := by
  induction sites generalizing output with
  | nil => exact .pure _
  | cons s sites ih =>
    rw [buildSteps]
    split
    · exact .bind (sentValues_onlyOutside _ _ _ _) fun _ => .bind (.lift _) fun _ => ih _
    · exact ih _

/-- Building steps changes the outside only. -/
theorem expandSteps_onlyOutside (g : Workflow) (maxHops : Int) (titled : Bool) (sites : List Site)
    (output : Output) : (expandSteps g maxHops titled sites output).Within onlyOutside := by
  induction sites generalizing output with
  | nil => exact .pure _
  | cons s sites ih =>
    exact .bind (.lift _) fun _ => .bind (buildSteps_onlyOutside _ _ _ _ _) fun _ => ih _

/-! ## What is built -/

/-- An action on the outside does to the outside what it does alone. -/
theorem exec_outward {α : Type} (act : Act Outside α) (e : Editor) :
    (outward act).exec e =
      ((act.exec e.outside).1, { e with outside := (act.exec e.outside).2 }) := by
  rw [outward, Act.exec_focus]
  · intros
    rfl
  · intros
    rfl

/-- What widgets send are their literals. -/
theorem eq_update_of_sentValues {node : NodeId} {i : Nat} {ws : List Widget} {sent out : Members}
    {e e' : Editor} (h : (sentValues node i ws sent).exec e = (.ok out, e')) :
    out = Table.update sent ((ws.filter (·.isSent)).map fun w => (w.name, w.literal)) := by
  induction ws generalizing i sent e with
  | nil =>
    cases h
    rfl
  | cons w ws ih =>
    rw [sentValues] at h
    split at h
    · rename_i hsent
      rcases Act.exec_bind_eq_ok_iff.1 h with ⟨_, _, -, h⟩
      rcases Act.exec_bind_eq_ok_iff.1 h with ⟨v, _, hvalue, h⟩
      rw [exec_outward] at hvalue
      have hv := Widget.eq_literal_of_sentValue (congrArg Prod.fst hvalue)
      rw [ih h, hv]
      simp [hsent, Table.update]
    · rename_i hsent
      rw [ih h]
      simp [hsent]

private theorem exists_steps_of_buildSteps {g : Workflow} {maxHops : Int} {titled : Bool}
    {sites : List Site} {output out : Output} {e e' : Editor}
    (h : (buildSteps g maxHops titled sites output).exec e = (.ok out, e')) :
    ∃ steps, List.Forall₂ (Site.IsBuilt g maxHops titled) (sites.filter (·.isEmitted)) steps ∧
      out = Table.update output steps := by
  induction sites generalizing output e with
  | nil =>
    cases h
    exact ⟨[], .nil, rfl⟩
  | cons s sites ih =>
    rw [buildSteps] at h
    split at h
    · rename_i hemitted
      rcases Act.exec_bind_eq_ok_iff.1 h with ⟨sent, _, hsent, h⟩
      rcases Act.exec_bind_eq_ok_iff.1 h with ⟨step, _, hstep, h⟩
      rcases ih h with ⟨steps, hbuilt, hout⟩
      have hliterals : sent = s.literals := eq_update_of_sentValues hsent
      rw [hliterals] at hstep
      refine ⟨(s.id.key, step) :: steps, ?_, hout⟩
      rw [List.filter_cons_of_pos hemitted]
      exact .cons ⟨rfl, (Act.exec_lift_eq_ok_iff.1 hstep).1⟩ hbuilt
    · rename_i hskipped
      rcases ih h with ⟨steps, hbuilt, hout⟩
      refine ⟨steps, ?_, hout⟩
      rwa [List.filter_cons_of_neg hskipped]

/-- The steps that are built belong to the emitted sites among those that nodes expand to. -/
theorem exists_steps_of_expandSteps {g : Workflow} {maxHops : Int} {titled : Bool}
    {nodes : List Site} {output out : Output} {e e' : Editor}
    (h : (expandSteps g maxHops titled nodes output).exec e = (.ok out, e')) :
    ∃ expanded steps, List.Forall₂ (fun s sites => s.expand = .ok sites) nodes expanded ∧
      List.Forall₂ (Site.IsBuilt g maxHops titled) (expanded.flatten.filter (·.isEmitted)) steps ∧
      out = Table.update output steps := by
  induction nodes generalizing output e with
  | nil =>
    cases h
    exact ⟨[], [], .nil, .nil, rfl⟩
  | cons s nodes ih =>
    rcases Act.exec_bind_eq_ok_iff.1 h with ⟨sites, _, hsites, h⟩
    rcases Act.exec_bind_eq_ok_iff.1 h with ⟨built, _, hbuild, h⟩
    rcases exists_steps_of_buildSteps hbuild with ⟨steps, hsteps, hbuilt⟩
    rcases ih h with ⟨expanded, rest, hexpanded, hrest, hout⟩
    have hfirst := (Act.exec_lift_eq_ok_iff.1 hsites).1
    refine ⟨sites :: expanded, steps ++ rest, .cons hfirst hexpanded, ?_, ?_⟩
    · rw [List.flatten_cons, List.filter_append]
      exact List.rel_append hsteps hrest
    · rw [hout, hbuilt, Table.update, Table.update, Table.update, List.foldl_append]

section Stages

variable {e e₁ : Editor} {order : List NodeId} {f : Fault}

/-- Where there is no order, a compilation does nothing but say so. -/
theorem exec_compile_of_plan (hplan : e.graph.plan = .error f) : compile.exec e = (.error f, e) := by
  rw [compile, Act.exec_bind, Act.exec_get]
  dsimp only
  rw [Act.exec_bind, Act.exec_lift, hplan]

/-- Where preparation fails, so does the compilation, and nothing else happens. -/
theorem exec_compile_of_prepare (horder : e.graph.plan = .ok order)
    (hprepare : (prepare order).exec e = (.error f, e₁)) : compile.exec e = (.error f, e₁) := by
  rw [compile, Act.exec_bind, Act.exec_get]
  dsimp only
  rw [Act.exec_bind, Act.exec_lift, horder]
  dsimp only
  rw [Act.exec_bind, hprepare]

/-- A compilation that has been prepared builds the steps and saves the workflow. -/
theorem exec_compile_of_prepared (horder : e.graph.plan = .ok order)
    (hprepare : (prepare order).exec e = (.ok ⟨⟩, e₁)) : compile.exec e =
      (compileSites e₁.graph e₁.settings.maxHops e₁.settings.devMode
        ((order.filterMap e₁.graph.at?).map Site.outer) >>= fun output =>
          pure ⟨Workflow.save e₁.graph, output⟩ : EditorAct Prompt).exec e₁ := by
  rw [compile, Act.exec_bind, Act.exec_get]
  dsimp only
  rw [Act.exec_bind, Act.exec_lift, horder]
  dsimp only
  rw [Act.exec_bind, hprepare]
  dsimp only
  rw [Act.exec_bind, Act.exec_get]

end Stages

/-- A compilation succeeds if the order, the preparation and the output do. -/
theorem exec_compile_eq_ok_iff {e e' : Editor} {p : Prompt} :
    compile.exec e = (.ok p, e') ↔
      ∃ order prepared output, e.graph.plan = .ok order ∧
        (prepare order).exec e = (.ok ⟨⟩, prepared) ∧
        (compileSites prepared.graph prepared.settings.maxHops prepared.settings.devMode
          ((order.filterMap prepared.graph.at?).map Site.outer)).exec prepared = (.ok output, e') ∧
        p = ⟨Workflow.save prepared.graph, output⟩ := by
  constructor
  · intro h
    rcases Act.exec_bind_eq_ok_iff.1 h with ⟨_, _, hget, h⟩
    cases hget
    rcases Act.exec_bind_eq_ok_iff.1 h with ⟨order, _, hlift, h⟩
    rcases Act.exec_lift_eq_ok_iff.1 hlift with ⟨horder, rfl⟩
    rcases Act.exec_bind_eq_ok_iff.1 h with ⟨_, prepared, hprepare, h⟩
    rcases Act.exec_bind_eq_ok_iff.1 h with ⟨_, _, hget, h⟩
    cases hget
    rcases Act.exec_bind_eq_ok_iff.1 h with ⟨output, _, houtput, h⟩
    cases h
    exact ⟨order, prepared, output, horder, hprepare, houtput, rfl⟩
  · rintro ⟨order, prepared, output, horder, hprepare, houtput, rfl⟩
    refine Act.exec_bind_eq_ok_iff.2 ⟨e, e, rfl, ?_⟩
    refine Act.exec_bind_eq_ok_iff.2 ⟨order, e, Act.exec_lift_eq_ok_iff.2 ⟨horder, rfl⟩, ?_⟩
    refine Act.exec_bind_eq_ok_iff.2 ⟨⟨⟩, prepared, hprepare, ?_⟩
    refine Act.exec_bind_eq_ok_iff.2 ⟨prepared, prepared, rfl, ?_⟩
    exact Act.exec_bind_eq_ok_iff.2 ⟨output, e', houtput, rfl⟩

/-- A compilation that succeeds: the order it follows, the state that its preparation left, the
sites it walked through and the steps it built. -/
theorem exists_steps_of_compile {e e' : Editor} {p : Prompt}
    (h : compile.exec e = (.ok p, e')) :
    ∃ order prepared expanded steps, e.graph.plan = .ok order ∧
      (prepare order).exec e = (.ok ⟨⟩, prepared) ∧ onlyOutside.rel prepared e' ∧
      List.Forall₂ (fun s sites => s.expand = .ok sites)
        ((order.filterMap e'.graph.at?).map Site.outer) expanded ∧
      List.Forall₂ (Site.IsBuilt e'.graph e'.settings.maxHops e'.settings.devMode)
        (expanded.flatten.filter (·.isEmitted)) steps ∧
      p.output = Output.prune (Table.update [] steps) := by
  rcases exec_compile_eq_ok_iff.1 h with ⟨order, prepared, output, horder, hprepare, houtput, rfl⟩
  rcases Act.exec_bind_eq_ok_iff.1 houtput with ⟨built, _, hbuilt, h⟩
  cases h
  rcases exists_steps_of_expandSteps hbuilt with ⟨expanded, steps, hexpanded, hsteps, rfl⟩
  have hsame := (expandSteps_onlyOutside _ _ _ _ _).of_exec hbuilt
  have hgraph : e'.graph = prepared.graph := congrArg (·.graph) hsame
  have hsettings : e'.settings = prepared.settings := congrArg (·.settings) hsame
  refine ⟨order, prepared, expanded, steps, horder, hprepare, hsame, ?_, ?_, rfl⟩
  · rw [hgraph]
    exact hexpanded
  · rw [hgraph, hsettings]
    exact hsteps

end Editor

end NodeFlow
