import NodeFlow.Proofs.Compile.Steps
import NodeFlow.Proofs.Compile.Writes

/-!
# Hooks that give what is sent

A widget may have a hook that gives the value to send.  Where such hooks fail always or never, steps
that have been built once can be built again, in any state and in any order: the hooks that were
called are those that do not fail.

Main results:

- Definition `Widget.Sends`: the widget sends its value, if it sends any.
- Theorems `Editor.sends_of_expandSteps` and `Editor.exists_buildSteps`: steps are built where, and
  only where, the widgets of the emitted sites send.
-/

namespace NodeFlow

/-! ## What widgets send -/

namespace Widget

/-- If the widget sends a value, the hook that gives it does not fail. -/
def Sends (w : Widget) : Prop :=
  w.isSent = true → ∀ h, w.serializer = some h → h.outcome = .ok ()

/-- A widget without hooks sends its value. -/
theorem IsSilent.sends {w : Widget} (h : w.IsSilent) : w.Sends := by
  intro _ hook hhook
  rw [h.serializer] at hhook
  cases hhook

variable {w : Widget} (hsteady : ∀ h, w.serializer = some h → h.IsSteady)

include hsteady

private theorem outcome_of_sentValue {node : NodeId} {i : Nat} {o : Outside} {v : Json}
    (h : ((w.sentValue node i).exec o).1 = .ok v) :
    ∀ hook, w.serializer = some hook → hook.outcome = .ok () := by
  intro hook hhook
  simp only [sentValue, hhook] at h
  rcases Act.exec_bind_eq_ok_iff.1 (Prod.ext h rfl) with ⟨⟨⟩, o₁, hcall, -⟩
  rw [← hook.exec_call (hsteady hook hhook), hcall]

private theorem exists_sentValue (h : ∀ hook, w.serializer = some hook → hook.outcome = .ok ())
    (node : NodeId) (i : Nat) (o : Outside) : ∃ v o', (w.sentValue node i).exec o = (.ok v, o') := by
  cases hhook : w.serializer with
  | none =>
    simp only [sentValue, hhook]
    exact ⟨_, _, rfl⟩
  | some hook =>
    simp only [sentValue, hhook]
    have hcall := hook.exec_call (hsteady hook hhook)
      (.hookRun "serialize_value" node.toJson (.int i)) o
    rw [h hook hhook] at hcall
    exact ⟨_, _, Act.exec_bind_eq_ok_iff.2 ⟨⟨⟩, _, Prod.ext hcall rfl, rfl⟩⟩

end Widget

namespace Editor

open Workflow

variable {e e' : Editor} {maxHops : Int} {titled : Bool}

section Widgets

variable {ws : List Widget} (hreliable : ∀ w ∈ ws, w.IsReliable)

include hreliable

/-- Where values were sent, no hook that gives one fails. -/
theorem sends_of_sentValues {node : NodeId} {i : Nat} {sent out : Members}
    (h : (sentValues node i ws sent).exec e = (.ok out, e')) : ∀ w ∈ ws, w.Sends := by
  induction ws generalizing i sent e with
  | nil => exact fun w hw => absurd hw List.not_mem_nil
  | cons w ws ih =>
    have hrest := fun u hu => hreliable u (List.mem_cons_of_mem w hu)
    rw [sentValues] at h
    split at h
    · rcases Act.exec_bind_eq_ok_iff.1 h with ⟨_, _, -, h⟩
      rcases Act.exec_bind_eq_ok_iff.1 h with ⟨v, _, hvalue, h⟩
      rw [exec_outward] at hvalue
      refine List.forall_mem_cons.2 ⟨fun _ => ?_, ih hrest h⟩
      exact Widget.outcome_of_sentValue (hreliable w List.mem_cons_self).serializer
        (congrArg Prod.fst hvalue)
    · rename_i hsent
      exact List.forall_mem_cons.2 ⟨fun h => absurd h hsent, ih hrest h⟩

/-- Where no hook fails that gives a value to send, all values are sent. -/
theorem exists_sentValues (hsends : ∀ w ∈ ws, w.Sends) (node : NodeId) (i : Nat) (sent : Members)
    (e : Editor) : ∃ out e', (sentValues node i ws sent).exec e = (.ok out, e') := by
  induction ws generalizing i sent e with
  | nil => exact ⟨sent, e, rfl⟩
  | cons w ws ih =>
    have hrest := fun u hu => hreliable u (List.mem_cons_of_mem w hu)
    have hsendsRest := fun u hu => hsends u (List.mem_cons_of_mem w hu)
    rw [sentValues]
    split
    · rename_i hsent
      rcases Widget.exists_sentValue (hreliable w List.mem_cons_self).serializer
        (hsends w List.mem_cons_self hsent) node i e.outside with ⟨v, o', hvalue⟩
      have hout : (outward (w.sentValue node i)).exec e = (.ok v, { e with outside := o' }) := by
        rw [exec_outward, hvalue]
      rcases ih hrest hsendsRest (i + 1) (sent.set w.name v) { e with outside := o' } with
        ⟨out, e', hexec⟩
      refine ⟨out, e', Act.exec_bind_eq_ok_iff.2 ⟨⟨⟩, e, by rw [Act.exec_waitFor], ?_⟩⟩
      exact Act.exec_bind_eq_ok_iff.2 ⟨v, _, hout, hexec⟩
    · exact ih hrest hsendsRest _ _ _

end Widgets

/-! ## What is built from sites -/

section Sites

variable {g : Workflow} {sites : List Site} (hreliable : ∀ s ∈ sites, ∀ w ∈ s.widgets, w.IsReliable)

include hreliable

private theorem sends_of_buildSteps {output out : Output}
    (h : (buildSteps g maxHops titled sites output).exec e = (.ok out, e')) :
    ∀ s ∈ sites, s.isEmitted = true → ∀ w ∈ s.widgets, w.Sends := by
  induction sites generalizing output e with
  | nil => exact fun s hs => absurd hs List.not_mem_nil
  | cons s sites ih =>
    have hrest := fun t ht => hreliable t (List.mem_cons_of_mem s ht)
    rw [buildSteps] at h
    split at h
    · rcases Act.exec_bind_eq_ok_iff.1 h with ⟨sent, _, hsent, h⟩
      rcases Act.exec_bind_eq_ok_iff.1 h with ⟨step, _, -, h⟩
      exact List.forall_mem_cons.2
        ⟨fun _ => sends_of_sentValues (hreliable s List.mem_cons_self) hsent, ih hrest h⟩
    · rename_i hskipped
      exact List.forall_mem_cons.2 ⟨fun h => absurd h hskipped, ih hrest h⟩

/-- Where all hooks give a value, the steps that can be built are built. -/
theorem exists_buildSteps (hsends : ∀ s ∈ sites, s.isEmitted = true → ∀ w ∈ s.widgets, w.Sends)
    {steps : Output}
    (hbuilt : List.Forall₂ (Site.IsBuilt g maxHops titled) (sites.filter (·.isEmitted)) steps)
    (output : Output) (e : Editor) :
    ∃ e', (buildSteps g maxHops titled sites output).exec e =
      (.ok (Table.update output steps), e') := by
  induction sites generalizing output e steps with
  | nil =>
    cases hbuilt
    exact ⟨e, rfl⟩
  | cons s sites ih =>
    have hrest := fun t ht => hreliable t (List.mem_cons_of_mem s ht)
    have hsendsRest := fun t ht => hsends t (List.mem_cons_of_mem s ht)
    rw [buildSteps]
    cases hemitted : s.isEmitted with
    | false =>
      rw [List.filter_cons_of_neg (by simp [hemitted])] at hbuilt
      simpa using ih hrest hsendsRest hbuilt output e
    | true =>
      rw [List.filter_cons_of_pos hemitted] at hbuilt
      cases hbuilt with
      | @cons _ m _ steps hfirst hbuilt =>
        rcases exists_sentValues (hreliable s List.mem_cons_self)
          (hsends s List.mem_cons_self hemitted) s.id 0 [] e with ⟨sent, e₁, hsent⟩
        have hliterals : sent = s.literals := eq_update_of_sentValues hsent
        have hstep : s.step g maxHops titled sent = .ok m.2 := by
          rw [hliterals]
          exact hfirst.2
        rcases ih hrest hsendsRest hbuilt (output.set s.id.key m.2) e₁ with ⟨e₂, hexec⟩
        refine ⟨e₂, ?_⟩
        rw [if_pos rfl]
        refine Act.exec_bind_eq_ok_iff.2 ⟨sent, e₁, hsent, ?_⟩
        refine Act.exec_bind_eq_ok_iff.2
          ⟨m.2, e₁, Act.exec_lift_eq_ok_iff.2 ⟨hstep, rfl⟩, ?_⟩
        rw [hexec, ← hfirst.1]
        rfl

end Sites

end Editor

/-! ## What is built from nodes -/

namespace Editor

open Workflow

variable {e e' : Editor} {g : Workflow} {maxHops : Int} {titled : Bool}

/-- Where the steps of reliable widgets were built, all hooks gave a value. -/
theorem sends_of_expandSteps {nodes : List Site} {met : List (List Site)}
    (hmet : List.Forall₂ (fun s sites => s.expand = .ok sites) nodes met)
    (hreliable : ∀ s ∈ met.flatten, ∀ w ∈ s.widgets, w.IsReliable) {output out : Output}
    (h : (expandSteps g maxHops titled nodes output).exec e = (.ok out, e')) :
    ∀ s ∈ met.flatten, s.isEmitted = true → ∀ w ∈ s.widgets, w.Sends := by
  induction hmet generalizing output e with
  | nil => exact fun s hs => absurd hs List.not_mem_nil
  | @cons n sites nodes met hfirst _ ih =>
    rw [List.flatten_cons, List.forall_mem_append] at hreliable ⊢
    rcases Act.exec_bind_eq_ok_iff.1 h with ⟨sites', _, hlift, h⟩
    rcases Act.exec_lift_eq_ok_iff.1 hlift with ⟨hsites', rfl⟩
    rw [hfirst, Except.ok.injEq] at hsites'
    subst hsites'
    rcases Act.exec_bind_eq_ok_iff.1 h with ⟨built, _, hbuild, h⟩
    exact ⟨sends_of_buildSteps hreliable.1 hbuild, ih hreliable.2 h⟩

private theorem exec_buildSteps_append (sites sites' : List Site) (output : Output) (e : Editor) :
    (buildSteps g maxHops titled (sites ++ sites') output).exec e =
      (buildSteps g maxHops titled sites output >>= buildSteps g maxHops titled sites').exec e := by
  induction sites generalizing output e with
  | nil => rfl
  | cons s sites ih =>
    rw [List.cons_append, buildSteps, buildSteps]
    split
    · simp only [Act.exec_bind]
      rcases (sentValues s.id 0 s.widgets []).exec e with ⟨r, e₁⟩
      cases r with
      | error f => rfl
      | ok sent =>
        simp only [Act.exec_lift]
        cases s.step g maxHops titled sent with
        | error f => rfl
        | ok step =>
          have ih := ih (output.set s.id.key step) e₁
          rw [Act.exec_bind] at ih
          exact ih
    · exact ih output e

/-- Where nodes can be expanded, the steps are built site by site. -/
theorem exec_expandSteps_of_expand {nodes : List Site} {met : List (List Site)}
    (hmet : List.Forall₂ (fun s sites => s.expand = .ok sites) nodes met) (output : Output)
    (e : Editor) : (expandSteps g maxHops titled nodes output).exec e =
      (buildSteps g maxHops titled met.flatten output).exec e := by
  induction hmet generalizing output e with
  | nil => rfl
  | @cons n sites nodes met hfirst _ ih =>
    rw [List.flatten_cons, exec_buildSteps_append, expandSteps, hfirst, Act.exec_bind, Act.exec_lift]
    dsimp only
    rw [Act.exec_bind, Act.exec_bind]
    rcases (buildSteps g maxHops titled sites output).exec e with ⟨r, e₁⟩
    cases r with
    | error f => rfl
    | ok built => exact ih built e₁

/-- Without groups, the steps are built node by node. -/
theorem exec_expandSteps_of_plain {nodes : List (Node Group)} (hplain : ∀ n ∈ nodes, n.group? = none)
    (output : Output) (e : Editor) :
    (expandSteps g maxHops titled (nodes.map Site.outer) output).exec e =
      (buildSteps g maxHops titled (nodes.map Site.outer) output).exec e := by
  have hmet : List.Forall₂ (fun s sites => s.expand = .ok sites) (nodes.map Site.outer)
      ((nodes.map Site.outer).map fun s => [s]) := by
    rw [List.map_map, List.forall₂_map_left_iff, List.forall₂_map_right_iff, List.forall₂_same]
    intro n hn
    simp only [Site.expand, innerSites?, hplain n hn]
    split <;> rfl
  rw [exec_expandSteps_of_expand hmet, ← List.flatMap_def, List.flatMap_singleton']

end Editor

end NodeFlow
