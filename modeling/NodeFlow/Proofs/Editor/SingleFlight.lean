import Mathlib.Data.List.Induction
import NodeFlow.Proofs.Editor.Turns

/-!
# One submission at a time

However calls take turns at a desk, at most one of them works on the queue, and requests are worked
on in the order in which they join it, unit by unit, as if nobody else were there.  When nobody works,
nothing waits.

Main results:

- Definitions `Desk.Accounts`, `Desk.Idle`, `Desk.Busy` and `Desk.Steady`: the invariant of a desk.
- Theorems `Desk.Steady.turn` and `Desk.Steady.run`: turns keep it.
- Definition `Desk.InOrder` with `Desk.InOrder.turn`: requests join in the order of their calls.
- Theorem `Desk.run_singleFlight`: what happens at a queue, whatever the order of turns.
- Theorem `Desk.exists_run_gather`: calls that are made at once are a case of it.
-/

namespace NodeFlow

open Editor

/-- The request of a call, if it is sound. -/
def Call.request? (c : Call) : Option Request := (Request.read c.number c.batch).toOption

namespace Desk

variable {e : Editor} {d : Desk} {i : Nat} {c : Call} {stage : Stage}

/-! ## The invariant -/

/-- The drains of the past and the present one account for all that happened: for the work, and for
the requests that joined and do not wait any more. -/
structure Accounts (d : Desk) (past : List Drain) (present : Option Drain) : Prop where
  work : d.events.filter QueueEvent.isWork = (past ++ present.toList).flatMap Drain.log
  arrivals : d.events.filterMap QueueEvent.request? =
    ((past ++ present.toList).flatMap (·.blocks)).map (·.request) ++ d.editor.pending

/-- Nobody works, and nothing waits; the editor is as the drains of the past have left it. -/
structure Idle (e : Editor) (d : Desk) (past : List Drain) : Prop where
  quiet : ∀ call ∈ d.calls, call.2.isWorking = false
  draining : d.editor.draining = false
  pending : d.editor.pending = []
  passed : ∃ handed, Passes e past handed d.editor

/-- The call at a position works on a drain, which has begun where the drains of the past have left
the editor, and nobody else works. -/
structure Busy (e : Editor) (d : Desk) (past : List Drain) (i : Nat) (stage : Stage)
    (present : Drain) : Prop where
  call : d.calls[i]? = some (present.opener, stage)
  quiet : ∀ j call, d.calls[j]? = some call → j ≠ i → call.2.isWorking = false
  draining : d.editor.draining = true
  underway : ∃ start earlier later, Passes e past earlier start ∧
    present.IsUnderway start stage later d.editor

/-- A desk where nobody works or one call does, and where every event has its place. -/
inductive Steady (e : Editor) (d : Desk) : Prop
  | idle (past : List Drain) (haccounts : d.Accounts past none) (hidle : Idle e d past)
  | busy (past : List Drain) (present : Drain) (i : Nat) (stage : Stage)
      (haccounts : d.Accounts past (some present)) (hbusy : Busy e d past i stage present)

/-- A desk that opens with an empty queue is steady. -/
theorem Steady.opening (hpending : e.pending = []) (hdraining : e.draining = false)
    (calls : List Call) : (opening e calls).Steady e := by
  refine .idle [] ⟨rfl, by simp [Desk.opening, hpending]⟩
    ⟨?_, hdraining, hpending, [], .start⟩
  intro call hcall
  rcases List.mem_map.1 hcall with ⟨c, -, rfl⟩
  rfl

/-! ## Turns -/

/-- What a turn does to the desk is what it does to the call. -/
theorem turn_eq (hcall : d.calls[i]? = some (c, stage)) (pace : Pace) :
    d.turn pace i = ⟨(stage.turn pace c d.editor).editor,
      d.calls.set i (c, (stage.turn pace c d.editor).stage),
      d.events ++ (stage.turn pace c d.editor).events⟩ := by
  simp only [turn, hcall]

/-- A turn of a call that is not there does nothing. -/
theorem turn_of_none (h : d.calls[i]? = none) (pace : Pace) : d.turn pace i = d := by
  simp only [turn, h]

/-- The call that has a turn goes on to its next stage. -/
theorem call_turn (hcall : d.calls[i]? = some (c, stage)) (pace : Pace) :
    (d.turn pace i).calls[i]? = some (c, (stage.turn pace c d.editor).stage) := by
  rcases List.getElem?_eq_some_iff.1 hcall with ⟨hi, -⟩
  simp [turn_eq hcall, hi]

/-- The other calls stay where they are. -/
theorem call_turn_of_ne {j : Nat} (hj : j ≠ i) (pace : Pace) :
    (d.turn pace i).calls[j]? = d.calls[j]? := by
  cases hcall : d.calls[i]? with
  | none => rw [turn_of_none hcall]
  | some call => simp [turn_eq hcall, Ne.symm hj]

/-- What holds of the call at a position, and of the others, holds of all calls. -/
theorem forall_calls {P : Call × Stage → Prop} {mine : Call × Stage} (hcall : d.calls[i]? = some mine)
    (hmine : P mine) (hothers : ∀ j call, d.calls[j]? = some call → j ≠ i → P call) :
    ∀ call ∈ d.calls, P call := by
  intro call hmem
  rcases List.getElem?_of_mem hmem with ⟨j, hj⟩
  by_cases hji : j = i
  · rw [hji, hcall] at hj
    cases hj
    exact hmine
  · exact hothers j call hj hji

/-- What holds of the call after its turn and of all others holds of every call. -/
theorem forall_calls_turn {P : Call × Stage → Prop} (hcall : d.calls[i]? = some (c, stage))
    (pace : Pace) (hmine : P (c, (stage.turn pace c d.editor).stage))
    (hothers : ∀ j call, d.calls[j]? = some call → j ≠ i → P call) :
    ∀ call ∈ (d.turn pace i).calls, P call :=
  forall_calls (call_turn hcall pace) hmine fun j call hj hne =>
    hothers j call (by rwa [call_turn_of_ne hne] at hj) hne

/-- Where the others are quiet, and the call that had the turn is quiet too, everybody is. -/
theorem quiet_turn (hcall : d.calls[i]? = some (c, stage)) (pace : Pace)
    (hquiet : ∀ j call, d.calls[j]? = some call → j ≠ i → call.2.isWorking = false)
    (hturn : (stage.turn pace c d.editor).stage.isWorking = false) :
    ∀ call ∈ (d.turn pace i).calls, call.2.isWorking = false :=
  forall_calls_turn (P := fun call => call.2.isWorking = false) hcall pace hturn hquiet

private theorem Idle.quiet_at {past : List Drain} (h : d.Idle e past) {j : Nat}
    {call : Call × Stage} (hcall : d.calls[j]? = some call) : call.2.isWorking = false :=
  h.quiet call (List.mem_of_getElem? hcall)

/-- A call that begins while nobody works goes to work, unless it is refused. -/
theorem Steady.turn_entering_idle {past : List Drain} (haccounts : d.Accounts past none)
    (hidle : d.Idle e past) (hcall : d.calls[i]? = some (c, .entering)) (pace : Pace) :
    (d.turn pace i).Steady e := by
  rcases hidle.passed with ⟨handed, hpassed⟩
  cases hread : Request.read c.number c.batch with
  | error f =>
    have hturn : Stage.entering.turn pace c d.editor = ⟨.returned (some f), d.editor, []⟩ := by
      simp [Stage.turn, enter, hread]
    have heditor : (d.turn pace i).editor = d.editor := by rw [turn_eq hcall, hturn]
    refine .idle past ?_ ⟨quiet_turn hcall pace (fun j call hj _ => hidle.quiet_at hj) ?_, ?_, ?_,
      handed, ?_⟩
    · rw [turn_eq hcall, hturn]
      exact ⟨by simpa using haccounts.work, by simpa using haccounts.arrivals⟩
    · rw [hturn]
      rfl
    · rw [heditor, hidle.draining]
    · rw [heditor, hidle.pending]
    · rwa [heditor]
  | ok r =>
    have hturn : Stage.entering.turn pace c d.editor =
        ⟨.choosing, d.editor.opened r, [.joined r, .opened c]⟩ := by
      simp [Stage.turn, enter, hread, Editor.join, hidle.draining, opened]
    refine .busy past ⟨c, [], false⟩ i .choosing ?_ ⟨?_, ?_, ?_, d.editor, handed, [], hpassed, ?_⟩
    · rw [turn_eq hcall, hturn]
      refine ⟨?_, ?_⟩
      · simp [haccounts.work, QueueEvent.isWork, Drain.log]
      · simp [haccounts.arrivals, QueueEvent.request?, opened, Editor.join]
    · rw [call_turn hcall, hturn]
    · intro j call hj hne
      rw [call_turn_of_ne hne] at hj
      exact hidle.quiet_at hj
    · rw [turn_eq hcall, hturn]
      rfl
    · rw [turn_eq hcall, hturn]
      exact ⟨rfl, r, [], none, hread, rfl, by simp, by simp, .choosing .start⟩

/-- A call that begins while another one works leaves its request there and returns. -/
theorem Steady.turn_entering_busy {past : List Drain} {present : Drain} {w : Nat} {stage : Stage}
    (haccounts : d.Accounts past (some present)) (hbusy : d.Busy e past w stage present)
    (hcall : d.calls[i]? = some (c, .entering)) (pace : Pace) : (d.turn pace i).Steady e := by
  rcases hbusy.underway with
    ⟨start, earlier, later, hpassed, hopen, r, done, next, hread, hblocks, hdone, hnext, hcarries⟩
  have hne : w ≠ i := by
    rintro rfl
    rw [hbusy.call] at hcall
    cases hcall
    cases hcarries
  obtain ⟨failure, arrived, events, hturn, hwork, harrived⟩ : ∃ failure arrived events,
      Stage.entering.turn pace c d.editor = ⟨.returned failure,
        { d.editor with pending := d.editor.pending ++ arrived }, events⟩ ∧
      events.filter QueueEvent.isWork = [] ∧
      events.filterMap QueueEvent.request? = arrived := by
    cases hread : Request.read c.number c.batch with
    | error f => exact ⟨some f, [], [], by simp [Stage.turn, enter, hread], rfl, rfl⟩
    | ok r =>
      refine ⟨none, [r], [.joined r], ?_, rfl, rfl⟩
      simp [Stage.turn, enter, hread, Editor.join, hbusy.draining]
  refine .busy past present w stage ?_ ⟨?_, ?_, ?_, start, earlier, later, hpassed, hopen, r, done,
    next, hread, hblocks, hdone, hnext, ?_⟩
  · rw [turn_eq hcall, hturn]
    refine ⟨?_, ?_⟩
    · simp [haccounts.work, hwork]
    · simp [haccounts.arrivals, harrived]
  · rw [call_turn_of_ne hne, hbusy.call]
  · intro j call hj hjw
    by_cases hji : j = i
    · rw [hji, call_turn hcall, hturn] at hj
      cases hj
      rfl
    · rw [call_turn_of_ne hji] at hj
      exact hbusy.quiet j call hj hjw
  · rw [turn_eq hcall, hturn]
    exact hbusy.draining
  · rw [turn_eq hcall, hturn]
    exact hcarries.brought ⟨arrived, rfl⟩

/-- A working call that finds no request announces the end of the work and returns. -/
theorem Steady.turn_last {past : List Drain} {present : Drain}
    (haccounts : d.Accounts past (some present)) (hbusy : d.Busy e past i .choosing present)
    (hpending : d.editor.pending = []) (pace : Pace) : (d.turn pace i).Steady e := by
  rcases present with ⟨opener, blocks, isOver⟩
  rcases hbusy.underway with
    ⟨start, earlier, later, hpassed, hopen, r, done, next, hread, hblocks, hdone, -, hcarries⟩
  rcases hcarries with ⟨hwork⟩
  obtain ⟨rfl, rfl⟩ : blocks = done ∧ isOver = false := ⟨by simpa using hblocks, hopen⟩
  rcases choose_of_nil pace opener hpending with ⟨failure, hchoose⟩
  have hturn : Stage.choosing.turn pace opener d.editor = _ := hchoose
  have heditor : (d.turn pace i).editor = d.editor.announced opener := by
    rw [turn_eq hbusy.call, hturn]
  have hsame := announced_sameQueue d.editor opener
  have hempty : (d.editor.announced opener).pending = [] := (congrArg Prod.fst hsame).trans hpending
  refine .idle (past ++ [⟨opener, blocks, true⟩]) ?_
    ⟨quiet_turn hbusy.call pace hbusy.quiet ?_, ?_, ?_, earlier ++ later, ?_⟩
  · rw [turn_eq hbusy.call, hturn]
    refine ⟨?_, ?_⟩
    · simp [haccounts.work, QueueEvent.isWork, Drain.log]
    · simp [haccounts.arrivals, QueueEvent.request?, hempty, hpending]
  · rw [hturn]
    rfl
  · rw [heditor]
    exact congrArg Prod.snd hsame
  · rw [heditor, hempty]
  · rw [heditor]
    exact hpassed.drain hread hwork hpending

/-- A working call that does not end the work brings its drain forward. -/
theorem Steady.turn_working {past : List Drain} {present : Drain} {stage : Stage}
    (haccounts : d.Accounts past (some present)) (hbusy : d.Busy e past i stage present)
    (hmore : stage = .choosing → d.editor.pending ≠ []) (pace : Pace) :
    (d.turn pace i).Steady e := by
  rcases present with ⟨opener, blocks, isOver⟩
  rcases hbusy.underway with
    ⟨start, earlier, later, hpassed, hopen, r, done, next, hread, hblocks, -, -, hcarries⟩
  obtain ⟨rfl, rfl⟩ : blocks = done ++ next.toList ∧ isOver = false := ⟨hblocks, hopen⟩
  rcases Stage.turn_advances hcarries pace opener hmore with ⟨finished, next', hadvances⟩
  rcases hadvances.carries with ⟨later', hcarries'⟩
  refine .busy past ⟨opener, done ++ finished ++ next'.toList, false⟩ i
    (stage.turn pace opener d.editor).stage ?_ ⟨call_turn hbusy.call pace, ?_, ?_, start, earlier,
      later', hpassed, rfl, r, done ++ finished, next', hread, rfl, hcarries'.isWhole,
      hcarries'.isUnderway, ?_⟩
  · rw [turn_eq hbusy.call]
    refine ⟨?_, ?_⟩
    · have hwork := hadvances.work
      simp only [List.flatMap_append] at hwork
      simp [haccounts.work, Drain.log, hwork]
    · have harrivals := hadvances.arrivals
      simp only [List.map_append, List.append_assoc] at harrivals
      simp [haccounts.arrivals, harrivals]
  · intro j call hj hne
    rw [call_turn_of_ne hne] at hj
    exact hbusy.quiet j call hj hne
  · rw [turn_eq hbusy.call]
    exact hadvances.draining.trans hbusy.draining
  · rw [turn_eq hbusy.call]
    exact hcarries'

/-- A call that has returned has no more turns. -/
theorem turn_of_returned {failure : Option Fault}
    (hcall : d.calls[i]? = some (c, .returned failure)) (pace : Pace) : d.turn pace i = d := by
  have hset : d.calls.set i (c, .returned failure) = d.calls := by
    rcases List.getElem?_eq_some_iff.1 hcall with ⟨hi, hget⟩
    rw [← hget, List.set_getElem_self]
  simp [turn_eq hcall, Stage.turn, hset]

/-- The call that works at a steady desk is the one that is busy. -/
theorem Steady.exists_busy (h : d.Steady e) (hcall : d.calls[i]? = some (c, stage))
    (hworking : stage.isWorking = true) :
    ∃ past present, d.Accounts past (some present) ∧ d.Busy e past i stage present ∧
      present.opener = c := by
  cases h with
  | idle past haccounts hidle =>
    rw [hidle.quiet_at hcall] at hworking
    cases hworking
  | busy past present w stage' haccounts hbusy =>
    by_cases hwi : i = w
    · subst hwi
      cases hbusy.call.symm.trans hcall
      exact ⟨past, present, haccounts, hbusy, rfl⟩
    · rw [hbusy.quiet i _ hcall hwi] at hworking
      cases hworking

/-- A turn keeps a desk steady. -/
theorem Steady.turn (h : d.Steady e) (pace : Pace) (i : Nat) : (d.turn pace i).Steady e := by
  cases hcall : d.calls[i]? with
  | none => rwa [turn_of_none hcall]
  | some call =>
    rcases call with ⟨c, stage⟩
    rcases stage.isWorking_cases with hworking | rfl | ⟨failure, rfl⟩
    · rcases h.exists_busy hcall hworking with ⟨past, present, haccounts, hbusy, -⟩
      by_cases hlast : stage = .choosing ∧ d.editor.pending = []
      · rcases hlast with ⟨rfl, hpending⟩
        exact turn_last haccounts hbusy hpending pace
      · exact turn_working haccounts hbusy (fun hstage hpending => hlast ⟨hstage, hpending⟩) pace
    · cases h with
      | idle past haccounts hidle => exact turn_entering_idle haccounts hidle hcall pace
      | busy past present w stage haccounts hbusy =>
        exact turn_entering_busy haccounts hbusy hcall pace
    · rwa [turn_of_returned hcall]

/-- Turns in any order keep a desk steady. -/
theorem Steady.run (h : d.Steady e) (schedule : List (Pace × Nat)) : (d.run schedule).Steady e := by
  induction schedule generalizing d with
  | nil => exact h
  | cons t schedule ih => exact ih (h.turn t.1 t.2)

/-! ## The order of requests -/

/-- The calls at the given positions have begun, in this order, and those of them that are sound
brought their requests in this order. -/
structure InOrder (calls : List Call) (begun : List Nat) (d : Desk) : Prop where
  callers : d.calls.map (·.1) = calls
  fresh : ∀ i call, d.calls[i]? = some call → (call.2 = .entering ↔ i ∉ begun)
  own : d.events.filterMap QueueEvent.ownRequest? =
    (begun.filterMap (calls[·]?)).filterMap Call.request?

private theorem InOrder.opening (e : Editor) (calls : List Call) :
    InOrder calls [] (opening e calls) := by
  refine ⟨by simp [Desk.opening, Function.comp_def], ?_, rfl⟩
  intro i call hcall
  have hmem : call ∈ calls.map fun c => (c, Stage.entering) := List.mem_of_getElem? hcall
  rcases List.mem_map.1 hmem with ⟨c, -, rfl⟩
  simp

/-- A call that begins brings its request, if it is sound. -/
theorem own_turn_entering (pace : Pace) (c : Call) (e : Editor) :
    (Stage.entering.turn pace c e).stage ≠ .entering ∧
      (Stage.entering.turn pace c e).events.filterMap QueueEvent.ownRequest? =
        c.request?.toList := by
  cases hread : Request.read c.number c.batch with
  | error f => simp [Stage.turn, enter, Call.request?, hread, Except.toOption]
  | ok r =>
    cases hdraining : (e.join r).draining <;>
      simp [Stage.turn, enter, Call.request?, hread, hdraining, Except.toOption,
        QueueEvent.ownRequest?]

/-- A call that has begun brings no further request of its own. -/
theorem Steady.own_turn_of_ne (h : d.Steady e) (hcall : d.calls[i]? = some (c, stage))
    (hne : stage ≠ .entering) (pace : Pace) :
    (stage.turn pace c d.editor).stage ≠ .entering ∧
      (stage.turn pace c d.editor).events.filterMap QueueEvent.ownRequest? = [] := by
  cases hworking : stage.isWorking with
  | false =>
    cases stage with
    | entering => exact absurd rfl hne
    | returned failure => exact ⟨by simp [Stage.turn], rfl⟩
    | choosing => cases hworking
    | compiling => cases hworking
    | submitting => cases hworking
    | showing => cases hworking
  | true =>
    rcases h.exists_busy hcall hworking with ⟨past, present, -, hbusy, -⟩
    rcases hbusy.underway with ⟨start, earlier, later, -, -, r, done, next, -, -, -, -, hcarries⟩
    by_cases hlast : stage = .choosing ∧ d.editor.pending = []
    · rcases hlast with ⟨rfl, hpending⟩
      rcases choose_of_nil pace c hpending with ⟨failure, hchoose⟩
      rw [Stage.turn, hchoose]
      exact ⟨by simp, rfl⟩
    · obtain ⟨finished, next', hadvances⟩ := Stage.turn_advances hcarries pace c
        fun hstage hpending => hlast ⟨hstage, hpending⟩
      refine ⟨fun hstage => ?_, hadvances.own⟩
      rcases hadvances.carries with ⟨later', hcarries'⟩
      have hworks := hcarries'.isWorking
      rw [hstage] at hworks
      cases hworks

/-- A turn of a call keeps the order, if afterwards the call has begun and its request has been
added, should it bring one. -/
theorem InOrder.turn_of_call {calls : List Call} {begun now : List Nat} (h : InOrder calls begun d)
    (hcall : d.calls[i]? = some (c, stage)) (pace : Pace) (hhere : i ∈ now)
    (hothers : ∀ j ≠ i, j ∈ now ↔ j ∈ begun)
    (hstage : (stage.turn pace c d.editor).stage ≠ .entering)
    (hown : (begun.filterMap (calls[·]?)).filterMap Call.request? ++
      (stage.turn pace c d.editor).events.filterMap QueueEvent.ownRequest? =
        (now.filterMap (calls[·]?)).filterMap Call.request?) :
    InOrder calls now (d.turn pace i) := by
  have hcalls : calls[i]? = some c := by simp [← h.callers, hcall]
  refine ⟨?_, fun j call hj => ?_, ?_⟩
  · rcases List.getElem?_eq_some_iff.1 hcalls with ⟨hi, hget⟩
    rw [turn_eq hcall, List.map_set, h.callers, ← hget, List.set_getElem_self]
  · by_cases hji : j = i
    · rw [hji, call_turn hcall] at hj
      cases hj
      simpa [hji, hhere] using hstage
    · rw [call_turn_of_ne hji] at hj
      rw [hothers j hji]
      exact h.fresh j call hj
  · rw [turn_eq hcall, List.filterMap_append, h.own, hown]

/-- A turn keeps the order; a call that had no turn before is the last that began. -/
theorem InOrder.turn {calls : List Call} {begun : List Nat} (h : InOrder calls begun d)
    (hsteady : d.Steady e) (pace : Pace) (i : Nat) :
    InOrder calls (if i ∈ begun then begun else begun ++ [i]) (d.turn pace i) := by
  cases hcall : d.calls[i]? with
  | none =>
    have hcalls : calls[i]? = none := by simpa [← h.callers] using hcall
    rw [turn_of_none hcall]
    split
    · exact h
    · refine ⟨h.callers, fun j call hj => ?_, ?_⟩
      · have hji : j ≠ i := by
          rintro rfl
          rw [hcall] at hj
          cases hj
        simpa [hji] using h.fresh j call hj
      · simpa [hcalls] using h.own
  | some call =>
    rcases call with ⟨c, stage⟩
    have hcalls : calls[i]? = some c := by simp [← h.callers, hcall]
    have hentering : stage = .entering ↔ i ∉ begun := h.fresh i _ hcall
    split
    · rename_i hbegun
      have hold : stage ≠ .entering := fun hnew => hentering.1 hnew hbegun
      rcases hsteady.own_turn_of_ne hcall hold pace with ⟨hstage, hown⟩
      exact h.turn_of_call hcall pace hbegun (fun _ _ => Iff.rfl) hstage (by simp [hown])
    · rename_i hbegun
      have hnew : stage = .entering := hentering.2 hbegun
      subst hnew
      rcases own_turn_entering pace c d.editor with ⟨hstage, hown⟩
      refine h.turn_of_call hcall pace (by simp) (fun j hj => by simp [hj]) hstage ?_
      rw [hown]
      cases hrequest : c.request? <;> simp [hcalls, hrequest]

/-! ## Runs -/

private theorem run_append (d : Desk) (schedule : List (Pace × Nat)) (t : Pace × Nat) :
    d.run (schedule ++ [t]) = (d.run schedule).turn t.1 t.2 := by
  simp [run, List.foldl_append]

private theorem InOrder.run_opening (hpending : e.pending = [])
    (hdraining : e.draining = false) (calls : List Call) (schedule : List (Pace × Nat)) :
    InOrder calls (schedule.map (·.2)).eraseDups ((Desk.opening e calls).run schedule) := by
  induction schedule using List.reverseRecOn with
  | nil => exact InOrder.opening e calls
  | append_singleton schedule t ih =>
    have hturn := ih.turn ((Steady.opening hpending hdraining calls).run schedule) t.1 t.2
    have hbegun : ((schedule ++ [t]).map (·.2)).eraseDups =
        if t.2 ∈ (schedule.map (·.2)).eraseDups then (schedule.map (·.2)).eraseDups
        else (schedule.map (·.2)).eraseDups ++ [t.2] := by
      rw [List.map_append, List.eraseDups_append]
      by_cases hmem : t.2 ∈ schedule.map (·.2)
      · simp [List.removeAll, hmem]
      · simp [List.removeAll, hmem, List.eraseDups_cons]
    rw [run_append, hbegun]
    exact hturn

/-- The call at a position waits for the backend. -/
def Submitting (d : Desk) (i : Nat) : Prop :=
  ∃ c stage, d.calls[i]? = some (c, stage) ∧ stage.isSubmitting = true

/-- At a steady desk at most one call waits for the backend. -/
theorem Steady.submitting_unique (h : d.Steady e) {i j : Nat} (hi : d.Submitting i)
    (hj : d.Submitting j) : i = j := by
  rcases hi with ⟨c, stage, hcall, hstage⟩
  rcases hj with ⟨c', stage', hcall', hstage'⟩
  have hworking := Stage.isWorking_of_isSubmitting hstage
  rcases h.exists_busy hcall hworking with ⟨past, present, -, hbusy, -⟩
  by_contra hne
  have hquiet := hbusy.quiet j _ hcall' (Ne.symm hne)
  rw [Stage.isWorking_of_isSubmitting hstage'] at hquiet
  cases hquiet

/-- The calls of the backend are those of the blocks. -/
theorem Accounts.numbers {past : List Drain} {present : Option Drain}
    (h : d.Accounts past present) : d.events.filterMap QueueEvent.number? =
      ((past ++ present.toList).flatMap (·.blocks)).flatMap Block.calls := by
  have hwork : (d.events.filter QueueEvent.isWork).filterMap QueueEvent.number? =
      d.events.filterMap QueueEvent.number? := by
    rw [List.filterMap_filter]
    congr
    funext event
    cases event <;> rfl
  rw [← hwork, h.work, List.filterMap_flatMap, List.flatMap_assoc]
  simp only [Drain.number?_log]

/-- Whatever calls there are and however they take turns, also at the waits inside a unit, and
whatever becomes of each unit:

* at most one call waits for the backend;
* calls bring their requests in the order in which they begin;
* what happens on the queue splits into drains, all of them over but perhaps the last: a drain
  opens with its call and is announced once, with the values of that call, when it is over;
* the blocks of the drains, one after the other, hold the requests in the order of their coming and
  all calls of the backend; all blocks are whole but perhaps the last one of the present drain, and
  what is not in a block waits;
* the editor says that somebody works exactly when a drain goes on, and else nothing waits;
* the drains do to the editor what their units do, one after the other: the graph is compiled, the
  backend called with the prompt, its answer dealt with and the view heeded, and a unit is unsent,
  failed or accepted as these come out, while others bring requests and do nothing else;
* the backend has been handed the prompts of these units, each with the number of its request, and
  the end of each drain has been announced to a view that shows it. -/
theorem run_singleFlight (e : Editor) (hpending : e.pending = []) (hdraining : e.draining = false)
    (calls : List Call) (schedule : List (Pace × Nat)) :
    let d := (opening e calls).run schedule
    (∀ i j, d.Submitting i → d.Submitting j → i = j) ∧
    d.events.filterMap QueueEvent.ownRequest? =
      ((schedule.map (·.2)).eraseDups.filterMap (calls[·]?)).filterMap Call.request? ∧
    ∃ (past : List Drain) (present : Option Drain) (handed : List (Int × Prompt)),
      (∀ drain ∈ past, drain.IsWhole) ∧
      d.events.filter QueueEvent.isWork = (past ++ present.toList).flatMap Drain.log ∧
      d.events.filterMap QueueEvent.request? =
        ((past ++ present.toList).flatMap (·.blocks)).map (·.request) ++ d.editor.pending ∧
      d.events.filterMap QueueEvent.number? =
        ((past ++ present.toList).flatMap (·.blocks)).flatMap Block.calls ∧
      d.calls.any (·.2.isWorking) = present.isSome ∧ d.editor.draining = present.isSome ∧
      (present = none → d.editor.pending = [] ∧ Passes e past handed d.editor) ∧
      (∀ drain ∈ present, ∃ (i : Nat) (stage : Stage) (start : Editor)
        (earlier later : List (Int × Prompt)), handed = earlier ++ later ∧
        d.calls[i]? = some (drain.opener, stage) ∧ Passes e past earlier start ∧
        drain.IsUnderway start stage later d.editor) ∧
      handed.map (·.1) = d.events.filterMap QueueEvent.number? ∧
      ((∀ i, d.Submitting i → ∃ r, e.backend = .replying r) → d.editor.outside.submissions =
        e.outside.submissions ++ (handed.mapIdx fun i h => e.backend.handed i h.1 h.2).flatten) ∧
      (e.view.silent = false → e.view.Shows → d.editor.outside.announcements =
        e.outside.announcements ++ past.map fun drain =>
          (drain.opener.number, drain.opener.batch)) := by
  intro d
  have hsteady : d.Steady e := (Steady.opening hpending hdraining calls).run schedule
  refine ⟨fun i j => hsteady.submitting_unique,
    (InOrder.run_opening hpending hdraining calls schedule).own, ?_⟩
  cases hsteady with
  | idle past haccounts hidle =>
    rcases hidle.passed with ⟨handed, hpassed⟩
    have hledger := hpassed.ledger
    refine ⟨past, none, handed, hpassed.isWhole, haccounts.work, haccounts.arrivals,
      haccounts.numbers, ?_, hidle.draining, fun _ => ⟨hidle.pending, hpassed⟩, by simp, ?_,
      fun _ => hledger.submissions, hledger.announcements⟩
    · simpa using hidle.quiet
    · rw [haccounts.numbers, hpassed.numbers]
      simp
  | busy past present i stage haccounts hbusy =>
    rcases hbusy.underway with ⟨start, earlier, later, hpassed, hunderway⟩
    rcases hunderway with ⟨hopen, r, done, next, hread, hblocks, hdone, hnext, hcarries⟩
    rcases hpassed.ledger.carries hcarries with ⟨out, hledger, hout⟩
    refine ⟨past, some present, earlier ++ later, hpassed.isWhole, haccounts.work,
      haccounts.arrivals, haccounts.numbers, ?_, hbusy.draining, by simp, ?_, ?_, fun hwire => ?_,
      hledger.announcements⟩
    · exact List.any_eq_true.2 ⟨_, List.mem_of_getElem? hbusy.call, hcarries.isWorking⟩
    · rintro _ ⟨⟩
      exact ⟨i, stage, start, earlier, later, rfl, hbusy.call, hpassed, hopen, r, done, next, hread,
        hblocks, hdone, hnext, hcarries⟩
    · rw [haccounts.numbers, List.map_append, hpassed.numbers, hcarries.numbers]
      simp [hblocks]
    · rw [← hout fun hsubmitting => hwire i ⟨_, stage, hbusy.call, hsubmitting⟩]
      exact hledger.submissions

/-- An editor with one node.  Its backend takes its time and refuses the second prompt. -/
def strictEditor : Editor where
  backend := .replying { ticks := 1, replies := [none, some { verdict := .reject "no" .null .null }] }
  graph := { nodes := [{ id := .number 1, type := "Image", title := none }] }

/-- The output of the example. -/
def strictOutput : Output := [("1", { className := "Image", inputs := [], meta? := none })]

/-- A call asks for three units, and another one, which begins while the first waits for the backend,
for one.  The second unit is refused, and the third does not follow it. -/
theorem strictEditor_submitsInOrder :
    strictEditor.pending = [] ∧ strictEditor.draining = false ∧
      let d := (opening strictEditor [⟨.int 0, .int 3⟩, ⟨.int 7, .int 1⟩]).run
        [(.yielding, 0), (.yielding, 0), (.yielding, 1), (.hurried, 0), (.hurried, 0), (.hurried, 0)]
      (∀ i j, d.Submitting i → d.Submitting j → i = j) ∧
      d.events.filterMap QueueEvent.ownRequest? = [⟨0, 3⟩, ⟨7, 1⟩] ∧
      d.events.filterMap QueueEvent.number? = [0, 0, 7] ∧
      d.events.filterMap QueueEvent.fate? = [.accepted, .failed, .accepted] ∧
      d.editor.outside.submissions = [.submitted 1 0 strictOutput, .submitted 2 0 strictOutput,
        .submitted 3 7 strictOutput] ∧
      d.editor.outside.announcements = [(.int 0, .int 3)] ∧
      ∃ past handed, Passes strictEditor past handed d.editor ∧
        handed.map (fun h => (h.1, h.2.output)) =
          [(0, strictOutput), (0, strictOutput), (7, strictOutput)] ∧
        (past.flatMap (·.blocks)).map (·.request) = [⟨0, 3⟩, ⟨7, 1⟩] ∧
        past.map (fun drain => (drain.opener.number, drain.opener.batch)) = [(.int 0, .int 3)] := by
  refine ⟨rfl, rfl, ?_⟩
  intro d
  obtain ⟨hone, hown, past, present, handed, -, -, hrequests, -, -, hdraining, hidle, -, hnumbers,
    hsubmissions, hends⟩ := run_singleFlight strictEditor rfl rfl
      [⟨.int 0, .int 3⟩, ⟨.int 7, .int 1⟩]
      [(.yielding, 0), (.yielding, 0), (.yielding, 1), (.hurried, 0), (.hurried, 0), (.hurried, 0)]
  have hnobody : present = none := by
    have hidle : present.isSome = false := hdraining.symm
    simpa using hidle
  subst hnobody
  have hsent : d.editor.outside.submissions = [.submitted 1 0 strictOutput,
      .submitted 2 0 strictOutput, .submitted 3 7 strictOutput] := rfl
  have hannounced : d.editor.outside.announcements = [(.int 0, .int 3)] := rfl
  have hcalled : handed.map (·.1) = [0, 0, 7] := hnumbers
  -- three prompts have been handed over, and the trace shows them
  obtain ⟨p, q, r, rfl⟩ : ∃ p q r, handed = [(0, p), (0, q), (7, r)] := by
    rcases handed with _ | ⟨⟨i, p⟩, _ | ⟨⟨j, q⟩, _ | ⟨⟨k, r⟩, _ | _⟩⟩⟩ <;> cases hcalled
    exact ⟨p, q, r, rfl⟩
  have hprompts : [Trace.Entry.submitted 1 0 strictOutput, .submitted 2 0 strictOutput,
      .submitted 3 7 strictOutput] = [.submitted 1 0 p.output, .submitted 2 0 q.output,
        .submitted 3 7 r.output] := hsent.symm.trans (hsubmissions fun _ _ => ⟨_, rfl⟩)
  simp only [List.cons.injEq, Trace.Entry.submitted.injEq, true_and, and_true] at hprompts
  obtain ⟨hp, hq, hr⟩ := hprompts
  -- both requests have been taken
  have hjoined : d.events.filterMap QueueEvent.request? = [⟨0, 3⟩, ⟨7, 1⟩] := rfl
  have hblocks : (past.flatMap (·.blocks)).map (·.request) = [⟨0, 3⟩, ⟨7, 1⟩] := by
    have htaken := hrequests.symm.trans hjoined
    simpa [(hidle rfl).1] using htaken
  refine ⟨hone, hown, rfl, rfl, hsent, hannounced, past, _, (hidle rfl).2, ?_, hblocks, ?_⟩
  · simp [← hp, ← hq, ← hr]
  · exact (hends rfl fun _ _ => rfl).symm.trans hannounced

/-! ## Calls made at once -/

private theorem exists_run_attend (pace : Pace) (i : Nat) (turns : Nat) (d : Desk) :
    ∃ schedule, d.attend pace i turns = d.run schedule := by
  induction turns generalizing d with
  | zero => exact ⟨[], rfl⟩
  | succ turns ih =>
    rw [attend]
    split
    · rcases ih (d.turn pace i) with ⟨schedule, hschedule⟩
      exact ⟨(pace, i) :: schedule, hschedule⟩
    · exact ⟨[(pace, i)], rfl⟩

private theorem exists_run_attendAll (pace : Pace) (d : Desk) :
    ∃ schedule, d.attendAll pace = d.run schedule := by
  have hfold : ∀ (positions : List Nat) (d : Desk), ∃ schedule,
      positions.foldl (fun d i => d.attend pace i d.workload) d = d.run schedule := by
    intro positions
    induction positions with
    | nil => exact fun d => ⟨[], rfl⟩
    | cons i positions ih =>
      intro d
      rcases exists_run_attend pace i d.workload d with ⟨first, hfirst⟩
      rcases ih (d.attend pace i d.workload) with ⟨rest, hrest⟩
      refine ⟨first ++ rest, ?_⟩
      rw [List.foldl_cons, hrest, hfirst, run, run, run, List.foldl_append]
  exact hfold _ d

/-- Calls that are made at once take turns in some order. -/
theorem exists_run_gather (d : Desk) : ∃ schedule, d.gather = d.run schedule := by
  rcases exists_run_attendAll .yielding d with ⟨first, hfirst⟩
  rcases exists_run_attendAll .hurried (d.attendAll .yielding) with ⟨rest, hrest⟩
  refine ⟨first ++ rest, ?_⟩
  rw [gather, hrest, hfirst, run, run, run, List.foldl_append]

/-- An editor whose backend takes its time. -/
def slowEditor : Editor := { backend := .replying { ticks := 1 } }

example :
    let d := (opening slowEditor [⟨.int 0, .int 2⟩, ⟨.int 7, .int 1⟩]).gather
    d.events.filterMap QueueEvent.number? = [0, 0, 7] := by decide

end Desk

end NodeFlow
