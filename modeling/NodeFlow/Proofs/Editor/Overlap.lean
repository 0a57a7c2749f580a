import NodeFlow.Editor.Automatic
import NodeFlow.Proofs.Editor.SingleFlight

/-!
# Reports that overlap

A report that finds the backend's queue empty may start a submission, and while that is under way
further reports arrive.  The length of the queue is remembered only when the submission is over, so
that until then a report is compared with a length from before the submission.  That the graph has
changed is taken back at once.  A change therefore is submitted once, however often the queue is
reported empty in the meantime; but where the graph is submitted whether or not it has changed, every
such report starts one more submission.

Main results:

- Types `AutoQueue.Watch` and `AutoQueue.Move`; definition `Watch.run`: reports, changes and the turns
  of calls, in any order.
- Definition `Watch.Starts`: a report would start a submission.
- Theorems `Watch.Calm.step` and `Watch.Restless.step`: what every move keeps.
- Theorem `Watch.run_starts`: which reports of an empty queue start a submission.
- Theorems `Watch.exists_run_onStatus` and `Watch.exists_run_onChange`: a report and a change that
  are dealt with alone are cases of it.
-/

namespace NodeFlow

namespace AutoQueue

/-! ## The two halves of a report -/

/-- What the first half of a report comes to: it fails or says nothing of the queue, or a submission
is not due, or it is. -/
theorem beginStatus_cases (status : Json) (failed : Bool) (a : AutoQueue) :
    (((beginStatus status failed).exec a).2 = a ∧
      ∀ p, ((beginStatus status failed).exec a).1 ≠ .ok (some p)) ∨
    (∃ length, remaining? status = .ok (some length) ∧ a.isDue length failed = false ∧
      (beginStatus status failed).exec a = (.ok (some ⟨false, length⟩), a)) ∨
    ∃ length, remaining? status = .ok (some length) ∧ a.isDue length failed = true ∧
      (beginStatus status failed).exec a =
        ((length.plus a.batch).map fun v => some ⟨true, v⟩, { a with changed := false }) := by
  cases hremaining : remaining? status with
  | error f =>
    refine .inl ?_
    simp [beginStatus, Act.exec_bind, hremaining]
  | ok found =>
    cases found with
    | none =>
      refine .inl ?_
      simp [beginStatus, Act.exec_bind, hremaining]
    | some length =>
      cases hdue : a.isDue length failed with
      | false =>
        refine .inr (.inl ⟨length, rfl, hdue, ?_⟩)
        simp [beginStatus, Act.exec_bind, hremaining, hdue]
      | true =>
        refine .inr (.inr ⟨length, rfl, hdue, ?_⟩)
        cases hplus : length.plus a.batch <;>
          simp [beginStatus, Act.exec_bind, hremaining, hdue, hplus, Except.map]

private theorem isDue_of_calm {a : AutoQueue} (hmode : a.mode = .change)
    (hchanged : a.changed = false)
    (length : Json) (failed : Bool) : a.isDue length failed = false := by
  simp [isDue, hmode, hchanged]

/-- Where the mode is that of every empty queue, a submission is due unless it is switched off, a run
has failed, or the queue was empty before. -/
theorem isDue_of_instant {a : AutoQueue} (hmode : a.mode = .instant) (henabled : a.enabled = true)
    (hlast : a.last.same (.int 0) = false) {length : Json} :
    a.isDue length false = length.same (.int 0) := by
  simp [isDue, hmode, henabled, hlast]

private theorem exec_noteChange (a : AutoQueue) : noteChange.exec a =
    if a.mode == .change && a.enabled then
      (.ok (a.last.same (.int 0)), { a with changed := !a.last.same (.int 0) })
    else (.ok false, a) := by
  rw [noteChange, Act.exec_bind, Act.exec_get]
  dsimp only
  split <;> rfl

/-! ## Reports, changes and turns -/

/-- A report whose submission is under way: the position of its call at the desk, and what it leads to
in the end. -/
structure Ongoing where
  call : Nat
  plan : Plan

/-- Automatic submission at a desk, and the reports whose submissions are under way. -/
structure Watch where
  auto : AutoQueue
  desk : Desk
  ongoing : List Ongoing := []

/-- What may happen next. -/
inductive Move where
  /-- A report arrives. -/
  | report (status : Json)
  /-- A change of the graph is noted. -/
  | change
  /-- A call at the desk has a turn. -/
  | turn (pace : Pace) (call : Nat)
  /-- Others act on the editor. -/
  | others (act : Editor → Editor)

namespace Watch

/-- The call for a submission comes to the desk. -/
def enroll (w : Watch) : Watch :=
  { w with desk := { w.desk with calls := w.desk.calls ++ [({ batch := w.auto.batch }, .entering)] } }

/-- The first half of a report; a report that starts a submission goes on when its call has returned,
any other one at once. -/
def report (status : Json) (w : Watch) : Watch :=
  let (found, auto) := (beginStatus status w.desk.editor.executionError.isSome).exec w.auto
  let w := { w with auto }
  match found with
  | .ok (some p) =>
    if p.submits then { w.enroll with ongoing := w.ongoing ++ [⟨w.desk.calls.length, p⟩] }
    else { w with auto := ((finishStatus p).exec w.auto).2 }
  | _ => w

/-- A change of the graph, which is submitted at once if the queue is empty. -/
def change (w : Watch) : Watch :=
  let (submits, auto) := noteChange.exec w.auto
  let w := { w with auto }
  match submits with
  | .ok true => w.enroll
  | _ => w

/-- The second half of the report that waits for a call, once the call has returned.  If the call has
failed, so does the report. -/
def settle (call : Nat) (w : Watch) : Watch :=
  match w.ongoing.find? (·.call == call), w.desk.calls[call]? with
  | some o, some (_, .returned failure) =>
    { w with
      auto := if failure.isNone then ((finishStatus o.plan).exec w.auto).2 else w.auto
      ongoing := w.ongoing.filter (·.call != call) }
  | _, _ => w

/-- What a move leads to. -/
def step (w : Watch) : Move → Watch
  | .report status => w.report status
  | .change => w.change
  | .turn pace call => { w with desk := w.desk.turn pace call }.settle call
  | .others act => { w with desk := { w.desk with editor := act w.desk.editor } }

/-- What moves lead to, one after the other. -/
def run (w : Watch) (moves : List Move) : Watch := moves.foldl step w

/-- A report would start a submission. -/
def Starts (w : Watch) (status : Json) : Prop :=
  ∃ p, ((beginStatus status w.desk.editor.executionError.isSome).exec w.auto).1 = .ok (some p) ∧
    p.submits = true

/-- Moves can be made in two parts. -/
theorem run_append (w : Watch) (front back : List Move) :
    w.run (front ++ back) = (w.run front).run back := List.foldl_append

/-! ## What the moves leave -/

/-- Dealing with a report changes at most the length that is remembered. -/
theorem auto_settle_cases (w : Watch) (call : Nat) :
    ((w.settle call).auto = w.auto ∧ ∀ o ∈ (w.settle call).ongoing, o ∈ w.ongoing) ∨
    ∃ o ∈ w.ongoing, (w.settle call).auto = { w.auto with last := o.plan.length } ∧
      ∀ o ∈ (w.settle call).ongoing, o ∈ w.ongoing := by
  unfold settle
  split
  · rename_i o _ failure hfound _
    cases failure with
    | none =>
      exact .inr ⟨o, List.mem_of_find?_eq_some hfound, rfl, fun _ h => List.mem_of_mem_filter h⟩
    | some f => exact .inl ⟨rfl, fun _ h => List.mem_of_mem_filter h⟩
  · exact .inl ⟨rfl, fun _ h => h⟩

/-- A change of the graph is noted, or has been submitted, or does not matter. -/
theorem auto_change_cases (w : Watch) : w.change.ongoing = w.ongoing ∧
    ∃ b, w.change.auto = { w.auto with changed := b } := by
  unfold change
  rw [exec_noteChange]
  by_cases hwatched : (w.auto.mode == .change && w.auto.enabled) = true
  · rw [if_pos hwatched]
    cases w.auto.last.same (.int 0) <;> exact ⟨rfl, _, rfl⟩
  · rw [if_neg hwatched]
    exact ⟨rfl, w.auto.changed, rfl⟩

/-- What a report leaves of automatic submission: nothing is different, or the length of the queue is
remembered, or a submission is due and the change of the graph is taken back. -/
theorem auto_report_cases (w : Watch) (status : Json) :
    ((w.report status).auto = w.auto ∧ (w.report status).ongoing = w.ongoing ∧
      ¬ w.Starts status) ∨
    (∃ length, remaining? status = .ok (some length) ∧
      w.auto.isDue length w.desk.editor.executionError.isSome = false ∧ ¬ w.Starts status ∧
      (w.report status).auto = { w.auto with last := length } ∧
      (w.report status).ongoing = w.ongoing) ∨
    ∃ length, remaining? status = .ok (some length) ∧
      w.auto.isDue length w.desk.editor.executionError.isSome = true ∧
      (w.report status).auto = { w.auto with changed := false } ∧
      ((¬ w.Starts status ∧ (w.report status).ongoing = w.ongoing) ∨
        ∃ v, length.plus w.auto.batch = .ok v ∧
          (w.report status).ongoing = w.ongoing ++ [⟨w.desk.calls.length, ⟨true, v⟩⟩]) := by
  rcases beginStatus_cases status w.desk.editor.executionError.isSome w.auto with
    ⟨hauto, hnone⟩ | ⟨length, hlength, hdue, hexec⟩ | ⟨length, hlength, hdue, hexec⟩
  · refine .inl ?_
    have hstarts : ¬ w.Starts status := by
      rintro ⟨p, hp, -⟩
      exact hnone p hp
    unfold report
    rcases hexec : (beginStatus status w.desk.editor.executionError.isSome).exec w.auto with ⟨r, a⟩
    rw [hexec] at hauto hnone
    dsimp only at hauto hnone ⊢
    subst hauto
    split
    · exact absurd rfl (hnone _)
    · exact ⟨rfl, rfl, hstarts⟩
  · refine .inr (.inl ⟨length, hlength, hdue, ?_, ?_, ?_⟩)
    · rintro ⟨p, hp, hsubmits⟩
      rw [hexec] at hp
      cases hp
      cases hsubmits
    · simp [report, hexec, finishStatus]
    · simp [report, hexec]
  · refine .inr (.inr ⟨length, hlength, hdue, ?_⟩)
    cases hplus : length.plus w.auto.batch with
    | error f =>
      rw [hplus] at hexec
      refine ⟨by simp [report, hexec, Except.map], .inl ⟨?_, by simp [report, hexec, Except.map]⟩⟩
      rintro ⟨p, hp, -⟩
      rw [hexec] at hp
      cases hp
    | ok v =>
      rw [hplus] at hexec
      exact ⟨by simp [report, hexec, Except.map, enroll],
        .inr ⟨v, rfl, by simp [report, hexec, Except.map, enroll]⟩⟩

/-- A report starts a submission exactly if one is due and the length of the queue after it can be
told. -/
theorem starts_iff {w : Watch} {status : Json} : w.Starts status ↔
    ∃ length v, remaining? status = .ok (some length) ∧
      w.auto.isDue length w.desk.editor.executionError.isSome = true ∧
      length.plus w.auto.batch = .ok v := by
  constructor
  · rintro ⟨p, hp, hsubmits⟩
    rcases beginStatus_cases status w.desk.editor.executionError.isSome w.auto with
      ⟨-, hnone⟩ | ⟨length, -, -, hexec⟩ | ⟨length, hlength, hdue, hexec⟩
    · exact absurd hp (hnone p)
    · rw [hexec] at hp
      cases hp
      cases hsubmits
    · rw [hexec] at hp
      cases hplus : length.plus w.auto.batch with
      | error f =>
        rw [hplus] at hp
        cases hp
      | ok v => exact ⟨length, v, hlength, hdue, hplus⟩
  · rintro ⟨length, v, hlength, hdue, hplus⟩
    refine ⟨⟨true, v⟩, ?_, rfl⟩
    simp [beginStatus, Act.exec_bind, hlength, hdue, hplus]

/-! ## Submitting changes -/

/-- Only changes are submitted, and none waits. -/
structure Calm (w : Watch) : Prop where
  mode : w.auto.mode = .change
  changed : w.auto.changed = false

private theorem Calm.not_starts {w : Watch} (h : w.Calm) (status : Json) : ¬ w.Starts status := by
  rw [starts_iff]
  rintro ⟨length, v, -, hdue, -⟩
  rw [isDue_of_calm h.mode h.changed] at hdue
  cases hdue

private theorem Calm.of_auto {w w' : Watch} (h : w.Calm) {changed : Bool} {last : Json}
    (hauto : w'.auto = { w.auto with changed, last }) (hchanged : changed = false) : w'.Calm := by
  refine ⟨?_, ?_⟩ <;> rw [hauto]
  exacts [h.mode, hchanged]

/-- The step lemma: no move but a change of the graph ends the calm. -/
theorem Calm.step {w : Watch} (h : w.Calm) {move : Move} (hmove : move ≠ .change) :
    (w.step move).Calm := by
  cases move with
  | report status =>
    rw [Watch.step]
    rcases auto_report_cases w status with ⟨hauto, -⟩ | ⟨length, -, -, -, hauto, -⟩ |
      ⟨length, -, -, hauto, -⟩
    · exact h.of_auto hauto h.changed
    · exact h.of_auto hauto h.changed
    · exact h.of_auto hauto rfl
  | change => exact absurd rfl hmove
  | turn pace call =>
    rw [Watch.step]
    rcases auto_settle_cases { w with desk := w.desk.turn pace call } call with ⟨hauto, -⟩ |
      ⟨o, -, hauto, -⟩
    · exact h.of_auto hauto h.changed
    · exact h.of_auto hauto h.changed
  | others act => exact ⟨h.mode, h.changed⟩

private theorem Calm.run {w : Watch} (h : w.Calm) {moves : List Move}
    (hmoves : Move.change ∉ moves) : (w.run moves).Calm := by
  induction moves generalizing w with
  | nil => exact h
  | cons move moves ih =>
    rw [List.mem_cons, not_or] at hmoves
    exact ih (h.step (Ne.symm hmoves.1)) hmoves.2

/-- Moves leave the settings as they are. -/
theorem auto_step (w : Watch) (move : Move) :
    ∃ changed last, (w.step move).auto = { w.auto with changed, last } := by
  cases move with
  | report status =>
    rcases auto_report_cases w status with ⟨hauto, -⟩ | ⟨length, -, -, -, hauto, -⟩ |
      ⟨length, -, -, hauto, -⟩ <;> exact ⟨_, _, hauto⟩
  | change =>
    obtain ⟨-, b, hauto⟩ := auto_change_cases w
    exact ⟨_, _, hauto⟩
  | turn pace call =>
    rcases auto_settle_cases { w with desk := w.desk.turn pace call } call with ⟨hauto, -⟩ |
      ⟨o, -, hauto, -⟩ <;> exact ⟨_, _, hauto⟩
  | others act => exact ⟨_, _, rfl⟩

/-- The mode is nothing that moves change. -/
theorem mode_step (w : Watch) (move : Move) : (w.step move).auto.mode = w.auto.mode := by
  obtain ⟨changed, last, hauto⟩ := auto_step w move
  rw [hauto]

private theorem mode_run (w : Watch) (moves : List Move) :
    (w.run moves).auto.mode = w.auto.mode := by
  induction moves generalizing w with
  | nil => rfl
  | cons move moves ih => exact (ih (w.step move)).trans (mode_step w move)

/-- A report that starts a submission of a change leaves a calm behind. -/
theorem calm_of_starts {w : Watch} (hmode : w.auto.mode = .change) {status : Json}
    (h : w.Starts status) : (w.step (.report status)).Calm := by
  rcases auto_report_cases w status with ⟨-, -, hnot⟩ | ⟨length, -, -, hnot, -⟩ |
    ⟨length, -, -, hauto, -⟩
  · exact absurd h hnot
  · exact absurd h hnot
  · rw [Watch.step]
    exact ⟨by rw [hauto]; exact hmode, by rw [hauto]⟩

/-! ## Submitting whatever there is -/

/-- The graph is submitted whether or not it has changed, so many times; the queue was not empty
before, and no report under way leads to an empty one. -/
structure Restless (w : Watch) (batch : Int) : Prop where
  mode : w.auto.mode = .instant
  enabled : w.auto.enabled = true
  batch : w.auto.batch = .int batch
  last : w.auto.last.same (.int 0) = false
  ongoing : ∀ o ∈ w.ongoing, o.plan.length.same (.int 0) = false

/-- Of whole numbers, zero alone equals zero. -/
theorem number?_of_same_zero {length : Json} (hwhole : length.whole?.isSome = true)
    (hzero : length.same (.int 0) = true) : length.number? = some (.int 0) := by
  cases length with
  | int n =>
    have hn : n = 0 := by
      simpa [Json.same, Json.sameNumber, Json.number?, Number.same, Number.compare?] using hzero
    rw [hn]
    rfl
  | bool b =>
    cases b with
    | true => simp [Json.same, Json.sameNumber, Json.number?, Number.same, Number.compare?] at hzero
    | false => rfl
  | null | float | str | arr | obj => simp [Json.whole?] at hwhole

/-- Adding to a number follows the rule for numbers. -/
theorem plus_eq_onNumbers {length : Json} {a : Number} (h : length.number? = some a) (v : Json) :
    length.plus v = Json.onNumbers "+" (· + ·) (· + ·) length v := by
  cases length <;> first | rfl | cases h

/-- The sum of nothing and a whole number. -/
theorem plus_of_same_zero {length : Json} (hwhole : length.whole?.isSome = true)
    (hzero : length.same (.int 0) = true) (batch : Int) :
    length.plus (.int batch) = .ok (.int batch) := by
  have hlength := number?_of_same_zero hwhole hzero
  rw [plus_eq_onNumbers hlength, Json.onNumbers, hlength]
  simp [Json.number?]

/-- A length that a report tells is a whole number. -/
theorem isSome_whole?_of_remaining? {status length : Json}
    (h : remaining? status = .ok (some length)) : length.whole?.isSome = true := by
  rcases Fault.bind_eq_ok_iff.1 h with ⟨report, -, h⟩
  rcases Fault.bind_eq_ok_iff.1 h with ⟨info, -, h⟩
  dsimp only [pure, Except.pure] at h
  split at h
  · rename_i hwhole
    cases h
    exact hwhole
  · cases h

private theorem same_int_zero {n : Int} (hn : n ≠ 0) : (Json.int n).same (.int 0) = false := by
  simp [Json.same, Json.sameNumber, Json.number?, Number.same, Number.compare?, hn]

namespace Restless

variable {w : Watch} {batch : Int}

/-- While no failed run is known, every report of an empty queue starts a submission. -/
theorem starts (h : w.Restless batch) (hrun : w.desk.editor.executionError = none)
    {status length : Json} (hlength : remaining? status = .ok (some length))
    (hzero : length.same (.int 0) = true) : w.Starts status := by
  refine starts_iff.2 ⟨length, .int batch, hlength, ?_, ?_⟩
  · rw [hrun, Option.isSome_none, isDue_of_instant h.mode h.enabled h.last, hzero]
  · rw [h.batch, plus_of_same_zero (isSome_whole?_of_remaining? hlength) hzero]

/-- Neither the change that is noted nor the length that is remembered brings rest, if the length is not
that of an empty queue. -/
theorem of_auto (h : w.Restless batch) {w' : Watch} {changed : Bool} {last : Json}
    (hauto : w'.auto = { w.auto with changed, last }) (hlast : last.same (.int 0) = false)
    (hongoing : ∀ o ∈ w'.ongoing, o.plan.length.same (.int 0) = false) : w'.Restless batch := by
  refine ⟨?_, ?_, ?_, ?_, hongoing⟩ <;> rw [hauto]
  exacts [h.mode, h.enabled, h.batch, hlast]

/-- The step lemma: while no failed run is known, no move brings rest. -/
theorem step (h : w.Restless batch) (hbatch : batch ≠ 0)
    (hrun : w.desk.editor.executionError = none) (move : Move) : (w.step move).Restless batch := by
  cases move with
  | report status =>
    rw [Watch.step]
    rcases auto_report_cases w status with ⟨hauto, hongoing, -⟩ |
      ⟨length, hlength, hdue, -, hauto, hongoing⟩ | ⟨length, hlength, hdue, hauto, hongoing⟩
    · exact h.of_auto hauto h.last (hongoing ▸ h.ongoing)
    · -- a report that starts nothing is one of a queue that is not empty
      rw [hrun, Option.isSome_none, isDue_of_instant h.mode h.enabled h.last] at hdue
      exact h.of_auto hauto hdue (hongoing ▸ h.ongoing)
    · rw [hrun, Option.isSome_none, isDue_of_instant h.mode h.enabled h.last] at hdue
      refine h.of_auto hauto h.last ?_
      rcases hongoing with ⟨-, hongoing⟩ | ⟨v, hv, hongoing⟩
      · exact hongoing ▸ h.ongoing
      · rw [h.batch, plus_of_same_zero (isSome_whole?_of_remaining? hlength) hdue,
          Except.ok.injEq] at hv
        intro o ho
        rw [hongoing, List.mem_append, List.mem_singleton] at ho
        rcases ho with ho | rfl
        · exact h.ongoing o ho
        · rw [← hv]
          exact same_int_zero hbatch
  | change =>
    rw [Watch.step]
    obtain ⟨hongoing, b, hauto⟩ := auto_change_cases w
    exact h.of_auto hauto h.last (hongoing ▸ h.ongoing)
  | turn pace call =>
    rw [Watch.step]
    rcases auto_settle_cases { w with desk := w.desk.turn pace call } call with ⟨hauto, hongoing⟩ |
      ⟨o, ho, hauto, hongoing⟩
    · exact h.of_auto hauto h.last fun o ho => h.ongoing o (hongoing o ho)
    · exact h.of_auto hauto (h.ongoing o ho) fun o ho => h.ongoing o (hongoing o ho)
  | others act => exact ⟨h.mode, h.enabled, h.batch, h.last, h.ongoing⟩

private theorem run (h : w.Restless batch) (hbatch : batch ≠ 0) {moves : List Move}
    (hrun : ∀ front back, moves = front ++ back →
      (w.run front).desk.editor.executionError = none) : (w.run moves).Restless batch := by
  induction moves generalizing w with
  | nil => exact h
  | cons move moves ih =>
    refine ih (h.step hbatch (hrun [] _ rfl) move) fun front back hsplit => ?_
    exact hrun (move :: front) back (by rw [hsplit, List.cons_append])

end Restless

/-! ## A report alone -/

/-- The only call at the desk has not returned, and a report waits for it; or it has, and the report has
been dealt with. -/
def Follows (a : AutoQueue) (p : Plan) (w : Watch) : Prop :=
  ∃ c stage, w.desk.calls = [(c, stage)] ∧
    (((∀ failure, stage ≠ .returned failure) ∧ w.ongoing = [⟨0, p⟩] ∧ w.auto = a) ∨
      ∃ failure, stage = .returned failure ∧ w.ongoing = [] ∧
        w.auto = if failure.isNone then { a with last := p.length } else a)

private theorem settle_of_not_mem {w : Watch} {call : Nat}
    (h : w.ongoing.find? (·.call == call) = none) : w.settle call = w := by
  unfold settle
  rw [h]

private theorem settle_of_not_returned {w : Watch} {call : Nat}
    (h : ∀ c failure, w.desk.calls[call]? ≠ some (c, .returned failure)) : w.settle call = w := by
  unfold settle
  split
  · rename_i hcall
    exact absurd hcall (h _ _)
  · rfl

/-- Dealing with a report leaves the desk alone. -/
theorem desk_settle (w : Watch) (call : Nat) : (w.settle call).desk = w.desk := by
  unfold settle
  split <;> rfl

private theorem Follows.step {a : AutoQueue} {p : Plan} {w : Watch} (h : w.Follows a p)
    (pace : Pace) (call : Nat) : (w.step (.turn pace call)).Follows a p := by
  obtain ⟨c, stage, hcalls, hstage⟩ := h
  rw [Watch.step]
  cases call with
  | succ call =>
    have hnone : w.desk.calls[call + 1]? = none := by simp [hcalls]
    have hfind : w.ongoing.find? (·.call == call + 1) = none := by
      rcases hstage with ⟨-, hongoing, -⟩ | ⟨failure, -, hongoing, -⟩ <;> simp [hongoing]
    rw [Desk.turn_of_none hnone, settle_of_not_mem hfind]
    exact ⟨c, stage, hcalls, hstage⟩
  | zero =>
    have hcall : w.desk.calls[0]? = some (c, stage) := by simp [hcalls]
    have hturned : (w.desk.turn pace 0).calls = [(c, (stage.turn pace c w.desk.editor).stage)] := by
      rw [Desk.turn_eq hcall, hcalls]
      rfl
    rcases hstage with ⟨-, hongoing, hauto⟩ | ⟨failure, rfl, hongoing, hauto⟩
    · cases hnext : (stage.turn pace c w.desk.editor).stage with
      | returned failure =>
        rw [hnext] at hturned
        refine ⟨c, _, by rw [desk_settle]; exact hturned, .inr ⟨failure, rfl, ?_, ?_⟩⟩
        · simp [settle, hongoing, hturned]
        · simp [settle, hongoing, hturned, hauto, finishStatus]
      | entering | choosing | compiling | submitting | showing =>
        rw [hnext] at hturned
        rw [settle_of_not_returned (by simp [hturned])]
        exact ⟨c, _, hturned, .inl ⟨fun failure => by simp, hongoing, hauto⟩⟩
    · rw [settle_of_not_mem (by simp [hongoing])]
      exact ⟨c, _, hturned, .inr ⟨failure, rfl, hongoing, hauto⟩⟩

private theorem Follows.run {a : AutoQueue} {p : Plan} {w : Watch} (h : w.Follows a p)
    (schedule : List (Pace × Nat)) : (w.run (schedule.map fun t => .turn t.1 t.2)).Follows a p ∧
      (w.run (schedule.map fun t => .turn t.1 t.2)).desk = w.desk.run schedule := by
  induction schedule generalizing w with
  | nil => exact ⟨h, rfl⟩
  | cons t schedule ih =>
    obtain ⟨hfollows, hdesk⟩ := ih (h.step t.1 t.2)
    refine ⟨hfollows, hdesk.trans ?_⟩
    rw [Watch.step, desk_settle]
    rfl

private theorem exec_own {α : Type} (act : Act AutoQueue α) (a : AutoQueue) (e : Editor) :
    (own act).exec (a, e) = ((act.exec a).1, ((act.exec a).2, e)) := by
  rw [own, Act.exec_focus] <;> intros <;> rfl

/-- What a call that nobody interferes with comes to, and what it leaves. -/
theorem exec_enqueue (c : Call) (e : Editor) {failure : Option Fault}
    (h : ((Desk.opening e [c]).gather).calls = [(c, .returned failure)]) :
    (Editor.enqueue c).exec e = (failure.elim (.ok ⟨⟩) .error,
      ((Desk.opening e [c]).gather).editor) := by
  have hfailures : ((Desk.opening e [c]).gather).failures = [failure] := by
    rw [Desk.failures, h]
    rfl
  rw [Editor.enqueue, Act.exec_bind, Editor.gather, Act.exec_ofExec]
  dsimp only
  rw [hfailures]
  cases failure <;> rfl

private theorem exec_submit (a : AutoQueue) (e : Editor) : submit.exec (a, e) =
    (((Editor.enqueue { batch := a.batch }).exec e).1,
      (a, ((Editor.enqueue { batch := a.batch }).exec e).2)) := by
  rw [submit, Act.exec_bind, Act.exec_get]
  dsimp only
  rw [Act.exec_focus] <;> intros <;> rfl

/-- The watch after a report that has started a submission, with the length that it leads to. -/
def begun (a : AutoQueue) (e : Editor) (length : Json) : Watch where
  auto := { a with changed := false }
  desk := Desk.opening e [{ batch := a.batch }]
  ongoing := [⟨0, ⟨true, length⟩⟩]

/-- The call of a report has the turns that a call made alone has.  Where it returns, the report is
dealt with. -/
theorem exists_run_begun (a : AutoQueue) (e : Editor) (length : Json) {failure : Option Fault}
    (hreturns : ((Desk.opening e [{ batch := a.batch }]).gather).calls =
      [({ batch := a.batch }, .returned failure)]) :
    ∃ schedule : List (Pace × Nat),
      let w := (begun a e length).run (schedule.map fun t => .turn t.1 t.2)
      w.desk = (Desk.opening e [{ batch := a.batch }]).gather ∧ w.ongoing = [] ∧
        w.auto = if failure.isNone then { a with changed := false, last := length }
          else { a with changed := false } := by
  obtain ⟨schedule, hschedule⟩ := Desk.exists_run_gather (Desk.opening e [{ batch := a.batch }])
  have hbegun : (begun a e length).Follows { a with changed := false } ⟨true, length⟩ :=
    ⟨_, _, rfl, .inl ⟨fun failure => by simp, rfl, rfl⟩⟩
  obtain ⟨⟨c, stage, hcalls, hstage⟩, hdesk⟩ := hbegun.run schedule
  have hgathered : ((begun a e length).run (schedule.map fun t => .turn t.1 t.2)).desk =
      (Desk.opening e [{ batch := a.batch }]).gather := hdesk.trans hschedule.symm
  rw [hgathered, hreturns] at hcalls
  cases hcalls
  rcases hstage with ⟨hworking, -⟩ | ⟨failure', hfailure, hongoing, hauto⟩
  · exact absurd rfl (hworking failure)
  · cases hfailure
    exact ⟨schedule, hgathered, hongoing, hauto⟩

private theorem exists_run_onStatus_of_begun (a : AutoQueue) (e : Editor) {status v : Json}
    (hbegin : (beginStatus status e.executionError.isSome).exec a =
      (.ok (some ⟨true, v⟩), { a with changed := false })) {failure : Option Fault}
    (hreturns : ((Desk.opening e [{ batch := a.batch }]).gather).calls =
      [({ batch := a.batch }, .returned failure)]) :
    ∃ schedule : List (Pace × Nat),
      let w := run ⟨a, Desk.opening e [], []⟩
        (.report status :: schedule.map fun t => .turn t.1 t.2)
      w.ongoing = [] ∧ (w.auto, w.desk.editor) = ((onStatus status).exec (a, e)).2 := by
  obtain ⟨schedule, hdesk, hongoing, hauto⟩ := exists_run_begun a e v hreturns
  have hreport : Watch.step ⟨a, Desk.opening e [], []⟩ (.report status) = begun a e v := by
    simp [Watch.step, report, Desk.opening, hbegin, enroll, begun]
  have hrun : run ⟨a, Desk.opening e [], []⟩
      (.report status :: schedule.map fun t => .turn t.1 t.2) =
        (begun a e v).run (schedule.map fun t => .turn t.1 t.2) := by
    rw [run, List.foldl_cons, hreport]
    rfl
  refine ⟨schedule, ?_⟩
  rw [hrun]
  refine ⟨hongoing, ?_⟩
  rw [hauto, hdesk]
  cases failure with
  | none =>
    simp [onStatus, Act.exec_bind, exec_own, hbegin, exec_submit, exec_enqueue _ e hreturns,
      finishStatus]
  | some f =>
    simp [onStatus, Act.exec_bind, exec_own, hbegin, exec_submit, exec_enqueue _ e hreturns]

/-- A report that is dealt with alone, by a call that returns, is a case of what may happen at a
desk. -/
theorem exists_run_onStatus (a : AutoQueue) (e : Editor) (status : Json) {failure : Option Fault}
    (hreturns : ((Desk.opening e [{ batch := a.batch }]).gather).calls =
      [({ batch := a.batch }, .returned failure)]) :
    ∃ schedule : List (Pace × Nat),
      let w := run ⟨a, Desk.opening e [], []⟩
        (.report status :: schedule.map fun t => .turn t.1 t.2)
      w.ongoing = [] ∧ (w.auto, w.desk.editor) = ((onStatus status).exec (a, e)).2 := by
  rcases beginStatus_cases status e.executionError.isSome a with
    ⟨hauto, hnone⟩ | ⟨length, -, -, hbegin⟩ | ⟨length, -, -, hbegin⟩
  · -- the report is refused, or nothing comes of it
    refine ⟨[], ?_⟩
    rcases hbegin : (beginStatus status e.executionError.isSome).exec a with ⟨r, a'⟩
    rw [hbegin] at hauto hnone
    dsimp only at hauto hnone
    subst hauto
    cases r with
    | error f => simp [run, Watch.step, report, Desk.opening, hbegin, onStatus, Act.exec_bind, exec_own]
    | ok found =>
      cases found with
      | none => simp [run, Watch.step, report, Desk.opening, hbegin, onStatus, Act.exec_bind, exec_own]
      | some p => exact absurd rfl (hnone p)
  · -- the length is noted, and nothing is submitted
    refine ⟨[], ?_⟩
    simp [run, Watch.step, report, Desk.opening, hbegin, onStatus, Act.exec_bind, exec_own,
      finishStatus]
  · -- a submission starts, unless the length cannot be told
    cases hplus : length.plus a.batch with
    | error f =>
      rw [hplus] at hbegin
      refine ⟨[], ?_⟩
      simp [run, Watch.step, report, Desk.opening, hbegin, onStatus, Act.exec_bind, exec_own,
        Except.map]
    | ok v =>
      rw [hplus] at hbegin
      exact exists_run_onStatus_of_begun a e hbegin hreturns

/-- Where no report waits for a call, turns move the calls at the desk and nothing else. -/
theorem run_turns {w : Watch} (h : w.ongoing = []) (schedule : List (Pace × Nat)) :
    w.run (schedule.map fun t => .turn t.1 t.2) = { w with desk := w.desk.run schedule } := by
  induction schedule generalizing w with
  | nil => rfl
  | cons t schedule ih =>
    have hturn : w.step (.turn t.1 t.2) = { w with desk := w.desk.turn t.1 t.2 } :=
      settle_of_not_mem (by simp [h])
    rw [run, List.map_cons, List.foldl_cons, hturn]
    exact ih h

/-- A change of the graph that is dealt with alone, with a call that returns, is a case of what may
happen at a desk. -/
theorem exists_run_onChange (a : AutoQueue) (e : Editor) {failure : Option Fault}
    (hreturns : ((Desk.opening e [{ batch := a.batch }]).gather).calls =
      [({ batch := a.batch }, .returned failure)]) :
    ∃ schedule : List (Pace × Nat),
      let w := run ⟨a, Desk.opening e [], []⟩ (.change :: schedule.map fun t => .turn t.1 t.2)
      w.ongoing = [] ∧ (w.auto, w.desk.editor) = (onChange.exec (a, e)).2 := by
  have hnote := exec_noteChange a
  by_cases hwatched : (a.mode == .change && a.enabled) = true
  swap
  · -- changes are not watched
    rw [if_neg hwatched] at hnote
    refine ⟨[], ?_⟩
    simp [run, Watch.step, change, Desk.opening, hnote, onChange, Act.exec_bind, exec_own]
  · rw [if_pos hwatched] at hnote
    cases hidle : a.last.same (.int 0) with
    | false =>
      rw [hidle] at hnote
      refine ⟨[], ?_⟩
      simp [run, Watch.step, change, Desk.opening, hnote, onChange, Act.exec_bind, exec_own]
    | true =>
      rw [hidle] at hnote
      obtain ⟨schedule, hschedule⟩ := Desk.exists_run_gather (Desk.opening e [{ batch := a.batch }])
      have hchange : Watch.step ⟨a, Desk.opening e [], []⟩ .change =
          ⟨{ a with changed := false }, Desk.opening e [{ batch := a.batch }], []⟩ := by
        simp [Watch.step, change, Desk.opening, hnote, enroll]
      have hrun : run ⟨a, Desk.opening e [], []⟩ (.change :: schedule.map fun t => .turn t.1 t.2) =
          ⟨{ a with changed := false }, (Desk.opening e [{ batch := a.batch }]).gather, []⟩ := by
        rw [run, List.foldl_cons, hchange, hschedule]
        exact run_turns rfl schedule
      refine ⟨schedule, ?_⟩
      rw [hrun]
      refine ⟨rfl, ?_⟩
      cases failure <;>
        simp [onChange, Act.exec_bind, exec_own, hnote, exec_submit, exec_enqueue _ e hreturns]

/-! ## Which reports start a submission -/

/-- Reports, changes, turns of the calls at the desk and acts of others follow each other in any order,
and submissions may be under way from before.  Where only changes are submitted, a report that starts
a submission is the last one that does, until a change is noted: reports that arrive while the
submission is under way start none.  Where the graph is submitted whether or not it has changed, every
report of an empty queue starts one more submission, however many are under way, as long as no failed
run is known. -/
theorem run_starts (w : Watch) (moves : List Move) (status : Json) :
    (w.auto.mode = .change → ∀ front first back, moves = front ++ .report first :: back →
      (w.run front).Starts first → Move.change ∉ back → ¬ (w.run moves).Starts status) ∧
    ∀ batch length, batch ≠ 0 → w.Restless batch →
      (∀ front back, moves = front ++ back →
        (w.run front).desk.editor.executionError = none) →
      remaining? status = .ok (some length) → length.same (.int 0) = true →
        (w.run moves).Starts status := by
  refine ⟨?_, ?_⟩
  · rintro hmode front first back rfl hstarts hback
    rw [run_append]
    have hcalm := calm_of_starts ((mode_run w front).trans hmode) hstarts
    exact (hcalm.run hback).not_starts status
  · intro batch length hbatch hrestless hrun hlength hzero
    exact (hrestless.run hbatch hrun).starts (hrun moves [] (List.append_nil moves).symm) hlength hzero

/-- A report of an empty queue. -/
def emptied : Json := .obj [("exec_info", .obj [("queue_remaining", .int 0)])]

/-- Automatic submission whose backend takes its time and had one prompt left. -/
def waiting (mode : AutoMode) : Watch where
  auto := { mode, enabled := true, last := .int 1, changed := true }
  desk := Desk.opening Desk.slowEditor []

/-- The second of two reports starts a submission if all is submitted, and none if changes are. -/
theorem waiting_starts : (waiting .instant).Restless 1 ∧
    ((waiting .instant).run [.report emptied]).Starts emptied ∧
    (waiting .change).Starts emptied ∧ ¬ ((waiting .change).run [.report emptied]).Starts emptied := by
  have hrestless : (waiting .instant).Restless 1 :=
    ⟨rfl, rfl, rfl, rfl, fun o ho => absurd ho (by simp [waiting])⟩
  have hstarts : (waiting .change).Starts emptied := ⟨⟨true, .int 1⟩, rfl, rfl⟩
  refine ⟨hrestless, ?_, hstarts, ?_⟩
  · refine (run_starts (waiting .instant) [.report emptied] emptied).2 1 (.int 0) (by decide)
      hrestless ?_ rfl rfl
    intro front back hsplit
    cases front with
    | nil => rfl
    | cons move front =>
      rw [List.cons_append, List.cons.injEq] at hsplit
      obtain ⟨rfl, hnil⟩ := hsplit
      obtain ⟨rfl, -⟩ := List.append_eq_nil_iff.1 hnil.symm
      rfl
  · exact (run_starts (waiting .change) [.report emptied] emptied).1 rfl [] emptied [] rfl hstarts
      (by simp)

/-- Two reports of an empty queue and none of another length.  When the second arrives, the submission
of the first waits for the backend; the second starts another one, whose request is left at the
queue. -/
theorem waiting_doubles :
    let first := (waiting .instant).run [.report emptied, .turn .yielding 0, .turn .yielding 0]
    (first.ongoing.map (·.call)) = [0] ∧ first.Starts emptied ∧
      (first.run [.report emptied, .turn .yielding 1]).desk.editor.pending = [⟨0, 1⟩] :=
  ⟨rfl, ⟨⟨true, .int 1⟩, rfl, rfl⟩, rfl⟩

end Watch

end AutoQueue

end NodeFlow
