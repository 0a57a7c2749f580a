import NodeFlow.Proofs.Editor.Overlap

/-!
# No change of the graph is lost

Where only changes are submitted, a change that is noted while the backend's queue is not empty waits
for a report of an empty one.  The mark of a waiting change is shared by all reports, and the length
that a report remembers may be old by the time it is remembered.  Still the mark is taken back only by a
move that brings a call for a submission to the desk, so that whatever has changed until then is
compiled by that call.

Main results:

- Definition `AutoQueue.Watch.Enrolls`: a move brings a call for a submission to the desk.
- Theorem `Watch.Watchful.changed_step`: a waiting change goes on waiting, or a call is brought.
- Theorem `Watch.run_changed_or_enrolls`: every change waits or has been followed by a call.
-/

namespace NodeFlow

namespace AutoQueue

namespace Watch

/-- A move brings a call for a submission to the desk.  The call has had no turn, so that everything it
does comes after the move. -/
def Enrolls (w : Watch) (move : Move) : Prop :=
  (w.step move).desk.calls = w.desk.calls ++ [({ batch := w.auto.batch }, .entering)]

/-- Changes are submitted, as many times as a whole number says. -/
structure Watchful (w : Watch) : Prop where
  mode : w.auto.mode = .change
  enabled : w.auto.enabled = true
  batch : w.auto.batch.whole?.isSome = true

/-! ## What moves bring to the desk -/

private theorem length_turn (pace : Pace) (call : Nat) (d : Desk) :
    (d.turn pace call).calls.length = d.calls.length := by
  cases hcall : d.calls[call]? with
  | none => rw [Desk.turn_of_none hcall]
  | some found =>
    rw [Desk.turn_eq hcall, List.length_set]

private theorem enrolls_of_starts {w : Watch} {status : Json} (h : w.Starts status) :
    w.Enrolls (.report status) := by
  obtain ⟨p, hp, hsubmits⟩ := h
  rcases hexec : (beginStatus status w.desk.editor.executionError.isSome).exec w.auto with ⟨r, a⟩
  have hbatch : a.batch = w.auto.batch := by
    rcases beginStatus_cases status w.desk.editor.executionError.isSome w.auto with
      ⟨hauto, -⟩ | ⟨length, -, -, hbegin⟩ | ⟨length, -, -, hbegin⟩
    · rw [hexec] at hauto
      rw [show a = w.auto from hauto]
    all_goals
      rw [hexec, Prod.mk.injEq] at hbegin
      rw [hbegin.2]
  rw [hexec] at hp
  obtain rfl : r = .ok (some p) := hp
  simp [Enrolls, step, report, hexec, hsubmits, enroll, hbatch]

private theorem change_of_watchful {w : Watch} (h : w.Watchful) :
    w.change = if w.auto.last.same (.int 0) then
        { w with auto := { w.auto with changed := false } }.enroll
      else { w with auto := { w.auto with changed := true } } := by
  have hexec : noteChange.exec w.auto =
      (.ok (w.auto.last.same (.int 0)), { w.auto with changed := !w.auto.last.same (.int 0) }) := by
    simp [noteChange, Act.exec_bind, h.mode, h.enabled]
  unfold change
  rw [hexec]
  cases w.auto.last.same (.int 0) <;> rfl

/-- A turn of a call brings no call, and neither do the acts of others. -/
theorem Enrolls.is_report {w : Watch} {move : Move} (h : w.Enrolls move) :
    move = .change ∨ ∃ status, move = .report status := by
  cases move with
  | report status => exact .inr ⟨status, rfl⟩
  | change => exact .inl rfl
  | turn pace call =>
    have hlength : (w.step (.turn pace call)).desk.calls.length = w.desk.calls.length := by
      rw [step, desk_settle, length_turn]
    rw [h, List.length_append] at hlength
    simp at hlength
  | others act =>
    have hcalls : w.desk.calls = w.desk.calls ++ [({ batch := w.auto.batch }, .entering)] := h
    simp at hcalls

/-! ## A waiting change -/

private theorem number?_of_whole? {v : Json} {n : Int} (h : v.whole? = some n) :
    v.number? = some (.int n) := by
  cases v with
  | int m =>
    cases h
    rfl
  | bool b =>
    cases h
    cases b <;> rfl
  | null | float | str | arr | obj => cases h

/-- Any whole number can be added to the length of an empty queue. -/
theorem exists_plus {length batch : Json} (hwhole : length.whole?.isSome = true)
    (hzero : length.same (.int 0) = true) (hbatch : batch.whole?.isSome = true) :
    ∃ v, length.plus batch = .ok v := by
  obtain ⟨n, hn⟩ := Option.isSome_iff_exists.1 hbatch
  have hlength := number?_of_same_zero hwhole hzero
  rw [plus_eq_onNumbers hlength, Json.onNumbers, hlength, number?_of_whole? hn]
  exact ⟨_, rfl⟩

namespace Watchful

variable {w : Watch}

private theorem step (h : w.Watchful) (move : Move) : (w.step move).Watchful := by
  obtain ⟨changed, last, hauto⟩ := auto_step w move
  refine ⟨?_, ?_, ?_⟩ <;> rw [hauto]
  exacts [h.mode, h.enabled, h.batch]

private theorem run (h : w.Watchful) (moves : List Move) : (w.run moves).Watchful := by
  induction moves generalizing w with
  | nil => exact h
  | cons move moves ih => exact ih (h.step move)

/-- A change is noted, or submitted at once. -/
theorem changed_change (h : w.Watchful) :
    (w.step .change).auto.changed = true ∨ w.Enrolls .change := by
  rw [Enrolls, Watch.step, change_of_watchful h]
  cases w.auto.last.same (.int 0) with
  | true => exact .inr rfl
  | false => exact .inl rfl

/-- The step lemma: a change that waits goes on waiting, unless a call for a submission is brought. -/
theorem changed_step (h : w.Watchful) (hchanged : w.auto.changed = true) (move : Move) :
    (w.step move).auto.changed = true ∨ w.Enrolls move := by
  cases move with
  | report status =>
    rcases auto_report_cases w status with ⟨hauto, -⟩ | ⟨length, -, -, -, hauto, -⟩ |
      ⟨length, hlength, hdue, -⟩
    · exact .inl (by rw [Watch.step, hauto]; exact hchanged)
    · exact .inl (by rw [Watch.step, hauto]; exact hchanged)
    · -- the mark is taken back, and the length of the empty queue can be told
      have hzero : length.same (.int 0) = true := by
        simp only [isDue, Bool.and_eq_true] at hdue
        exact hdue.1.1.1.2
      obtain ⟨v, hv⟩ := exists_plus (isSome_whole?_of_remaining? hlength) hzero h.batch
      exact .inr (enrolls_of_starts (starts_iff.2 ⟨length, v, hlength, hdue, hv⟩))
  | change => exact h.changed_change
  | turn pace call =>
    rcases auto_settle_cases { w with desk := w.desk.turn pace call } call with ⟨hauto, -⟩ |
      ⟨o, -, hauto, -⟩ <;> exact .inl (by rw [Watch.step, hauto]; exact hchanged)
  | others act => exact .inl hchanged

/-- The run lemma: a change that waits still waits after any moves, unless one of them has brought a
call for a submission. -/
theorem changed_run (h : w.Watchful) (hchanged : w.auto.changed = true) (moves : List Move) :
    (w.run moves).auto.changed = true ∨
      ∃ front move back, moves = front ++ move :: back ∧ (w.run front).Enrolls move := by
  induction moves generalizing w with
  | nil => exact .inl hchanged
  | cons move moves ih =>
    rcases h.changed_step hchanged move with hchanged | henrolls
    · rcases ih (h.step move) hchanged with hchanged | ⟨front, later, back, rfl, henrolls⟩
      · exact .inl hchanged
      · exact .inr ⟨move :: front, later, back, rfl, henrolls⟩
    · exact .inr ⟨[], move, moves, rfl, henrolls⟩

end Watchful

/-- Reports, changes, turns of the calls at the desk and acts of others follow each other in any order,
and submissions may be under way from before.  Where changes are submitted, every change that has been
noted is marked as waiting, or its own move or the move of a later report or change has brought a call
for a submission to the desk. -/
theorem run_changed_or_enrolls (w : Watch) (hwatchful : w.Watchful) (front back : List Move) :
    (w.run (front ++ .change :: back)).auto.changed = true ∨
      ∃ middle move rest, .change :: back = middle ++ move :: rest ∧
        (move = .change ∨ ∃ status, move = .report status) ∧
          (w.run (front ++ middle)).Enrolls move := by
  have hfront := hwatchful.run front
  rw [run_append]
  rcases hfront.changed_change with hchanged | henrolls
  · rcases (hfront.step .change).changed_run hchanged back with
      hchanged | ⟨middle, move, rest, rfl, henrolls⟩
    · exact .inl hchanged
    · refine .inr ⟨.change :: middle, move, rest, rfl, henrolls.is_report, ?_⟩
      rw [run_append]
      exact henrolls
  · exact .inr ⟨[], .change, back, rfl, .inl rfl, by rwa [List.append_nil]⟩

/-- A change that is noted while the submission of an earlier one waits for the backend.  It is not
marked in the end, for the report that follows it has brought a call. -/
theorem waiting_changed_or_enrolls :
    let front := [.report emptied, .turn .yielding 0, .turn .yielding 0]
    let back := [.report emptied]
    (waiting .change).Watchful ∧ ((waiting .change).run front).ongoing.map (·.call) = [0] ∧
    ((waiting .change).run (front ++ .change :: back)).auto.changed = false ∧
    (((waiting .change).run (front ++ .change :: back)).auto.changed = true ∨
      ∃ middle move rest, .change :: back = middle ++ move :: rest ∧
        (move = .change ∨ ∃ status, move = .report status) ∧
          ((waiting .change).run (front ++ middle)).Enrolls move) := by
  have hwatchful : (waiting .change).Watchful := ⟨rfl, rfl, rfl⟩
  exact ⟨hwatchful, rfl, rfl, run_changed_or_enrolls (waiting .change) hwatchful _ _⟩

end Watch

end AutoQueue

end NodeFlow
