import NodeFlow.Proofs.Editor.Answers

/-!
# Hooks of submitted workflows

A unit is compiled from the workflow that is in place when it begins.  When the backend has answered,
another one may be in place: others may have replaced it while the unit waited.  The hooks that come
after the submission are looked up there, under the ids of the compiled document.

The turns of calls are taken again by a machine that also remembers, for each answer of the backend,
which workflow the unit was compiled from and which editor the answer has found.

Main results:

- Types `Submission`, `LoggedTurn` and `LoggedDesk`; definition `Stage.loggedTurn`.
- Theorem `Stage.turn_loggedTurn`: the machine that remembers takes the turns of the other one.
- Theorem `Stage.loggedTurn_traces`: one turn keeps track of what was compiled.
- Theorem `LoggedDesk.run_submissions`: whole runs, with others that act in between.
-/

namespace NodeFlow

open Workflow

/-! ## Turns that are logged -/

/-- A unit whose prompt the backend has answered: the workflow that was in place when its compilation
began, its prompt, the answer, and the editor that the answer has found. -/
structure Submission where
  graph : Workflow
  prompt : Prompt
  answer : Except Fault QueueResponse
  editor : Editor

/-- A turn, the workflow that the unit at its end is compiled from, and the units that were answered
during the turn. -/
structure LoggedTurn where
  turn : Turn
  graph : Workflow
  log : List Submission := []

namespace LoggedTurn

/-- The turn with events and submissions before its own. -/
def after (events : List QueueEvent) (log : List Submission) (t : LoggedTurn) : LoggedTurn :=
  { t with turn := t.turn.after events, log := log ++ t.log }

/-- A unit is over, as in `Editor.close`. -/
def close (next : Editor → LoggedTurn) (g : Workflow) (isFine : Bool) (e : Editor) : LoggedTurn :=
  if isFine then (next e).after [.settled .accepted] []
  else { turn := ⟨.choosing, e, [.settled .failed]⟩, graph := g }

/-- The view makes a call while it is brought up to date, as in `Editor.oblige`. -/
def oblige (c : Call) (next : Editor → LoggedTurn) (g : Workflow) (isFine : Bool) (e : Editor) :
    LoggedTurn :=
  match Request.read c.number c.batch with
  | .error _ => close next g false e
  | .ok r =>
    let e := e.join r
    let (outcome, e) := (Editor.display (.enqueued e.pending.length)).exec e
    (close next g (isFine && (failure? outcome).isNone) e).after [.obliged r] []

/-- The view has been brought up to date, or waits, as in `Editor.shown`. -/
def shown (number : Int) (left : Nat) (next : Editor → LoggedTurn) (g : Workflow) (isAccepted : Bool) :
    Course Editor (Option Call) → LoggedTurn
  | .waiting e rest => { turn := ⟨.showing number left isAccepted rest, e, []⟩, graph := g }
  | .ended (.error _) e => close next g false e
  | .ended (.ok none) e => close next g isAccepted e
  | .ended (.ok (some c)) e => oblige c next g isAccepted e

/-- The backend has answered, which is remembered, or is waited for, as in `Editor.answered`. -/
def answered (pace : Pace) (number : Int) (left : Nat) (next : Editor → LoggedTurn) (g : Workflow)
    (p : Prompt) : Course Editor QueueResponse → LoggedTurn
  | .waiting e rest => { turn := ⟨.submitting number left p rest, e, []⟩, graph := g }
  | .ended answer e =>
    (shown number left next g (failure? answer).isNone
      (pace.course (Editor.conclude p answer e))).after [] [⟨g, p, answer, e⟩]

/-- The graph has been compiled, or its compilation waits, as in `Editor.compiled`. -/
def compiled (pace : Pace) (number : Int) (left : Nat) (next : Editor → LoggedTurn) (g : Workflow) :
    Course Editor Prompt → LoggedTurn
  | .waiting e rest => { turn := ⟨.compiling number left rest, e, []⟩, graph := g }
  | .ended (.error f) e =>
    { turn := ⟨.choosing, ((Editor.showFailure f).exec e).2, [.settled .unsent]⟩, graph := g }
  | .ended (.ok p) e =>
    (answered pace number left next g p
      (pace.course (Editor.submitTo number p e))).after [.called number] []

/-- So many units of a request, as in `Editor.units`; each is compiled from what is in place when it
begins. -/
def units (pace : Pace) (number : Int) : Nat → Editor → LoggedTurn
  | 0, e => { turn := ⟨.choosing, e, []⟩, graph := e.graph }
  | left + 1, e =>
    compiled pace number left (units pace number left) e.graph (pace.course (Editor.compile e))

/-- The next request is taken, as in `Editor.choose`. -/
def choose (pace : Pace) (c : Call) (e : Editor) : LoggedTurn :=
  match e.pending with
  | [] => { turn := e.choose pace c, graph := e.graph }
  | r :: rest => (units pace r.number r.batch.toNat { e with pending := rest }).after [.taken r] []

end LoggedTurn

/-- One turn of a call whose unit, if it is in the middle of one, is compiled from a workflow. -/
def Stage.loggedTurn (pace : Pace) (c : Call) (g : Workflow) : Stage → Editor → LoggedTurn
  | entering, e => { turn := e.enter c, graph := g }
  | choosing, e => LoggedTurn.choose pace c e
  | compiling number left rest, e =>
    LoggedTurn.compiled pace number left (LoggedTurn.units pace number left) g (pace.course (rest e))
  | submitting number left p rest, e =>
    LoggedTurn.answered pace number left (LoggedTurn.units pace number left) g p (pace.course (rest e))
  | showing number left isAccepted rest, e =>
    LoggedTurn.shown number left (LoggedTurn.units pace number left) g isAccepted
      (pace.course (rest e))
  | returned failure, e => { turn := ⟨.returned failure, e, []⟩, graph := g }

/-! ## The log does not matter -/

namespace LoggedTurn

variable {pace : Pace} {number : Int} {left : Nat} {next : Editor → LoggedTurn} {g : Workflow}

private theorem turn_close (isFine : Bool) (e : Editor) :
    (close next g isFine e).turn = Editor.close (fun e => (next e).turn) isFine e := by
  cases isFine <;> rfl

private theorem turn_oblige (c : Call) (isFine : Bool) (e : Editor) :
    (oblige c next g isFine e).turn = Editor.oblige c (fun e => (next e).turn) isFine e := by
  rw [oblige, Editor.oblige]
  cases Request.read c.number c.batch with
  | error f => exact turn_close false e
  | ok r => exact congrArg (Turn.after _) (turn_close _ _)

private theorem turn_shown (isAccepted : Bool) (course : Course Editor (Option Call)) :
    (shown number left next g isAccepted course).turn =
      Editor.shown number left (fun e => (next e).turn) isAccepted course := by
  rcases course with ⟨f | (_ | c), e⟩ | ⟨e, rest⟩
  · exact turn_close false e
  · exact turn_close isAccepted e
  · exact turn_oblige c isAccepted e
  · rfl

private theorem turn_answered (p : Prompt) (course : Course Editor QueueResponse) :
    (answered pace number left next g p course).turn =
      Editor.answered pace number left (fun e => (next e).turn) p course := by
  cases course with
  | ended answer e => exact turn_shown _ _
  | waiting e rest => rfl

private theorem turn_compiled (course : Course Editor Prompt) :
    (compiled pace number left next g course).turn =
      Editor.compiled pace number left (fun e => (next e).turn) course := by
  rcases course with ⟨f | p, e⟩ | ⟨e, rest⟩
  · rfl
  · exact congrArg (Turn.after _) (turn_answered p _)
  · rfl

private theorem turn_units (left : Nat) (e : Editor) :
    (units pace number left e).turn = Editor.units pace number left e := by
  induction left generalizing e with
  | zero => rfl
  | succ left ih =>
    rw [units, Editor.units, turn_compiled]
    exact congrArg (Editor.compiled pace number left · _) (funext ih)

end LoggedTurn

/-- The turn is the one that the call takes anyway. -/
theorem Stage.turn_loggedTurn (pace : Pace) (c : Call) (g : Workflow) (stage : Stage) (e : Editor) :
    (stage.loggedTurn pace c g e).turn = stage.turn pace c e := by
  have hunits : ∀ number left, (fun e => (LoggedTurn.units pace number left e).turn) =
      Editor.units pace number left := fun number left => funext (LoggedTurn.turn_units left)
  cases stage with
  | entering => rfl
  | choosing =>
    rw [loggedTurn, LoggedTurn.choose, turn]
    split
    · rfl
    · rename_i r rest hpending
      rw [Editor.choose, hpending]
      exact congrArg (Turn.after _) (LoggedTurn.turn_units _ _)
  | compiling number left rest => rw [loggedTurn, LoggedTurn.turn_compiled, hunits, turn]
  | submitting number left p rest => rw [loggedTurn, LoggedTurn.turn_answered, hunits, turn]
  | showing number left isAccepted rest => rw [loggedTurn, LoggedTurn.turn_shown, hunits, turn]
  | returned failure => rfl

/-! ## What turns keep track of -/

/-- The prompt of the unit that the call is in the middle of comes, or will come, from a workflow. -/
def Stage.ComesFrom (g : Workflow) : Stage → Prop
  | compiling _ _ rest => Distinct g → ∀ e, (rest e).Ensures .free fun r _ =>
      ∀ p, r = .ok p → p.ComesFrom g
  | submitting _ _ p _ => Distinct g → p.ComesFrom g
  | _ => True

/-- What a logged turn of a call that may have waited for the backend gets right: the unit at its end
and those that were answered belong to the workflows that are named, and every prompt that was handed
over has been answered or waits. -/
structure LoggedTurn.Traces (waits : Nat) (t : LoggedTurn) : Prop where
  stage : t.turn.stage.ComesFrom t.graph
  log : ∀ u ∈ t.log, Distinct u.graph → u.prompt.ComesFrom u.graph
  count : t.turn.numbers.length + waits = t.log.length + t.turn.stage.isSubmitting.toNat

namespace LoggedTurn

variable {pace : Pace} {number : Int} {left : Nat} {next : Editor → LoggedTurn} {g : Workflow}
  {waits : Nat} {t : LoggedTurn}

private theorem Traces.after {k : Nat} (h : t.Traces k) {events : List QueueEvent}
    {log : List Submission} (hlog : ∀ u ∈ log, Distinct u.graph → u.prompt.ComesFrom u.graph)
    (hcount : (events.filterMap QueueEvent.number?).length + waits = log.length + k) :
    (t.after events log).Traces waits := by
  refine ⟨h.stage, fun u hu => ?_, ?_⟩
  · rcases List.mem_append.1 hu with hearlier | hlater
    · exact hlog u hearlier
    · exact h.log u hlater
  · have hnumbers : (t.after events log).turn.numbers =
        events.filterMap QueueEvent.number? ++ t.turn.numbers := by
      simp [LoggedTurn.after, Turn.after, Turn.numbers]
    have hmine := h.count
    rw [hnumbers, LoggedTurn.after, List.length_append, List.length_append]
    dsimp only [Turn.after]
    omega

/-- Events that are no calls of the backend do not count. -/
theorem Traces.after_events (h : t.Traces waits) {events : List QueueEvent}
    (hevents : events.filterMap QueueEvent.number? = []) : (t.after events []).Traces waits :=
  h.after (List.forall_mem_nil _) (by rw [hevents]; rfl)

section Unit

variable (hnext : ∀ e, (next e).Traces 0)

include hnext

private theorem close_traces (isFine : Bool) (e : Editor) : (close next g isFine e).Traces 0 := by
  unfold close
  split
  · exact (hnext e).after_events rfl
  · exact ⟨trivial, List.forall_mem_nil _, rfl⟩

private theorem oblige_traces (c : Call) (isFine : Bool) (e : Editor) :
    (oblige c next g isFine e).Traces 0 := by
  unfold oblige
  split
  · exact close_traces hnext false e
  · exact (close_traces hnext _ _).after_events rfl

private theorem shown_traces (isAccepted : Bool) (course : Course Editor (Option Call)) :
    (shown number left next g isAccepted course).Traces 0 := by
  rcases course with ⟨f | (_ | c), e⟩ | ⟨e, rest⟩
  · exact close_traces hnext false e
  · exact close_traces hnext isAccepted e
  · exact oblige_traces hnext c isAccepted e
  · exact ⟨trivial, List.forall_mem_nil _, rfl⟩

/-- An answer is remembered with the workflow that its prompt comes from. -/
theorem answered_traces {p : Prompt} (hp : Distinct g → p.ComesFrom g)
    (course : Course Editor QueueResponse) : (answered pace number left next g p course).Traces 1 := by
  cases course with
  | ended answer e =>
    refine (shown_traces hnext _ _).after ?_ rfl
    intro u hu
    cases List.mem_singleton.1 hu
    exact hp
  | waiting e rest => exact ⟨hp, List.forall_mem_nil _, rfl⟩

private theorem compiled_traces {course : Course Editor Prompt}
    (hcourse : Distinct g → course.Ensures .free fun r _ => ∀ p, r = .ok p → p.ComesFrom g) :
    (compiled pace number left next g course).Traces 0 := by
  rcases course with ⟨f | p, e⟩ | ⟨e, rest⟩
  · exact ⟨trivial, List.forall_mem_nil _, rfl⟩
  · exact (answered_traces hnext (fun hdistinct => hcourse hdistinct p rfl) _).after
      (List.forall_mem_nil _) rfl
  · exact ⟨fun hdistinct e => hcourse hdistinct e trivial, List.forall_mem_nil _, rfl⟩

end Unit

/-- So many units, each compiled from what is in place when it begins. -/
theorem units_traces (left : Nat) (e : Editor) : (units pace number left e).Traces 0 := by
  induction left generalizing e with
  | zero => exact ⟨trivial, List.forall_mem_nil _, rfl⟩
  | succ left ih =>
    exact compiled_traces ih fun hdistinct =>
      pace.ensures_course (Editor.compile_comesFrom hdistinct)

end LoggedTurn

/-- The step lemma: one turn of a call keeps track of what was compiled. -/
theorem Stage.loggedTurn_traces {stage : Stage} {g : Workflow} (h : stage.ComesFrom g) (pace : Pace)
    (c : Call) (e : Editor) :
    (stage.loggedTurn pace c g e).Traces stage.isSubmitting.toNat := by
  cases stage with
  | entering =>
    rw [loggedTurn, Editor.enter]
    split
    · exact ⟨trivial, List.forall_mem_nil _, rfl⟩
    · dsimp only
      split <;> exact ⟨trivial, List.forall_mem_nil _, rfl⟩
  | choosing =>
    rw [loggedTurn, LoggedTurn.choose]
    split
    · rename_i hpending
      rw [Editor.choose, hpending]
      exact ⟨trivial, List.forall_mem_nil _, rfl⟩
    · exact (LoggedTurn.units_traces _ _).after_events rfl
  | compiling number left rest =>
    exact LoggedTurn.compiled_traces (LoggedTurn.units_traces left) fun hdistinct =>
      pace.ensures_course (h hdistinct e)
  | submitting number left p rest =>
    exact LoggedTurn.answered_traces (LoggedTurn.units_traces left) h _
  | showing number left isAccepted rest =>
    exact LoggedTurn.shown_traces (LoggedTurn.units_traces left) _ _
  | returned failure => exact ⟨trivial, List.forall_mem_nil _, rfl⟩

/-! ## Desks where others act too -/

namespace Desk

/-- How many calls wait for the backend. -/
def awaiting (d : Desk) : Nat := d.calls.countP fun call => call.2.isSubmitting

/-- A turn of a call changes how many calls wait for the backend by what it changes of its own. -/
theorem awaiting_turn {d : Desk} {i : Nat} {c : Call} {stage : Stage}
    (hcall : d.calls[i]? = some (c, stage)) (pace : Pace) :
    (d.turn pace i).awaiting + stage.isSubmitting.toNat =
      d.awaiting + (stage.turn pace c d.editor).stage.isSubmitting.toNat := by
  rcases List.getElem?_eq_some_iff.1 hcall with ⟨hi, hget⟩
  have hmine := List.boole_getElem_le_countP (p := fun call => call.2.isSubmitting) hi
  rw [turn_eq hcall, awaiting, awaiting, List.countP_set hi]
  rw [hget] at hmine ⊢
  dsimp only at hmine ⊢
  rw [Bool.toNat, Bool.toNat, Bool.cond_eq_ite, Bool.cond_eq_ite]
  omega

/-- What may happen next at a desk. -/
inductive Move where
  /-- A call has a turn. -/
  | turn (pace : Pace) (call : Nat)
  /-- Others act on the editor: they load a workflow, for example. -/
  | others (act : Editor → Editor)

/-- What a move leads to. -/
def move (d : Desk) : Move → Desk
  | .turn pace i => d.turn pace i
  | .others act => { d with editor := act d.editor }

/-- What moves lead to, one after the other. -/
def moveAll (d : Desk) (moves : List Move) : Desk := moves.foldl move d

end Desk

/-- A desk, the workflows that the units of its calls are compiled from, and the units that have been
answered. -/
structure LoggedDesk where
  desk : Desk
  graphs : Nat → Workflow
  log : List Submission := []

namespace LoggedDesk

/-- A desk before any of the calls has begun. -/
def opening (e : Editor) (calls : List Call) : LoggedDesk :=
  { desk := .opening e calls, graphs := fun _ => e.graph }

/-- A move at the desk.  What is remembered does not bear on it. -/
def move (d : LoggedDesk) (m : Desk.Move) : LoggedDesk :=
  match m with
  | .others _ => { d with desk := d.desk.move m }
  | .turn pace i =>
    match d.desk.calls[i]? with
    | none => d
    | some (c, stage) =>
      let t := stage.loggedTurn pace c (d.graphs i) d.desk.editor
      { desk := d.desk.move m, graphs := Function.update d.graphs i t.graph, log := d.log ++ t.log }

/-- Moves at the desk, one after the other. -/
def moveAll (d : LoggedDesk) (moves : List Desk.Move) : LoggedDesk := moves.foldl move d

private theorem desk_move (d : LoggedDesk) (m : Desk.Move) : (d.move m).desk = d.desk.move m := by
  cases m with
  | others act => rfl
  | turn pace i =>
    rw [move]
    split
    · rename_i hcall
      exact (Desk.turn_of_none hcall pace).symm
    · rfl

/-- The desk is the one where nothing is remembered. -/
theorem desk_moveAll (d : LoggedDesk) (moves : List Desk.Move) :
    (d.moveAll moves).desk = d.desk.moveAll moves := by
  induction moves generalizing d with
  | nil => rfl
  | cons m moves ih => exact (ih (d.move m)).trans (congrArg (Desk.moveAll · moves) (d.desk_move m))

/-- What is remembered at a desk is right: the units of its calls and those that were answered belong
to the workflows that are named, and every prompt that was handed over has been answered or waits. -/
structure Traces (d : LoggedDesk) : Prop where
  stages : ∀ (i : Nat) (c : Call) (stage : Stage), d.desk.calls[i]? = some (c, stage) →
    stage.ComesFrom (d.graphs i)
  log : ∀ u ∈ d.log, Distinct u.graph → u.prompt.ComesFrom u.graph
  count : d.desk.numbers.length = d.log.length + d.desk.awaiting

variable {d : LoggedDesk}

private theorem Traces.opening (e : Editor) (calls : List Call) : (opening e calls).Traces where
  stages i c stage hcall := by
    have hentering : (c, stage) ∈ calls.map fun c => (c, Stage.entering) :=
      List.mem_of_getElem? hcall
    rcases List.mem_map.1 hentering with ⟨_, -, hsame⟩
    cases hsame
    trivial
  log := List.forall_mem_nil _
  count := by
    have hnone : (Desk.opening e calls).awaiting = 0 := by
      rw [Desk.awaiting, Desk.opening, List.countP_map]
      exact List.countP_eq_zero.2 fun _ _ => Bool.false_ne_true
    exact hnone.symm.trans (Nat.zero_add _).symm

private theorem Traces.move (h : d.Traces) (m : Desk.Move) : (d.move m).Traces := by
  cases m with
  | others act => exact ⟨h.stages, h.log, h.count⟩
  | turn pace i =>
    rw [LoggedDesk.move]
    split
    · exact h
    · rename_i c stage hcall
      have ht := Stage.loggedTurn_traces (h.stages i c stage hcall) pace c d.desk.editor
      have hturn := Stage.turn_loggedTurn pace c (d.graphs i) stage d.desk.editor
      refine ⟨fun j c' stage' hj => ?_, fun u hu => ?_, ?_⟩
      · by_cases hji : j = i
        · subst hji
          rw [Desk.move, Desk.call_turn hcall] at hj
          cases hj
          dsimp only
          rw [Function.update_self, ← hturn]
          exact ht.stage
        · rw [Desk.move, Desk.call_turn_of_ne hji] at hj
          dsimp only
          rw [Function.update_of_ne hji]
          exact h.stages j c' stage' hj
      · rcases List.mem_append.1 hu with hearlier | hlater
        · exact h.log u hearlier
        · exact ht.log u hlater
      · have hset := Desk.awaiting_turn hcall pace
        have hnumbers : (d.desk.move (.turn pace i)).numbers =
            d.desk.numbers ++ (stage.turn pace c d.desk.editor).numbers := by
          rw [Desk.move, Desk.turn_eq hcall, Desk.numbers, List.filterMap_append]
          rfl
        have hearlier := h.count
        have hnow := ht.count
        rw [hturn] at hnow
        dsimp only
        rw [hnumbers, Desk.move, List.length_append, List.length_append]
        omega

private theorem Traces.moveAll (h : d.Traces) (moves : List Desk.Move) :
    (d.moveAll moves).Traces := by
  induction moves generalizing d with
  | nil => exact h
  | cons m moves ih => exact ih (h.move m)

/-- Calls take turns at a desk, at any pace, and others act on the editor in between: they may put
another workflow in place wherever a call waits.  Every prompt that was handed to the backend has been
answered or waits, and for each unit that was answered:

* Its prompt has the nodes of the workflow that was in place when its compilation began.
* Once the answer has been dealt with, the hooks run that the workflow in place has under the ids of
  these nodes, in their order; under an id, no place comes twice, and an id without a node is passed
  over.
* If the workflow in place is the compiled one, but for values of widgets, one round of its hooks runs,
  which comes to each of its nodes once, inside groups too.

In the workflow that was compiled and the one in place, as in all that are loaded, nodes have
different ids. -/
theorem run_submissions (e : Editor) (calls : List Call) (moves : List Desk.Move) :
    let d := (opening e calls).moveAll moves
    d.desk = (Desk.opening e calls).moveAll moves ∧
    d.desk.numbers.length = d.log.length + d.desk.awaiting ∧
    ∀ u ∈ d.log, Distinct u.graph → Distinct u.editor.graph →
      u.prompt.workflow.nodes.map (·.id) = u.graph.nodes.map (·.id) ∧
      Editor.conclude u.prompt u.answer u.editor = (do
        Editor.deal u.answer
        Editor.runUnder u.editor.graph (u.graph.nodes.map (·.id))
        Editor.redraw
        Editor.showQueue : EditorAct (Option Call)) u.editor ∧
      (∀ id places, placesUnder u.editor.graph id = .ok places → places.Nodup) ∧
      (skeleton u.editor.graph = skeleton u.graph →
        Editor.conclude u.prompt u.answer u.editor = (do
          Editor.deal u.answer
          Act.each (roundPlaces u.graph) Editor.runAfter
          Editor.redraw
          Editor.showQueue : EditorAct (Option Call)) u.editor ∧
        ∀ place s, siteAt? u.graph place = some s → (roundPlaces u.graph).count place = 1) := by
  intro d
  have htraces := (Traces.opening e calls).moveAll moves
  refine ⟨desk_moveAll _ moves, htraces.count, fun u hu hdistinct hplaced => ?_⟩
  have hprompt := htraces.log u hu hdistinct
  refine ⟨hprompt.ids, ?_, fun id places h => nodup_of_placesUnder hplaced h, fun hsame => ⟨?_, ?_⟩⟩
  · rw [← hprompt.ids]
    exact Editor.conclude_eq_runUnder hplaced u.prompt u.answer
  · exact Editor.conclude_eq_round hdistinct hsame hprompt u.answer
  · exact fun place s hs => count_roundPlaces hdistinct hprompt.places hs

/-- A workflow of one node whose widget moves to the next choice after each submission. -/
def picking (type : String) (choice : String) : Workflow where
  nodes := [
    { id := .number 1, type, title := none
      widgets := [
        { name := "pick", kind := "combo", value := .str choice,
          options := [("values", .arr [.str "a", .str "b", .str "c"])] },
        { name := ControlMode.widgetName, kind := "combo", value := .str "increment",
          options := [("serialize", .bool false)], afterQueued := some (.advance .own) }] }]

private theorem picking_distinct (type choice : String) : Distinct (picking type choice) := by
  refine ⟨List.nodup_singleton _, fun n hn group hgroup => ?_⟩
  cases List.mem_singleton.1 hn
  cases hgroup

/-- An editor with such a workflow; the backend takes its time. -/
def pickingEditor : Editor := { backend := .replying { ticks := 1 }, graph := picking "Pick" "a" }

/-- The call waits for the backend, and another workflow with a node of the same id is put in place
before the answer. -/
def displacing : List Desk.Move :=
  [.turn .yielding 0, .others fun e => { e with graph := picking "Choose" "a" }, .turn .yielding 0]

/-- The first of two units is answered undisturbed and its own hook runs.  During the second one the
workflow is replaced, and what runs is the hook of the other workflow. -/
theorem picking_submissions :
    let d := (opening pickingEditor [⟨.int 0, .int 2⟩]).moveAll
      (.turn .yielding 0 :: .turn .yielding 0 :: displacing)
    ∃ u v, d.log = [u, v] ∧ Distinct u.graph ∧ Distinct u.editor.graph ∧
      skeleton u.editor.graph = skeleton u.graph ∧
      Editor.conclude u.prompt u.answer u.editor = (do
        Editor.deal u.answer
        Act.each (roundPlaces u.graph) Editor.runAfter
        Editor.redraw
        Editor.showQueue : EditorAct (Option Call)) u.editor ∧
      Distinct v.graph ∧ Distinct v.editor.graph ∧ v.graph = picking "Pick" "b" ∧
      v.editor.graph = picking "Choose" "a" ∧
      Editor.conclude v.prompt v.answer v.editor = (do
        Editor.deal v.answer
        Editor.runUnder (picking "Choose" "a") [.number 1]
        Editor.redraw
        Editor.showQueue : EditorAct (Option Call)) v.editor ∧
      d.desk.editor.graph = picking "Choose" "b" := by
  intro d
  have h := (run_submissions pickingEditor [⟨.int 0, .int 2⟩]
    (.turn .yielding 0 :: .turn .yielding 0 :: displacing)).2.2
  have htwo : d.log.length = 2 := rfl
  have hlog : d.log = [d.log[0], d.log[1]] := rfl
  have hu := h d.log[0] (List.getElem_mem _) (picking_distinct _ _) (picking_distinct _ _)
  have hv := h d.log[1] (List.getElem_mem _) (picking_distinct _ _) (picking_distinct _ _)
  exact ⟨_, _, hlog, picking_distinct _ _, picking_distinct _ _, rfl, (hu.2.2.2 rfl).1,
    picking_distinct _ _, picking_distinct _ _, rfl, rfl, hv.2.1, rfl⟩

/-- The only unit is compiled from one workflow; the hook that then runs is that of another one, which
was never compiled. -/
theorem picking_advancesOther :
    let d := (opening pickingEditor [⟨.int 0, .int 1⟩]).moveAll (.turn .yielding 0 :: displacing)
    d.log.map (·.graph) = [picking "Pick" "a"] ∧
      d.log.map (·.editor.graph) = [picking "Choose" "a"] ∧
      d.desk.editor.graph = picking "Choose" "b" :=
  ⟨rfl, rfl, rfl⟩

end LoggedDesk

end NodeFlow
