import NodeFlow.Proofs.Outcome
import NodeFlow.Service
import Mathlib.Data.List.Induction

/-!
# What becomes of events

An event is carried through, or refused with its issues before anything has changed.  There are
three flaws that the editor does not see in time: a report on outputs that is no object, one on a
node whose id is taken for a numeral and is none, and a report on a failed run that is neither an
object nor absent.  The last of them stays behind, and while it does the state of the queue cannot
be shown; the next start of a run, and the next readable report, take it away.

Main results:

- Definition `Editor.Derails` and theorem `Editor.Derails.exec`: the events that go wrong half way,
  and that they do.
- Definition `Editor.Settles` and theorem `Editor.settles_of_onEvent`: all that an event can come to.
- Theorem `Editor.executionError_onEvent`: what an event leaves of the report on a failed run.
- Theorem `Editor.events_settle`: any run of events, each of them, and the queue after it.
-/

namespace NodeFlow

/-! ## Outcomes of the parts -/

/-- A value that is neither an object nor absent. -/
def Json.IsBare (v : Json) : Prop := v ≠ .null ∧ ∀ ms, v ≠ .obj ms

/-- A failure that the view may report when it is to show something. -/
def View.MayRaise (view : View) (x : Raise) : Prop :=
  view.silent = false ∧ ∃ trace entry, view.objects trace entry = some x

/-- The outcome of showing something. -/
def View.Allows (view : View) (r : Except Fault PUnit) : Prop :=
  r = .ok ⟨⟩ ∨ ∃ x, r = .error (.raised x) ∧ view.MayRaise x

private theorem Fault.ofIssues_eq_error {α : Type} {subject : String} {c : Checked α} {f : Fault}
    (h : Fault.ofIssues subject c = .error f) : f = .invalid subject c.issues := by
  unfold Fault.ofIssues Checked.toExcept at h
  cases hissues : c.issues with
  | nil =>
    rw [hissues] at h
    cases h
  | cons issue issues =>
    rw [hissues] at h
    cases h
    rfl

private theorem Executed.read_eq_error {v : Json} {f : Fault} (h : Executed.read v = .error f) :
    (∃ issues, f = .invalid "ExecutedDetail" issues) ∨
      (∀ ms, v ≠ .obj ms) ∧ f = .noPart ("'" ++ v.typeName ++ "' object has no attribute 'node'") := by
  cases v with
  | obj ms => exact .inl ⟨_, Fault.ofIssues_eq_error h⟩
  | null | bool | int | float | str | arr =>
    cases h
    exact .inr ⟨fun ms => by simp, rfl⟩

private theorem Executed.read_of_bare {v : Json} (h : ∀ ms, v ≠ .obj ms) : Executed.read v =
    .error (.noPart ("'" ++ v.typeName ++ "' object has no attribute 'node'")) := by
  cases v with
  | obj ms => exact absurd rfl (h ms)
  | null | bool | int | float | str | arr => rfl

/-- A lookup by the text of an id fails only if no node has that text for its id, and the text looks
like a numeral and is none. -/
theorem Graph.lookup?_name_eq_error_iff {γ : Type} {g : Graph γ} {s : String} {f : Fault} :
    g.lookup? (.str s) = .error f ↔
      g.at? (.name s) = none ∧ Text.looksNumeric s = true ∧ Fault.readWhole s = .error f := by
  cases hat : g.at? (.name s) with
  | some n => simp [lookup?, idOf?, hat]
  | none =>
    by_cases hlooks : Text.looksNumeric s = true
    · cases hread : Fault.readWhole s <;>
        simp [lookup?, idOf?, hat, otherSpelling?, hlooks, hread, Except.map, bind, Except.bind,
          pure, Except.pure]
    · simp [lookup?, idOf?, hat, otherSpelling?, hlooks, bind, Except.bind, pure, Except.pure]

namespace Editor

/-! ## What events do -/

/-- Showing something changes the outside alone. -/
theorem exec_display_allows (entry : Trace.Entry) (e : Editor) : ∃ r o,
    (display entry).exec e = (r, { e with outside := o }) ∧ e.view.Allows r := by
  unfold display
  rw [Act.exec_bind, Act.exec_get]
  dsimp only
  cases hsilent : e.view.silent with
  | true => exact ⟨.ok ⟨⟩, e.outside, rfl, .inl rfl⟩
  | false =>
    cases hobjects : e.view.objects e.outside.trace entry with
    | some x => exact ⟨.error (.raised x), e.outside, rfl, .inr ⟨x, rfl, hsilent, _, _, hobjects⟩⟩
    | none => exact ⟨.ok ⟨⟩, e.outside.record entry, rfl, .inl rfl⟩

/-- The editor when a run starts, as far as the outside is not concerned. -/
def started (e : Editor) : Editor := { e with running := none, executionError := none }

private theorem exec_onStart (e : Editor) : ∃ o,
    onStart.exec e = (.ok ⟨⟩, { e.started with outside := o }) := by
  have hnotes : ∀ (ns : List (Node Group)) (s : Editor), ∃ o,
      (Act.each ns fun n => outward (note (.executionStarted n.id))).exec s =
        (.ok ⟨⟩, { s with outside := o }) := by
    intro ns
    induction ns with
    | nil => exact fun s => ⟨s.outside, rfl⟩
    | cons n ns ih =>
      intro s
      exact ih { s with outside := s.outside.record (.executionStarted n.id) }
  exact hnotes (e.graph.nodes.filter (·.watchesStart)) e.started

private theorem exec_onRunning (node : Json) (e : Editor) : ∃ r o,
    (onRunning node).exec e =
        (r, { e with running := node.toOption.map Json.display, outside := o }) ∧
      e.view.Allows r :=
  exec_display_allows .redraw { e with running := node.toOption.map Json.display }

/-- The editor when a node has reported its outputs, as far as the outside is not concerned. -/
def reported (report : Executed) (e : Editor) : Editor :=
  { e with outputs :=
      e.outputs.set report.node.key (outputsAfter report (e.outputs.get? report.node.key)) }

private theorem exec_onOutput_of_unread {detail : Json} {f : Fault}
    (h : Executed.read detail = .error f)
    (e : Editor) : (onOutput detail).exec e = (.error f, e) := by
  rw [onOutput, Act.exec_bind, h]
  rfl

private theorem exec_onOutput_of_read {detail : Json} {report : Executed}
    (h : Executed.read detail = .ok report) (e : Editor) :
    (∃ f, e.graph.lookup? (.str report.node.key) = .error f ∧
      (onOutput detail).exec e = (.error f, e.reported report)) ∨
    (∃ found o, e.graph.lookup? (.str report.node.key) = .ok found ∧
      (onOutput detail).exec e = (.ok ⟨⟩, { e.reported report with outside := o })) := by
  cases hlookup : e.graph.lookup? (.str report.node.key) with
  | error f =>
    refine .inl ⟨f, rfl, ?_⟩
    simp [onOutput, Act.exec_bind, h, reported, hlookup]
  | ok found =>
    refine .inr ⟨found, ?_⟩
    cases found with
    | none =>
      refine ⟨e.outside, rfl, ?_⟩
      simp [onOutput, Act.exec_bind, h, reported, hlookup]
    | some n =>
      cases hwatches : n.watchesOutput with
      | true =>
        refine ⟨e.outside.record (.executed n.id (.obj (report.output.getD []))), rfl, ?_⟩
        simp only [onOutput, Act.exec_bind, h, Act.exec_lift, Act.exec_modify, Act.exec_get,
          hlookup, hwatches, if_true]
        rfl
      | false =>
        refine ⟨e.outside, rfl, ?_⟩
        simp [onOutput, Act.exec_bind, h, reported, hlookup, hwatches]

private theorem exec_onFailure_of_unread {detail : Json} {f : Fault}
    (h : failureReport detail = .error f)
    (e : Editor) : (onFailure detail).exec e = (.error f, e) := by
  rw [onFailure, Act.exec_bind, h]
  rfl

private theorem exec_onFailure_of_read {detail : Json} {report : Option ExecutionReport}
    (h : failureReport detail = .ok report) (e : Editor) : (∃ f, failureText report = .error f ∧
      (onFailure detail).exec e = (.error f, { e with executionError := report })) ∨
    (∃ text r o, failureText report = .ok text ∧ e.view.Allows r ∧
      (onFailure detail).exec e = (r, { e with executionError := report, outside := o })) := by
  have hexec : (onFailure detail).exec e =
      (Act.lift (failureText report) >>= fun text => showDialog text >>= fun _ => redraw).exec
        { e with executionError := report } := by
    rw [onFailure, Act.exec_bind, h]
    rfl
  rw [hexec, Act.exec_bind, Act.exec_lift]
  cases failureText report with
  | error f => exact .inl ⟨f, rfl, rfl⟩
  | ok text =>
    refine .inr ⟨text, ?_⟩
    obtain ⟨r, o, hdialog, hr⟩ :=
      exec_display_allows (.dialog (dialogText text)) { e with executionError := report }
    dsimp only
    rw [showDialog, Act.exec_bind, hdialog]
    rcases hr with rfl | ⟨x, rfl, hx⟩
    · obtain ⟨r', o', hredraw, hr'⟩ :=
        exec_display_allows .redraw { e with executionError := report, outside := o }
      exact ⟨r', o', rfl, hr', hredraw⟩
    · exact ⟨_, o, rfl, .inr ⟨x, rfl, hx⟩, rfl⟩

/-! ## Reports on failed runs -/

/-- The texts that fail are those about a report that was not read. -/
theorem failureReport_cases (detail : Json) :
    (∃ issues, failureReport detail = .error (.invalid "ExecutionErrorDetail" issues)) ∨
    (∃ report text, failureReport detail = .ok report ∧ failureText report = .ok text ∧
      ∀ v, report ≠ some (.other v)) ∨
    (detail.IsBare ∧ failureReport detail = .ok (some (.other detail)) ∧
      failureText (some (.other detail)) = .error
        (.noPart ("'" ++ detail.typeName ++ "' object has no attribute 'traceback'"))) := by
  cases detail with
  | null => exact .inr (.inl ⟨none, _, rfl, rfl, fun v => by simp⟩)
  | obj ms =>
    cases hread : Fault.ofIssues "ExecutionErrorDetail" (ExecutionError.check (.obj ms)) with
    | error f =>
      refine .inl ⟨(ExecutionError.check (.obj ms)).issues, ?_⟩
      rw [failureReport, ExecutionError.read, hread, Fault.ofIssues_eq_error hread]
      rfl
    | ok x =>
      refine .inr (.inl ⟨some (.known x), _, ?_, rfl, fun v => by simp⟩)
      rw [failureReport, ExecutionError.read, hread]
      rfl
  | bool | int | float | str | arr =>
    exact .inr (.inr ⟨⟨by simp, fun ms => by simp⟩, rfl, rfl⟩)

private theorem failureReport_of_isBare {v : Json} (h : v.IsBare) :
    failureReport v = .ok (some (.other v)) ∧ failureText (some (.other v)) = .error
      (.noPart ("'" ++ v.typeName ++ "' object has no attribute 'traceback'")) := by
  rcases h with ⟨hnull, hobj⟩
  cases v with
  | null => exact absurd rfl hnull
  | obj ms => exact absurd rfl (hobj ms)
  | bool | int | float | str | arr => exact ⟨rfl, rfl⟩

/-- A report is stored without having been read exactly if it is bare. -/
theorem failureReport_eq_other_iff {detail v : Json} :
    failureReport detail = .ok (some (.other v)) ↔ detail = v ∧ v.IsBare := by
  constructor
  · intro h
    rcases failureReport_cases detail with ⟨issues, hinvalid⟩ | ⟨report, text, hread, -, hother⟩ |
      ⟨hbare, hread, -⟩
    · rw [hinvalid] at h
      cases h
    · rw [hread] at h
      cases h
      exact absurd rfl (hother v)
    · rw [hread] at h
      cases h
      exact ⟨rfl, hbare⟩
  · rintro ⟨rfl, hbare⟩
    exact (failureReport_of_isBare hbare).1

/-! ## One event -/

/-- The events that go wrong half way: what they fail with, and the state they leave. -/
inductive Derails (e : Editor) : String → Json → Fault → Editor → Prop where
  /-- A report on outputs that is no object. -/
  | bareOutput {v : Json} (hbare : ∀ ms, v ≠ .obj ms) : Derails e "executed" v
      (.noPart ("'" ++ v.typeName ++ "' object has no attribute 'node'")) e
  /-- A report on the outputs of a node whose id looks like a numeral and is none. -/
  | unreadableNode {detail : Json} {report : Executed} {f : Fault}
      (hread : Executed.read detail = .ok report)
      (hfresh : e.graph.at? (.name report.node.key) = none)
      (hlooks : Text.looksNumeric report.node.key = true)
      (hnumeral : Fault.readWhole report.node.key = .error f) :
      Derails e "executed" detail f (e.reported report)
  /-- A report on a failed run that is neither an object nor absent. -/
  | bareFailure {v : Json} (hbare : v.IsBare) : Derails e "execution_error" v
      (.noPart ("'" ++ v.typeName ++ "' object has no attribute 'traceback'"))
      { e with executionError := some (.other v) }

/-- All that an event can come to, with the state it leaves. -/
inductive Settles (e : Editor) (name : String) (detail : Json) :
    Except Fault Bool → Editor → Prop where
  /-- It is carried through, or its name means nothing. -/
  | done (s : Editor) : Settles e name detail (.ok (handler? name).isSome) s
  /-- It is refused before anything has changed. -/
  | refused (subject : String) (issues : List Issue) :
      Settles e name detail (.error (.invalid subject issues)) e
  /-- It goes wrong half way. -/
  | derailed {f : Fault} {s : Editor} (h : Derails e name detail f s) :
      Settles e name detail (.error f) s
  /-- The view fails to show what it is to show. -/
  | objected {x : Raise} (s : Editor) (h : e.view.MayRaise x) :
      Settles e name detail (.error (.raised x)) s

private theorem exec_onEvent {name : String} {handle : Json → EditorAct PUnit}
    (h : handler? name = some handle) (detail : Json) (e : Editor) : (onEvent name detail).exec e =
      (((handle detail).exec e).1.map fun _ => true, ((handle detail).exec e).2) := by
  rw [onEvent, h, Act.exec_bind]
  rcases (handle detail).exec e with ⟨_ | _, s⟩ <;> rfl

private theorem exec_onEvent_of_ignored {name : String} (h : handler? name = none) (detail : Json)
    (e : Editor) : (onEvent name detail).exec e = (.ok false, e) := by
  rw [onEvent, h]
  rfl

/-- The names of events, and the name that means nothing. -/
theorem handler?_cases (name : String) :
    name = "execution_start" ∨ name = "executing" ∨ name = "executed" ∨ name = "execution_error" ∨
      handler? name = none := by
  unfold handler?
  split_ifs with hstart hrunning houtput hfailure
  · exact .inl hstart
  · exact .inr (.inl hrunning)
  · exact .inr (.inr (.inl houtput))
  · exact .inr (.inr (.inr (.inl hfailure)))
  · exact .inr (.inr (.inr (.inr rfl)))

/-- The editor when an event has informed it, as far as the outside is not concerned. -/
def informed (name : String) (detail : Json) (e : Editor) : Editor :=
  if name = "execution_start" then e.started
  else if name = "executing" then { e with running := detail.toOption.map Json.display }
  else if name = "executed" then
    (Executed.read detail).toOption.elim e fun report => e.reported report
  else if name = "execution_error" then
    (failureReport detail).toOption.elim e fun report => { e with executionError := report }
  else e

/-- An event that nothing handles leaves the editor alone. -/
theorem informed_of_ignored {name : String} (h : handler? name = none) (detail : Json)
    (e : Editor) : e.informed name detail = e := by
  unfold handler? at h
  unfold informed
  split_ifs at h ⊢
  rfl

/-- Whatever becomes of an event, this is what it leaves of the editor. -/
theorem exec_onEvent_informed (e : Editor) (name : String) (detail : Json) : ∃ o,
    ((onEvent name detail).exec e).2 = { e.informed name detail with outside := o } := by
  rcases handler?_cases name with rfl | rfl | rfl | rfl | hnone
  · obtain ⟨o, hexec⟩ := exec_onStart e
    rw [exec_onEvent rfl, hexec]
    exact ⟨o, rfl⟩
  · obtain ⟨r, o, hexec, -⟩ := exec_onRunning detail e
    rw [exec_onEvent rfl, hexec]
    exact ⟨o, rfl⟩
  · rw [exec_onEvent rfl]
    cases hread : Executed.read detail with
    | error f =>
      rw [exec_onOutput_of_unread hread]
      exact ⟨e.outside, by simp [informed, hread, Except.toOption]⟩
    | ok report =>
      rcases exec_onOutput_of_read hread e with ⟨f, -, hexec⟩ | ⟨found, o, -, hexec⟩
      · exact ⟨e.outside, by rw [hexec]; simp [informed, hread, Except.toOption, reported]⟩
      · exact ⟨o, by rw [hexec]; simp [informed, hread, Except.toOption]⟩
  · rw [exec_onEvent rfl]
    cases hread : failureReport detail with
    | error f =>
      rw [exec_onFailure_of_unread hread]
      exact ⟨e.outside, by simp [informed, hread, Except.toOption]⟩
    | ok report =>
      rcases exec_onFailure_of_read hread e with ⟨f, -, hexec⟩ | ⟨text, r, o, -, -, hexec⟩
      · exact ⟨e.outside, by rw [hexec]; simp [informed, hread, Except.toOption]⟩
      · exact ⟨o, by rw [hexec]; simp [informed, hread, Except.toOption]⟩
  · rw [exec_onEvent_of_ignored hnone, informed_of_ignored hnone]
    exact ⟨e.outside, rfl⟩

/-- An event whose handler does no more than show things at its end. -/
theorem settles_of_allows {e s : Editor} {name : String} {detail : Json} {r : Except Fault PUnit}
    (hname : (handler? name).isSome = true) (h : e.view.Allows r) :
    Settles e name detail (r.map fun _ => true) s := by
  rcases h with rfl | ⟨x, rfl, hx⟩
  · have hdone : Settles e name detail (.ok (handler? name).isSome) s := .done s
    rwa [hname] at hdone
  · exact .objected s hx

/-- Whatever the event, it is carried through, refused, derailed, or not shown. -/
theorem settles_of_onEvent (e : Editor) (name : String) (detail : Json) :
    Settles e name detail ((onEvent name detail).exec e).1 ((onEvent name detail).exec e).2 := by
  rcases handler?_cases name with rfl | rfl | rfl | rfl | hnone
  · obtain ⟨o, hexec⟩ := exec_onStart e
    rw [exec_onEvent rfl, hexec]
    exact .done _
  · obtain ⟨r, o, hexec, hr⟩ := exec_onRunning detail e
    rw [exec_onEvent rfl, hexec]
    exact settles_of_allows rfl hr
  · rw [exec_onEvent rfl]
    cases hread : Executed.read detail with
    | error f =>
      rw [exec_onOutput_of_unread hread]
      rcases Executed.read_eq_error hread with ⟨issues, rfl⟩ | ⟨hbare, rfl⟩
      · exact .refused _ _
      · exact .derailed (.bareOutput hbare)
    | ok report =>
      rcases exec_onOutput_of_read hread e with ⟨f, hlookup, hexec⟩ | ⟨found, o, -, hexec⟩
      · rw [hexec]
        obtain ⟨hfresh, hlooks, hnumeral⟩ := Graph.lookup?_name_eq_error_iff.1 hlookup
        exact .derailed (.unreadableNode hread hfresh hlooks hnumeral)
      · rw [hexec]
        exact .done _
  · rw [exec_onEvent rfl]
    rcases failureReport_cases detail with ⟨issues, hread⟩ | ⟨report, text, hread, htext, -⟩ |
      ⟨hbare, hread, htext⟩
    · rw [exec_onFailure_of_unread hread]
      exact .refused _ _
    · rcases exec_onFailure_of_read hread e with ⟨f, hf, -⟩ | ⟨_, r, o, -, hr, hexec⟩
      · rw [htext] at hf
        cases hf
      · rw [hexec]
        exact settles_of_allows rfl hr
    · rcases exec_onFailure_of_read hread e with ⟨f, hf, hexec⟩ | ⟨_, r, o, hf, -, -⟩
      · rw [htext] at hf
        cases hf
        rw [hexec]
        exact .derailed (.bareFailure hbare)
      · rw [htext] at hf
        cases hf
  · rw [exec_onEvent_of_ignored hnone]
    have hdone : Settles e name detail (.ok (handler? name).isSome) e := .done e
    rwa [hnone] at hdone

/-- What goes wrong half way does so, whatever else the editor holds. -/
theorem Derails.exec {e s : Editor} {name : String} {detail : Json} {f : Fault}
    (h : Derails e name detail f s) : (onEvent name detail).exec e = (.error f, s) := by
  cases h with
  | bareOutput hbare =>
    rw [exec_onEvent rfl, exec_onOutput_of_unread (Executed.read_of_bare hbare)]
    rfl
  | unreadableNode hread hfresh hlooks hnumeral =>
    have hlookup := Graph.lookup?_name_eq_error_iff.2 ⟨hfresh, hlooks, hnumeral⟩
    rw [exec_onEvent rfl]
    rcases exec_onOutput_of_read hread e with ⟨f', hf, hexec⟩ | ⟨found, o, hf, -⟩
    · rw [hlookup] at hf
      cases hf
      rw [hexec]
      rfl
    · rw [hlookup] at hf
      cases hf
  | bareFailure hbare =>
    obtain ⟨hread, htext⟩ := failureReport_of_isBare hbare
    rw [exec_onEvent rfl]
    rcases exec_onFailure_of_read hread e with ⟨f', hf, hexec⟩ | ⟨text, r, o, hf, -, -⟩
    · rw [htext] at hf
      cases hf
      rw [hexec]
      rfl
    · rw [htext] at hf
      cases hf

/-! ## Runs of events -/

/-- The editor after events, whatever becomes of each of them. -/
def afterEvents (events : List (String × Json)) (e : Editor) : Editor :=
  events.foldl (fun e x => ((onEvent x.1 x.2).exec e).2) e

/-- What is known of a failed run after an event. -/
def reportAfter (known : Option ExecutionReport) (event : String × Json) :
    Option ExecutionReport :=
  if event.1 = "execution_start" then none
  else if event.1 = "execution_error" then (failureReport event.2).toOption.getD known
  else known

/-- What an event leaves of the report on a failed run, whatever becomes of it. -/
theorem executionError_onEvent (e : Editor) (event : String × Json) :
    ((onEvent event.1 event.2).exec e).2.executionError = reportAfter e.executionError event := by
  obtain ⟨name, detail⟩ := event
  obtain ⟨o, hexec⟩ := exec_onEvent_informed e name detail
  rw [hexec]
  dsimp only
  rcases handler?_cases name with rfl | rfl | rfl | rfl | hnone
  · rfl
  · rfl
  · cases hread : Executed.read detail <;>
      simp [informed, reportAfter, hread, Except.toOption, reported]
  · cases hread : failureReport detail <;> simp [informed, reportAfter, hread, Except.toOption]
  · have hstart : name ≠ "execution_start" := by
      rintro rfl
      cases hnone
    have hfailure : name ≠ "execution_error" := by
      rintro rfl
      cases hnone
    rw [informed_of_ignored hnone, reportAfter, if_neg hstart, if_neg hfailure]

private theorem executionError_afterEvents (events : List (String × Json)) (e : Editor) :
    (afterEvents events e).executionError = events.foldl reportAfter e.executionError := by
  induction events generalizing e with
  | nil => rfl
  | cons event events ih =>
    have hrest := ih ((onEvent event.1 event.2).exec e).2
    rw [executionError_onEvent] at hrest
    exact hrest

/-- The last report on a failed run is none, or one that was read. -/
def ReportsKnown (e : Editor) : Prop := ∀ v, e.executionError ≠ some (.other v)

/-- An event that takes the last report on a failed run away: a run starts, or another report can be
stored. -/
def Replaces (event : String × Json) : Prop :=
  event.1 = "execution_start" ∨
    event.1 = "execution_error" ∧ ∃ report, failureReport event.2 = .ok report

/-- A report on a failed run that is neither an object nor absent is the last that counts. -/
def LeaveBare (events : List (String × Json)) (v : Json) : Prop :=
  ∃ front back, events = front ++ ("execution_error", v) :: back ∧ v.IsBare ∧
    ∀ event ∈ back, ¬ Replaces event

private theorem reportAfter_of_not_replaces {event : String × Json} (h : ¬ Replaces event)
    (known : Option ExecutionReport) : reportAfter known event = known := by
  unfold reportAfter
  split_ifs with hstart hfailure
  · exact absurd (.inl hstart) h
  · cases hread : failureReport event.2 with
    | error f => rfl
    | ok report => exact absurd (.inr ⟨hfailure, report, hread⟩) h
  · rfl

/-- An event that takes the last report away leaves one that was not read only if it is bare. -/
theorem reportAfter_eq_other_iff {event : String × Json} (h : Replaces event)
    {known : Option ExecutionReport} {v : Json} :
    reportAfter known event = some (.other v) ↔ event = ("execution_error", v) ∧ v.IsBare := by
  obtain ⟨name, detail⟩ := event
  rcases h with hstart | ⟨hfailure, report, hread⟩
  · cases hstart
    simp [reportAfter]
  · cases hfailure
    have hafter : reportAfter known ("execution_error", detail) = report := by
      dsimp only at hread
      simp [reportAfter, hread, Except.toOption]
    dsimp only at hread
    have hstored : report = some (.other v) ↔ failureReport detail = .ok (some (.other v)) := by
      rw [hread, Except.ok.injEq]
    rw [hafter, Prod.mk.injEq, hstored, failureReport_eq_other_iff]
    exact ⟨fun h => ⟨⟨rfl, h.1⟩, h.2⟩, fun h => ⟨h.1.2, h.2⟩⟩

private theorem replaces_of_isBare {v : Json} (h : v.IsBare) : Replaces ("execution_error", v) :=
  .inr ⟨rfl, _, (failureReport_of_isBare h).1⟩

/-- One more event is the bare report that counts, or leaves the one that counts so far. -/
theorem leaveBare_append_singleton_iff {events : List (String × Json)} {event : String × Json}
    {v : Json} : LeaveBare (events ++ [event]) v ↔
      event = ("execution_error", v) ∧ v.IsBare ∨ LeaveBare events v ∧ ¬ Replaces event := by
  constructor
  · rintro ⟨front, back, hsplit, hbare, hback⟩
    rcases List.eq_nil_or_concat back with rfl | ⟨back, last, rfl⟩
    · exact .inl ⟨List.singleton_inj.1 (List.append_inj_right' hsplit rfl), hbare⟩
    · rw [List.concat_eq_append, ← List.cons_append, ← List.append_assoc] at hsplit
      have hlast := List.singleton_inj.1 (List.append_inj_right' hsplit rfl)
      refine .inr ⟨⟨front, back, List.append_inj_left' hsplit rfl, hbare, fun x hx => ?_⟩, ?_⟩
      · exact hback x (by simp [hx])
      · rw [hlast]
        exact hback last (by simp)
  · rintro (⟨rfl, hbare⟩ | ⟨⟨front, back, rfl, hbare, hback⟩, hkeeps⟩)
    · exact ⟨events, [], rfl, hbare, by simp⟩
    · refine ⟨front, back ++ [event], by simp, hbare, fun x hx => ?_⟩
      rcases List.mem_append.1 hx with hx | hx
      · exact hback x hx
      · rwa [List.mem_singleton.1 hx]

/-- The run lemma: what is left of a run of events was not read exactly if the last report that
counts is bare. -/
theorem foldl_reportAfter_eq_other_iff {known : Option ExecutionReport} {v : Json}
    (hknown : known ≠ some (.other v)) (events : List (String × Json)) :
    events.foldl reportAfter known = some (.other v) ↔ LeaveBare events v := by
  induction events using List.reverseRecOn with
  | nil =>
    refine ⟨fun h => absurd h hknown, ?_⟩
    rintro ⟨front, back, hsplit, -⟩
    simp at hsplit
  | append_singleton events event ih =>
    rw [List.foldl_append, List.foldl_cons, List.foldl_nil, leaveBare_append_singleton_iff]
    by_cases hreplaces : Replaces event
    · rw [reportAfter_eq_other_iff hreplaces]
      exact ⟨.inl, fun h => h.resolve_right fun hkeeps => hkeeps.2 hreplaces⟩
    · rw [reportAfter_of_not_replaces hreplaces, ih]
      refine ⟨fun h => .inr ⟨h, hreplaces⟩, ?_⟩
      rintro (⟨rfl, hbare⟩ | ⟨hleft, -⟩)
      · exact absurd (replaces_of_isBare hbare) hreplaces
      · exact hleft

/-! ## The state of the queue -/

private theorem lastFailedRun_of_isBare {e : Editor} {v : Json} (h : v.IsBare)
    (he : e.executionError = some (.other v)) : e.lastFailedRun.issues ≠ [] := by
  have hcheck : (ExecutionError.check v).issues ≠ [] := by
    rcases h with ⟨hnull, hobj⟩
    cases v with
    | null => exact absurd rfl hnull
    | obj ms => exact absurd rfl (hobj ms)
    | bool | int | float | str | arr =>
      intro hnil
      cases hnil
  rw [lastFailedRun, he]
  simpa [ExecutionReport.error, Checked.under] using hcheck

/-- The state of the queue can be built if the last report was read. -/
theorem queueState_of_reportsKnown {e : Editor} (h : e.ReportsKnown) :
    ∃ q, e.queueState = .ok q := by
  unfold queueState lastFailedRun
  cases hreport : e.executionError with
  | none => exact ⟨_, rfl⟩
  | some report =>
    cases report with
    | known x => exact ⟨_, rfl⟩
    | other v => exact absurd hreport (h v)

/-- The state of the queue cannot be built while a bare report is the last one. -/
theorem queueState_of_isBare {e : Editor} {v : Json} (h : v.IsBare)
    (he : e.executionError = some (.other v)) : ∃ issues,
      e.queueState = .error (.invalid "QueueState" issues) := by
  cases hqueue : e.queueState with
  | error f => exact ⟨_, by rw [Fault.ofIssues_eq_error hqueue]⟩
  | ok q =>
    unfold queueState Fault.ofIssues at hqueue
    split at hqueue
    · rename_i state hissues
      have hnil := (Checked.toExcept_eq_ok.1 hissues).1
      exact absurd (List.append_eq_nil_iff.1 hnil).1 (lastFailedRun_of_isBare h he)
    · cases hqueue

private theorem exec_showQueue {e : Editor} {q : QueueState} (h : e.queueState = .ok q)
    (hdepth : q.depth ≤ Json.maxNesting) :
    Service.showQueue.exec e = (.ok (.shown (.obj q.members)), e) := by
  have hwrite : q.write = .ok q.members := if_pos hdepth
  simp [Service.showQueue, Act.exec_bind, h, hwrite]

/-- A run of events from a state whose last report on a failed run is none or was read.  The next
event is carried through, refused before anything has changed (which the service answers with the
number of issues), derailed by one of three flaws, or not shown by the view.  The last report is
none or was read, unless the last that counts is neither an object nor absent; exactly then the
state of the queue cannot be built, and otherwise it is shown unless it is nested too deep. -/
theorem events_settle {e : Editor} (hknown : e.ReportsKnown) (events : List (String × Json)) :
    (∀ name detail r s, (onEvent name detail).exec (afterEvents events e) = (r, s) →
      Settles (afterEvents events e) name detail r s ∧
        ∀ subject issues, r = .error (.invalid subject issues) →
          (Service.passEvent name detail).exec (afterEvents events e) =
            (.ok (.refused 422 (.str (Fault.issueSummary subject issues.length))), s)) ∧
    (∀ name detail f s, Derails (afterEvents events e) name detail f s →
      (onEvent name detail).exec (afterEvents events e) = (.error f, s)) ∧
    ((afterEvents events e).ReportsKnown ↔ ¬ ∃ v, LeaveBare events v) ∧
    ((afterEvents events e).ReportsKnown ↔ ∃ q, (afterEvents events e).queueState = .ok q) ∧
    ∀ q, (afterEvents events e).queueState = .ok q → q.depth ≤ Json.maxNesting →
      Service.showQueue.exec (afterEvents events e) =
        (.ok (.shown (.obj q.members)), afterEvents events e) := by
  have hbare : ∀ v, (afterEvents events e).executionError = some (.other v) ↔
      LeaveBare events v := by
    intro v
    rw [executionError_afterEvents]
    exact foldl_reportAfter_eq_other_iff (hknown v) events
  have hreports : (afterEvents events e).ReportsKnown ↔ ¬ ∃ v, LeaveBare events v := by
    rw [not_exists]
    exact forall_congr' fun v => not_congr (hbare v)
  refine ⟨?_, fun _ _ _ _ h => h.exec, hreports, ⟨queueState_of_reportsKnown, ?_⟩,
    fun q hq hdepth => exec_showQueue hq hdepth⟩
  · intro name detail r s hexec
    have hsettles := settles_of_onEvent (afterEvents events e) name detail
    rw [hexec] at hsettles
    refine ⟨hsettles, ?_⟩
    rintro subject issues rfl
    rw [Service.passEvent, Act.exec_bind, Act.exec_attempt, hexec]
    rfl
  · rintro ⟨q, hq⟩ v hv
    obtain ⟨front, back, -, hv', -⟩ := (hbare v).1 hv
    obtain ⟨issues, hfails⟩ := queueState_of_isBare hv' hv
    rw [hfails] at hq
    cases hq

/-- A text as the report on a failed run hides the queue until the next run starts. -/
theorem boom_settles : ReportsKnown {} ∧
    ¬ (afterEvents [("executing", .int 3), ("execution_error", .str "boom")] {}).ReportsKnown ∧
    ∃ q, (afterEvents [("execution_error", .str "boom"), ("execution_start", .null)] {}).queueState =
      .ok q := by
  have hnone : ReportsKnown {} := fun v h => by cases h
  refine ⟨hnone, ?_, ?_⟩
  · rw [(events_settle hnone _).2.2.1, not_not]
    exact ⟨.str "boom", [("executing", .int 3)], [], rfl, ⟨by simp, fun ms => by simp⟩, by simp⟩
  · obtain ⟨-, -, hreports, hqueue, -⟩ := events_settle hnone
      [("execution_error", .str "boom"), ("execution_start", .null)]
    refine hqueue.1 (hreports.2 ?_)
    rintro ⟨v, front, back, hsplit, -, hback⟩
    -- the start of a run is the last of the two, so nothing that counts comes after it
    cases front with
    | nil =>
      cases hsplit
      exact hback ("execution_start", .null) (by simp) (.inl rfl)
    | cons x front =>
      rw [List.cons_append, List.cons.injEq] at hsplit
      cases front with
      | nil => simp at hsplit
      | cons y front => simp at hsplit

/-- A text as the report on a failed run is kept, though the event fails with something else than
issues; after it the state of the queue cannot be built. -/
theorem boom_stays :
    (onEvent "execution_error" (.str "boom")).exec {} =
      (.error (.noPart "'str' object has no attribute 'traceback'"),
        { executionError := some (.other (.str "boom")) }) ∧
    Editor.queueState { executionError := some (.other (.str "boom")) } =
      .error (.invalid "QueueState" [⟨[.field "last_execution_error"], "model_type",
        "Input should be a valid dictionary or instance of ExecutionErrorDetail"⟩]) :=
  ⟨rfl, rfl⟩

end Editor

end NodeFlow
