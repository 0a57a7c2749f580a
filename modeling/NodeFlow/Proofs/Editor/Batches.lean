import NodeFlow.Proofs.Editor.SingleFlight
import NodeFlow.Proofs.Editor.Units

/-!
# Batches

Each unit of a batch compiles the state that the unit before it has left.  However calls take turns and
whatever the backend answers, the prompts that it is handed are those of the states after no round of
hooks, after one, after two and so on.

Main results:

- Structure `Editor.Repeats`: what such a run relies on.
- Structure `Editor.Tracks`: an editor after so many submissions.
- Definition `Stage.Relies`: what a call in the middle of a unit relies on.
- Theorem `Stage.turn_tells`: one turn of a working call.
- Theorem `Desk.run_rounds`: whole runs.
-/

namespace NodeFlow

open Workflow Fault

/-! ## Submissions, one after the other -/

namespace Editor

/-- What a run of at most so many submissions relies on.  The graph compiles in each state that a unit
finds; the hooks that replace values have counters of their own; the view shows everything, and the
backend leaves the graph alone. -/
structure Repeats (e : Editor) (K : Nat → Prop) (prompts : Nat → Prompt) (bound : Nat) : Prop where
  distinct : Distinct e.graph
  counts : AllWidgets (Widget.CountsIn K) e.graph
  apart : AllWidgets (Widget.SendsApart K) e.graph
  shows : e.view.Shows
  sound : e.backend.IsSound
  compiles : ∀ n ≤ bound, (compile.exec (e.rounds n)).1 = .ok (prompts n)

/-- What has been handed over after submissions with the given numbers. -/
def sentBy (e : Editor) (prompts : Nat → Prompt) (numbers : List Int) : List Trace.Entry :=
  e.outside.submissions ++
    (numbers.mapIdx fun i number => e.backend.handed i number (prompts i)).flatten

/-- After submissions with the given numbers, the editor agrees with a state in what hooks read. -/
structure Tracks (e : Editor) (K : Nat → Prop) (prompts : Nat → Prompt) (numbers : List Int)
    (t u : Editor) : Prop where
  echoes : u.Echoes K (e.sentBy prompts numbers) t
  backend : e.backend.Continues numbers.length u.backend
  objects : u.view.objects = e.view.objects

variable {e : Editor} {K : Nat → Prop} {prompts : Nat → Prompt} {bound : Nat} {numbers : List Int}
  {t u v : Editor}

private theorem sentBy_concat (e : Editor) (prompts : Nat → Prompt) (numbers : List Int)
    (number : Int) : e.sentBy prompts (numbers ++ [number]) = e.sentBy prompts numbers ++
      e.backend.handed numbers.length number (prompts numbers.length) := by
  simp [sentBy, List.mapIdx_append]

private theorem Tracks.of_still (h : e.Tracks K prompts numbers t u) (hstill : Still u v) :
    e.Tracks K prompts numbers t v :=
  ⟨h.echoes.of_sends hstill.sends, by rw [hstill.backend]; exact h.backend,
    hstill.objects.trans h.objects⟩

private theorem Tracks.shows (h : e.Tracks K prompts numbers t u) (hview : e.view.Shows) :
    u.view.Shows := by
  unfold View.Shows
  rw [h.objects]
  exact hview

namespace Repeats

private theorem distinct_rounds (h : e.Repeats K prompts bound) (n : Nat) :
    Distinct (e.rounds n).graph :=
  distinct_of_skeleton_eq (skeleton_rounds h.distinct n) h.distinct

private theorem distinct_prepared (h : e.Repeats K prompts bound) (n : Nat) :
    Distinct (e.rounds n).prepared.graph :=
  distinct_of_skeleton_eq (skeleton_prepared (h.distinct_rounds n)) (h.distinct_rounds n)

/-- The state after a round compiles. -/
theorem exists_compile (h : e.Repeats K prompts bound) {n : Nat} (hn : n ≤ bound) :
    ∃ e', compile.exec (e.rounds n) = (.ok (prompts n), e') :=
  ⟨_, Prod.ext (h.compiles n hn) rfl⟩

/-- The document of a prompt has the nodes of the state that was compiled. -/
theorem ids_workflow (h : e.Repeats K prompts bound) {n : Nat} (hn : n ≤ bound) :
    (prompts n).workflow.nodes.map (·.id) = (e.rounds n).prepared.graph.nodes.map (·.id) := by
  rcases h.exists_compile hn with ⟨e', hcompile⟩
  rcases exec_compile_eq_ok_iff.1 hcompile with ⟨order, prepared, output, horder, hprepare, -, hp⟩
  rw [prepared_eq horder hprepare, hp]
  exact ids_save prepared.graph

/-- What is inside the nodes of a state that has been prepared can be ordered. -/
theorem exists_places (h : e.Repeats K prompts bound) {n : Nat} (hn : n ≤ bound) :
    ∀ m ∈ (e.rounds n).prepared.graph.nodes, ∃ hooked, hookPlaces m = .ok hooked := by
  rcases h.exists_compile hn with ⟨e', hcompile⟩
  rcases exec_compile_eq_ok_iff.1 hcompile with ⟨order, prepared, output, horder, hprepare, -, -⟩
  have hdistinct := h.distinct_rounds n
  have hskeleton := skeleton_prepared hdistinct
  intro m hm
  obtain ⟨m', hm', hsame⟩ : ∃ m' ∈ (e.rounds n).graph.nodes, m'.bare.hollow = m.bare.hollow := by
    have hmem : m.bare.hollow ∈ (skeleton (e.rounds n).prepared.graph).nodes :=
      List.mem_map_of_mem (List.mem_map_of_mem hm)
    rw [hskeleton] at hmem
    rcases List.mem_map.1 hmem with ⟨_, hbare, hsame⟩
    rcases List.mem_map.1 hbare with ⟨m', hm', rfl⟩
    exact ⟨m', hm', hsame⟩
  rcases exists_places_of_prepare hdistinct horder rfl hprepare hm' with ⟨hooked, _, hhooked, -⟩
  exact ⟨hooked, by rw [← hookPlaces_hollow, ← hsame, hookPlaces_hollow, hhooked]⟩

/-- A unit compiles the state that the unit before it has left. -/
theorem compile_ensures (h : e.Repeats K prompts bound) (hbound : numbers.length ≤ bound)
    (hu : e.Tracks K prompts numbers (e.rounds numbers.length) u) :
    (compile u).Ensures still fun r v => r = .ok (prompts numbers.length) ∧
      e.Tracks K prompts numbers (e.rounds numbers.length).prepared v := by
  rcases h.exists_compile hbound with ⟨e', hcompile⟩
  have hskeleton := skeleton_rounds h.distinct numbers.length
  refine (Editor.compile_ensures (h.distinct_rounds _)
    (allWidgets_of_skeleton_eq Widget.sendsApart_bare hskeleton h.apart) hcompile hu.echoes).imp ?_
  rintro r v ⟨hr, hechoes, hbackend, hobjects⟩
  exact ⟨hr, hechoes, by rw [hbackend]; exact hu.backend, hobjects.trans hu.objects⟩

/-- The prompt of a unit is handed over. -/
theorem submitTo_ensures (h : e.Repeats K prompts bound) (number : Int)
    (hu : e.Tracks K prompts numbers t u) :
    (submitTo number (prompts numbers.length) u).Ensures still fun r v => FailsOpenly r ∧
      e.Tracks K prompts (numbers ++ [number]) t v := by
  refine (Editor.submitTo_ensures h.sound hu.backend hu.echoes number _).imp ?_
  rintro r v ⟨hr, hechoes, hbackend, hobjects⟩
  refine ⟨hr, ?_, ?_, hobjects.trans hu.objects⟩
  · rw [sentBy_concat]
    exact hechoes
  · simpa using hbackend

/-- What follows the answer leaves the state after one more round. -/
theorem conclude_eq (h : e.Repeats K prompts bound) (hbound : numbers.length ≤ bound) {number : Int}
    (hu : e.Tracks K prompts (numbers ++ [number]) (e.rounds numbers.length).prepared u)
    {answer : Except Fault QueueResponse} (hanswer : FailsOpenly answer) :
    ∃ v, conclude (prompts numbers.length) answer u = showQueue v ∧
      e.Tracks K prompts (numbers ++ [number]) (e.rounds (numbers ++ [number]).length) v := by
  rcases Editor.conclude_eq (h.distinct_prepared _) (h.exists_places hbound) (h.ids_workflow hbound)
    hu.echoes (hu.shows h.shows) hanswer with ⟨v, hconclude, hechoes, hbackend, hobjects⟩
  refine ⟨v, hconclude, ?_, by rw [hbackend]; exact hu.backend, hobjects.trans hu.objects⟩
  rw [List.length_append, List.length_singleton]
  exact hechoes

end Repeats

end Editor

open Editor

/-! ## Turns -/

/-- What a course ensures with its waits it ensures at every pace. -/
theorem Pace.ensures_course {α : Type} {D : Drift Editor} {Q : Except Fault α → Editor → Prop}
    {c : Course Editor α} (h : c.Ensures D Q) (pace : Pace) : (pace.course c).Ensures D Q := by
  cases pace with
  | yielding => exact h
  | hurried => exact h.hurried

namespace Stage

/-- The call is in a unit whose last hooks have not run yet. -/
def isUnsettled : Stage → Bool
  | compiling .. => true
  | submitting .. => true
  | _ => false

/-- What a call in the middle of a unit relies on, after submissions with the given numbers: if others
leave the graph alone, the unit goes on as it should. -/
def Relies (e : Editor) (K : Nat → Prop) (prompts : Nat → Prompt) (numbers : List Int) (u : Editor) :
    Stage → Prop
  | compiling _ _ rest => ∀ v, Still u v → (rest v).Ensures still fun r w =>
      r = .ok (prompts numbers.length) ∧
        e.Tracks K prompts numbers (e.rounds numbers.length).prepared w
  | submitting number _ p rest => ∃ earlier, numbers = earlier ++ [number] ∧
      p = prompts earlier.length ∧ ∀ v, Still u v → (rest v).Ensures still fun r w =>
        FailsOpenly r ∧ e.Tracks K prompts numbers (e.rounds earlier.length).prepared w
  | showing _ _ _ rest => ∀ v, (rest v).Within still v
  | _ => True

variable {e : Editor} {K : Nat → Prop} {prompts : Nat → Prompt} {bound : Nat} {numbers : List Int}
  {u v : Editor} {stage : Stage}

private theorem Relies.of_still (h : stage.Relies e K prompts numbers u) (hstill : Still u v) :
    stage.Relies e K prompts numbers v := by
  cases stage with
  | compiling number left rest => exact fun w hw => h w (still.trans hstill hw)
  | submitting number left p rest =>
    rcases h with ⟨earlier, hnumbers, hp, hrest⟩
    exact ⟨earlier, hnumbers, hp, fun w hw => hrest w (still.trans hstill hw)⟩
  | showing => exact h
  | _ => trivial

private theorem relies_of_not_isWorking (h : stage.isWorking = false) :
    stage.Relies e K prompts numbers u := by
  cases stage <;> trivial

private theorem not_isUnsettled_of_not_isWorking (h : stage.isWorking = false) :
    stage.isUnsettled = false := by
  cases stage <;> first | rfl | cases h

end Stage

/-- The numbers with which the backend is called in a turn. -/
def Turn.numbers (t : Turn) : List Int := t.events.filterMap QueueEvent.number?

/-- A turn after submissions with the given numbers leads to where it should, as long as there are not
too many submissions. -/
def Turn.Tells (e : Editor) (K : Nat → Prop) (prompts : Nat → Prompt) (bound : Nat)
    (numbers : List Int) (t : Turn) : Prop :=
  (numbers ++ t.numbers).length ≤ bound →
    (t.stage.isUnsettled = false → e.Tracks K prompts (numbers ++ t.numbers)
      (e.rounds (numbers ++ t.numbers).length) t.editor) ∧
    t.stage.Relies e K prompts (numbers ++ t.numbers) t.editor

namespace Turn

variable {e : Editor} {K : Nat → Prop} {prompts : Nat → Prompt} {bound : Nat} {numbers : List Int}
  {u : Editor} {t : Turn}

private theorem Tells.after {events : List QueueEvent}
    (h : t.Tells e K prompts bound (numbers ++ events.filterMap QueueEvent.number?)) :
    (t.after events).Tells e K prompts bound numbers := by
  have hnumbers : numbers ++ (t.after events).numbers =
      numbers ++ events.filterMap QueueEvent.number? ++ t.numbers := by
    simp [Turn.numbers, Turn.after]
  unfold Tells
  rw [hnumbers]
  exact h

private theorem Tells.after_of_eq_nil {events : List QueueEvent}
    (hevents : events.filterMap QueueEvent.number? = []) (h : t.Tells e K prompts bound numbers) :
    (t.after events).Tells e K prompts bound numbers :=
  .after (by rwa [hevents, List.append_nil])

/-- A turn that ends between two units. -/
theorem tells_of_tracks {stage : Stage} {events : List QueueEvent}
    (hevents : events.filterMap QueueEvent.number? = [])
    (hrelies : stage.Relies e K prompts numbers u)
    (hu : e.Tracks K prompts numbers (e.rounds numbers.length) u) :
    Turn.Tells e K prompts bound numbers ⟨stage, u, events⟩ := by
  have hnumbers : numbers ++ Turn.numbers ⟨stage, u, events⟩ = numbers := by
    simp [Turn.numbers, hevents]
  unfold Tells
  rw [hnumbers]
  exact fun _ => ⟨fun _ => hu, hrelies⟩

/-- A turn that ends in the middle of a unit. -/
theorem tells_of_isUnsettled {stage : Stage} (hstage : stage.isUnsettled = true)
    (hrelies : stage.Relies e K prompts numbers u) :
    Turn.Tells e K prompts bound numbers ⟨stage, u, []⟩ := by
  unfold Tells
  rw [show numbers ++ Turn.numbers ⟨stage, u, []⟩ = numbers from List.append_nil numbers]
  refine fun _ => ⟨fun hsettled => ?_, hrelies⟩
  rw [hstage] at hsettled
  cases hsettled

end Turn

namespace Editor

variable {e : Editor} {K : Nat → Prop} {prompts : Nat → Prompt} {bound : Nat} {numbers : List Int}
  {u : Editor} {next : Editor → Turn}

section Unit

variable (hnext : ∀ v, e.Tracks K prompts numbers (e.rounds numbers.length) v →
  (next v).Tells e K prompts bound numbers)

include hnext

private theorem close_tells (isFine : Bool)
    (hu : e.Tracks K prompts numbers (e.rounds numbers.length) u) :
    (close next isFine u).Tells e K prompts bound numbers := by
  unfold close
  split
  · exact .after_of_eq_nil rfl (hnext u hu)
  · exact Turn.tells_of_tracks rfl trivial hu

private theorem oblige_tells (c : Call) (isFine : Bool)
    (hu : e.Tracks K prompts numbers (e.rounds numbers.length) u) :
    (oblige c next isFine u).Tells e K prompts bound numbers := by
  unfold oblige
  split
  · exact close_tells hnext false hu
  · rename_i r hr
    have hjoined : Still u (u.join r) := ⟨rfl, rfl, rfl, rfl, rfl, rfl, rfl, rfl⟩
    exact .after_of_eq_nil rfl
      (close_tells hnext _ ((hu.of_still hjoined).of_still ((display_still rfl).exec _)))

private theorem shown_tells {number : Int} {left : Nat} {isAccepted : Bool}
    {c : Course Editor (Option Call)} (hc : c.Within still u)
    (hu : e.Tracks K prompts numbers (e.rounds numbers.length) u) :
    (shown number left next isAccepted c).Tells e K prompts bound numbers := by
  unfold shown
  split
  · exact Turn.tells_of_tracks rfl hc.2 (hu.of_still hc.1)
  · exact close_tells hnext false (hu.of_still hc)
  · exact close_tells hnext _ (hu.of_still hc)
  · exact oblige_tells hnext _ _ (hu.of_still hc)

end Unit

variable (h : e.Repeats K prompts bound)

include h

private theorem answered_tells (pace : Pace) {number : Int} {left : Nat}
    (hbound : numbers.length ≤ bound)
    (hnext : ∀ v, e.Tracks K prompts (numbers ++ [number]) (e.rounds (numbers ++ [number]).length) v →
      (next v).Tells e K prompts bound (numbers ++ [number]))
    {c : Course Editor QueueResponse} (hc : c.Ensures still fun r w => FailsOpenly r ∧
      e.Tracks K prompts (numbers ++ [number]) (e.rounds numbers.length).prepared w) :
    (answered pace number left next (prompts numbers.length) c).Tells e K prompts bound
      (numbers ++ [number]) := by
  unfold answered
  split
  · exact Turn.tells_of_isUnsettled rfl ⟨numbers, rfl, rfl, hc⟩
  · rename_i answer u
    rcases hc with ⟨hanswer, hu⟩
    rcases h.conclude_eq hbound hu hanswer with ⟨v, hconclude, hv⟩
    rw [hconclude]
    exact shown_tells hnext (pace.within_course (showQueue_still v)) hv

private theorem compiled_tells (pace : Pace) {number : Int} {left : Nat}
    (hbound : numbers.length ≤ bound)
    (hnext : ∀ v, e.Tracks K prompts (numbers ++ [number]) (e.rounds (numbers ++ [number]).length) v →
      (next v).Tells e K prompts bound (numbers ++ [number]))
    {c : Course Editor Prompt} (hc : c.Ensures still fun r w => r = .ok (prompts numbers.length) ∧
      e.Tracks K prompts numbers (e.rounds numbers.length).prepared w) :
    (compiled pace number left next c).Tells e K prompts bound numbers := by
  unfold compiled
  split
  · exact Turn.tells_of_isUnsettled rfl hc
  · rcases hc with ⟨hr, -⟩
    cases hr
  · rcases hc with ⟨hr, hu⟩
    cases hr
    exact Turn.Tells.after (answered_tells h pace hbound hnext
      (pace.ensures_course (h.submitTo_ensures number hu)))

/-- So many units, one after the other. -/
theorem units_tells (pace : Pace) (number : Int) (left : Nat)
    (hu : e.Tracks K prompts numbers (e.rounds numbers.length) u) :
    (units pace number left u).Tells e K prompts bound numbers := by
  induction left generalizing numbers u with
  | zero => exact Turn.tells_of_tracks rfl trivial hu
  | succ left ih =>
    intro hbound
    have hearlier : numbers.length ≤ bound := by
      rw [List.length_append] at hbound
      omega
    exact compiled_tells h pace hearlier (fun v hv => ih hv)
      (pace.ensures_course (h.compile_ensures hearlier hu)) hbound

end Editor

namespace Stage

variable {e : Editor} {K : Nat → Prop} {prompts : Nat → Prompt} {bound : Nat} {numbers : List Int}
  {u : Editor}

/-- A call that begins touches nothing but the queue. -/
theorem turn_entering_still (pace : Pace) (c : Call) (u : Editor) :
    (entering.turn pace c u).numbers = [] ∧ (entering.turn pace c u).stage.isUnsettled = false ∧
      (∀ e K prompts numbers v, (entering.turn pace c u).stage.Relies e K prompts numbers v) ∧
      Still u (entering.turn pace c u).editor := by
  have hjoined : ∀ r, Still u (u.join r) := fun r => ⟨rfl, rfl, rfl, rfl, rfl, rfl, rfl, rfl⟩
  have hopened : ∀ r, Still u { u.join r with draining := true, nodeErrors := none } :=
    fun r => ⟨rfl, rfl, rfl, rfl, rfl, rfl, rfl, rfl⟩
  rw [turn, enter]
  split
  · exact ⟨rfl, rfl, fun _ _ _ _ _ => trivial, still.refl u⟩
  · rename_i r hr
    dsimp only
    split
    · exact ⟨rfl, rfl, fun _ _ _ _ _ => trivial, hjoined r⟩
    · exact ⟨rfl, rfl, fun _ _ _ _ _ => trivial, hopened r⟩

/-- A turn of a working call. -/
theorem turn_tells (h : e.Repeats K prompts bound) {stage : Stage} (hworking : stage.isWorking = true)
    (hrelies : stage.Relies e K prompts numbers u)
    (hu : stage.isUnsettled = false → e.Tracks K prompts numbers (e.rounds numbers.length) u)
    (pace : Pace) (c : Call) : (stage.turn pace c u).Tells e K prompts bound numbers := by
  have hstill : Still u u := still.refl u
  cases stage with
  | entering => cases hworking
  | returned failure => cases hworking
  | choosing =>
    rw [turn, choose]
    split
    · exact Turn.tells_of_tracks rfl trivial (((hu rfl).of_still (v := { u with draining := false })
        ⟨rfl, rfl, rfl, rfl, rfl, rfl, rfl, rfl⟩).of_still ((display_still rfl).exec _))
    · rename_i r rest hpending
      exact .after_of_eq_nil rfl (units_tells h pace r.number _ ((hu rfl).of_still
        ⟨rfl, rfl, rfl, rfl, rfl, rfl, rfl, rfl⟩))
  | compiling number left rest =>
    intro hbound
    have hearlier : numbers.length ≤ bound := by
      rw [List.length_append] at hbound
      omega
    exact compiled_tells h pace hearlier (fun v hv => units_tells h pace number left hv)
      (pace.ensures_course (hrelies u hstill)) hbound
  | submitting number left p rest =>
    rcases hrelies with ⟨earlier, rfl, rfl, hrest⟩
    intro hbound
    have hearlier : earlier.length ≤ bound := by
      rw [List.length_append, List.length_append] at hbound
      omega
    exact answered_tells h pace hearlier (fun v hv => units_tells h pace number left hv)
      (pace.ensures_course (hrest u hstill)) hbound
  | showing number left isAccepted rest =>
    exact shown_tells (fun v hv => units_tells h pace number left hv)
      (pace.within_course (hrelies u)) (hu rfl)

end Stage

/-! ## Desks -/

namespace Desk

variable {e : Editor} {K : Nat → Prop} {prompts : Nat → Prompt} {bound : Nat} {d : Desk}

/-- The numbers with which the backend has been called. -/
def numbers (d : Desk) : List Int := d.events.filterMap QueueEvent.number?

/-- As long as there have not been too many submissions, a desk where no unit is unsettled stands at the
state after as many rounds as there were submissions, and units go on as they should. -/
def Tells (e : Editor) (K : Nat → Prop) (prompts : Nat → Prompt) (bound : Nat) (d : Desk) : Prop :=
  d.numbers.length ≤ bound →
    ((∀ call ∈ d.calls, call.2.isUnsettled = false) →
      e.Tracks K prompts d.numbers (e.rounds d.numbers.length) d.editor) ∧
    ∀ call ∈ d.calls, call.2.Relies e K prompts d.numbers d.editor

private theorem Tells.opening (h : e.Repeats K prompts bound) (calls : List Call) :
    (opening e calls).Tells e K prompts bound := by
  refine fun _ => ⟨fun _ => ⟨⟨rfl, rfl, h.counts, ⟨.refl _, ?_⟩⟩, .refl _, rfl⟩, ?_⟩
  · simp [Desk.opening, numbers, sentBy]
  · intro call hcall
    rcases List.mem_map.1 hcall with ⟨c, -, rfl⟩
    trivial

section Turn

variable {c : Call} {stage : Stage} {i : Nat}

private theorem numbers_turn (hcall : d.calls[i]? = some (c, stage)) (pace : Pace) :
    (d.turn pace i).numbers = d.numbers ++ (stage.turn pace c d.editor).numbers := by
  rw [turn_eq hcall, numbers, List.filterMap_append]
  rfl

private theorem editor_turn (hcall : d.calls[i]? = some (c, stage)) (pace : Pace) :
    (d.turn pace i).editor = (stage.turn pace c d.editor).editor := by
  rw [turn_eq hcall]

/-- A turn of the call that works, while the others rest, keeps telling. -/
theorem Tells.turn_working (h : e.Repeats K prompts bound) (hd : d.Tells e K prompts bound)
    {start : Editor} {past : List Drain} {present : Drain}
    (hbusy : d.Busy start past i stage present) (hworking : stage.isWorking = true) (pace : Pace) :
    (d.turn pace i).Tells e K prompts bound := by
  have hcall := hbusy.call
  intro hbound
  rw [numbers_turn hcall] at hbound ⊢
  rw [editor_turn hcall]
  have hearlier : d.numbers.length ≤ bound := by
    rw [List.length_append] at hbound
    omega
  rcases hd hearlier with ⟨hsettled, hrelies⟩
  have hall : stage.isUnsettled = false → ∀ call ∈ d.calls, call.2.isUnsettled = false :=
    fun hquiet => forall_calls (P := fun call => call.2.isUnsettled = false) hcall hquiet
      fun j call hj hne => Stage.not_isUnsettled_of_not_isWorking (hbusy.quiet j call hj hne)
  rcases Stage.turn_tells h hworking (hrelies _ (List.mem_of_getElem? hcall))
    (fun hquiet => hsettled (hall hquiet)) pace present.opener hbound with ⟨hsettled', hrelies'⟩
  refine ⟨fun hall => hsettled' (hall _ (List.mem_of_getElem? (call_turn hcall pace))), ?_⟩
  exact forall_calls_turn hcall pace hrelies' fun j call hj hne =>
    Stage.relies_of_not_isWorking (hbusy.quiet j call hj hne)

/-- A call that begins keeps telling: it changes nothing that matters to the others. -/
theorem Tells.turn_entering (hd : d.Tells e K prompts bound)
    (hcall : d.calls[i]? = some (c, .entering)) (pace : Pace) :
    (d.turn pace i).Tells e K prompts bound := by
  rcases Stage.turn_entering_still pace c d.editor with ⟨hnone, hquiet, hrelies', hstill⟩
  intro hbound
  rw [numbers_turn hcall, hnone, List.append_nil] at hbound ⊢
  rcases hd hbound with ⟨hsettled, hrelies⟩
  rw [editor_turn hcall]
  constructor
  · intro hall
    refine (hsettled ?_).of_still hstill
    refine forall_calls (P := fun call => call.2.isUnsettled = false) hcall rfl fun j call hj hne => ?_
    exact hall call (List.mem_of_getElem? (by rwa [call_turn_of_ne hne]))
  · exact forall_calls_turn hcall pace (hrelies' _ _ _ _ _) fun j call hj _ =>
      (hrelies call (List.mem_of_getElem? hj)).of_still hstill

end Turn

/-- A turn keeps telling. -/
theorem Tells.turn (h : e.Repeats K prompts bound) (hd : d.Tells e K prompts bound)
    (hsteady : d.Steady e) (pace : Pace) (i : Nat) : (d.turn pace i).Tells e K prompts bound := by
  cases hcall : d.calls[i]? with
  | none => rwa [turn_of_none hcall]
  | some call =>
    rcases call with ⟨c, stage⟩
    rcases stage.isWorking_cases with hworking | rfl | ⟨failure, rfl⟩
    · rcases hsteady.exists_busy hcall hworking with ⟨past, present, -, hbusy, -⟩
      exact hd.turn_working h hbusy hworking pace
    · exact hd.turn_entering hcall pace
    · rwa [turn_of_returned hcall]

private theorem Tells.run (h : e.Repeats K prompts bound) (hd : d.Tells e K prompts bound)
    (hsteady : d.Steady e) (schedule : List (Pace × Nat)) :
    (d.run schedule).Tells e K prompts bound := by
  induction schedule generalizing d with
  | nil => exact hd
  | cons t schedule ih => exact ih (hd.turn h hsteady t.1 t.2) (hsteady.turn t.1 t.2)

/-- Whatever calls there are, however they take turns and whatever the backend answers, the units that
are submitted, counted over all requests, carry the prompts of the states after no round, after one and
so on, a round being a preparation and then the hooks that come after a submission.

* A call that waits for the backend waits with the prompt of the last of these states.
* When no unit is between the start of its compilation and the answer, the backend has been handed
  exactly these prompts, and the graph and the random sources are those of the state after as many
  rounds as there were submissions.
* The hooks of a round come to each node once, inside groups too. -/
theorem run_rounds (h : e.Repeats K prompts bound) (hpending : e.pending = [])
    (hdraining : e.draining = false) (calls : List Call) (schedule : List (Pace × Nat)) :
    let d := (opening e calls).run schedule
    d.numbers.length ≤ bound →
      (∀ c number left p rest, (c, .submitting number left p rest) ∈ d.calls →
        ∃ n, d.numbers.length = n + 1 ∧ p = prompts n) ∧
      ((∀ call ∈ d.calls, call.2.isUnsettled = false) →
        d.editor.outside.submissions = e.outside.submissions ++
          (d.numbers.mapIdx fun i number => e.backend.handed i number (prompts i)).flatten ∧
        d.editor.graph = (e.rounds d.numbers.length).graph ∧
        d.editor.outside.own = (e.rounds d.numbers.length).outside.own ∧
        d.editor.outside.shared = (e.rounds d.numbers.length).outside.shared) ∧
      ∀ n ≤ bound, ∀ place s, siteAt? (e.rounds n).prepared.graph place = some s →
        (roundPlaces (e.rounds n).prepared.graph).count place = 1 := by
  intro d hbound
  rcases (Tells.opening h calls).run h (Steady.opening hpending hdraining calls) schedule hbound with
    ⟨hsettled, hrelies⟩
  refine ⟨fun c number left p rest hmem => ?_, fun hall => ?_, fun n hn place s hs => ?_⟩
  · rcases hrelies _ hmem with ⟨earlier, hnumbers, hp, -⟩
    exact ⟨earlier.length, by rw [hnumbers, List.length_append]; rfl, hp⟩
  · rcases hsettled hall with ⟨hechoes, -, -⟩
    exact ⟨hechoes.outside.submissions, hechoes.graph, hechoes.outside.own, hechoes.outside.shared⟩
  · exact count_roundPlaces (h.distinct_prepared n) (h.exists_places hn) hs

/-- An editor with a widget that moves to the next choice after each submission.  The backend takes its
time and refuses the first prompt. -/
def pickingEditor : Editor where
  backend := .replying { ticks := 1, replies := [some { verdict := .reject "no" .null (.int 400) }] }
  graph := {
    nodes := [
      { id := .number 1, type := "Pick", title := none
        widgets := [
          { name := "pick", kind := "combo", value := .str "a",
            options := [("values", .arr [.str "a", .str "b", .str "c"])] },
          { name := ControlMode.widgetName, kind := "combo", value := .str "increment",
            options := [("serialize", .bool false)], afterQueued := some (.advance .own) }] }] }

/-- The prompts of the example: a step that sends one of the choices. -/
def pickingPrompts (n : Nat) : Prompt :=
  ((Editor.compile.exec (pickingEditor.rounds n)).1.toOption).getD ⟨default, []⟩

private theorem pickingEditor_repeats : pickingEditor.Repeats (fun _ => True) pickingPrompts 2 where
  distinct := by
    refine ⟨by decide, fun n hn group hgroup => ?_⟩
    cases List.mem_singleton.1 hn
    cases hgroup
  counts := by
    refine ⟨fun n hn w hw => ?_, fun n hn group hgroup => ?_⟩
    · cases List.mem_singleton.1 hn
      rcases List.mem_pair.1 hw with rfl | rfl
      · constructor <;> rintro _ ⟨⟩
      · constructor <;> rintro _ ⟨⟩
        trivial
    · cases List.mem_singleton.1 hn
      cases hgroup
  apart := by
    refine ⟨fun n hn w hw h hserializer => ?_, fun n hn group hgroup => ?_⟩
    · cases List.mem_singleton.1 hn
      rcases List.mem_pair.1 hw with rfl | rfl <;> cases hserializer
    · cases List.mem_singleton.1 hn
      cases hgroup
  shows := fun _ _ => rfl
  sound := by
    intro reply hreply
    cases List.mem_singleton.1 hreply
    refine ⟨rfl, rfl, ?_⟩
    rintro _ _ _ ⟨⟩ ⟨⟩
  compiles := by
    intro n hn
    obtain rfl | rfl | rfl : n = 0 ∨ n = 1 ∨ n = 2 := by omega
    all_goals rfl

/-- The first call asks for two units, and its first one is refused; a second call begins while the
first one waits for the backend. -/
theorem pickingEditor_picksInOrder :
    pickingEditor.Repeats (fun _ => True) pickingPrompts 2 ∧ pickingEditor.pending = [] ∧
      pickingEditor.draining = false ∧
      let d := (opening pickingEditor [⟨.int 0, .int 2⟩, ⟨.int 7, .int 1⟩]).run
        [(.yielding, 0), (.yielding, 0), (.yielding, 1), (.hurried, 0), (.hurried, 0), (.hurried, 0)]
      d.numbers = [0, 7] ∧
        d.editor.outside.submissions =
          [.submitted 1 0 (pickingPrompts 0).output, .submitted 2 7 (pickingPrompts 1).output] ∧
        d.editor.graph = (pickingEditor.rounds 2).graph ∧
        (d.editor.widgetsAt (.outer (.number 1))).map (·.value) = [.str "c", .str "increment"] := by
  have h := run_rounds pickingEditor_repeats rfl rfl [⟨.int 0, .int 2⟩, ⟨.int 7, .int 1⟩]
    [(.yielding, 0), (.yielding, 0), (.yielding, 1), (.hurried, 0), (.hurried, 0), (.hurried, 0)]
  have hnumbers : ((opening pickingEditor [⟨.int 0, .int 2⟩, ⟨.int 7, .int 1⟩]).run
      [(.yielding, 0), (.yielding, 0), (.yielding, 1), (.hurried, 0), (.hurried, 0),
        (.hurried, 0)]).numbers = [0, 7] := by decide
  dsimp only at h
  rw [hnumbers] at h
  rcases (h (by decide)).2.1 (by decide) with ⟨hsubmissions, hgraph, -, -⟩
  refine ⟨pickingEditor_repeats, rfl, rfl, hnumbers, hsubmissions, hgraph, ?_⟩
  rw [Editor.widgetsAt, hgraph]
  rfl

end Desk

end NodeFlow
