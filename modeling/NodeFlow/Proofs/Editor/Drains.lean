import NodeFlow.Proofs.Editor.Frame
import NodeFlow.Proofs.Editor.Units

/-!
# The work on a queue

What happens at a queue splits into drains: the time from a call that starts to work to the
announcement that the work is over.  A drain consists of blocks, one for each request that is taken;
a block holds what became of the units of its request.

Others may bring requests whenever the call that works waits, and do nothing else.  So the work goes on
as if nobody else were there: each unit begins in the state that the unit before it has left.

Main results:

- Types `Block` and `Drain` with `Block.log` and `Drain.log`: how they show among the events.
- Definitions `Block.IsWhole` and `Block.IsUnderway`: lawful blocks.
- Definition `Editor.Submits` and type `Editor.UnitEnds`: what a unit does, and how it ends.
- Types `Editor.WorksOff` and `Editor.Passes`: drains, unit by unit, and all that has happened.
- Structure `Editor.Ledger`: what has been handed to the backend and announced.
- Theorems `Editor.WorksOff.exists_ledger` and `Editor.Passes.exists_ledger`: drains keep it.
-/

namespace NodeFlow

open Editor

/-! ## Events -/

namespace QueueEvent

/-- The request of a call, where it joins the queue. -/
def ownRequest? : QueueEvent → Option Request
  | joined r => some r
  | _ => none

/-- The request that joins the queue, whoever makes it. -/
def request? : QueueEvent → Option Request
  | joined r => some r
  | obliged r => some r
  | _ => none

/-- The number with which the backend is called. -/
def number? : QueueEvent → Option Int
  | called number => some number
  | _ => none

/-- How a unit ended. -/
def fate? : QueueEvent → Option Fate
  | settled fate => some fate
  | _ => none

/-- Whether the event belongs to the work on the queue. -/
def isWork : QueueEvent → Bool
  | joined _ => false
  | obliged _ => false
  | _ => true

/-- Work on the queue brings no request. -/
theorem request?_of_isWork {event : QueueEvent} (h : event.isWork = true) :
    event.request? = none := by
  cases event <;> first | rfl | cases h

/-- Work on the queue brings no request to others. -/
theorem ownRequest?_of_isWork {event : QueueEvent} (h : event.isWork = true) :
    event.ownRequest? = none := by
  cases event <;> first | rfl | cases h

end QueueEvent

/-! ## Blocks and drains -/

/-- What a unit that ended so leaves among the events. -/
def Fate.log (number : Int) : Fate → List QueueEvent
  | unsent => [.settled .unsent]
  | fate => [.called number, .settled fate]

/-- The work on one request: how its units ended, and whether the backend has been called for one
that has not ended. -/
structure Block where
  request : Request
  fates : List Fate := []
  isCalled : Bool := false

namespace Block

/-- The events of a block. -/
def log (b : Block) : List QueueEvent :=
  .taken b.request :: (b.fates.flatMap (Fate.log b.request.number) ++
    if b.isCalled then [.called b.request.number] else [])

/-- The backend calls of a block: copies of the number of its request, one for each unit that was
compiled. -/
def calls (b : Block) : List Int :=
  List.replicate (b.fates.countP (· ≠ .unsent) + if b.isCalled then 1 else 0) b.request.number

/-- All units of the request were accepted, or one failed and was the last. -/
def IsWhole (b : Block) : Prop :=
  b.isCalled = false ∧
    (b.fates = List.replicate b.request.batch.toNat .accepted ∨
      ∃ k < b.request.batch.toNat, ∃ fate ≠ Fate.accepted,
        b.fates = List.replicate k .accepted ++ [fate])

/-- The units so far were accepted, and there is one more to come. -/
def IsUnderway (b : Block) : Prop :=
  ∃ k < b.request.batch.toNat, b.fates = List.replicate k .accepted

/-- A block after so many accepted units. -/
def after (r : Request) (k : Nat) (isCalled : Bool) : Block :=
  { request := r, fates := List.replicate k .accepted, isCalled }

/-- A block whose last unit failed, after so many accepted ones. -/
def cut (r : Request) (k : Nat) (fate : Fate) : Block :=
  { request := r, fates := List.replicate k .accepted ++ [fate] }

/-- A block that was cut before all its units is whole. -/
theorem isWhole_cut {r : Request} {k : Nat} {fate : Fate} (hk : k < r.batch.toNat)
    (hfate : fate ≠ .accepted) : (cut r k fate).IsWhole :=
  ⟨rfl, .inr ⟨k, hk, fate, hfate, rfl⟩⟩

/-- A block with all its units accepted is whole. -/
theorem isWhole_after {r : Request} {k : Nat} (hk : k = r.batch.toNat) :
    (after r k false).IsWhole :=
  ⟨rfl, .inl (by rw [after, hk])⟩

private theorem number?_log (b : Block) : b.log.filterMap QueueEvent.number? = b.calls := by
  have hfates : ∀ fates : List Fate,
      (fates.flatMap (Fate.log b.request.number)).filterMap QueueEvent.number? =
        List.replicate (fates.countP (· ≠ .unsent)) b.request.number := by
    intro fates
    induction fates with
    | nil => rfl
    | cons fate fates ih =>
      rw [List.flatMap_cons, List.filterMap_append, ih]
      cases fate <;> simp [Fate.log, QueueEvent.number?, List.replicate_succ]
  have hlast : (if b.isCalled then [QueueEvent.called b.request.number] else []).filterMap
      QueueEvent.number? = List.replicate (if b.isCalled then 1 else 0) b.request.number := by
    cases b.isCalled <;> rfl
  rw [log, calls, List.filterMap_cons_none rfl, List.filterMap_append, hfates, hlast,
    List.replicate_append_replicate]

/-- A call of the backend follows what was there before. -/
theorem log_after_called (r : Request) (k : Nat) :
    (after r k true).log = (after r k false).log ++ [.called r.number] := by
  simp [log, after]

/-- A unit that failed at the backend ends its block. -/
theorem log_cut_failed (r : Request) (k : Nat) :
    (cut r k .failed).log = (after r k true).log ++ [.settled .failed] := by
  simp [log, cut, after, Fate.log]

/-- A unit that was not sent ends its block. -/
theorem log_cut_unsent (r : Request) (k : Nat) :
    (cut r k .unsent).log = (after r k false).log ++ [.settled .unsent] := by
  simp [log, cut, after, Fate.log]

/-- An accepted unit follows its call. -/
theorem log_after_succ (r : Request) (k : Nat) :
    (after r (k + 1) false).log = (after r k true).log ++ [.settled .accepted] := by
  simp [log, after, List.replicate_succ', Fate.log]

end Block

/-- The time from a call that starts to work to the announcement that the work is over. -/
structure Drain where
  opener : Call
  blocks : List Block := []
  isOver : Bool := false

namespace Drain

/-- The events of a drain. -/
def log (d : Drain) : List QueueEvent :=
  .opened d.opener :: (d.blocks.flatMap Block.log ++
    if d.isOver then [.announced d.opener.number d.opener.batch] else [])

/-- The work is over, and no block was left in the middle. -/
def IsWhole (d : Drain) : Prop := d.isOver = true ∧ ∀ b ∈ d.blocks, b.IsWhole

/-- The calls of a drain are those of its blocks. -/
theorem number?_log (d : Drain) :
    d.log.filterMap QueueEvent.number? = d.blocks.flatMap Block.calls := by
  have hlast : (if d.isOver then [QueueEvent.announced d.opener.number d.opener.batch]
      else []).filterMap QueueEvent.number? = [] := by
    cases d.isOver <;> rfl
  rw [log, List.filterMap_cons_none rfl, List.filterMap_append, hlast, List.append_nil,
    List.filterMap_flatMap]
  simp only [Block.number?_log]

end Drain

/-! ## Units -/

namespace Editor

/-- While a call works, the others bring requests and do nothing else. -/
def bringing : Drift Editor where
  rel e u := ∃ arrived, u = { e with pending := e.pending ++ arrived }
  refl e := ⟨[], by simp⟩
  trans := by
    rintro e _ _ ⟨first, rfl⟩ ⟨second, rfl⟩
    exact ⟨first ++ second, by simp⟩

/-- A view that has been brought up to date is heeded: the request of a call that it makes joins the
queue, which is shown. -/
def heed (outcome : Except Fault (Option Call)) : EditorAct PUnit := do
  match ← Act.lift outcome with
  | none => pure ⟨⟩
  | some c => do
    let r ← Act.lift (Request.read c.number c.batch)
    modify (join r)
    display (.enqueued (← get).pending.length)

/-- A unit hands a prompt over: the graph compiles to it, the backend is called with it and answers,
the answer is dealt with, and the view is heeded. -/
def Submits (number : Int) (e : Editor) (p : Prompt) (answer : Except Fault QueueResponse)
    (seen : Except Fault PUnit) (e' : Editor) : Prop :=
  ∃ e₁ e₂ e₃ outcome, (compile e).ComesTo bringing (.ended (.ok p) e₁) ∧
    (submitTo number p e₁).ComesTo bringing (.ended answer e₂) ∧
    (conclude p answer e₂).ComesTo bringing (.ended outcome e₃) ∧
    (heed outcome).exec e₃ = (seen, e')

/-- How a unit that begins in a state ends, with the prompt that it hands over, if it does. -/
inductive UnitEnds (number : Int) (e : Editor) : Fate → Option Prompt → Editor → Prop
  /-- The graph does not compile. -/
  | unsent {f : Fault} {e' : Editor}
      (hcompile : (compile e).ComesTo bringing (.ended (.error f) e')) :
      UnitEnds number e .unsent none ((showFailure f).exec e').2
  /-- The backend accepts the prompt, and the view raises nothing. -/
  | accepted {p : Prompt} {a : QueueResponse} {e' : Editor}
      (h : Submits number e p (.ok a) (.ok ⟨⟩) e') : UnitEnds number e .accepted (some p) e'
  /-- The backend raises something, or what follows its answer does. -/
  | failed {p : Prompt} {answer : Except Fault QueueResponse} {seen : Except Fault PUnit}
      {e' : Editor} (h : Submits number e p answer seen e')
      (hfailed : (∃ f, answer = .error f) ∨ ∃ f, seen = .error f) :
      UnitEnds number e .failed (some p) e'

/-- A unit that hands a prompt over is accepted or fails. -/
theorem Submits.unitEnds {number : Int} {e e' : Editor} {p : Prompt}
    {answer : Except Fault QueueResponse} {seen : Except Fault PUnit}
    (h : Submits number e p answer seen e') :
    UnitEnds number e
      (if (failure? answer).isNone && (failure? seen).isNone then .accepted else .failed)
      (some p) e' := by
  cases answer with
  | error f => exact .failed h (.inl ⟨f, rfl⟩)
  | ok a =>
    cases seen with
    | error f => exact .failed h (.inr ⟨f, rfl⟩)
    | ok _ => exact .accepted h

/-! ## The work, unit by unit -/

/-- The work on the queue from a state on: the blocks that are done, the block at hand, the prompts
that have been handed over, each with its number, and the state that the last unit has left. -/
inductive WorksOff (e : Editor) :
    List Block → Option Block → List (Int × Prompt) → Editor → Prop
  | start : WorksOff e [] none [] e
  /-- Between two blocks, others bring requests. -/
  | brought {done : List Block} {handed : List (Int × Prompt)} {u v : Editor}
      (h : WorksOff e done none handed u) (huv : bringing.rel u v) : WorksOff e done none handed v
  /-- The first of the requests that wait is taken. -/
  | taken {done : List Block} {handed : List (Int × Prompt)} {u : Editor} {r : Request}
      {rest : List Request} (h : WorksOff e done none handed u) (hpending : u.pending = r :: rest) :
      WorksOff e done (some { request := r }) handed { u with pending := rest }
  /-- A unit follows. -/
  | unit {done : List Block} {b : Block} {handed : List (Int × Prompt)} {u v : Editor} {fate : Fate}
      {sent : Option Prompt} (h : WorksOff e done (some b) handed u)
      (hunit : UnitEnds b.request.number u fate sent v) :
      WorksOff e done (some { b with fates := b.fates ++ [fate] })
        (handed ++ (sent.map fun p => (b.request.number, p)).toList) v
  /-- All units of a request are over. -/
  | whole {done : List Block} {b : Block} {handed : List (Int × Prompt)} {u : Editor}
      (h : WorksOff e done (some b) handed u) (hwhole : b.IsWhole) :
      WorksOff e (done ++ [b]) none handed u

/-- A call starts to work with its own request. -/
def opened (r : Request) (e : Editor) : Editor :=
  { e.join r with draining := true, nodeErrors := none }

/-- No request is left: the call that has worked announces it. -/
def announced (c : Call) (e : Editor) : Editor :=
  ((display (.promptQueued c.number c.batch)).exec { e with draining := false }).2

/-- What has happened at a queue from a state on: drains, one after the other. -/
inductive Passes (e : Editor) : List Drain → List (Int × Prompt) → Editor → Prop
  | start : Passes e [] [] e
  | drain {past : List Drain} {earlier handed : List (Int × Prompt)} {u v : Editor} {c : Call}
      {r : Request} {done : List Block} (h : Passes e past earlier u)
      (hread : Request.read c.number c.batch = .ok r)
      (hwork : WorksOff (u.opened r) done none handed v) (hpending : v.pending = []) :
      Passes e (past ++ [⟨c, done, true⟩]) (earlier ++ handed) (v.announced c)

variable {e u : Editor} {done : List Block} {present : Option Block} {handed : List (Int × Prompt)}

private theorem WorksOff.isWhole (h : WorksOff e done present handed u) :
    ∀ b ∈ done, b.IsWhole := by
  induction h with
  | start => simp
  | brought _ _ ih => exact ih
  | taken _ _ ih => exact ih
  | unit _ _ ih => exact ih
  | whole _ hwhole ih =>
    intro b hb
    rcases List.mem_append.1 hb with hold | hlast
    · exact ih b hold
    · cases List.mem_singleton.1 hlast
      exact hwhole

/-- Drains that are over consist of whole blocks. -/
theorem Passes.isWhole {past : List Drain} (h : Passes e past handed u) :
    ∀ drain ∈ past, drain.IsWhole := by
  induction h with
  | start => simp
  | drain _ _ hwork _ ih =>
    intro drain hdrain
    rcases List.mem_append.1 hdrain with hold | hlast
    · exact ih drain hold
    · cases List.mem_singleton.1 hlast
      exact ⟨rfl, hwork.isWhole⟩

end Editor

namespace Block

private theorem calls_after_called (r : Request) (k : Nat) :
    (after r k true).calls = (after r k false).calls ++ [r.number] := by
  simp [calls, after, List.replicate_succ']

private theorem calls_of_not_isCalled {b : Block} (h : b.isCalled = false) :
    b.calls = List.replicate (b.fates.countP (· ≠ .unsent)) b.request.number := by
  simp [calls, h]

end Block

namespace Editor

variable {e u : Editor} {done : List Block} {present : Option Block} {handed : List (Int × Prompt)}

/-- The block at hand waits for nothing between two units. -/
theorem WorksOff.not_isCalled (h : WorksOff e done present handed u) :
    ∀ b ∈ present, b.isCalled = false := by
  induction h with
  | start => simp
  | brought _ _ ih => exact ih
  | taken _ _ _ => simp
  | unit _ _ ih => simpa using ih
  | whole _ _ _ => simp

/-- One prompt is handed over for each call of the backend, with its number. -/
theorem WorksOff.numbers (h : WorksOff e done present handed u) :
    handed.map (·.1) = (done ++ present.toList).flatMap Block.calls := by
  induction h with
  | start => rfl
  | brought _ _ ih => exact ih
  | taken _ _ ih => simpa [Block.calls] using ih
  | @unit done b handed u v fate sent h hunit ih =>
    have hquiet : b.isCalled = false := h.not_isCalled b rfl
    have hcalls := Block.calls_of_not_isCalled hquiet
    have hcalls' := Block.calls_of_not_isCalled (b := { b with fates := b.fates ++ [fate] }) hquiet
    cases hunit <;>
      simp [ih, hcalls, hcalls', List.replicate_succ']
  | whole _ _ ih => simpa using ih

/-- What was handed over bears the numbers of the calls that the drains have made. -/
theorem Passes.numbers {past : List Drain} (h : Passes e past handed u) :
    handed.map (·.1) = (past.flatMap (·.blocks)).flatMap Block.calls := by
  induction h with
  | start => rfl
  | drain _ _ hwork _ ih => simp [ih, hwork.numbers]

end Editor

/-! ## Working calls -/

namespace Stage

/-- Whether the call works on the queue. -/
def isWorking : Stage → Bool
  | entering => false
  | returned _ => false
  | _ => true

/-- A call that does not work has not begun, or has come back. -/
theorem isWorking_cases (stage : Stage) : stage.isWorking = true ∨ stage = .entering ∨
    ∃ failure, stage = .returned failure := by
  cases stage <;> simp [isWorking]

/-- Whether the call has called the backend, which has not answered yet. -/
def isSubmitting : Stage → Bool
  | submitting .. => true
  | _ => false

/-- A call that waits for the backend works on the queue. -/
theorem isWorking_of_isSubmitting {stage : Stage} (h : stage.isSubmitting = true) :
    stage.isWorking = true := by
  cases stage <;> first | rfl | cases h

/-- What a working call is in the middle of, with its work since the given state: the blocks that are
done, the block at hand, the prompts that have been handed over, and the editor at present. -/
inductive Carries (e : Editor) (done : List Block) :
    Stage → Option Block → List (Int × Prompt) → Editor → Prop
  | choosing {handed : List (Int × Prompt)} {u : Editor} (hwork : WorksOff e done none handed u) :
      Carries e done .choosing none handed u
  /-- A unit is being compiled. -/
  | compiling {r : Request} {k left : Nat} {handed : List (Int × Prompt)} {u s v : Editor}
      {rest : Editor → Course Editor Prompt} (hcount : k + 1 + left = r.batch.toNat)
      (hwork : WorksOff e done (some (.after r k false)) handed u)
      (hcourse : (compile u).ComesTo bringing (.waiting s rest)) (hbrought : bringing.rel s v) :
      Carries e done (.compiling r.number left rest) (some (.after r k false)) handed v
  /-- The backend has been called with the prompt of a unit. -/
  | submitting {r : Request} {k left : Nat} {handed : List (Int × Prompt)} {u u₁ s v : Editor}
      {p : Prompt} {rest : Editor → Course Editor QueueResponse}
      (hcount : k + 1 + left = r.batch.toNat)
      (hwork : WorksOff e done (some (.after r k false)) handed u)
      (hcompile : (compile u).ComesTo bringing (.ended (.ok p) u₁))
      (hcourse : (submitTo r.number p u₁).ComesTo bringing (.waiting s rest))
      (hbrought : bringing.rel s v) :
      Carries e done (.submitting r.number left p rest) (some (.after r k true))
        (handed ++ [(r.number, p)]) v
  /-- The answer of the backend is being dealt with. -/
  | showing {r : Request} {k left : Nat} {handed : List (Int × Prompt)} {u u₁ u₂ s v : Editor}
      {p : Prompt} {answer : Except Fault QueueResponse}
      {rest : Editor → Course Editor (Option Call)} (hcount : k + 1 + left = r.batch.toNat)
      (hwork : WorksOff e done (some (.after r k false)) handed u)
      (hcompile : (compile u).ComesTo bringing (.ended (.ok p) u₁))
      (hsubmit : (submitTo r.number p u₁).ComesTo bringing (.ended answer u₂))
      (hcourse : (conclude p answer u₂).ComesTo bringing (.waiting s rest))
      (hbrought : bringing.rel s v) :
      Carries e done (.showing r.number left (failure? answer).isNone rest)
        (some (.after r k true)) (handed ++ [(r.number, p)]) v

variable {e u v : Editor} {done : List Block} {stage : Stage} {present : Option Block}
  {handed : List (Int × Prompt)}

/-- A call that carries a drain works on the queue. -/
theorem Carries.isWorking (h : stage.Carries e done present handed u) : stage.isWorking = true := by
  cases h <;> rfl

/-- The blocks behind a working call are whole. -/
theorem Carries.isWhole (h : stage.Carries e done present handed u) : ∀ b ∈ done, b.IsWhole := by
  cases h with
  | choosing hwork => exact hwork.isWhole
  | compiling _ hwork => exact hwork.isWhole
  | submitting _ hwork => exact hwork.isWhole
  | showing _ hwork => exact hwork.isWhole

/-- The block at hand can still be gone on with. -/
theorem Carries.isUnderway (h : stage.Carries e done present handed u) :
    ∀ b ∈ present, b.IsUnderway := by
  have hunder : ∀ {r : Request} {k left : Nat} {isCalled : Bool}, k + 1 + left = r.batch.toNat →
      ∀ b ∈ some (Block.after r k isCalled), b.IsUnderway := by
    intro r k left isCalled hcount b hb
    cases hb
    exact ⟨k, by simp only [Block.after]; omega, rfl⟩
  cases h with
  | choosing => simp
  | compiling hcount => exact hunder hcount
  | submitting hcount => exact hunder hcount
  | showing hcount => exact hunder hcount

/-- One prompt has been handed over for each call of the backend, with its number. -/
theorem Carries.numbers (h : stage.Carries e done present handed u) :
    handed.map (·.1) = (done ++ present.toList).flatMap Block.calls := by
  cases h with
  | choosing hwork => exact hwork.numbers
  | compiling _ hwork => exact hwork.numbers
  | submitting _ hwork | showing _ hwork =>
    have hnumbers := hwork.numbers
    simp only [Option.toList_some, List.flatMap_append, List.flatMap_singleton] at hnumbers ⊢
    rw [List.map_append, hnumbers, Block.calls_after_called, List.append_assoc]
    rfl

/-- Others may bring requests in the middle of everything. -/
theorem Carries.brought (h : stage.Carries e done present handed u) (huv : bringing.rel u v) :
    stage.Carries e done present handed v := by
  cases h with
  | choosing hwork => exact .choosing (hwork.brought huv)
  | compiling hcount hwork hcourse hbrought =>
    exact .compiling hcount hwork hcourse (bringing.trans hbrought huv)
  | submitting hcount hwork hcompile hcourse hbrought =>
    exact .submitting hcount hwork hcompile hcourse (bringing.trans hbrought huv)
  | showing hcount hwork hcompile hsubmit hcourse hbrought =>
    exact .showing hcount hwork hcompile hsubmit hcourse (bringing.trans hbrought huv)

end Stage

/-- A drain goes on that began in a state, in the middle of a block or between two of them. -/
def Drain.IsUnderway (d : Drain) (e : Editor) (stage : Stage) (handed : List (Int × Prompt))
    (u : Editor) : Prop :=
  d.isOver = false ∧ ∃ r done present, Request.read d.opener.number d.opener.batch = .ok r ∧
    d.blocks = done ++ present.toList ∧ (∀ b ∈ done, b.IsWhole) ∧ (∀ b ∈ present, b.IsUnderway) ∧
    stage.Carries (e.opened r) done present handed u

/-! ## What the work leaves behind -/

namespace Backend

variable {b b' b'' : Backend} {n : Nat}

/-- After so many submissions a backend is handed what comes next. -/
theorem Continues.handed_zero (h : b.Continues n b') (number : Int) (p : Prompt) :
    b'.handed 0 number p = b.handed n number p := by
  cases b with
  | replying r =>
    cases h
    simp [handed]
  | wire c =>
    rcases h with ⟨replies, rfl⟩
    rfl

/-- One submission more. -/
theorem Continues.succ (h : b.Continues n b') (h' : b'.Continues 1 b'') :
    b.Continues (n + 1) b'' := by
  cases b with
  | replying r =>
    cases h
    exact h'
  | wire c =>
    rcases h with ⟨replies, rfl⟩
    rcases h' with ⟨replies', rfl⟩
    exact ⟨replies', rfl⟩

end Backend

/-- What is handed to a backend is no announcement. -/
theorem Outside.announcements_record (o : Outside) {entry : Trace.Entry}
    (h : entry.isSubmission = true) : (o.record entry).announcements = o.announcements := by
  have hentry : entry.announcement? = none := by
    cases entry <;> first | rfl | cases h
  simp [announcements, record, hentry]

namespace Editor

/-- An editor from which so many prompts have been handed to the backend, each with its number, and
the ends of so many runs announced. -/
structure Ledger (e : Editor) (handed : List (Int × Prompt)) (ends : List (Json × Json))
    (u : Editor) : Prop where
  submissions : u.outside.submissions = e.outside.submissions ++
    (handed.mapIdx fun i h => e.backend.handed i h.1 h.2).flatten
  backend : e.backend.Continues handed.length u.backend
  silent : u.view.silent = e.view.silent
  objects : u.view.objects = e.view.objects
  announcements : e.view.silent = false → e.view.Shows →
    u.outside.announcements = e.outside.announcements ++ ends

variable {α : Type} {e u v : Editor} {handed : List (Int × Prompt)} {ends : List (Json × Json)}
  {number : Int} {p : Prompt}

private theorem Ledger.refl (e : Editor) : e.Ledger [] [] e :=
  ⟨by simp, .refl _, rfl, rfl, fun _ _ => by simp⟩

private theorem Ledger.of_unspoken (h : e.Ledger handed ends u) (huv : unspoken.rel u v) :
    e.Ledger handed ends v where
  submissions := (congrArg (·.2.2.2.1) huv).trans h.submissions
  backend := by
    rw [show v.backend = u.backend from congrArg (·.1) huv]
    exact h.backend
  silent := (congrArg (·.2.1) huv).trans h.silent
  objects := (congrArg (·.2.2.1) huv).trans h.objects
  announcements hsilent hshows :=
    (congrArg (·.2.2.2.2) huv).trans (h.announcements hsilent hshows)

private theorem unspoken_of_bringing (e u : Editor) (h : bringing.rel e u) : unspoken.rel e u := by
  rcases h with ⟨arrived, rfl⟩
  rfl

/-- What goes on beside the queue leaves the ledger alone, whatever others bring. -/
theorem within_unspoken {act : EditorAct α} (hact : act.Within aside) {c : Course Editor α}
    (h : (act e).ComesTo bringing c) : c.Within unspoken e :=
  h.within ((hact e).mono fun _ _ hrel => And.right hrel) unspoken_of_bringing

/-- One prompt more has been handed over. -/
theorem Ledger.hand (h : e.Ledger handed ends u)
    (hsubmissions : v.outside.submissions = u.outside.submissions ++ u.backend.handed 0 number p)
    (hbackend : u.backend.Continues 1 v.backend)
    (hview : v.view = u.view) (hannouncements : v.outside.announcements = u.outside.announcements) :
    e.Ledger (handed ++ [(number, p)]) ends v where
  submissions := by
    rw [hsubmissions, h.submissions, h.backend.handed_zero]
    simp [List.mapIdx_append]
  backend := by simpa using h.backend.succ hbackend
  silent := by rw [hview, h.silent]
  objects := by rw [hview, h.objects]
  announcements hsilent hshows := hannouncements.trans (h.announcements hsilent hshows)

/-- A backend that follows a list of replies is handed a prompt at once. -/
theorem Ledger.submitTo_replying (h : e.Ledger handed ends u) {r : ReplyList}
    (hbackend : u.backend = .replying r) {c : Course Editor QueueResponse}
    (hc : (submitTo number p u).ComesTo bringing c) :
    ∃ t, e.Ledger (handed ++ [(number, p)]) ends t ∧ c.Within unspoken t := by
  let entry := Trace.Entry.submitted (r.count + 1) number p.output
  let t : Editor := { u with
    backend := .replying { r with count := r.count + 1 }, outside := u.outside.record entry }
  refine ⟨t, h.hand ?_ ?_ rfl rfl, ?_⟩
  · rw [hbackend]
    exact u.outside.submissions_record_of_isSubmission rfl
  · rw [hbackend]
    rfl
  · have hstart : submitTo number p u = ((Act.waitFor r.ticks >>= fun _ =>
        disturb (((r.replies[r.count]?).bind id).getD {}) >>= fun _ => Act.lift
          (answerOf (r.count + 1) (((r.replies[r.count]?).bind id).getD {}).verdict) :
            EditorAct QueueResponse)) t := by
      rw [submitTo, Act.bind_get_apply, hbackend]
      rfl
    rw [hstart] at hc
    exact within_unspoken (.bind (.waitFor _) fun _ => .bind (disturb_aside _) fun _ => .lift _) hc

/-- Wherever it is handed over, a prompt has been handed over when the backend has answered. -/
theorem Ledger.submitTo (h : e.Ledger handed ends u) {answer : Except Fault QueueResponse}
    (hc : (submitTo number p u).ComesTo bringing (.ended answer v)) :
    e.Ledger (handed ++ [(number, p)]) ends v := by
  cases hbackend : u.backend with
  | replying r =>
    rcases h.submitTo_replying hbackend hc with ⟨t, ht, hrel⟩
    exact ht.of_unspoken hrel
  | wire c =>
    have hends : (Editor.submitTo number p u).Ensures bringing fun _ v =>
        e.Ledger (handed ++ [(number, p)]) ends v := by
      rw [Editor.submitTo, Act.bind_get_apply, hbackend]
      refine Act.ensures_bind (Act.ensures_waitFor _) ?_ ?_
      · rintro _ t ⟨-, hbrought⟩
        have ht := h.of_unspoken (unspoken_of_bringing _ _ hbrought)
        have htbackend : t.backend = .wire c := by
          rcases hbrought with ⟨arrived, rfl⟩
          exact hbackend
        rcases WireClient.served_submit c t.outside number p with ⟨-, replies, hstate⟩
        refine ((WireClient.submit_isStraight number p).focus _ _).ensures ?_
        rw [(WireClient.submit_isStraight number p).exec_focus, hstate]
        have hposting : t.backend.handed 0 number p = (c.posting number p).toOption.toList := by
          rw [htbackend]
          rfl
        have hcontinues : t.backend.Continues 1 (.wire { c with replies }) := by
          rw [htbackend]
          exact ⟨replies, rfl⟩
        cases hsent : c.posting number p with
        | error f =>
          rw [hsent] at hposting
          exact ht.hand (by rw [hposting]; exact (List.append_nil _).symm) hcontinues rfl rfl
        | ok entry =>
          rw [hsent] at hposting
          have hentry := WireClient.isSubmission_of_posting hsent
          refine ht.hand ?_ hcontinues rfl (t.outside.announcements_record hentry)
          rw [hposting]
          exact t.outside.submissions_record_of_isSubmission hentry
      · rintro f t ⟨hf, -⟩
        cases hf
    exact hc.ensures hends

/-- What goes on beside the queue is over, and the ledger has been left alone. -/
theorem Ledger.of_aside (h : e.Ledger handed ends u) {act : EditorAct α} (hact : act.Within aside)
    {outcome : Except Fault α} (hc : (act u).ComesTo bringing (.ended outcome v)) :
    e.Ledger handed ends v :=
  h.of_unspoken (within_unspoken hact hc)

private theorem heed_unspoken (outcome : Except Fault (Option Call)) :
    (heed outcome).Within unspoken := by
  refine .bind (.lift _) fun asked => ?_
  split
  · exact .pure _
  · exact .bind (.lift _) fun r => .bind (.modify fun _ => rfl) fun _ =>
      .bind .get fun e => (display_aside rfl).mono fun _ _ hrel => And.right hrel

/-- A unit hands over the prompt that it compiles. -/
theorem Ledger.unitEnds (h : e.Ledger handed ends u) {fate : Fate} {sent : Option Prompt}
    (hunit : UnitEnds number u fate sent v) :
    e.Ledger (handed ++ (sent.map fun p => (number, p)).toList) ends v := by
  have hsubmits : ∀ {p : Prompt} {answer : Except Fault QueueResponse} {seen : Except Fault PUnit}
      {v : Editor}, Submits number u p answer seen v →
        e.Ledger (handed ++ [(number, p)]) ends v := by
    rintro p answer seen v ⟨e₁, e₂, e₃, outcome, hcompile, hsubmit, hconclude, hheed⟩
    have hanswered := (h.of_aside compile_aside hcompile).submitTo hsubmit
    exact (hanswered.of_aside (conclude_aside p answer) hconclude).of_unspoken
      ((heed_unspoken outcome).of_exec hheed)
  cases hunit with
  | @unsent f e₁ hcompile =>
    have hshown := (showFailure_aside f).exec e₁
    simpa using (h.of_aside compile_aside hcompile).of_unspoken hshown.2
  | accepted h => exact hsubmits h
  | failed h => exact hsubmits h

/-- The work on the queue hands over what its units hand over. -/
theorem Ledger.worksOff (h : e.Ledger handed ends u) {done : List Block} {present : Option Block}
    {later : List (Int × Prompt)} (hwork : WorksOff u done present later v) :
    e.Ledger (handed ++ later) ends v := by
  induction hwork with
  | start => simpa using h
  | brought _ hbrought ih => exact ih.of_unspoken (unspoken_of_bringing _ _ hbrought)
  | taken _ _ ih => exact ih.of_unspoken rfl
  | unit _ hunit ih =>
    rw [← List.append_assoc]
    exact ih.unitEnds hunit
  | whole _ _ ih => exact ih

/-- The end of a drain is announced. -/
theorem Ledger.announced (h : e.Ledger handed ends u) (c : Call) :
    e.Ledger handed (ends ++ [(c.number, c.batch)]) (u.announced c) := by
  have hidle : e.Ledger handed ends { u with draining := false } := h.of_unspoken rfl
  have hseen : ¬ (e.view.silent = false ∧ e.view.Shows) →
      e.Ledger handed (ends ++ [(c.number, c.batch)]) { u with draining := false } := fun hblind =>
    { hidle with announcements := fun hsilent hshows => absurd ⟨hsilent, hshows⟩ hblind }
  rw [Editor.announced, display, Act.exec_bind, Act.exec_get]
  dsimp only
  split
  · rename_i hsilent
    refine hseen fun hview => ?_
    rw [h.silent, hview.1] at hsilent
    cases hsilent
  · split
    · rename_i hobjects
      refine hseen fun hview => ?_
      rw [h.objects, hview.2] at hobjects
      cases hobjects
    · rw [exec_outward]
      refine { hidle with
        submissions := (Outside.submissions_record _ rfl).trans hidle.submissions
        announcements := fun hsilent hshows => ?_ }
      have hends := hidle.announcements hsilent hshows
      simpa [note, Outside.announcements, Outside.record, Trace.Entry.announcement?] using
        congrArg (· ++ [(c.number, c.batch)]) hends

/-- The drains of the past hand over what their units hand over, and each of them is announced. -/
theorem Passes.ledger {past : List Drain} (h : Passes e past handed u) :
    e.Ledger handed (past.map fun drain => (drain.opener.number, drain.opener.batch)) u := by
  induction h with
  | start => exact .refl e
  | @drain past earlier handed u v c r done _ _ hwork _ ih =>
    have hopened : e.Ledger earlier _ (u.opened r) := ih.of_unspoken rfl
    rw [List.map_append]
    exact (hopened.worksOff hwork).announced c

/-- Over the wire, nothing is handed over before the wait is over. -/
theorem unspoken_of_waiting_wire {c : WireClient} (hbackend : u.backend = .wire c)
    {resume : Editor → Course Editor QueueResponse}
    (h : (submitTo number p u).ComesTo bringing (.waiting v resume)) : unspoken.rel u v := by
  have hstart : submitTo number p u = onWire c (WireClient.submit number p) u := by
    rw [submitTo, Act.bind_get_apply, hbackend]
  rw [hstart, onWire] at h
  refine unspoken_of_bringing _ _ (Act.rel_of_comesTo_waitFor (fun s => ?_) h)
  exact ⟨_, _, (WireClient.submit_isStraight number p).focus _ _ s⟩

/-- In the middle of a drain, everything has been handed over but what waits to go over the wire. -/
theorem Ledger.carries (h : e.Ledger handed ends u) {r : Request} {done : List Block} {stage : Stage}
    {present : Option Block} {later : List (Int × Prompt)}
    (hcarries : stage.Carries (u.opened r) done present later v) :
    ∃ out, e.Ledger out ends v ∧
      ((stage.isSubmitting = true → ∃ r, e.backend = .replying r) → out = handed ++ later) := by
  have hopened : e.Ledger handed ends (u.opened r) := h.of_unspoken rfl
  have hbrings : ∀ {hs : List (Int × Prompt)} {s v : Editor}, e.Ledger hs ends s →
      bringing.rel s v → e.Ledger hs ends v := fun hs hbrought =>
    hs.of_unspoken (unspoken_of_bringing _ _ hbrought)
  cases hcarries with
  | choosing hwork => exact ⟨_, hopened.worksOff hwork, fun _ => rfl⟩
  | compiling _ hwork hcourse hbrought =>
    have hrel := within_unspoken compile_aside hcourse
    exact ⟨_, hbrings ((hopened.worksOff hwork).of_unspoken hrel.1) hbrought, fun _ => rfl⟩
  | @submitting r k left hs u' u₁ s v p rest _ hwork hcompile hcourse hbrought =>
    have hcompiled := (hopened.worksOff hwork).of_aside compile_aside hcompile
    cases hbackend : u₁.backend with
    | replying list =>
      rcases hcompiled.submitTo_replying hbackend hcourse with ⟨t, ht, hrel⟩
      exact ⟨_, hbrings (ht.of_unspoken hrel.1) hbrought, fun _ => List.append_assoc _ _ _⟩
    | wire c =>
      have hwaits := unspoken_of_waiting_wire hbackend hcourse
      refine ⟨_, hbrings (hcompiled.of_unspoken hwaits) hbrought, fun hreplying => ?_⟩
      rcases hreplying rfl with ⟨list, hlist⟩
      have hcontinues := hcompiled.backend
      rw [hlist] at hcontinues
      cases hbackend.symm.trans hcontinues
  | showing _ hwork hcompile hsubmit hcourse hbrought =>
    have hcompiled := (hopened.worksOff hwork).of_aside compile_aside hcompile
    have hrel := within_unspoken (conclude_aside _ _) hcourse
    exact ⟨_, hbrings ((hcompiled.submitTo hsubmit).of_unspoken hrel.1) hbrought,
      fun _ => List.append_assoc _ _ _⟩

end Editor

end NodeFlow
