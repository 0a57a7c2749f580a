import NodeFlow.Fault

/-!
# Actions

An action reads and changes a state and may fail.  What it did before it failed stays done, since
a failing hook or a failing edit leaves its traces in the graph.  An action may also wait: then
others act on the state before it goes on, from whatever state they leave.

Main results:

- Type `Course`: how far an action has come.
- Type `Act` and the combinators `Act.wait`, `Act.focus`, `Act.attempt` and `Act.lift`.
- Definition `Act.exec`: an action with nobody else around.
- Theorems `Act.exec_pure`, `Act.exec_bind`, `Act.exec_throw`, `Act.exec_attempt`: how actions
  run.
-/

namespace NodeFlow

/-- How far an action has come: it has ended, or it has left the state to others and goes on from
what it then finds. -/
inductive Course (σ α : Type) where
  | ended (outcome : Except Fault α) (s : σ)
  | waiting (s : σ) (resume : σ → Course σ α)

/-- An action on a state; the state survives a failure. -/
def Act (σ α : Type) : Type := σ → Course σ α

namespace Course

variable {σ τ α β : Type}

/-- Go on with the result of an action. -/
def andThen : Course σ α → (α → Act σ β) → Course σ β
  | ended (.ok a) s, f => f a s
  | ended (.error e) s, _ => ended (.error e) s
  | waiting s resume, f => waiting s fun t => (resume t).andThen f

/-- Take the outcome as a value. -/
def attempted : Course σ α → Course σ (Except Fault α)
  | ended r s => ended (.ok r) s
  | waiting s resume => waiting s fun t => (resume t).attempted

/-- The course of an action on a part of a state. -/
def focused (get : σ → τ) (put : τ → σ → σ) : Course τ α → σ → Course σ α
  | ended r t, s => ended r (put t s)
  | waiting t resume, s => waiting (put t s) fun s => (resume (get s)).focused get put s

/-- Go on to the end, with nobody else around. -/
def finish : Course σ α → Except Fault α × σ
  | ended r s => (r, s)
  | waiting s resume => (resume s).finish

/-- A course that goes straight to the end. -/
def hurried (c : Course σ α) : Course σ α :=
  let (r, s) := c.finish
  ended r s

/-- A course that goes on with another one ends where that one does, unless it has failed by then.
-/
theorem finish_andThen (c : Course σ α) (f : α → Act σ β) :
    (c.andThen f).finish = match c.finish with
      | (.ok a, s) => (f a s).finish
      | (.error e, s) => (.error e, s) := by
  induction c with
  | ended r s => cases r <;> rfl
  | waiting s resume ih => exact ih s

/-- A course whose failure is caught never fails. -/
theorem finish_attempted (c : Course σ α) :
    c.attempted.finish = (.ok c.finish.1, c.finish.2) := by
  induction c with
  | ended r s => rfl
  | waiting s resume ih => exact ih s

/-- With nobody else around, a course on a part of a state changes that part only. -/
theorem finish_focused {get : σ → τ} {put : τ → σ → σ} (hget : ∀ t s, get (put t s) = t)
    (hput : ∀ t u s, put u (put t s) = put u s) (c : Course τ α) (s : σ) :
    (c.focused get put s).finish = (c.finish.1, put c.finish.2 s) := by
  induction c generalizing s with
  | ended r t => rfl
  | waiting t resume ih =>
    have h := ih t (put t s)
    rw [hput] at h
    simpa only [focused, finish, hget] using h

end Course

namespace Act

variable {σ τ α β : Type}

instance : Monad (Act σ) where
  pure a := fun s => .ended (.ok a) s
  bind act f := fun s => (act s).andThen f

instance : MonadStateOf σ (Act σ) where
  get := fun s => .ended (.ok s) s
  set t := fun _ => .ended (.ok ⟨⟩) t
  modifyGet f := fun s =>
    let (a, s) := f s
    .ended (.ok a) s

/-- Run an action with nobody else around: the outcome and the state left behind. -/
def exec (act : Act σ α) (s : σ) : Except Fault α × σ := (act s).finish

/-- An action given by its outcome and the state it leaves behind. -/
def ofExec (f : σ → Except Fault α × σ) : Act σ α := fun s =>
  let (r, s) := f s
  .ended r s

/-- Leave the state to others once. -/
def wait : Act σ PUnit := fun s => .waiting s fun t => .ended (.ok ⟨⟩) t

/-- Run an action on a part of the state. -/
def focus (get : σ → τ) (put : τ → σ → σ) (act : Act τ α) : Act σ α :=
  fun s => (act (get s)).focused get put s

/-- Take the outcome of an action as a value, so that a failure does not end the caller. -/
def attempt (act : Act σ α) : Act σ (Except Fault α) := fun s => (act s).attempted

/-- The same action, leaving the state to nobody. -/
def hurried (act : Act σ α) : Act σ α := fun s => (act s).hurried

/-- A computation without state. -/
def lift (r : Except Fault α) : Act σ α := ofExec fun s => (r, s)

instance : MonadExceptOf Fault (Act σ) where
  throw e := lift (.error e)
  tryCatch act handle := do
    match ← attempt act with
    | .ok a => pure a
    | .error e => handle e

/-- Run an action once for every item of a list. -/
def each (xs : List α) (f : α → Act σ PUnit) : Act σ PUnit :=
  match xs with
  | [] => pure ⟨⟩
  | x :: xs => do
    f x
    each xs f

/-- Run an action for every item and collect the results. -/
def collect (xs : List α) (f : α → Act σ β) : Act σ (List β) :=
  match xs with
  | [] => pure []
  | x :: xs => do
    let y ← f x
    let ys ← collect xs f
    pure (y :: ys)

/-- Leave the state to others so many times. -/
def waitFor : Nat → Act σ PUnit
  | 0 => pure ⟨⟩
  | ticks + 1 => do
    wait
    waitFor ticks

@[simp] theorem exec_ofExec (f : σ → Except Fault α × σ) (s : σ) : (ofExec f).exec s = f s := rfl

@[simp] theorem exec_pure (a : α) (s : σ) : (pure a : Act σ α).exec s = (.ok a, s) := rfl

@[simp] theorem exec_throw (e : Fault) (s : σ) : (throw e : Act σ α).exec s = (.error e, s) := rfl

@[simp] theorem exec_wait (s : σ) : (wait : Act σ PUnit).exec s = (.ok ⟨⟩, s) := rfl

/-- The second of two actions starts from what the first one leaves. -/
theorem exec_bind (act : Act σ α) (f : α → Act σ β) (s : σ) :
    (act >>= f).exec s = match act.exec s with
      | (.ok a, s') => (f a).exec s'
      | (.error e, s') => (.error e, s') := Course.finish_andThen (act s) f

@[simp] theorem exec_get (s : σ) : (get : Act σ σ).exec s = (.ok s, s) := rfl

@[simp] theorem exec_set (s t : σ) : (set t : Act σ PUnit).exec s = (.ok ⟨⟩, t) := rfl

@[simp] theorem exec_modify (f : σ → σ) (s : σ) :
    (modify f : Act σ PUnit).exec s = (.ok ⟨⟩, f s) := rfl

@[simp] theorem exec_lift (r : Except Fault α) (s : σ) : (lift r : Act σ α).exec s = (r, s) := rfl

/-- Catching a failure leaves what the action has done by then. -/
theorem exec_attempt (act : Act σ α) (s : σ) :
    (attempt act).exec s = (.ok (act.exec s).1, (act.exec s).2) := Course.finish_attempted (act s)

/-- An action on a part of the state does to this part what it does alone. -/
theorem exec_focus {get : σ → τ} {put : τ → σ → σ} (hget : ∀ t s, get (put t s) = t)
    (hput : ∀ t u s, put u (put t s) = put u s) (act : Act τ α) (s : σ) :
    (focus get put act).exec s = ((act.exec (get s)).1, put (act.exec (get s)).2 s) :=
  Course.finish_focused hget hput (act (get s)) s

@[simp] theorem exec_hurried (act : Act σ α) (s : σ) : act.hurried.exec s = act.exec s := rfl

@[simp] theorem exec_waitFor (ticks : Nat) (s : σ) :
    (waitFor ticks : Act σ PUnit).exec s = (.ok ⟨⟩, s) := by
  induction ticks with
  | zero => rfl
  | succ ticks ih => simp [waitFor, exec_bind, ih]

end Act

end NodeFlow
