import NodeFlow.Act

/-!
# Outcomes of sequences

A sequence of two steps comes to a result if both steps do, and fails if one of them does.

Main results:

- Theorems `Fault.bind_eq_ok_iff` and `Fault.bind_eq_error_iff`: sequences of computations.
- Theorems `Act.exec_bind_eq_ok_iff` and `Act.exec_lift_eq_ok_iff`: sequences of actions.
- Definition `FailsWith`: computations that fail with faults of one sort only.
- Definition `Act.IsStraight`: actions that go to their end without a wait.
- Theorem `Act.IsStraight.exec_focus`: such an action on a part of the state.
- Definition `Act.Meets`: what an action comes to, and when it does not fail.
- Theorems `Act.Meets.bind` and `Act.Meets.collect`: sequences, and one step for every item of a list.
-/

namespace NodeFlow

variable {σ α β : Type}

/-- A sequence of computations comes to a result exactly if both do. -/
theorem Fault.bind_eq_ok_iff {x : Except Fault α} {f : α → Except Fault β} {b : β} :
    x >>= f = .ok b ↔ ∃ a, x = .ok a ∧ f a = .ok b := by
  cases x <;> simp [bind, Except.bind]

/-- A sequence of computations fails exactly if one of the two does. -/
theorem Fault.bind_eq_error_iff {x : Except Fault α} {f : α → Except Fault β} {e : Fault} :
    x >>= f = .error e ↔ x = .error e ∨ ∃ a, x = .ok a ∧ f a = .error e := by
  cases x <;> simp [bind, Except.bind]

/-- A changed result comes from a result. -/
theorem Fault.map_eq_ok_iff {x : Except Fault α} {f : α → β} {b : β} :
    x.map f = .ok b ↔ ∃ a, x = .ok a ∧ f a = b := by
  cases x <;> simp [Except.map]

/-- A computation that says something has come to it. -/
theorem Fault.toOption_eq_some_iff {x : Except Fault α} {a : α} :
    x.toOption = some a ↔ x = .ok a := by
  cases x <;> simp [Except.toOption]

/-- A computation that fails with faults of one sort only. -/
def FailsWith (P : Fault → Prop) (x : Except Fault α) : Prop := ∀ f, x = .error f → P f

namespace FailsWith

variable {P : Fault → Prop} {x : Except Fault α}

/-- A result is no failure. -/
theorem ok (a : α) : FailsWith P (.ok a) := by
  intro f h
  cases h

/-- A failure of the sort that is meant. -/
theorem error {f : Fault} (h : P f) : FailsWith P (.error f : Except Fault α) := by
  rintro _ ⟨⟩
  exact h

/-- A sort of faults may be widened. -/
theorem mono {Q : Fault → Prop} (hx : FailsWith P x) (hPQ : ∀ f, P f → Q f) : FailsWith Q x :=
  fun f hf => hPQ f (hx f hf)

/-- A sequence fails with faults of one sort if both computations do. -/
theorem bind (hx : FailsWith P x) {f : α → Except Fault β}
    (hf : ∀ a, x = .ok a → FailsWith P (f a)) : FailsWith P (x >>= f) := by
  intro e h
  rcases Fault.bind_eq_error_iff.1 h with hfirst | ⟨a, ha, hrest⟩
  · exact hx e hfirst
  · exact hf a ha e hrest

end FailsWith

/-- A sequence of actions comes to a result exactly if both do. -/
theorem Act.exec_bind_eq_ok_iff {act : Act σ α} {f : α → Act σ β} {s t : σ} {b : β} :
    (act >>= f).exec s = (.ok b, t) ↔
      ∃ a u, act.exec s = (.ok a, u) ∧ (f a).exec u = (.ok b, t) := by
  rw [exec_bind]
  rcases act.exec s with ⟨_ | a, u⟩
  · simp
  · constructor
    · exact fun h => ⟨a, u, rfl, h⟩
    · rintro ⟨a', u', hsame, h⟩
      cases hsame
      exact h

/-- What is made of a result leaves the state alone. -/
theorem Act.exec_bind_pure_snd (act : Act σ α) (f : α → β) (s : σ) :
    ((act >>= fun a => pure (f a)).exec s).2 = (act.exec s).2 := by
  rw [exec_bind]
  rcases act.exec s with ⟨_ | a, t⟩ <;> rfl

/-- A computation beside the state comes to its result and leaves the state. -/
theorem Act.exec_lift_eq_ok_iff {r : Except Fault α} {s t : σ} {a : α} :
    (lift r : Act σ α).exec s = (.ok a, t) ↔ r = .ok a ∧ s = t := by
  rw [exec_lift, Prod.mk.injEq]

namespace Act

/-- An action that goes on from the state it reads. -/
theorem bind_get_apply (f : σ → Act σ α) (s : σ) : (MonadState.get >>= f) s = f s s := rfl

/-- A sequence goes on with a known result. -/
theorem lift_ok_bind {β : Type} (a : α) (f : α → Act σ β) : (lift (.ok a) >>= f) = f a := rfl

/-- A sequence ends with a known failure. -/
theorem lift_error_bind {β : Type} (x : Fault) (f : α → Act σ β) :
    (lift (.error x) >>= f) = lift (.error x) := rfl

/-- One action for every changed item is one action for every item. -/
theorem each_map {β : Type} (f : β → α) (act : α → Act σ PUnit) (xs : List β) :
    each (xs.map f) act = each xs fun x => act (f x) := by
  induction xs with
  | nil => rfl
  | cons x xs ih => rw [List.map_cons, each, each, ih]

/-- Actions that never fail do not fail one after the other. -/
theorem exec_each_fst {f : α → Act σ PUnit} (hf : ∀ x s, ((f x).exec s).1 = .ok ⟨⟩) (xs : List α)
    (s : σ) : ((each xs f).exec s).1 = .ok ⟨⟩ := by
  induction xs generalizing s with
  | nil => rfl
  | cons x xs ih =>
    rw [each, exec_bind]
    have hx := hf x s
    rcases hrun : (f x).exec s with ⟨r, t⟩
    rw [hrun] at hx
    cases hx
    exact ih t

/-- Actions that do nothing do nothing one after the other. -/
theorem exec_each_of_nothing {f : α → Act σ PUnit} {xs : List α} {s : σ}
    (h : ∀ x ∈ xs, (f x).exec s = (.ok ⟨⟩, s)) : (each xs f).exec s = (.ok ⟨⟩, s) := by
  induction xs with
  | nil => rfl
  | cons x xs ih =>
    exact exec_bind_eq_ok_iff.2 ⟨⟨⟩, s, h x List.mem_cons_self,
      ih fun y hy => h y (List.mem_cons_of_mem x hy)⟩

/-- The actions for two lists are those for the first and then those for the second. -/
theorem exec_each_append {f : α → Act σ PUnit} (xs ys : List α) (s : σ) :
    (each (xs ++ ys) f).exec s = (each xs f >>= fun _ => each ys f).exec s := by
  induction xs generalizing s with
  | nil => rfl
  | cons x xs ih =>
    rw [List.cons_append, each, each, exec_bind, exec_bind, exec_bind]
    rcases (f x).exec s with ⟨e | _, t⟩
    · rfl
    · dsimp only
      rw [ih, exec_bind]

/-- The actions for two lists succeed exactly if those for the first do and then those for the
second. -/
theorem exec_each_append_eq_ok_iff {f : α → Act σ PUnit} {xs ys : List α} {s t : σ} :
    (each (xs ++ ys) f).exec s = (.ok ⟨⟩, t) ↔
      ∃ u, (each xs f).exec s = (.ok ⟨⟩, u) ∧ (each ys f).exec u = (.ok ⟨⟩, t) := by
  rw [exec_each_append, exec_bind_eq_ok_iff]
  constructor
  · rintro ⟨_, u, h⟩
    exact ⟨u, h⟩
  · rintro ⟨u, h⟩
    exact ⟨⟨⟩, u, h⟩

variable {τ : Type}

/-- The action leaves the state to nobody before it ends. -/
def IsStraight (act : Act σ α) : Prop := ∀ s, act s = .ended (act.exec s).1 (act.exec s).2

namespace IsStraight

/-- An action that is given by what it comes to never waits. -/
theorem ofExec (f : σ → Except Fault α × σ) : (ofExec f).IsStraight := fun _ => rfl

/-- A result alone waits for nothing. -/
theorem pure (a : α) : (pure a : Act σ α).IsStraight := fun _ => rfl

/-- Reading the state waits for nothing. -/
theorem get : (get : Act σ σ).IsStraight := fun _ => rfl

/-- A change waits for nothing. -/
theorem modify (f : σ → σ) : (modify f : Act σ PUnit).IsStraight := fun _ => rfl

/-- A computation beside the state waits for nothing. -/
theorem lift (r : Except Fault α) : (lift r : Act σ α).IsStraight := fun _ => rfl

/-- Actions that never wait never wait one after the other. -/
theorem bind {act : Act σ α} {f : α → Act σ β} (h : act.IsStraight)
    (hf : ∀ a, (f a).IsStraight) : (act >>= f).IsStraight := by
  intro s
  have hbind : (act >>= f) s = (act s).andThen f := rfl
  rw [exec_bind, hbind, h s]
  rcases act.exec s with ⟨_ | a, t⟩
  · rfl
  · exact hf a t

/-- One action for every item never waits if none does. -/
theorem each {xs : List α} {f : α → Act σ PUnit} (hf : ∀ x, (f x).IsStraight) :
    (each xs f).IsStraight := by
  induction xs with
  | nil => exact pure _
  | cons x xs ih => exact bind (hf x) fun _ => ih

/-- Collecting one result for every item never waits if no action does. -/
theorem collect {xs : List α} {f : α → Act σ β} (hf : ∀ x, (f x).IsStraight) :
    (collect xs f).IsStraight := by
  induction xs with
  | nil => exact pure _
  | cons x xs ih => exact bind (hf x) fun _ => bind ih fun _ => pure _

/-- Catching a failure does not wait. -/
theorem attempt {act : Act σ α} (h : act.IsStraight) : (attempt act).IsStraight := by
  intro s
  have hattempt : Act.attempt act s = (act s).attempted := rfl
  rw [exec_attempt, hattempt, h s]
  rfl

/-- On a part of the state, an action that does not wait changes that part and nothing else. -/
theorem exec_focus {act : Act τ α} (h : act.IsStraight) (get : σ → τ) (put : τ → σ → σ) (s : σ) :
    (focus get put act).exec s = ((act.exec (get s)).1, put (act.exec (get s)).2 s) := by
  rw [exec, focus, h (get s)]
  rfl

/-- An action on a part of the state never waits if it does not alone. -/
theorem focus {act : Act τ α} (h : act.IsStraight) (get : σ → τ) (put : τ → σ → σ) :
    (focus get put act).IsStraight := by
  intro s
  rw [h.exec_focus]
  have hfocus : Act.focus get put act s = (act (get s)).focused get put s := rfl
  rw [hfocus, h (get s)]
  rfl

end IsStraight

/-! ## Results and the conditions for them -/

/-- From a state, an action comes to a result and a state as wanted if it succeeds, and it does
succeed under a condition. -/
structure Meets (safe : Prop) (Q : α → σ → Prop) (act : Act σ α) (s : σ) : Prop where
  result : ∀ a t, act.exec s = (.ok a, t) → Q a t
  succeeds : safe → ∃ a t, act.exec s = (.ok a, t)

namespace Meets

variable {safe : Prop} {Q : α → σ → Prop} {s : σ}

/-- An action meets what holds of the result that it comes to. -/
theorem of_exec {act : Act σ α} {a : α} {t : σ} (hexec : act.exec s = (.ok a, t)) (h : Q a t) :
    act.Meets safe Q s where
  result a' t' h' := by
    rw [hexec] at h'
    cases h'
    exact h
  succeeds _ := ⟨a, t, hexec⟩

/-- A result alone meets what holds of it. -/
theorem pure {a : α} (h : Q a s) : (pure a : Act σ α).Meets safe Q s := of_exec rfl h

/-- What is met may be said with less, and under more conditions. -/
theorem mono {act : Act σ α} {safe' : Prop} {Q' : α → σ → Prop} (h : act.Meets safe' Q' s)
    (hsafe : safe → safe') (hQ : ∀ a t, Q' a t → Q a t) : act.Meets safe Q s where
  result a t hexec := hQ a t (h.result a t hexec)
  succeeds hs := h.succeeds (hsafe hs)

/-- A sequence meets what its second action meets from all that the first one may come to. -/
theorem bind {act : Act σ α} {f : α → Act σ β} {Q' : β → σ → Prop} (h : act.Meets safe Q s)
    (hf : ∀ a t, Q a t → (f a).Meets safe Q' t) : (act >>= f).Meets safe Q' s where
  result b u hexec := by
    rcases exec_bind_eq_ok_iff.1 hexec with ⟨a, t, hfirst, hrest⟩
    exact (hf a t (h.result a t hfirst)).result b u hrest
  succeeds hs := by
    rcases h.succeeds hs with ⟨a, t, hfirst⟩
    rcases (hf a t (h.result a t hfirst)).succeeds hs with ⟨b, u, hrest⟩
    exact ⟨b, u, exec_bind_eq_ok_iff.2 ⟨a, t, hfirst, hrest⟩⟩

/-- A sequence that reads the state goes on with it. -/
theorem bind_get {f : σ → Act σ α} (h : (f s).Meets safe Q s) :
    (MonadState.get >>= f).Meets safe Q s := ⟨h.result, h.succeeds⟩

/-- A sequence that changes the state goes on from there. -/
theorem bind_modify {f : σ → σ} {rest : PUnit → Act σ α} (h : (rest ⟨⟩).Meets safe Q (f s)) :
    (modify f >>= rest).Meets safe Q s := ⟨h.result, h.succeeds⟩

/-- A sequence that computes goes on with the result, which is there where it is safe. -/
theorem bind_lift {r : Except Fault α} {f : α → Act σ β} {Q' : β → σ → Prop}
    (hsafe : safe → ∃ a, r = .ok a) (hf : ∀ a, r = .ok a → (f a).Meets safe Q' s) :
    (Act.lift r >>= f).Meets safe Q' s := by
  refine bind (Q := fun a t => r = .ok a ∧ s = t) ⟨fun a t h => exec_lift_eq_ok_iff.1 h, ?_⟩ ?_
  · intro hs
    rcases hsafe hs with ⟨a, ha⟩
    exact ⟨a, s, exec_lift_eq_ok_iff.2 ⟨ha, rfl⟩⟩
  · rintro a t ⟨ha, rfl⟩
    exact hf a ha

/-- On a part of the state, an action does what it does there alone. -/
theorem focus {act : Act τ α} {get : σ → τ} {put : τ → σ → σ}
    (hexec : (Act.focus get put act).exec s = ((act.exec (get s)).1, put (act.exec (get s)).2 s))
    (h : act.Meets safe (fun a t => Q a (put t s)) (get s)) :
    (Act.focus get put act).Meets safe Q s where
  result a u hrun := by
    rw [hexec] at hrun
    rcases Prod.mk.injEq _ _ _ _ ▸ hrun with ⟨hfst, rfl⟩
    exact h.result a _ (Prod.ext hfst rfl)
  succeeds hs := by
    rcases h.succeeds hs with ⟨a, t, hact⟩
    exact ⟨a, put t s, by rw [hexec, hact]⟩

/-- What holds of the number of items done and of their results, and is kept by each item, holds of
all. -/
theorem collect {xs : List α} {f : α → Act σ β} {P : Nat → List β → σ → Prop} (hstart : P 0 [] s)
    (hstep : ∀ k (hk : k < xs.length) ys t, P k ys t →
      (f xs[k]).Meets safe (fun y u => P (k + 1) (ys ++ [y]) u) t) :
    (Act.collect xs f).Meets safe (P xs.length) s := by
  induction xs generalizing s P with
  | nil => exact pure hstart
  | cons x xs ih =>
    refine bind (hstep 0 (Nat.succ_pos _) [] s hstart) fun y t ht => ?_
    -- the rest starts with one item done and one result
    have hrest : (Act.collect xs f).Meets safe (fun ys u => P (xs.length + 1) (y :: ys) u) t :=
      ih ht fun k hk ys u hu => hstep (k + 1) (Nat.succ_lt_succ hk) (y :: ys) u hu
    exact hrest.bind fun ys u hu => pure hu

end Meets

end Act

end NodeFlow
