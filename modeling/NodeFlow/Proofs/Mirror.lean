import NodeFlow.Proofs.Outcome

/-!
# Runs from states that agree

Two states may differ in what an action does not look at.  Then the action comes to the same outcome
from both, and the states that it leaves agree as the first two did.

Whether a hook fails may depend on how often it has been called, and so on what ran before.  What it
leaves if it does not fail may still depend on less: two runs that both succeed then come to the same
result, although one of them may fail where the other does not.

Main results:

- Definitions `Act.Matches`: two runs that agree; `Act.Mirrors`: all runs from states that agree do.
- Definitions `Act.Concur` and `Act.Concurs`: the same for runs that both succeed.
- Theorems `Act.Matches.bind`, `Act.Mirrors.each`, `Act.Concurs.each` and their like: the combinators
  keep agreement.
- Theorems `Act.Matches.focus` and `Act.Concurs.focus`: actions on a part of the state.
-/

namespace NodeFlow

namespace Act

variable {σ τ α β : Type} {R : σ → σ → Prop} {s t : σ}

/-- Two runs come to the same outcome, and the states that they leave agree. -/
def Matches (R : σ → σ → Prop) (act act' : Act σ α) (s t : σ) : Prop :=
  (act.exec s).1 = (act'.exec t).1 ∧ R (act.exec s).2 (act'.exec t).2

/-- From states that agree, the action has runs that agree. -/
def Mirrors (R : σ → σ → Prop) (act : Act σ α) : Prop := ∀ s t, R s t → act.Matches R act s t

namespace Matches

/-- The same result on both sides leaves related states. -/
theorem pure (a : α) (h : R s t) : (pure a : Act σ α).Matches R (Pure.pure a) s t := ⟨rfl, h⟩

/-- The same computation on both sides leaves related states. -/
theorem lift (r : Except Fault α) (h : R s t) : (lift r : Act σ α).Matches R (Act.lift r) s t :=
  ⟨rfl, h⟩

/-- Actions that match follow each other in step. -/
theorem bind {act act' : Act σ α} {f f' : α → Act σ β} (h : act.Matches R act' s t)
    (hf : ∀ a u v, R u v → (f a).Matches R (f' a) u v) :
    (act >>= f).Matches R (act' >>= f') s t := by
  rcases h with ⟨houtcome, hstate⟩
  rw [Matches, exec_bind, exec_bind]
  rcases hrun : act.exec s with ⟨r, u⟩
  rcases hrun' : act'.exec t with ⟨r', v⟩
  rw [hrun, hrun'] at houtcome hstate
  dsimp only at houtcome hstate
  subst houtcome
  cases r with
  | ok a => exact hf a u v hstate
  | error e => exact ⟨rfl, hstate⟩

/-- Actions that go on from the states they read. -/
theorem bind_get {f f' : σ → Act σ β} (h : (f s).Matches R (f' t) s t) :
    (MonadState.get >>= f).Matches R (MonadState.get >>= f') s t := h

/-- Actions on parts of the states. -/
theorem focus {S : τ → τ → Prop} {act act' : Act τ α} (hstraight : act.IsStraight)
    (hstraight' : act'.IsStraight) {get : σ → τ} {put : τ → σ → σ}
    (h : act.Matches S act' (get s) (get t)) (hput : ∀ u v, S u v → R (put u s) (put v t)) :
    (Act.focus get put act).Matches R (Act.focus get put act') s t := by
  rw [Matches, hstraight.exec_focus, hstraight'.exec_focus]
  exact ⟨h.1, hput _ _ h.2⟩

end Matches

namespace Mirrors

/-- A result alone is mirrored. -/
theorem pure (a : α) : (Pure.pure a : Act σ α).Mirrors R := fun _ _ h => .pure a h

/-- A computation beside the state is mirrored. -/
theorem lift (r : Except Fault α) : (Act.lift r : Act σ α).Mirrors R := fun _ _ h => .lift r h

/-- A change is mirrored if it keeps states related. -/
theorem modify {f : σ → σ} (h : ∀ s t, R s t → R (f s) (f t)) :
    (modify f : Act σ PUnit).Mirrors R := fun s t hst => ⟨rfl, h s t hst⟩

/-- Mirrored actions follow each other in step. -/
theorem bind {act : Act σ α} {f : α → Act σ β} (h : act.Mirrors R) (hf : ∀ a, (f a).Mirrors R) :
    (act >>= f).Mirrors R := fun s t hst => (h s t hst).bind fun a u v huv => hf a u v huv

/-- An action that goes on from the outcome of a computation. -/
theorem bind_lift {r : Except Fault α} {f : α → Act σ β} (hf : ∀ a, r = .ok a → (f a).Mirrors R) :
    (Act.lift r >>= f).Mirrors R := by
  intro s t hst
  rw [Matches, exec_bind, exec_bind, exec_lift, exec_lift]
  cases r with
  | error e => exact ⟨rfl, hst⟩
  | ok a => exact hf a rfl s t hst

/-- One action for every item is mirrored if it is for those in the list. -/
theorem each_of_mem {xs : List α} {f : α → Act σ PUnit} (hf : ∀ x ∈ xs, (f x).Mirrors R) :
    (each xs f).Mirrors R := by
  induction xs with
  | nil => exact pure _
  | cons x xs ih =>
    exact bind (hf x List.mem_cons_self) fun _ => ih fun y hy => hf y (List.mem_cons_of_mem x hy)

/-- One action for every item is mirrored if each is. -/
theorem each {xs : List α} {f : α → Act σ PUnit} (hf : ∀ x, (f x).Mirrors R) :
    (each xs f).Mirrors R := each_of_mem fun x _ => hf x

/-- A mirrored action still is where its failure is caught. -/
theorem attempt {act : Act σ α} (h : act.Mirrors R) : (attempt act).Mirrors R := by
  intro s t hst
  rw [Matches, exec_attempt, exec_attempt, (h s t hst).1]
  exact ⟨rfl, (h s t hst).2⟩

end Mirrors

/-! ## Runs that succeed -/

/-- If both runs succeed, they come to the same result, and the states that they leave agree. -/
def Concur (R : σ → σ → Prop) (act act' : Act σ α) (s t : σ) : Prop :=
  ∀ a b u v, act.exec s = (.ok a, u) → act'.exec t = (.ok b, v) → a = b ∧ R u v

/-- From states that agree, the action has runs that agree if they succeed. -/
def Concurs (R : σ → σ → Prop) (act : Act σ α) : Prop := ∀ s t, R s t → act.Concur R act s t

namespace Concur

/-- The same result on both sides leaves related states. -/
theorem pure (a : α) (h : R s t) : (pure a : Act σ α).Concur R (Pure.pure a) s t := by
  intro b c u v hb hc
  cases hb
  cases hc
  exact ⟨rfl, h⟩

private theorem bind {act act' : Act σ α} {f f' : α → Act σ β} (h : act.Concur R act' s t)
    (hf : ∀ a u v, R u v → (f a).Concur R (f' a) u v) : (act >>= f).Concur R (act' >>= f') s t := by
  intro b c u v hb hc
  rcases exec_bind_eq_ok_iff.1 hb with ⟨a, u₁, ha, hb⟩
  rcases exec_bind_eq_ok_iff.1 hc with ⟨a', v₁, ha', hc⟩
  rcases h a a' u₁ v₁ ha ha' with ⟨rfl, hmid⟩
  exact hf a u₁ v₁ hmid b c u v hb hc

/-- Actions that go on from the states they read. -/
theorem bind_get {f f' : σ → Act σ β} (h : (f s).Concur R (f' t) s t) :
    (MonadState.get >>= f).Concur R (MonadState.get >>= f') s t := h

/-- Actions on parts of the states. -/
theorem focus {S : τ → τ → Prop} {act act' : Act τ α} (hstraight : act.IsStraight)
    (hstraight' : act'.IsStraight) {get : σ → τ} {put : τ → σ → σ}
    (h : act.Concur S act' (get s) (get t)) (hput : ∀ u v, S u v → R (put u s) (put v t)) :
    (Act.focus get put act).Concur R (Act.focus get put act') s t := by
  intro a b u v ha hb
  rw [hstraight.exec_focus, Prod.mk.injEq] at ha
  rw [hstraight'.exec_focus, Prod.mk.injEq] at hb
  rcases ha with ⟨ha, rfl⟩
  rcases hb with ⟨hb, rfl⟩
  rcases h a b _ _ (Prod.ext ha rfl) (Prod.ext hb rfl) with ⟨hsame, hrel⟩
  exact ⟨hsame, hput _ _ hrel⟩

end Concur

namespace Concurs

/-- A result alone concurs. -/
theorem pure (a : α) : (Pure.pure a : Act σ α).Concurs R := fun _ _ h => .pure a h

/-- A computation beside the state concurs. -/
theorem lift (r : Except Fault α) : (Act.lift r : Act σ α).Concurs R := by
  intro s t h a b u v ha hb
  rcases exec_lift_eq_ok_iff.1 ha with ⟨rfl, rfl⟩
  cases hb
  exact ⟨rfl, h⟩

/-- A change concurs if it keeps states related. -/
theorem modify {f : σ → σ} (h : ∀ s t, R s t → R (f s) (f t)) :
    (modify f : Act σ PUnit).Concurs R := by
  intro s t hst a b u v ha hb
  cases ha
  cases hb
  exact ⟨rfl, h s t hst⟩

/-- Concurring actions follow each other in step. -/
theorem bind {act : Act σ α} {f : α → Act σ β} (h : act.Concurs R) (hf : ∀ a, (f a).Concurs R) :
    (act >>= f).Concurs R := fun s t hst => (h s t hst).bind fun a u v huv => hf a u v huv

/-- One action for every item concurs if each does. -/
theorem each {xs : List α} {f : α → Act σ PUnit} (hf : ∀ x ∈ xs, (f x).Concurs R) :
    (each xs f).Concurs R := by
  induction xs with
  | nil => exact pure _
  | cons x xs ih =>
    exact bind (hf x List.mem_cons_self) fun _ => ih fun y hy => hf y (List.mem_cons_of_mem x hy)

/-- An action on a part of the state, where the rest does not matter to the agreement. -/
theorem focus {S : τ → τ → Prop} {act : Act τ α} (hstraight : act.IsStraight)
    (h : act.Concurs S) {get : σ → τ} {put : τ → σ → σ} (hget : ∀ s t, R s t → S (get s) (get t))
    (hput : ∀ s t u v, R s t → S u v → R (put u s) (put v t)) :
    (Act.focus get put act).Concurs R := fun s t hst =>
  .focus hstraight hstraight (h _ _ (hget s t hst)) fun u v => hput s t u v hst

end Concurs

end Act

end NodeFlow
