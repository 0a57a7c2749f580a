import NodeFlow.Proofs.Outcome

/-!
# What actions keep and ensure

Between two waits an action changes the state on its own; while it waits, others do.  A drift says
how far the action may take the state by itself, from one wait to the next.  An invariant is kept if
the action restores it before every wait and at its end, relying on others to do the same.  As long
as others stay within a drift whenever an action waits, it may come to certain courses only, and it
may ensure an outcome and a state of a certain kind.

Main results:

- Type `Drift`; definitions `Drift.keeping` and `Drift.through`.
- Definitions `Course.Within` and `Act.Within`: actions that stay within a drift, whatever others do
  in between.
- Theorems `Act.Within.bind`, `Act.Within.focus` and their like: the combinators stay within it.
- Theorem `Act.Within.exec`: with nobody else around, the whole action stays within it.
- Definitions `Course.Keeps` and `Act.Keeps`: invariants.
- Theorems `Act.Keeps.bind`, `Act.Keeps.focus` and their like: the combinators keep invariants.
- Theorem `Act.Keeps.of_exec`: what holds at the end, with nobody else around.
- Definition `Course.Ensures`: how a course ends.
- Theorems `Course.Ensures.andThen` and `Course.Ensures.hurried`: sequences, and courses that leave
  the state to nobody.
- Theorems `Act.ensures_bind`, `Act.ensures_waitFor` and `Act.IsStraight.ensures`: how actions ensure
  something.
- Type `Course.ComesTo`: the courses that a course may come to.
- Theorem `Course.ComesTo.ensures`: they ensure what it ensures.
-/

namespace NodeFlow

variable {σ τ α β : Type}

/-- How far the state may be taken: not at all, or as far as several steps take it. -/
structure Drift (σ : Type) where
  rel : σ → σ → Prop
  refl : ∀ s, rel s s
  trans : ∀ {s t u}, rel s t → rel t u → rel s u

namespace Drift

/-- A part of the state stays as it is. -/
def keeping (part : σ → β) : Drift σ where
  rel s t := part t = part s
  refl _ := rfl
  trans hst htu := htu.trans hst

/-- A part of the state stays within a drift. -/
def through (part : σ → τ) (D : Drift τ) : Drift σ where
  rel s t := D.rel (part s) (part t)
  refl s := D.refl (part s)
  trans hst htu := D.trans hst htu

/-- The state may be taken anywhere. -/
def free : Drift σ where
  rel _ _ := True
  refl _ := trivial
  trans _ _ := trivial

end Drift

/-! ## Courses -/

namespace Course

variable {D : Drift σ}

/-- From the given state to the first wait, from every wait to the next, and from the last to the
end, a course stays within a drift. -/
def Within (D : Drift σ) (s : σ) : Course σ α → Prop
  | ended _ t => D.rel s t
  | waiting t resume => D.rel s t ∧ ∀ u, (resume u).Within D u

private theorem Within.after {s t : σ} (h : D.rel s t) {c : Course σ α} (hc : c.Within D t) :
    c.Within D s := by
  cases c with
  | ended r u => exact D.trans h hc
  | waiting u resume => exact ⟨D.trans h hc.1, hc.2⟩

private theorem Within.andThen {s : σ} {c : Course σ α} (hc : c.Within D s) {f : α → Act σ β}
    (hf : ∀ a t, (f a t).Within D t) : (c.andThen f).Within D s := by
  induction c generalizing s with
  | ended r t =>
    cases r with
    | ok a => exact (hf a t).after hc
    | error e => exact hc
  | waiting t resume ih => exact ⟨hc.1, fun u => ih u (hc.2 u)⟩

private theorem Within.attempted {s : σ} {c : Course σ α} (hc : c.Within D s) :
    c.attempted.Within D s := by
  induction c generalizing s with
  | ended r t => exact hc
  | waiting t resume ih => exact ⟨hc.1, fun u => ih u (hc.2 u)⟩

/-- What an action does to a part of the state stays within a drift of the whole, if every change
within the drift of the part does. -/
theorem Within.focused {E : Drift τ} {get : σ → τ} {put : τ → σ → σ}
    (hput : ∀ s t, E.rel (get s) t → D.rel s (put t s)) {c : Course τ α} {s : σ}
    (hc : c.Within E (get s)) : (c.focused get put s).Within D s := by
  induction c generalizing s with
  | ended r t => exact hput s t hc
  | waiting t resume ih => exact ⟨hput s t hc.1, fun u => ih (get u) (hc.2 (get u))⟩

/-- A course stays within a wider drift. -/
theorem Within.mono {E : Drift σ} (h : ∀ s t, D.rel s t → E.rel s t) {s : σ} {c : Course σ α}
    (hc : c.Within D s) : c.Within E s := by
  induction c generalizing s with
  | ended r t => exact h s t hc
  | waiting t resume ih => exact ⟨h s t hc.1, fun u => ih u (hc.2 u)⟩

/-- A course within a drift ends within it. -/
theorem Within.finish {s : σ} {c : Course σ α} (hc : c.Within D s) : D.rel s c.finish.2 := by
  induction c generalizing s with
  | ended r t => exact hc
  | waiting t resume ih => exact D.trans hc.1 (ih t (hc.2 t))

/-- Without its waits a course stays within the drift. -/
theorem Within.hurried {s : σ} {c : Course σ α} (hc : c.Within D s) : c.hurried.Within D s :=
  hc.finish

private theorem within_free (c : Course σ α) (s : σ) : c.Within Drift.free s := by
  induction c generalizing s with
  | ended r t => trivial
  | waiting t resume ih => exact ⟨trivial, fun u => ih u u⟩

end Course

/-! ## Actions -/

namespace Act

variable {D : Drift σ}

/-- Wherever it begins, an action stays within a drift. -/
def Within (D : Drift σ) (act : Act σ α) : Prop := ∀ s, (act s).Within D s

namespace Within

/-- With nobody else around, the whole action stays within the drift. -/
theorem exec {act : Act σ α} (h : act.Within D) (s : σ) : D.rel s (act.exec s).2 := (h s).finish

/-- What an action within a drift leaves is related to where it started. -/
theorem of_exec {act : Act σ α} (h : act.Within D) {s t : σ} {r : Except Fault α}
    (hexec : act.exec s = (r, t)) : D.rel s t := by
  have hrel := h.exec s
  rwa [hexec] at hrel

/-- A wider drift will do. -/
theorem mono {E : Drift σ} {act : Act σ α} (hact : act.Within D)
    (h : ∀ s t, D.rel s t → E.rel s t) : act.Within E := fun s => (hact s).mono h

/-- A result alone changes nothing. -/
theorem pure (a : α) : (pure a : Act σ α).Within D := fun s => D.refl s

/-- Reading the state changes nothing. -/
theorem get : (get : Act σ σ).Within D := fun s => D.refl s

/-- A change stays within a drift that allows it from every state. -/
theorem modify {f : σ → σ} (h : ∀ s, D.rel s (f s)) : (modify f : Act σ PUnit).Within D := h

/-- A computation beside the state changes nothing. -/
theorem lift (r : Except Fault α) : (lift r : Act σ α).Within D := fun s => D.refl s

/-- A failure changes nothing. -/
theorem throw (e : Fault) : (throw e : Act σ α).Within D := fun s => D.refl s

/-- Actions within a drift follow each other within it. -/
theorem bind {act : Act σ α} {f : α → Act σ β} (h : act.Within D) (hf : ∀ a, (f a).Within D) :
    (act >>= f).Within D := fun s => (h s).andThen hf

/-- An action that goes on from the state it reads. -/
theorem bind_get {f : σ → Act σ β} (hf : ∀ s, (f s s).Within D s) :
    (MonadState.get >>= f).Within D := hf

/-- A computation in front matters only if it succeeds. -/
theorem bind_lift {r : Except Fault α} {f : α → Act σ β} (hf : ∀ a, r = .ok a → (f a).Within D) :
    (Act.lift r >>= f).Within D := by
  cases r with
  | ok a => exact hf a rfl
  | error e => exact throw e

/-- While an action waits, others stay within the drift. -/
theorem wait : (wait : Act σ PUnit).Within D := fun s => ⟨D.refl s, fun t => D.refl t⟩

/-- An action may wait as long as it likes. -/
theorem waitFor (ticks : Nat) : (waitFor ticks : Act σ PUnit).Within D := by
  induction ticks with
  | zero => exact pure _
  | succ ticks ih => exact bind wait fun _ => ih

/-- A failure that is caught stays within the drift. -/
theorem attempt {act : Act σ α} (h : act.Within D) : (attempt act).Within D :=
  fun s => (h s).attempted

/-- One action for every item stays within the drift if each does. -/
theorem each {xs : List α} {f : α → Act σ PUnit} (hf : ∀ x, (f x).Within D) :
    (each xs f).Within D := by
  induction xs with
  | nil => exact pure _
  | cons x xs ih => exact bind (hf x) fun _ => ih

/-- An action on a part of the state stays within a drift that allows for what it does to this part.
-/
theorem focus {E : Drift τ} {get : σ → τ} {put : τ → σ → σ} {act : Act τ α} (h : act.Within E)
    (hput : ∀ s t, E.rel (get s) t → D.rel s (put t s)) : (focus get put act).Within D :=
  fun s => (h (get s)).focused hput

private theorem free (act : Act σ α) : act.Within Drift.free := fun s => (act s).within_free s

/-- An action on a part of the state, where no change of that part matters. -/
theorem focus_free {get : σ → τ} {put : τ → σ → σ} (act : Act τ α)
    (hput : ∀ s t, D.rel s (put t s)) : (Act.focus get put act).Within D :=
  focus (free act) fun s t _ => hput s t

end Within

end Act

/-! ## Invariants -/

namespace Course

/-- The invariant holds at every wait and at the end, provided that it holds whenever the course
goes on. -/
def Keeps (P : σ → Prop) : Course σ α → Prop
  | ended _ t => P t
  | waiting t resume => P t ∧ ∀ u, P u → (resume u).Keeps P

variable {P : σ → Prop}

private theorem Keeps.andThen {c : Course σ α} (hc : c.Keeps P) {f : α → Act σ β}
    (hf : ∀ a t, P t → (f a t).Keeps P) : (c.andThen f).Keeps P := by
  induction c with
  | ended r t =>
    cases r with
    | ok a => exact hf a t hc
    | error e => exact hc
  | waiting t resume ih => exact ⟨hc.1, fun u hu => ih u (hc.2 u hu)⟩

private theorem Keeps.focused {Q : τ → Prop} {get : σ → τ} {put : τ → σ → σ}
    (hget : ∀ s, P s → Q (get s)) (hput : ∀ s t, P s → Q t → P (put t s)) {c : Course τ α}
    (hc : c.Keeps Q) {s : σ} (hs : P s) : (c.focused get put s).Keeps P := by
  induction c generalizing s with
  | ended r t => exact hput s t hs hc
  | waiting t resume ih =>
    exact ⟨hput s t hs hc.1, fun u hu => ih (get u) (hc.2 (get u) (hget u hu)) hu⟩

private theorem keeps_true (c : Course σ α) : c.Keeps fun _ => True := by
  induction c with
  | ended r t => trivial
  | waiting t resume ih => exact ⟨trivial, fun u _ => ih u⟩

/-- A course that keeps a property ends with it. -/
theorem Keeps.finish {c : Course σ α} (hc : c.Keeps P) : P c.finish.2 := by
  induction c with
  | ended r t => exact hc
  | waiting t resume ih => exact ih t (hc.2 t hc.1)

end Course

namespace Act

variable {P : σ → Prop}

/-- Begun where the invariant holds, an action keeps it. -/
def Keeps (P : σ → Prop) (act : Act σ α) : Prop := ∀ s, P s → (act s).Keeps P

namespace Keeps

/-- An action that keeps a property ends with it. -/
theorem of_exec {act : Act σ α} (h : act.Keeps P) {s t : σ} (hs : P s) {r : Except Fault α}
    (hexec : act.exec s = (r, t)) : P t := by
  have hend : P (act.exec s).2 := (h s hs).finish
  rwa [hexec] at hend

/-- A result alone keeps every property. -/
theorem pure (a : α) : (pure a : Act σ α).Keeps P := fun _ hs => hs

/-- A change keeps a property that it keeps from every state. -/
theorem modify {f : σ → σ} (h : ∀ s, P s → P (f s)) : (modify f : Act σ PUnit).Keeps P := h

/-- A computation beside the state keeps every property. -/
theorem lift (r : Except Fault α) : (lift r : Act σ α).Keeps P := fun _ hs => hs

private theorem wait : (wait : Act σ PUnit).Keeps P := fun _ hs => ⟨hs, fun _ hu => hu⟩

/-- Actions that keep a property keep it one after the other. -/
theorem bind {act : Act σ α} {f : α → Act σ β} (h : act.Keeps P) (hf : ∀ a, (f a).Keeps P) :
    (act >>= f).Keeps P := fun s hs => (h s hs).andThen hf

/-- A property is kept over a wait. -/
theorem waitFor (ticks : Nat) : (waitFor ticks : Act σ PUnit).Keeps P := by
  induction ticks with
  | zero => exact pure _
  | succ ticks ih => exact bind wait fun _ => ih

/-- What an action reads satisfies the invariant. -/
theorem bind_get {f : σ → Act σ β} (hf : ∀ s, P s → (f s).Keeps P) :
    (MonadState.get >>= f).Keeps P := fun s hs => hf s hs s hs

/-- One action for every item keeps a property if each does. -/
theorem each {xs : List α} {f : α → Act σ PUnit} (hf : ∀ x ∈ xs, (f x).Keeps P) :
    (each xs f).Keeps P := by
  induction xs with
  | nil => exact pure _
  | cons x xs ih =>
    exact bind (hf x List.mem_cons_self) fun _ => ih fun y hy => hf y (List.mem_cons_of_mem x hy)

/-- An action on a part of the state keeps a property that this part has a share in. -/
theorem focus {Q : τ → Prop} {get : σ → τ} {put : τ → σ → σ} {act : Act τ α} (h : act.Keeps Q)
    (hget : ∀ s, P s → Q (get s)) (hput : ∀ s t, P s → Q t → P (put t s)) :
    (focus get put act).Keeps P := fun s hs => (h (get s) (hget s hs)).focused hget hput hs

/-- An action on a part of the state that does not matter for the invariant. -/
theorem focus_true {get : σ → τ} {put : τ → σ → σ} (act : Act τ α)
    (hput : ∀ s t, P s → P (put t s)) : (Act.focus get put act).Keeps P :=
  focus (fun s _ => (act s).keeps_true) (fun _ _ => trivial) fun s t hs _ => hput s t hs

end Keeps

end Act

/-! ## Ends -/

namespace Course

/-- The course ends as wanted, as long as others stay within a drift whenever it waits. -/
def Ensures (D : Drift σ) (Q : Except Fault α → σ → Prop) : Course σ α → Prop
  | ended r s => Q r s
  | waiting s resume => ∀ t, D.rel s t → (resume t).Ensures D Q

variable {D : Drift σ} {Q : Except Fault α → σ → Prop} {c : Course σ α}

/-- What is ensured may be said with less. -/
theorem Ensures.imp (h : c.Ensures D Q) {Q' : Except Fault α → σ → Prop}
    (hQ : ∀ r s, Q r s → Q' r s) : c.Ensures D Q' := by
  induction c with
  | ended r s => exact hQ r s h
  | waiting s resume ih => exact fun t ht => ih t (h t ht)

/-- Two things that are ensured are ensured together. -/
theorem Ensures.and (h : c.Ensures D Q) {Q' : Except Fault α → σ → Prop} (h' : c.Ensures D Q') :
    c.Ensures D fun r s => Q r s ∧ Q' r s := by
  induction c with
  | ended r s => exact ⟨h, h'⟩
  | waiting s resume ih => exact fun t ht => ih t (h t ht) (h' t ht)

/-- A course ensures what the rest of it ensures from all ends of its first part. -/
theorem Ensures.andThen (h : c.Ensures D Q) {f : α → Act σ β} {Q' : Except Fault β → σ → Prop}
    (hok : ∀ a s, Q (.ok a) s → (f a s).Ensures D Q')
    (herror : ∀ e s, Q (.error e) s → Q' (.error e) s) : (c.andThen f).Ensures D Q' := by
  induction c with
  | ended r s =>
    cases r with
    | ok a => exact hok a s h
    | error e => exact herror e s h
  | waiting s resume ih => exact fun t ht => ih t (h t ht)

private theorem Ensures.finish (h : c.Ensures D Q) : Q c.finish.1 c.finish.2 := by
  induction c with
  | ended r s => exact h
  | waiting s resume ih => exact ih s (h s (D.refl s))

/-- What is ensured whatever others do is ensured without waits. -/
theorem Ensures.hurried (h : c.Ensures D Q) : c.hurried.Ensures D Q := h.finish

/-- A course that stays within a drift ends within it, if others stay within it too. -/
theorem Within.ensures {E : Drift σ} {s : σ} (h : c.Within E s)
    (hD : ∀ s t, D.rel s t → E.rel s t) : c.Ensures D fun _ t => E.rel s t := by
  induction c generalizing s with
  | ended r t => exact h
  | waiting t resume ih =>
    exact fun u hu => (ih u (h.2 u)).imp fun _ v hv => E.trans (E.trans h.1 (hD t u hu)) hv

end Course

namespace Act

variable {D : Drift σ} {s : σ}

/-- A sequence ensures what its second action ensures from all that the first one may come to. -/
theorem ensures_bind {act : Act σ α} {Q : Except Fault α → σ → Prop} (h : (act s).Ensures D Q)
    {f : α → Act σ β} {Q' : Except Fault β → σ → Prop}
    (hok : ∀ a t, Q (.ok a) t → (f a t).Ensures D Q')
    (herror : ∀ e t, Q (.error e) t → Q' (.error e) t) : ((act >>= f) s).Ensures D Q' :=
  h.andThen hok herror

/-- Waiting changes nothing by itself. -/
theorem ensures_waitFor (ticks : Nat) :
    (waitFor ticks s).Ensures D fun r t => r = .ok ⟨⟩ ∧ D.rel s t := by
  induction ticks generalizing s with
  | zero => exact ⟨rfl, D.refl s⟩
  | succ ticks ih =>
    intro t ht
    exact ih.imp fun r u hu => ⟨hu.1, D.trans ht hu.2⟩

/-- An action that never waits ensures what it comes to. -/
theorem IsStraight.ensures {act : Act σ α} (h : act.IsStraight) {Q : Except Fault α → σ → Prop}
    (hQ : Q (act.exec s).1 (act.exec s).2) : (act s).Ensures D Q := by
  rw [h s]
  exact hQ

end Act

/-! ## What courses come to -/

namespace Course

variable {D E : Drift σ} {c c' : Course σ α}

/-- Where a course may come to, as long as others stay within a drift whenever it waits. -/
inductive ComesTo (D : Drift σ) (c : Course σ α) : Course σ α → Prop
  | here : ComesTo D c c
  | resumed {s t : σ} {resume : σ → Course σ α} (h : ComesTo D c (waiting s resume))
      (ht : D.rel s t) : ComesTo D c (resume t)

/-- A course also comes to what happens if nobody else is around from some moment on. -/
theorem ComesTo.hurried (h : c.ComesTo D c') : c.ComesTo D c'.hurried := by
  induction c' with
  | ended r s => exact h
  | waiting s resume ih => exact ih s (h.resumed (D.refl s))

/-- What a course ensures, it still ensures wherever it has come to. -/
theorem ComesTo.ensures {Q : Except Fault α → σ → Prop} (h : c.ComesTo D c') (hc : c.Ensures D Q) :
    c'.Ensures D Q := by
  induction h with
  | here => exact hc
  | resumed _ ht ih => exact ih _ ht

/-- Wherever it has come to, a course stays within the drift that it stays within. -/
theorem ComesTo.exists_within {s : σ} (h : c.ComesTo D c') (hc : c.Within E s) :
    ∃ t, c'.Within E t := by
  induction h with
  | here => exact ⟨s, hc⟩
  | resumed _ _ ih =>
    rcases ih with ⟨t, -, hresume⟩
    exact ⟨_, hresume _⟩

/-- Once a course has come to a wait, it goes on within the drift that it stays within. -/
theorem ComesTo.within_resume {s t : σ} {resume : σ → Course σ α}
    (h : c.ComesTo D (waiting t resume)) (hc : c.Within E s) (u : σ) : (resume u).Within E u := by
  rcases h.exists_within hc with ⟨v, -, hresume⟩
  exact hresume u

/-- If others stay within it too, the drift covers all that happened from the beginning. -/
theorem ComesTo.within {s : σ} (h : c.ComesTo D c') (hc : c.Within E s)
    (hD : ∀ s t, D.rel s t → E.rel s t) : c'.Within E s := by
  induction h with
  | here => exact hc
  | resumed _ ht ih => exact (ih.2 _).after (E.trans ih.1 (hD _ _ ht))

end Course

/-- An action that only waits, and then goes on to its end, waits where the others have left it. -/
theorem Act.rel_of_comesTo_waitFor {D : Drift σ} {f : PUnit → Act σ β}
    (hf : ∀ s, ∃ r t, f ⟨⟩ s = .ended r t) {ticks : Nat} {s t : σ} {resume : σ → Course σ β}
    (h : ((waitFor ticks >>= f) s).ComesTo D (.waiting t resume)) : D.rel s t := by
  have hcourses : ∀ c : Course σ β, ((waitFor ticks >>= f) s).ComesTo D c →
      ∃ left u, D.rel s u ∧ c = (waitFor left >>= f) u := by
    intro c hc
    induction hc with
    | here => exact ⟨ticks, s, D.refl s, rfl⟩
    | resumed _ ht ih =>
      rcases ih with ⟨left, u, hu, hcourse⟩
      cases left with
      | zero =>
        rcases hf u with ⟨r, v, hended⟩
        cases hcourse.trans hended
      | succ left =>
        cases hcourse
        exact ⟨left, _, D.trans hu ht, rfl⟩
  rcases hcourses _ h with ⟨left, u, hu, hcourse⟩
  cases left with
  | zero =>
    rcases hf u with ⟨r, v, hended⟩
    cases hcourse.trans hended
  | succ left =>
    cases hcourse
    exact hu

end NodeFlow
