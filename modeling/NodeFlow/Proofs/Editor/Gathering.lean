import Mathlib.Data.List.Forall2
import NodeFlow.Extension.Dispatch
import NodeFlow.Proofs.Drift
import NodeFlow.Proofs.Outcome
import NodeFlow.Proofs.Table

/-!
# Calling hooks of any kind

A hook may be any action on what all hooks share, and it may wait.  To gather the answers of hooks
is to start each of them in the order of registration, to let those that wait go on in any order,
and to wait for all of them.  Whatever the hooks are and however they take turns, each of them is
called once, and there is one answer for every extension.  A hook that leaves alone what the others
look at, as one does that fails at once, might as well not be there.

The calls of the editor are of this kind: their hooks do deeds, and they take turns round by round.

Main results:

- Types `Handler`, `Callee` and `Ongoing`; definitions `gatherAll` and `tellEach`: both ways of
  calling hooks.
- Theorem `gatherAll_answers`: the answers, in the order of registration.
- Theorem `gatherAll_log`: the calls, in the order of registration.
- Theorems `gatherAll_thin` and `tellEach_thin`: hooks that might as well not be there.
- Theorems `gatherAll_keeps` and `tellEach_keeps`: what all hooks preserve.
- Theorems `Extension.broadcast_eq_gatherAll` and `Extension.announce_eq_tellEach`: the calls of the
  editor.
- Theorems `Extension.announce_keeps` and `Extension.broadcast_keeps`: what deeds preserve.
-/

namespace NodeFlow

variable {τ α β α' β' ρ : Type}

/-! ## Steps for all items -/

/-- Take a step for each item of a list in turn. -/
def stepAll (f : α → τ → β × τ) : List α → τ → List β × τ
  | [], s => ([], s)
  | x :: xs, s => ((f x s).1 :: (stepAll f xs (f x s).2).1, (stepAll f xs (f x s).2).2)

/-- What a step preserves, so many steps preserve. -/
theorem stepAll_inv {f : α → τ → β × τ} {V : α → Prop} {W : β → Prop} {P : τ → Prop}
    (hstep : ∀ x s, V x → P s → W (f x s).1 ∧ P (f x s).2) {xs : List α} (hxs : ∀ x ∈ xs, V x)
    {s : τ} (hs : P s) : (∀ y ∈ (stepAll f xs s).1, W y) ∧ P (stepAll f xs s).2 := by
  induction xs generalizing s with
  | nil => exact ⟨fun y hy => absurd hy List.not_mem_nil, hs⟩
  | cons x xs ih =>
    rw [List.forall_mem_cons] at hxs
    obtain ⟨hitem, hstate⟩ := hstep x s hxs.1 hs
    exact ⟨List.forall_mem_cons.2 ⟨hitem, (ih hxs.2 hstate).1⟩, (ih hxs.2 hstate).2⟩

private theorem stepAll_forall₂ {f : α → τ → β × τ} {P : ρ → α → Prop} {Q : ρ → β → Prop}
    (hstep : ∀ c x s, P c x → Q c (f x s).1) {cs : List ρ} {xs : List α}
    (h : List.Forall₂ P cs xs) (s : τ) : List.Forall₂ Q cs (stepAll f xs s).1 := by
  induction h generalizing s with
  | nil => exact .nil
  | cons hx _ ih => exact .cons (hstep _ _ s hx) (ih _)

/-- Steps that leave the state alone. -/
theorem stepAll_eq_map {f : α → τ → β × τ} {g : α → β} {xs : List α}
    (h : ∀ x ∈ xs, ∀ s, f x s = (g x, s)) (s : τ) : stepAll f xs s = (xs.map g, s) := by
  induction xs with
  | nil => rfl
  | cons x xs ih =>
    rw [List.forall_mem_cons] at h
    rw [stepAll, h.1 s, ih h.2, List.map_cons]

/-- The second list has a partner for each item of the first one, in the same order, but for some
that it leaves out. -/
inductive Thin (A : α → α' → Prop) (V : α → Prop) : List α → List α' → Prop where
  | nil : Thin A V [] []
  | kept {x x' xs xs'} (h : A x x') (hrest : Thin A V xs xs') : Thin A V (x :: xs) (x' :: xs')
  | dropped {x xs xs'} (h : V x) (hrest : Thin A V xs xs') : Thin A V (x :: xs) xs'

private theorem thin_filter {A : α → α → Prop} {V : α → Prop} {xs : List α} {p : α → Bool}
    (hkept : ∀ x ∈ xs, A x x) (hdropped : ∀ x ∈ xs, p x = false → V x) :
    Thin A V xs (xs.filter p) := by
  induction xs with
  | nil => exact .nil
  | cons x xs ih =>
    rw [List.forall_mem_cons] at hkept hdropped
    cases hp : p x with
    | true =>
      rw [List.filter_cons_of_pos hp]
      exact .kept hkept.1 (ih hkept.2 hdropped.2)
    | false =>
      rw [List.filter_cons_of_neg (by simp [hp])]
      exact .dropped (hdropped.1 hp) (ih hkept.2 hdropped.2)

private theorem Thin.map {γ γ' : Type} {A : γ → γ' → Prop} {V : γ → Prop} {f : α → γ} {f' : α' → γ'}
    {xs : List α} {xs' : List α'}
    (h : Thin (fun x x' => A (f x) (f' x')) (fun x => V (f x)) xs xs') :
    Thin A V (xs.map f) (xs'.map f') := by
  induction h with
  | nil => exact .nil
  | kept h _ ih => exact .kept h ih
  | dropped h _ ih => exact .dropped h ih

/-- Steps for items that the second list leaves out change nothing that the others look at. -/
theorem Thin.steps {f : α → τ → β × τ} {f' : α' → τ → β' × τ} {part : τ → ρ} {A : α → α' → Prop}
    {V : α → Prop} {B : β → β' → Prop} {W : β → Prop}
    (hkept : ∀ x x' s t, A x x' → part s = part t →
      B (f x s).1 (f' x' t).1 ∧ part (f x s).2 = part (f' x' t).2)
    (hdropped : ∀ x s, V x → W (f x s).1 ∧ part (f x s).2 = part s)
    {xs : List α} {xs' : List α'} (h : Thin A V xs xs') {s t : τ} (hst : part s = part t) :
    Thin B W (stepAll f xs s).1 (stepAll f' xs' t).1 ∧
      part (stepAll f xs s).2 = part (stepAll f' xs' t).2 := by
  induction h generalizing s t with
  | nil => exact ⟨.nil, hst⟩
  | kept hx _ ih =>
    obtain ⟨hitem, hstate⟩ := hkept _ _ s t hx hst
    exact ⟨.kept hitem (ih hstate).1, (ih hstate).2⟩
  | dropped hx _ ih =>
    obtain ⟨hitem, hstate⟩ := hdropped _ s hx
    exact ⟨.dropped hitem (ih (hstate.trans hst)).1, (ih (hstate.trans hst)).2⟩

/-! ## Courses -/

namespace Course

/-- The course may come to this outcome, depending on what others do while it waits. -/
inductive MayEnd : Course τ α → Except Fault α → Prop where
  | ended (r : Except Fault α) (s : τ) : MayEnd (ended r s) r
  | waiting {s : τ} {resume : τ → Course τ α} {r : Except Fault α} (u : τ)
      (h : MayEnd (resume u) r) : MayEnd (waiting s resume) r

private theorem mayEnd_finish (c : Course τ α) : c.MayEnd c.finish.1 := by
  induction c with
  | ended r s => exact .ended r s
  | waiting s resume ih => exact .waiting s (ih s)

/-- Two courses that do the same in view of a part of the state. -/
def Alike (part : τ → ρ) : Course τ α → Course τ α → Prop
  | ended r s, ended r' s' => r = r' ∧ part s = part s'
  | waiting s resume, waiting s' resume' =>
    part s = part s' ∧ ∀ u u', part u = part u' → (resume u).Alike part (resume' u')
  | _, _ => False

private theorem Alike.finish {part : τ → ρ} {c c' : Course τ α} (h : c.Alike part c') :
    c.finish.1 = c'.finish.1 ∧ part c.finish.2 = part c'.finish.2 := by
  induction c generalizing c' with
  | ended r s =>
    cases c' with
    | ended r' s' => exact h
    | waiting s' resume' => exact h.elim
  | waiting s resume ih =>
    cases c' with
    | ended r' s' => exact h.elim
    | waiting s' resume' =>
      have hrest := ih s (h.2 s s' h.1)
      exact hrest

private theorem Alike.hurried {part : τ → ρ} {c c' : Course τ α} (h : c.Alike part c') :
    c.hurried.Alike part c'.hurried := h.finish

private theorem alike_self (c : Course τ α) : c.Alike id c := by
  induction c with
  | ended r s => exact ⟨rfl, rfl⟩
  | waiting s resume ih =>
    refine ⟨rfl, ?_⟩
    rintro u _ rfl
    exact ih u

end Course

/-! ## Hooks -/

/-- A hook: any action on what hooks share.  It waits only if it may. -/
structure Handler (τ : Type) where
  mayWait : Bool
  act : Act τ Json

namespace Handler

/-- Call a hook that is waited for. -/
def call (h : Handler τ) : Act τ Json := if h.mayWait then h.act else h.act.hurried

/-- What the hook does to a part of the state depends on this part alone. -/
def Follows (part : τ → ρ) (h : Handler τ) : Prop :=
  ∀ s t, part s = part t → (h.act s).Alike part (h.act t)

/-- Whatever others do, the hook leaves a part of the state alone and fails. -/
structure IsVain (part : τ → ρ) (h : Handler τ) : Prop where
  still : h.act.Within (.keeping part)
  fails : ∀ s r, (h.act s).MayEnd r → ∃ f, r = .error f

/-- The hook signs a log when it starts, and leaves the log alone from then on. -/
def Signs (log : τ → List Json) (name : Json) (h : Handler τ) : Prop :=
  ∃ (sign : τ → τ) (body : Act τ Json), (∀ s, h.act s = body (sign s)) ∧
    (∀ s, log (sign s) = log s ++ [name]) ∧ body.Within (.keeping log)

variable {h : Handler τ} {part : τ → ρ}

private theorem Follows.call (hf : h.Follows part) {s t : τ} (hst : part s = part t) :
    (h.call s).Alike part (h.call t) := by
  unfold Handler.call
  split
  · exact hf s t hst
  · exact (hf s t hst).hurried

/-- In view of the whole state every hook does what it does. -/
theorem follows_id (h : Handler τ) : h.Follows id := by
  rintro s _ rfl
  exact (h.act s).alike_self

private theorem within_call {D : Drift τ} {s : τ} (hw : (h.act s).Within D s) :
    (h.call s).Within D s := by
  unfold call
  split
  · exact hw
  · exact hw.hurried

private theorem mayEnd_of_call {s : τ} {r : Except Fault Json} (hr : (h.call s).MayEnd r) :
    (h.act s).MayEnd r := by
  unfold call at hr
  split at hr
  · exact hr
  · cases hr
    exact (h.act s).mayEnd_finish

private theorem keeps_call {P : τ → Prop} {s : τ} (hk : (h.act s).Keeps P) :
    (h.call s).Keeps P := by
  unfold call
  split
  · exact hk
  · exact hk.finish

end Handler

/-- An extension as far as one hook is concerned: its name, and the hook if it declares it. -/
structure Callee (τ : Type) where
  name : Json
  hook : Option (Handler τ)

/-- How the call of a hook stands: there is none, it is over, or it waits. -/
inductive Ongoing (τ : Type) where
  | absent
  | ended (r : Except Fault Json)
  | waiting (resume : τ → Course τ Json)

namespace Ongoing

/-- Where a course has come to, and the state that it leaves. -/
def ofCourse : Course τ Json → Ongoing τ × τ
  | .ended r s => (.ended r, s)
  | .waiting s resume => (.waiting resume, s)

/-- A call that waits goes on to its next wait. -/
def goOn : Ongoing τ → τ → Ongoing τ × τ
  | waiting resume, s => ofCourse (resume s)
  | o, s => (o, s)

/-- A call that waits goes on to its end. -/
def finish : Ongoing τ → τ → Ongoing τ × τ
  | waiting resume, s => (ended (resume s).finish.1, (resume s).finish.2)
  | o, s => (o, s)

/-- The answer of a call; none if there is no hook, and after a failure. -/
def answer? : Ongoing τ → Option Json
  | ended r => r.toOption
  | _ => none

/-- Null stands for no answer. -/
def answer (o : Ongoing τ) : Json := o.answer?.getD .null

end Ongoing

namespace Callee

/-- Start the hook, if there is one. -/
def start (c : Callee τ) (s : τ) : Ongoing τ × τ :=
  match c.hook with
  | none => (.absent, s)
  | some h => Ongoing.ofCourse (h.call s)

/-- Call the hook without waiting for it; its answer, unless there is none or it fails.  A hook that
may wait does nothing then. -/
def tell (c : Callee τ) (s : τ) : List Json × τ :=
  match c.hook with
  | none => ([], s)
  | some h =>
    if h.mayWait then ([.null], s) else ((h.act.exec s).1.toOption.toList, (h.act.exec s).2)

/-- The value answers the call: null if there is no hook or it fails, and its own answer else. -/
def Answers (c : Callee τ) (v : Json) : Prop :=
  match c.hook with
  | none => v = .null
  | some h => ∃ s r, (h.call s).MayEnd r ∧ v = r.toOption.getD .null

/-- The hook leaves a part of the state alone and fails, if there is one. -/
def IsVain (part : τ → ρ) (c : Callee τ) : Prop := ∀ h, c.hook = some h → h.IsVain part

/-- What the hook does to a part of the state depends on this part alone. -/
def Follows (part : τ → ρ) (c : Callee τ) : Prop := ∀ h, c.hook = some h → h.Follows part

end Callee

/-- The call of a hook, under the name of its extension. -/
def startCall (c : Callee τ) (s : τ) : (Json × Ongoing τ) × τ :=
  ((c.name, (c.start s).1), (c.start s).2)

/-- Some of the calls that wait go on, in their order. -/
def takeTurn (calls : List (Json × Ongoing τ) × τ) (goes : Json → Bool) :
    List (Json × Ongoing τ) × τ :=
  stepAll (fun x s => if goes x.1 then ((x.1, (x.2.goOn s).1), (x.2.goOn s).2) else (x, s)) calls.1
    calls.2

/-- Call a hook on every extension and wait for all of them.  All start in their order; then those
of the given names go on, turn by turn; what still waits after the last turn ends in its order.  Any
order in which extensions go on is a plan, made of turns for one of them each. -/
def gatherAll (roll : List (Callee τ)) (plan : List (Json → Bool)) (s : τ) : List Json × τ :=
  let calls := plan.foldl takeTurn (stepAll startCall roll s)
  let ended := stepAll (fun x s => x.2.finish s) calls.1 calls.2
  (ended.1.map Ongoing.answer, ended.2)

/-- Call a hook on every extension without waiting. -/
def tellEach (roll : List (Callee τ)) (s : τ) : List Json × τ :=
  ((stepAll Callee.tell roll s).1.flatten, (stepAll Callee.tell roll s).2)

variable {roll : List (Callee τ)} {plan : List (Json → Bool)}

/-! ## Answers -/

/-- How the call of a hook may stand. -/
inductive Callee.Has (c : Callee τ) : Ongoing τ → Prop where
  | absent (hnone : c.hook = none) : c.Has .absent
  | ended {h : Handler τ} (hhook : c.hook = some h) {s : τ} {r : Except Fault Json}
      (hend : (h.call s).MayEnd r) : c.Has (.ended r)
  | waiting {h : Handler τ} (hhook : c.hook = some h) {s : τ} {resume : τ → Course τ Json}
      (hend : ∀ u r, (resume u).MayEnd r → (h.call s).MayEnd r) : c.Has (.waiting resume)

namespace Callee

variable {c : Callee τ} {o : Ongoing τ}

private theorem has_ofCourse {h : Handler τ} (hhook : c.hook = some h) {s : τ}
    {course : Course τ Json}
    (hend : ∀ r, course.MayEnd r → (h.call s).MayEnd r) : c.Has (Ongoing.ofCourse course).1 := by
  cases course with
  | ended r t => exact .ended hhook (hend r (.ended r t))
  | waiting t resume => exact .waiting hhook fun u r hr => hend r (.waiting u hr)

private theorem has_start (c : Callee τ) (s : τ) : c.Has (c.start s).1 := by
  unfold start
  cases hhook : c.hook with
  | none => exact .absent hhook
  | some h => exact has_ofCourse hhook fun r hr => hr

private theorem Has.goOn (ho : c.Has o) (s : τ) : c.Has (o.goOn s).1 := by
  cases ho with
  | absent hnone => exact .absent hnone
  | ended hhook hend => exact .ended hhook hend
  | waiting hhook hend => exact has_ofCourse hhook fun r hr => hend s r hr

/-- After its end a call has its answer. -/
theorem Has.answers_finish (ho : c.Has o) (s : τ) : c.Answers (o.finish s).1.answer := by
  unfold Answers
  cases ho with
  | absent hnone =>
    rw [hnone]
    rfl
  | @ended h hhook t r hend =>
    rw [hhook]
    exact ⟨t, r, hend, rfl⟩
  | @waiting h hhook t resume hend =>
    rw [hhook]
    exact ⟨t, _, hend s _ (resume s).mayEnd_finish, rfl⟩

/-- A hook that fails whatever others do is answered for by null. -/
theorem IsVain.answers_eq_null {part : τ → ρ} (hc : c.IsVain part) {v : Json} (hv : c.Answers v) :
    v = .null := by
  unfold Answers at hv
  cases hhook : c.hook with
  | none =>
    rw [hhook] at hv
    exact hv
  | some h =>
    rw [hhook] at hv
    obtain ⟨s, r, hend, rfl⟩ := hv
    obtain ⟨f, rfl⟩ := (hc h hhook).fails s r (Handler.mayEnd_of_call hend)
    rfl

end Callee

/-- There is one answer for each extension, in their order. -/
theorem gatherAll_answers (roll : List (Callee τ)) (plan : List (Json → Bool)) (s : τ) :
    List.Forall₂ Callee.Answers roll (gatherAll roll plan s).1 := by
  have hstart : List.Forall₂ (fun c (x : Json × Ongoing τ) => Callee.Has c x.2) roll
      (stepAll startCall roll s).1 :=
    stepAll_forall₂ (P := Eq) (fun c x t hcx => hcx ▸ c.has_start t) (List.forall₂_refl roll) s
  have hturn : ∀ calls : List (Json × Ongoing τ) × τ,
      List.Forall₂ (fun c (x : Json × Ongoing τ) => Callee.Has c x.2) roll calls.1 →
      List.Forall₂ (fun c (x : Json × Ongoing τ) => Callee.Has c x.2) roll
        (plan.foldl takeTurn calls).1 := by
    induction plan with
    | nil => exact fun calls h => h
    | cons goes plan ih =>
      refine fun calls h => ih _ (stepAll_forall₂ ?_ h calls.2)
      intro c x t hx
      split
      · exact hx.goOn t
      · exact hx
  have hfinish := stepAll_forall₂ (Q := fun c o => Callee.Answers c (Ongoing.answer o))
    (fun c x t (hx : c.Has x.2) => hx.answers_finish t) (hturn _ hstart)
    (plan.foldl takeTurn (stepAll startCall roll s)).2
  exact List.forall₂_map_right_iff.2 hfinish

/-! ## Invariants -/

/-- Whenever the call goes on, it keeps an invariant. -/
def Ongoing.Keeps (P : τ → Prop) : Ongoing τ → Prop
  | waiting resume => ∀ u, P u → (resume u).Keeps P
  | _ => True

private theorem Ongoing.keeps_ofCourse {P : τ → Prop} {c : Course τ Json} (hc : c.Keeps P) :
    (ofCourse c).1.Keeps P ∧ P (ofCourse c).2 := by
  cases c with
  | ended r s => exact ⟨trivial, hc⟩
  | waiting s resume => exact ⟨hc.2, hc.1⟩

private theorem Ongoing.Keeps.goOn {P : τ → Prop} {o : Ongoing τ} (ho : o.Keeps P) {s : τ}
    (hs : P s) : (o.goOn s).1.Keeps P ∧ P (o.goOn s).2 := by
  cases o with
  | absent | ended r => exact ⟨trivial, hs⟩
  | waiting resume => exact keeps_ofCourse (ho s hs)

private theorem Ongoing.Keeps.finish {P : τ → Prop} {o : Ongoing τ} (ho : o.Keeps P) {s : τ}
    (hs : P s) : P (o.finish s).2 := by
  cases o with
  | absent | ended r => exact hs
  | waiting resume => exact (ho s hs).finish

/-- An invariant that calls keep while they go on. -/
theorem foldl_takeTurn_keeps (plan : List (Json → Bool)) {P : τ → Prop}
    {calls : List (Json × Ongoing τ) × τ}
    (hcalls : ∀ x ∈ calls.1, x.2.Keeps P) (hs : P calls.2) :
    (∀ x ∈ (plan.foldl takeTurn calls).1, x.2.Keeps P) ∧ P (plan.foldl takeTurn calls).2 := by
  induction plan generalizing calls with
  | nil => exact ⟨hcalls, hs⟩
  | cons goes plan ih =>
    have hturn : (∀ x ∈ (takeTurn calls goes).1, x.2.Keeps P) ∧ P (takeTurn calls goes).2 := by
      refine stepAll_inv ?_ hcalls hs
      intro x t hx ht
      split
      · exact hx.goOn ht
      · exact ⟨hx, ht⟩
    exact ih hturn.1 hturn.2

/-- What calls keep until they all are over. -/
theorem finish_keeps {P : τ → Prop} {calls : List (Json × Ongoing τ) × τ}
    (hcalls : ∀ x ∈ calls.1, x.2.Keeps P) (hs : P calls.2) :
    P (stepAll (fun (x : Json × Ongoing τ) s => x.2.finish s) calls.1 calls.2).2 :=
  (stepAll_inv (W := fun _ => True) (fun _ _ hx ht => ⟨trivial, hx.finish ht⟩) hcalls hs).2

/-- What every hook preserves, a call of all hooks preserves. -/
theorem gatherAll_keeps {P : τ → Prop}
    (hroll : ∀ c ∈ roll, ∀ h, c.hook = some h → h.act.Keeps P) {s : τ} (hs : P s) :
    P (gatherAll roll plan s).2 := by
  have hstart : ∀ (c : Callee τ) s, (∀ h, c.hook = some h → h.act.Keeps P) → P s →
      (startCall c s).1.2.Keeps P ∧ P (startCall c s).2 := by
    intro c s hc hs
    unfold startCall Callee.start
    cases hhook : c.hook with
    | none => exact ⟨trivial, hs⟩
    | some h => exact Ongoing.keeps_ofCourse (Handler.keeps_call (hc h hhook s hs))
  obtain ⟨hcalls, hstate⟩ :=
    stepAll_inv (W := fun x : Json × Ongoing τ => x.2.Keeps P) hstart hroll hs
  obtain ⟨hcalls, hstate⟩ := foldl_takeTurn_keeps plan hcalls hstate
  exact finish_keeps hcalls hstate

/-- What every handler keeps the whole round keeps. -/
theorem tellEach_keeps {P : τ → Prop}
    (hroll : ∀ c ∈ roll, ∀ h, c.hook = some h → h.act.Keeps P) {s : τ} (hs : P s) :
    P (tellEach roll s).2 := by
  have htell : ∀ (c : Callee τ) s, (∀ h, c.hook = some h → h.act.Keeps P) → P s →
      True ∧ P (c.tell s).2 := by
    intro c s hc hs
    refine ⟨trivial, ?_⟩
    unfold Callee.tell
    cases hhook : c.hook with
    | none => exact hs
    | some h =>
      dsimp only
      split
      · exact hs
      · exact (hc h hhook s hs).finish
  exact (stepAll_inv (W := fun _ => True) htell hroll hs).2

/-! ## The log of calls -/

/-- The names of the extensions that have the hook. -/
def callees (roll : List (Callee τ)) : List Json :=
  roll.filterMap fun c => c.hook.map fun _ => c.name

private theorem Course.Within.keeps_log {log : τ → List Json} {names : List Json} {s : τ}
    {c : Course τ α} (hc : c.Within (.keeping log) s) (hs : log s = names) :
    c.Keeps (log · = names) := by
  induction c generalizing s with
  | ended r t => exact Eq.trans hc hs
  | waiting t resume ih => exact ⟨Eq.trans hc.1 hs, fun u hu => ih u (hc.2 u) hu⟩

/-- Where a hook that signs has come to: it has signed, and what it still does leaves the log
alone. -/
theorem Callee.start_log {log : τ → List Json} {c : Callee τ}
    (hc : ∀ h, c.hook = some h → h.Signs log c.name) (s : τ) :
    log (c.start s).2 = log s ++ callees [c] ∧
      ∀ names, (c.start s).1.Keeps (log · = names) := by
  unfold Callee.start callees
  cases hhook : c.hook with
  | none => exact ⟨by simp [hhook], fun _ => trivial⟩
  | some h =>
    obtain ⟨sign, body, hact, hsign, hbody⟩ := hc h hhook
    have hwithin : (h.call s).Within (.keeping log) (sign s) := by
      unfold Handler.call
      split
      · rw [hact]
        exact hbody (sign s)
      · rw [Act.hurried, hact]
        exact (hbody (sign s)).hurried
    have hname : log (sign s) = log s ++ [c].filterMap fun c => c.hook.map fun _ => c.name := by
      simp [hhook, hsign]
    dsimp only
    cases hcall : h.call s with
    | ended r t =>
      rw [hcall] at hwithin
      exact ⟨Eq.trans hwithin hname, fun _ => trivial⟩
    | waiting t resume =>
      rw [hcall] at hwithin
      exact ⟨Eq.trans hwithin.1 hname, fun names u hu => (hwithin.2 u).keeps_log hu⟩

/-- If hooks sign a log when they start, then those that there are have signed it, once each and in
the order of registration. -/
theorem gatherAll_log {log : τ → List Json}
    (hroll : ∀ c ∈ roll, ∀ h, c.hook = some h → h.Signs log c.name) (s : τ) :
    log (gatherAll roll plan s).2 = log s ++ callees roll := by
  have hstart : ∀ s, log (stepAll startCall roll s).2 = log s ++ callees roll ∧
      ∀ x ∈ (stepAll startCall roll s).1, ∀ names, x.2.Keeps (log · = names) := by
    induction roll with
    | nil => exact fun s => ⟨by simp [stepAll, callees], fun x hx => absurd hx List.not_mem_nil⟩
    | cons c roll ih =>
      rw [List.forall_mem_cons] at hroll
      intro s
      obtain ⟨hlog, hkeeps⟩ := c.start_log hroll.1 s
      obtain ⟨hrest, hcalls⟩ := ih hroll.2 (c.start s).2
      have hsplit : callees (c :: roll) = callees [c] ++ callees roll := by
        rw [callees, ← List.singleton_append, List.filterMap_append]
        rfl
      refine ⟨?_, List.forall_mem_cons.2 ⟨hkeeps, hcalls⟩⟩
      rw [hsplit, ← List.append_assoc, ← hlog]
      exact hrest
  obtain ⟨hcalls, hstate⟩ :=
    foldl_takeTurn_keeps plan (fun x hx => (hstart s).2 x hx _) (hstart s).1
  exact finish_keeps hcalls hstate

/-! ## Hooks that might as well not be there -/

namespace Ongoing

variable {part : τ → ρ} {o o' : Ongoing τ} {s t : τ}

/-- Whenever the call goes on, it leaves a part of the state alone. -/
def Still (part : τ → ρ) : Ongoing τ → Prop
  | waiting resume => ∀ u, (resume u).Within (.keeping part) u
  | _ => True

/-- Two calls that do the same in view of a part of the state. -/
def Alike (part : τ → ρ) : Ongoing τ → Ongoing τ → Prop
  | waiting resume, waiting resume' =>
    ∀ u u', part u = part u' → (resume u).Alike part (resume' u')
  | ended r, ended r' => r = r'
  | absent, absent => True
  | _, _ => False

private theorem still_ofCourse {c : Course τ Json} (hc : c.Within (.keeping part) s) :
    (ofCourse c).1.Still part ∧ part (ofCourse c).2 = part s := by
  cases c with
  | ended r t => exact ⟨trivial, hc⟩
  | waiting t resume => exact ⟨hc.2, hc.1⟩

private theorem alike_ofCourse {c c' : Course τ Json} (h : c.Alike part c') :
    (ofCourse c).1.Alike part (ofCourse c').1 ∧ part (ofCourse c).2 = part (ofCourse c').2 := by
  cases c <;> cases c'
  · exact h
  · exact h.elim
  · exact h.elim
  · exact ⟨h.2, h.1⟩

private theorem Still.goOn (ho : o.Still part) (s : τ) :
    (o.goOn s).1.Still part ∧ part (o.goOn s).2 = part s := by
  cases o with
  | absent | ended r => exact ⟨trivial, rfl⟩
  | waiting resume => exact still_ofCourse (ho s)

private theorem Still.finish (ho : o.Still part) (s : τ) : part (o.finish s).2 = part s := by
  cases o with
  | absent | ended r => rfl
  | waiting resume => exact (ho s).finish

private theorem Alike.goOn (ho : o.Alike part o') (hst : part s = part t) :
    (o.goOn s).1.Alike part (o'.goOn t).1 ∧ part (o.goOn s).2 = part (o'.goOn t).2 := by
  cases o <;> cases o' <;> try exact ho.elim
  · exact ⟨trivial, hst⟩
  · exact ⟨ho, hst⟩
  · exact alike_ofCourse (ho s t hst)

private theorem Alike.finish (ho : o.Alike part o') (hst : part s = part t) :
    part (o.finish s).2 = part (o'.finish t).2 := by
  cases o <;> cases o' <;> try exact ho.elim
  · exact hst
  · exact hst
  · exact (ho s t hst).finish.2

end Ongoing

variable {part : τ → ρ}

private theorem Callee.IsVain.start {c : Callee τ} (hc : c.IsVain part) (s : τ) :
    (c.start s).1.Still part ∧ part (c.start s).2 = part s := by
  unfold Callee.start
  cases hhook : c.hook with
  | none => exact ⟨trivial, rfl⟩
  | some h => exact Ongoing.still_ofCourse (Handler.within_call ((hc h hhook).still s))

private theorem Callee.Follows.start {c : Callee τ} (hc : c.Follows part) {s t : τ}
    (hst : part s = part t) :
    (c.start s).1.Alike part (c.start t).1 ∧ part (c.start s).2 = part (c.start t).2 := by
  unfold Callee.start
  cases hhook : c.hook with
  | none => exact ⟨trivial, hst⟩
  | some h => exact Ongoing.alike_ofCourse ((hc h hhook).call hst)

/-- Calls without those that leave alone what the others look at. -/
abbrev ThinCalls (part : τ → ρ) (xs xs' : List (Json × Ongoing τ)) : Prop :=
  Thin (fun x x' => x.1 = x'.1 ∧ x.2.Alike part x'.2) (fun x => x.2.Still part) xs xs'

private theorem foldl_takeTurn_thin (plan : List (Json → Bool))
    {calls calls' : List (Json × Ongoing τ) × τ}
    (hcalls : ThinCalls part calls.1 calls'.1) (hst : part calls.2 = part calls'.2) :
    ThinCalls part (plan.foldl takeTurn calls).1 (plan.foldl takeTurn calls').1 ∧
      part (plan.foldl takeTurn calls).2 = part (plan.foldl takeTurn calls').2 := by
  induction plan generalizing calls calls' with
  | nil => exact ⟨hcalls, hst⟩
  | cons goes plan ih =>
    have hturn : ThinCalls part (takeTurn calls goes).1 (takeTurn calls' goes).1 ∧
        part (takeTurn calls goes).2 = part (takeTurn calls' goes).2 := by
      refine hcalls.steps ?_ ?_ hst
      · rintro ⟨name, o⟩ ⟨_, o'⟩ s t ⟨rfl, ho⟩ hst
        dsimp only
        split
        · obtain ⟨hitem, hstate⟩ := ho.goOn hst
          exact ⟨⟨rfl, hitem⟩, hstate⟩
        · exact ⟨⟨rfl, ho⟩, hst⟩
      · rintro ⟨name, o⟩ s ho
        dsimp only
        split
        · exact ho.goOn s
        · exact ⟨ho, rfl⟩
    exact ih hturn.1 hturn.2

/-- Extensions without some whose hooks leave a part of the state alone. -/
abbrev ThinRoll (part : τ → ρ) (roll roll' : List (Callee τ)) : Prop :=
  Thin (fun c c' => c = c' ∧ c.Follows part) (Callee.IsVain part) roll roll'

/-- Callees that work on a part of the state may be left out if they do nothing to it. -/
theorem thinRoll_map {callee : α → Callee τ} {xs : List α} {kept : α → Bool}
    (hkept : ∀ x ∈ xs, (callee x).Follows part)
    (hvain : ∀ x ∈ xs, kept x = false → (callee x).IsVain part) :
    ThinRoll part (xs.map callee) ((xs.filter kept).map callee) :=
  (thin_filter (fun x hx => ⟨rfl, hkept x hx⟩) hvain).map

/-- In view of a part of the state, hooks that leave it alone might as well not be there. -/
theorem gatherAll_thin {roll' : List (Callee τ)} (hroll : ThinRoll part roll roll') {s t : τ}
    (hst : part s = part t) :
    part (gatherAll roll plan s).2 = part (gatherAll roll' plan t).2 := by
  have hstarted : ThinCalls part (stepAll startCall roll s).1 (stepAll startCall roll' t).1 ∧
      part (stepAll startCall roll s).2 = part (stepAll startCall roll' t).2 := by
    refine hroll.steps ?_ (fun c s hc => hc.start s) hst
    rintro c _ s t ⟨rfl, hc⟩ hst
    obtain ⟨hitem, hstate⟩ := hc.start hst
    exact ⟨⟨rfl, hitem⟩, hstate⟩
  obtain ⟨hcalls, hstate⟩ := foldl_takeTurn_thin plan hstarted.1 hstarted.2
  exact (hcalls.steps (B := fun _ _ => True) (W := fun _ => True)
    (fun x x' s t hx hst => ⟨trivial, hx.2.finish hst⟩)
    (fun x s hx => ⟨trivial, hx.finish s⟩) hstate).2

private theorem Callee.IsVain.tell {c : Callee τ} (hc : c.IsVain part) (s : τ) :
    part (c.tell s).2 = part s := by
  unfold Callee.tell
  cases hhook : c.hook with
  | none => rfl
  | some h =>
    dsimp only
    split
    · rfl
    · exact ((hc h hhook).still s).finish

private theorem Callee.Follows.tell {c : Callee τ} (hc : c.Follows part) {s t : τ}
    (hst : part s = part t) : part (c.tell s).2 = part (c.tell t).2 := by
  unfold Callee.tell
  cases hhook : c.hook with
  | none => exact hst
  | some h =>
    dsimp only
    split
    · exact hst
    · exact (hc h hhook s t hst).finish.2

/-- Callees that do nothing to a part of the state make no difference to it. -/
theorem tellEach_thin {roll' : List (Callee τ)} (hroll : ThinRoll part roll roll') {s t : τ}
    (hst : part s = part t) : part (tellEach roll s).2 = part (tellEach roll' t).2 := by
  have hswept : Thin (fun _ _ => True) (fun _ => True) (stepAll Callee.tell roll s).1
        (stepAll Callee.tell roll' t).1 ∧
      part (stepAll Callee.tell roll s).2 = part (stepAll Callee.tell roll' t).2 := by
    refine hroll.steps ?_ (fun c s hc => ⟨trivial, hc.tell s⟩) hst
    rintro c _ s t ⟨rfl, hc⟩ hst
    exact ⟨trivial, hc.tell hst⟩
  exact hswept.2

/-! ## The calls of the editor -/

namespace ExtensionHook

/-- The outcome of a hook with an answer or none. -/
def outcome (h : ExtensionHook) (answer : Option Json) : Except Fault Json :=
  answer.elim (.error (.raised (h.raises.getD default))) .ok

/-- A hook does its deeds and ends with its answer, or fails. -/
def conclude (owner : Json) (name : String) (h : ExtensionHook) : Act Scene Json :=
  Act.ofExec fun s => (h.outcome (h.perform owner name s).1, (h.perform owner name s).2)

/-- The hook as an action: it is seen to start, waits, and does its deeds. -/
def handler (owner : Json) (name : String) (h : ExtensionHook) : Handler Scene where
  mayWait := h.mayWait
  act := do
    modify (start owner name)
    Act.waitFor h.ticks
    h.conclude owner name

variable {h : ExtensionHook} {owner : Json} {name : String}

/-- What is left of a hook that has so many waits before it. -/
def rest (owner : Json) (name : String) (h : ExtensionHook) (waits : Nat) (s : Scene) :
    Course Scene Json := (Act.waitFor waits >>= fun _ => h.conclude owner name) s

private theorem rest_zero (s : Scene) : h.rest owner name 0 s =
    .ended ((h.conclude owner name).exec s).1 (h.perform owner name s).2 := rfl

private theorem rest_succ (waits : Nat) (s : Scene) :
    h.rest owner name (waits + 1) s = .waiting s (h.rest owner name waits) := rfl

private theorem call_handler (s : Scene) :
    (h.handler owner name).call s = h.rest owner name h.wait (start owner name s) := by
  unfold Handler.call wait
  split
  · rename_i hwaits
    have hmay : h.mayWait = true := hwaits
    rw [if_pos hmay]
    rfl
  · rename_i hwaits
    have hmay : ¬ h.mayWait = true := hwaits
    have hexec : (h.handler owner name).act.exec s =
        (h.conclude owner name).exec (start owner name s) := by
      simp [handler, Act.exec_bind]
    rw [if_neg hmay]
    exact congrArg (fun x => Course.ended x.1 x.2) hexec

private theorem toOption_conclude (s : Scene) :
    ((h.conclude owner name).exec s).1.toOption = (h.perform owner name s).1 := by
  rw [conclude, Act.exec_ofExec]
  cases (h.perform owner name s).1 <;> rfl

end ExtensionHook

namespace Extension

/-- A declared hook is stored under its name. -/
theorem mem_of_hook? {x : Extension} {name : String} {h : ExtensionHook}
    (hhook : x.hook? name = some h) : (name, some h) ∈ x.hooks := by
  unfold hook? at hhook
  split at hhook
  · rename_i found hfound
    subst hhook
    exact Table.mem_of_get? hfound
  · cases hhook

/-- The extension as far as the hook of this name is concerned. -/
def callee (name : String) (x : Extension) : Callee Scene :=
  ⟨x.name, (x.hook? name).map fun h => h.handler x.name name⟩

variable {name : String} {es : List Extension}

/-- An announcement is a round of calls without waits. -/
theorem announce_eq_tellEach (name : String) (es : List Extension) (s : Scene) :
    announce name es s = tellEach (es.map (callee name)) s := by
  induction es generalizing s with
  | nil => rfl
  | cons x es ih =>
    cases hhook : x.hook? name with
    | none =>
      have htell : (x.callee name).tell s = ([], s) := by simp [Callee.tell, callee, hhook]
      simp only [announce, hhook, ih, List.map_cons, tellEach, stepAll, htell, List.flatten_cons,
        List.nil_append]
    | some h =>
      by_cases hmay : h.mayWait = true
      · have htell : (x.callee name).tell s = ([.null], s) := by
          simp [Callee.tell, callee, hhook, ExtensionHook.handler, hmay]
        simp only [announce, hhook, hmay, ih, List.map_cons, tellEach, stepAll, htell,
          List.flatten_cons, if_true, List.singleton_append]
      · have hexec : (h.handler x.name name).act.exec s =
            (h.conclude x.name name).exec (ExtensionHook.start x.name name s) := by
          simp [ExtensionHook.handler, Act.exec_bind]
        have htell : (x.callee name).tell s =
            ((h.perform x.name name (ExtensionHook.start x.name name s)).1.toList,
              (h.perform x.name name (ExtensionHook.start x.name name s)).2) := by
          have hhandler : ¬ (h.handler x.name name).mayWait = true := hmay
          simp only [Callee.tell, callee, hhook, Option.map_some, hhandler, hexec,
            ExtensionHook.toOption_conclude]
          rfl
        simp only [announce, hhook, hmay, ih, List.map_cons, tellEach, stepAll, htell,
          List.flatten_cons]
        rfl

/-- How a hook of a broadcast stands before a round, and the call that it stands for. -/
inductive Standing.Shows (name : String) (last round : Nat) :
    Standing → Json × Ongoing Scene → Prop where
  | absent (owner : Json) : Shows name last round (.answered none) (owner, .absent)
  | ended (owner : Json) (r : Except Fault Json) :
      Shows name last round (.answered r.toOption) (owner, .ended r)
  | waiting (owner : Json) (h : ExtensionHook) (hround : round ≤ h.wait) (hlast : h.wait ≤ last) :
      Shows name last round (.waiting owner h)
        (owner, .waiting (h.rest owner name (h.wait - round)))

private theorem forall₂_startAll (name : String) (es : List Extension) {last : Nat} (s : Scene)
    (hlast : longestWait (startAll name es s).1 ≤ last) :
    List.Forall₂ (Standing.Shows name last 1) (startAll name es s).1
        (stepAll startCall (es.map (callee name)) s).1 ∧
      (startAll name es s).2 = (stepAll startCall (es.map (callee name)) s).2 := by
  induction es generalizing s with
  | nil => exact ⟨.nil, rfl⟩
  | cons x es ih =>
    cases hhook : x.hook? name with
    | none =>
      have hstart : startCall (x.callee name) s = ((x.name, .absent), s) := by
        simp [startCall, Callee.start, callee, hhook]
      simp only [startAll, hhook, longestWait] at hlast ⊢
      rw [List.map_cons, stepAll, hstart]
      exact ⟨.cons (.absent _) (ih s hlast).1, (ih s hlast).2⟩
    | some h =>
      have hcall : startCall (x.callee name) s =
          ((x.name, (Ongoing.ofCourse (h.rest x.name name h.wait
            (ExtensionHook.start x.name name s))).1),
            (Ongoing.ofCourse (h.rest x.name name h.wait
              (ExtensionHook.start x.name name s))).2) := by
        rw [← ExtensionHook.call_handler]
        simp [startCall, Callee.start, callee, hhook]
      rw [List.map_cons, stepAll, hcall]
      cases hwait : h.wait with
      | zero =>
        simp only [startAll, hhook, hwait, if_true, longestWait] at hlast ⊢
        refine ⟨.cons ?_ (ih _ hlast).1, (ih _ hlast).2⟩
        rw [← ExtensionHook.toOption_conclude]
        exact .ended _ _
      | succ k =>
        simp only [startAll, hhook, hwait, Nat.succ_ne_zero, if_false, longestWait] at hlast ⊢
        rw [Nat.max_le] at hlast
        refine ⟨.cons ?_ (ih _ hlast.2).1, (ih _ hlast.2).2⟩
        have hwaits : Standing.Shows name last 1 (.waiting x.name h)
          (x.name, .waiting (h.rest x.name name (h.wait - 1))) := .waiting _ _ (by omega) (by omega)
        rwa [hwait, Nat.add_sub_cancel] at hwaits

/-- A round is a turn in which all calls go on. -/
theorem forall₂_finishRound {last round : Nat} {sts : List Standing}
    {calls : List (Json × Ongoing Scene)}
    (h : List.Forall₂ (Standing.Shows name last round) sts calls)
    (s : Scene) :
    List.Forall₂ (Standing.Shows name last (round + 1)) (finishRound name round sts s).1
        (takeTurn (calls, s) fun _ => true).1 ∧
      (finishRound name round sts s).2 = (takeTurn (calls, s) fun _ => true).2 := by
  induction h generalizing s with
  | nil => exact ⟨.nil, rfl⟩
  | cons hshows _ ih =>
    cases hshows with
    | absent owner => exact ⟨.cons (.absent owner) (ih s).1, (ih s).2⟩
    | ended owner r => exact ⟨.cons (.ended owner r) (ih s).1, (ih s).2⟩
    | waiting owner h hround hlast =>
      by_cases hover : h.wait = round
      · simp only [finishRound, hover, if_true]
        rw [takeTurn, stepAll]
        dsimp only [Ongoing.goOn]
        rw [if_pos rfl, Nat.sub_self, ExtensionHook.rest_zero, ← ExtensionHook.toOption_conclude]
        exact ⟨.cons (.ended _ _) (ih _).1, (ih _).2⟩
      · obtain ⟨k, hk⟩ : ∃ k, h.wait - round = k + 1 := ⟨h.wait - round - 1, by omega⟩
        have hnext : k = h.wait - (round + 1) := by omega
        simp only [finishRound, hover, if_false]
        rw [takeTurn, stepAll]
        dsimp only [Ongoing.goOn]
        rw [if_pos rfl, hk, ExtensionHook.rest_succ, hnext]
        exact ⟨.cons (.waiting owner h (by omega) hlast) (ih s).1, (ih s).2⟩

private theorem forall₂_finishRounds {last round : Nat} (left : Nat) {sts : List Standing}
    {calls : List (Json × Ongoing Scene)}
    (h : List.Forall₂ (Standing.Shows name last round) sts calls)
    (s : Scene) :
    List.Forall₂ (Standing.Shows name last (round + left)) (finishRounds name left round sts s).1
        ((List.replicate left fun _ => true).foldl takeTurn (calls, s)).1 ∧
      (finishRounds name left round sts s).2 =
        ((List.replicate left fun _ => true).foldl takeTurn (calls, s)).2 := by
  induction left generalizing round sts calls s with
  | zero => exact ⟨h, rfl⟩
  | succ left ih =>
    obtain ⟨hround, hstate⟩ := forall₂_finishRound h s
    have hcalls : ((takeTurn (calls, s) fun _ => true).1, (finishRound name round sts s).2) =
        takeTurn (calls, s) fun _ => true := Prod.ext rfl hstate
    obtain ⟨hrest, hend⟩ := ih hround (finishRound name round sts s).2
    rw [hcalls] at hrest hend
    rw [Nat.add_right_comm] at hrest
    exact ⟨hrest, hend⟩

/-- After the longest wait all calls are over. -/
theorem ended_of_forall₂ {last : Nat} {sts : List Standing} {calls : List (Json × Ongoing Scene)}
    (h : List.Forall₂ (Standing.Shows name last (last + 1)) sts calls) :
    (∀ x ∈ calls, ∀ s, x.2.goOn s = (x.2, s) ∧ x.2.finish s = (x.2, s)) ∧
      sts.map Standing.answer = calls.map fun x => x.2.answer := by
  induction h with
  | nil => exact ⟨fun x hx => absurd hx List.not_mem_nil, rfl⟩
  | cons hshows _ ih =>
    rw [List.forall_mem_cons, List.map_cons, List.map_cons, ih.2]
    cases hshows with
    | absent owner => exact ⟨⟨fun _ => ⟨rfl, rfl⟩, ih.1⟩, rfl⟩
    | ended owner r => exact ⟨⟨fun _ => ⟨rfl, rfl⟩, ih.1⟩, rfl⟩
    | waiting owner h hround hlast => omega

/-- Turns change nothing once all calls are over. -/
theorem foldl_takeTurn_of_ended {calls : List (Json × Ongoing Scene) × Scene}
    (hover : ∀ x ∈ calls.1, ∀ s, x.2.goOn s = (x.2, s)) (plan : List (Json → Bool)) :
    plan.foldl takeTurn calls = calls := by
  have hturn : ∀ goes, takeTurn calls goes = calls := by
    intro goes
    refine (stepAll_eq_map (g := id) ?_ calls.2).trans (by rw [List.map_id])
    intro x hx s
    rw [hover x hx]
    exact ite_self _
  induction plan with
  | nil => rfl
  | cons goes plan ih => rw [List.foldl_cons, hturn, ih]

/-- A broadcast gathers the answers in rounds that are long enough. -/
theorem broadcast_eq_gatherAll (name : String) (es : List Extension) {rounds : Nat} (s : Scene)
    (hrounds : longestWait (startAll name es s).1 ≤ rounds) :
    broadcast name es s =
      gatherAll (es.map (callee name)) (List.replicate rounds fun _ => true) s := by
  obtain ⟨hstarted, hstate⟩ := forall₂_startAll name es s (Nat.le_refl _)
  obtain ⟨hshows, hend⟩ := forall₂_finishRounds (longestWait (startAll name es s).1) hstarted
    (startAll name es s).2
  have hcalls : ((stepAll startCall (es.map (callee name)) s).1, (startAll name es s).2) =
      stepAll startCall (es.map (callee name)) s := Prod.ext rfl hstate
  rw [hcalls] at hshows hend
  rw [Nat.add_comm] at hshows
  obtain ⟨hover, hanswers⟩ := ended_of_forall₂ hshows
  -- the rounds after the longest wait and the end of the gathering find nothing to do
  have hplan : List.replicate rounds (fun _ : Json => true) =
      List.replicate (longestWait (startAll name es s).1) (fun _ => true) ++
        List.replicate (rounds - longestWait (startAll name es s).1) fun _ => true := by
    rw [← List.replicate_add, Nat.add_sub_cancel' hrounds]
  have hfinish := stepAll_eq_map (f := fun (x : Json × Ongoing Scene) s => x.2.finish s)
    (g := Prod.snd) fun x hx s => (hover x hx s).2
  rw [gatherAll, hplan, List.foldl_append, foldl_takeTurn_of_ended fun x hx s => (hover x hx s).1]
  rw [hfinish, List.map_map, ← hend]
  exact Prod.ext hanswers rfl

end Extension

/-! ## What hooks leave of the outside -/

/-- Deeds leave the outside alone. -/
theorem Scene.outside_perform (ds : List Deed) (s : Scene) : (s.perform ds).2.outside = s.outside := by
  induction ds generalizing s with
  | nil => rfl
  | cons d ds ih =>
    rw [perform]
    split
    · exact ih _
    · rfl

/-- Deeds done, a hook leaves its subjects as the deeds do, and at most its end in the trace. -/
theorem ExtensionHook.perform_snd (owner : Json) (name : String) (h : ExtensionHook) (s : Scene) :
    (h.perform owner name s).2.subjects = (s.perform h.deeds).2.subjects ∧
      ((h.perform owner name s).2.outside = s.outside ∨
        (h.perform owner name s).2.outside = s.outside.record (.extensionDone owner name)) := by
  have houtside := Scene.outside_perform h.deeds s
  rw [perform]
  split
  · rename_i hrun
    rw [hrun] at houtside ⊢
    exact ⟨rfl, .inl houtside⟩
  · rename_i hrun
    rw [hrun] at houtside ⊢
    dsimp only at houtside ⊢
    split
    · exact ⟨rfl, .inl houtside⟩
    · refine ⟨rfl, .inr ?_⟩
      rw [Scene.record, houtside]

/-! ## What deeds preserve -/

variable {P : List Subject → Prop}

/-- A deed that fits its subjects preserves what is said of them. -/
def Deed.Keeps (P : List Subject → Prop) (d : Deed) : Prop :=
  ∀ ss ss', P ss → d.applied? ss = some ss' → P ss'

/-- The deeds of a hook preserve what is said of the subjects. -/
def ExtensionHook.Keeps (P : List Subject → Prop) (h : ExtensionHook) : Prop :=
  ∀ d ∈ h.deeds, Deed.Keeps P d

/-- The hook of this name preserves what is said of the subjects. -/
def Extension.Keeps (P : List Subject → Prop) (name : String) (x : Extension) : Prop :=
  ∀ h, x.hook? name = some h → h.Keeps P

private theorem Scene.perform_keeps {ds : List Deed} (hds : ∀ d ∈ ds, Deed.Keeps P d) {s : Scene}
    (hs : P s.subjects) : P (s.perform ds).2.subjects := by
  induction ds generalizing s with
  | nil => exact hs
  | cons d ds ih =>
    rw [Scene.perform]
    split
    · rename_i ss happlied
      exact ih (fun d' hd' => hds d' (List.mem_cons_of_mem d hd'))
        (hds d List.mem_cons_self _ _ hs happlied)
    · exact hs

private theorem ExtensionHook.perform_keeps {h : ExtensionHook} (hkeeps : h.Keeps P) (owner : Json)
    (name : String) {s : Scene} (hs : P s.subjects) : P (h.perform owner name s).2.subjects := by
  have hperform := Scene.perform_keeps hkeeps hs
  rw [perform]
  split
  · rename_i hrun
    rwa [hrun] at hperform
  · rename_i hrun
    rw [hrun] at hperform
    dsimp only
    split <;> exact hperform

namespace Extension

private theorem callee_keeps {name : String} {es : List Extension}
    (hes : ∀ x ∈ es, x.Keeps P name) :
    ∀ c ∈ es.map (callee name), ∀ h, c.hook = some h → h.act.Keeps fun s => P s.subjects := by
  intro c hc h hhook
  obtain ⟨x, hx, rfl⟩ := List.mem_map.1 hc
  obtain ⟨k, hk, rfl⟩ := Option.map_eq_some_iff.1 hhook
  exact .bind (.modify fun s hs => hs) fun _ => .bind (.waitFor _) fun _ s hs =>
    ExtensionHook.perform_keeps (hes x hx k hk) x.name name hs

/-- What the hooks of all extensions keep an announcement keeps. -/
theorem announce_keeps {name : String} {es : List Extension} (hes : ∀ x ∈ es, x.Keeps P name)
    {s : Scene} (hs : P s.subjects) : P (announce name es s).2.subjects := by
  rw [announce_eq_tellEach]
  exact tellEach_keeps (callee_keeps hes) hs

/-- What the hooks of all extensions keep a broadcast keeps. -/
theorem broadcast_keeps {name : String} {es : List Extension} (hes : ∀ x ∈ es, x.Keeps P name)
    {s : Scene} (hs : P s.subjects) : P (broadcast name es s).2.subjects := by
  rw [broadcast_eq_gatherAll name es s (Nat.le_refl _)]
  exact gatherAll_keeps (callee_keeps hes) hs

end Extension

end NodeFlow
