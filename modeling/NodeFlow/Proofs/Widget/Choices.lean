import Mathlib.Algebra.GroupWithZero.Nat
import NodeFlow.Editor.Definitions
import NodeFlow.Proofs.Compile.Pushes
import NodeFlow.Proofs.Table

/-!
# New choices for widgets

A widget that is offered choices lists them from then on.  Its value stays if it is one of them, and if
there are none; otherwise it becomes the first of them.  Widgets of some names keep any value.

The widgets of a node are offered what the definition of its class lists for them.  A definition lists
choices by name, and choice widgets alone ask for them.

Main results:

- Definition `Widget.Takes`: what becomes of a widget that is offered choices.
- Definitions `Widget.offered?`, `Widget.renewed` and `Widget.isReset`: what a definition offers, what
  becomes of the widget, and whether it loses its value.
- Theorem `Widget.renewAll_meets`: the widgets of a node are renewed one by one, and the resets counted.
- Theorems `Widget.afterOffer_afterOffer` and `Widget.resetTo?_afterOffer`: a second offer of the same
  texts changes nothing.
-/

namespace NodeFlow

namespace Widget

/-! ## Offers -/

/-- The value that a widget is reset to when it is offered choices, if it is reset. -/
def resetTo? (keeps : Bool) (choices? : Option (List Json)) (w : Widget) : Option Json :=
  choices?.bind fun choices => if keeps then none else w.fallback? choices

/-- A widget after it has been offered choices, if there are any to offer. -/
def afterOffer (keeps : Bool) (choices? : Option (List Json)) (w : Widget) : Widget :=
  match choices? with
  | none => w
  | some choices => (w.offer choices).withValue ((w.resetTo? keeps choices?).getD w.value)

/-- What becomes of a widget that is offered choices, if there are any to offer. -/
structure Takes (keeps : Bool) (choices? : Option (List Json)) (w w' : Widget) : Prop where
  untouched : choices? = none → w' = w
  offered : ∀ choices, choices? = some choices →
    w' = { w with value := w'.value, options := w.options.set "values" (.arr choices) }
  kept : ∀ choices, choices? = some choices →
    keeps = true ∨ w.value.isAmong choices = true ∨ choices = [] → w'.value = w.value
  reset : ∀ first rest, choices? = some (first :: rest) → keeps = false →
    w.value.isAmong (first :: rest) = false → w'.value = first

variable {keeps : Bool} {choices? : Option (List Json)}

/-- A widget that is offered choices takes them. -/
theorem takes_afterOffer (keeps : Bool) (choices? : Option (List Json)) (w : Widget) :
    w.Takes keeps choices? (w.afterOffer keeps choices?) where
  untouched := by
    rintro rfl
    rfl
  offered := by
    rintro choices rfl
    rfl
  kept := by
    rintro choices rfl hkept
    rcases hkept with rfl | hamong | rfl
    · rfl
    · simp [afterOffer, resetTo?, fallback?, hamong]
    · simp [afterOffer, resetTo?, fallback?]
  reset := by
    rintro first rest rfl rfl hamong
    simp [afterOffer, resetTo?, fallback?, hamong]

/-- A widget without its value and its options. -/
def casing (w : Widget) : Widget := { w with value := .null, options := [] }

@[simp] theorem casing_afterOffer (w : Widget) : (w.afterOffer keeps choices?).casing = w.casing := by
  cases choices? <;> rfl

/-- The choices that a definition lists for a choice widget. -/
def offered? (d? : Option Definition) (w : Widget) : Option (List Json) :=
  d?.bind fun d => if w.kind == "combo" then d.choices? w.name else none

/-- A widget after it has been offered what a definition lists for it. -/
def renewed (d? : Option Definition) (w : Widget) : Widget :=
  w.afterOffer (keptChoices.contains w.name) (w.offered? d?)

/-- The widget is reset when it is offered what a definition lists for it. -/
def isReset (d? : Option Definition) (w : Widget) : Bool :=
  (w.resetTo? (keptChoices.contains w.name) (w.offered? d?)).isSome

/-- What is offered depends on the casing of a widget only. -/
theorem offered?_of_casing {w w' : Widget} (h : w'.casing = w.casing) (d? : Option Definition) :
    w'.offered? d? = w.offered? d? := by
  have hname : w'.name = w.name := congrArg (·.name) h
  have hkind : w'.kind = w.kind := congrArg (·.kind) h
  rw [offered?, offered?, hname, hkind]

/-- What the callback is told does not depend on value and options. -/
theorem told_of_casing {w w' : Widget} (h : w'.casing = w.casing) : w'.told = w.told := by
  have hcallback : w'.callback = w.callback := congrArg (·.callback) h
  rw [told, told, hcallback]

/-- New choices change nothing but the value and the options of a widget. -/
theorem casing_renewed (d? : Option Definition) (w : Widget) : (w.renewed d?).casing = w.casing :=
  casing_afterOffer w

/-! ## Offers as actions -/

private theorem modify_eq_modify {α : Type} {xs : List α} {i : Nat} {x : α} (hx : xs[i]? = some x)
    {f g : α → α} (hfg : f x = g x) : xs.modify i f = xs.modify i g := by
  refine List.ext_getElem? fun j => ?_
  rw [List.getElem?_modify, List.getElem?_modify]
  by_cases hj : i = j
  · subst hj
    simp [hx, hfg]
  · simp [hj]

/-- One step of changing all items of a list in place. -/
theorem modify_map_append {α : Type} (f : α → α) (front : List α) (x : α) (back : List α) :
    (front.map f ++ x :: back).modify front.length f = (front ++ [x]).map f ++ back := by
  induction front with
  | nil => rfl
  | cons y front ih => simpa using ih

/-- A callback that does not fail is steady. -/
theorem tellsSteadily_of_told {w : Widget} (h : w.told = .ok ()) : w.TellsSteadily := by
  intro hook hcallback hraises
  rw [told, hcallback] at h
  rcases Option.isSome_iff_exists.1 hraises with ⟨r, hr⟩
  simp [Hook.outcome, hr] at h

variable {ws : List Widget} {i : Nat} {w : Widget}

/-- An assignment changes the value, and it succeeds if the callback does. -/
theorem assign_meets (hw : ws[i]? = some w) (v : Json) (o : Outside) :
    (assign i v).Meets (w.told = .ok ()) (fun _ b => b.1 = ws.modify i (·.withValue v)) (ws, o) where
  result a b hexec := by
    have hfst := exec_assign_fst ws i v o
    rwa [hexec] at hfst
  succeeds htold := by
    rcases exec_assign hw (tellsSteadily_of_told htold) v o with ⟨o', hexec, -⟩
    exact ⟨⟨⟩, _, htold ▸ hexec⟩

variable {choices : List Json}

/-- A widget that is not reset has only been offered the choices. -/
theorem modify_offer_of_not_reset (hw : ws[i]? = some w)
    (hreset : w.resetTo? keeps (some choices) = none) :
    ws.modify i (offer choices) = ws.modify i (·.afterOffer keeps (some choices)) :=
  modify_eq_modify hw (by simp only [afterOffer, hreset]; rfl)

/-- A widget that is reset is assigned its value after it has been offered the choices. -/
theorem assign_offered_meets (hw : ws[i]? = some w) {v : Json}
    (hreset : w.resetTo? keeps (some choices) = some v) (o : Outside) :
    (assign i v).Meets (w.told = .ok ())
      (fun _ b => b.1 = ws.modify i (·.afterOffer keeps (some choices)))
      (ws.modify i (offer choices), o) := by
  have hoffered : (ws.modify i (offer choices))[i]? = some (w.offer choices) := by simp [hw]
  refine (assign_meets hoffered v o).mono id fun _ b hb => ?_
  rw [hb, List.modify_modify_eq]
  exact modify_eq_modify hw (by simp only [afterOffer, hreset]; rfl)

/-- A widget is renewed, and a reset is counted; where it is not reset, nobody is told. -/
theorem renew_meets (d : Definition) (hw : ws[i]? = some w) (o : Outside) :
    (renew d i).Meets (w.isReset (some d) = true → w.told = .ok ())
      (fun count b => b.1 = ws.modify i (renewed (some d)) ∧ count = (w.isReset (some d)).toNat ∧
        (w.isReset (some d) = false → b.2 = o)) (ws, o) := by
  refine .bind_get ?_
  simp only [hw]
  -- what is offered is settled first: the same case split then decides on the action and on its effect
  generalize hoffered : (if w.kind == "combo" then d.choices? w.name else none) = choices?
  have hoffered : w.offered? (some d) = choices? := hoffered
  have hreset : w.isReset (some d) =
      (w.resetTo? (keptChoices.contains w.name) choices?).isSome := by rw [isReset, hoffered]
  have hrenewed : ws.modify i (renewed (some d)) =
      ws.modify i (·.afterOffer (keptChoices.contains w.name) choices?) :=
    modify_eq_modify hw (by rw [renewed, hoffered])
  rw [hreset, hrenewed]
  cases choices? with
  | none => exact .pure ⟨(List.modify_id i ws).symm, rfl, fun _ => rfl⟩
  | some choices =>
    refine .bind_modify ?_
    generalize hto : (if keptChoices.contains w.name then none else w.fallback? choices) = to?
    have hto : w.resetTo? (keptChoices.contains w.name) (some choices) = to? := hto
    rw [hto]
    cases to? with
    | none => exact .pure ⟨modify_offer_of_not_reset hw hto, rfl, fun _ => rfl⟩
    | some v =>
      refine ((assign_offered_meets hw hto o).mono (fun hs => hs rfl) fun _ b hb => hb).bind
        fun _ b hb => .pure ⟨hb, rfl, fun h => ?_⟩
      cases h

/-- Renewing a widget never waits. -/
theorem renew_isStraight (d : Definition) (i : Nat) : (renew d i).IsStraight := by
  refine .bind .get fun b => ?_
  split
  · exact .pure _
  · split
    · exact .pure _
    · refine .bind (.modify _) fun _ => ?_
      split
      · exact .pure _
      · exact .bind (assign_isStraight _ _) fun _ => .pure _

/-- The widgets of a node are renewed one by one, and the resets counted; where none is reset, nobody
is told. -/
theorem renewAll_meets (d : Definition) (ws : List Widget) (o : Outside) :
    (Act.collect (List.range ws.length) (renew d)).Meets
      (∀ w ∈ ws, w.isReset (some d) = true → w.told = .ok ())
      (fun counts b => b.1 = ws.map (renewed (some d)) ∧
        counts.sum = ws.countP (isReset (some d)) ∧
        ((∀ w ∈ ws, w.isReset (some d) = false) → b.2 = o)) (ws, o) := by
  -- the widgets in front have been renewed and counted, and those behind are as they were
  refine (Act.Meets.collect (P := fun k counts b =>
    b.1 = (ws.take k).map (renewed (some d)) ++ ws.drop k ∧
      counts.sum = (ws.take k).countP (isReset (some d)) ∧
      ((∀ w ∈ ws, w.isReset (some d) = false) → b.2 = o)) (by simp) ?_).mono id ?_
  · rintro k hk counts ⟨us, o'⟩ ⟨hus, hcounts, hquiet⟩
    rw [List.getElem_range]
    rw [List.length_range] at hk
    have hw : us[k]? = some ws[k] := by
      rw [show us = _ from hus, List.getElem?_append_right (by simp)]
      simp [hk, Nat.min_eq_left hk.le]
    have hmem : ws[k] ∈ ws := List.getElem_mem hk
    refine (renew_meets d hw o').mono (fun hsafe => hsafe _ hmem) ?_
    rintro count ⟨us', o''⟩ ⟨hus', rfl, hsilent⟩
    refine ⟨?_, ?_, fun hnone => (hsilent (hnone _ hmem)).trans (hquiet hnone)⟩
    · have hstep := modify_map_append (renewed (some d)) (ws.take k) ws[k] (ws.drop (k + 1))
      rw [List.length_take_of_le hk.le, List.take_concat_get' ws k hk,
        ← List.drop_eq_getElem_cons hk] at hstep
      rw [show us' = _ from hus', show us = _ from hus, hstep]
    · rw [List.sum_append, hcounts, ← List.take_concat_get' ws k hk, List.countP_append,
        List.countP_singleton]
      cases isReset (some d) ws[k] <;> rfl
  · intro counts b hb
    simpa using hb

/-! ## Offers made again -/

/-- All choices are texts. -/
def AreTexts (choices : List Json) : Prop := ∀ c ∈ choices, ∃ s, c = .str s

section Again

variable (keeps : Bool) (htexts : ∀ choices, choices? = some choices → AreTexts choices) (w : Widget)

include htexts

/-- A widget that has been offered texts holds one of them, unless it may hold any value. -/
theorem resetTo?_afterOffer : (w.afterOffer keeps choices?).resetTo? keeps choices? = none := by
  cases choices? with
  | none => rfl
  | some choices =>
    have htakes := takes_afterOffer keeps (some choices) w
    generalize w.afterOffer keeps (some choices) = w' at htakes ⊢
    rw [resetTo?, Option.bind_some]
    by_cases hkeeps : keeps = true
    · rw [if_pos hkeeps]
    · rw [if_neg hkeeps, fallback?]
      by_cases hamong : w.value.isAmong choices = true
      · rw [htakes.kept choices rfl (.inr (.inl hamong)), if_pos hamong]
      · cases choices with
        | nil => exact ite_self _
        | cons first rest =>
          have hvalue := htakes.reset first rest rfl (by simpa using hkeeps) (by simpa using hamong)
          rcases htexts _ rfl first List.mem_cons_self with ⟨s, hs⟩
          have hfirst : w'.value.isAmong (first :: rest) = true := by
            rw [hvalue, Json.isAmong, List.any_cons, hs, Json.same_str, decide_eq_true rfl,
              Bool.true_or]
          rw [if_pos hfirst]

/-- A second offer of the same texts changes nothing. -/
theorem afterOffer_afterOffer :
    (w.afterOffer keeps choices?).afterOffer keeps choices? = w.afterOffer keeps choices? := by
  have hreset := resetTo?_afterOffer keeps htexts w
  cases choices? with
  | none => rfl
  | some choices =>
    have hoptions : (w.afterOffer keeps (some choices)).offer choices =
        w.afterOffer keeps (some choices) := by
      simp only [afterOffer, offer, withValue, Table.set_set]
    rw [afterOffer, hreset, hoptions]
    rfl

end Again

section AgainRenewed

variable {d? : Option Definition} {w : Widget}
  (htexts : ∀ choices, w.offered? d? = some choices → AreTexts choices)

include htexts

/-- A widget that has taken its choices is not reset by them again. -/
theorem isReset_renewed : (w.renewed d?).isReset d? = false := by
  have hname : (w.renewed d?).name = w.name := congrArg (·.name) (casing_renewed d? w)
  rw [isReset, offered?_of_casing (casing_renewed d? w), hname, renewed, resetTo?_afterOffer _ htexts]
  rfl

/-- Offering the same choices again changes nothing. -/
theorem renewed_renewed : (w.renewed d?).renewed d? = w.renewed d? := by
  have hname : (w.renewed d?).name = w.name := congrArg (·.name) (casing_renewed d? w)
  have hoffered := offered?_of_casing (casing_renewed d? w) d?
  rw [renewed, hname, hoffered, renewed, afterOffer_afterOffer _ htexts]

end AgainRenewed

end Widget

end NodeFlow
