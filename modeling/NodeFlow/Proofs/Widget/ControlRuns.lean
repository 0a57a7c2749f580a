import NodeFlow.Proofs.Compile.Hooks
import NodeFlow.Proofs.Decimal.Rounding

/-!
# Runs of value control

A widget that is moved by one mode after the other.  A whole number with whole bounds is between them
from the first move on, however large the bounds are: a random value is a whole number of steps above
the lower bound, and rounding does not take it over the upper one.  A choice is one of the choices, and
stops at the first and the last.  The callback hears of every value that is stored, once.

Main results:

- Definitions `Widget.IsBounded`, `Widget.MovesWithin` and `Widget.MovesAmong`: the bounds of a number,
  and what a mode may make of a number or a choice.
- Theorems `ControlMode.exists_nextNumber` and `ControlMode.exists_nextChoice`: one move.
- Definitions `Widget.applyControls` and `Widget.Stores`: a run, and the values that it stores.
- Theorem `Widget.applyControls_keepRange`: what every run leaves.
-/

namespace NodeFlow

/-! ## Whole numbers among values -/

namespace Json

variable {v w low high : Json} {m n a b : Int}

private theorem isNull_whole (hv : v.number? = some (.int m)) : v.isNull = false := by
  cases v <;> cases hv <;> rfl

private theorem onNumbers_whole (symbol : String) (whole : Int → Int → Int)
    (double : Float → Float → Float)
    (hv : v.number? = some (.int m)) (hw : w.number? = some (.int n)) :
    onNumbers symbol whole double v w = .ok (.int (whole m n)) := by
  unfold onNumbers
  rw [hv, hw]

private theorem plus_whole (hv : v.number? = some (.int m)) (hw : w.number? = some (.int n)) :
    v.plus w = .ok (.int (m + n)) := by
  cases v <;> cases hv <;> cases w <;> cases hw <;> rfl

private theorem minus_whole (hv : v.number? = some (.int m)) (hw : w.number? = some (.int n)) :
    v.minus w = .ok (.int (m - n)) := onNumbers_whole _ _ _ hv hw

private theorem times_whole (hv : v.number? = some (.int m)) (hw : w.number? = some (.int n)) :
    v.times w = .ok (.int (m * n)) := onNumbers_whole _ _ _ hv hw

private theorem truthy_whole (hv : v.number? = some (.int m)) (hm : m ≠ 0) : v.truthy = true := by
  cases v <;> cases hv
  · rename_i b
    cases b
    · exact absurd rfl hm
    · rfl
  · simpa [truthy] using hm

private theorem toWhole_whole (hv : v.number? = some (.int m)) : v.toWhole = .ok m := by
  cases v <;> cases hv <;> rfl

private theorem before_whole (hv : v.number? = some (.int m)) (hw : w.number? = some (.int n)) :
    v.before w = .ok (decide (m < n)) := by
  rw [before_of_number? hv hw, Number.compare?]
  congr 1
  rw [Bool.eq_iff_iff, beq_iff_eq, decide_eq_true_eq, Option.some.injEq, compare_lt_iff_lt]

private theorem exists_larger (hv : v.number? = some (.int m)) (hw : w.number? = some (.int n)) :
    ∃ u, v.larger w = .ok u ∧ u.number? = some (.int (max m n)) := by
  unfold larger
  rw [before_whole hv hw]
  by_cases hlt : m < n
  · exact ⟨w, by simp [bind, Except.bind, hlt, pure, Except.pure], by rw [hw, max_eq_right hlt.le]⟩
  · exact ⟨v, by simp [bind, Except.bind, hlt, pure, Except.pure],
      by rw [hv, max_eq_left (not_lt.1 hlt)]⟩

private theorem exists_smaller (hv : v.number? = some (.int m)) (hw : w.number? = some (.int n)) :
    ∃ u, v.smaller w = .ok u ∧ u.number? = some (.int (min m n)) := by
  unfold smaller
  rw [before_whole hw hv]
  by_cases hlt : n < m
  · exact ⟨w, by simp [bind, Except.bind, hlt, pure, Except.pure], by rw [hw, min_eq_right hlt.le]⟩
  · exact ⟨v, by simp [bind, Except.bind, hlt, pure, Except.pure],
      by rw [hv, min_eq_left (not_lt.1 hlt)]⟩

end Json

/-! ## One move of a number -/

/-- A widget of a number with whole bounds, a whole step and no digits after the point.  Options that
are not stated count as they do for a control. -/
structure Widget.IsBounded (w : Widget) (low high step : Int) : Prop where
  kind : w.kind ≠ "combo"
  min_eq : ((w.options.get? "min").getD (.int 0)).number? = some (.int low)
  max_eq : ((w.options.get? "max").getD (.int ControlMode.randomRange)).number? = some (.int high)
  step_eq : ((w.options.get? "step").getD (.int 1)).number? = some (.int step)
  precision_eq : ((w.options.get? "precision").getD .null).same (.int 0) = true
  low_le_high : low ≤ high
  step_pos : 1 ≤ step
  cut_le_cut : max (-ControlMode.randomRange) low ≤ min ControlMode.randomRange high

/-- What a mode may make of a choice.  A value that is none of the choices counts as the first. -/
structure Widget.MovesAmong (choices : List Json) (v : Json) (mode : ControlMode) (v' : Json) :
    Prop where
  chosen : v' ∈ choices
  increment : mode = .increment →
    choices[min ((v.position? choices).getD 0 + 1) (choices.length - 1)]? = some v'
  decrement : mode = .decrement → choices[(v.position? choices).getD 0 - 1]? = some v'

/-- What a mode may make of a value between bounds. -/
structure Widget.MovesWithin (low high step : Int) (v : Json) (mode : ControlMode) (v' : Json) :
    Prop where
  bounded : ∃ n, v' = .int n ∧ low ≤ n ∧ n ≤ high
  increment : mode = .increment → ∀ m, v.number? = some (.int m) → low ≤ m → m ≤ high →
    v' = .int (min (m + step) high)
  decrement : mode = .decrement → ∀ m, v.number? = some (.int m) → low ≤ m → m ≤ high →
    v' = .int (max (m - step) low)
  randomize : mode = .randomize → ∃ n, v' = .int n ∧
    max (-ControlMode.randomRange) low ≤ n ∧ n ≤ min ControlMode.randomRange high ∧
    n ≡ max (-ControlMode.randomRange) low [ZMOD step]

namespace ControlMode

variable {w : Widget} {low high step m n : Int} {l h t v : Json} {r : Random}

private theorem exists_clamp (hl : l.number? = some (.int low)) (hh : h.number? = some (.int high))
    (hv : v.number? = some (.int n)) :
    ∃ u, clamp l h v = .ok u ∧ u.number? = some (.int (max (min n high) low)) := by
  unfold clamp
  simp only [Json.isNull_whole hl, Json.isNull_whole hh, Json.before_whole hh hv, Bool.false_eq_true,
    if_false, bind, Except.bind, pure, Except.pure, decide_eq_true_eq]
  by_cases habove : high < n
  · simp only [if_pos habove, Json.before_whole hh hl]
    rw [min_eq_right habove.le]
    by_cases hbelow : high < low
    · exact ⟨l, by simp [hbelow], by rw [hl, max_eq_right hbelow.le]⟩
    · exact ⟨h, by simp [hbelow], by rw [hh, max_eq_left (not_lt.1 hbelow)]⟩
  · simp only [if_neg habove, Json.before_whole hv hl]
    rw [min_eq_left (not_lt.1 habove)]
    by_cases hbelow : n < low
    · exact ⟨l, by simp [hbelow], by rw [hl, max_eq_right hbelow.le]⟩
    · exact ⟨v, by simp [hbelow], by rw [hv, max_eq_left (not_lt.1 hbelow)]⟩

/-- The fractions that a random source still holds. -/
abbrev HoldsFractions (r : Random) : Prop := ∀ x ∈ r.fractions, x.IsFraction

/-- A source that has run out answers with a fraction as well. -/
theorem zero_isFraction : (Json.float 0.0).IsFraction := by
  have hof : ∀ {x : Json} {n : Int} {b : Bool}, (x.before (.int n)).toOption = some b →
      x.before (.int n) = .ok b := by
    intro x n b h
    cases hbefore : x.before (.int n) with
    | error f => simp [hbefore, Except.toOption] at h
    | ok c => simpa [hbefore, Except.toOption] using h
  exact ⟨hof (by decide +kernel), hof (by decide +kernel)⟩

private theorem fraction_isFraction (hr : HoldsFractions r) :
    r.fraction.1.IsFraction ∧ HoldsFractions r.fraction.2 := by
  unfold Random.fraction
  split
  · exact ⟨zero_isFraction, hr⟩
  · rename_i x xs hfractions
    constructor
    · exact hr x (by simp [hfractions])
    · intro y hy
      exact hr y (by rw [hfractions]; exact List.mem_cons_of_mem x hy)

/-- A random value is a whole number of steps above the lower bound, and not above the upper one. -/
theorem exists_randomValue (hl : l.number? = some (.int low)) (hh : h.number? = some (.int high))
    (ht : t.number? = some (.int step)) (hstep : 1 ≤ step)
    (hcut : max (-randomRange) low ≤ min randomRange high) (hr : HoldsFractions r) :
    ∃ n r', randomValue t l h r = (.ok (.int n), r') ∧ HoldsFractions r' ∧
      max (-randomRange) low ≤ n ∧ n ≤ min randomRange high ∧
      n ≡ max (-randomRange) low [ZMOD step] := by
  obtain ⟨bottom, hbottom, hbottom'⟩ := Json.exists_larger (v := .int (-randomRange)) rfl hl
  obtain ⟨top, htop, htop'⟩ := Json.exists_smaller (v := .int randomRange) rfl hh
  obtain ⟨q, span, hq, hspan, hspan_nonneg, hspan_le⟩ := Json.toWhole_dividedBy
    (v := .int (min randomRange high - max (-randomRange) low)) rfl ht (by omega)
    (by unfold randomRange at hcut ⊢; omega) (by omega)
  obtain ⟨hx, hr'⟩ := fraction_isFraction hr
  have hspan_small : span ≤ 2 ^ 51 := by
    have hle : span ≤ span * step := le_mul_of_one_le_right hspan_nonneg hstep
    unfold randomRange at hspan_le
    omega
  obtain ⟨product, count, hproduct, hcount, hcount_nonneg, hcount_le⟩ :=
    Json.floorOf_times hx hspan_nonneg hspan_small
  refine ⟨count * step + max (-randomRange) low, r.fraction.2, ?_, hr', ?_, ?_, ?_⟩
  · unfold randomValue
    simp only [hbottom, htop, Json.minus_whole htop' hbottom', hq, hspan, bind, Except.bind, pure,
      Except.pure, Json.items, List.getD_cons_zero, List.getD_cons_succ, hproduct, hcount,
      Json.times_whole (v := .int count) rfl ht,
      Json.plus_whole (v := .int (count * step)) rfl hbottom']
  · have hpos : 0 ≤ count * step := Int.mul_nonneg hcount_nonneg (by omega)
    omega
  · have hle : count * step ≤ span * step := Int.mul_le_mul_of_nonneg_right hcount_le (by omega)
    omega
  · exact (Int.modEq_iff_dvd.2 ⟨-count, by ring⟩)

/-- The number that a mode comes to before it is cut to its bounds. -/
def moved (mode : ControlMode) (step low high value : Json) (r : Random) :
    Except Fault Json × Random :=
  match mode with
  | .increment => (value.plus step, r)
  | .decrement => (value.minus step, r)
  | .randomize => randomValue step low high r

private theorem exists_moved (mode : ControlMode) (hl : l.number? = some (.int low))
    (hh : h.number? = some (.int high)) (ht : t.number? = some (.int step)) (hstep : 1 ≤ step)
    (hcut : max (-randomRange) low ≤ min randomRange high) (hr : HoldsFractions r)
    (hv : v.number? = some (.int m)) :
    ∃ n r', mode.moved t l h v r = (.ok (.int n), r') ∧ HoldsFractions r' ∧
      (mode = .increment → n = m + step) ∧ (mode = .decrement → n = m - step) ∧
      (mode = .randomize → max (-randomRange) low ≤ n ∧ n ≤ min randomRange high ∧
        n ≡ max (-randomRange) low [ZMOD step]) := by
  cases mode with
  | increment =>
    exact ⟨m + step, r, by rw [moved, Json.plus_whole hv ht], hr, by simp, by simp, by simp⟩
  | decrement =>
    exact ⟨m - step, r, by rw [moved, Json.minus_whole hv ht], hr, by simp, by simp, by simp⟩
  | randomize =>
    obtain ⟨n, r', hrandom, hr', hn⟩ := exists_randomValue hl hh ht hstep hcut hr
    exact ⟨n, r', hrandom, hr', by simp, by simp, fun _ => hn⟩

/-- A number without digits after the point, cut to its bounds. -/
theorem nextNumber_of_moved {mode : ControlMode} {r' : Random} (hw : w.IsBounded low high step)
    (hmoved : mode.moved ((w.options.get? "step").getD (.int 1))
      ((w.options.get? "min").getD (.int 0)) ((w.options.get? "max").getD (.int randomRange))
      (if w.value.number?.isSome then w.value else (w.options.get? "min").getD (.int 0)) r =
        (.ok (.int n), r')) :
    mode.next? w r = (.ok (some (.int (max (min n high) low))), r') := by
  obtain ⟨u, hclamp, hu⟩ := exists_clamp hw.min_eq hw.max_eq (v := .int n) rfl
  have hstep := hw.step_pos
  have htruthy := Json.truthy_whole hw.step_eq (by omega)
  have hkind : (w.kind == "combo") = false := by simpa using hw.kind
  have hnumber : mode.nextNumber w r = (.ok (.int (max (min n high) low)), r') := by
    unfold nextNumber
    simp only [htruthy, if_true]
    unfold moved at hmoved
    cases mode <;>
      simp only [Prod.mk.injEq] at hmoved <;>
      simp only [hmoved, bind, Except.bind, hclamp, hw.precision_eq, if_true, Json.toWhole_whole hu,
        pure, Except.pure]
  rw [next?, hkind, hnumber]
  rfl

/-- The whole number that a mode starts from. -/
theorem exists_start (hl : l.number? = some (.int low)) (hvalue : ∀ x, v ≠ .float x) :
    ∃ m, (if v.number?.isSome then v else l).number? = some (.int m) ∧
      ∀ k, v.number? = some (.int k) → m = k := by
  cases hv : v.number? with
  | none => exact ⟨low, by simp [hl], by simp⟩
  | some a =>
    cases a with
    | int m => exact ⟨m, by simp [hv], by simp⟩
    | float x =>
      exfalso
      cases v <;> cases hv
      exact hvalue x rfl

/-- A mode moves a bounded number within its bounds. -/
theorem exists_nextNumber (hw : w.IsBounded low high step) (hvalue : ∀ x, w.value ≠ .float x)
    (hr : HoldsFractions r) (mode : ControlMode) : ∃ v' r', mode.next? w r = (.ok (some v'), r') ∧
      HoldsFractions r' ∧ Widget.MovesWithin low high step w.value mode v' := by
  obtain ⟨m, hm, hstart⟩ := exists_start hw.min_eq hvalue
  obtain ⟨n, r', hmoved, hr', hincrement, hdecrement, hrandomize⟩ := exists_moved mode hw.min_eq
    hw.max_eq hw.step_eq hw.step_pos hw.cut_le_cut hr hm
  have hle := hw.low_le_high
  have hpos := hw.step_pos
  refine ⟨_, r', nextNumber_of_moved hw hmoved, hr', ⟨_, rfl, by omega, by omega⟩, ?_, ?_, ?_⟩
  · intro hmode k hk hlow hhigh
    have hn := hincrement hmode
    have hsame := hstart k hk
    congr 1
    omega
  · intro hmode k hk hlow hhigh
    have hn := hdecrement hmode
    have hsame := hstart k hk
    congr 1
    omega
  · intro hmode
    obtain ⟨hlow, hhigh, hmodEq⟩ := hrandomize hmode
    have hkept : max (min n high) low = n := by omega
    rw [hkept]
    exact ⟨n, rfl, hlow, hhigh, hmodEq⟩

/-! ## One move of a choice -/

private theorem nextPosition_lt (mode : ControlMode) {current size : Nat} (h : current < size)
    (r : Random) : (mode.nextPosition current size r).1 < size := by
  unfold nextPosition
  cases mode with
  | increment => simp only; omega
  | decrement => simp only; omega
  | randomize => exact r.index_lt (by omega)

private theorem position_lt {choices : List Json} (hne : choices ≠ []) (v : Json) :
    (v.position? choices).getD 0 < choices.length := by
  unfold Json.position?
  cases hfound : choices.findIdx? (·.same v) with
  | none => exact List.length_pos_iff.2 hne
  | some i =>
    rw [List.findIdx?_eq_some_iff_getElem] at hfound
    exact hfound.1

/-- A mode moves a choice to another one, or leaves it where it is. -/
theorem exists_nextChoice {choice : Json} {choices : List Json} (hkind : w.kind = "combo")
    (hvalues : w.options.get? "values" = some (.arr (choice :: choices))) (r : Random)
    (mode : ControlMode) : ∃ v' r', mode.next? w r = (.ok (some v'), r') ∧
      Widget.MovesAmong (choice :: choices) w.value mode v' := by
  have hcurrent := position_lt (List.cons_ne_nil choice choices) w.value
  have hnext := nextPosition_lt mode hcurrent r
  generalize hposition : (w.value.position? (choice :: choices)).getD 0 = current at *
  have hchoice : mode.nextChoice w r =
      (.ok (some ((choice :: choices).getD
        (mode.nextPosition current (choice :: choices).length r).1 .null)),
        (mode.nextPosition current (choice :: choices).length r).2) := by
    unfold nextChoice choicesOf currentPosition
    simp only [hvalues, Option.getD_some, hposition]
  have hget : (choice :: choices)[(mode.nextPosition current (choice :: choices).length r).1]? =
      some ((choice :: choices).getD
        (mode.nextPosition current (choice :: choices).length r).1 .null) := by
    rw [List.getD_eq_getElem?_getD, List.getElem?_eq_getElem hnext, Option.getD_some]
  have hmove : mode.next? w r = mode.nextChoice w r := by
    rw [next?, hkind]
    rfl
  refine ⟨_, _, hmove.trans hchoice, List.mem_of_getElem? hget, ?_, ?_⟩
  · rintro rfl
    rw [hposition]
    exact hget
  · rintro rfl
    rw [hposition]
    exact hget

end ControlMode

/-! ## Runs -/

namespace Widget

/-- Move the widget at a position by one mode after the other, whether or not its callback fails. -/
def applyControls (source : RandomSource) (i : Nat) : List Json → Act Bench PUnit
  | [] => pure ⟨⟩
  | mode :: modes => do
    match (← get).1[i]? with
    | none => pure ⟨⟩
    | some target => do
      let _ ← Act.attempt (target.applyControl source mode i)
      applyControls source i modes

/-- The values that a run of modes stores, one for each mode that moves anything. -/
inductive Stores (moves : Json → ControlMode → Json → Prop) : Json → List Json → List Json → Prop
  | done (v : Json) : Stores moves v [] []
  | idle {v mode : Json} {modes stored : List Json} (hmode : ControlMode.ofJson? mode = none)
      (hrest : Stores moves v modes stored) : Stores moves v (mode :: modes) stored
  | moves {v v' mode : Json} {c : ControlMode} {modes stored : List Json}
      (hmode : ControlMode.ofJson? mode = some c) (hmove : moves v c v')
      (hrest : Stores moves v' modes stored) : Stores moves v (mode :: modes) (v' :: stored)

/-- What the callback of a widget is seen to hear, the last value first. -/
def heard (w : Widget) (stored : List Json) : List Trace.Entry :=
  if w.callback.isSome then
    (stored.map fun v => Trace.Entry.hookRun "callback" (.str w.name) v).reverse
  else []

variable {ws : List Widget} {w : Widget} {i : Nat} {source : RandomSource} {o : Outside}

private theorem exec_call_trace (h : Hook) (entry : Trace.Entry) (o : Outside) :
    ∃ out o', (h.call entry).exec o = (out, o') ∧ o'.trace = entry :: o.trace ∧
      ∀ source, o'.random source = o.random source := by
  have hrandom : ∀ source, ((o.record entry).countCall h.counter).2.random source =
      o.random source := by
    intro source
    cases source <;> rfl
  rw [Hook.call, Act.exec_bind]
  simp only [note, Act.exec_modify]
  rw [Act.exec_bind, Act.exec_ofExec]
  simp only
  cases h.failure? ((o.record entry).countCall h.counter).1 with
  | none => exact ⟨_, _, rfl, rfl, hrandom⟩
  | some r => exact ⟨_, _, rfl, rfl, hrandom⟩

/-- An assignment stores the value and tells it to the callback once, also if the callback then
fails. -/
theorem exec_assign_heard (hw : ws[i]? = some w) (v : Json) (o : Outside) :
    ∃ out o', (assign i v).exec (ws, o) = (out, (ws.modify i (·.withValue v), o')) ∧
      o'.trace = w.heard [v] ++ o.trace ∧ ∀ source, o'.random source = o.random source := by
  rw [exec_assign_eq hw, exec_outward]
  unfold announce heard
  cases hcallback : w.callback with
  | none => exact ⟨_, o, by simp only [withValue, hcallback]; rfl, by simp, fun _ => rfl⟩
  | some h =>
    obtain ⟨out, o', hcall, htrace, hrandom⟩ :=
      exec_call_trace h (.hookRun "callback" (.str w.name) v) o
    refine ⟨out, o', ?_, by simpa using htrace, hrandom⟩
    simp only [withValue, hcallback, hcall]

private theorem exec_applyControl_idle {mode : Json} (hmode : ControlMode.ofJson? mode = none)
    (b : Bench) : (w.applyControl source mode i).exec b = (.ok ⟨⟩, b) := by
  rw [applyControl, hmode]
  rfl

/-- A mode that moves the widget stores the value that it comes to. -/
theorem exec_applyControl_moves {mode : Json} {c : ControlMode} {v' : Json} {r' : Random}
    (hmode : ControlMode.ofJson? mode = some c) (hw : ws[i]? = some w)
    (hnext : c.next? w (o.random source) = (.ok (some v'), r')) :
    ∃ out o', (w.applyControl source mode i).exec (ws, o) =
        (out, (ws.modify i (·.withValue v'), o')) ∧
      o'.trace = w.heard [v'] ++ o.trace ∧ o'.random source = r' := by
  have hdraw : (outward (draw source (c.next? w))).exec (ws, o) =
      (.ok (.ok (some v')), (ws, o.setRandom source r')) := by
    rw [exec_outward, draw, Act.exec_ofExec]
    simp only [hnext]
  have htrace : (o.setRandom source r').trace = o.trace := by
    cases source <;> rfl
  have hrandom : (o.setRandom source r').random source = r' := by
    cases source <;> rfl
  obtain ⟨out, o', hassign, htrace', hrandom'⟩ :=
    exec_assign_heard hw v' (o.setRandom source r')
  refine ⟨out, o', ?_, by rw [htrace', htrace], by rw [hrandom', hrandom]⟩
  rw [applyControl, hmode]
  simp only
  rw [Act.exec_bind, hdraw]
  simp only
  rw [Act.exec_bind, Act.exec_lift]
  exact hassign

private theorem heard_cons (w : Widget) (v : Json) (stored : List Json) :
    w.heard (v :: stored) = w.heard stored ++ w.heard [v] := by
  unfold heard
  split <;> simp

/-- What each move keeps and stores, a run of them keeps and stores. -/
theorem exec_applyControls {moves : Json → ControlMode → Json → Prop} {P : Json → Prop}
    {Q : Random → Prop}
    (hmoves : ∀ v, P v → ∀ r, Q r → ∀ c, ∃ v' r',
      ControlMode.next? c (w.withValue v) r = (.ok (some v'), r') ∧ Q r' ∧ moves v c v' ∧ P v')
    (modes : List Json) {v : Json} (hv : P v) (hw : ws[i]? = some (w.withValue v))
    (ho : Q (o.random source)) :
    ∃ stored o', (applyControls source i modes).exec (ws, o) =
        (.ok ⟨⟩, (ws.modify i (·.withValue (stored.getLast?.getD v)), o')) ∧
      Stores moves v modes stored ∧ o'.trace = w.heard stored ++ o.trace := by
  induction modes generalizing ws o v with
  | nil =>
    refine ⟨[], o, ?_, .done v, ?_⟩
    · have hsame : ws.modify i (·.withValue v) = ws := modify_withValue_self hw
      rw [List.getLast?_nil, Option.getD_none, hsame]
      rfl
    · unfold heard
      split <;> rfl
  | cons mode modes ih =>
    have hstep : ∀ {out : Except Fault PUnit} {b : Bench},
        ((w.withValue v).applyControl source mode i).exec (ws, o) = (out, b) →
        (applyControls source i (mode :: modes)).exec (ws, o) =
          (applyControls source i modes).exec b := by
      intro out b happly
      rw [applyControls, Act.exec_bind, Act.exec_get]
      simp only [hw]
      rw [Act.exec_bind, Act.exec_attempt, happly]
    cases hmode : ControlMode.ofJson? mode with
    | none =>
      obtain ⟨stored, o', hrun, hstores, htrace⟩ := ih hv hw ho
      refine ⟨stored, o', ?_, .idle hmode hstores, htrace⟩
      rw [hstep (exec_applyControl_idle hmode (ws, o)), hrun]
    | some c =>
      obtain ⟨v', r', hnext, hr', hmove, hv'⟩ := hmoves v hv _ ho c
      obtain ⟨out, o₁, happly, htrace₁, hrandom⟩ := exec_applyControl_moves hmode hw hnext
      have hw' : (ws.modify i (·.withValue v'))[i]? = some (w.withValue v') :=
        getElem?_modify_withValue hw v'
      obtain ⟨stored, o', hrun, hstores, htrace⟩ := ih hv' hw' (by rw [hrandom]; exact hr')
      refine ⟨v' :: stored, o', ?_, .moves hmode hmove hstores, ?_⟩
      · rw [hstep happly, hrun, List.getLast?_cons, Option.getD_some, modify_modify_withValue]
      · have hheard : (w.withValue v).heard [v'] = w.heard [v'] := rfl
        rw [htrace, htrace₁, hheard, w.heard_cons v' stored, List.append_assoc]

section Last

variable {moves : Json → ControlMode → Json → Prop} {R : Json → Prop} {v : Json}
  {modes stored : List Json} (hR : ∀ v c v', moves v c v' → R v')

include hR

private theorem Stores.kept (h : Stores moves v modes stored) (hv : R v) :
    R (stored.getLast?.getD v) := by
  induction h with
  | done => exact hv
  | idle _ _ ih => exact ih hv
  | moves _ hmove _ ih =>
    rw [List.getLast?_cons, Option.getD_some]
    exact ih (hR _ _ _ hmove)

/-- What every move makes of a value holds after a run with a mode that moves anything. -/
theorem Stores.last (h : Stores moves v modes stored)
    (hsome : ∃ mode ∈ modes, (ControlMode.ofJson? mode).isSome) : R (stored.getLast?.getD v) := by
  induction h with
  | done => simp at hsome
  | idle hmode _ ih =>
    apply ih
    simpa [hmode] using hsome
  | moves _ hmove hrest _ =>
    rw [List.getLast?_cons, Option.getD_some]
    exact hrest.kept hR (hR _ _ _ hmove)

end Last

/-- What every run of modes leaves of a bounded number, of a choice, and what a mode that moves nothing
leaves of any widget. -/
theorem applyControls_keepRange (hw : ws[i]? = some w) (source : RandomSource) (o : Outside)
    (modes : List Json) :
    (∀ low high step, w.IsBounded low high step → (∀ x, w.value ≠ .float x) →
      ControlMode.HoldsFractions (o.random source) →
      ∃ stored o', (applyControls source i modes).exec (ws, o) =
          (.ok ⟨⟩, (ws.modify i (·.withValue (stored.getLast?.getD w.value)), o')) ∧
        Stores (MovesWithin low high step) w.value modes stored ∧
        o'.trace = w.heard stored ++ o.trace ∧
        ((∃ mode ∈ modes, (ControlMode.ofJson? mode).isSome) →
          ∃ n, stored.getLast?.getD w.value = .int n ∧ low ≤ n ∧ n ≤ high)) ∧
    (∀ choice choices, w.kind = "combo" →
      w.options.get? "values" = some (.arr (choice :: choices)) →
      ∃ stored o', (applyControls source i modes).exec (ws, o) =
          (.ok ⟨⟩, (ws.modify i (·.withValue (stored.getLast?.getD w.value)), o')) ∧
        Stores (MovesAmong (choice :: choices)) w.value modes stored ∧
        o'.trace = w.heard stored ++ o.trace ∧
        ((∃ mode ∈ modes, (ControlMode.ofJson? mode).isSome) →
          stored.getLast?.getD w.value ∈ choice :: choices)) ∧
    ∀ mode, ControlMode.ofJson? mode = none →
      ∀ b, (w.applyControl source mode i).exec b = (.ok ⟨⟩, b) := by
  refine ⟨?_, ?_, ?_⟩
  · intro low high step hbounded hvalue hfractions
    have hmoves : ∀ v, (∀ x, v ≠ .float x) → ∀ r, ControlMode.HoldsFractions r → ∀ c, ∃ v' r',
        ControlMode.next? c (w.withValue v) r = (.ok (some v'), r') ∧
          ControlMode.HoldsFractions r' ∧ MovesWithin low high step v c v' ∧
          ∀ x, v' ≠ .float x := by
      intro v hv r hr c
      have hbounded' : (w.withValue v).IsBounded low high step :=
        ⟨hbounded.kind, hbounded.min_eq, hbounded.max_eq, hbounded.step_eq, hbounded.precision_eq,
          hbounded.low_le_high, hbounded.step_pos, hbounded.cut_le_cut⟩
      obtain ⟨v', r', hnext, hr', hmove⟩ := ControlMode.exists_nextNumber hbounded' hv hr c
      refine ⟨v', r', hnext, hr', hmove, ?_⟩
      obtain ⟨n, hn, -⟩ := hmove.bounded
      simp [hn]
    obtain ⟨stored, o', hrun, hstores, htrace⟩ :=
      exec_applyControls hmoves modes hvalue (w := w) (o := o) hw hfractions
    refine ⟨stored, o', hrun, hstores, htrace, ?_⟩
    exact Stores.last (fun _ _ _ hmove => hmove.bounded) hstores
  · intro choice choices hkind hvalues
    have hmoves : ∀ v, True → ∀ r, True → ∀ c, ∃ v' r',
        ControlMode.next? c (w.withValue v) r = (.ok (some v'), r') ∧ True ∧
          MovesAmong (choice :: choices) v c v' ∧ True := by
      intro v _ r _ c
      obtain ⟨v', r', hnext, hmove⟩ :=
        ControlMode.exists_nextChoice (w := w.withValue v) hkind hvalues r c
      exact ⟨v', r', hnext, trivial, hmove, trivial⟩
    obtain ⟨stored, o', hrun, hstores, htrace⟩ :=
      exec_applyControls hmoves modes trivial (w := w) (o := o) hw trivial
    refine ⟨stored, o', hrun, hstores, htrace, ?_⟩
    exact Stores.last (fun _ _ _ hmove => hmove.chosen) hstores
  · intro mode hmode b
    exact exec_applyControl_idle hmode b

/-! ## A seed -/

/-- A seed with a callback, whose upper bound is beyond the range of random values. -/
def drifting : Widget where
  name := "seed"
  value := .str "none yet"
  kind := "number"
  options := [("min", .int 3), ("max", .int 18446744073709551615), ("step", .int 7),
    ("precision", .int 0)]
  callback := some ⟨0, {}⟩

private theorem drifting_isBounded : drifting.IsBounded 3 18446744073709551615 7 where
  kind := by decide
  min_eq := rfl
  max_eq := rfl
  step_eq := rfl
  precision_eq := rfl
  low_le_high := by norm_num
  step_pos := by norm_num
  cut_le_cut := by
    unfold ControlMode.randomRange
    norm_num

/-- What the seed is moved by: five modes, three of which move it. -/
def driftingModes : List Json :=
  [.str "fixed", .str "randomize", .str "unknown", .str "increment", .str "decrement"]

/-- One half is drawn first, then the source has run out. -/
def driftingOutside : Outside where
  own := { fractions := [.float (Float.ofBits 0x3FE0000000000000)] }

/-- The seed ends where the random value, a step up and a step down lead to. -/
theorem drifting_keepsRange : ∃ stored o',
    (applyControls .own 0 driftingModes).exec ([drifting], driftingOutside) =
      (.ok ⟨⟩, ([drifting].modify 0 (·.withValue (stored.getLast?.getD drifting.value)), o')) ∧
    Stores (MovesWithin 3 18446744073709551615 7) drifting.value driftingModes stored ∧
    o'.trace = drifting.heard stored ∧
    stored.getLast?.getD drifting.value = .int 562949953421313 := by
  have hvalue : ∀ x, drifting.value ≠ .float x := by
    intro x h
    cases h
  have hfractions : ControlMode.HoldsFractions (driftingOutside.random .own) := by
    intro x hx
    rw [List.mem_singleton.1 hx]
    exact ⟨rfl, rfl⟩
  have hseed : [drifting][0]? = some drifting := rfl
  obtain ⟨stored, o', hrun, hstores, htrace, hlast⟩ :=
    (applyControls_keepRange hseed .own driftingOutside driftingModes).1
      3 18446744073709551615 7 drifting_isBounded hvalue hfractions
  obtain ⟨n, hn, -, -⟩ := hlast ⟨.str "randomize", by simp [driftingModes], rfl⟩
  have heval : (((applyControls .own 0 driftingModes).exec ([drifting], driftingOutside)).2.1.map
      (·.value.whole?)) = [some 562949953421313] := by
    decide +kernel
  refine ⟨stored, o', hrun, hstores, by simpa [driftingOutside] using htrace, ?_⟩
  rw [hrun, hn] at heval
  simp only [List.modify_zero_cons, List.map_cons, List.map_nil, value_withValue, Json.whole?,
    List.cons.injEq, Option.some.injEq, and_true] at heval
  rw [hn, heval]

end Widget

end NodeFlow
