import NodeFlow.Proofs.Editor.Drains

/-!
# The work of a call

A turn of a working call brings its drain forward: it finishes blocks and may end in the middle of
another, and it takes every request that it does not finish from those that wait.  What it does to the
editor is what the units of these blocks do.

Main results:

- Structure `Turn.Advances`: a turn that brings a drain forward.
- Theorem `Stage.turn_advances`: one turn of a working call that does not end the work.
- Theorem `Editor.choose_of_nil`: the turn that ends the work.
-/

namespace NodeFlow

open Editor

/-- What a course stays within at its own pace it stays within at every pace. -/
theorem Pace.within_course {α : Type} {D : Drift Editor} {e : Editor} {c : Course Editor α}
    (hc : c.Within D e) (pace : Pace) : (pace.course c).Within D e := by
  cases pace with
  | yielding => exact hc
  | hurried => exact hc.hurried

private theorem Pace.comesTo_course {α : Type} {D : Drift Editor} {c c' : Course Editor α}
    (h : c.ComesTo D c') (pace : Pace) : c.ComesTo D (pace.course c') := by
  cases pace with
  | yielding => exact h
  | hurried => exact h.hurried

/-! ## Turns -/

namespace Turn

/-- A turn from the middle of a block, if there was one: it finishes blocks and may end in the
middle of another.  What it does continues the events, and the requests of its blocks come from
those that wait.  The work is that of a drain that began in a state and finished blocks before. -/
structure Advances (start : Editor) (before : List Block) (present : Option Block) (e : Editor)
    (t : Turn) (done : List Block) (next : Option Block) : Prop where
  carries : ∃ handed, t.stage.Carries start (before ++ done) next handed t.editor
  work : present.toList.flatMap Block.log ++ t.events.filter QueueEvent.isWork =
    (done ++ next.toList).flatMap Block.log
  arrivals : present.toList.map (·.request) ++ e.pending ++
    t.events.filterMap QueueEvent.request? =
      (done ++ next.toList).map (·.request) ++ t.editor.pending
  draining : t.editor.draining = e.draining
  own : t.events.filterMap QueueEvent.ownRequest? = []

/-- A turn that advances somehow. -/
def Progresses (start : Editor) (before : List Block) (present : Option Block) (e : Editor)
    (t : Turn) : Prop :=
  ∃ done next, t.Advances start before present e done next

variable {start : Editor} {before : List Block} {present : Option Block}
  {handed : List (Int × Prompt)} {e e' : Editor} {t : Turn}

private theorem Progresses.of_sameQueue (h : t.Progresses start before present e')
    (he : sameQueue.rel e e') : t.Progresses start before present e := by
  rcases h with ⟨done, next, h⟩
  have hpending : e'.pending = e.pending := congrArg Prod.fst he
  have hdraining : e'.draining = e.draining := congrArg Prod.snd he
  exact ⟨done, next, h.carries, h.work, hpending ▸ h.arrivals, h.draining.trans hdraining, h.own⟩

/-- A turn that stays in the block at hand. -/
theorem progresses_staying {stage : Stage} (hcarries : stage.Carries start before present handed e')
    (he : sameQueue.rel e e') : Turn.Progresses start before present e ⟨stage, e', []⟩ := by
  have hpending : e'.pending = e.pending := congrArg Prod.fst he
  exact ⟨[], present, ⟨handed, by simpa using hcarries⟩, by simp, by simp [hpending],
    congrArg Prod.snd he, rfl⟩

/-- A turn that finishes the block at hand. -/
theorem progresses_finishing {b done : Block} {event : QueueEvent} (hwork : event.isWork = true)
    (hlog : done.log = b.log ++ [event]) (hrequest : done.request = b.request)
    (hdone : WorksOff start (before ++ [done]) none handed e') (he : sameQueue.rel e e') :
    Turn.Progresses start before (some b) e ⟨.choosing, e', [event]⟩ := by
  have hpending : e'.pending = e.pending := congrArg Prod.fst he
  refine ⟨[done], none, ⟨handed, .choosing hdone⟩, ?_, ?_, congrArg Prod.snd he, ?_⟩
  · simp [hwork, hlog]
  · simp [QueueEvent.request?_of_isWork hwork, hrequest, hpending]
  · simp [QueueEvent.ownRequest?_of_isWork hwork]

/-- An event of the work comes before a turn and brings its block to where the turn goes on. -/
theorem Progresses.after_work {earlier : Option Block} {event : QueueEvent}
    (h : t.Progresses start before present e') (hwork : event.isWork = true)
    (hlog : present.toList.flatMap Block.log = earlier.toList.flatMap Block.log ++ [event])
    (hpending : earlier.toList.map (·.request) ++ e.pending =
      present.toList.map (·.request) ++ e'.pending)
    (hdraining : e'.draining = e.draining) :
    (t.after [event]).Progresses start before earlier e := by
  rcases h with ⟨done, next, h⟩
  refine ⟨done, next, h.carries, ?_, ?_, h.draining.trans hdraining, ?_⟩
  · rw [← h.work, hlog]
    simp [Turn.after, hwork]
  · simpa [Turn.after, QueueEvent.request?_of_isWork hwork, hpending] using h.arrivals
  · simpa [Turn.after, QueueEvent.ownRequest?_of_isWork hwork] using h.own

/-- A request of the view comes before a turn. -/
theorem Progresses.after_obliged {r : Request} (h : t.Progresses start before present (e.join r)) :
    (t.after [.obliged r]).Progresses start before present e := by
  rcases h with ⟨done, next, h⟩
  refine ⟨done, next, h.carries, ?_, ?_, h.draining, ?_⟩
  · simpa [Turn.after, QueueEvent.isWork] using h.work
  · simpa [Turn.after, QueueEvent.request?, Editor.join] using h.arrivals
  · simpa [Turn.after, QueueEvent.ownRequest?] using h.own

end Turn

namespace Editor

section Unit

/-! The work on a request has come to a unit that begins in `u`; the turn that follows it, should the
unit be accepted, goes on in the block. -/

variable {start u : Editor} {before : List Block} {r : Request} {k left : Nat}
  {handed : List (Int × Prompt)} {next : Editor → Turn}
  (hcount : k + 1 + left = r.batch.toNat)
  (hwork : WorksOff start before (some (.after r k false)) handed u)
  (hnext : ∀ {handed e}, WorksOff start before (some (.after r (k + 1) false)) handed e →
    (next e).Progresses start before (some (.after r (k + 1) false)) e)

include hcount hwork hnext

private theorem progresses_close (isFine : Bool) {p : Prompt} {e : Editor}
    (hunit : UnitEnds r.number u (if isFine then .accepted else .failed) (some p) e) :
    (close next isFine e).Progresses start before (some (.after r k true)) e := by
  have hk : k < r.batch.toNat := by omega
  have hdone := hwork.unit hunit
  unfold close
  split
  · rename_i hfine
    rw [if_pos hfine] at hdone
    have hgoes : WorksOff start before (some (.after r (k + 1) false))
        (handed ++ [(r.number, p)]) e := by
      simpa [Block.after, List.replicate_succ'] using hdone
    exact (hnext hgoes).after_work rfl (by simp [Block.log_after_succ]) rfl rfl
  · rename_i hfine
    rw [if_neg hfine] at hdone
    exact Turn.progresses_finishing rfl (Block.log_cut_failed r k) rfl
      (hdone.whole (Block.isWhole_cut hk (by decide))) rfl

/-- The view has been brought up to date, or waits. -/
theorem progresses_shown {p : Prompt} {answer : Except Fault QueueResponse} {u₁ u₂ e : Editor}
    (hcompile : (compile u).ComesTo bringing (.ended (.ok p) u₁))
    (hsubmit : (submitTo r.number p u₁).ComesTo bringing (.ended answer u₂))
    {c : Course Editor (Option Call)} (hcourse : (conclude p answer u₂).ComesTo bringing c)
    (hc : c.Within sameQueue e) :
    (shown r.number left next (failure? answer).isNone c).Progresses start before
      (some (.after r k true)) e := by
  have hends : ∀ {outcome : Except Fault (Option Call)} {e₃ e' : Editor}
      {seen : Except Fault PUnit}, (conclude p answer u₂).ComesTo bringing (.ended outcome e₃) →
      (heed outcome).exec e₃ = (seen, e') → UnitEnds r.number u
        (if (failure? answer).isNone && (failure? seen).isNone then .accepted else .failed)
          (some p) e' :=
    fun hconclude hheed => Submits.unitEnds ⟨u₁, u₂, _, _, hcompile, hsubmit, hconclude, hheed⟩
  unfold shown
  split
  · exact Turn.progresses_staying
      (.showing hcount hwork hcompile hsubmit hcourse (bringing.refl _)) hc.1
  · rename_i f e₃
    refine (progresses_close hcount hwork hnext false (p := p) ?_).of_sameQueue hc
    simpa [failure?] using hends hcourse (rfl : (heed (.error f)).exec e₃ = (.error f, e₃))
  · rename_i e₃
    refine (progresses_close hcount hwork hnext (failure? answer).isNone (p := p) ?_).of_sameQueue hc
    simpa [failure?] using hends hcourse (rfl : (heed (.ok none)).exec e₃ = (.ok ⟨⟩, e₃))
  · rename_i asked e₃
    unfold oblige
    split
    · rename_i f hread
      refine (progresses_close hcount hwork hnext false (p := p) ?_).of_sameQueue hc
      have hheed : (heed (.ok (some asked))).exec e₃ = (.error f, e₃) := by
        simp [heed, Act.exec_bind, hread]
      simpa [failure?] using hends hcourse hheed
    · rename_i r' hread
      dsimp only
      rcases hdisplay : (display (.enqueued (e₃.join r').pending.length)).exec (e₃.join r') with
        ⟨seen, e'⟩
      have hheed : (heed (.ok (some asked))).exec e₃ = (seen, e') := by
        simp [heed, Act.exec_bind, hread, hdisplay]
      refine Turn.Progresses.of_sameQueue (Turn.Progresses.after_obliged ?_) hc
      exact (progresses_close hcount hwork hnext _ (hends hcourse hheed)).of_sameQueue
        ((display_sameQueue _).of_exec hdisplay)

/-- The backend has answered, or is waited for. -/
theorem progresses_answered (pace : Pace) {p : Prompt} {u₁ e : Editor}
    (hcompile : (compile u).ComesTo bringing (.ended (.ok p) u₁))
    {c : Course Editor QueueResponse} (hcourse : (submitTo r.number p u₁).ComesTo bringing c)
    (hc : c.Within sameQueue e) :
    (answered pace r.number left next p c).Progresses start before (some (.after r k true)) e := by
  unfold answered
  split
  · exact Turn.progresses_staying
      (.submitting hcount hwork hcompile hcourse (bringing.refl _)) hc.1
  · rename_i answer u₂
    refine (progresses_shown hcount hwork hnext hcompile hcourse (pace.comesTo_course .here)
      (pace.within_course ?_)).of_sameQueue hc
    exact (conclude_aside p answer u₂).mono sameQueue_of_aside

/-- The graph has been compiled, or its compilation waits. -/
theorem progresses_compiled (pace : Pace) {e : Editor} {c : Course Editor Prompt}
    (hcourse : (compile u).ComesTo bringing c) (hc : c.Within sameQueue e) :
    (compiled pace r.number left next c).Progresses start before (some (.after r k false)) e := by
  have hk : k < r.batch.toNat := by omega
  unfold compiled
  split
  · exact Turn.progresses_staying (.compiling hcount hwork hcourse (bringing.refl _)) hc.1
  · rename_i f u₁
    have hdone := hwork.unit (.unsent hcourse)
    exact Turn.progresses_finishing rfl (Block.log_cut_unsent r k) rfl
      (hdone.whole (Block.isWhole_cut hk (by decide)))
      (sameQueue.trans hc ((showFailure_aside f).exec u₁).1)
  · rename_i p u₁
    refine ((progresses_answered hcount hwork hnext pace hcourse (pace.comesTo_course .here)
      (pace.within_course (submitTo_sameQueue _ _ _))).of_sameQueue hc).after_work rfl ?_ rfl rfl
    simp [Block.log_after_called]

end Unit

/-- The units of a request that are left. -/
theorem progresses_units (pace : Pace) {start : Editor} {before : List Block} {r : Request}
    {k left : Nat} {handed : List (Int × Prompt)} (hcount : k + left = r.batch.toNat) {e : Editor}
    (hwork : WorksOff start before (some (.after r k false)) handed e) :
    (units pace r.number left e).Progresses start before (some (.after r k false)) e := by
  induction left generalizing k handed e with
  | zero =>
    refine ⟨[.after r k false], none, ⟨handed, .choosing (hwork.whole (Block.isWhole_after hcount))⟩,
      by simp [units], by simp [units, Block.after], rfl, rfl⟩
  | succ left ih =>
    exact progresses_compiled (by omega) hwork (fun hwork => ih (by omega) hwork) pace
      (pace.comesTo_course .here) (pace.within_course ((compile_aside e).mono sameQueue_of_aside))

/-- The turn that ends the work: it is announced, and the call returns. -/
theorem choose_of_nil (pace : Pace) (c : Call) {e : Editor} (hpending : e.pending = []) :
    ∃ failure, choose pace c e = ⟨.returned failure, e.announced c, [.announced c.number c.batch]⟩ := by
  unfold choose
  split
  · exact ⟨_, rfl⟩
  · rename_i hcons
    rw [hpending] at hcons
    cases hcons

/-- After the announcement nobody works, and the same requests wait. -/
theorem announced_sameQueue (e : Editor) (c : Call) :
    sameQueue.rel { e with draining := false } (e.announced c) := (display_sameQueue _).exec _

end Editor

/-- A turn of a working call that does not end the work. -/
theorem Stage.turn_advances {start : Editor} {before : List Block} {stage : Stage}
    {present : Option Block} {handed : List (Int × Prompt)} {e : Editor}
    (h : stage.Carries start before present handed e) (pace : Pace) (c : Call)
    (hmore : stage = .choosing → e.pending ≠ []) :
    (stage.turn pace c e).Progresses start before present e := by
  cases h with
  | choosing hwork =>
    rcases List.exists_cons_of_ne_nil (hmore rfl) with ⟨r, rest, hpending⟩
    simp only [turn, choose, hpending]
    refine (progresses_units pace (k := 0) (Nat.zero_add _) (hwork.taken hpending)).after_work
      rfl ?_ ?_ rfl
    · simp [Block.log, Block.after]
    · simp [Block.after, hpending]
  | compiling hcount hwork hcourse hbrought =>
    exact progresses_compiled hcount hwork (fun hwork => progresses_units pace hcount hwork) pace
      (pace.comesTo_course (hcourse.resumed hbrought)) (pace.within_course
        (hcourse.within_resume ((compile_aside _).mono sameQueue_of_aside) e))
  | submitting hcount hwork hcompile hcourse hbrought =>
    exact progresses_answered hcount hwork (fun hwork => progresses_units pace hcount hwork) pace
      hcompile (pace.comesTo_course (hcourse.resumed hbrought)) (pace.within_course
        (hcourse.within_resume (submitTo_sameQueue _ _ _) e))
  | showing hcount hwork hcompile hsubmit hcourse hbrought =>
    exact progresses_shown hcount hwork (fun hwork => progresses_units pace hcount hwork) hcompile
      hsubmit (pace.comesTo_course (hcourse.resumed hbrought)) (pace.within_course
        (hcourse.within_resume ((conclude_aside _ _ _).mono sameQueue_of_aside) e))

end NodeFlow
