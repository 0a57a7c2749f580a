import Mathlib.Data.List.Pairwise
import Mathlib.Order.Defs.PartialOrder

/-!
# Copies between cells

A copy takes the value of one cell to others.  In a row of copies where nothing writes a cell that
has been read before, what comes out is fixed by the cells that are never written: a cell that is
written ends up with what the source of its last copy ends up with.  Such a row may be run again
without changing anything.

Main results:

- Types `Copy` and definitions `Copy.run`, `Copy.Writes` and `Copy.Settled`.
- Theorem `Copy.run_congr`: the result depends on the cells that are not written only.
- Theorem `Copy.run_run`: a second run changes nothing.
- Theorem `Copy.run_of_source`: what a cell holds at the end.
- Definition `Copy.map` and theorem `Copy.run_map_apply`: copies between cells of other names.
- Theorem `Copy.settled_of_pairwise`: copies in the order of their sources are such a row.
-/

namespace NodeFlow

/-- The value of one cell goes to others. -/
structure Copy (κ : Type) where
  source : κ
  targets : List κ

namespace Copy

variable {κ α : Type} [DecidableEq κ]

/-- The values after a copy. -/
def apply (c : Copy κ) (f : κ → α) : κ → α := fun k => if k ∈ c.targets then f c.source else f k

/-- The values after copies, one after the other. -/
def run : List (Copy κ) → (κ → α) → κ → α
  | [], f => f
  | c :: cs, f => run cs (c.apply f)

omit [DecidableEq κ] in
/-- Some copy writes the cell. -/
def Writes (cs : List (Copy κ)) (k : κ) : Prop := ∃ c ∈ cs, k ∈ c.targets

/-- No copy writes the cell that it reads, or one that has been read before it. -/
def Settled : List (Copy κ) → Prop
  | [] => True
  | c :: cs => ¬ Writes (c :: cs) c.source ∧ Settled cs

variable {cs : List (Copy κ)} {c : Copy κ} {k : κ}

/-- A target takes the value of the source. -/
theorem apply_of_mem (h : k ∈ c.targets) (f : κ → α) : c.apply f k = f c.source := if_pos h

/-- What is no target keeps its value. -/
theorem apply_of_not_mem (h : k ∉ c.targets) (f : κ → α) : c.apply f k = f k := if_neg h

/-- Copies can be made in two parts. -/
theorem run_append (cs ds : List (Copy κ)) (f : κ → α) : run (cs ++ ds) f = run ds (run cs f) := by
  induction cs generalizing f with
  | nil => rfl
  | cons c cs ih => exact ih (c.apply f)

omit [DecidableEq κ] in
private theorem writes_cons : Writes (c :: cs) k ↔ k ∈ c.targets ∨ Writes cs k := by
  simp [Writes]

/-- A cell that is not written keeps its value. -/
theorem run_of_not_writes (h : ¬ Writes cs k) (f : κ → α) : run cs f k = f k := by
  induction cs generalizing f with
  | nil => rfl
  | cons c cs ih =>
    rw [writes_cons, not_or] at h
    rw [run, ih h.2, apply_of_not_mem h.1]

/-- The result depends on the cells that are not written only. -/
theorem run_congr (h : Settled cs) {f g : κ → α} (hfg : ∀ k, ¬ Writes cs k → f k = g k) :
    run cs f = run cs g := by
  induction cs generalizing f g with
  | nil =>
    funext k
    exact hfg k (by simp [Writes])
  | cons c cs ih =>
    refine ih h.2 fun k hk => ?_
    by_cases hmem : k ∈ c.targets
    · rw [apply_of_mem hmem, apply_of_mem hmem]
      exact hfg c.source h.1
    · rw [apply_of_not_mem hmem, apply_of_not_mem hmem]
      exact hfg k (by simp [writes_cons, hmem, hk])

/-- A second run changes nothing. -/
theorem run_run (h : Settled cs) (f : κ → α) : run cs (run cs f) = run cs f :=
  run_congr h fun _ hk => run_of_not_writes hk f

/-- A cell that is written from one source only ends up with what that source holds, if nothing writes
the source. -/
theorem run_of_source {j : κ} (hreads : ¬ Writes cs j)
    (hsource : ∀ c ∈ cs, k ∈ c.targets → c.source = j) (hk : Writes cs k) (f : κ → α) :
    run cs f k = f j := by
  induction cs generalizing f with
  | nil =>
    rcases hk with ⟨c, hc, -⟩
    cases hc
  | cons c cs ih =>
    rw [writes_cons, not_or] at hreads
    by_cases hrest : Writes cs k
    · rw [run, ih hreads.2 (fun d hd => hsource d (List.mem_cons_of_mem c hd)) hrest,
        apply_of_not_mem hreads.1]
    · have hmem : k ∈ c.targets := (writes_cons.1 hk).resolve_right hrest
      rw [run, run_of_not_writes hrest, apply_of_mem hmem, hsource c List.mem_cons_self hmem]

/-! ## Renamed cells -/

section Map

variable {κ' : Type} [DecidableEq κ'] {φ : κ → κ'}

omit [DecidableEq κ] [DecidableEq κ'] in
/-- The same copy between cells of other names. -/
def map (φ : κ → κ') (c : Copy κ) : Copy κ' := ⟨φ c.source, c.targets.map φ⟩

/-- Renamed copies do under the new names what the copies do under the old ones. -/
theorem run_map_apply (hφ : Function.Injective φ) (cs : List (Copy κ)) (f : κ' → α) (k : κ) :
    run (cs.map (map φ)) f (φ k) = run cs (f ∘ φ) k := by
  induction cs generalizing f with
  | nil => rfl
  | cons c cs ih =>
    have hfirst : (map φ c).apply f ∘ φ = c.apply (f ∘ φ) := by
      funext k
      by_cases hk : k ∈ c.targets
      · rw [apply_of_mem hk]
        exact apply_of_mem (List.mem_map_of_mem hk) f
      · rw [apply_of_not_mem hk]
        refine apply_of_not_mem (fun hmem => ?_) f
        rcases List.mem_map.1 hmem with ⟨k', hk', heq⟩
        exact hk (hφ heq ▸ hk')
    rw [List.map_cons, run, run, ih, hfirst]

omit [DecidableEq κ] in
/-- Renamed copies write no cell without such a name. -/
theorem run_map_of_ne {k : κ'} (h : ∀ j, φ j ≠ k) (cs : List (Copy κ)) (f : κ' → α) :
    run (cs.map (map φ)) f k = f k := by
  refine run_of_not_writes ?_ f
  rintro ⟨c, hc, hk⟩
  rcases List.mem_map.1 hc with ⟨c, -, rfl⟩
  rcases List.mem_map.1 hk with ⟨j, -, hj⟩
  exact h j hj

end Map

/-! ## Rows in order -/

omit [DecidableEq κ] in
/-- A row is settled where the cells that are read are ordered, and a copy writes only cells that are
read after it. -/
theorem settled_of_pairwise {β : Type} [Preorder β] (rank : κ → β)
    (hreads : cs.Pairwise fun c d => rank c.source ≤ rank d.source)
    (hwrites : ∀ d ∈ cs, ∀ c ∈ cs, c.source ∈ d.targets → rank d.source < rank c.source) :
    Settled cs := by
  induction cs with
  | nil => trivial
  | cons c cs ih =>
    rw [List.pairwise_cons] at hreads
    refine ⟨?_, ih hreads.2 fun d hd c' hc' =>
      hwrites d (List.mem_cons_of_mem c hd) c' (List.mem_cons_of_mem c hc')⟩
    rintro ⟨d, hd, hmem⟩
    have hlt := hwrites d hd c List.mem_cons_self hmem
    rcases List.mem_cons.1 hd with rfl | hd
    · exact lt_irrefl _ hlt
    · exact lt_irrefl _ (lt_of_lt_of_le hlt (hreads.1 d hd))

end Copy

end NodeFlow
