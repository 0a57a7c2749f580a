import Mathlib.Data.List.Perm.Basic
import NodeFlow.Proofs.Copy
import NodeFlow.Proofs.Outcome

/-!
# Writes between cells

A write takes the value of a cell, changes it, and gives the result to other cells; the change may
fail.  Of two rows of the same writes, neither of which writes what has been read before, one comes
to its end if the other does, and both leave the same values: the writes that stand in different
order touch different cells.

Main results:

- Type `Write` and definitions `Write.run` and `Write.MayPrecede`.
- Theorem `Write.run_perm`: the order of a row does not matter, as long as no write comes after a
  read of its cell.
- Theorem `Write.run_copies`: copies are writes that change nothing.
- Definition `Write.carry?` and theorem `Write.run_filterMap_carry?`: some of the cells under other
  names.
-/

namespace NodeFlow

/-- The value of one cell is changed and goes to others. -/
structure Write (κ α : Type) where
  source : κ
  targets : List κ
  change : α → Except Fault α

namespace Write

variable {κ α : Type} [DecidableEq κ] {f g : κ → α}

/-- The values after a write. -/
def apply (w : Write κ α) (f : κ → α) : Except Fault (κ → α) :=
  (w.change (f w.source)).map fun v k => if k ∈ w.targets then v else f k

/-- The values after writes, one after the other. -/
def run : List (Write κ α) → (κ → α) → Except Fault (κ → α)
  | [], f => .ok f
  | w :: ws, f => do
    let f ← w.apply f
    run ws f

private theorem apply_eq_ok_iff {w : Write κ α} :
    w.apply f = .ok g ↔
      ∃ v, w.change (f w.source) = .ok v ∧ (fun k => if k ∈ w.targets then v else f k) = g :=
  Fault.map_eq_ok_iff

/-- Writes can be made in two parts. -/
theorem run_append (ws vs : List (Write κ α)) (f : κ → α) :
    run (ws ++ vs) f = run ws f >>= run vs := by
  induction ws generalizing f with
  | nil => rfl
  | cons w ws ih =>
    rw [List.cons_append, run, run]
    cases w.apply f with
    | error e => rfl
    | ok g => exact ih g

/-! ## The order of writes -/

omit [DecidableEq κ] in
/-- The first write may stand in front of the second: the second does not write what the first has
read, and if both write a cell, the second reads what the first has written. -/
def MayPrecede (w v : Write κ α) : Prop :=
  w.source ∉ v.targets ∧ (List.Disjoint w.targets v.targets ∨ v.source ∈ w.targets)

omit [DecidableEq κ] in
/-- A write that gives the result back to the cell it has read. -/
def IsOwn (w : Write κ α) : Prop := w.targets = [w.source]

omit [DecidableEq κ] in
/-- For a write to its own cell, only what has been read matters. -/
theorem MayPrecede.of_source_not_mem {w v : Write κ α} (h : w.source ∉ v.targets)
    (hown : w.IsOwn ∨ v.IsOwn ∨ List.Disjoint w.targets v.targets) : w.MayPrecede v := by
  refine ⟨h, ?_⟩
  rcases hown with hw | hv | hdisjoint
  · refine .inl ?_
    rw [hw, List.singleton_disjoint]
    exact h
  · by_cases hmem : v.source ∈ w.targets
    · exact .inr hmem
    · refine .inl ?_
      rw [hv, List.disjoint_singleton]
      exact hmem
  · exact .inl hdisjoint

omit [DecidableEq κ] in
/-- Writes to different cells of their own may stand in either order. -/
theorem IsOwn.mayPrecede {w v : Write κ α} (hw : w.IsOwn) (hv : v.IsOwn)
    (hne : w.source ≠ v.source) : w.MayPrecede v := by
  refine .of_source_not_mem ?_ (.inl hw)
  rw [hv, List.mem_singleton]
  exact hne

/-- Writes that may stand in either order come to the same in both. -/
theorem apply_comm {w v : Write κ α} (hwv : w.MayPrecede v) (hvw : v.MayPrecede w)
    (h : w.apply f >>= v.apply = .ok g) : v.apply f >>= w.apply = .ok g := by
  have hdisjoint : List.Disjoint w.targets v.targets := hwv.2.resolve_right hvw.1
  rcases Fault.bind_eq_ok_iff.1 h with ⟨f₁, hw, hv⟩
  rcases apply_eq_ok_iff.1 hw with ⟨a, ha, rfl⟩
  rcases apply_eq_ok_iff.1 hv with ⟨b, hb, rfl⟩
  rw [if_neg hvw.1] at hb
  refine Fault.bind_eq_ok_iff.2 ⟨_, apply_eq_ok_iff.2 ⟨b, hb, rfl⟩, apply_eq_ok_iff.2 ⟨a, ?_, ?_⟩⟩
  · rw [if_neg hwv.1]
    exact ha
  · funext k
    by_cases hk : k ∈ w.targets
    · rw [if_pos hk, if_neg (hdisjoint hk), if_pos hk]
    · rw [if_neg hk, if_neg hk]

/-- A write that may stand in either order with those in front of it may be made first. -/
theorem run_of_front {w : Write κ α} {front back : List (Write κ α)}
    (hfront : ∀ v ∈ front, v.MayPrecede w ∧ w.MayPrecede v)
    (h : run (front ++ w :: back) f = .ok g) : run (w :: (front ++ back)) f = .ok g := by
  induction front generalizing f with
  | nil => exact h
  | cons v front ih =>
    rcases Fault.bind_eq_ok_iff.1 h with ⟨f₁, hv, h⟩
    have hrest := ih (fun u hu => hfront u (List.mem_cons_of_mem v hu)) h
    rcases Fault.bind_eq_ok_iff.1 hrest with ⟨f₂, hw, hrest⟩
    rcases hfront v List.mem_cons_self with ⟨hvw, hwv⟩
    have hcomm := apply_comm hvw hwv (Fault.bind_eq_ok_iff.2 ⟨f₁, hv, hw⟩)
    rcases Fault.bind_eq_ok_iff.1 hcomm with ⟨f₁', hw', hv'⟩
    exact Fault.bind_eq_ok_iff.2 ⟨f₁', hw', Fault.bind_eq_ok_iff.2 ⟨f₂, hv', hrest⟩⟩

/-- Two rows of the same writes, in both of which every write may stand where it stands, come to the
same. -/
theorem run_perm {ws vs : List (Write κ α)} (hperm : ws.Perm vs) (hws : ws.Pairwise MayPrecede)
    (hvs : vs.Pairwise MayPrecede) (h : run ws f = .ok g) : run vs f = .ok g := by
  induction vs generalizing ws f with
  | nil => rwa [hperm.eq_nil] at h
  | cons v vs ih =>
    -- the first write of the second row is brought to the front of the first row
    obtain ⟨front, back, rfl⟩ := List.append_of_mem (hperm.mem_iff.2 List.mem_cons_self)
    have hrest : (front ++ back).Perm vs :=
      (List.perm_cons v).1 (List.perm_middle.symm.trans hperm)
    rcases List.pairwise_cons.1 hvs with ⟨hfirst, hvs⟩
    have hfront : ∀ u ∈ front, u.MayPrecede v ∧ v.MayPrecede u := fun u hu =>
      ⟨(List.pairwise_append.1 hws).2.2 u hu v List.mem_cons_self,
        hfirst u (hrest.mem_iff.1 (List.mem_append_left back hu))⟩
    have hwithout : (front ++ back).Pairwise MayPrecede := hws.sublist
      (List.Sublist.append_left (List.sublist_cons_self v back) front)
    rcases Fault.bind_eq_ok_iff.1 (run_of_front hfront h) with ⟨f₁, hv, h⟩
    exact Fault.bind_eq_ok_iff.2 ⟨f₁, hv, ih hrest hwithout hvs h⟩

/-! ## Copies -/

omit [DecidableEq κ] in
/-- Copies as writes; one that goes nowhere is none. -/
def copies (cs : List (Copy κ)) : List (Write κ α) :=
  (cs.filter fun c => !c.targets.isEmpty).map fun c => ⟨c.source, c.targets, .ok⟩

omit [DecidableEq κ] in
private theorem copies_cons (c : Copy κ) (cs : List (Copy κ)) :
    (copies (c :: cs) : List (Write κ α)) = copies [c] ++ copies cs := by
  rw [copies, copies, copies, ← List.map_append, ← List.filter_append, List.singleton_append]

/-- Copies are writes that do not fail. -/
theorem run_copies (cs : List (Copy κ)) (f : κ → α) : run (copies cs) f = .ok (Copy.run cs f) := by
  induction cs generalizing f with
  | nil => rfl
  | cons c cs ih =>
    by_cases hempty : c.targets.isEmpty
    · have hsame : c.apply f = f := by
        funext k
        refine Copy.apply_of_not_mem ?_ f
        rw [List.isEmpty_iff.1 hempty]
        exact List.not_mem_nil
      have hskip : (copies (c :: cs) : List (Write κ α)) = copies cs := by simp [copies, hempty]
      rw [hskip, Copy.run, hsame, ih]
    · have htake : (copies (c :: cs) : List (Write κ α)) =
          ⟨c.source, c.targets, .ok⟩ :: copies cs := by simp [copies, hempty]
      rw [htake]
      exact ih (c.apply f)

/-! ## Other names -/

section Carry

variable {κ' : Type} [DecidableEq κ'] (ρ : κ → Option κ')

omit [DecidableEq κ] [DecidableEq κ'] in
/-- The write under other names.  Cells without a name are left out, and so is a write that has no
other targets. -/
def carry? (w : Write κ α) : Option (Write κ' α) :=
  if (w.targets.filterMap ρ).isEmpty then none
  else (ρ w.source).map fun source => ⟨source, w.targets.filterMap ρ, w.change⟩

variable {ρ}

omit [DecidableEq κ] [DecidableEq κ'] in
/-- A write that is carried over has the images of its source and of its targets. -/
theorem eq_of_carry? {w : Write κ α} {v : Write κ' α} (h : w.carry? ρ = some v) :
    ρ w.source = some v.source ∧ v.targets = w.targets.filterMap ρ := by
  unfold carry? at h
  split at h
  · cases h
  · rcases Option.map_eq_some_iff.1 h with ⟨source, hsource, rfl⟩
    exact ⟨hsource, rfl⟩

omit [DecidableEq κ] [DecidableEq κ'] in
/-- Writes that may stand in their order may do so under other names. -/
theorem MayPrecede.carry (hρ : ∀ k l c, ρ k = some c → ρ l = some c → k = l) {w v : Write κ α}
    {w' v' : Write κ' α} (h : w.MayPrecede v) (hw : w.carry? ρ = some w')
    (hv : v.carry? ρ = some v') : w'.MayPrecede v' := by
  rcases eq_of_carry? hw with ⟨hwsource, hwtargets⟩
  rcases eq_of_carry? hv with ⟨hvsource, hvtargets⟩
  rw [MayPrecede, hwtargets, hvtargets]
  constructor
  · intro hmem
    rcases List.mem_filterMap.1 hmem with ⟨k, hk, hname⟩
    exact h.1 (hρ k w.source _ hname hwsource ▸ hk)
  · refine h.2.imp (fun hdisjoint c hc hc' => ?_) fun hmem => ?_
    · rcases List.mem_filterMap.1 hc with ⟨k, hk, hname⟩
      rcases List.mem_filterMap.1 hc' with ⟨l, hl, hname'⟩
      exact hdisjoint hk (hρ k l c hname hname' ▸ hl)
    · exact List.mem_filterMap.2 ⟨v.source, hmem, hvsource⟩

omit [DecidableEq κ] [DecidableEq κ'] in
/-- A write to its own cell goes to the cell under its other name. -/
theorem carry?_own {c : κ} {d : κ'} (hc : ρ c = some d) (change : α → Except Fault α) :
    (⟨c, [c], change⟩ : Write κ α).carry? ρ = some ⟨d, [d], change⟩ := by
  simp [carry?, hc]

omit [DecidableEq κ] [DecidableEq κ'] in
/-- Copies from one cell go to the targets that have another name. -/
theorem filterMap_carry?_copies {cs : List (Copy κ)} {d : κ'} (hcs : ∀ c ∈ cs, ρ c.source = some d) :
    (copies cs : List (Write κ α)).filterMap (carry? ρ) =
      copies (cs.map fun c => ⟨d, c.targets.filterMap ρ⟩) := by
  induction cs with
  | nil => rfl
  | cons c cs ih =>
    have hfirst : (copies [c] : List (Write κ α)).filterMap (carry? ρ) =
        copies [⟨d, c.targets.filterMap ρ⟩] := by
      have hc := hcs c List.mem_cons_self
      by_cases hempty : c.targets = []
      · simp [copies, hempty]
      · by_cases hnone : c.targets.filterMap ρ = []
        · simp [copies, carry?, hempty, hnone]
        · simp [copies, carry?, hempty, hnone, hc]
    rw [copies_cons, List.filterMap_append, hfirst, List.map_cons,
      ih fun d hd => hcs d (List.mem_cons_of_mem c hd), ← copies_cons]

/-- Where writes to cells with a name read cells with a name, they do under the new names what they
do under the old ones. -/
theorem run_filterMap_carry? (hρ : ∀ k l c, ρ k = some c → ρ l = some c → k = l)
    {ws : List (Write κ α)}
    (hws : ∀ w ∈ ws, (w.targets.filterMap ρ).isEmpty = false → (ρ w.source).isSome = true)
    {f' : κ' → α} (hf : ∀ k c, ρ k = some c → f' c = f k) (h : run ws f = .ok g) :
    ∃ g', run (ws.filterMap (carry? ρ)) f' = .ok g' ∧ ∀ k c, ρ k = some c → g' c = g k := by
  induction ws generalizing f f' with
  | nil =>
    cases h
    exact ⟨f', rfl, hf⟩
  | cons w ws ih =>
    rcases Fault.bind_eq_ok_iff.1 h with ⟨f₁, hw, h⟩
    rcases apply_eq_ok_iff.1 hw with ⟨v, hv, rfl⟩
    have hrest := fun u hu => hws u (List.mem_cons_of_mem w hu)
    cases hempty : (w.targets.filterMap ρ).isEmpty with
    | true =>
      have hskip : w.carry? ρ = none := by rw [carry?, if_pos hempty]
      rw [List.filterMap_cons_none hskip]
      refine ih hrest (fun k c hk => ?_) h
      have hnot : k ∉ w.targets := by
        intro hmem
        have hthere : c ∈ w.targets.filterMap ρ := List.mem_filterMap.2 ⟨k, hmem, hk⟩
        rw [List.isEmpty_iff.1 hempty] at hthere
        cases hthere
      rw [if_neg hnot]
      exact hf k c hk
    | false =>
      rcases Option.isSome_iff_exists.1 (hws w List.mem_cons_self hempty) with ⟨s, hs⟩
      have htake : w.carry? ρ = some ⟨s, w.targets.filterMap ρ, w.change⟩ := by
        rw [carry?, if_neg (by simp [hempty]), hs]
        rfl
      have hmid : ∀ k c, ρ k = some c →
          (if c ∈ w.targets.filterMap ρ then v else f' c) = if k ∈ w.targets then v else f k := by
        intro k c hk
        have hiff : c ∈ w.targets.filterMap ρ ↔ k ∈ w.targets := by
          rw [List.mem_filterMap]
          constructor
          · rintro ⟨l, hl, hlc⟩
            exact hρ l k c hlc hk ▸ hl
          · exact fun hmem => ⟨k, hmem, hk⟩
        simp only [hiff, hf k c hk]
      rcases ih hrest hmid h with ⟨g', hrun, hg'⟩
      rw [List.filterMap_cons_some htake]
      refine ⟨g', Fault.bind_eq_ok_iff.2 ⟨_, apply_eq_ok_iff.2 ⟨v, ?_, rfl⟩, hrun⟩, hg'⟩
      rw [hf w.source s hs]
      exact hv

end Carry

end Write

end NodeFlow
