import NodeFlow.Proofs.Compile.Obstructed

/-!
# Trails

The trail behind an input is the way that a link resolution follows, without a bound on its length
and without a memory of the outputs met on it.  A node that passes on what it gets leads on through
one of its inputs, and that input has at most one producer; so the trail is determined by the output
at which it stands, and one that comes back to an output never ends.  Resolving an input is following
its trail as far as the bound allows: the memory that the walk keeps never changes the outcome.

Main results:

- Definition `Site.PassesOn` and theorem `Site.nextInput?_eq_some_iff`: the input through which a
  passing node leads on.
- Definitions `Site.Trail` and `Site.TrailFrom`: the trail behind a producer and behind an input, with
  the number of passing producers met and the outcome.
- Theorem `Site.TrailFrom.unique`: an input has one trail at most.
- Theorem `Site.walk_eq_of_trail`: a walk ends as the trail does, if the bound allows for it.
- Theorem `Site.resolve_followsTrail`: what a link resolution comes to.
-/

namespace NodeFlow

namespace Site

open Workflow

/-! ## The way through a node -/

/-- A node leads on through an input.  A virtual node pairs its inputs with its outputs.  Another one
takes the input at the position of the output if it has the wanted type, and else the first input that
has it. -/
inductive PassesOn (p : Site) (l : Link) (wanted : String) : Int → Prop
  | paired {next : Int} (hvirtual : p.isVirtual = true)
      (hnext : p.passThrough? l.originSlot.val = some next) : PassesOn p l wanted next
  | beside {i : Nat} (hvirtual : p.isVirtual = false) (hslot : l.originSlot.val = i)
      (hfits : ∃ x, p.inputs[i]? = some x ∧ x.type = wanted) : PassesOn p l wanted i
  | first {i : Nat} (hvirtual : p.isVirtual = false)
      (hother : ∀ (j : Nat) x, l.originSlot.val = j → p.inputs[j]? = some x → x.type ≠ wanted)
      (hfits : ∃ x, p.inputs[i]? = some x ∧ x.type = wanted)
      (hfirst : ∀ j x, j < i → p.inputs[j]? = some x → x.type ≠ wanted) : PassesOn p l wanted i

variable {g : Workflow} {s p : Site} {l : Link} {slot next : Int} {wanted : String}

/-- The input at a position has the wanted type. -/
theorem any_type_eq_true {inputs : List InputSlot} {i : Nat} :
    (inputs[i]?).any (·.type == wanted) = true ↔ ∃ x, inputs[i]? = some x ∧ x.type = wanted := by
  rw [Option.any_eq_true]
  simp only [beq_iff_eq]

/-- The first input of the wanted type. -/
theorem find?_fits_eq_some {inputs : List InputSlot} {i : Nat} :
    (List.range inputs.length).find? (fun i => (inputs[i]?).any (·.type == wanted)) = some i ↔
      (∃ x, inputs[i]? = some x ∧ x.type = wanted) ∧
        ∀ j x, j < i → inputs[j]? = some x → x.type ≠ wanted := by
  rw [List.find?_range_eq_some, any_type_eq_true]
  constructor
  · rintro ⟨hfits, -, hfirst⟩
    refine ⟨hfits, fun j x hj hx htype => ?_⟩
    have hnot := hfirst j hj
    simp [hx, htype] at hnot
  · rintro ⟨hfits, hfirst⟩
    refine ⟨hfits, ?_, fun j hj => ?_⟩
    · obtain ⟨x, hx, -⟩ := hfits
      exact List.mem_range.2 (List.getElem?_eq_some_iff.1 hx).1
    · cases hx : inputs[j]? with
      | none => rfl
      | some x => simpa using hfirst j x hj hx

/-- The input that a bypassed node leads on through, by position. -/
theorem matchingInput?_eq_some_iff {inputs : List InputSlot} {slot : Int} {i : Nat} :
    matchingInput? inputs slot wanted = some i ↔
      (∃ x, inputs[i]? = some x ∧ x.type = wanted) ∧
        (slot = i ∨ (∀ (j : Nat) x, slot = j → inputs[j]? = some x → x.type ≠ wanted) ∧
          ∀ j x, j < i → inputs[j]? = some x → x.type ≠ wanted) := by
  unfold matchingInput?
  simp only
  split
  · rename_i hsame
    rw [Bool.and_eq_true, decide_eq_true_eq, any_type_eq_true] at hsame
    obtain ⟨hpos, x, hx, htype⟩ := hsame
    rw [Option.some.injEq]
    constructor
    · rintro rfl
      exact ⟨⟨x, hx, htype⟩, .inl (Int.toNat_of_nonneg hpos).symm⟩
    · rintro ⟨-, rfl | ⟨hother, -⟩⟩
      · exact Int.toNat_natCast i
      · exact absurd htype (hother slot.toNat x (Int.toNat_of_nonneg hpos).symm hx)
  · rename_i hsame
    rw [find?_fits_eq_some]
    have hother : ∀ (j : Nat) x, slot = j → inputs[j]? = some x → x.type ≠ wanted := by
      rintro j x rfl hx htype
      apply hsame
      rw [Bool.and_eq_true, decide_eq_true_eq, any_type_eq_true, Int.toNat_natCast]
      exact ⟨Int.natCast_nonneg j, x, hx, htype⟩
    constructor
    · rintro ⟨hfits, hfirst⟩
      exact ⟨hfits, .inr ⟨hother, hfirst⟩⟩
    · rintro ⟨⟨x, hx, htype⟩, hslot | ⟨-, hfirst⟩⟩
      · exact absurd htype (hother i x hslot hx)
      · exact ⟨⟨x, hx, htype⟩, hfirst⟩

/-- The next input of a passing site is the one that it passes a type on from. -/
theorem nextInput?_eq_some_iff : p.nextInput? l wanted = some next ↔ p.PassesOn l wanted next := by
  unfold nextInput?
  by_cases hvirtual : p.isVirtual = true
  · rw [if_pos hvirtual]
    constructor
    · exact .paired hvirtual
    · intro h
      cases h with
      | paired _ hnext => exact hnext
      | beside hnot => simp [hvirtual] at hnot
      | first hnot => simp [hvirtual] at hnot
  · have hvirtual : p.isVirtual = false := by simpa using hvirtual
    rw [if_neg (by simp [hvirtual]), Option.map_eq_some_iff]
    constructor
    · rintro ⟨i, hi, rfl⟩
      obtain ⟨hfits, hslot | ⟨hother, hfirst⟩⟩ := matchingInput?_eq_some_iff.1 hi
      · exact .beside hvirtual hslot hfits
      · exact .first hvirtual hother hfits hfirst
    · intro h
      cases h with
      | paired hnot => simp [hvirtual] at hnot
      | beside _ hslot hfits =>
        exact ⟨_, matchingInput?_eq_some_iff.2 ⟨hfits, .inl hslot⟩, rfl⟩
      | first _ hother hfits hfirst =>
        exact ⟨_, matchingInput?_eq_some_iff.2 ⟨hfits, .inr ⟨hother, hfirst⟩⟩, rfl⟩

private theorem nextInput?_eq_none_iff :
    p.nextInput? l wanted = none ↔ ∀ next, ¬ p.PassesOn l wanted next := by
  rw [Option.eq_none_iff_forall_ne_some]
  exact forall_congr' fun next => not_congr nextInput?_eq_some_iff

/-! ## Trails -/

/-- The trail from a producer on: the number of passing producers on it, and what it comes to.  A
trail that never ends comes to nothing. -/
inductive Trail (g : Workflow) (wanted : String) :
    Site → Link → Nat → Except Fault (Option Resolved) → Prop
  /-- The producer passes nothing on. -/
  | arrives {p : Site} {l : Link} (hp : p.isPassing = false) :
      Trail g wanted p l 0 (.ok (some ⟨p, l.originSlot, l⟩))
  /-- No input of the producer leads on. -/
  | strands {p : Site} {l : Link} (hp : p.isPassing = true)
      (hnext : ∀ next, ¬ p.PassesOn l wanted next) :
      Trail g wanted p l 1 (.ok (some ⟨p, l.originSlot, l⟩))
  /-- The input that leads on has no producer. -/
  | starves {p : Site} {l : Link} {next : Int} (hp : p.isPassing = true)
      (hnext : p.PassesOn l wanted next) (hsource : p.source g next = .ok none) :
      Trail g wanted p l 1 (.ok none)
  /-- The producer behind the input that leads on cannot be looked up. -/
  | breaks {p : Site} {l : Link} {next : Int} {f : Fault} (hp : p.isPassing = true)
      (hnext : p.PassesOn l wanted next) (hsource : p.source g next = .error f) :
      Trail g wanted p l 1 (.error f)
  /-- The trail goes on from the producer behind that input. -/
  | passes {p q : Site} {l l' : Link} {next : Int} {m : Nat}
      {out : Except Fault (Option Resolved)} (hp : p.isPassing = true)
      (hnext : p.PassesOn l wanted next) (hsource : p.source g next = .ok (some (q, l')))
      (hrest : Trail g wanted q l' m out) : Trail g wanted p l (m + 1) out

/-- The trail behind an input. -/
inductive TrailFrom (g : Workflow) (s : Site) (slot : Int) :
    Nat → Except Fault (Option Resolved) → Prop
  /-- The input has no producer. -/
  | starves (hsource : s.source g slot = .ok none) : TrailFrom g s slot 0 (.ok none)
  /-- The producer behind the input cannot be looked up. -/
  | breaks {f : Fault} (hsource : s.source g slot = .error f) : TrailFrom g s slot 0 (.error f)
  /-- A group leads to an input that the node does not have. -/
  | misses {p : Site} {l : Link} (hsource : s.source g slot = .ok (some (p, l)))
      (hinput : (position? s.inputs.length slot).bind (s.inputs[·]?) = none) :
      TrailFrom g s slot 0 (.error Fault.outside)
  /-- The trail starts at the producer behind the input and asks for the type of the input. -/
  | starts {p : Site} {l : Link} {input : InputSlot} {m : Nat}
      {out : Except Fault (Option Resolved)} (hsource : s.source g slot = .ok (some (p, l)))
      (hinput : (position? s.inputs.length slot).bind (s.inputs[·]?) = some input)
      (hrest : Trail g input.type p l m out) : TrailFrom g s slot m out

section Unique

variable {l' : Link} {m m' : Nat} {out out' : Except Fault (Option Resolved)} {next' : Int}

private theorem nextInput?_congr (hslot : l'.originSlot.val = l.originSlot.val) :
    p.nextInput? l' wanted = p.nextInput? l wanted := by
  rw [nextInput?, nextInput?, hslot]

private theorem PassesOn.congr (hslot : l'.originSlot.val = l.originSlot.val)
    (h : p.PassesOn l wanted next) : p.PassesOn l' wanted next := by
  rw [← nextInput?_eq_some_iff] at h ⊢
  rwa [nextInput?_congr hslot]

private theorem PassesOn.unique (h : p.PassesOn l wanted next) (h' : p.PassesOn l wanted next') :
    next' = next := by
  rw [← nextInput?_eq_some_iff] at h h'
  rw [h] at h'
  exact (Option.some.inj h').symm

/-- How many passing producers a trail meets depends on the output at which it stands only, and the
rest of what it comes to on the link from there as well. -/
theorem Trail.unique (h : Trail g wanted p l m out) (h' : Trail g wanted p l' m' out')
    (hslot : l'.originSlot.val = l.originSlot.val) : m' = m ∧ (l' = l → out' = out) := by
  induction h generalizing l' m' out' with
  | arrives hp =>
    cases h' with
    | arrives => exact ⟨rfl, fun hl => by rw [hl]⟩
    | strands hp' | starves hp' | breaks hp' | passes hp' => simp [hp] at hp'
  | strands hp hnext =>
    cases h' with
    | arrives hp' => simp [hp] at hp'
    | strands => exact ⟨rfl, fun hl => by rw [hl]⟩
    | starves _ hnext' | breaks _ hnext' | passes _ hnext' =>
      exact absurd (hnext'.congr hslot.symm) (hnext _)
  | starves hp hnext hsource =>
    cases h' with
    | arrives hp' => simp [hp] at hp'
    | strands _ hnone => exact absurd (hnext.congr hslot) (hnone _)
    | starves => exact ⟨rfl, fun _ => rfl⟩
    | breaks _ hnext' hsource' | passes _ hnext' hsource' =>
      rw [hnext.unique (hnext'.congr hslot.symm), hsource] at hsource'
      cases hsource'
  | breaks hp hnext hsource =>
    cases h' with
    | arrives hp' => simp [hp] at hp'
    | strands _ hnone => exact absurd (hnext.congr hslot) (hnone _)
    | starves _ hnext' hsource' | passes _ hnext' hsource' =>
      rw [hnext.unique (hnext'.congr hslot.symm), hsource] at hsource'
      cases hsource'
    | breaks _ hnext' hsource' =>
      rw [hnext.unique (hnext'.congr hslot.symm), hsource] at hsource'
      cases hsource'
      exact ⟨rfl, fun _ => rfl⟩
  | passes hp hnext hsource _ ih =>
    cases h' with
    | arrives hp' => simp [hp] at hp'
    | strands _ hnone => exact absurd (hnext.congr hslot) (hnone _)
    | starves _ hnext' hsource' | breaks _ hnext' hsource' =>
      rw [hnext.unique (hnext'.congr hslot.symm), hsource] at hsource'
      cases hsource'
    | passes _ hnext' hsource' hrest' =>
      rw [hnext.unique (hnext'.congr hslot.symm), hsource] at hsource'
      cases hsource'
      obtain ⟨rfl, hout⟩ := ih hrest' rfl
      exact ⟨rfl, fun _ => hout rfl⟩

/-- An input has one trail at most. -/
theorem TrailFrom.unique (h : TrailFrom g s slot m out) (h' : TrailFrom g s slot m' out') :
    m' = m ∧ out' = out := by
  cases h with
  | starves hsource =>
    cases h' with
    | starves => exact ⟨rfl, rfl⟩
    | breaks hsource' | misses hsource' | starts hsource' =>
      rw [hsource] at hsource'
      cases hsource'
  | breaks hsource =>
    cases h' with
    | breaks hsource' =>
      rw [hsource] at hsource'
      cases hsource'
      exact ⟨rfl, rfl⟩
    | starves hsource' | misses hsource' | starts hsource' =>
      rw [hsource] at hsource'
      cases hsource'
  | misses hsource hinput =>
    cases h' with
    | misses => exact ⟨rfl, rfl⟩
    | starves hsource' | breaks hsource' =>
      rw [hsource] at hsource'
      cases hsource'
    | starts _ hinput' =>
      rw [hinput] at hinput'
      cases hinput'
  | starts hsource hinput hrest =>
    cases h' with
    | starves hsource' | breaks hsource' =>
      rw [hsource] at hsource'
      cases hsource'
    | misses _ hinput' =>
      rw [hinput] at hinput'
      cases hinput'
    | starts hsource' hinput' hrest' =>
      rw [hsource] at hsource'
      rw [hinput] at hinput'
      cases hsource'
      cases hinput'
      obtain ⟨hlength, hout⟩ := hrest.unique hrest' rfl
      exact ⟨hlength, hout rfl⟩

end Unique

/-! ## Walks along a trail -/

section Walk

variable {asker : NodeId} {left hops m : Nat} {seen : List (NodeId × Int)} {q : Site} {l' : Link}
  {out : Except Fault (Option Resolved)}

/-- A walk ends at a site that passes nothing on. -/
theorem walk_of_not_passing (hp : p.isPassing = false) :
    walk g asker slot wanted left hops seen p l = .ok (some ⟨p, l.originSlot, l⟩) := by
  unfold walk
  simp [hp]

/-- A walk ends at a passing site that has no input of the type. -/
theorem walk_of_no_way (hp : p.isPassing = true) (hnext : ∀ next, ¬ p.PassesOn l wanted next) :
    walk g asker slot wanted (left + 1) hops seen p l = .ok (some ⟨p, l.originSlot, l⟩) := by
  unfold walk
  simp [hp, nextInput?_eq_none_iff.2 hnext]

/-- A walk fails where the next producer cannot be looked up. -/
theorem walk_of_source_error (hp : p.isPassing = true) (hnext : p.PassesOn l wanted next) {f : Fault}
    (hsource : p.source g next = .error f) :
    walk g asker slot wanted (left + 1) hops seen p l = .error f := by
  unfold walk
  simp [hp, nextInput?_eq_some_iff.2 hnext, hsource, bind, Except.bind]

/-- A walk comes to nothing where nothing feeds the next input. -/
theorem walk_of_source_none (hp : p.isPassing = true) (hnext : p.PassesOn l wanted next)
    (hsource : p.source g next = .ok none) :
    walk g asker slot wanted (left + 1) hops seen p l = .ok none := by
  unfold walk
  simp [hp, nextInput?_eq_some_iff.2 hnext, hsource, bind, Except.bind, pure, Except.pure]

/-- A walk goes on to the next producer, unless it has been there before. -/
theorem walk_of_source (hp : p.isPassing = true) (hnext : p.PassesOn l wanted next)
    (hsource : p.source g next = .ok (some (q, l'))) :
    walk g asker slot wanted (left + 1) hops seen p l =
      if (q.id, l'.originSlot.val) ∈ seen then .error (.endlessChain asker slot (hops + 1))
      else walk g asker slot wanted left (hops + 1) ((q.id, l'.originSlot.val) :: seen) q l' := by
  rw [walk]
  simp [hp, nextInput?_eq_some_iff.2 hnext, hsource, bind, Except.bind, throw, throwThe,
    MonadExceptOf.throw]

/-- A walk that has used up its hops is endless. -/
theorem walk_zero (hp : p.isPassing = true) :
    walk g asker slot wanted 0 hops seen p l = .error (.endlessChain asker slot (hops + 1)) := by
  unfold walk
  simp [hp]

/-- A walk follows a trail that the bound allows for.  What it has seen lies on longer trails, so the
trail never comes back there. -/
theorem walk_eq_of_trail (hids : ((sites g).map (·.id)).Nodup) (hp : p ∈ sites g)
    (htrail : Trail g wanted p l m out) (hm : m ≤ left)
    (hseen : ∀ q l' m' out', q ∈ sites g → (q.id, l'.originSlot.val) ∈ seen →
      Trail g wanted q l' m' out' → m ≤ m') :
    walk g asker slot wanted left hops seen p l = out := by
  induction htrail generalizing left hops seen with
  | arrives hpassing => exact walk_of_not_passing hpassing
  | strands hpassing hnext =>
    obtain ⟨left, rfl⟩ := Nat.exists_eq_add_of_le' hm
    exact walk_of_no_way hpassing hnext
  | starves hpassing hnext hsource =>
    obtain ⟨left, rfl⟩ := Nat.exists_eq_add_of_le' hm
    exact walk_of_source_none hpassing hnext hsource
  | breaks hpassing hnext hsource =>
    obtain ⟨left, rfl⟩ := Nat.exists_eq_add_of_le' hm
    exact walk_of_source_error hpassing hnext hsource
  | @passes p q l l' next m out hpassing hnext hsource hrest ih =>
    cases left with
    | zero => omega
    | succ left =>
      have hq := source_mem_sites hp hsource
      have hnew : (q.id, l'.originSlot.val) ∉ seen := by
        intro hmem
        have hle := hseen q l' m out hq hmem hrest
        omega
      rw [walk_of_source hpassing hnext hsource, if_neg hnew]
      apply ih hq (by omega)
      intro q' l'' m' out' hq' hmem htrail'
      rcases List.mem_cons.1 hmem with hsame | hmem
      · -- the output that the walk has just reached
        rw [Prod.mk.injEq] at hsame
        obtain ⟨hid, hslot⟩ := hsame
        have hsite : q' = q := List.inj_on_of_nodup_map hids hq' hq hid
        rw [hsite] at htrail'
        rw [(hrest.unique htrail' hslot).1]
      · have hle := hseen q' l'' m' out' hq' hmem htrail'
        omega

/-- A walk is refused, or the trail ends within the bound. -/
theorem walk_endless_or_trail (left hops : Nat) (seen : List (NodeId × Int)) (p : Site) (l : Link) :
    (∃ f, walk g asker slot wanted left hops seen p l = .error f ∧ f.IsEndless) ∨
      ∃ m out, m ≤ left ∧ Trail g wanted p l m out := by
  induction left generalizing hops seen p l with
  | zero =>
    by_cases hp : p.isPassing = true
    · exact .inl ⟨_, walk_zero hp, _, _, _, rfl⟩
    · exact .inr ⟨0, _, le_rfl, .arrives (by simpa using hp)⟩
  | succ left ih =>
    by_cases hp : p.isPassing = true
    · by_cases hnext : ∃ next, p.PassesOn l wanted next
      · obtain ⟨next, hnext⟩ := hnext
        cases hsource : p.source g next with
        | error f => exact .inr ⟨1, _, by omega, .breaks hp hnext hsource⟩
        | ok found =>
          cases found with
          | none => exact .inr ⟨1, _, by omega, .starves hp hnext hsource⟩
          | some found =>
            obtain ⟨q, l'⟩ := found
            rw [walk_of_source hp hnext hsource]
            by_cases hmem : (q.id, l'.originSlot.val) ∈ seen
            · rw [if_pos hmem]
              exact .inl ⟨_, rfl, _, _, _, rfl⟩
            · rw [if_neg hmem]
              rcases ih (hops + 1) ((q.id, l'.originSlot.val) :: seen) q l' with
                hendless | ⟨m, out, hm, htrail⟩
              · exact .inl hendless
              · exact .inr ⟨m + 1, out, by omega, .passes hp hnext hsource htrail⟩
      · exact .inr ⟨1, _, by omega, .strands hp (not_exists.1 hnext)⟩
    · exact .inr ⟨0, _, by omega, .arrives (by simpa using hp)⟩

end Walk

/-! ## Resolved inputs -/

section Resolve

variable {m : Nat} {out : Except Fault (Option Resolved)} {maxHops : Int}

/-- An input that something feeds is resolved by a walk from there. -/
theorem resolve_of_source {input : InputSlot} (hsource : s.source g slot = .ok (some (p, l)))
    (hinput : (position? s.inputs.length slot).bind (s.inputs[·]?) = some input) :
    s.resolve g maxHops slot = walk g s.id slot input.type maxHops.toNat 0
      [(p.id, l.originSlot.val)] p l := by
  rw [resolve, hsource]
  simp only [bind, Except.bind] at hinput ⊢
  rw [hinput]

/-- An input is resolved as its trail ends, if the bound allows for it. -/
theorem resolve_eq_of_trail (hids : ((sites g).map (·.id)).Nodup) (hs : s ∈ sites g)
    (htrail : TrailFrom g s slot m out) (hm : m ≤ maxHops.toNat) :
    s.resolve g maxHops slot = out := by
  cases htrail with
  | starves hsource => rw [resolve, hsource]; rfl
  | breaks hsource => rw [resolve, hsource]; rfl
  | misses hsource hinput =>
    rw [resolve, hsource]
    simp only [bind, Except.bind] at hinput ⊢
    rw [hinput]
    rfl
  | @starts p l input m out hsource hinput hrest =>
    have hp := source_mem_sites hs hsource
    rw [resolve_of_source hsource hinput]
    apply walk_eq_of_trail hids hp hrest hm
    intro q l' m' out' hq hmem htrail'
    rw [List.mem_singleton, Prod.mk.injEq] at hmem
    obtain ⟨hid, hslot⟩ := hmem
    have hsite : q = p := List.inj_on_of_nodup_map hids hq hp hid
    rw [hsite] at htrail'
    rw [(hrest.unique htrail' hslot).1]

private theorem resolve_endless_or_trail (g : Workflow) (s : Site) (maxHops slot : Int) :
    (∃ f, s.resolve g maxHops slot = .error f ∧ f.IsEndless) ∨
      ∃ m out, m ≤ maxHops.toNat ∧ TrailFrom g s slot m out := by
  cases hsource : s.source g slot with
  | error f => exact .inr ⟨0, _, Nat.zero_le _, .breaks hsource⟩
  | ok found =>
    cases found with
    | none => exact .inr ⟨0, _, Nat.zero_le _, .starves hsource⟩
    | some found =>
      obtain ⟨p, l⟩ := found
      cases hinput : (position? s.inputs.length slot).bind (s.inputs[·]?) with
      | none => exact .inr ⟨0, _, Nat.zero_le _, .misses hsource hinput⟩
      | some input =>
        rw [resolve_of_source hsource hinput]
        rcases walk_endless_or_trail maxHops.toNat 0 [(p.id, l.originSlot.val)] p l with
          hendless | ⟨m, out, hm, htrail⟩
        · exact .inl hendless
        · exact .inr ⟨m, out, hm, .starts hsource hinput htrail⟩

private theorem Trail.neverEndless (h : Trail g wanted p l m out) : NeverEndless out := by
  induction h with
  | arrives => exact neverEndless_ok _
  | strands => exact neverEndless_ok _
  | starves => exact neverEndless_ok _
  | breaks _ _ hsource =>
    intro a b c hf
    cases hf
    exact neverEndless_source _ _ _ a b c hsource
  | passes _ _ _ _ ih => exact ih

private theorem TrailFrom.neverEndless (h : TrailFrom g s slot m out) : NeverEndless out := by
  cases h with
  | starves => exact neverEndless_ok _
  | breaks hsource =>
    intro a b c hf
    cases hf
    exact neverEndless_source _ _ _ a b c hsource
  | misses => exact fun _ _ _ hf => nomatch hf
  | starts _ _ hrest => exact hrest.neverEndless

/-- If nothing obstructs the workflow, trails do not break. -/
theorem Trail.exists_ok (hclear : ¬ Obstructed g) (hp : p ∈ sites g)
    (h : Trail g wanted p l m out) : ∃ found, out = .ok found := by
  induction h with
  | arrives => exact ⟨_, rfl⟩
  | strands => exact ⟨_, rfl⟩
  | starves => exact ⟨_, rfl⟩
  | @breaks p l next f _ _ hsource =>
    obtain ⟨found, hfound⟩ := exists_source hclear hp next
    rw [hfound] at hsource
    cases hsource
  | passes _ _ hsource _ ih => exact ih (source_mem_sites hp hsource)

private theorem TrailFrom.exists_ok (hclear : ¬ Obstructed g) (hs : s ∈ sites g)
    (hslot : ∃ i, position? s.inputs.length slot = some i) (h : TrailFrom g s slot m out) :
    ∃ found, out = .ok found := by
  cases h with
  | starves => exact ⟨_, rfl⟩
  | breaks hsource =>
    obtain ⟨found, hfound⟩ := exists_source hclear hs slot
    rw [hfound] at hsource
    cases hsource
  | misses _ hinput =>
    obtain ⟨i, hi⟩ := hslot
    rw [hi, Option.bind_some, List.getElem?_eq_getElem (position?_lt hi)] at hinput
    cases hinput
  | starts hsource _ hrest => exact hrest.exists_ok hclear (source_mem_sites hs hsource)

end Resolve

/-- What resolving an input comes to, in a graph of any shape whose sites have different ids.  It is
refused exactly if the trail has more passing producers than the bound, which for a trail without end
is every bound; otherwise it comes to what the trail comes to.  That is no failure where all references
can be followed. -/
theorem resolve_followsTrail (hids : ((sites g).map (·.id)).Nodup) (hs : s ∈ sites g)
    (slot maxHops : Int) :
    ((∃ f, s.resolve g maxHops slot = .error f ∧ f.IsEndless) ↔
        ∀ m out, TrailFrom g s slot m out → maxHops.toNat < m) ∧
      (∀ m out, TrailFrom g s slot m out → m ≤ maxHops.toNat → s.resolve g maxHops slot = out) ∧
      (∀ m out m' out', TrailFrom g s slot m out → TrailFrom g s slot m' out' →
        m' = m ∧ out' = out) ∧
      (¬ Obstructed g → (∃ i, position? s.inputs.length slot = some i) →
        ∀ m out, TrailFrom g s slot m out → ∃ found, out = .ok found) := by
  refine ⟨⟨?_, ?_⟩, ?_, ?_, ?_⟩
  · rintro ⟨f, hresolve, node, i, hops, rfl⟩ m out htrail
    by_contra hle
    rw [resolve_eq_of_trail hids hs htrail (by omega)] at hresolve
    exact htrail.neverEndless node i hops hresolve
  · intro hlong
    rcases resolve_endless_or_trail g s maxHops slot with hendless | ⟨m, out, hm, htrail⟩
    · exact hendless
    · have hlt := hlong m out htrail
      omega
  · intro m out htrail hm
    exact resolve_eq_of_trail hids hs htrail hm
  · intro m out m' out' htrail htrail'
    exact htrail.unique htrail'
  · intro hclear hslot m out htrail
    exact htrail.exists_ok hclear hs hslot

/-! ## Two reroutes in a row, and a link from before the first output of a group -/

/-- A reroute that takes its value from a link and gives it to another. -/
def relay (id : Int) (taken given : Int) : Node Group where
  id := .number id
  kind := .reroute
  type := "Reroute"
  title := none
  inputs := [{ name := "", link := some taken }]
  outputs := [{ name := "", links := [given] }]

/-- A node that takes its value from a link. -/
def taker (id : Int) (taken : Int) : Node Group where
  id := .number id
  type := "Sink"
  title := none
  inputs := [{ name := "x", link := some taken }]

/-- A source, two reroutes and a sink, and two reroutes that feed each other. -/
def relayed : Workflow where
  nodes := [{ id := .number 1, type := "Source", title := none, outputs := [{ name := "o" }] },
    relay 2 1 2, relay 3 2 3, taker 4 3, relay 5 6 5, relay 6 5 6, taker 7 5]
  links := [⟨.number 1, .int 1, .number 0, .int 2, .number 0, .str "*"⟩,
    ⟨.number 2, .int 2, .number 0, .int 3, .number 0, .str "*"⟩,
    ⟨.number 3, .int 3, .number 0, .int 4, .number 0, .str "*"⟩,
    ⟨.number 5, .int 5, .number 0, .int 6, .number 0, .str "*"⟩,
    ⟨.number 6, .int 6, .number 0, .int 5, .number 0, .str "*"⟩]

/-- The sink behind the two reroutes is resolved within two hops and refused within one; the sink behind
the circle is on no trail of up to 64. -/
theorem relayed_followsTrail :
    ((sites relayed).map (·.id)).Nodup ∧
      (∃ r, TrailFrom relayed (.outer (taker 4 3)) 0 2 (.ok (some r)) ∧ r.site.id = .number 1 ∧
        (Site.outer (taker 4 3)).resolve relayed 2 0 = .ok (some r)) ∧
      (∃ f, (Site.outer (taker 4 3)).resolve relayed 1 0 = .error f ∧ f.IsEndless) ∧
      ∀ m out, TrailFrom relayed (.outer (taker 7 5)) 0 m out → 64 < m := by
  have hids : ((sites relayed).map (·.id)).Nodup := by decide
  have hsink : Site.outer (taker 4 3) ∈ sites relayed := mem_sites_outer.2 (by simp [relayed])
  have hcaught : Site.outer (taker 7 5) ∈ sites relayed := mem_sites_outer.2 (by simp [relayed])
  have htrail : TrailFrom relayed (.outer (taker 4 3)) 0 2 _ :=
    .starts rfl rfl (.passes rfl (.paired rfl rfl) rfl
      (.passes rfl (.paired rfl rfl) rfl (.arrives rfl)))
  refine ⟨hids, ⟨_, htrail, rfl, ?_⟩, ?_, ?_⟩
  · exact (resolve_followsTrail hids hsink 0 2).2.1 2 _ htrail le_rfl
  · apply (resolve_followsTrail hids hsink 0 1).1.2
    intro m out htrail'
    rw [(htrail.unique htrail').1]
    decide
  · apply (resolve_followsTrail hids hcaught 0 64).1.1
    exact ⟨_, rfl, _, _, _, rfl⟩

/-- A group with one output, and a sink whose link starts four outputs before it. -/
def overshot : Workflow where
  nodes := [
    { id := .number 1, type := "Group", title := none, outputs := [{ name := "o" }]
      kind := .group ⟨{ nodes := [{ id := .number 1, type := "Source", title := none }] }, [],
        [⟨.number 1, 0⟩]⟩ },
    taker 2 1]
  links := [⟨.number 1, .int 1, .number (-5), .int 2, .number 0, .str "*"⟩]

/-- A bound below zero lets a walk without hops pass, though none is more than the bound; and behind a
link that starts before the first output of a group nothing is resolved. -/
theorem relayed_below_bound :
    ¬ ((∃ f, (Site.outer (relay 2 1 2)).resolve relayed (-1) 0 = .error f ∧ f.IsEndless) ↔
        ∀ m out, TrailFrom relayed (.outer (relay 2 1 2)) 0 m out → (-1 : Int) < m) ∧
      (Site.outer (taker 2 1)).resolve overshot 64 0 = .error Fault.outside ∧
      ¬ Fault.outside.IsEndless := by
  refine ⟨?_, rfl, ?_⟩
  · intro h
    obtain ⟨f, hrefused, -⟩ := h.2 fun m _ _ => by omega
    cases hrefused
  · rintro ⟨_, _, _, h⟩
    cases h

end Site

end NodeFlow
