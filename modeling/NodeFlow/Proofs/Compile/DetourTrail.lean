import NodeFlow.Proofs.Compile.FlattenSteps
import NodeFlow.Proofs.Compile.Trail
import NodeFlow.Proofs.Edit.Detour

/-!
# Trails with a detour

A trail that runs along the link of a detour passes through the reroute instead, one producer more on
its way, and goes on from the same output.  So where an input can be resolved both with the reroute and
without it, both ways end at the same output, and where the steps of a site can be built, they are the
same.

Main results:

- Theorems `Site.exists_trail_of_walk` and `Site.exists_trailFrom_of_resolve`: an input that is resolved
  has a trail.
- Definition `Detour.carry`: a site of the workflow with the reroute.
- Inductive type `Detour.Leads`: an input leads to a producer, directly or through the reroute.
- Theorem `Detour.Fits.leads_of_source`: the producer behind an input.
- Theorem `Detour.Fits.exists_trailFrom`: trails end at the same outputs.
- Theorem `Detour.Fits.eq_of_isBuilt`: sites have the same steps.
-/

namespace NodeFlow

/-! ## Trails of resolved inputs -/

namespace Site

variable {g : Workflow} {asker : NodeId} {slot : Int} {wanted : String} {r : Option Resolved}

/-- A walk that ends has followed a trail. -/
theorem exists_trail_of_walk {left hops : Nat} {seen : List (NodeId × Int)} {p : Site} {l : Link}
    (h : walk g asker slot wanted left hops seen p l = .ok r) :
    ∃ m, Trail g wanted p l m (.ok r) := by
  induction left generalizing hops seen p l with
  | zero =>
    by_cases hp : p.isPassing = true
    · rw [walk_zero hp] at h
      cases h
    · have hp : p.isPassing = false := by simpa using hp
      rw [walk_of_not_passing hp] at h
      cases h
      exact ⟨0, .arrives hp⟩
  | succ left ih =>
    by_cases hp : p.isPassing = true
    · by_cases hnext : ∃ next, p.PassesOn l wanted next
      · obtain ⟨next, hnext⟩ := hnext
        cases hsource : p.source g next with
        | error f =>
          rw [walk_of_source_error hp hnext hsource] at h
          cases h
        | ok found =>
          cases found with
          | none =>
            rw [walk_of_source_none hp hnext hsource] at h
            cases h
            exact ⟨1, .starves hp hnext hsource⟩
          | some found =>
            rw [walk_of_source hp hnext hsource] at h
            split at h
            · cases h
            · rcases ih h with ⟨m, hrest⟩
              exact ⟨m + 1, .passes hp hnext hsource hrest⟩
      · rw [walk_of_no_way hp (not_exists.1 hnext)] at h
        cases h
        exact ⟨1, .strands hp (not_exists.1 hnext)⟩
    · have hp : p.isPassing = false := by simpa using hp
      rw [walk_of_not_passing hp] at h
      cases h
      exact ⟨0, .arrives hp⟩

/-- An input that is resolved has a trail. -/
theorem exists_trailFrom_of_resolve {s : Site} {maxHops : Int}
    (h : s.resolve g maxHops slot = .ok r) : ∃ m, TrailFrom g s slot m (.ok r) := by
  cases hsource : s.source g slot with
  | error f =>
    rw [resolve, hsource] at h
    cases h
  | ok found =>
    cases found with
    | none =>
      rw [resolve, hsource] at h
      cases h
      exact ⟨0, .starves hsource⟩
    | some found =>
      cases hinput : (position? s.inputs.length slot).bind (s.inputs[·]?) with
      | none =>
        rw [resolve, hsource] at h
        simp only [bind, Except.bind] at hinput h
        rw [hinput] at h
        cases h
      | some input =>
        rw [resolve_of_source hsource hinput] at h
        rcases exists_trail_of_walk h with ⟨m, hrest⟩
        exact ⟨m, .starts hsource hinput hrest⟩

end Site

/-! ## Sites with the reroute -/

namespace Detour

open NodeFlow.Graph Workflow Site

variable (d : Detour)

/-- The site as it stands in the workflow with the reroute. -/
def carry : Site → Site
  | .outer n => .outer (d.rewire n)
  | .inner host x n => .inner (d.rewire host) x n

section Carry

variable (s : Site)

@[simp] theorem id_carry : (d.carry s).id = s.id := by cases s <;> rfl

@[simp] theorem place_carry : (d.carry s).place = s.place := by cases s <;> rfl

@[simp] theorem type_carry : (d.carry s).type = s.type := by cases s <;> rfl

@[simp] theorem title_carry : (d.carry s).title = s.title := by cases s <;> rfl

@[simp] theorem widgets_carry : (d.carry s).widgets = s.widgets := by cases s <;> rfl

@[simp] theorem isVirtual_carry : (d.carry s).isVirtual = s.isVirtual := by cases s <;> rfl

@[simp] theorem isPassing_carry : (d.carry s).isPassing = s.isPassing := by cases s <;> rfl

@[simp] theorem isEmitted_carry : (d.carry s).isEmitted = s.isEmitted := by cases s <;> rfl

@[simp] theorem literals_carry : (d.carry s).literals = s.literals := by
  rw [literals, literals, widgets_carry]

@[simp] theorem passThrough?_carry (output : Int) :
    (d.carry s).passThrough? output = s.passThrough? output := by cases s <;> rfl

@[simp] theorem length_inputs_carry : (d.carry s).inputs.length = s.inputs.length := by
  cases s with
  | outer n => exact d.length_inputs_rewire n
  | inner host x n => rfl

private theorem map_getElem?_inputs_carry {β : Type} {F : InputSlot → β}
    (hF : ∀ s link, F { s with link } = F s) (j : Nat) :
    ((d.carry s).inputs[j]?).map F = (s.inputs[j]?).map F := by
  cases s with
  | outer n => exact d.map_getElem?_inputs_rewire n hF j
  | inner host x n => rfl

private theorem map_name_inputs_carry :
    (d.carry s).inputs.map (·.name) = s.inputs.map (·.name) := by
  refine List.ext_getElem? fun j => ?_
  rw [List.getElem?_map, List.getElem?_map, d.map_getElem?_inputs_carry s fun _ _ => rfl]

variable {s}

private theorem nextInput?_carry {l l' : Link} (hslot : l'.originSlot = l.originSlot)
    (wanted : String) : (d.carry s).nextInput? l' wanted = s.nextInput? l wanted := by
  rw [nextInput?, nextInput?, isVirtual_carry, passThrough?_carry, hslot, matchingInput?_congr]
  exact fun j => d.map_getElem?_inputs_carry s (fun _ _ => rfl) j

private theorem passesOn_carry {l l' : Link} (hslot : l'.originSlot = l.originSlot)
    {wanted : String}
    {next : Int} : (d.carry s).PassesOn l' wanted next ↔ s.PassesOn l wanted next := by
  rw [← nextInput?_eq_some_iff, ← nextInput?_eq_some_iff, d.nextInput?_carry hslot]

end Carry

/-- The inner producer behind an output of a group. -/
theorem innerProducer?_rewire (host : Node Group) (x : Group) (l : Link) :
    innerProducer? (d.rewire host) x l =
      (innerProducer? host x l).map (Option.map fun q => (d.carry q.1, q.2)) := by
  unfold innerProducer?
  split
  · rfl
  · split
    · rfl
    · rename_i port _
      cases x.graph.find? port.node with
      | error f => rfl
      | ok found => cases found <;> rfl

private theorem unwrap_rewire (n : Node Group) (l : Link) :
    unwrap (d.rewire n) l = (unwrap n l).map fun q => (d.carry q.1, q.2) := by
  rw [unwrap, unwrap, group?_rewire]
  cases n.group? with
  | none => rfl
  | some x =>
    simp only [mode_rewire, innerProducer?_rewire]
    split
    · cases innerProducer? n x l with
      | error f => rfl
      | ok found => cases found <;> rfl
    · rfl

section Congr

variable {n : Node Group} {l l' : Link} (hslot : l'.originSlot = l.originSlot)

include hslot

private theorem innerProducer?_congr (x : Group) :
    (innerProducer? n x l').map (·.map fun q => (q.1, q.2.originSlot)) =
      (innerProducer? n x l).map (·.map fun q => (q.1, q.2.originSlot)) := by
  unfold innerProducer?
  rw [hslot]
  split
  · rfl
  · split
    · rfl
    · rename_i port _
      cases x.graph.find? port.node with
      | error f => rfl
      | ok found => cases found <;> rfl

/-- The producer at the origin of a link depends on the output that the link starts from only. -/
theorem unwrap_congr {p : Site} {k : Link} (h : unwrap n l = .ok (p, k)) :
    ∃ k', unwrap n l' = .ok (p, k') ∧ k'.originSlot = k.originSlot := by
  rw [unwrap] at h ⊢
  cases hgroup : n.group? with
  | none =>
    rw [hgroup] at h
    cases h
    exact ⟨l', rfl, hslot⟩
  | some x =>
    rw [hgroup] at h
    by_cases hmode : n.mode = normalMode
    · simp only [if_pos hmode] at h ⊢
      rcases Fault.bind_eq_ok_iff.1 h with ⟨found, hfound, hend⟩
      have hsame := innerProducer?_congr (n := n) hslot x
      rw [hfound] at hsame
      rcases Fault.map_eq_ok_iff.1 hsame with ⟨found', hfound', hmap⟩
      rw [hfound']
      cases found with
      | none =>
        cases Option.map_eq_none_iff.1 hmap
        cases hend
        exact ⟨l', rfl, hslot⟩
      | some q =>
        cases hend
        rcases Option.map_eq_some_iff.1 hmap with ⟨q', rfl, hq⟩
        rcases Prod.mk.inj hq with ⟨rfl, hslots⟩
        exact ⟨q'.2, rfl, hslots⟩
    · simp only [if_neg hmode] at h ⊢
      cases h
      exact ⟨l', rfl, hslot⟩

end Congr

/-! ## Producers behind inputs -/

/-- With the reroute, an input leads to an output of a producer, directly or through the reroute. -/
inductive Leads (g : Workflow) (s : Site) (slot : Int) (p : Site) (output : Whole) : Prop
  | straight {l : Link} (hsource : (d.carry s).source (d.apply g) slot = .ok (some (d.carry p, l)))
      (hslot : l.originSlot = output) : Leads g s slot p output
  | around {l l' : Link}
      (hsource : (d.carry s).source (d.apply g) slot = .ok (some (.outer d.node, l)))
      (hzero : l.originSlot.val = 0)
      (hnext : (Site.outer d.node).source (d.apply g) 0 = .ok (some (d.carry p, l')))
      (hslot : l'.originSlot = output) : Leads g s slot p output

namespace Fits

variable {d} {g : Workflow} (h : d.Fits g)

include h

private theorem inLink?_apply {n : Node Group} (hn : n ∈ g.nodes) (slot : Int) :
    (d.apply g).inLink? (d.rewire n) slot =
      if n.id = d.target ∧ slot = d.entry then some d.second else g.inLink? n slot := by
  rw [inLink?_eq_heldLink?, inLink?_eq_heldLink?, h.heldLink?_apply hn, isCutOff_rewire]
  by_cases hslot : slot < 0
  · have hne : ¬ slot = d.entry := by omega
    simp [hslot, hne]
  · have hiff : slot.toNat = d.entry ↔ slot = d.entry := by omega
    by_cases htarget : n.id = d.target ∧ slot = d.entry
    · rcases h.replaces with ⟨l, o, t, ht⟩
      rw [h.eq_target ht hn htarget.1, ht.attached]
      simp [ht.targetId, htarget.2]
    · simp only [hiff, if_neg htarget]

private theorem source_node {l : Link} {o t : Node Group} (ht : d.Replaces g l o t) :
    Workflow.source (d.apply g) d.node 0 =
      (unwrap o d.first).map fun q => some (d.carry q.1, q.2) := by
  have hlink : (d.apply g).inLink? d.node 0 = some d.first := by
    rw [inLink?_eq_heldLink?, d.attached]
    exact h.heldLink?_node
  rw [Workflow.source, hlink]
  simp only [h.lookup?_first ht, bind, Except.bind, unwrap_rewire]
  cases unwrap o d.first <;> rfl

omit h in
/-- An input whose producer is the same leads straight to it. -/
theorem leads_of_eq {s : Site} {slot : Int} {found : Option (Site × Link)}
    (hsame : (d.carry s).source (d.apply g) slot =
      (s.source g slot).map (Option.map fun q => (d.carry q.1, q.2)))
    (hfound : s.source g slot = .ok found) :
    (found = none ∧ (d.carry s).source (d.apply g) slot = .ok none) ∨
      ∃ p l, found = some (p, l) ∧ d.Leads g s slot p l.originSlot := by
  rw [hfound] at hsame
  cases found with
  | none => exact .inl ⟨rfl, hsame⟩
  | some q => exact .inr ⟨q.1, q.2, rfl, .straight hsame rfl⟩

/-- An input of the workflow that keeps its link has the same producer. -/
theorem source_rewire {n : Node Group} (hn : n ∈ g.nodes) {slot : Int}
    (hkept : ¬ (n.id = d.target ∧ slot = d.entry)) :
    Workflow.source (d.apply g) (d.rewire n) slot =
      (Workflow.source g n slot).map (Option.map fun q => (d.carry q.1, q.2)) := by
  rw [Workflow.source, Workflow.source, h.inLink?_apply hn, if_neg hkept]
  cases hl : g.inLink? n slot with
  | none => rfl
  | some l =>
    have hlookup : (d.apply g).lookup? l.origin = (g.lookup? l.origin).map (·.map d.rewire) := by
      rw [inLink?_eq_heldLink?] at hl
      split at hl
      · cases hl
      · exact d.lookup?_apply (h.uncaught l (mem_of_heldLink? hl)).1
    simp only [hlookup]
    cases g.lookup? l.origin with
    | error f => rfl
    | ok found =>
      cases found with
      | none => rfl
      | some o =>
        simp only [Except.map, Option.map_some, bind, Except.bind, unwrap_rewire]
        cases unwrap o l <;> rfl

/-- The input that the detour leads to has its producer behind the reroute. -/
theorem leads_around {n : Node Group} (hn : n ∈ g.nodes) (hid : n.id = d.target)
    {found : Option (Site × Link)} (hfound : Workflow.source g n d.entry = .ok found) :
    ∃ p l, found = some (p, l) ∧ d.Leads g (.outer n) d.entry p l.originSlot := by
  rcases h.replaces with ⟨l, o, t, ht⟩
  have hold : g.inLink? n d.entry = some l := by
    have hpositive : ¬ (d.entry : Int) < 0 := by omega
    rw [inLink?_eq_heldLink?, h.eq_target ht hn hid, ht.attached]
    simp only [hpositive, Bool.false_eq_true, or_self, if_false, Int.toNat_natCast, ht.heldLink?]
  have hnew : (d.apply g).inLink? (d.rewire n) d.entry = some d.second := by
    rw [h.inLink?_apply hn, if_pos ⟨hid, rfl⟩]
  rw [Workflow.source, hold] at hfound
  simp only [ht.origin, bind, Except.bind] at hfound
  cases hunwrap : unwrap o l with
  | error f =>
    rw [hunwrap] at hfound
    cases hfound
  | ok q =>
    rw [hunwrap] at hfound
    cases hfound
    rcases unwrap_congr ht.slot hunwrap with ⟨k', hk', hslot⟩
    refine ⟨q.1, q.2, rfl, .around (l := d.second) ?_ d.leaves.2 ?_ hslot⟩
    · have hgroup : d.node.group? = none := by rw [Node.group?, d.reroute]
      simp only [carry, Site.source, Workflow.source, hnew, h.lookup?_second, bind, Except.bind, unwrap,
        hgroup, pure, Except.pure]
    · rw [Site.source, h.source_node ht, hk']
      rfl

/-- The producer behind an input of a node of the workflow. -/
theorem leads_of_source_outer {n : Node Group} (hn : n ∈ g.nodes) {slot : Int}
    {found : Option (Site × Link)} (hfound : Workflow.source g n slot = .ok found) :
    (found = none ∧ Workflow.source (d.apply g) (d.rewire n) slot = .ok none) ∨
      ∃ p l, found = some (p, l) ∧ d.Leads g (.outer n) slot p l.originSlot := by
  by_cases htarget : n.id = d.target ∧ slot = d.entry
  · rcases htarget with ⟨hid, rfl⟩
    exact .inr (h.leads_around hn hid hfound)
  · exact leads_of_eq (s := .outer n) (h.source_rewire hn htarget) hfound

/-- The producer behind an input of any site. -/
theorem leads_of_source {s : Site} (hs : s ∈ sites g) {slot : Int} {found : Option (Site × Link)}
    (hfound : s.source g slot = .ok found) :
    (found = none ∧ (d.carry s).source (d.apply g) slot = .ok none) ∨
      ∃ p l, found = some (p, l) ∧ d.Leads g s slot p l.originSlot := by
  cases s with
  | outer n => exact h.leads_of_source_outer (mem_sites_outer.1 hs) hfound
  | inner host x n =>
    cases hlink : x.graph.inLink? n slot with
    | some l =>
      -- what is inside a group does not change
      refine leads_of_eq ?_ hfound
      simp only [carry, Site.source, hlink]
      cases x.graph.lookup? l.origin with
      | error f => rfl
      | ok origin => cases origin <;> rfl
    | none =>
      cases hindex : x.inputs.findIdx? fun port => port.node == n.id && port.slot == slot with
      | none =>
        refine leads_of_eq ?_ hfound
        simp only [carry, Site.source, hlink, hindex]
        rfl
      | some i =>
        simp only [Site.source, hlink, hindex] at hfound
        rcases Fault.bind_eq_ok_iff.1 hfound with ⟨outside, houtside, hrest⟩
        rcases h.leads_of_source_outer (mem_sites_inner.1 hs).1 houtside with
          ⟨rfl, hnone⟩ | ⟨p, l, rfl, hleads⟩
        · cases hrest
          refine .inl ⟨rfl, ?_⟩
          simp only [carry, Site.source, hlink, hindex, hnone, bind, Except.bind]
          rfl
        · cases hrest
          refine .inr ⟨p, _, rfl, ?_⟩
          have hinward : ∀ {q : Site × Link}, (Site.outer (d.rewire host)).source (d.apply g) i =
              .ok (some q) → ∃ k : Link, k.originSlot = q.2.originSlot ∧
                (d.carry (.inner host x n)).source (d.apply g) slot = .ok (some (q.1, k)) := by
            intro q hq
            refine ⟨{ q.2 with target := (Site.inner host x n).id.toJson,
                               targetSlot := .number slot }, rfl, ?_⟩
            simp only [Site.source] at hq
            simp only [carry, Site.source, hlink, hindex, hq, bind, Except.bind]
            rfl
          cases hleads with
          | straight hsource hslot =>
            rcases hinward hsource with ⟨k, hk, hsource⟩
            exact .straight hsource (hk.trans hslot)
          | around hsource hzero hnext hslot =>
            rcases hinward hsource with ⟨k, hk, hsource⟩
            exact .around hsource ((congrArg Whole.val hk).trans hzero) hnext hslot

end Fits

/-! ## Trails -/

/-- What is resolved with the reroute is what is resolved without it. -/
structure Resolves (r r' : Resolved) : Prop where
  site : r'.site = d.carry r.site
  slot : r'.slot = r.slot

/-- A reroute is virtual. -/
theorem isVirtual_node : (Site.outer d.node).isVirtual = true := by
  rw [Site.isVirtual, Node.isVirtual, d.reroute]
  rfl

private theorem isPassing_node : (Site.outer d.node).isPassing = true := by
  rw [isPassing, d.isVirtual_node]
  rfl

/-- The reroute leads on through its input. -/
theorem passesOn_node {l : Link} (hzero : l.originSlot.val = 0) (wanted : String) :
    (Site.outer d.node).PassesOn l wanted 0 := by
  refine .paired d.isVirtual_node ?_
  rw [Site.passThrough?, Node.passThrough?, d.reroute, hzero]
  rfl

/-- Behind a producer, the workflow with the reroute has a trail to the same output. -/
def Follows (g : Workflow) (wanted : String) (p : Site) (l : Link) (r : Option Resolved) : Prop :=
  ∃ m r', Option.Rel d.Resolves r r' ∧ Trail (d.apply g) wanted p l m (.ok r')

/-- A trail that goes on from where an input leads. -/
theorem Leads.exists_follows {d : Detour} {g : Workflow} {s p : Site} {slot : Int} {output : Whole}
    (hleads : d.Leads g s slot p output) {wanted : String} {r : Option Resolved}
    (hrest : ∀ l : Link, l.originSlot = output → d.Follows g wanted (d.carry p) l r) :
    ∃ q l, (d.carry s).source (d.apply g) slot = .ok (some (q, l)) ∧ d.Follows g wanted q l r := by
  cases hleads with
  | straight hsource hslot => exact ⟨_, _, hsource, hrest _ hslot⟩
  | around hsource hzero hnext hslot =>
    rcases hrest _ hslot with ⟨m, r', hr, htrail⟩
    exact ⟨_, _, hsource, m + 1, r', hr,
      .passes d.isPassing_node (d.passesOn_node hzero wanted) hnext htrail⟩

namespace Fits

variable {d} {g : Workflow} (h : d.Fits g)

include h

/-- With the reroute, trails end at the same outputs. -/
theorem follows_of_trail {wanted : String} {p : Site} (hp : p ∈ sites g) {l : Link} {m : Nat}
    {r : Option Resolved} (htrail : Trail g wanted p l m (.ok r)) {l' : Link}
    (hslot : l'.originSlot = l.originSlot) : d.Follows g wanted (d.carry p) l' r := by
  generalize hout : Except.ok r = out at htrail
  induction htrail generalizing l' with
  | arrives hpassing =>
    cases hout
    exact ⟨0, _, .some ⟨rfl, hslot⟩, .arrives ((d.isPassing_carry _).trans hpassing)⟩
  | strands hpassing hnext =>
    cases hout
    refine ⟨1, _, .some ⟨rfl, hslot⟩,
      .strands ((d.isPassing_carry _).trans hpassing) fun next => ?_⟩
    rw [d.passesOn_carry hslot]
    exact hnext next
  | starves hpassing hnext hsource =>
    cases hout
    rcases h.leads_of_source hp hsource with ⟨-, hnone⟩ | ⟨_, _, hsome, -⟩
    · exact ⟨1, none, .none, .starves ((d.isPassing_carry _).trans hpassing)
        ((d.passesOn_carry hslot).2 hnext) hnone⟩
    · cases hsome
  | breaks => cases hout
  | passes hpassing hnext hsource _ ih =>
    rcases h.leads_of_source hp hsource with ⟨hnone, -⟩ | ⟨q, k, hsome, hleads⟩
    · cases hnone
    · cases hsome
      rcases hleads.exists_follows fun k' hk' => ih (source_mem_sites hp hsource) hk' hout with
        ⟨q', k', hsource', m, r', hr, htrail⟩
      exact ⟨m + 1, r', hr, .passes ((d.isPassing_carry _).trans hpassing)
        ((d.passesOn_carry hslot).2 hnext) hsource' htrail⟩

/-- With the reroute, the trail behind an input ends at the same output. -/
theorem exists_trailFrom {s : Site} (hs : s ∈ sites g) {slot : Int} {m : Nat} {r : Option Resolved}
    (htrail : TrailFrom g s slot m (.ok r)) :
    ∃ m' r', Option.Rel d.Resolves r r' ∧ TrailFrom (d.apply g) (d.carry s) slot m' (.ok r') := by
  generalize hout : Except.ok r = out at htrail
  cases htrail with
  | starves hsource =>
    cases hout
    rcases h.leads_of_source hs hsource with ⟨-, hnone⟩ | ⟨_, _, hsome, -⟩
    · exact ⟨0, none, .none, .starves hnone⟩
    · cases hsome
  | breaks => cases hout
  | misses => cases hout
  | @starts p l input m out hsource hinput hrest =>
    cases hout
    rcases h.leads_of_source hs hsource with ⟨hnone, -⟩ | ⟨q, k, hsome, hleads⟩
    · cases hnone
    · cases hsome
      rcases hleads.exists_follows fun k' hk' =>
          h.follows_of_trail (source_mem_sites hs hsource) hrest hk' with
        ⟨q', k', hsource', m', r', hr, htrail'⟩
      -- the input has the type that it had
      obtain ⟨input', hinput', htype⟩ : ∃ input', (position? (d.carry s).inputs.length slot).bind
          ((d.carry s).inputs[·]?) = some input' ∧ input'.type = input.type := by
        rcases Option.bind_eq_some_iff.1 hinput with ⟨i, hi, hget⟩
        have htypes := d.map_getElem?_inputs_carry s (F := (·.type)) (fun _ _ => rfl) i
        rw [hget, Option.map_some] at htypes
        rcases Option.map_eq_some_iff.1 htypes with ⟨input', hinput', htype⟩
        exact ⟨input', by rw [length_inputs_carry, hi, Option.bind_some, hinput'], htype⟩
      exact ⟨m', r', hr, .starts hsource' hinput' (htype.symm ▸ htrail')⟩

/-! ## Steps -/

/-- An input that is resolved with the reroute and without it refers to the same output. -/
theorem referenceOf_resolve {s : Site} (hs : s ∈ sites g) {maxHops slot : Int}
    {r r' : Option Resolved} (hr : s.resolve g maxHops slot = .ok r)
    (hr' : (d.carry s).resolve (d.apply g) maxHops slot = .ok r') :
    referenceOf r' = referenceOf r := by
  rcases exists_trailFrom_of_resolve hr with ⟨m, htrail⟩
  rcases h.exists_trailFrom hs htrail with ⟨m₁, r₁, hresolves, htrail₁⟩
  rcases exists_trailFrom_of_resolve hr' with ⟨m₂, htrail₂⟩
  have hsame : r' = r₁ := Except.ok.inj (htrail₁.unique htrail₂).2
  rw [hsame]
  cases hresolves with
  | none => rfl
  | some hresolves =>
    simp only [referenceOf, hresolves.site, hresolves.slot, isVirtual_carry, id_carry]

private theorem linkInputs_carry {s : Site} (hs : s ∈ sites g) {maxHops : Int} {i : Nat}
    {slots slots' : List InputSlot} (hnames : slots'.map (·.name) = slots.map (·.name))
    {inputs out out' : Members} (hout : linkInputs g maxHops s i slots inputs = .ok out)
    (hout' : linkInputs (d.apply g) maxHops (d.carry s) i slots' inputs = .ok out') : out' = out := by
  induction slots generalizing i slots' inputs with
  | nil =>
    rw [List.map_nil, List.map_eq_nil_iff] at hnames
    subst hnames
    exact Except.ok.inj (hout'.symm.trans hout)
  | cons slot slots ih =>
    rcases List.map_eq_cons_iff.1 hnames with ⟨slot', rest', rfl, hname, hnames⟩
    rw [linkInputs] at hout hout'
    rcases Fault.bind_eq_ok_iff.1 hout with ⟨r, hr, hrest⟩
    rcases Fault.bind_eq_ok_iff.1 hout' with ⟨r', hr', hrest'⟩
    rw [h.referenceOf_resolve hs hr hr', hname] at hrest'
    cases hreference : referenceOf r with
    | none =>
      rw [hreference] at hrest hrest'
      exact ih hnames hrest hrest'
    | some reference =>
      rw [hreference] at hrest hrest'
      exact ih hnames hrest hrest'

/-- A site has the same step with the reroute and without it, if both can be built. -/
theorem eq_of_isBuilt {s : Site} (hs : s ∈ sites g) {maxHops : Int} {titled : Bool}
    {m m' : String × Step} (hm : s.IsBuilt g maxHops titled m)
    (hm' : (d.carry s).IsBuilt (d.apply g) maxHops titled m') : m' = m := by
  rcases Fault.bind_eq_ok_iff.1 hm.2 with ⟨inputs, hinputs, hstep⟩
  rcases Fault.bind_eq_ok_iff.1 hm'.2 with ⟨inputs', hinputs', hstep'⟩
  rw [literals_carry] at hinputs'
  have hsame := h.linkInputs_carry hs (d.map_name_inputs_carry s) hinputs hinputs'
  rw [hsame, type_carry, title_carry] at hstep'
  refine Prod.ext ?_ (Except.ok.inj (hstep'.symm.trans hstep))
  rw [hm.1, hm'.1, id_carry]

end Fits

end Detour

end NodeFlow
