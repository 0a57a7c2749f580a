import NodeFlow.Proofs.Compile.Flatten
import NodeFlow.Proofs.Compile.Steps

/-!
# Steps without groups

-/

namespace NodeFlow

open Workflow

/-! ## Workflows that can be flattened -/

namespace Workflow

/-- The groups of the workflow can be replaced by what is inside them. -/
structure Flattenable (g : Workflow) : Prop where
  /-- All sites have different keys. -/
  keyed : Keyed g
  /-- Groups are active. -/
  active : ∀ n ∈ g.nodes, n.group?.isSome = true → n.mode = normalMode
  /-- A group output that an input is linked to leads to a node inside. -/
  exits : ∀ n ∈ g.nodes, ∀ slot l, g.inLink? n slot = some l → ∀ host,
    g.lookup? l.origin = .ok (some host) → (host.exit? l.originSlot).isSome = true
  /-- A reroute inside a group has an input. -/
  passes : ∀ n ∈ g.nodes, ∀ x, n.group? = some x → ∀ m ∈ x.graph.nodes, m.kind = .reroute →
    m.inputs ≠ []

variable {g : Workflow}

/-- Nodes of a workflow that can be flattened have different ids. -/
theorem Flattenable.ids_nodup (h : Flattenable g) : (g.nodes.map (·.id)).Nodup := h.keyed.ids_nodup

/-- No group is muted or bypassed where a workflow can be flattened. -/
theorem Flattenable.isSkipped (h : Flattenable g) {n : Node Group} (hn : n ∈ g.nodes)
    (hgroup : n.group?.isSome = true) : n.isSkipped = false := by
  rw [Node.isSkipped, h.active n hn hgroup]
  rfl

/-- Every group is taken apart where a workflow can be flattened. -/
theorem Flattenable.parts? (h : Flattenable g) {n : Node Group} (hn : n ∈ g.nodes) :
    n.parts? = n.group? := by
  cases hgroup : n.group? with
  | none => simp [Node.parts?, hgroup]
  | some x => exact parts?_eq_some.2 ⟨h.isSkipped hn (by rw [hgroup]; rfl), hgroup⟩

end Workflow

private theorem Graph.link?_number {γ : Type} {g : Graph γ} {id : Int} {l : Link}
    (h : g.link? id = some l) : g.link? l.id.val = some l := by
  have hid : l.id.val = id := by simpa using List.find?_some h
  rw [hid, h]

private theorem Graph.link?_of_inLink? {γ : Type} {g : Graph γ} {n : Node γ} {slot : Int} {l : Link}
    (h : g.inLink? n slot = some l) : g.link? l.id.val = some l := by
  unfold inLink? at h
  split at h
  · cases h
  · rcases Option.bind_eq_some_iff.1 h with ⟨id, -, hl⟩
    exact link?_number hl

/-! ## Nodes that stand for sites -/

namespace Site

variable {g : Workflow} {s : Site}

/-- The node that stands for a site is virtual if the site is. -/
theorem isVirtual_flat (g : Workflow) (s : Site) : (Site.outer (s.flat g)).isVirtual = s.isVirtual := by
  cases s with
  | outer n => rfl
  | inner host x n => exact Kind.isVirtual_widen n.kind

private theorem passThrough?_flat (g : Workflow) (s : Site) (output : Int) :
    (Site.outer (s.flat g)).passThrough? output = s.passThrough? output := by
  cases s with
  | outer n => rfl
  | inner host x n =>
    simp only [passThrough?, Node.passThrough?, flat, asNode, Node.widen]
    cases n.kind with
    | group y => exact y.elim
    | _ => rfl

/-- The node that stands for a site is passed over if the site is. -/
theorem isSkipped_flat (g : Workflow) (s : Site) :
    (Site.outer (s.flat g)).isSkipped = s.isSkipped := by cases s <;> rfl

private theorem isBypassed_flat (g : Workflow) (s : Site) :
    (Site.outer (s.flat g)).isBypassed = s.isBypassed := by cases s <;> rfl

/-- The node that stands for a site has its widgets. -/
theorem widgets_flat (g : Workflow) (s : Site) : (s.flat g).widgets = s.widgets := by
  cases s <;> rfl

private theorem type_flat (g : Workflow) (s : Site) : (s.flat g).type = s.type := by cases s <;> rfl

private theorem title_flat (g : Workflow) (s : Site) :
    (s.flat g).title = s.title := by cases s <;> rfl

private theorem length_inputs_flat (g : Workflow) (s : Site) :
    (s.flat g).inputs.length = s.inputs.length := List.length_mapIdx

/-- The node that stands for a site has its inputs, with the links of the flattened workflow. -/
theorem getElem?_inputs_flat (g : Workflow) (s : Site) (i : Nat) :
    (s.flat g).inputs[i]? = (s.inputs[i]?).map fun slot => { slot with link := s.held g i slot } :=
  List.getElem?_mapIdx

end Site

namespace Workflow

variable {g : Workflow} {s : Site} {w : Wire}

/-- No node that stands for a site is a group. -/
theorem Flattenable.group?_flat (h : Flattenable g) (hs : s ∈ expanded g) :
    (s.flat g).group? = none := by
  cases s with
  | outer n =>
    rcases mem_expanded_outer.1 hs with ⟨hn, hparts⟩
    have hgroup : (Site.flat g (.outer n)).group? = n.group? := rfl
    rw [hgroup, ← h.parts? hn, hparts]
  | inner host x n =>
    simp only [Node.group?, Site.flat, Site.asNode, Node.widen]
    cases n.kind with
    | group y => nomatch y
    | _ => rfl

/-! ## What stands behind an input -/

/-- The link behind an input is carried over. -/
theorem carries_of_wire? (hs : s ∈ expanded g) {i : Int} (hw : s.wire? g i = some w) :
    g.Carries w := by
  cases s with
  | outer n =>
    rcases Option.map_eq_some_iff.1 hw with ⟨l, -, rfl⟩
    trivial
  | inner host x n =>
    simp only [Site.wire?] at hw
    split at hw
    · cases hw
      rcases mem_expanded_inner.1 hs with ⟨hhost, hparts, -⟩
      exact ⟨hhost, hparts⟩
    · rcases Option.bind_eq_some_iff.1 hw with ⟨j, -, hw⟩
      rcases Option.map_eq_some_iff.1 hw with ⟨l, -, rfl⟩
      trivial

/-- The link behind an input is found under its number. -/
theorem link?_number_of_wire? (hids : (g.nodes.map (·.id)).Nodup) (hs : s ∈ expanded g) {i : Int}
    (hw : s.wire? g i = some w) : (flatten g).link? (w.number g) = some (w.flat g) := by
  have houter : ∀ {n : Node Group} {j : Int} {l : Link}, g.inLink? n j = some l →
      (flatten g).link? ((Wire.outer l).number g) = some ((Wire.outer l).flat g) := by
    intro n j l hl
    rw [Wire.number, link?_flatten_outer, Graph.link?_of_inLink? hl]
    rfl
  cases s with
  | outer n =>
    rcases Option.map_eq_some_iff.1 hw with ⟨l, hl, rfl⟩
    exact houter hl
  | inner host x n =>
    rcases mem_expanded_inner.1 hs with ⟨hhost, hparts, -⟩
    simp only [Site.wire?] at hw
    split at hw
    · rename_i l hl
      cases hw
      rw [Wire.number, link?_flatten_inner hids hhost hparts, Graph.link?_of_inLink? hl]
      rfl
    · rcases Option.bind_eq_some_iff.1 hw with ⟨j, -, hw⟩
      rcases Option.map_eq_some_iff.1 hw with ⟨l, hl, rfl⟩
      exact houter hl

/-- What a slot of the workflow itself holds. -/
theorem link?_flatten_held (g : Workflow) (held : Option Int) :
    (held.map (g.linkNumber 0)).bind (flatten g).link? =
      (held.bind g.link?).map fun l => (Wire.outer l).flat g := by
  cases held with
  | none => rfl
  | some id => exact link?_flatten_outer g id

/-- An input inside a group counts only if the node has it. -/
def HasInput (s : Site) (i : Nat) : Prop := ∀ host x n, s = .inner host x n → i < n.inputs.length

private theorem inLink?_flat (hids : (g.nodes.map (·.id)).Nodup) (hs : s ∈ expanded g) {i : Nat}
    (hi : HasInput s i) : (flatten g).inLink? (s.flat g) i = (s.wire? g i).map (Wire.flat g) := by
  have hlink : (s.flat g).inputLink? i = (s.inputs[i]?).bind fun slot => s.held g i slot := by
    rw [Node.inputLink?, if_neg (by omega), Int.toNat_natCast, Site.getElem?_inputs_flat]
    cases s.inputs[i]? <;> rfl
  cases s with
  | outer n =>
    have hcut : (Site.flat g (.outer n)).isCutOff = n.isCutOff := rfl
    rw [Graph.inLink?, hcut, hlink, Site.wire?, Graph.inLink?]
    split
    · rfl
    · rw [Node.inputLink?, if_neg (by omega), Int.toNat_natCast]
      simp only [Site.inputs, Site.held]
      cases n.inputs[i]? with
      | none => rfl
      | some slot =>
        simp only [Option.bind_some, link?_flatten_held, Option.map_map]
        rfl
  | inner host x n =>
    have hcut : (Site.flat g (.inner host x n)).isCutOff = false := rfl
    rw [Graph.inLink?, hcut, hlink]
    have hlt := hi host x n rfl
    simp only [Site.inputs, List.getElem?_eq_getElem hlt, Option.bind_some, Site.held]
    cases hw : (Site.inner host x n).wire? g i with
    | none => rfl
    | some w => exact link?_number_of_wire? hids hs hw

/-- The producer behind an input of the node that stands for a site. -/
theorem source_flat (h : Flattenable g) (hs : s ∈ expanded g) {i : Nat} (hi : HasInput s i) :
    (Site.outer (s.flat g)).source (flatten g) i =
      .ok ((s.wire? g i).bind fun w => (w.origin? g).map fun o =>
        (.outer (o.1.flat g), w.flat g)) := by
  rw [Site.source, Workflow.source, inLink?_flat h.ids_nodup hs hi]
  cases hw : s.wire? g i with
  | none => rfl
  | some w =>
    have hcarries := carries_of_wire? hs hw
    simp only [Option.map_some, lookup?_origin_flat hcarries h.keyed]
    cases ho : w.origin? g with
    | none => simp [ho]; rfl
    | some o =>
      have hgroup := h.group?_flat (mem_expanded_of_origin? hcarries ho)
      simp only [Option.map_some, unwrap, hgroup, ho, bind, Except.bind, pure, Except.pure,
        Option.bind_some]

/-- The producer behind the output of a node. -/
theorem unwrap_eq (h : Flattenable g) {n : Node Group} (hn : n ∈ g.nodes) {l : Link}
    {o : Site × Whole} (hexit : n.exit? l.originSlot = some o) :
    ∃ l', unwrap n l = .ok (o.1, l') ∧ l'.originSlot = o.2 := by
  rw [Node.exit?, h.parts? hn] at hexit
  rw [unwrap]
  cases hgroup : n.group? with
  | none =>
    rw [hgroup] at hexit
    cases hexit
    exact ⟨l, rfl, rfl⟩
  | some x =>
    rw [hgroup] at hexit
    rcases Option.map_eq_some_iff.1 hexit with ⟨⟨m, i⟩, hm, rfl⟩
    rcases Option.bind_eq_some_iff.1 hm with ⟨j, hj, hm⟩
    rcases Option.bind_eq_some_iff.1 hm with ⟨port, hport, hm⟩
    rcases Option.bind_eq_some_iff.1 hm with ⟨k, hk, hm⟩
    cases hm
    have hlt : ¬ (x.outputs.length : Int) ≤ l.originSlot.val := by
      intro hle
      unfold position? at hj
      split at hj <;> split at hj <;> simp_all <;> omega
    have hlookup : x.graph.find? port.node = .ok (some m) := Graph.lookup?_of_named? hk
    have hfound : (position? x.outputs.length l.originSlot.val).bind (x.outputs[·]?) = some port := by
      rw [hj]
      exact hport
    simp only [h.active n hn (by rw [hgroup]; rfl), if_true, innerProducer?, if_neg hlt, hfound,
      hlookup, bind, Except.bind, pure, Except.pure, Option.getD_some]
    exact ⟨_, rfl, rfl⟩

/-- The producer behind an input of a node, and its output. -/
theorem eq_of_source_outer (h : Flattenable g) {n : Node Group} (hn : n ∈ g.nodes) {j : Int}
    {found : Option (Site × Link)} (hfound : Workflow.source g n j = .ok found) :
    found.map (fun y => (y.1, y.2.originSlot)) =
      ((g.inLink? n j).map Wire.outer).bind (·.origin? g) := by
  rw [Workflow.source] at hfound
  cases hl : g.inLink? n j with
  | none =>
    rw [hl] at hfound
    cases hfound
    rfl
  | some l =>
    simp only [hl] at hfound
    rcases Fault.bind_eq_ok_iff.1 hfound with ⟨origin, horigin, hfound⟩
    have hnamed := Graph.named?_of_lookup? horigin
    simp only [Option.map_some, Option.bind_some, Wire.origin?, hnamed]
    cases origin with
    | none =>
      cases hfound
      rfl
    | some m =>
      rcases Option.isSome_iff_exists.1 (h.exits n hn j l hl m horigin) with ⟨o, ho⟩
      rcases unwrap_eq h (Graph.mem_of_lookup? horigin) ho with ⟨l', hunwrap, hslot⟩
      simp only [hunwrap, bind, Except.bind, pure, Except.pure, Except.ok.injEq] at hfound
      subst hfound
      simp [ho, hslot]

/-- The producer behind an input of a site, and its output. -/
theorem eq_of_source (h : Flattenable g) (hs : s ∈ expanded g) {i : Nat}
    {found : Option (Site × Link)} (hfound : s.source g i = .ok found) :
    found.map (fun y => (y.1, y.2.originSlot)) = (s.wire? g i).bind (·.origin? g) := by
  cases s with
  | outer n => exact eq_of_source_outer h (mem_expanded_outer.1 hs).1 hfound
  | inner host x n =>
    simp only [Site.source] at hfound
    simp only [Site.wire?]
    cases hl : x.graph.inLink? n i with
    | some l =>
      simp only [hl] at hfound
      rcases Fault.bind_eq_ok_iff.1 hfound with ⟨origin, horigin, hfound⟩
      have hnamed := Graph.named?_of_lookup? horigin
      simp only [Option.bind_some, Wire.origin?, hnamed]
      cases origin <;> cases hfound <;> rfl
    | none =>
      -- an input without a link inside may be fed from outside, through an input of the group
      simp only [hl] at hfound
      have hinput : (x.inputs.findIdx? fun port => port.node == n.id && port.slot == (i : Int)) =
          x.inputOf? n i := rfl
      rw [hinput] at hfound
      cases hj : x.inputOf? n i with
      | none =>
        rw [hj] at hfound
        cases hfound
        rfl
      | some j =>
        simp only [hj] at hfound
        rcases Fault.bind_eq_ok_iff.1 hfound with ⟨source, hsource, hfound⟩
        rw [Option.bind_some, ← eq_of_source_outer h (mem_expanded_inner.1 hs).1 hsource]
        cases source <;> cases hfound <;> rfl

end Workflow

/-! ## Walks -/

private theorem Node.reroute_of_passThrough? {γ : Type} {n : Node γ} {output next : Int}
    (h : n.passThrough? output = some next) : n.kind = .reroute ∧ next = 0 := by
  unfold Node.passThrough? at h
  split at h
  · rename_i hkind
    split at h
    · cases h
      exact ⟨hkind, rfl⟩
    · cases h
  · cases h

namespace Site

variable {g : Workflow}

/-- A producer and the link from it, and the same after flattening. -/
structure Mirrors (g : Workflow) (x y : Site × Link) : Prop where
  mem : x.1 ∈ expanded g
  site : y.1 = .outer (x.1.flat g)
  slot : y.2.originSlot = x.2.originSlot

/-- The producers behind an input, before and after flattening. -/
theorem source_mirrors (h : Flattenable g) {s : Site} (hs : s ∈ expanded g) {i : Nat}
    (hi : HasInput s i) {found : Option (Site × Link)} (hfound : s.source g i = .ok found) :
    ∃ found', (Site.outer (s.flat g)).source (flatten g) i = .ok found' ∧
      Option.Rel (Mirrors g) found found' := by
  refine ⟨_, source_flat h hs hi, ?_⟩
  have heq := eq_of_source h hs hfound
  cases hw : s.wire? g i with
  | none =>
    rw [hw, Option.bind_none, Option.map_eq_none_iff] at heq
    rw [heq]
    exact .none
  | some w =>
    rw [hw, Option.bind_some] at heq
    simp only [Option.bind_some]
    cases ho : w.origin? g with
    | none =>
      rw [ho, Option.map_eq_none_iff] at heq
      rw [heq]
      exact .none
    | some o =>
      rw [ho] at heq
      rcases Option.map_eq_some_iff.1 heq with ⟨y, rfl, rfl⟩
      refine .some ⟨mem_expanded_of_origin? (carries_of_wire? hs hw) ho, rfl, ?_⟩
      simp [Wire.flat, ho]

/-- A resolved producer, and the same after flattening. -/
structure Resolves (g : Workflow) (r r' : Resolved) : Prop where
  site : r'.site = .outer (r.site.flat g)
  slot : r'.slot = r.slot

private theorem isPassing_flat (g : Workflow) (s : Site) :
    (Site.outer (s.flat g)).isPassing = s.isPassing := by
  rw [isPassing, isPassing, isVirtual_flat, isBypassed_flat]

/-- The input of a type is found by the types of inputs only. -/
theorem matchingInput?_congr {inputs inputs' : List InputSlot}
    (htypes : ∀ i : Nat, (inputs'[i]?).map (·.type) = (inputs[i]?).map (·.type)) (slot : Int)
    (wanted : String) : matchingInput? inputs' slot wanted = matchingInput? inputs slot wanted := by
  have hfits : ∀ i : Nat, (inputs'[i]?).any (·.type == wanted) =
      (inputs[i]?).any (·.type == wanted) := by
    have hany : ∀ o : Option InputSlot, o.any (·.type == wanted) =
        (o.map (·.type)).any (· == wanted) := by
      intro o
      cases o <;> rfl
    intro i
    rw [hany, htypes, ← hany]
  have hlength : inputs'.length = inputs.length := by
    have hmaps : inputs'.map (·.type) = inputs.map (·.type) := by
      refine List.ext_getElem? fun i => ?_
      rw [List.getElem?_map, List.getElem?_map, htypes]
    simpa using congrArg List.length hmaps
  simp only [matchingInput?, hfits, hlength]

private theorem nextInput?_flat (g : Workflow) (s : Site) {l l' : Link}
    (hslot : l'.originSlot = l.originSlot)
    (wanted : String) : (Site.outer (s.flat g)).nextInput? l' wanted = s.nextInput? l wanted := by
  have htypes : ∀ i : Nat, ((s.flat g).inputs[i]?).map (·.type) = (s.inputs[i]?).map (·.type) := by
    intro i
    rw [getElem?_inputs_flat, Option.map_map]
    rfl
  rw [nextInput?, nextInput?, isVirtual_flat, passThrough?_flat, hslot]
  exact congrArg _ (congrArg _ (matchingInput?_congr htypes _ _))

private theorem lt_of_matchingInput? {inputs : List InputSlot} {slot : Int} {wanted : String}
    {i : Nat} (h : matchingInput? inputs slot wanted = some i) : i < inputs.length := by
  have hfits : ∀ j : Nat, (inputs[j]?).any (·.type == wanted) = true → j < inputs.length := by
    intro j hj
    by_contra hge
    rw [List.getElem?_eq_none (by omega)] at hj
    cases hj
  simp only [matchingInput?] at h
  split at h
  · rename_i hfit
    cases h
    rw [Bool.and_eq_true] at hfit
    exact hfits _ hfit.2
  · exact hfits i (by simpa using List.find?_some h)

/-- The input through which a producer passes on what it gets is one that it has. -/
theorem hasInput_of_nextInput? (h : Flattenable g) {s : Site} (hs : s ∈ expanded g) {l : Link}
    {wanted : String} {next : Int} (hnext : s.nextInput? l wanted = some next) :
    ∃ i : Nat, next = i ∧ HasInput s i := by
  unfold nextInput? at hnext
  split at hnext
  · cases s with
    | outer n =>
      rw [passThrough?] at hnext
      exact ⟨0, (Node.reroute_of_passThrough? hnext).2, fun _ _ _ hsame => nomatch hsame⟩
    | inner host x n =>
      rw [passThrough?] at hnext
      rcases Node.reroute_of_passThrough? hnext with ⟨hkind, rfl⟩
      rcases mem_expanded_inner.1 hs with ⟨hhost, hparts, hn⟩
      rw [h.parts? hhost] at hparts
      refine ⟨0, rfl, ?_⟩
      rintro _ _ m hsame
      cases hsame
      exact List.length_pos_iff.2 (h.passes host hhost x hparts n hn hkind)
  · rcases Option.map_eq_some_iff.1 hnext with ⟨i, hi, rfl⟩
    refine ⟨i, rfl, ?_⟩
    rintro host x n rfl
    exact lt_of_matchingInput? hi

/-- A walk towards an effective producer goes the same way after flattening. -/
theorem walk_mirrors (h : Flattenable g) {asker : NodeId} {slot : Int} {wanted : String}
    {left hops : Nat} {seen : List (NodeId × Int)} {p : Site} (hp : p ∈ expanded g) {l l' : Link}
    (hslot : l'.originSlot = l.originSlot) {r : Option Resolved}
    (hr : walk g asker slot wanted left hops seen p l = .ok r) :
    ∃ r', walk (flatten g) asker slot wanted left hops seen (.outer (p.flat g)) l' = .ok r' ∧
      Option.Rel (Resolves g) r r' := by
  induction left generalizing hops seen p l l' with
  | zero =>
    unfold walk at hr ⊢
    rw [isPassing_flat]
    split at hr
    · rename_i hstop
      cases hr
      exact ⟨_, by rw [if_pos hstop], .some ⟨rfl, hslot⟩⟩
    · cases hr
  | succ left ih =>
    unfold walk at hr ⊢
    rw [isPassing_flat, nextInput?_flat g p hslot]
    split at hr
    · rename_i hstop
      cases hr
      exact ⟨_, by rw [if_pos hstop], .some ⟨rfl, hslot⟩⟩
    · rename_i hpass
      rw [if_neg hpass]
      simp only at hr ⊢
      split at hr
      · cases hr
        exact ⟨_, rfl, .some ⟨rfl, hslot⟩⟩
      · rename_i next hnext
        rcases hasInput_of_nextInput? h hp hnext with ⟨i, rfl, hi⟩
        rcases Fault.bind_eq_ok_iff.1 hr with ⟨found, hfound, hr⟩
        rcases source_mirrors h hp hi hfound with ⟨found', hfound', hrel⟩
        simp only [hfound', bind, Except.bind]
        cases hrel with
        | none =>
          cases hr
          exact ⟨none, rfl, .none⟩
        | @some q q' hq =>
          rcases q with ⟨q, k⟩
          rcases q' with ⟨q', k'⟩
          rcases hq with ⟨hmem, rfl, hkslot⟩
          have hkslot : k'.originSlot = k.originSlot := hkslot
          have hid : (Site.outer (q.flat g)).id = q.id := rfl
          simp only [hid, hkslot]
          simp only at hr
          split at hr
          · cases hr
          · rename_i hnew
            rw [if_neg hnew]
            exact ih hmem hkslot hr

/-- The effective producer behind an input, before and after flattening. -/
theorem resolve_mirrors (h : Flattenable g) {maxHops : Int} {s : Site} (hs : s ∈ expanded g)
    {i : Nat} (hi : i < s.inputs.length) {r : Option Resolved}
    (hr : s.resolve g maxHops i = .ok r) :
    ∃ r', (Site.outer (s.flat g)).resolve (flatten g) maxHops i = .ok r' ∧
      Option.Rel (Resolves g) r r' := by
  have hinput : HasInput s i := by
    rintro host x n rfl
    exact hi
  rw [resolve] at hr ⊢
  rcases Fault.bind_eq_ok_iff.1 hr with ⟨found, hfound, hr⟩
  rcases source_mirrors h hs hinput hfound with ⟨found', hfound', hrel⟩
  simp only [hfound', bind, Except.bind]
  cases hrel with
  | none =>
    cases hr
    exact ⟨none, rfl, .none⟩
  | @some q q' hq =>
    rcases q with ⟨q, k⟩
    rcases q' with ⟨q', k'⟩
    rcases hq with ⟨hmem, rfl, hkslot⟩
    have hkslot : k'.originSlot = k.originSlot := hkslot
    have hi' : i < (Site.outer (s.flat g)).inputs.length := by
      rwa [show (Site.outer (s.flat g)).inputs = (s.flat g).inputs from rfl, length_inputs_flat]
    have hget : (Site.outer (s.flat g)).inputs[i]? =
        (s.inputs[i]?).map fun slot => { slot with link := s.held g i slot } :=
      getElem?_inputs_flat g s i
    simp only [position?_ofNat hi, Option.bind_some, List.getElem?_eq_getElem hi] at hr
    rw [List.getElem?_eq_getElem hi] at hget
    simp only [position?_ofNat hi', Option.bind_some, hget, Option.map_some]
    have hid : (Site.outer (s.flat g)).id = s.id := rfl
    have hqid : (Site.outer (q.flat g)).id = q.id := rfl
    simp only [hid, hqid, hkslot]
    exact walk_mirrors h hmem hkslot hr

/-! ## Steps -/

private theorem referenceOf_mirrors {r r' : Option Resolved} (h : Option.Rel (Resolves g) r r') :
    referenceOf r' = referenceOf r := by
  cases h with
  | none => rfl
  | @some r r' h =>
    simp only [referenceOf, h.site, h.slot, isVirtual_flat]
    rfl

private theorem linkInputs_mirrors (h : Flattenable g) {maxHops : Int} {s : Site}
    (hs : s ∈ expanded g)
    {i : Nat} {slots slots' : List InputSlot} (hnames : slots'.map (·.name) = slots.map (·.name))
    (hi : i + slots.length ≤ s.inputs.length) {inputs out : Members}
    (hout : linkInputs g maxHops s i slots inputs = .ok out) :
    linkInputs (flatten g) maxHops (.outer (s.flat g)) i slots' inputs = .ok out := by
  induction slots generalizing i slots' inputs with
  | nil =>
    rw [List.map_nil, List.map_eq_nil_iff] at hnames
    rw [hnames]
    exact hout
  | cons slot slots ih =>
    rcases List.map_eq_cons_iff.1 hnames with ⟨slot', rest', rfl, hname, hnames⟩
    rw [List.length_cons] at hi
    rw [linkInputs] at hout ⊢
    rcases Fault.bind_eq_ok_iff.1 hout with ⟨r, hr, hout⟩
    rcases resolve_mirrors h hs (by omega) hr with ⟨r', hr', hrel⟩
    simp only [hr', bind, Except.bind, referenceOf_mirrors hrel, hname]
    split at hout
    · exact ih hnames (by omega) hout
    · exact ih hnames (by omega) hout

/-- The step of a site is that of the node that stands for it. -/
theorem IsBuilt.flatten (h : Flattenable g) {maxHops : Int} {titled : Bool} {s : Site}
    (hs : s ∈ expanded g) {m : String × Step} (hm : s.IsBuilt g maxHops titled m) :
    (Site.outer (s.flat g)).IsBuilt (flatten g) maxHops titled m := by
  refine ⟨hm.1, ?_⟩
  have hliterals : (Site.outer (s.flat g)).literals = s.literals := by
    rw [literals, literals, show (Site.outer (s.flat g)).widgets = s.widgets from widgets_flat g s]
  have hnames : (Site.outer (s.flat g)).inputs.map (·.name) = s.inputs.map (·.name) := by
    refine List.ext_getElem? fun i => ?_
    rw [List.getElem?_map, List.getElem?_map,
      show (Site.outer (s.flat g)).inputs = (s.flat g).inputs from rfl, getElem?_inputs_flat]
    cases s.inputs[i]? <;> rfl
  have htype : (Site.outer (s.flat g)).type = s.type := type_flat g s
  have htitle : (Site.outer (s.flat g)).title = s.title := title_flat g s
  rcases Fault.bind_eq_ok_iff.1 hm.2 with ⟨inputs, hinputs, hstep⟩
  rw [step, hliterals, linkInputs_mirrors h hs hnames (by simp) hinputs, htype, htitle]
  exact hstep

end Site

end NodeFlow
