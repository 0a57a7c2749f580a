import NodeFlow.Proofs.Compile.Pushes

/-!
# Links between primitives and widgets

Where every link is listed at the output that it leaves and held by the input that it enters, the
primitive that an input is linked to and the primitives that push to its widget are the same: the
one that walks back from the input and the one that walks forward from the output meet.

Main results:

- Structures `Graph.Consistent` and `Workflow.Consistent`: links are written down at both ends.
- Definition `Graph.AgreesById`, with an instance of `Decidable`, and theorem `Graph.consistent_iff`:
  whether they are, from the ids of nodes.
- Theorem `Workflow.consistent_of_skeleton_eq`: whether they are depends on the skeleton only.
- Predicate `Site.FedBy`: a link in the graph of a site from the first output of another site.
- Structure `Site.Converts`: an input that is made from a widget, and nothing else is.
- Theorems `Site.FedBy.linkedTo` and `Workflow.fedBy_of_pushesTo`: both walks meet.
-/

namespace NodeFlow

/-! ## Consistent graphs -/

namespace Graph

variable {γ : Type} {g : Graph γ}

/-- The output of a node at which a link starts, counted from either end. -/
def IsExit (n : Node γ) (l : Link) (o : Nat) : Prop :=
  position? n.outputs.length l.originSlot.val = some o

/-- No node is cut off, every link that an output lists starts there, and every link that an input
holds is listed by its origin and ends there. -/
structure Consistent (g : Graph γ) : Prop where
  attached : ∀ n ∈ g.nodes, n.isCutOff = false
  linked : g.IsLinked
  leaves : ∀ n ∈ g.nodes, ∀ (o : Nat) out, n.outputs[o]? = some out → ∀ k ∈ out.links, ∀ l,
    g.link? k = some l → IsExit n l o
  listed : ∀ n ∈ g.nodes, ∀ slot ∈ n.inputs, ∀ k, slot.link = some k → ∀ l, g.link? k = some l →
    ∃ m o out, g.lookup? l.origin = .ok (some m) ∧ IsExit m l o ∧ m.outputs[o]? = some out ∧
      k ∈ out.links
  enters : ∀ n ∈ g.nodes, ∀ (j : Nat) slot, n.inputs[j]? = some slot → ∀ k, slot.link = some k →
    ∀ l, g.link? k = some l → g.lookup? l.target = .ok (some n) ∧
      position? n.inputs.length l.targetSlot.val = some j

/-! ### Decision -/

/-- A value finds a node of the id. -/
def Finds (g : Graph γ) (v : Json) (id : NodeId) : Prop := ∃ n, g.lookup? v = .ok (some n) ∧ n.id = id

instance (v : Json) (id : NodeId) : Decidable (g.Finds v id) :=
  decidable_of_iff ((g.named? v).map (·.id) = some id) <| by
    rw [Option.map_eq_some_iff]
    exact exists_congr fun n => and_congr_left' ⟨lookup?_of_named?, named?_of_lookup?⟩

/-- Links are written down at both ends, where nodes are compared by their ids. -/
def AgreesById (g : Graph γ) : Prop :=
  (∀ n ∈ g.nodes, n.isCutOff = false) ∧
  (∀ n ∈ g.nodes, ∀ p ∈ n.outputs.zipIdx, ∀ k ∈ p.1.links, ∀ l ∈ g.link? k,
    position? n.outputs.length l.originSlot.val = some p.2 ∧ g.Finds l.origin n.id ∧
      ∀ t ∈ g.named? l.target,
        ∀ s ∈ (position? t.inputs.length l.targetSlot.val).bind (t.inputs[·]?), s.link = some k) ∧
  ∀ n ∈ g.nodes, ∀ p ∈ n.inputs.zipIdx, ∀ k ∈ p.1.link, ∀ l ∈ g.link? k,
    (∃ m ∈ g.named? l.origin, ∃ o ∈ position? m.outputs.length l.originSlot.val,
      ∃ out ∈ m.outputs[o]?, k ∈ out.links) ∧
    g.Finds l.target n.id ∧ position? n.inputs.length l.targetSlot.val = some p.2

instance (g : Graph γ) : Decidable g.AgreesById := inferInstanceAs (Decidable (_ ∧ _ ∧ _))

/-- Where ids are distinct, links agree at both ends exactly if they do when nodes are compared by
id. -/
theorem consistent_iff (hids : (g.nodes.map (·.id)).Nodup) : g.Consistent ↔ g.AgreesById := by
  have hfound : ∀ {v : Json} {n : Node γ}, n ∈ g.nodes →
      (g.Finds v n.id ↔ g.lookup? v = .ok (some n)) := by
    intro v n hn
    constructor
    · rintro ⟨m, hm, hid⟩
      rw [hm, List.inj_on_of_nodup_map hids (mem_of_lookup? hm) hn hid]
    · exact fun h => ⟨n, h, rfl⟩
  constructor
  · intro h
    refine ⟨h.attached, fun n hn p hp k hk l hl => ?_, fun n hn p hp k hk l hl => ?_⟩
    · have ho := List.mem_zipIdx_iff_getElem?.1 hp
      rcases h.linked n hn p.1 (List.mem_of_getElem? ho) k hk l hl with ⟨horigin, hheld⟩
      exact ⟨h.leaves n hn p.2 p.1 ho k hk l hl, (hfound hn).2 horigin,
        fun t ht s hs => hheld t s (lookup?_of_named? ht) hs⟩
    · have hs := List.mem_zipIdx_iff_getElem?.1 hp
      rcases h.listed n hn p.1 (List.mem_of_getElem? hs) k hk l hl with
        ⟨m, o, out, hm, hexit, hout, hlists⟩
      rcases h.enters n hn p.2 p.1 hs k hk l hl with ⟨htarget, hentry⟩
      exact ⟨⟨m, named?_of_lookup? hm, o, hexit, out, hout, hlists⟩, (hfound hn).2 htarget, hentry⟩
  · rintro ⟨hattached, hleaves, henters⟩
    refine ⟨hattached, fun n hn out ho k hk l hl => ?_, fun n hn o out ho k hk l hl => ?_,
      fun n hn s hs k hk l hl => ?_, fun n hn j s hs k hk l hl => ?_⟩
    · rcases List.getElem?_of_mem ho with ⟨o, ho⟩
      rcases hleaves n hn (out, o) (List.mem_zipIdx_iff_getElem?.2 ho) k hk l hl with
        ⟨-, horigin, hheld⟩
      exact ⟨(hfound hn).1 horigin, fun t s ht hs => hheld t (named?_of_lookup? ht) s hs⟩
    · exact (hleaves n hn (out, o) (List.mem_zipIdx_iff_getElem?.2 ho) k hk l hl).1
    · rcases List.getElem?_of_mem hs with ⟨j, hj⟩
      rcases (henters n hn (s, j) (List.mem_zipIdx_iff_getElem?.2 hj) k hk l hl).1 with
        ⟨m, hm, o, hexit, out, hout, hlists⟩
      exact ⟨m, o, out, lookup?_of_named? hm, hexit, hout, hlists⟩
    · rcases henters n hn (s, j) (List.mem_zipIdx_iff_getElem?.2 hs) k hk l hl with ⟨-, htarget, hentry⟩
      exact ⟨(hfound hn).1 htarget, hentry⟩

section Nominal

variable {f : Node γ → Node γ} (hf : IsNominal f)

include hf

private theorem lookup?_mapNodes_eq_some {v : Json} {m : Node γ}
    (h : (g.mapNodes f).lookup? v = .ok (some m)) : ∃ n, g.lookup? v = .ok (some n) ∧ f n = m := by
  rw [lookup?_mapNodes hf.toIsNeutral] at h
  rcases Fault.map_eq_ok_iff.1 h with ⟨found, hfound, hmap⟩
  rcases Option.map_eq_some_iff.1 hmap with ⟨n, rfl, hn⟩
  exact ⟨n, hfound, hn⟩

private theorem lookup?_mapNodes_of_eq_some {v : Json} {n : Node γ}
    (h : g.lookup? v = .ok (some n)) : (g.mapNodes f).lookup? v = .ok (some (f n)) := by
  rw [lookup?_mapNodes hf.toIsNeutral, h]
  rfl

private theorem Consistent.mapNodes (h : g.Consistent) : (g.mapNodes f).Consistent := by
  have hnode : ∀ {m}, m ∈ (g.mapNodes f).nodes → ∃ n ∈ g.nodes, f n = m := List.mem_map.1
  refine ⟨fun m hm => ?_, fun m hm => ?_, fun m hm => ?_, fun m hm => ?_, fun m hm => ?_⟩ <;>
    rcases hnode hm with ⟨n, hn, rfl⟩
  · rw [hf.isCutOff, h.attached n hn]
  · intro o ho id hid l hl
    rw [hf.outputs] at ho
    rcases h.linked n hn o ho id hid l hl with ⟨horigin, htarget⟩
    refine ⟨lookup?_mapNodes_of_eq_some hf horigin, fun t slot ht hslot => ?_⟩
    rcases lookup?_mapNodes_eq_some hf ht with ⟨u, hu, rfl⟩
    rw [hf.inputs] at hslot
    exact htarget u slot hu hslot
  · intro o out ho k hk l hl
    rw [hf.outputs] at ho
    have hexit := h.leaves n hn o out ho k hk l hl
    rwa [IsExit, hf.outputs]
  · intro slot hslot k hk l hl
    rw [hf.inputs] at hslot
    rcases h.listed n hn slot hslot k hk l hl with ⟨m, o, out, hm, hexit, hout, hmem⟩
    refine ⟨f m, o, out, lookup?_mapNodes_of_eq_some hf hm, ?_, ?_, hmem⟩
    · rwa [IsExit, hf.outputs]
    · rw [hf.outputs, hout]
  · intro j slot hslot k hk l hl
    rw [hf.inputs] at hslot ⊢
    rcases h.enters n hn j slot hslot k hk l hl with ⟨htarget, hposition⟩
    exact ⟨lookup?_mapNodes_of_eq_some hf htarget, hposition⟩

private theorem Consistent.of_mapNodes (hids : (g.nodes.map (·.id)).Nodup)
    (h : (g.mapNodes f).Consistent) : g.Consistent := by
  have hnode : ∀ {n}, n ∈ g.nodes → f n ∈ (g.mapNodes f).nodes := List.mem_map_of_mem
  -- a node that is found after the change was found before it
  have hsame : ∀ {v n}, n ∈ g.nodes → (g.mapNodes f).lookup? v = .ok (some (f n)) →
      g.lookup? v = .ok (some n) := by
    intro v n hn hv
    rcases lookup?_mapNodes_eq_some hf hv with ⟨u, hu, heq⟩
    have hid : u.id = n.id := by rw [← hf.id u, heq, hf.id]
    rwa [← List.inj_on_of_nodup_map hids (mem_of_lookup? hu) hn hid]
  refine ⟨fun n hn => ?_, fun n hn => ?_, fun n hn => ?_, fun n hn => ?_, fun n hn => ?_⟩
  · rw [← hf.isCutOff, h.attached _ (hnode hn)]
  · intro o ho id hid l hl
    rw [← hf.outputs] at ho
    rcases h.linked _ (hnode hn) o ho id hid l hl with ⟨horigin, htarget⟩
    refine ⟨hsame hn horigin, fun t slot ht hslot => ?_⟩
    rw [← hf.inputs] at hslot
    exact htarget (f t) slot (lookup?_mapNodes_of_eq_some hf ht) hslot
  · intro o out ho k hk l hl
    rw [← hf.outputs] at ho
    have hexit := h.leaves _ (hnode hn) o out ho k hk l hl
    rwa [IsExit, hf.outputs] at hexit
  · intro slot hslot k hk l hl
    rw [← hf.inputs] at hslot
    rcases h.listed _ (hnode hn) slot hslot k hk l hl with ⟨m, o, out, hm, hexit, hout, hmem⟩
    rcases lookup?_mapNodes_eq_some hf hm with ⟨u, hu, rfl⟩
    rw [hf.outputs] at hout
    rw [IsExit, hf.outputs] at hexit
    exact ⟨u, o, out, hu, hexit, hout, hmem⟩
  · intro j slot hslot k hk l hl
    rw [← hf.inputs] at hslot
    rcases h.enters _ (hnode hn) j slot hslot k hk l hl with ⟨htarget, hposition⟩
    rw [hf.inputs] at hposition
    exact ⟨hsame hn htarget, hposition⟩

end Nominal

end Graph

namespace Workflow

/-- Links are written down at both ends, in the workflow and inside groups. -/
structure Consistent (g : Workflow) : Prop where
  outer : Graph.Consistent g
  inner : ∀ n ∈ g.nodes, ∀ group, n.group? = some group → group.graph.Consistent

variable {g g' : Workflow}

private theorem consistent_skeleton (hdistinct : Distinct g) :
    Consistent (skeleton g) ↔ Consistent g := by
  have hids := (Graph.ids_mapNodes Node.isNeutral_bare g).symm ▸ hdistinct.outer
  have houter : Graph.Consistent (skeleton g) ↔ Graph.Consistent g :=
    ⟨fun h => (h.of_mapNodes Graph.isNominal_hollow hids).of_mapNodes Graph.isNominal_bare
        hdistinct.outer,
      fun h => (h.mapNodes Graph.isNominal_bare).mapNodes Graph.isNominal_hollow⟩
  constructor
  · intro h
    refine ⟨houter.1 h.outer, fun n hn group hgroup => ?_⟩
    have hbare := h.inner n.bare.hollow (mem_skeleton_nodes.2 ⟨n, hn, rfl⟩) group.bare (by
      rw [Node.group?_hollow]
      exact congrArg (·.map Group.bare) hgroup)
    exact hbare.of_mapNodes Graph.isNominal_bare (hdistinct.inner n hn group hgroup)
  · intro h
    refine ⟨houter.2 h.outer, fun m hm group hgroup => ?_⟩
    rcases mem_skeleton_nodes.1 hm with ⟨n, hn, rfl⟩
    rw [Node.group?_hollow] at hgroup
    rcases Option.map_eq_some_iff.1 hgroup with ⟨x, hx, rfl⟩
    exact (h.inner n hn x hx).mapNodes Graph.isNominal_bare

/-- Whether links are written down at both ends depends on the skeleton only. -/
theorem consistent_of_skeleton_eq (hdistinct : Distinct g) (h : skeleton g' = skeleton g)
    (hg : Consistent g) : Consistent g' :=
  (consistent_skeleton (distinct_of_skeleton_eq h hdistinct)).1
    (h ▸ (consistent_skeleton hdistinct).2 hg)

/-- In a consistent workflow, inputs hold the links that outputs list. -/
theorem Consistent.isLinked (h : Consistent g) : IsLinked g :=
  ⟨h.outer.linked, fun n hn group hgroup => (h.inner n hn group hgroup).linked⟩

end Workflow

/-! ## Inputs that are made from widgets -/

/-- The input at a position is made from the widget at a position, which sends its value as it is,
and no other input or widget goes by this name. -/
structure Converts (inputs : List InputSlot) (widgets : List Widget) (i j : Nat) (w : Widget) :
    Prop where
  slot : ∃ slot, inputs[i]? = some slot ∧ slot.widget = .str w.name
  widget : widgets[j]? = some w
  named : w.name ≠ ""
  sent : w.isSent = true
  literal : w.serializer = none
  slots : ∀ (i' : Nat) slot, inputs[i']? = some slot →
    slot.name = w.name ∨ slot.widget = .str w.name → i' = i
  widgets : ∀ (j' : Nat) u, widgets[j']? = some u → u.name = w.name → j' = j

private theorem Converts.position? {inputs : List InputSlot} {widgets : List Widget} {i j : Nat}
    {w : Widget} (h : Converts inputs widgets i j w) : Widget.position? widgets w.name = some j := by
  rw [Widget.position?, List.findIdx?_eq_some_iff_getElem]
  rcases List.getElem?_eq_some_iff.1 h.widget with ⟨hj, hw⟩
  refine ⟨hj, by simp [hw], fun j' hj' => ?_⟩
  have hlt : j' < widgets.length := hj'.trans hj
  simp only [beq_iff_eq]
  intro hname
  have hsame := h.widgets j' widgets[j'] (List.getElem?_eq_getElem hlt) hname
  omega

namespace Graph

variable {γ : Type} {g : Graph γ}

/-- The link that an input holds starts at the first output of a node. -/
def FedBy (g : Graph γ) (n : Node γ) (i : Nat) (m : Node γ) : Prop :=
  ∃ l, g.inLink? n i = some l ∧ g.lookup? l.origin = .ok (some m) ∧ IsExit m l 0

private theorem inLink?_eq {n : Node γ} (hn : n.isCutOff = false) (i : Nat) :
    g.inLink? n i = ((n.inputs[i]?).bind (·.link)).bind g.link? := by
  have hposition : ¬ (i : Int) < 0 := by omega
  rw [inLink?, hn, if_neg (by simp), Node.inputLink?, if_neg hposition, Int.toNat_natCast]

/-- The links of the first output are those of its numbers that are in the table. -/
theorem outLinks?_zero {m : Node γ} (hm : m.isCutOff = false) :
    g.outLinks? m 0 = .ok ((m.outputs[0]?.map fun o => o.links.filterMap g.link?).getD []) := by
  cases ho : m.outputs with
  | nil => simp [outLinks?, ho]
  | cons o os => simp [outLinks?, ho, hm, position?]

section Converts

variable (hconsistent : g.Consistent) (hids : (g.nodes.map (·.id)).Nodup)
  {n : Node γ} (hn : n ∈ g.nodes) {i j : Nat} {w : Widget}
  (hconverts : Converts n.inputs n.widgets i j w)

include hconsistent hids hn hconverts

/-- The primitive that feeds the input of a widget is linked to the widget. -/
theorem FedBy.linkedTo {m : Node γ} (h : g.FedBy n i m) (hprimitive : m.kind.isPrimitive = true) :
    g.LinkedTo m.id (n.id, j) := by
  rcases h with ⟨l, hl, hm, hexit⟩
  rw [inLink?_eq (hconsistent.attached n hn)] at hl
  rcases Option.bind_eq_some_iff.1 hl with ⟨k, hk, hlink⟩
  rcases Option.bind_eq_some_iff.1 hk with ⟨slot, hslot, hk⟩
  have hmem := mem_of_lookup? hm
  -- the first output lists the link
  rcases hconsistent.listed n hn slot (List.mem_of_getElem? hslot) k hk l hlink with
    ⟨m', o, out, hm', hexit', hout, hlisted⟩
  rw [hm, Except.ok.injEq, Option.some.injEq] at hm'
  subst hm'
  have hzero : o = 0 := Option.some.inj (hexit'.symm.trans hexit)
  subst hzero
  have hls : g.outLinks? m 0 = .ok (out.links.filterMap g.link?) := by
    rw [outLinks?_zero (hconsistent.attached m hmem), hout]
    rfl
  -- and the link ends at the input of the widget
  rcases hconsistent.enters n hn i slot hslot k hk l hlink with ⟨htarget, hposition⟩
  have hrange : ¬ (n.inputs.length : Int) ≤ l.targetSlot.val :=
    not_le_of_gt (lt_of_position?_eq_some hposition)
  rcases hconverts.slot with ⟨slot', hslot', hwidget⟩
  rw [hslot, Option.some.injEq] at hslot'
  subst hslot'
  refine ⟨m, _, l, at?_of_mem hids hmem, hprimitive, hls, List.mem_filterMap.2 ⟨k, hlisted, hlink⟩, ?_⟩
  simp only [targetOf, htarget, bind, Except.bind, hrange, if_false, hposition, Option.bind_some,
    hslot, hwidget, hconverts.named, hconverts.position?, Option.map_some]
  rfl

/-- The primitive that pushes to a widget feeds its input. -/
theorem fedBy_of_pushesTo {id : NodeId} (h : g.PushesTo id (n.id, j)) :
    ∃ m, m.id = id ∧ m.kind.isPrimitive = true ∧ g.FedBy n i m := by
  rcases h with ⟨m, places, hm, hprimitive, hplaces, hc⟩
  have hmem := mem_of_at? hm
  rcases mem_targets hplaces hc with ⟨ls, hls, l, hl, htarget⟩
  rcases targetOf_eq_some htarget with ⟨t, slot, name, ht, hslot, hwidget, hid, hposition⟩
  have hsame : t = n := List.inj_on_of_nodup_map hids (mem_of_lookup? ht) hn hid
  subst hsame
  -- the link ends at the only input that goes by the name of the widget
  have hname : name = w.name := by
    rcases (List.findIdx?_eq_some_iff_getElem.1 hposition) with ⟨hj, hfound, -⟩
    have hw := hconverts.widget
    rw [List.getElem?_eq_getElem hj, Option.some.injEq] at hw
    rw [hw] at hfound
    simpa using (beq_iff_eq.1 hfound).symm
  subst hname
  rcases Option.bind_eq_some_iff.1 hslot with ⟨i', -, hi'⟩
  have hi : i' = i := hconverts.slots i' slot hi' (.inr hwidget)
  subst hi
  -- and starts at the first output of the primitive
  rw [outLinks?_zero (hconsistent.attached m hmem), Except.ok.injEq] at hls
  subst hls
  cases hout : m.outputs[0]? with
  | none =>
    rw [hout] at hl
    cases hl
  | some out =>
    rw [hout] at hl
    rcases List.mem_filterMap.1 hl with ⟨k, hk, hlink⟩
    rcases hconsistent.linked m hmem out (List.mem_of_getElem? hout) k hk l hlink with
      ⟨horigin, hheld⟩
    refine ⟨m, id_of_at? hm, hprimitive, l, ?_, horigin,
      hconsistent.leaves m hmem 0 out hout k hk l hlink⟩
    rw [inLink?_eq (hconsistent.attached _ hn), hi', Option.bind_some, hheld _ slot ht hslot]
    exact hlink

end Converts

end Graph

/-! ## Sites -/

/-- The link that an input of a site holds in its own graph starts at the first output of another
site. -/
inductive Site.FedBy (g : Workflow) (i : Nat) : Site → Site → Prop
  | outer {n m : Node Group} (h : Graph.FedBy g n i m) : FedBy g i (.outer n) (.outer m)
  | inner {host : Node Group} {group : Group} {n m : Node Empty} (h : group.graph.FedBy n i m) :
    FedBy g i (.inner host group n) (.inner host group m)

namespace Site

open Workflow

variable {g : Workflow} {s t t' : Site} {i j : Nat} {w : Widget}

/-- An input is fed by one site only. -/
theorem FedBy.unique (h : FedBy g i s t) (h' : FedBy g i s t') : t = t' := by
  have hnode : ∀ {γ : Type} {g : Graph γ} {n m m' : Node γ}, g.FedBy n i m → g.FedBy n i m' →
      m = m' := by
    rintro γ g n m m' ⟨l, hl, hm, -⟩ ⟨l', hl', hm', -⟩
    rw [hl, Option.some.injEq] at hl'
    subst hl'
    rw [hm, Except.ok.injEq, Option.some.injEq] at hm'
    exact hm'
  cases h with
  | outer h =>
    cases h' with
    | outer h' => rw [hnode h h']
  | inner h =>
    cases h' with
    | inner h' => rw [hnode h h']

section Converts

variable (hconsistent : Consistent g) (hdistinct : Distinct g) (hs : s ∈ sites g)
  (hconverts : Converts s.inputs s.widgets i j w)

include hconsistent hdistinct hs hconverts

/-- A primitive that feeds an input is linked to its widget. -/
theorem FedBy.linkedTo (h : FedBy g i s t) (hprimitive : t.isPrimitive = true) :
    LinkedTo g t.place (s.place, j) := by
  cases h with
  | outer h =>
    exact .outer (h.linkedTo hconsistent.outer hdistinct.outer (mem_sites_outer.1 hs) hconverts
      hprimitive)
  | @inner host group n m h =>
    rcases mem_sites_inner.1 hs with ⟨hhost, hgroup, hn⟩
    have hinner := innerGraph_of_mem hdistinct.outer hhost hgroup
    have hlinked := h.linkedTo (hconsistent.inner host hhost group hgroup)
      (hdistinct.inner host hhost group hgroup) hn hconverts hprimitive
    rw [← hinner] at hlinked
    exact .inner hlinked

/-- What is linked to a widget is a primitive that feeds its input. -/
theorem fedBy_of_pushesTo {q : Place} (h : PushesTo g q (s.place, j)) :
    ∃ t, t.place = q ∧ t.isPrimitive = true ∧ FedBy g i s t := by
  cases s with
  | outer n =>
    obtain ⟨k, hk⟩ : ∃ k : Cell, k = ((outer n).place, j) := ⟨_, rfl⟩
    rw [← hk] at h
    cases h with
    | @outer id c h =>
      rcases c with ⟨other, j'⟩
      cases hk
      rcases Graph.fedBy_of_pushesTo hconsistent.outer hdistinct.outer (mem_sites_outer.1 hs)
        hconverts h with ⟨m, rfl, hprimitive, hfed⟩
      exact ⟨outer m, rfl, hprimitive, .outer hfed⟩
    | inner h => cases hk
  | inner host group n =>
    obtain ⟨k, hk⟩ : ∃ k : Cell, k = ((inner host group n).place, j) := ⟨_, rfl⟩
    rw [← hk] at h
    cases h with
    | outer h => cases hk
    | @inner host' id c h =>
      rcases c with ⟨other, j'⟩
      cases hk
      rcases mem_sites_inner.1 hs with ⟨hhost, hgroup, hn⟩
      rw [innerGraph_of_mem hdistinct.outer hhost hgroup] at h
      rcases Graph.fedBy_of_pushesTo (hconsistent.inner host hhost group hgroup)
        (hdistinct.inner host hhost group hgroup) hn hconverts h with ⟨m, rfl, hprimitive, hfed⟩
      exact ⟨inner host group m, rfl, hprimitive, .inner hfed⟩

end Converts

end Site

end NodeFlow
