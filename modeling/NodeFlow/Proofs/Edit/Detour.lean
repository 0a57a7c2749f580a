import NodeFlow.Proofs.Compile.Consistent
import NodeFlow.Proofs.Edit.Connect

/-!
# Detours

A reroute that is put into a link takes the place of the link at the input, and another link leads from
the old origin to the reroute.  All other nodes and links stay as they are, and so does what lookups
find, unless they find the reroute.

Main results:

- Structure `Detour` and definition `Detour.apply`: the workflow with the reroute.
- Structure `Detour.Fits`: the link is there, it can be told from all others, and no link of the
  workflow finds the reroute.
- Theorems `Detour.at?_apply` and `Detour.lookup?_apply`: what lookups find.
- Theorem `Detour.Fits.heldLink?_apply`: what links inputs hold.
- Theorem `Detour.Fits.mapNodes`: changes that leave the slots of nodes alone do not matter.
-/

namespace NodeFlow

namespace Graph

variable {γ : Type} {g h : Graph γ}

/-! ## Lookups with a node more -/

private theorem finds_iff {v : Json} {id : NodeId} :
    g.Finds v id ↔ (g.lookup? v).map (·.map (·.id)) = .ok (some id) := by
  constructor
  · rintro ⟨n, hn, rfl⟩
    rw [hn]
    rfl
  · intro hfinds
    rcases Fault.map_eq_ok_iff.1 hfinds with ⟨found, hfound, hsome⟩
    rcases Option.map_eq_some_iff.1 hsome with ⟨n, hn, hid⟩
    exact ⟨n, hn ▸ hfound, hid⟩

/-- Which ids are found depends on the ids of the nodes only. -/
theorem finds_congr (hids : h.nodes.map (·.id) = g.nodes.map (·.id)) {v : Json} {id : NodeId} :
    h.Finds v id ↔ g.Finds v id := by
  have hat : ∀ (g : Graph γ) id, (g.at? id).map (·.id) = (g.nodes.map (·.id)).find? (· == id) := by
    intro g id
    rw [List.find?_map]
    rfl
  rw [finds_iff, finds_iff, lookup?_map_congr (g := g) (h := h) (φ := (·.id)) (ψ := (·.id))]
  intro id
  rw [hat, hat, hids]

/-- A lookup that does not find the new node finds what it found without it. -/
theorem lookup?_of_not_finds {f : Node γ → Node γ} {x : Node γ}
    (hat : ∀ id, h.at? id = ((g.at? id).map f).or (if x.id = id then some x else none)) {v : Json}
    (hv : ¬ h.Finds v x.id) : h.lookup? v = (g.lookup? v).map (·.map f) := by
  have hcases : ∀ id, h.at? id = (g.at? id).map f ∨ g.at? id = none ∧ h.at? id = some x := by
    intro id
    rw [hat]
    cases g.at? id with
    | some n => exact .inl rfl
    | none => by_cases hid : x.id = id <;> simp [hid]
  have hfirst : ∀ id? : Option NodeId, id?.bind h.at? = (id?.bind g.at?).map f ∨
      id?.bind g.at? = none ∧ id?.bind h.at? = some x := by
    intro id?
    cases id? with
    | none => exact .inl rfl
    | some id => exact hcases id
  have hnew : h.lookup? v ≠ .ok (some x) := fun hfound => hv ⟨x, hfound, rfl⟩
  cases v with
  | arr items => rfl
  | obj members => rfl
  | _ =>
    simp only [lookup?] at hnew ⊢
    rcases hfirst (idOf? _) with hold | ⟨-, hx⟩
    · rw [hold] at hnew ⊢
      cases hg : (idOf? _).bind g.at? with
      | some n => rfl
      | none =>
        rw [hg] at hnew
        cases hother : otherSpelling? _ with
        | error e => rfl
        | ok other =>
          rw [hother] at hnew
          cases other with
          | none => rfl
          | some id =>
            rcases hcases id with hold | ⟨-, hx⟩
            · exact congrArg Except.ok hold
            · exact absurd (congrArg Except.ok hx) hnew
    · rw [hx] at hnew
      exact absurd rfl hnew

/-! ## Links that inputs hold -/

/-- The link that an input holds, if it is there. -/
def heldLink? (g : Graph γ) (n : Node γ) (j : Nat) : Option Link :=
  ((n.inputs[j]?).bind (·.link)).bind g.link?

/-- The link that arrives at an input is the one that it holds, unless the node is cut off. -/
theorem inLink?_eq_heldLink? (n : Node γ) (slot : Int) :
    g.inLink? n slot = if n.isCutOff = true ∨ slot < 0 then none else g.heldLink? n slot.toNat := by
  rw [inLink?, Node.inputLink?, heldLink?]
  by_cases hcut : n.isCutOff = true
  · simp [hcut]
  · by_cases hslot : slot < 0 <;> simp [hcut, hslot]

/-- A link that an input holds is in the table. -/
theorem mem_of_heldLink? {n : Node γ} {j : Nat} {l : Link} (h : g.heldLink? n j = some l) :
    l ∈ g.links := by
  rcases Option.bind_eq_some_iff.1 h with ⟨k, -, hl⟩
  exact List.mem_of_find?_eq_some hl

/-- A node feeds another one by the links that inputs hold. -/
theorem feeds_iff {u v : Node γ} :
    g.Feeds u v ↔ ∃ j l, g.heldLink? v j = some l ∧ g.lookup? l.origin = .ok (some u) := by
  constructor
  · rintro ⟨slot, hslot, l, hl, hu⟩
    rcases List.getElem?_of_mem hslot with ⟨j, hj⟩
    exact ⟨j, l, by rw [heldLink?, hj, Option.bind_some, hl], hu⟩
  · rintro ⟨j, l, hl, hu⟩
    rcases Option.bind_eq_some_iff.1 hl with ⟨k, hk, hl⟩
    rcases Option.bind_eq_some_iff.1 hk with ⟨slot, hslot, hk⟩
    exact ⟨slot, List.mem_of_getElem? hslot, l, by rw [hk, Option.bind_some, hl], hu⟩

/-! ## Changes that leave slots alone -/

/-- Changes that leave the slots of nodes alone, and what decides how links at them are used. -/
structure KeepsSlots (f : Node γ → Node γ) : Prop extends IsNeutral f where
  outputs : ∀ n, (f n).outputs = n.outputs
  isCutOff : ∀ n, (f n).isCutOff = n.isCutOff
  isPrimitive : ∀ n, (f n).kind.isPrimitive = n.kind.isPrimitive

/-- A change of one node. -/
theorem KeepsSlots.atNode {f : Node γ → Node γ} (hf : KeepsSlots f) (id : NodeId) :
    KeepsSlots fun n => if n.id = id then f n else n := by
  refine ⟨⟨fun n => ?_, fun n => ?_, fun n => ?_⟩, fun n => ?_, fun n => ?_, fun n => ?_⟩ <;> split
  · exact hf.id n
  · rfl
  · exact hf.order n
  · rfl
  · exact hf.inputs n
  · rfl
  · exact hf.outputs n
  · rfl
  · exact hf.isCutOff n
  · rfl
  · exact hf.isPrimitive n
  · rfl

end Graph

/-! ## Detours -/

/-- A reroute for a link: the number and the ends of the link, the reroute, the link that enters it and
the link that leaves it. -/
structure Detour where
  number : Int
  origin : NodeId
  exit : Nat
  target : NodeId
  entry : Nat
  node : Node Group
  first : Link
  second : Link
  reroute : node.kind = .reroute
  bare : node.widgets = []
  attached : node.isCutOff = false
  holds : ∃ slot slots, node.inputs = slot :: slots ∧ slot.link = some first.id.val ∧
    ∀ s ∈ slots, s.link = none
  starts : first.origin = origin.toJson
  leaves : second.origin = node.id.toJson ∧ second.originSlot.val = 0
  differ : first.id.val ≠ second.id.val

namespace Detour

open NodeFlow.Graph

variable (d : Detour)

/-- The nodes at the ends of the link, with the new links in place of the old one. -/
def rewire (n : Node Group) : Node Group :=
  { n with
    inputs := if n.id = d.target
      then n.inputs.modify d.entry fun s => { s with link := some d.second.id.val } else n.inputs
    outputs := if n.id = d.origin
      then n.outputs.modify d.exit fun o =>
        { o with links := (o.links ++ [d.first.id.val]).erase d.number }
      else n.outputs }

/-- The workflow with the reroute. -/
def apply (g : Workflow) : Workflow :=
  { g with
    nodes := g.nodes.map d.rewire ++ [d.node]
    links := (g.dropLink d.number).links ++ [d.first, d.second]
    lastNodeId := g.counterFor d.node.id
    lastLinkId := d.second.id }

section Rewire

variable (n : Node Group)

@[simp] theorem id_rewire : (d.rewire n).id = n.id := rfl

@[simp] theorem kind_rewire : (d.rewire n).kind = n.kind := rfl

@[simp] theorem mode_rewire : (d.rewire n).mode = n.mode := rfl

@[simp] theorem widgets_rewire : (d.rewire n).widgets = n.widgets := rfl

@[simp] theorem isCutOff_rewire : (d.rewire n).isCutOff = n.isCutOff := rfl

@[simp] theorem group?_rewire : (d.rewire n).group? = n.group? := rfl

/-- The input that the detour leads to holds the new link, all others what they held. -/
theorem getElem?_inputs_rewire (j : Nat) : (d.rewire n).inputs[j]? =
    if n.id = d.target ∧ j = d.entry
    then (n.inputs[j]?).map fun s => { s with link := some d.second.id.val } else n.inputs[j]? := by
  rw [rewire]
  by_cases hid : n.id = d.target
  · by_cases hj : j = d.entry
    · simp [hid, hj]
    · have hne : ¬ d.entry = j := fun h => hj h.symm
      simp [hid, hj, hne]
  · simp [hid]

@[simp] theorem length_inputs_rewire : (d.rewire n).inputs.length = n.inputs.length := by
  rw [rewire]
  by_cases hid : n.id = d.target <;> simp [hid]

/-- Nothing about an input changes but the link that it holds. -/
theorem map_getElem?_inputs_rewire {β : Type} {F : InputSlot → β}
    (hF : ∀ s link, F { s with link } = F s) (j : Nat) :
    ((d.rewire n).inputs[j]?).map F = (n.inputs[j]?).map F := by
  rw [getElem?_inputs_rewire]
  split
  · rw [Option.map_map]
    exact congrArg (fun f => Option.map f n.inputs[j]?) (funext fun s => hF s _)
  · rfl

/-- A detour changes the outputs of its origin only. -/
theorem outputs_rewire_of_ne {n : Node Group} (h : n.id ≠ d.origin) :
    (d.rewire n).outputs = n.outputs := if_neg h

end Rewire

/-- The reroute holds the first link, and no other. -/
theorem heldLink?_node (g : Workflow) (j : Nat) :
    g.heldLink? d.node j = if j = 0 then g.link? d.first.id.val else none := by
  rcases d.holds with ⟨slot, slots, hinputs, hslot, hslots⟩
  rw [heldLink?, hinputs]
  cases j with
  | zero => simp [hslot]
  | succ j =>
    rw [List.getElem?_cons_succ, if_neg j.succ_ne_zero]
    cases hs : slots[j]? with
    | none => rfl
    | some s => simp [hslots s (List.mem_of_getElem? hs)]

/-! ## The workflow with the reroute -/

section Apply

variable (g : Workflow)

/-- A detour adds one node. -/
theorem ids_apply :
    (d.apply g).nodes.map (·.id) = g.nodes.map (·.id) ++ [d.node.id] := by
  rw [apply, List.map_append, List.map_map]
  rfl

/-- The nodes are found as before, but for the new links, and the reroute under its own id. -/
theorem at?_apply (id : NodeId) : (d.apply g).at? id =
    ((g.at? id).map d.rewire).or (if d.node.id = id then some d.node else none) := by
  rw [apply, at?, List.find?_append, List.find?_map]
  by_cases hid : d.node.id = id <;> simp [hid, at?, Function.comp_def]

variable {g}

/-- Under any id but that of the reroute the rewired node is found. -/
theorem at?_apply_of_ne {id : NodeId} (hid : id ≠ d.node.id) :
    (d.apply g).at? id = (g.at? id).map d.rewire := by
  rw [d.at?_apply, if_neg hid.symm, Option.or_none]

/-- What does not name the reroute names the rewired node. -/
theorem lookup?_apply {v : Json} (hv : ¬ Finds (d.apply g) v d.node.id) :
    (d.apply g).lookup? v = (g.lookup? v).map (·.map d.rewire) :=
  lookup?_of_not_finds (d.at?_apply g) hv

/-- The links that are not replaced stay. -/
theorem link?_apply {k : Int} (hk : k ≠ d.number ∧ k ≠ d.first.id.val ∧ k ≠ d.second.id.val) :
    (d.apply g).link? k = g.link? k := by
  rcases hk with ⟨hnumber, hfirst, hsecond⟩
  have hkept : (g.dropLink d.number).links.find? (·.id.val == k) = g.links.find? (·.id.val == k) := by
    rw [Graph.dropLink, List.find?_filter]
    congr 1
    funext l
    by_cases hl : l.id.val = k <;> simp [hl, hnumber]
  rw [link?, apply, List.find?_append, hkept]
  simp [hfirst.symm, hsecond.symm, link?]

/-- What is done to a node of the workflow is done to it beside the reroute. -/
theorem modifyNode_apply {id : NodeId} (hid : id ≠ d.node.id) {f : Node Group → Node Group}
    (hf : ∀ n, f (d.rewire n) = d.rewire (f n)) :
    (d.apply g).modifyNode id f = d.apply (g.modifyNode id f) := by
  have hnodes : (d.apply g).nodes.map (fun n => if n.id = id then f n else n) =
      (d.apply (g.modifyNode id f)).nodes := by
    rw [apply, apply, Graph.modifyNode, List.map_append, List.map_map, List.map_map,
      List.map_singleton, if_neg hid.symm]
    refine congrArg (· ++ [d.node]) (List.map_congr_left fun n _ => ?_)
    by_cases hn : n.id = id <;> simp [hn, hf]
  rw [Graph.modifyNode, hnodes]
  rfl

end Apply

/-! ## Workflows that a detour fits -/

/-- The link that the detour replaces, and the nodes at its ends. -/
structure Replaces (g : Workflow) (l : Link) (o t : Node Group) : Prop where
  link : g.link? d.number = some l
  slot : d.first.originSlot = l.originSlot
  origin : g.lookup? l.origin = .ok (some o)
  originId : o.id = d.origin
  steady : o.kind.isPrimitive = false
  mem : t ∈ g.nodes
  targetId : t.id = d.target
  attached : t.isCutOff = false
  held : (t.inputs[d.entry]?).bind (·.link) = some d.number

/-- The detour is one for a link of the workflow: the numbers of its links are new, the input that it
leads to is the only one that holds the link, no primitive lists the link, and no link of the workflow
finds the reroute. -/
structure Fits (g : Workflow) : Prop where
  ids : (g.nodes.map (·.id)).Nodup
  fresh : g.at? d.node.id = none
  uncaught : ∀ l ∈ g.links, ¬ Finds (d.apply g) l.origin d.node.id ∧
    ¬ Finds (d.apply g) l.target d.node.id
  unused : ∀ l ∈ g.links, l.id.val ≠ d.first.id.val ∧ l.id.val ≠ d.second.id.val
  unheld : ∀ n ∈ g.nodes, ∀ s ∈ n.inputs, s.link ≠ some d.first.id.val ∧
    s.link ≠ some d.second.id.val
  unlisted : ∀ n ∈ g.nodes, n.kind.isPrimitive = true → ∀ o ∈ n.outputs, ∀ k ∈ o.links,
    k ≠ d.number ∧ k ≠ d.first.id.val ∧ k ≠ d.second.id.val
  single : ∀ n ∈ g.nodes, ∀ (j : Nat) s, n.inputs[j]? = some s → s.link = some d.number →
    n.id = d.target ∧ j = d.entry
  replaces : ∃ l o t, d.Replaces g l o t

/-- The input that the detour leads to holds the link that it replaces. -/
theorem Replaces.heldLink? {d : Detour} {g : Workflow} {l : Link} {o t : Node Group}
    (h : d.Replaces g l o t) : g.heldLink? t d.entry = some l := by
  rw [Graph.heldLink?, h.held, Option.bind_some, h.link]

namespace Fits

variable {d} {g : Workflow} (h : d.Fits g)

include h

/-- No node of the workflow has the id of the reroute. -/
theorem ne_of_mem {n : Node Group} (hn : n ∈ g.nodes) : n.id ≠ d.node.id :=
  Graph.ne_of_at?_eq_none h.fresh hn

/-- The node that the detour leads to is told by its id. -/
theorem eq_target {l : Link} {o t n : Node Group} (ht : d.Replaces g l o t) (hn : n ∈ g.nodes)
    (hid : n.id = d.target) : n = t :=
  List.inj_on_of_nodup_map h.ids hn ht.mem (hid.trans ht.targetId.symm)

/-- The reroute is found by its id. -/
theorem at?_apply_node : (d.apply g).at? d.node.id = some d.node := by
  rw [d.at?_apply, h.fresh, if_pos rfl]
  rfl

/-- The first link of the detour is found by its number. -/
theorem link?_first : (d.apply g).link? d.first.id.val = some d.first := by
  have hnone : (g.dropLink d.number).links.find? (·.id.val == d.first.id.val) = none := by
    rw [List.find?_eq_none]
    intro l hl
    simpa using (h.unused l (List.mem_filter.1 hl).1).1
  rw [link?, apply, List.find?_append, hnone]
  simp

private theorem link?_second : (d.apply g).link? d.second.id.val = some d.second := by
  have hnone : (g.dropLink d.number).links.find? (·.id.val == d.second.id.val) = none := by
    rw [List.find?_eq_none]
    intro l hl
    simpa using (h.unused l (List.mem_filter.1 hl).1).2
  rw [link?, apply, List.find?_append, hnone]
  simp [d.differ]

/-- The input that the detour leads to holds the second link, all others what they held. -/
theorem heldLink?_apply {n : Node Group} (hn : n ∈ g.nodes) (j : Nat) :
    (d.apply g).heldLink? (d.rewire n) j =
      if n.id = d.target ∧ j = d.entry then some d.second else g.heldLink? n j := by
  rw [heldLink?, getElem?_inputs_rewire]
  split
  · rename_i hslot
    rcases h.replaces with ⟨l, o, t, ht⟩
    rcases Option.bind_eq_some_iff.1 ht.held with ⟨s, hs, -⟩
    rw [h.eq_target ht hn hslot.1, hslot.2, hs]
    exact h.link?_second
  · rename_i hslot
    rw [heldLink?]
    cases hs : n.inputs[j]? with
    | none => rfl
    | some s =>
      rw [Option.bind_some]
      cases hk : s.link with
      | none => rfl
      | some k =>
        have hnew := h.unheld n hn s (List.mem_of_getElem? hs)
        rw [hk] at hnew
        refine d.link?_apply ⟨?_, fun hsame => hnew.1 (congrArg some hsame),
          fun hsame => hnew.2 (congrArg some hsame)⟩
        rintro rfl
        exact hslot (h.single n hn j s hs hk)

/-- The reroute holds the first link of the detour. -/
theorem heldLink?_node : (d.apply g).heldLink? d.node 0 = some d.first := by
  rw [d.heldLink?_node, if_pos rfl, h.link?_first]

/-- What the new links find. -/
theorem lookup?_second : (d.apply g).lookup? d.second.origin = .ok (some d.node) := by
  rw [d.leaves.1]
  exact lookup?_of_at? h.at?_apply_node

/-- The first link of the detour starts where the replaced link did. -/
theorem lookup?_first {l : Link} {o t : Node Group} (ht : d.Replaces g l o t) :
    (d.apply g).lookup? d.first.origin = .ok (some (d.rewire o)) := by
  have ho := mem_of_lookup? ht.origin
  have hat : (d.apply g).at? d.origin = some (d.rewire o) := by
    rw [← ht.originId, d.at?_apply_of_ne (h.ne_of_mem ho), at?_of_mem h.ids ho]
    rfl
  rw [d.starts]
  exact lookup?_of_at? hat

/-! ## Changes of nodes -/

/-- A detour still fits when the slots of nodes are left alone. -/
theorem mapNodes {f : Node Group → Node Group} (hf : KeepsSlots f) : d.Fits (g.mapNodes f) := by
  have hmem : ∀ {n}, n ∈ (g.mapNodes f).nodes → ∃ m ∈ g.nodes, f m = n := List.mem_map.1
  have hids := ids_mapNodes hf.toIsNeutral g
  have hfinds : ∀ {v : Json}, Finds (d.apply (g.mapNodes f)) v d.node.id ↔
      Finds (d.apply g) v d.node.id := by
    intro v
    refine finds_congr ?_
    rw [ids_apply, ids_apply, hids]
  refine ⟨?_, ?_, fun l hl => ?_, h.unused, fun n hn => ?_, fun n hn => ?_, fun n hn => ?_, ?_⟩
  · rw [hids]
    exact h.ids
  · rw [at?_mapNodes hf.toIsNeutral, h.fresh]
    rfl
  · rw [hfinds, hfinds]
    exact h.uncaught l hl
  · rcases hmem hn with ⟨m, hm, rfl⟩
    rw [hf.inputs]
    exact h.unheld m hm
  · rcases hmem hn with ⟨m, hm, rfl⟩
    rw [hf.isPrimitive, hf.outputs]
    exact h.unlisted m hm
  · rcases hmem hn with ⟨m, hm, rfl⟩
    rw [hf.inputs, hf.id]
    exact h.single m hm
  · rcases h.replaces with ⟨l, o, t, ht⟩
    refine ⟨l, f o, f t, ht.link, ht.slot, ?_, ?_, ?_, List.mem_map_of_mem ht.mem, ?_, ?_, ?_⟩
    · rw [lookup?_mapNodes hf.toIsNeutral, ht.origin]
      rfl
    · rw [hf.id, ht.originId]
    · rw [hf.isPrimitive, ht.steady]
    · rw [hf.id, ht.targetId]
    · rw [hf.isCutOff, ht.attached]
    · rw [hf.inputs, ht.held]

end Fits

end Detour

end NodeFlow
