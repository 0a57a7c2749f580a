import NodeFlow.Proofs.Compile.Expansion

/-!
# Workflows without groups

Every group that is taken apart can be replaced by the nodes inside it.  These get the ids under which
the compiler knows them.  Links inside a group stay; a slot that no link inside reaches takes the link
at the first input of the group that names it, and what leaves the group starts at the slot that the
group names.

Main results:

- Type `Wire`: the links of a workflow, inside groups too, and where they start and end.
- Definition `Workflow.flatten`: the workflow without groups.
- Theorems `Workflow.at?_flatten` and `Workflow.lookup?_id_flatten`: a site is found under its id.
- Theorems `Workflow.link?_flatten_outer` and `Workflow.link?_flatten_inner`: a link is found under its
  number.
-/

namespace NodeFlow

/-! ## Ways in and out of groups -/

namespace Group

/-- The inner slot behind an output. -/
def exit? (x : Group) (slot : Int) : Option (Node Empty × Int) := do
  let i ← position? x.outputs.length slot
  let port ← x.outputs[i]?
  let n ← x.graph.named? port.node.toJson
  pure (n, port.slot)

/-- The first input that names an inner slot. -/
def inputOf? (x : Group) (n : Node Empty) (slot : Int) : Option Nat :=
  x.inputs.findIdx? fun port => port.node == n.id && port.slot == slot

/-- The inner slot that an input feeds: the one it names, unless a link inside or an earlier input
does so. -/
def entrance? (x : Group) (input : Nat) : Option (Node Empty × Int) := do
  let port ← x.inputs[input]?
  let n ← x.graph.at? port.node
  if x.inputOf? n port.slot = some input ∧ (x.graph.inLink? n port.slot).isNone then
    some (n, port.slot)
  else none

end Group

namespace Node

/-- The group that a node is taken apart into. -/
def parts? (n : Node Group) : Option Group := if n.isSkipped then none else n.group?

/-- The site behind an output of a node, and the output there. -/
def exit? (n : Node Group) (slot : Whole) : Option (Site × Whole) :=
  match n.parts? with
  | none => some (.outer n, slot)
  | some x => (x.exit? slot.val).map fun (m, i) => (.inner n x m, .number i)

/-- The site behind an input of a node, and the input there. -/
def entrance? (n : Node Group) (slot : Whole) : Option (Site × Whole) :=
  match n.parts? with
  | none => some (.outer n, slot)
  | some x => ((position? n.inputs.length slot.val).bind x.entrance?).map fun (m, i) =>
      (.inner n x m, .number i)

end Node

/-! ## Links -/

/-- A link of the workflow, or of the graph inside a group. -/
inductive Wire where
  | outer (l : Link)
  | inner (host : Node Group) (group : Group) (l : Link)

namespace Workflow

/-- The links inside a node, if it is taken apart. -/
def innerWires (n : Node Group) : List Wire :=
  match n.parts? with
  | none => []
  | some x => x.graph.links.map (Wire.inner n x)

/-- The links of a workflow, inside groups too. -/
def wires (g : Workflow) : List Wire := g.links.map .outer ++ g.nodes.flatMap innerWires

/-- A number for a link of a part of the workflow, where parts have numbers up to that of the nodes. -/
def linkNumber (g : Workflow) (part : Nat) (id : Int) : Int := id * (g.nodes.length + 1) + part

/-- The number of the graph inside a node; the workflow itself has the number 0. -/
def partOf (g : Workflow) (host : NodeId) : Nat := g.nodes.findIdx (·.id == host) + 1

end Workflow

namespace Wire

/-- The link as it is written. -/
def link : Wire → Link
  | outer l => l
  | inner _ _ l => l

/-- The number of the link among all links. -/
def number (g : Workflow) : Wire → Int
  | outer l => g.linkNumber 0 l.id.val
  | inner host _ l => g.linkNumber (g.partOf host.id) l.id.val

/-- The site and the output where the link starts. -/
def origin? (g : Workflow) : Wire → Option (Site × Whole)
  | outer l => (g.named? l.origin).bind (·.exit? l.originSlot)
  | inner host x l => (x.graph.named? l.origin).map fun n => (.inner host x n, l.originSlot)

/-- The site and the input where the link ends. -/
def target? (g : Workflow) : Wire → Option (Site × Whole)
  | outer l => (g.named? l.target).bind (·.entrance? l.targetSlot)
  | inner host x l => (x.graph.named? l.target).map fun n => (.inner host x n, l.targetSlot)

/-- The link between the nodes that stand for the sites at its ends; an end that is nowhere is
null. -/
def flat (g : Workflow) (w : Wire) : Link where
  id := .number (w.number g)
  origin := ((w.origin? g).map (·.1.id.toJson)).getD .null
  originSlot := ((w.origin? g).map (·.2)).getD w.link.originSlot
  target := ((w.target? g).map (·.1.id.toJson)).getD .null
  targetSlot := ((w.target? g).map (·.2)).getD w.link.targetSlot
  type := w.link.type

end Wire

/-! ## Nodes -/

namespace Site

/-- The link behind an input.  An inner input without inner link takes what the first group input that
names it takes. -/
def wire? (g : Workflow) (slot : Int) : Site → Option Wire
  | outer n => (g.inLink? n slot).map .outer
  | inner host x n =>
    match x.graph.inLink? n slot with
    | some l => some (.inner host x l)
    | none => (x.inputOf? n slot).bind fun i => (g.inLink? host i).map .outer

/-- The number that the input at a position holds. -/
def held (g : Workflow) (i : Nat) (slot : InputSlot) : Site → Option Int
  | outer _ => slot.link.map (g.linkNumber 0)
  | inner host x n => ((inner host x n).wire? g i).map (·.number g)

/-- The numbers that the output at a position lists: those of its links, and inside a group those of
the links that leave the group from there. -/
def listed (g : Workflow) (i : Nat) (o : OutputSlot) : Site → List Int
  | outer _ => o.links.map (g.linkNumber 0)
  | inner host x n =>
    (if n.isCutOff then [] else o.links.map (g.linkNumber (g.partOf host.id))) ++
      host.outputs.zipIdx.flatMap fun (p, j) =>
        match x.exit? j with
        | some (m, slot) => if m.id = n.id ∧ slot = i then p.links.map (g.linkNumber 0) else []
        | none => []

/-- The node at the site as one of the workflow.  Inside a group, a node that is cut off still takes
what enters the group. -/
def asNode : Site → Node Group
  | outer n => n
  | inner _ _ n => { n.widen with isCutOff := false }

/-- The node that stands for a site. -/
def flat (g : Workflow) (s : Site) : Node Group :=
  { s.asNode with
    id := s.id
    inputs := s.inputs.mapIdx fun i slot => { slot with link := s.held g i slot }
    outputs := s.outputs.mapIdx fun i o => { o with links := s.listed g i o } }

end Site

/-- The workflow with the nodes inside groups in place of the groups that are taken apart. -/
def Workflow.flatten (g : Workflow) : Workflow :=
  { g with
    nodes := (expanded g).map (Site.flat g)
    links := (wires g).map (Wire.flat g) }

namespace Workflow

variable {g : Workflow}

/-! ## What is found -/

/-- A group is taken apart unless it is muted or bypassed. -/
theorem parts?_eq_some {n : Node Group} {x : Group} :
    n.parts? = some x ↔ n.isSkipped = false ∧ n.group? = some x := by
  unfold Node.parts?
  cases n.isSkipped <;> simp

private theorem behind_eq (n : Node Group) :
    behind n = match n.parts? with
      | none => [.outer n]
      | some x => x.graph.nodes.map (Site.inner n x) := by
  unfold behind Node.parts?
  cases n.isSkipped <;> rfl

/-- A node is met itself unless it is a group that is taken apart. -/
theorem mem_expanded_outer {n : Node Group} :
    Site.outer n ∈ expanded g ↔ n ∈ g.nodes ∧ n.parts? = none := by
  rw [expanded, List.mem_flatMap]
  constructor
  · rintro ⟨m, hm, hmem⟩
    rw [behind_eq] at hmem
    cases hparts : m.parts? with
    | none =>
      simp only [hparts, List.mem_singleton, Site.outer.injEq] at hmem
      exact hmem ▸ ⟨hm, hparts⟩
    | some x => simp [hparts] at hmem
  · rintro ⟨hn, hparts⟩
    refine ⟨n, hn, ?_⟩
    simp [behind_eq, hparts]

/-- A node inside a group is met where the group is taken apart. -/
theorem mem_expanded_inner {host : Node Group} {x : Group} {n : Node Empty} :
    Site.inner host x n ∈ expanded g ↔
      host ∈ g.nodes ∧ host.parts? = some x ∧ n ∈ x.graph.nodes := by
  rw [expanded, List.mem_flatMap]
  constructor
  · rintro ⟨m, hm, hmem⟩
    rw [behind_eq] at hmem
    cases hparts : m.parts? with
    | none => simp [hparts] at hmem
    | some y =>
      simp only [hparts, List.mem_map, Site.inner.injEq] at hmem
      rcases hmem with ⟨k, hk, rfl, rfl, rfl⟩
      exact ⟨hm, hparts, hk⟩
  · rintro ⟨hhost, hparts, hn⟩
    refine ⟨host, hhost, ?_⟩
    simp [behind_eq, hparts, hn]

/-- Nodes of a flattened workflow have different ids. -/
theorem nodup_ids_flatten (hkeyed : Keyed g) : ((flatten g).nodes.map (·.id)).Nodup := by
  have hkeys : ((expanded g).map (·.id.key)).Nodup := ((expanded_sublist g).map _).nodup hkeyed
  have hids : (flatten g).nodes.map (·.id) = (expanded g).map (·.id) := by
    rw [flatten, List.map_map]
    rfl
  rw [hids]
  apply List.Nodup.of_map NodeId.key
  rwa [List.map_map]

/-- The node that stands for a site has the id of the site. -/
theorem at?_flatten (hkeyed : Keyed g) {s : Site} (hs : s ∈ expanded g) :
    (flatten g).at? s.id = some (s.flat g) :=
  Graph.at?_of_mem (nodup_ids_flatten hkeyed) (List.mem_map_of_mem hs)

/-- The id of a site finds the node that stands for it. -/
theorem lookup?_id_flatten (hkeyed : Keyed g) {s : Site} (hs : s ∈ expanded g) :
    (flatten g).lookup? s.id.toJson = .ok (some (s.flat g)) :=
  Graph.lookup?_of_at? (at?_flatten hkeyed hs)

/-! ## Ends of links -/

/-- The node behind an exit of a group is inside the group. -/
theorem mem_of_exit? {x : Group} {slot i : Int} {m : Node Empty} (h : x.exit? slot = some (m, i)) :
    m ∈ x.graph.nodes := by
  rcases Option.bind_eq_some_iff.1 h with ⟨j, -, h⟩
  rcases Option.bind_eq_some_iff.1 h with ⟨port, -, h⟩
  rcases Option.bind_eq_some_iff.1 h with ⟨n, hn, h⟩
  cases h
  exact Graph.mem_of_lookup? (Graph.lookup?_of_named? hn)

private theorem mem_of_entrance? {x : Group} {input : Nat} {i : Int} {m : Node Empty}
    (h : x.entrance? input = some (m, i)) : m ∈ x.graph.nodes := by
  rcases Option.bind_eq_some_iff.1 h with ⟨port, -, h⟩
  rcases Option.bind_eq_some_iff.1 h with ⟨n, hn, h⟩
  split at h
  · cases h
    exact Graph.mem_of_at? hn
  · cases h

/-- What stands behind an output of a node is one of the sites that nodes stand for. -/
theorem mem_expanded_of_exit? {n : Node Group} (hn : n ∈ g.nodes) {slot i : Whole} {t : Site}
    (h : n.exit? slot = some (t, i)) : t ∈ expanded g := by
  unfold Node.exit? at h
  split at h
  · rename_i hparts
    cases h
    exact mem_expanded_outer.2 ⟨hn, hparts⟩
  · rename_i x hparts
    rcases Option.map_eq_some_iff.1 h with ⟨⟨m, j⟩, hm, hsame⟩
    cases hsame
    exact mem_expanded_inner.2 ⟨hn, hparts, mem_of_exit? hm⟩

private theorem mem_expanded_of_entrance? {n : Node Group} (hn : n ∈ g.nodes) {slot i : Whole}
    {t : Site} (h : n.entrance? slot = some (t, i)) : t ∈ expanded g := by
  unfold Node.entrance? at h
  split at h
  · rename_i hparts
    cases h
    exact mem_expanded_outer.2 ⟨hn, hparts⟩
  · rename_i x hparts
    rcases Option.map_eq_some_iff.1 h with ⟨⟨m, j⟩, hm, hsame⟩
    cases hsame
    rcases Option.bind_eq_some_iff.1 hm with ⟨_, -, hm⟩
    exact mem_expanded_inner.2 ⟨hn, hparts, mem_of_entrance? hm⟩

/-- The link is one of the workflow, or of a node that is taken apart. -/
def Carries (g : Workflow) : Wire → Prop
  | .outer _ => True
  | .inner host x _ => host ∈ g.nodes ∧ host.parts? = some x

section Ends

variable {w : Wire} (hw : g.Carries w) {t : Site} {i : Whole}

include hw

/-- A link starts at a site that is met. -/
theorem mem_expanded_of_origin? (h : w.origin? g = some (t, i)) : t ∈ expanded g := by
  cases w with
  | outer l =>
    rcases Option.bind_eq_some_iff.1 h with ⟨n, hn, h⟩
    exact mem_expanded_of_exit? (Graph.mem_of_lookup? (Graph.lookup?_of_named? hn)) h
  | inner host x l =>
    rcases Option.map_eq_some_iff.1 h with ⟨m, hm, hsame⟩
    cases hsame
    exact mem_expanded_inner.2 ⟨hw.1, hw.2, Graph.mem_of_lookup? (Graph.lookup?_of_named? hm)⟩

private theorem mem_expanded_of_target? (h : w.target? g = some (t, i)) : t ∈ expanded g := by
  cases w with
  | outer l =>
    rcases Option.bind_eq_some_iff.1 h with ⟨n, hn, h⟩
    exact mem_expanded_of_entrance? (Graph.mem_of_lookup? (Graph.lookup?_of_named? hn)) h
  | inner host x l =>
    rcases Option.map_eq_some_iff.1 h with ⟨m, hm, hsame⟩
    cases hsame
    exact mem_expanded_inner.2 ⟨hw.1, hw.2, Graph.mem_of_lookup? (Graph.lookup?_of_named? hm)⟩

/-- The flattened link starts at the node that stands for the site where the link starts. -/
theorem lookup?_origin_flat (hkeyed : Keyed g) :
    (flatten g).lookup? (w.flat g).origin = .ok ((w.origin? g).map fun o => o.1.flat g) := by
  rw [Wire.flat]
  cases ho : w.origin? g with
  | none => rfl
  | some o => exact lookup?_id_flatten hkeyed (mem_expanded_of_origin? hw ho)

/-- The target of a flattened link is the node that stands for its target. -/
theorem lookup?_target_flat (hkeyed : Keyed g) :
    (flatten g).lookup? (w.flat g).target = .ok ((w.target? g).map fun o => o.1.flat g) := by
  rw [Wire.flat]
  cases ht : w.target? g with
  | none => rfl
  | some o => exact lookup?_id_flatten hkeyed (mem_expanded_of_target? hw ht)

end Ends

/-! ## Numbers of links -/

private theorem linkNumber_inj {part part' : Nat} (hpart : part ≤ g.nodes.length)
    (hpart' : part' ≤ g.nodes.length) {id id' : Int} :
    g.linkNumber part id = g.linkNumber part' id' ↔ part = part' ∧ id = id' := by
  constructor
  · intro h
    have hmod : ∀ {p : Nat}, p ≤ g.nodes.length → ∀ i : Int,
        g.linkNumber p i % (g.nodes.length + 1) = p := by
      intro p hp i
      rw [linkNumber, Int.mul_add_emod_self_right]
      exact Int.emod_eq_of_lt (by omega) (by omega)
    have hparts : (part : Int) = part' := by rw [← hmod hpart id, h, hmod hpart' id']
    refine ⟨by omega, ?_⟩
    rw [linkNumber, linkNumber, hparts, add_left_inj] at h
    exact Int.eq_of_mul_eq_mul_right (by omega) h
  · rintro ⟨rfl, rfl⟩
    rfl

private theorem partOf_le {n : Node Group} (hn : n ∈ g.nodes) : g.partOf n.id ≤ g.nodes.length :=
  List.findIdx_lt_length_of_exists ⟨n, hn, by simp⟩

private theorem partOf_inj (hids : (g.nodes.map (·.id)).Nodup) {n m : Node Group} (hn : n ∈ g.nodes)
    (hm : m ∈ g.nodes) (h : g.partOf n.id = g.partOf m.id) : n = m := by
  have hfound : ∀ k ∈ g.nodes, ∃ u, g.nodes[g.nodes.findIdx (·.id == k.id)]? = some u ∧
      u.id = k.id := by
    intro k hk
    have hlt : g.nodes.findIdx (·.id == k.id) < g.nodes.length :=
      List.findIdx_lt_length_of_exists ⟨k, hk, by simp⟩
    exact ⟨_, List.getElem?_eq_getElem hlt, by simpa using List.findIdx_getElem (w := hlt)⟩
  rcases hfound n hn with ⟨u, hu, hun⟩
  rcases hfound m hm with ⟨v, hv, hvm⟩
  have hsame : g.nodes.findIdx (·.id == n.id) = g.nodes.findIdx (·.id == m.id) :=
    Nat.succ_injective h
  rw [hsame, hv, Option.some.injEq] at hu
  exact List.inj_on_of_nodup_map hids hn hm (by rw [← hun, ← hu, hvm])

/-- The flattened link of a number stands for the first link of that number. -/
theorem link?_flatten (g : Workflow) (k : Int) :
    (flatten g).link? k = ((wires g).find? fun w => w.number g == k).map (Wire.flat g) := by
  rw [Graph.link?, flatten, List.find?_map]
  rfl

private theorem number_of_mem_innerWires {n : Node Group} {w : Wire} (hw : w ∈ innerWires n) :
    w.number g = g.linkNumber (g.partOf n.id) w.link.id.val := by
  unfold innerWires at hw
  split at hw
  · cases hw
  · rcases List.mem_map.1 hw with ⟨l, -, rfl⟩
    rfl

/-- A link of the workflow is found under its number. -/
theorem link?_flatten_outer (g : Workflow) (id : Int) :
    (flatten g).link? (g.linkNumber 0 id) = (g.link? id).map fun l => (Wire.outer l).flat g := by
  have houter : (g.links.map Wire.outer).find? (fun w => w.number g == g.linkNumber 0 id) =
      (g.link? id).map Wire.outer := by
    rw [List.find?_map, Graph.link?]
    congr 2
    funext l
    have hiff : g.linkNumber 0 l.id.val = g.linkNumber 0 id ↔ 0 = 0 ∧ l.id.val = id :=
      linkNumber_inj (Nat.zero_le _) (Nat.zero_le _)
    simp [Wire.number, hiff]
  have hinner : (g.nodes.flatMap innerWires).find? (fun w => w.number g == g.linkNumber 0 id) =
      none := by
    rw [List.find?_eq_none]
    intro w hw hnumber
    rcases List.mem_flatMap.1 hw with ⟨n, hn, hw⟩
    rw [number_of_mem_innerWires hw, beq_iff_eq, linkNumber_inj (partOf_le hn) (Nat.zero_le _)]
      at hnumber
    exact absurd hnumber.1 (Nat.succ_ne_zero _)
  rw [link?_flatten, wires, List.find?_append, houter, hinner, Option.or_none, Option.map_map]
  rfl

/-- A link inside a group is found under its number. -/
theorem link?_flatten_inner (hids : (g.nodes.map (·.id)).Nodup) {host : Node Group} {x : Group}
    (hhost : host ∈ g.nodes) (hparts : host.parts? = some x) (id : Int) :
    (flatten g).link? (g.linkNumber (g.partOf host.id) id) =
      (x.graph.link? id).map fun l => (Wire.inner host x l).flat g := by
  let isIt (w : Wire) : Bool := w.number g == g.linkNumber (g.partOf host.id) id
  have houter : (g.links.map Wire.outer).find? isIt = none := by
    rw [List.find?_eq_none]
    intro w hw hnumber
    rcases List.mem_map.1 hw with ⟨l, -, rfl⟩
    rw [beq_iff_eq, Wire.number, linkNumber_inj (Nat.zero_le _) (partOf_le hhost)] at hnumber
    exact absurd hnumber.1.symm (Nat.succ_ne_zero _)
  have hhere : (innerWires host).find? isIt = (x.graph.link? id).map (Wire.inner host x) := by
    rw [innerWires, hparts]
    simp only [List.find?_map, Graph.link?]
    congr 2
    funext l
    have hiff : g.linkNumber (g.partOf host.id) l.id.val = g.linkNumber (g.partOf host.id) id ↔
        g.partOf host.id = g.partOf host.id ∧ l.id.val = id :=
      linkNumber_inj (partOf_le hhost) (partOf_le hhost)
    simp [isIt, Wire.number, hiff]
  -- no other part has links of such numbers
  have helsewhere : ∀ ns : List (Node Group), (∀ n ∈ ns, n ∈ g.nodes ∧ n ≠ host) →
      (ns.flatMap innerWires).find? isIt = none := by
    intro ns hns
    rw [List.find?_eq_none]
    intro w hw hnumber
    rcases List.mem_flatMap.1 hw with ⟨n, hn, hw⟩
    rcases hns n hn with ⟨hmem, hne⟩
    rw [beq_iff_eq, number_of_mem_innerWires hw, linkNumber_inj (partOf_le hmem) (partOf_le hhost)]
      at hnumber
    exact hne (partOf_inj hids hmem hhost hnumber.1)
  rw [link?_flatten, wires, List.find?_append, houter, Option.none_or]
  have hnodup := hids
  rcases List.append_of_mem hhost with ⟨front, back, hsplit⟩
  rw [hsplit, List.map_append, List.map_cons, List.nodup_middle] at hnodup
  have hne : ∀ n ∈ front ++ back, n ∈ g.nodes ∧ n ≠ host := by
    intro n hn
    refine ⟨?_, ?_⟩
    · rw [hsplit, List.mem_append, List.mem_cons]
      rcases List.mem_append.1 hn with hn | hn
      · exact .inl hn
      · exact .inr (.inr hn)
    · rintro rfl
      rw [← List.map_append] at hnodup
      exact (List.nodup_cons.1 hnodup).1 (List.mem_map_of_mem hn)
  rw [hsplit, List.flatMap_append, List.flatMap_cons, List.find?_append, List.find?_append,
    helsewhere front fun n hn => hne n (List.mem_append_left back hn),
    helsewhere back fun n hn => hne n (List.mem_append_right front hn), hhere, Option.none_or,
    Option.or_none, Option.map_map]
  rfl

end Workflow

end NodeFlow
