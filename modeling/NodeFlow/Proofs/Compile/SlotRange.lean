import NodeFlow.Proofs.Compile.Skeleton
import NodeFlow.Proofs.Edit.Ends

/-!
# Outputs that exist

Where the links of a workflow and the outputs of its groups name outputs that exist, so does every
reference: the output of an effective producer is one that the producer has.

Main results:

- Definitions `Graph.LeavesOutputs` and `Group.ExitsExist`; type `Workflow.OutputsExist`.
- Definition `Graph.IsRooted`: links that all name a node and one of its outputs.
- Theorem `Site.slot_of_resolve`: the slot of an effective producer.
-/

namespace NodeFlow

namespace Graph

variable {γ : Type} {g : Graph γ}

/-- Every link that names a node names one of its outputs. -/
def LeavesOutputs (g : Graph γ) : Prop :=
  ∀ l ∈ g.links, ∀ n, g.lookup? l.origin = .ok (some n) →
    ∃ a : ℕ, l.originSlot.val = a ∧ a < n.outputs.length

/-- Every link names a node of the graph and one of its outputs. -/
def IsRooted (g : Graph γ) : Prop :=
  ∀ l ∈ g.links, ∃ id a ks, l.Leaves id a ∧ g.listedAt? id a = some ks

/-- Links that name an output of a node each name outputs that exist. -/
theorem IsRooted.leavesOutputs (h : g.IsRooted) : g.LeavesOutputs := by
  intro l hl n hn
  rcases h l hl with ⟨id, a, ks, hleaves, hlisted⟩
  rcases exists_of_listedAt? hlisted with ⟨m, o, hm, ho, -⟩
  have hfound : g.lookup? l.origin = .ok (some m) := by
    rw [hleaves.1]
    exact lookup?_of_at? hm
  rw [hfound, Except.ok.injEq, Option.some.injEq] at hn
  subst hn
  exact ⟨a, hleaves.2, (List.getElem?_eq_some_iff.1 ho).1⟩

private theorem LeavesOutputs.of_inLink? (h : g.LeavesOutputs) {n origin : Node γ} {slot : Int}
    {l : Link} (hl : g.inLink? n slot = some l) (horigin : g.lookup? l.origin = .ok (some origin)) :
    ∃ a : ℕ, l.originSlot.val = a ∧ a < origin.outputs.length := by
  unfold inLink? at hl
  split at hl
  · cases hl
  · rcases Option.bind_eq_some_iff.1 hl with ⟨k, -, hfound⟩
    exact h l (List.mem_of_find?_eq_some hfound) origin horigin

private theorem leavesOutputs_mapNodes {f : Node γ → Node γ} (hf : IsNeutral f)
    (houtputs : ∀ n, (f n).outputs = n.outputs) :
    (g.mapNodes f).LeavesOutputs ↔ g.LeavesOutputs := by
  refine forall₂_congr fun l _ => ?_
  rw [lookup?_mapNodes hf]
  cases g.lookup? l.origin with
  | error f => simp [Except.map]
  | ok found => cases found <;> simp [Except.map, houtputs]

end Graph

/-- The outputs of the group stand for outputs that nodes inside it have. -/
def Group.ExitsExist (x : Group) : Prop :=
  ∀ port ∈ x.outputs, ∃ n, x.graph.find? port.node = .ok (some n) ∧
    ∃ a : ℕ, port.slot = a ∧ a < n.outputs.length

private theorem Group.exitsExist_bare (x : Group) : x.bare.ExitsExist ↔ x.ExitsExist := by
  refine forall₂_congr fun port _ => ?_
  rw [Group.bare, Graph.find?, Graph.find?, Graph.lookup?_mapNodes Node.isNeutral_bare]
  cases x.graph.lookup? port.node.toJson with
  | error f => simp [Except.map]
  | ok found => cases found <;> simp [Except.map, Node.bare]

namespace Workflow

variable {g g' : Workflow}

/-- Links name outputs that exist, and so do groups. -/
structure OutputsExist (g : Workflow) : Prop where
  outer : g.LeavesOutputs
  inner : ∀ n ∈ g.nodes, ∀ x, n.group? = some x → x.graph.LeavesOutputs ∧ x.ExitsExist

private theorem outputsExist_skeleton : OutputsExist (skeleton g) ↔ OutputsExist g := by
  have houter : (skeleton g).LeavesOutputs ↔ g.LeavesOutputs := by
    rw [skeleton, Graph.leavesOutputs_mapNodes Node.isNeutral_hollow fun _ => rfl,
      Graph.leavesOutputs_mapNodes Node.isNeutral_bare fun _ => rfl]
  have hinner := forall_group_skeleton (g := g)
    (P := fun x => x.graph.LeavesOutputs ∧ x.ExitsExist) fun x => and_congr
      (Graph.leavesOutputs_mapNodes Node.isNeutral_bare fun _ => rfl) x.exitsExist_bare
  exact ⟨fun h => ⟨houter.1 h.outer, hinner.1 h.inner⟩, fun h => ⟨houter.2 h.outer, hinner.2 h.inner⟩⟩

/-- Whether links and groups name outputs that exist does not depend on values of widgets. -/
theorem outputsExist_of_skeleton_eq (h : skeleton g' = skeleton g) (hg : OutputsExist g) :
    OutputsExist g' :=
  outputsExist_skeleton.1 (h ▸ outputsExist_skeleton.2 hg)

variable (hexist : OutputsExist g)

include hexist

/-- Behind an output of a group, too, there is an output that exists. -/
theorem OutputsExist.slot_of_unwrap {n : Node Group} (hn : n ∈ g.nodes) {l l' : Link} {t : Site}
    (hslot : ∃ a : ℕ, l.originSlot.val = a ∧ a < n.outputs.length)
    (h : unwrap n l = .ok (t, l')) : ∃ a : ℕ, l'.originSlot.val = a ∧ a < t.outputs.length := by
  rcases Site.unwrap_cases h with ⟨rfl, rfl⟩ | ⟨x, port, m, hgroup, -, hport, hm, rfl, hsame⟩
  · exact hslot
  · rcases (hexist.inner n hn x hgroup).2 port hport with ⟨m', hm', a, ha, hlt⟩
    cases hm.symm.trans hm'
    exact ⟨a, hsame ▸ ha, hlt⟩

private theorem OutputsExist.slot_of_outerSource {n : Node Group} {slot : Int} {t : Site} {l : Link}
    (h : Workflow.source g n slot = .ok (some (t, l))) :
    ∃ a : ℕ, l.originSlot.val = a ∧ a < t.outputs.length := by
  rcases Site.exists_origin_of_source h with ⟨l₀, o, hlink, horigin, hunwrap⟩
  exact hexist.slot_of_unwrap (Graph.mem_of_lookup? horigin)
    (hexist.outer.of_inLink? hlink horigin) hunwrap

/-- The link from a producer leaves an output that the producer has. -/
theorem OutputsExist.slot_of_source {s t : Site} (hs : s ∈ sites g) {slot : Int} {l : Link}
    (h : s.source g slot = .ok (some (t, l))) :
    ∃ a : ℕ, l.originSlot.val = a ∧ a < t.outputs.length := by
  cases s with
  | outer n => exact hexist.slot_of_outerSource h
  | inner host x n =>
    rcases mem_sites_inner.1 hs with ⟨hhost, hx, -⟩
    rcases Site.source_inner_cases h with ⟨l₀, o, hlink, horigin, rfl, hsame⟩ | ⟨i, l₀, hsource, hsame⟩
    · exact hsame ▸ (hexist.inner host hhost x hx).1.of_inLink? hlink horigin
    · exact hsame ▸ hexist.slot_of_outerSource hsource

end Workflow

open Workflow

/-- The slot of an effective producer is the position of one of its outputs. -/
theorem Site.slot_of_resolve {g : Workflow} (hexist : OutputsExist g) {s : Site}
    (hs : s ∈ sites g) {maxHops slot : Int} {r : Resolved}
    (h : s.resolve g maxHops slot = .ok (some r)) :
    r.site ∈ sites g ∧ ∃ a : ℕ, r.slot.val = a ∧ a < r.site.outputs.length := by
  rcases resolve_induction (fun t ht _ _ _ => hexist.slot_of_source ht) hs h with
    ⟨hmem, hslot, hsame⟩
  rw [hsame]
  exact ⟨hmem, hslot⟩

end NodeFlow
