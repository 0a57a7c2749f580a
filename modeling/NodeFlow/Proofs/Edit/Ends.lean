import Mathlib.Data.List.Nodup
import NodeFlow.Graph.Edit

/-!
# The ends of links

A link is written down three times: in the table of links, at the output that it leaves, and at the
input that it enters.  What an edit does to a graph is what it does to these three, slot by slot.

Main results:

- Definitions `Graph.listedAt?` and `Graph.heldAt?`: what an output lists and what an input holds.
- Definitions `Link.Leaves` and `Link.Enters`: the slots that a link names.
- Definitions `Graph.hold` and `Graph.relist` with what stands at every slot after them.
-/

namespace NodeFlow

private theorem NodeId.toJson_injective {a b : NodeId} (h : a.toJson = b.toJson) : a = b := by
  cases a <;> cases b <;> cases h <;> rfl

/-- The link leaves an output of the node that carries this id. -/
def Link.Leaves (l : Link) (id : NodeId) (i : Nat) : Prop :=
  l.origin = id.toJson ∧ l.originSlot.val = i

/-- The link enters an input of the node that carries this id. -/
def Link.Enters (l : Link) (id : NodeId) (j : Nat) : Prop :=
  l.target = id.toJson ∧ l.targetSlot.val = j

/-- A link leaves one output only. -/
theorem Link.Leaves.unique {l : Link} {id id' : NodeId} {i i' : Nat} (h : l.Leaves id i)
    (h' : l.Leaves id' i') : id = id' ∧ i = i' :=
  ⟨NodeId.toJson_injective (h.1.symm.trans h'.1), Int.ofNat.inj (h.2.symm.trans h'.2)⟩

/-- A link enters one input only. -/
theorem Link.Enters.unique {l : Link} {id id' : NodeId} {j j' : Nat} (h : l.Enters id j)
    (h' : l.Enters id' j') : id = id' ∧ j = j' :=
  ⟨NodeId.toJson_injective (h.1.symm.trans h'.1), Int.ofNat.inj (h.2.symm.trans h'.2)⟩

namespace Graph

variable {γ : Type}

/-! ## What stands at a slot -/

/-- The links that an output lists, if a node of this id has such an output. -/
def listedAt? (g : Graph γ) (id : NodeId) (i : Nat) : Option (List Int) :=
  ((g.at? id).bind (·.outputs[i]?)).map (·.links)

/-- What an input holds, if a node of this id has such an input. -/
def heldAt? (g : Graph γ) (id : NodeId) (j : Nat) : Option (Option Int) :=
  ((g.at? id).bind (·.inputs[j]?)).map (·.link)

/-- The link that arrives at an input. -/
def incoming? (g : Graph γ) (id : NodeId) (j : Nat) : Option Link :=
  (g.heldAt? id j).join.bind g.link?

section AtNode

variable {g : Graph γ} {id : NodeId} {n : Node γ} (h : g.at? id = some n)

include h

/-- What an output of a node lists. -/
theorem listedAt?_of_at? (i : Nat) : g.listedAt? id i = (n.outputs[i]?).map (·.links) := by
  rw [listedAt?, h, Option.bind_some]

/-- What an input of a node holds. -/
theorem heldAt?_of_at? (j : Nat) : g.heldAt? id j = (n.inputs[j]?).map (·.link) := by
  rw [heldAt?, h, Option.bind_some]

end AtNode

/-- What is held is held by an input of a node. -/
theorem exists_of_heldAt? {g : Graph γ} {id : NodeId} {j : Nat} {k : Option Int}
    (h : g.heldAt? id j = some k) :
    ∃ n s, g.at? id = some n ∧ n.inputs[j]? = some s ∧ s.link = k := by
  rcases Option.map_eq_some_iff.1 h with ⟨s, hs, hk⟩
  rcases Option.bind_eq_some_iff.1 hs with ⟨n, hn, hs⟩
  exact ⟨n, s, hn, hs, hk⟩

/-- What is listed is listed by an output of a node. -/
theorem exists_of_listedAt? {g : Graph γ} {id : NodeId} {i : Nat} {ks : List Int}
    (h : g.listedAt? id i = some ks) :
    ∃ n o, g.at? id = some n ∧ n.outputs[i]? = some o ∧ o.links = ks := by
  rcases Option.map_eq_some_iff.1 h with ⟨o, ho, hks⟩
  rcases Option.bind_eq_some_iff.1 ho with ⟨n, hn, ho⟩
  exact ⟨n, o, hn, ho, hks⟩

/-! ## Changes of one slot -/

/-- The input holds this number, or nothing. -/
def hold (id : NodeId) (j : Nat) (k : Option Int) (g : Graph γ) : Graph γ :=
  g.modifyNode id (Node.modifyInput j fun s => { s with link := k })

/-- The list of the output is changed. -/
def relist (id : NodeId) (i : Nat) (f : List Int → List Int) (g : Graph γ) : Graph γ :=
  g.modifyNode id (Node.modifyOutput i fun o => { o with links := f o.links })

/-- A change of one node is seen under its id only. -/
theorem at?_modifyNode {f : Node γ → Node γ} (hf : ∀ n, (f n).id = n.id) (g : Graph γ)
    (id id' : NodeId) :
    (g.modifyNode id f).at? id' = if id' = id then (g.at? id').map f else g.at? id' := by
  have hfind : ∀ ns : List (Node γ),
      (ns.map fun n => if n.id = id then f n else n).find? (·.id == id') =
        if id' = id then (ns.find? (·.id == id')).map f else ns.find? (·.id == id') := by
    intro ns
    induction ns with
    | nil => simp
    | cons n ns ih =>
      by_cases hn : n.id = id
      · by_cases hid : id' = id
        · subst hid
          simp [hn, hf]
        · have hne : id ≠ id' := fun he => hid he.symm
          simpa [hn, hf, hid, hne] using ih
      · by_cases hid : n.id = id'
        · subst hid
          simp [hn]
        · simpa [hn, hid] using ih
  exact hfind g.nodes

/-- What a change of a node keeps of it, it keeps of all nodes. -/
theorem map_modifyNode {β : Type} {F : Node γ → β} {f : Node γ → Node γ}
    (hf : ∀ n, F (f n) = F n) (g : Graph γ) (id : NodeId) :
    (g.modifyNode id f).nodes.map F = g.nodes.map F := by
  rw [modifyNode, List.map_map]
  refine List.map_congr_left fun n _ => ?_
  by_cases hn : n.id = id <;> simp [hn, hf]

/-- A change of one node that keeps ids keeps the ids of the graph. -/
theorem ids_modifyNode_of_id {f : Node γ → Node γ} (hf : ∀ n, (f n).id = n.id) (g : Graph γ)
    (id : NodeId) : (g.modifyNode id f).nodes.map (·.id) = g.nodes.map (·.id) :=
  map_modifyNode hf g id

section Hold

variable (g : Graph γ) (id : NodeId) (j : Nat) (k : Option Int)

@[simp] theorem links_hold : (g.hold id j k).links = g.links := rfl

@[simp] theorem lastLinkId_hold : (g.hold id j k).lastLinkId = g.lastLinkId := rfl

@[simp] theorem ids_hold : (g.hold id j k).nodes.map (·.id) = g.nodes.map (·.id) :=
  ids_modifyNode_of_id (Node.id_modifyInput j _) g id

@[simp] theorem listedAt?_hold (id' : NodeId) (i : Nat) :
    (g.hold id j k).listedAt? id' i = g.listedAt? id' i := by
  rw [listedAt?, hold, at?_modifyNode (Node.id_modifyInput j _)]
  split
  · cases hn : g.at? id' <;> simp [listedAt?, hn, Node.modifyInput]
  · rfl

/-- What is put into an input is held there and nowhere else. -/
theorem heldAt?_hold (id' : NodeId) (j' : Nat) :
    (g.hold id j k).heldAt? id' j' =
      if id' = id ∧ j' = j then (g.heldAt? id' j').map (fun _ => k) else g.heldAt? id' j' := by
  rw [heldAt?, hold, at?_modifyNode (Node.id_modifyInput j _)]
  by_cases hid : id' = id
  · cases hn : g.at? id' with
    | none => simp [hid, heldAt?, hid ▸ hn]
    | some n =>
      by_cases hj : j' = j
      · subst hj
        cases hs : n.inputs[j']? <;> simp [hid, heldAt?, hid ▸ hn, Node.modifyInput, hs]
      · have hne : j ≠ j' := fun he => hj he.symm
        simp [hid, hj, heldAt?, hid ▸ hn, Node.modifyInput, List.getElem?_modify_ne _ _ hne]
  · simp [hid, heldAt?]

end Hold

section Relist

variable (g : Graph γ) (id : NodeId) (i : Nat) (f : List Int → List Int)

@[simp] theorem links_relist : (g.relist id i f).links = g.links := rfl

@[simp] theorem lastLinkId_relist : (g.relist id i f).lastLinkId = g.lastLinkId := rfl

@[simp] theorem ids_relist : (g.relist id i f).nodes.map (·.id) = g.nodes.map (·.id) :=
  ids_modifyNode_of_id (Node.id_modifyOutput i _) g id

@[simp] theorem heldAt?_relist (id' : NodeId) (j : Nat) :
    (g.relist id i f).heldAt? id' j = g.heldAt? id' j := by
  rw [heldAt?, relist, at?_modifyNode (Node.id_modifyOutput i _)]
  split
  · cases hn : g.at? id' <;> simp [heldAt?, hn, Node.modifyOutput]
  · rfl

/-- A changed list is listed at its output and nowhere else. -/
theorem listedAt?_relist (id' : NodeId) (i' : Nat) :
    (g.relist id i f).listedAt? id' i' =
      if id' = id ∧ i' = i then (g.listedAt? id' i').map f else g.listedAt? id' i' := by
  rw [listedAt?, relist, at?_modifyNode (Node.id_modifyOutput i _)]
  by_cases hid : id' = id
  · cases hn : g.at? id' with
    | none => simp [hid, listedAt?, hid ▸ hn]
    | some n =>
      by_cases hi : i' = i
      · subst hi
        cases ho : n.outputs[i']? <;> simp [hid, listedAt?, hid ▸ hn, Node.modifyOutput, ho]
      · have hne : i ≠ i' := fun he => hi he.symm
        simp [hid, hi, listedAt?, hid ▸ hn, Node.modifyOutput, List.getElem?_modify_ne _ _ hne]
  · simp [hid, listedAt?]

end Relist

/-! ## Changes of the table -/

section Links

variable (g : Graph γ) (k : Int)

@[simp] theorem heldAt?_dropLink (id : NodeId) (j : Nat) :
    (g.dropLink k).heldAt? id j = g.heldAt? id j := rfl

@[simp] theorem listedAt?_dropLink (id : NodeId) (i : Nat) :
    (g.dropLink k).listedAt? id i = g.listedAt? id i := rfl

/-- The table without the entry of a number. -/
theorem mem_links_dropLink {l : Link} : l ∈ (g.dropLink k).links ↔ l ∈ g.links ∧ l.id.val ≠ k := by
  simp [dropLink]

end Links

end Graph

end NodeFlow
