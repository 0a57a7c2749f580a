import NodeFlow.Proofs.Edit.Ends
import NodeFlow.Proofs.Load.Names
import NodeFlow.Proofs.Outcome

/-!
# Links that are written down three times alike

A graph that is edited by adding nodes, connecting and disconnecting slots and removing nodes keeps
its three records of links in step: the table, the lists of the outputs and what the inputs hold.

Main results:

- Structure `Graph.Booked`: the three records agree.
- Definitions `Graph.unlink` and `Graph.enlink`: a link taken out of all three records, and put in.
- Theorems `Graph.Booked.unlink` and `Graph.Booked.enlink`: both keep the records in step.
-/

namespace NodeFlow

namespace Graph

variable {γ : Type} {g : Graph γ}

/-! ## The invariant -/

/-- The table of links, the lists of the outputs and what the inputs hold agree. -/
structure Booked (g : Graph γ) : Prop where
  ids : (g.nodes.map (·.id)).Nodup
  numbers : (g.links.map (·.id.val)).Nodup
  counted : ∀ l ∈ g.links, l.id.val ≤ g.lastLinkId.val
  leaves : ∀ l ∈ g.links, ∃ id i ks, l.Leaves id i ∧ g.listedAt? id i = some ks ∧ l.id.val ∈ ks
  enters : ∀ l ∈ g.links, ∃ id j, l.Enters id j ∧ g.heldAt? id j = some (some l.id.val)
  listed : ∀ id i ks, g.listedAt? id i = some ks →
    ks.Nodup ∧ ∀ k ∈ ks, ∃ l ∈ g.links, l.id.val = k ∧ l.Leaves id i
  held : ∀ id j k, g.heldAt? id j = some (some k) → ∃ l ∈ g.links, l.id.val = k ∧ l.Enters id j

namespace Booked

/-- Links are told apart by their numbers. -/
theorem eq_of_number (h : g.Booked) {l l' : Link} (hl : l ∈ g.links) (hl' : l' ∈ g.links)
    (hk : l.id.val = l'.id.val) : l = l' :=
  List.inj_on_of_nodup_map h.numbers hl hl' hk

/-- The link of a number is the one in the table. -/
theorem link?_eq_some_iff (h : g.Booked) {k : Int} {l : Link} :
    g.link? k = some l ↔ l ∈ g.links ∧ l.id.val = k := by
  constructor
  · intro hl
    exact ⟨List.mem_of_find?_eq_some hl, by simpa using List.find?_some hl⟩
  · rintro ⟨hl, rfl⟩
    exact link?_of_mem h.numbers hl

/-- A link that an input holds is in the table and enters this input. -/
theorem link?_of_held (h : g.Booked) {id : NodeId} {j : Nat} {k : Int}
    (hheld : g.heldAt? id j = some (some k)) :
    ∃ l, g.link? k = some l ∧ l ∈ g.links ∧ l.id.val = k ∧ l.Enters id j := by
  rcases h.held id j k hheld with ⟨l, hl, hk, henters⟩
  exact ⟨l, h.link?_eq_some_iff.2 ⟨hl, hk⟩, hl, hk, henters⟩

/-- The input that a link enters holds it. -/
theorem held_of_enters (h : g.Booked) {l : Link} (hl : l ∈ g.links) {id : NodeId} {j : Nat}
    (henters : l.Enters id j) : g.heldAt? id j = some (some l.id.val) := by
  rcases h.enters l hl with ⟨id', j', henters', hheld⟩
  rcases henters.unique henters' with ⟨rfl, rfl⟩
  exact hheld

/-- The output that a link leaves lists it. -/
theorem listed_of_leaves (h : g.Booked) {l : Link} (hl : l ∈ g.links) {id : NodeId} {i : Nat}
    (hleaves : l.Leaves id i) : ∃ ks, g.listedAt? id i = some ks ∧ l.id.val ∈ ks := by
  rcases h.leaves l hl with ⟨id', i', ks, hleaves', hlisted, hmem⟩
  rcases hleaves.unique hleaves' with ⟨rfl, rfl⟩
  exact ⟨ks, hlisted, hmem⟩

/-- An output lists no links but those that leave it. -/
theorem leaves_of_listed (h : g.Booked) {l : Link} (hl : l ∈ g.links) {id : NodeId} {i : Nat}
    {ks : List Int} (hlisted : g.listedAt? id i = some ks) (hmem : l.id.val ∈ ks) :
    l.Leaves id i := by
  rcases (h.listed id i ks hlisted).2 l.id.val hmem with ⟨l', hl', hk, hleaves⟩
  rwa [← h.eq_of_number hl' hl hk]

end Booked

/-! ## A link less -/

/-- The graph without the link of a number, which leads from one slot to another. -/
def unlink (k : Int) (o : NodeId) (i : Nat) (t : NodeId) (j : Nat) (g : Graph γ) : Graph γ :=
  relist o i (fun ks => ks.erase k) (hold t j none (g.dropLink k))

section Unlink

variable (k : Int) (o : NodeId) (i : Nat) (t : NodeId) (j : Nat)

/-- Without the link the input that it entered holds nothing, and all others hold what they held. -/
theorem heldAt?_unlink (id : NodeId) (j' : Nat) : (g.unlink k o i t j).heldAt? id j' =
    if id = t ∧ j' = j then (g.heldAt? id j').map (fun _ => none) else g.heldAt? id j' := by
  rw [unlink, heldAt?_relist, heldAt?_hold, heldAt?_dropLink]

/-- Without the link the output that it left does not list it, and all others list what they listed.
-/
theorem listedAt?_unlink (id : NodeId) (i' : Nat) : (g.unlink k o i t j).listedAt? id i' =
    if id = o ∧ i' = i then (g.listedAt? id i').map (fun ks => ks.erase k)
    else g.listedAt? id i' := by
  rw [unlink, listedAt?_relist, listedAt?_hold, listedAt?_dropLink]

/-- The table without the link of a number. -/
theorem mem_links_unlink {l : Link} :
    l ∈ (g.unlink k o i t j).links ↔ l ∈ g.links ∧ l.id.val ≠ k := mem_links_dropLink g k

private theorem ids_unlink : (g.unlink k o i t j).nodes.map (·.id) = g.nodes.map (·.id) := by
  rw [unlink, ids_relist, ids_hold]
  rfl

end Unlink

/-- All other links stay in the table. -/
theorem Booked.mem_links_unlink_of_ne (h : g.Booked) {l m : Link} (hl : l ∈ g.links)
    (hm : m ∈ g.links) (hne : m ≠ l) (o : NodeId) (i : Nat) (t : NodeId) (j : Nat) :
    m ∈ (g.unlink l.id.val o i t j).links :=
  (mem_links_unlink ..).2 ⟨hm, fun hsame => hne (h.eq_of_number hm hl hsame)⟩

/-- A link less keeps the three records in step. -/
theorem Booked.unlink (h : g.Booked) {l : Link} (hl : l ∈ g.links) {o t : NodeId} {i j : Nat}
    (hleaves : l.Leaves o i) (henters : l.Enters t j) :
    (g.unlink l.id.val o i t j).Booked where
  ids := by
    rw [ids_unlink]
    exact h.ids
  numbers := (List.filter_sublist.map _).nodup h.numbers
  counted m hm := h.counted m ((mem_links_unlink ..).1 hm).1
  leaves := by
    intro m hm
    rcases (mem_links_unlink ..).1 hm with ⟨hm, hne⟩
    rcases h.leaves m hm with ⟨id, i', ks, hm', hlisted, hmem⟩
    by_cases hslot : id = o ∧ i' = i
    · refine ⟨id, i', ks.erase l.id.val, hm', ?_, (List.mem_erase_of_ne hne).2 hmem⟩
      rw [listedAt?_unlink, if_pos hslot, hlisted, Option.map_some]
    · refine ⟨id, i', ks, hm', ?_, hmem⟩
      rw [listedAt?_unlink, if_neg hslot, hlisted]
  enters := by
    intro m hm
    rcases (mem_links_unlink ..).1 hm with ⟨hm, hne⟩
    rcases h.enters m hm with ⟨id, j', hm', hheld⟩
    refine ⟨id, j', hm', ?_⟩
    rw [heldAt?_unlink, if_neg, hheld]
    rintro ⟨rfl, rfl⟩
    have hboth := hheld.symm.trans (h.held_of_enters hl henters)
    exact hne (Option.some.inj (Option.some.inj hboth))
  listed := by
    intro id i' ks hlisted
    rw [listedAt?_unlink] at hlisted
    split at hlisted
    · rename_i hslot
      rcases Option.map_eq_some_iff.1 hlisted with ⟨ks', hks', rfl⟩
      rcases h.listed id i' ks' hks' with ⟨hnodup, hknown⟩
      refine ⟨hnodup.erase _, fun k hk => ?_⟩
      rcases (List.Nodup.mem_erase_iff hnodup).1 hk with ⟨hne, hk⟩
      rcases hknown k hk with ⟨m, hm, hnumber, hm'⟩
      exact ⟨m, (mem_links_unlink ..).2 ⟨hm, hnumber ▸ hne⟩, hnumber, hm'⟩
    · rename_i hslot
      rcases h.listed id i' ks hlisted with ⟨hnodup, hknown⟩
      refine ⟨hnodup, fun k hk => ?_⟩
      rcases hknown k hk with ⟨m, hm, hnumber, hm'⟩
      refine ⟨m, h.mem_links_unlink_of_ne hl hm ?_ .., hnumber, hm'⟩
      rintro rfl
      exact hslot (hm'.unique hleaves)
  held := by
    intro id j' k hheld
    rw [heldAt?_unlink] at hheld
    split at hheld
    · rcases Option.map_eq_some_iff.1 hheld with ⟨_, -, hnone⟩
      cases hnone
    · rename_i hslot
      rcases h.held id j' k hheld with ⟨m, hm, hnumber, hm'⟩
      refine ⟨m, h.mem_links_unlink_of_ne hl hm ?_ .., hnumber, hm'⟩
      rintro rfl
      exact hslot (hm'.unique henters)

/-! ## A link more -/

/-- The graph with a link that leads from one slot to another. -/
def enlink (l : Link) (o : NodeId) (i : Nat) (t : NodeId) (j : Nat) (g : Graph γ) : Graph γ :=
  hold t j (some l.id.val) (relist o i (fun ks => ks ++ [l.id.val]) (g.putLink l))

section Enlink

variable (l : Link) (o : NodeId) (i : Nat) (t : NodeId) (j : Nat)

/-- With the link the input that it enters holds it, and all others hold what they held. -/
theorem heldAt?_enlink (id : NodeId) (j' : Nat) : (g.enlink l o i t j).heldAt? id j' =
    if id = t ∧ j' = j then (g.heldAt? id j').map (fun _ => some l.id.val)
    else g.heldAt? id j' := by
  rw [enlink, heldAt?_hold, heldAt?_relist]
  rfl

private theorem listedAt?_enlink (id : NodeId) (i' : Nat) : (g.enlink l o i t j).listedAt? id i' =
    if id = o ∧ i' = i then (g.listedAt? id i').map (fun ks => ks ++ [l.id.val])
    else g.listedAt? id i' := by
  rw [enlink, listedAt?_hold, listedAt?_relist]
  rfl

private theorem ids_enlink : (g.enlink l o i t j).nodes.map (·.id) = g.nodes.map (·.id) := by
  rw [enlink, ids_hold, ids_relist]
  rfl

/-- A new link comes last in the table. -/
theorem links_enlink (hfresh : ∀ m ∈ g.links, m.id.val ≠ l.id.val) :
    (g.enlink l o i t j).links = g.links ++ [l] := by
  have hany : g.links.any (·.id.val == l.id.val) = false := by
    rw [List.any_eq_false]
    intro m hm hsame
    exact hfresh m hm (by simpa using hsame)
  rw [enlink, links_hold, links_relist, putLink, hany]
  rfl

private theorem mem_links_enlink (hfresh : ∀ m ∈ g.links, m.id.val ≠ l.id.val) {m : Link} :
    m ∈ (g.enlink l o i t j).links ↔ m ∈ g.links ∨ m = l := by
  rw [links_enlink l o i t j hfresh, List.mem_append, List.mem_singleton]

end Enlink

/-- A link more keeps the three records in step. -/
theorem Booked.enlink (h : g.Booked) {l : Link} (hfresh : ∀ m ∈ g.links, m.id.val ≠ l.id.val)
    (hcounted : l.id.val ≤ g.lastLinkId.val) {o t : NodeId} {i j : Nat} (hleaves : l.Leaves o i)
    (henters : l.Enters t j) {ks : List Int} (hlisted : g.listedAt? o i = some ks)
    (hheld : g.heldAt? t j = some none) : (g.enlink l o i t j).Booked where
  ids := by
    rw [ids_enlink]
    exact h.ids
  numbers := by
    rw [links_enlink l o i t j hfresh]
    exact nodup_map_append_singleton h.numbers hfresh
  counted := by
    intro m hm
    rcases (mem_links_enlink l o i t j hfresh).1 hm with hm | rfl
    · exact h.counted m hm
    · exact hcounted
  leaves := by
    intro m hm
    rcases (mem_links_enlink l o i t j hfresh).1 hm with hm | rfl
    · rcases h.leaves m hm with ⟨id, i', ks', hm', hks', hmem⟩
      by_cases hslot : id = o ∧ i' = i
      · refine ⟨id, i', ks' ++ [l.id.val], hm', ?_, List.mem_append_left _ hmem⟩
        rw [listedAt?_enlink, if_pos hslot, hks', Option.map_some]
      · refine ⟨id, i', ks', hm', ?_, hmem⟩
        rw [listedAt?_enlink, if_neg hslot, hks']
    · refine ⟨o, i, ks ++ [m.id.val], hleaves, ?_, by simp⟩
      rw [listedAt?_enlink, if_pos ⟨rfl, rfl⟩, hlisted, Option.map_some]
  enters := by
    intro m hm
    rcases (mem_links_enlink l o i t j hfresh).1 hm with hm | rfl
    · rcases h.enters m hm with ⟨id, j', hm', hheld'⟩
      refine ⟨id, j', hm', ?_⟩
      rw [heldAt?_enlink, if_neg, hheld']
      rintro ⟨rfl, rfl⟩
      rw [hheld] at hheld'
      cases hheld'
    · refine ⟨t, j, henters, ?_⟩
      rw [heldAt?_enlink, if_pos ⟨rfl, rfl⟩, hheld, Option.map_some]
  listed := by
    have hmem : ∀ {m : Link}, m ∈ (g.enlink l o i t j).links ↔ m ∈ g.links ∨ m = l :=
      mem_links_enlink l o i t j hfresh
    intro id i' ks' hks'
    rw [listedAt?_enlink] at hks'
    split at hks'
    · rename_i hslot
      rcases hslot with ⟨rfl, rfl⟩
      rcases Option.map_eq_some_iff.1 hks' with ⟨ks'', hks'', rfl⟩
      rcases h.listed id i' ks'' hks'' with ⟨hnodup, hknown⟩
      constructor
      · rw [← List.concat_eq_append, List.nodup_concat]
        refine ⟨fun hk => ?_, hnodup⟩
        rcases hknown _ hk with ⟨m, hm, hnumber, -⟩
        exact hfresh m hm hnumber
      · intro k hk
        rcases List.mem_append.1 hk with hk | hk
        · rcases hknown k hk with ⟨m, hm, hnumber, hm'⟩
          exact ⟨m, hmem.2 (.inl hm), hnumber, hm'⟩
        · exact ⟨l, hmem.2 (.inr rfl), (List.mem_singleton.1 hk).symm, hleaves⟩
    · rcases h.listed id i' ks' hks' with ⟨hnodup, hknown⟩
      refine ⟨hnodup, fun k hk => ?_⟩
      rcases hknown k hk with ⟨m, hm, hnumber, hm'⟩
      exact ⟨m, hmem.2 (.inl hm), hnumber, hm'⟩
  held := by
    have hmem : ∀ {m : Link}, m ∈ (g.enlink l o i t j).links ↔ m ∈ g.links ∨ m = l :=
      mem_links_enlink l o i t j hfresh
    intro id j' k hk
    rw [heldAt?_enlink] at hk
    split at hk
    · rename_i hslot
      rcases hslot with ⟨rfl, rfl⟩
      rcases Option.map_eq_some_iff.1 hk with ⟨_, -, hnumber⟩
      exact ⟨l, hmem.2 (.inr rfl), Option.some.inj hnumber, henters⟩
    · rcases h.held id j' k hk with ⟨m, hm, hnumber, hm'⟩
      exact ⟨m, hmem.2 (.inl hm), hnumber, hm'⟩

end Graph

end NodeFlow
