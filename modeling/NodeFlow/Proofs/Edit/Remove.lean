import NodeFlow.Proofs.Edit.Connect

/-!
# Removing nodes

Before a node goes, its inputs are emptied and the links that leave its outputs are cut at their far
ends.  Where the records of links agree none of these steps fails, so that no link is left behind
that names the node.

Main results:

- Theorem `Act.exec_each`: an action for every item of a list, where each sees to its own item.
- Structure `Graph.Trims`: links at a node go, and nothing else happens.
- Theorem `Graph.Booked.filter`: a node at which no link stands may go.
- Theorem `Workflow.exec_remove`: what removing a node comes to.
-/

namespace NodeFlow

/-- Where each action succeeds and keeps what those before it saw to, all of them do. -/
theorem Act.exec_each {σ α : Type} {f : α → Act σ PUnit} {P : σ → Prop} {Q : α → σ → Prop}
    {xs : List α} (hstep : ∀ x ∈ xs, ∀ s, P s → ∃ s', (f x).exec s = (.ok ⟨⟩, s') ∧ P s' ∧ Q x s' ∧
      ∀ y, Q y s → Q y s') {s : σ} (hs : P s) :
    ∃ s', (Act.each xs f).exec s = (.ok ⟨⟩, s') ∧ P s' ∧ (∀ x ∈ xs, Q x s') ∧
      ∀ y, Q y s → Q y s' := by
  induction xs generalizing s with
  | nil => exact ⟨s, rfl, hs, fun x hx => absurd hx List.not_mem_nil, fun _ h => h⟩
  | cons x xs ih =>
    rcases hstep x List.mem_cons_self s hs with ⟨t, hexec, ht, hx, hkept⟩
    rcases ih (fun y hy => hstep y (List.mem_cons_of_mem x hy)) ht with
      ⟨u, hexec', hu, hxs, hkept'⟩
    refine ⟨u, ?_, hu, ?_, fun y hy => hkept' y (hkept y hy)⟩
    · rw [Act.each, Act.exec_bind, hexec]
      exact hexec'
    · intro y hy
      rcases List.mem_cons.1 hy with rfl | hy
      · exact hkept' y hx
      · exact hxs y hy

namespace Graph

variable {γ : Type} {g g' g'' : Graph γ} {r : NodeId}

/-! ## Links that go -/

/-- The second graph comes from the first by taking out links that enter or leave a node. -/
structure Trims (r : NodeId) (g g' : Graph γ) : Prop where
  booked : g'.Booked
  counter : g'.lastLinkId = g.lastLinkId
  links : ∀ l ∈ g'.links, l ∈ g.links
  held : ∀ id j, g'.heldAt? id j = g.heldAt? id j ∨ g'.heldAt? id j = some none ∧
    ∃ l ∈ g.links, l.Enters id j ∧ (id = r ∨ l.origin = r.toJson)

namespace Trims

private theorem refl (h : g.Booked) : Trims r g g :=
  ⟨h, rfl, fun _ hl => hl, fun _ _ => .inl rfl⟩

private theorem trans (h : Trims r g g') (h' : Trims r g' g'') : Trims r g g'' where
  booked := h'.booked
  counter := h'.counter.trans h.counter
  links l hl := h.links l (h'.links l hl)
  held id j := by
    rcases h'.held id j with hsame | ⟨hnone, l, hl, hwhy⟩
    · rw [hsame]
      exact h.held id j
    · exact .inr ⟨hnone, l, h.links l hl, hwhy⟩

private theorem unlink (h : g.Booked) {l : Link} (hl : l ∈ g.links) {o t : NodeId} {i j : Nat}
    (hleaves : l.Leaves o i) (henters : l.Enters t j) (hr : t = r ∨ l.origin = r.toJson) :
    Trims r g (g.unlink l.id.val o i t j) where
  booked := h.unlink hl hleaves henters
  counter := rfl
  links m hm := ((mem_links_unlink ..).1 hm).1
  held id j' := by
    rw [heldAt?_unlink]
    split
    · rename_i hslot
      rcases hslot with ⟨rfl, rfl⟩
      refine .inr ⟨?_, l, hl, henters, hr⟩
      rw [h.held_of_enters hl henters, Option.map_some]
    · exact .inl rfl

/-- An input stays an input. -/
theorem exists_held (h : Trims r g g') {id : NodeId} {j : Nat} {k : Option Int}
    (hk : g.heldAt? id j = some k) : ∃ k', g'.heldAt? id j = some k' := by
  rcases h.held id j with hsame | ⟨hnone, -⟩
  · exact ⟨k, hsame.trans hk⟩
  · exact ⟨none, hnone⟩

end Trims

/-! ## A node that goes -/

private theorem at?_filter (g : Graph γ) (r id : NodeId) :
    ({ g with nodes := g.nodes.filter fun m => m.id != r } : Graph γ).at? id =
      if id = r then none else g.at? id := by
  simp only [at?, List.find?_filter]
  split
  · rename_i hid
    subst hid
    rw [List.find?_eq_none]
    intro m _ hm
    simp at hm
  · rename_i hid
    congr 1
    funext m
    by_cases hm : m.id = id
    · simp [hm, hid]
    · simp [hm]

private theorem heldAt?_filter (g : Graph γ) (r id : NodeId) (j : Nat) :
    ({ g with nodes := g.nodes.filter fun m => m.id != r } : Graph γ).heldAt? id j =
      if id = r then none else g.heldAt? id j := by
  rw [heldAt?, at?_filter]
  split <;> rfl

private theorem listedAt?_filter (g : Graph γ) (r id : NodeId) (i : Nat) :
    ({ g with nodes := g.nodes.filter fun m => m.id != r } : Graph γ).listedAt? id i =
      if id = r then none else g.listedAt? id i := by
  rw [listedAt?, at?_filter]
  split <;> rfl

/-- A node at which no link stands may go. -/
theorem Booked.filter (h : g.Booked) (hleaves : ∀ l ∈ g.links, ∀ i, ¬ l.Leaves r i)
    (henters : ∀ l ∈ g.links, ∀ j, ¬ l.Enters r j) :
    ({ g with nodes := g.nodes.filter fun m => m.id != r } : Graph γ).Booked where
  ids := (List.filter_sublist.map _).nodup h.ids
  numbers := h.numbers
  counted := h.counted
  leaves := by
    intro l hl
    rcases h.leaves l hl with ⟨id, i, ks, hl', hlisted, hmem⟩
    refine ⟨id, i, ks, hl', ?_, hmem⟩
    rw [listedAt?_filter, if_neg, hlisted]
    rintro rfl
    exact hleaves l hl i hl'
  enters := by
    intro l hl
    rcases h.enters l hl with ⟨id, j, hl', hheld⟩
    refine ⟨id, j, hl', ?_⟩
    rw [heldAt?_filter, if_neg, hheld]
    rintro rfl
    exact henters l hl j hl'
  listed := by
    intro id i ks hlisted
    rw [listedAt?_filter] at hlisted
    split at hlisted
    · cases hlisted
    · exact h.listed id i ks hlisted
  held := by
    intro id j k hheld
    rw [heldAt?_filter] at hheld
    split at hheld
    · cases hheld
    · exact h.held id j k hheld

end Graph

namespace Workflow

open NodeFlow.Graph

variable {g : Workflow} {r : NodeId}

/-! ## The steps of removing -/

/-- An input of the node is emptied. -/
theorem exec_disconnect_trims (h : g.Booked) {j : Nat} {k : Option Int}
    (hk : g.heldAt? r j = some k) :
    ∃ g', (disconnect (.outer r) j).exec g = (.ok ⟨⟩, g') ∧ Trims r g g' ∧
      ∀ l ∈ g'.links, ¬ l.Enters r j := by
  rcases exists_of_heldAt? hk with ⟨n, s, hn, hs, -⟩
  have hj : j < n.inputs.length := (List.getElem?_eq_some_iff.1 hs).1
  rcases exec_disconnect h hn (position?_ofNat hj) with
    ⟨hfree, hexec⟩ | ⟨l, hl, o, i, hleaves, henters, hexec⟩
  · refine ⟨g, hexec, .refl h, fun l hl henters => ?_⟩
    have hheld := hfree.symm.trans (h.held_of_enters hl henters)
    cases hheld
  · refine ⟨_, hexec, .unlink h hl hleaves henters (.inl rfl), fun m hm henters' => ?_⟩
    rcases (mem_links_unlink ..).1 hm with ⟨hm, hne⟩
    have hsame := (h.held_of_enters hm henters').symm.trans (h.held_of_enters hl henters)
    exact hne (Option.some.inj (Option.some.inj hsame))

/-- A link that leaves the node is cut at its far end. -/
theorem exec_cutLink (h : g.Booked) {k : Int}
    (hk : ∀ l ∈ g.links, l.id.val = k → l.origin = r.toJson) :
    ∃ g', (cutLink k).exec g = (.ok ⟨⟩, g') ∧ Trims r g g' ∧ ∀ l ∈ g'.links, l.id.val ≠ k := by
  cases hl : g.link? k with
  | none =>
    refine ⟨g, ?_, .refl h, fun l hmem hnumber => ?_⟩
    · simp only [cutLink, Act.exec_bind, Act.exec_get, hl, Act.exec_pure]
    · rw [h.link?_eq_some_iff.2 ⟨hmem, hnumber⟩] at hl
      cases hl
  | some l =>
    rcases h.link?_eq_some_iff.1 hl with ⟨hmem, rfl⟩
    rcases h.enters l hmem with ⟨t, j, henters, hheld⟩
    rcases exists_of_heldAt? hheld with ⟨n, s, hn, hs, -⟩
    have hj : j < n.inputs.length := (List.getElem?_eq_some_iff.1 hs).1
    have hlookup : g.lookup? l.target = .ok (some n) := by
      rw [henters.1]
      exact lookup?_of_at? hn
    have hcut : (cutLink l.id.val).exec g = (disconnect (.outer t) j).exec g := by
      simp only [cutLink, Act.exec_bind, Act.exec_get, hl, Act.exec_lift, hlookup, id_of_at? hn,
        henters.2]
    rw [hcut]
    rcases exec_disconnect h hn (position?_ofNat hj) with
      ⟨hfree, -⟩ | ⟨m, hm, o, i, hleaves, henters', hexec⟩
    · rw [hfree] at hheld
      cases hheld
    · have hsame := (h.held_of_enters hm henters').symm.trans hheld
      cases h.eq_of_number hm hmem (Option.some.inj (Option.some.inj hsame))
      exact ⟨_, hexec, .unlink h hmem hleaves henters (.inr (hk l hmem rfl)), fun l' hl' =>
        ((mem_links_unlink ..).1 hl').2⟩

/-- The links that leave an output of the node are cut. -/
theorem exec_cutOutput (h : g.Booked) (i : Nat) :
    ∃ g', (cutOutput (.outer r) i).exec g = (.ok ⟨⟩, g') ∧ Trims r g g' ∧
      ∀ l ∈ g'.links, ¬ l.Leaves r i := by
  cases ho : (siteAt? g (.outer r)).bind (·.outputs[i]?) with
  | none =>
    refine ⟨g, ?_, .refl h, fun l hl hleaves => ?_⟩
    · simp only [cutOutput, Act.exec_bind, Act.exec_get, ho, Act.exec_pure]
    · rcases h.listed_of_leaves hl hleaves with ⟨ks, hlisted, -⟩
      rcases exists_of_listedAt? hlisted with ⟨n, o, hn, ho', -⟩
      rw [siteAt?_outer, hn, Option.map_some, Option.bind_some, Site.outputs, ho'] at ho
      cases ho
  | some o =>
    have hlisted : g.listedAt? r i = some o.links := by
      rcases Option.bind_eq_some_iff.1 ho with ⟨_, hsite, ho⟩
      rcases Option.map_eq_some_iff.1 hsite with ⟨n, hn, rfl⟩
      rw [listedAt?_of_at? hn, show n.outputs[i]? = some o from ho, Option.map_some]
    have hstep : ∀ k ∈ o.links, ∀ g', Trims r g g' → ∃ g'', (cutLink k).exec g' = (.ok ⟨⟩, g'') ∧
        Trims r g g'' ∧ (∀ l ∈ g''.links, l.id.val ≠ k) ∧
        ∀ k', (∀ l ∈ g'.links, l.id.val ≠ k') → ∀ l ∈ g''.links, l.id.val ≠ k' := by
      intro k hk g' htrims
      have hfrom : ∀ l ∈ g'.links, l.id.val = k → l.origin = r.toJson := by
        rintro l hl rfl
        exact (h.leaves_of_listed (htrims.links l hl) hlisted hk).1
      rcases exec_cutLink htrims.booked hfrom with ⟨g'', hexec, htrims', hgone⟩
      exact ⟨g'', hexec, htrims.trans htrims', hgone, fun k' hk' l hl => hk' l (htrims'.links l hl)⟩
    rcases Act.exec_each hstep (.refl h) with ⟨g', hexec, htrims, hgone, -⟩
    refine ⟨g', ?_, htrims, fun l hl hleaves => ?_⟩
    · simp only [cutOutput, Act.exec_bind, Act.exec_get, ho]
      exact hexec
    · rcases h.listed_of_leaves (htrims.links l hl) hleaves with ⟨ks, hlisted', hmem⟩
      rw [hlisted, Option.some.injEq] at hlisted'
      exact hgone l.id.val (hlisted' ▸ hmem) l hl rfl

private theorem nodes_cutOff_filter (g : Workflow) (r : NodeId) :
    ((cutOff (.outer r) g).nodes.filter fun m => m.id != r) =
      g.nodes.filter fun m => m.id != r := by
  have hnodes : (cutOff (.outer r) g).nodes =
      g.nodes.map fun m => if m.id = r then { m with isCutOff := true } else m := rfl
  rw [hnodes]
  induction g.nodes with
  | nil => rfl
  | cons m ms ih => by_cases hm : m.id = r <;> simp [hm, ih]

/-- The inputs of a node are emptied. -/
theorem exec_disconnectEach (h : g.Booked) {n : Node Group} (hn : g.at? r = some n) :
    ∃ g', (Act.each (List.range n.inputs.length) (disconnect (.outer r) ·)).exec g = (.ok ⟨⟩, g') ∧
      Trims r g g' ∧ ∀ l ∈ g'.links, ∀ j, ¬ l.Enters r j := by
  have hstep : ∀ j ∈ List.range n.inputs.length, ∀ g', Trims r g g' →
      ∃ g'', (disconnect (.outer r) j).exec g' = (.ok ⟨⟩, g'') ∧ Trims r g g'' ∧
        (∀ l ∈ g''.links, ¬ l.Enters r j) ∧
        ∀ j' : Nat, (∀ l ∈ g'.links, ¬ l.Enters r j') → ∀ l ∈ g''.links, ¬ l.Enters r j' := by
    intro j hj g' htrims
    have hlt : j < n.inputs.length := List.mem_range.1 hj
    have hheld : g.heldAt? r j = some (n.inputs[j]).link := by
      rw [heldAt?_of_at? hn, List.getElem?_eq_getElem hlt, Option.map_some]
    rcases htrims.exists_held hheld with ⟨k, hk⟩
    rcases exec_disconnect_trims htrims.booked hk with ⟨g'', hexec, htrims', hgone⟩
    exact ⟨g'', hexec, htrims.trans htrims', hgone, fun j' hj' l hl => hj' l (htrims'.links l hl)⟩
  rcases Act.exec_each hstep (.refl h) with ⟨g', hexec, htrims, hgone, -⟩
  refine ⟨g', hexec, htrims, fun l hl j hlj => ?_⟩
  have hheld := h.held_of_enters (htrims.links l hl) hlj
  rcases exists_of_heldAt? hheld with ⟨n', s, hn', hs, -⟩
  cases hn.symm.trans hn'
  have hj : j < n.inputs.length := (List.getElem?_eq_some_iff.1 hs).1
  exact hgone j (List.mem_range.2 hj) l hl hlj

/-- The outputs of a node are emptied. -/
theorem exec_cutEach (h : g.Booked) {n : Node Group} (hn : g.at? r = some n) {g₁ : Workflow}
    (htrims₁ : Trims r g g₁) :
    ∃ g', (Act.each (List.range n.outputs.length) (cutOutput (.outer r))).exec g₁ = (.ok ⟨⟩, g') ∧
      Trims r g₁ g' ∧ ∀ l ∈ g'.links, ∀ i, ¬ l.Leaves r i := by
  have hstep : ∀ i ∈ List.range n.outputs.length, ∀ g', Trims r g₁ g' →
      ∃ g'', (cutOutput (.outer r) i).exec g' = (.ok ⟨⟩, g'') ∧ Trims r g₁ g'' ∧
        (∀ l ∈ g''.links, ¬ l.Leaves r i) ∧
        ∀ i', (∀ l ∈ g'.links, ¬ l.Leaves r i') → ∀ l ∈ g''.links, ¬ l.Leaves r i' := by
    intro i _ g' htrims
    rcases exec_cutOutput htrims.booked i with ⟨g'', hexec, htrims', hgone⟩
    exact ⟨g'', hexec, htrims.trans htrims', hgone, fun i' hi' l hl => hi' l (htrims'.links l hl)⟩
  rcases Act.exec_each hstep (.refl htrims₁.booked) with ⟨g', hexec, htrims, hgone, -⟩
  refine ⟨g', hexec, htrims, fun l hl i hli => ?_⟩
  rcases h.listed_of_leaves ((htrims₁.trans htrims).links l hl) hli with ⟨ks, hlisted, -⟩
  rcases exists_of_listedAt? hlisted with ⟨n', o, hn', ho, -⟩
  cases hn.symm.trans hn'
  have hi : i < n.outputs.length := (List.getElem?_eq_some_iff.1 ho).1
  exact hgone i (List.mem_range.2 hi) l hl hli

/-- A node is removed with the links that stand at it.  Of the inputs of other nodes, those that it
fed are emptied. -/
theorem exec_remove (h : g.Booked) {n : Node Group} (hn : g.at? r = some n) :
    ∃ g', (remove (.outer r)).exec g = (.ok ⟨⟩, g') ∧ g'.at? r = none ∧
      Spares (fun id j => id = r ∨ ∃ l ∈ g.links, l.Enters id j ∧ l.origin = r.toJson) g g' := by
  rcases exec_disconnectEach h hn with ⟨g₁, hexec₁, htrims₁, henters₁⟩
  rcases exec_cutEach h hn htrims₁ with ⟨g₂, hexec₂, htrims₂, hleaves⟩
  have htrims := htrims₁.trans htrims₂
  have henters : ∀ l ∈ g₂.links, ∀ j, ¬ l.Enters r j := fun l hl =>
    henters₁ l (htrims₂.links l hl)
  let g₃ : Workflow := { g₂ with nodes := g₂.nodes.filter fun m => m.id != r }
  have hexec : (remove (.outer r)).exec g = (.ok ⟨⟩, g₃) := by
    simp only [remove, Act.exec_bind, Act.exec_get, siteAt?_outer, hn, Option.map_some,
      Site.inputs, Site.outputs, hexec₁, hexec₂, Act.exec_modify, Place.node, nodes_cutOff_filter]
    rfl
  refine ⟨g₃, hexec, ?_, htrims.booked.filter hleaves henters, ?_, ?_, ?_⟩
  · rw [at?_filter, if_pos rfl]
  · rw [show g₃.lastLinkId = g.lastLinkId from htrims.counter]
  · -- an input of another node is emptied only where a link that went had entered it
    intro id j hother
    rw [show g₃.heldAt? id j = if id = r then none else g₂.heldAt? id j from heldAt?_filter ..,
      if_neg fun hid => hother (.inl hid)]
    rcases htrims.held id j with hsame | ⟨-, l, hl, hlj, hid | horigin⟩
    · rw [hsame]
    · exact absurd (.inl hid) hother
    · exact absurd (.inr ⟨l, hl, hlj, horigin⟩) hother
  · exact fun l hl => .inl (htrims.links l hl)

end Workflow

end NodeFlow
