import NodeFlow.Proofs.Edit.Bookkeeping

/-!
# Adding nodes, connecting and disconnecting

What the edits of a graph whose records of links agree come to: a node more, a link less, or a link
more in place of the one that the input held.  All of them spare the inputs that they are not about.

Main results:

- Structure `Graph.Spares`: what an edit leaves as it is.
- Theorems `Graph.Booked.add` and `Workflow.exec_disconnect`.
- Theorem `Workflow.exec_connect`: what connecting two slots comes to.
-/

namespace NodeFlow

/-- No slot of the node holds a link. -/
def Node.IsUnlinked {γ : Type} (n : Node γ) : Prop :=
  (∀ s ∈ n.inputs, s.link = none) ∧ ∀ o ∈ n.outputs, o.links = []

namespace Graph

variable {γ : Type} {g g' g'' : Graph γ}

/-! ## What is spared -/

/-- The second graph comes from the first by an edit that is about some inputs only. -/
structure Spares (touched : NodeId → Nat → Prop) (g g' : Graph γ) : Prop where
  booked : g'.Booked
  counter : g.lastLinkId.val ≤ g'.lastLinkId.val
  held : ∀ id j, ¬ touched id j → (g'.heldAt? id j).join = (g.heldAt? id j).join
  links : ∀ l ∈ g'.links, l ∈ g.links ∨ g.lastLinkId.val < l.id.val

namespace Spares

variable {touched : NodeId → Nat → Prop}

/-- An edit that does nothing spares everything. -/
theorem refl (h : g.Booked) : Spares touched g g :=
  ⟨h, le_refl _, fun _ _ _ => rfl, fun _ hl => .inl hl⟩

private theorem trans (h : Spares touched g g') (h' : Spares touched g' g'') :
    Spares touched g g'' where
  booked := h'.booked
  counter := h.counter.trans h'.counter
  held id j hj := (h'.held id j hj).trans (h.held id j hj)
  links := by
    intro l hl
    rcases h'.links l hl with hl | hlt
    · exact h.links l hl
    · exact .inr (h.counter.trans_lt hlt)

/-- An edit may be said to be about more inputs. -/
theorem mono {touched' : NodeId → Nat → Prop} (h : Spares touched g g')
    (hle : ∀ id j, touched id j → touched' id j) : Spares touched' g g' :=
  ⟨h.booked, h.counter, fun id j hj => h.held id j fun hj' => hj (hle id j hj'), h.links⟩

/-- An input that the edit is not about keeps its link. -/
theorem incoming? (h : Spares touched g g') (hg : g.Booked) {id : NodeId} {j : Nat}
    (hj : ¬ touched id j) : g'.incoming? id j = g.incoming? id j := by
  have hheld := h.held id j hj
  rw [Graph.incoming?, Graph.incoming?, hheld]
  cases hk : (g.heldAt? id j).join with
  | none => rfl
  | some k =>
    rw [hk, Option.join_eq_some_iff] at hheld
    rw [Option.join_eq_some_iff] at hk
    rcases h.booked.link?_of_held hheld with ⟨l, hl, hmem, hnumber, -⟩
    rcases hg.link?_of_held hk with ⟨m, hm, hmem', hnumber', -⟩
    rw [Option.bind_some, Option.bind_some, hl]
    rcases h.links l hmem with hold | hlt
    · exact (hg.link?_eq_some_iff.2 ⟨hold, hnumber⟩).symm
    · have hle := hg.counted m hmem'
      omega

end Spares

/-- The agreement of records depends on what they hold only. -/
theorem Booked.of_records (h : g.Booked) (hids : g'.nodes.map (·.id) = g.nodes.map (·.id))
    (hlinks : g'.links = g.links) (hheld : ∀ id j, g'.heldAt? id j = g.heldAt? id j)
    (hlisted : ∀ id i, g'.listedAt? id i = g.listedAt? id i)
    (hcounter : g.lastLinkId.val ≤ g'.lastLinkId.val) : g'.Booked := by
  refine ⟨?_, ?_, ?_, ?_, ?_, ?_, ?_⟩
  · rw [hids]
    exact h.ids
  · rw [hlinks]
    exact h.numbers
  · rw [hlinks]
    exact fun l hl => (h.counted l hl).trans hcounter
  · simpa only [hlinks, hlisted] using h.leaves
  · simpa only [hlinks, hheld] using h.enters
  · simpa only [hlinks, hlisted] using h.listed
  · simpa only [hlinks, hheld] using h.held

private theorem Booked.of_same (h : g.Booked) (hnodes : g'.nodes = g.nodes)
    (hlinks : g'.links = g.links)
    (hcounter : g.lastLinkId.val ≤ g'.lastLinkId.val) : g'.Booked := by
  have hat : ∀ id, g'.at? id = g.at? id := by
    intro id
    rw [at?, at?, hnodes]
  refine h.of_records (by rw [hnodes]) hlinks (fun id j => ?_) (fun id i => ?_) hcounter
  · rw [heldAt?, heldAt?, hat]
  · rw [listedAt?, listedAt?, hat]

/-! ## Adding a node -/

section Append

variable {n : Node γ} (hn : n.IsUnlinked)

/-- A node that was added is found where no other was. -/
theorem at?_append (id : NodeId) :
    ({ g with nodes := g.nodes ++ [n] } : Graph γ).at? id =
      (g.at? id).or (if n.id = id then some n else none) := by
  rw [at?, at?, List.find?_append]
  by_cases h : n.id = id <;> simp [h]

include hn

private theorem heldAt?_append (id : NodeId) (j : Nat) :
    ({ g with nodes := g.nodes ++ [n] } : Graph γ).heldAt? id j = g.heldAt? id j ∨
      g.heldAt? id j = none ∧
        ({ g with nodes := g.nodes ++ [n] } : Graph γ).heldAt? id j = some none := by
  simp only [heldAt?, at?_append]
  cases hat : g.at? id with
  | some m => exact .inl rfl
  | none =>
    by_cases h : n.id = id
    · cases hs : n.inputs[j]? with
      | none => exact .inl (by simp [h, hs])
      | some s =>
        have hfree := hn.1 s (List.mem_of_getElem? hs)
        exact .inr ⟨rfl, by simp [h, hs, hfree]⟩
    · exact .inl (by simp [h])

private theorem listedAt?_append (id : NodeId) (i : Nat) :
    ({ g with nodes := g.nodes ++ [n] } : Graph γ).listedAt? id i = g.listedAt? id i ∨
      g.listedAt? id i = none ∧
        ({ g with nodes := g.nodes ++ [n] } : Graph γ).listedAt? id i = some [] := by
  simp only [listedAt?, at?_append]
  cases hat : g.at? id with
  | some m => exact .inl rfl
  | none =>
    by_cases h : n.id = id
    · cases ho : n.outputs[i]? with
      | none => exact .inl (by simp [h, ho])
      | some o =>
        have hfree := hn.2 o (List.mem_of_getElem? ho)
        exact .inr ⟨rfl, by simp [h, ho, hfree]⟩
    · exact .inl (by simp [h])

private theorem Booked.append (h : g.Booked) (hid : g.at? n.id = none) :
    ({ g with nodes := g.nodes ++ [n] } : Graph γ).Booked := by
  refine ⟨?_, h.numbers, h.counted, ?_, ?_, ?_, ?_⟩
  · exact nodup_map_append_singleton h.ids fun m hm => ne_of_at?_eq_none hid hm
  · intro l hl
    rcases h.leaves l hl with ⟨id, i, ks, hleaves, hlisted, hmem⟩
    refine ⟨id, i, ks, hleaves, ?_, hmem⟩
    rcases listedAt?_append hn id i with hsame | ⟨hnone, -⟩
    · rw [hsame, hlisted]
    · rw [hnone] at hlisted
      cases hlisted
  · intro l hl
    rcases h.enters l hl with ⟨id, j, henters, hheld⟩
    refine ⟨id, j, henters, ?_⟩
    rcases heldAt?_append hn id j with hsame | ⟨hnone, -⟩
    · rw [hsame, hheld]
    · rw [hnone] at hheld
      cases hheld
  · intro id i ks hlisted
    rcases listedAt?_append hn id i with hsame | ⟨-, hnew⟩
    · exact h.listed id i ks (hsame ▸ hlisted)
    · rw [hnew, Option.some.injEq] at hlisted
      subst hlisted
      exact ⟨List.nodup_nil, fun k hk => absurd hk (List.not_mem_nil)⟩
  · intro id j k hheld
    rcases heldAt?_append hn id j with hsame | ⟨-, hnew⟩
    · exact h.held id j k (hsame ▸ hheld)
    · rw [hnew] at hheld
      cases hheld

end Append

/-- Where an id can be written, the node in its way is the one that it finds. -/
theorem occupant?_of_writableOnly (g : Graph γ) {id : NodeId} (h : Fault.writableOnly id = .ok id) :
    g.occupant? id = g.find? id := by
  rw [occupant?, h]
  rfl

/-- Where no node stands in the way, the id finds nothing. -/
theorem find?_of_occupant? {id : NodeId} (h : g.occupant? id = .ok none) : g.find? id = .ok none := by
  rcases Fault.bind_eq_ok_iff.1 h with ⟨id', hid', hfind⟩
  cases id with
  | name s =>
    cases hid'
    exact hfind
  | number k =>
    rw [Fault.writableOnly] at hid'
    split at hid'
    · cases hid'
      exact hfind
    · cases hid'

/-- A node is added under an id where no other stands in the way.  The counter moves in any case. -/
theorem exec_add (g : Graph γ) (id? : Option NodeId) (n : Node γ) {id : NodeId}
    (hid : id?.getD (.number (g.lastNodeId + 1)) = id) :
    g.occupant? id = .ok none ∧ (Graph.add id? n).exec g =
        (.ok id, { g with nodes := g.nodes ++ [g.placed id n], lastNodeId := g.counterFor id }) ∨
      g.occupant? id ≠ .ok none ∧ ∃ f, (Graph.add id? n).exec g =
        (.error f, { g with lastNodeId := g.counterFor id }) := by
  simp only [Graph.add, Act.exec_bind, Act.exec_get, hid, Act.exec_set, Act.exec_lift]
  cases hfound : g.occupant? id with
  | error f => exact .inr ⟨fun h => (by cases h), f, rfl⟩
  | ok found =>
    cases found with
    | none => exact .inl ⟨rfl, rfl⟩
    | some m => exact .inr ⟨fun h => (by cases h), _, rfl⟩

/-- Adding a node changes the incoming link of no input. -/
theorem Booked.add (h : g.Booked) {n : Node γ} (hn : n.IsUnlinked) (id? : Option NodeId) :
    Spares (fun _ _ => False) g ((Graph.add id? n).exec g).2 := by
  obtain ⟨id, hid⟩ : ∃ id, id?.getD (.number (g.lastNodeId + 1)) = id := ⟨_, rfl⟩
  have hcounted : Spares (fun _ _ => False) g { g with lastNodeId := g.counterFor id } :=
    ⟨h.of_same rfl rfl (le_refl _), le_refl _, fun _ _ _ => rfl, fun _ hl => .inl hl⟩
  rcases exec_add g id? n hid with ⟨hfind, hexec⟩ | ⟨-, f, hexec⟩
  · rw [hexec]
    have hfree : (g.placed id n).IsUnlinked := hn
    have hnone : g.at? (g.placed id n).id = none := (find?_eq_none (find?_of_occupant? hfind)).1
    have hadded := h.append hfree hnone
    refine ⟨hadded.of_same rfl rfl (le_refl _), le_refl _, fun id' j _ => ?_, fun _ hl => .inl hl⟩
    have hsame : ({ g with nodes := g.nodes ++ [g.placed id n],
                           lastNodeId := g.counterFor id } : Graph γ).heldAt? id' j =
        ({ g with nodes := g.nodes ++ [g.placed id n] } : Graph γ).heldAt? id' j := rfl
    rw [hsame]
    rcases heldAt?_append hfree id' j with hold | ⟨hnone, hnew⟩
    · rw [hold]
    · rw [hnew, hnone]
      rfl
  · rw [hexec]
    exact hcounted

end Graph

namespace Workflow

open NodeFlow.Graph

variable {g : Workflow}

/-! ## Disconnecting -/

/-- Disconnecting an input of a node that is not there does nothing. -/
theorem exec_disconnect_of_none {t : NodeId} (hn : g.at? t = none) (slot : Int) :
    (disconnect (.outer t) slot).exec g = (.ok ⟨⟩, g) := by
  simp only [disconnect, Act.exec_bind, Act.exec_get, siteAt?_outer, hn, Option.map_none,
    Act.exec_pure]

/-- Disconnecting an input that is not there fails. -/
theorem exec_disconnect_of_outside {t : NodeId} {n : Node Group} (hn : g.at? t = some n)
    {slot : Int} (hslot : position? n.inputs.length slot = none) :
    (disconnect (.outer t) slot).exec g = (.error Fault.outside, g) := by
  simp only [disconnect, Act.exec_bind, Act.exec_get, siteAt?_outer, hn, Option.map_some,
    Site.inputs, hslot, Act.exec_throw]

/-- Disconnecting an input that holds no link changes nothing. -/
theorem exec_disconnect_of_free {t : NodeId} {n : Node Group} (hn : g.at? t = some n) {slot : Int}
    {j : Nat} (hslot : position? n.inputs.length slot = some j)
    (hfree : (n.inputs[j]?).bind (·.link) = none) :
    (disconnect (.outer t) slot).exec g = (.ok ⟨⟩, g) := by
  simp only [disconnect, Act.exec_bind, Act.exec_get, siteAt?_outer, hn, Option.map_some,
    Site.inputs, hslot, hfree, Act.exec_pure]

/-- Disconnecting an input takes the link that it holds out of all records, where the origin of the link
is found once the input is empty. -/
theorem exec_disconnect_of_held {t : NodeId} {n m : Node Group} (hn : g.at? t = some n) {slot : Int}
    {i j : Nat} (hslot : position? n.inputs.length slot = some j) {l : Link}
    (hheld : (n.inputs[j]?).bind (·.link) = some l.id.val) (hl : g.link? l.id.val = some l)
    (hm : (hold t j none (g.dropLink l.id.val)).lookup? l.origin = .ok (some m))
    (hposition : position? m.outputs.length l.originSlot.val = some i) :
    (disconnect (.outer t) slot).exec g = (.ok ⟨⟩, g.unlink l.id.val m.id i t j) := by
  have hrange := lt_of_position?_eq_some hposition
  have hdetach : (detachOrigin l).exec (hold t j none (g.dropLink l.id.val)) =
      (.ok ⟨⟩, g.unlink l.id.val m.id i t j) := by
    simp only [detachOrigin, Act.exec_bind, Act.exec_get, Act.exec_lift, hm, hrange, if_true,
      hposition, Act.exec_set, modifyOutput_outer]
    rfl
  simp only [disconnect, Act.exec_bind, Act.exec_get, siteAt?_outer, hn, Option.map_some,
    Site.inputs, hslot, hheld, Act.exec_set, hl, modifyInput_outer]
  exact hdetach

/-- Disconnecting an input takes its link out of all records, if it holds one. -/
theorem exec_disconnect (h : g.Booked) {t : NodeId} {n : Node Group} (hn : g.at? t = some n)
    {slot : Int} {j : Nat} (hslot : position? n.inputs.length slot = some j) :
    g.heldAt? t j = some none ∧ (disconnect (.outer t) slot).exec g = (.ok ⟨⟩, g) ∨
      ∃ l ∈ g.links, ∃ o i, l.Leaves o i ∧ l.Enters t j ∧
        (disconnect (.outer t) slot).exec g = (.ok ⟨⟩, g.unlink l.id.val o i t j) := by
  have hj : j < n.inputs.length := position?_lt hslot
  have hheld : g.heldAt? t j = some (n.inputs[j]).link := by
    rw [heldAt?_of_at? hn, List.getElem?_eq_getElem hj, Option.map_some]
  have hholds : (n.inputs[j]?).bind (·.link) = (n.inputs[j]).link := by
    rw [List.getElem?_eq_getElem hj, Option.bind_some]
  cases hk : (n.inputs[j]).link with
  | none => exact .inl ⟨hk ▸ hheld, exec_disconnect_of_free hn hslot (hholds.trans hk)⟩
  | some k =>
    rw [hk] at hheld
    rcases h.link?_of_held hheld with ⟨l, hl, hmem, rfl, henters⟩
    rcases h.leaves l hmem with ⟨o, i, ks, hleaves, hlisted, -⟩
    refine .inr ⟨l, hmem, o, i, hleaves, henters, ?_⟩
    -- the origin is still there once the input is empty
    have hthere : (hold t j none (g.dropLink l.id.val)).listedAt? o i = some ks := by
      rw [listedAt?_hold, listedAt?_dropLink, hlisted]
    rcases exists_of_listedAt? hthere with ⟨m, p, hm, hp, -⟩
    have hlookup : (hold t j none (g.dropLink l.id.val)).lookup? l.origin = .ok (some m) := by
      rw [hleaves.1]
      exact lookup?_of_at? hm
    have hposition : position? m.outputs.length l.originSlot.val = some i := by
      rw [hleaves.2]
      exact position?_ofNat (List.getElem?_eq_some_iff.1 hp).1
    rw [← id_of_at? hm]
    exact exec_disconnect_of_held hn hslot (hholds.trans hk) hl hlookup hposition

/-- Disconnecting an input changes the incoming link of no other. -/
theorem spares_disconnect (h : g.Booked) (t : NodeId) (slot : Int) :
    Spares (fun id j => id = t ∧ ∃ n, g.at? t = some n ∧ position? n.inputs.length slot = some j) g
      ((disconnect (.outer t) slot).exec g).2 := by
  cases hn : g.at? t with
  | none =>
    rw [exec_disconnect_of_none hn]
    exact .refl h
  | some n =>
    cases hslot : position? n.inputs.length slot with
    | none =>
      rw [exec_disconnect_of_outside hn hslot]
      exact .refl h
    | some j =>
      rcases exec_disconnect h hn hslot with ⟨-, hexec⟩ | ⟨l, hl, o, i, hleaves, henters, hexec⟩
      · rw [hexec]
        exact .refl h
      · rw [hexec]
        refine ⟨h.unlink hl hleaves henters, le_refl _, fun id j' hother => ?_, fun m hm =>
          .inl ((mem_links_unlink ..).1 hm).1⟩
        rw [heldAt?_unlink, if_neg]
        rintro ⟨rfl, rfl⟩
        exact hother ⟨rfl, n, rfl, hslot⟩

/-! ## Connecting -/

/-- Connecting two slots puts a link of the next number into all records, once the input is emptied. -/
theorem exec_connect_of_position {g₁ : Workflow} {o t : NodeId} {n m : Node Group}
    (hn : g.at? o = some n) (hm : g.at? t = some m) {a b : Whole} {i j : Nat}
    (ha : position? n.outputs.length a.val = some i) (hb : position? m.inputs.length b.val = some j)
    (hexec : (disconnect (.outer t) b.val).exec g = (.ok ⟨⟩, g₁)) :
    ∃ l : Link, l.id = .number (g₁.lastLinkId.val + 1) ∧ l.origin = o.toJson ∧ l.originSlot = a ∧
      l.target = t.toJson ∧ l.targetSlot = b ∧
      (connect (.outer o) a (.outer t) b).exec g =
        (.ok l, enlink l o i t j { g₁ with lastLinkId := l.id }) := by
  have hinside : ¬ (n.outputs.length : Int) ≤ a.val := not_le_of_gt (lt_of_position?_eq_some ha)
  have hinside' : ¬ (m.inputs.length : Int) ≤ b.val := not_le_of_gt (lt_of_position?_eq_some hb)
  have hi := position?_lt ha
  let l : Link := { id := .number (g₁.lastLinkId.val + 1), origin := o.toJson, originSlot := a,
                    target := t.toJson, targetSlot := b, type := .str (n.outputs[i]).type }
  refine ⟨l, rfl, rfl, rfl, rfl, rfl, ?_⟩
  simp only [connect, Act.exec_bind, Act.exec_get, siteAt?_outer, hn, hm, Option.map_some,
    Site.outputs, Site.inputs, hinside, hinside', if_false, hexec, Act.exec_modify, ha, hb,
    List.getElem?_eq_getElem hi, Act.exec_set, Act.exec_pure]
  rfl

/-- Connecting two slots that exist, where positions count from the front. -/
theorem exec_connect_of_disconnect {g₁ : Workflow} {o t : NodeId} {n m : Node Group}
    (hn : g.at? o = some n) (hm : g.at? t = some m) {a b : Whole} {i j : Nat} (ha : a.val = i)
    (hb : b.val = j) (hi : i < n.outputs.length) (hj : j < m.inputs.length)
    (hexec : (disconnect (.outer t) b.val).exec g = (.ok ⟨⟩, g₁)) :
    ∃ l : Link, l.id.val = g₁.lastLinkId.val + 1 ∧ l.Leaves o i ∧ l.Enters t j ∧
      (connect (.outer o) a (.outer t) b).exec g =
        (.ok l, enlink l o i t j { g₁ with lastLinkId := l.id }) := by
  have hout : position? n.outputs.length a.val = some i := by
    rw [ha]
    exact position?_ofNat hi
  have hin : position? m.inputs.length b.val = some j := by
    rw [hb]
    exact position?_ofNat hj
  rcases exec_connect_of_position hn hm hout hin hexec with
    ⟨l, hid, horigin, rfl, htarget, rfl, hconnect⟩
  exact ⟨l, congrArg Whole.val hid, ⟨horigin, ha⟩, ⟨htarget, hb⟩, hconnect⟩

/-- A link of the next number is put into all records of a graph whose input is empty. -/
theorem spares_enlink (h : g.Booked) {l : Link} (hnumber : l.id.val = g.lastLinkId.val + 1)
    {o t : NodeId} {i j : Nat} (hleaves : l.Leaves o i) (henters : l.Enters t j) {ks : List Int}
    (hlisted : g.listedAt? o i = some ks) (hfree : g.heldAt? t j = some none) :
    Spares (fun id j' => id = t ∧ j' = j) g (enlink l o i t j { g with lastLinkId := l.id }) ∧
      l ∈ (enlink l o i t j { g with lastLinkId := l.id }).links := by
  have hfresh : ∀ l' ∈ g.links, l'.id.val ≠ l.id.val := by
    intro l' hl'
    have hle := h.counted l' hl'
    omega
  have hgrows : g.lastLinkId.val ≤ l.id.val := by omega
  have hlinks := links_enlink (g := ({ g with lastLinkId := l.id } : Workflow)) l o i t j hfresh
  have hbumped : ({ g with lastLinkId := l.id } : Workflow).Booked := h.of_same rfl rfl hgrows
  refine ⟨⟨hbumped.enlink hfresh (le_refl _) hleaves henters hlisted hfree, hgrows, ?_, ?_⟩, ?_⟩
  · intro id j' hother
    rw [heldAt?_enlink, if_neg hother]
    rfl
  · intro l' hl'
    rw [hlinks, List.mem_append, List.mem_singleton] at hl'
    rcases hl' with hl' | rfl
    · exact .inl hl'
    · exact .inr (by omega)
  · rw [hlinks]
    exact List.mem_append_right _ (List.mem_singleton_self l)

/-- Connecting two slots of nodes that are there: a slot is missing and nothing happens, or a link
of a new number takes the place of the one that the input held. -/
theorem exec_connect (h : g.Booked) {o t : NodeId} {n m : Node Group} (hn : g.at? o = some n)
    (hm : g.at? t = some m) {a b : Whole} {i j : Nat} (ha : a.val = i) (hb : b.val = j) :
    (¬ (i < n.outputs.length ∧ j < m.inputs.length) ∧
      ∃ f, (connect (.outer o) a (.outer t) b).exec g = (.error f, g)) ∨
    ∃ l g', (connect (.outer o) a (.outer t) b).exec g = (.ok l, g') ∧
      l.id.val = g.lastLinkId.val + 1 ∧ g'.lastLinkId.val = g.lastLinkId.val + 1 ∧
      Spares (fun id j' => id = t ∧ j' = j) g g' := by
  by_cases hi : i < n.outputs.length
  swap
  · have hrange : (n.outputs.length : Int) ≤ a.val := by
      rw [ha]
      exact_mod_cast not_lt.1 hi
    refine .inl ⟨fun h => hi h.1, ?_⟩
    simp only [connect, Act.exec_bind, Act.exec_get, siteAt?_outer, hn, hm, Option.map_some,
      Site.outputs, hrange, if_true, Act.exec_throw]
    exact ⟨_, rfl⟩
  by_cases hj : j < m.inputs.length
  swap
  · have hinside : ¬ (n.outputs.length : Int) ≤ a.val := by
      rw [ha]
      exact_mod_cast not_le.2 hi
    have hrange : (m.inputs.length : Int) ≤ b.val := by
      rw [hb]
      exact_mod_cast not_lt.1 hj
    refine .inl ⟨fun h => hj h.2, ?_⟩
    simp only [connect, Act.exec_bind, Act.exec_get, siteAt?_outer, hn, hm, Option.map_some,
      Site.outputs, Site.inputs, hinside, if_false, hrange, if_true, Act.exec_throw]
    exact ⟨_, rfl⟩
  have hin : position? m.inputs.length b.val = some j := by
    rw [hb]
    exact position?_ofNat hj
  -- the input is emptied first
  obtain ⟨g₁, hexec, hspares, hcounter, hfree, ks, hlisted⟩ : ∃ g₁ : Workflow,
      (disconnect (.outer t) b.val).exec g = (.ok ⟨⟩, g₁) ∧
      Spares (fun id j' => id = t ∧ j' = j) g g₁ ∧ g₁.lastLinkId = g.lastLinkId ∧
      g₁.heldAt? t j = some none ∧ ∃ ks, g₁.listedAt? o i = some ks := by
    have hlisted : g.listedAt? o i = some (n.outputs[i]).links := by
      rw [listedAt?_of_at? hn, List.getElem?_eq_getElem hi, Option.map_some]
    rcases exec_disconnect h hm hin with ⟨hfree, hexec⟩ | ⟨l, hl, o', i', hleaves, henters, hexec⟩
    · exact ⟨g, hexec, .refl h, rfl, hfree, _, hlisted⟩
    · refine ⟨_, hexec, ⟨h.unlink hl hleaves henters, le_refl _, fun id j' hother => ?_,
        fun l' hl' => .inl ((mem_links_unlink ..).1 hl').1⟩, rfl, ?_, ?_⟩
      · rw [heldAt?_unlink, if_neg hother]
      · rw [heldAt?_unlink, if_pos ⟨rfl, rfl⟩, h.held_of_enters hl henters, Option.map_some]
      · rw [listedAt?_unlink, hlisted]
        split <;> exact ⟨_, rfl⟩
  rcases exec_connect_of_disconnect hn hm ha hb hi hj hexec with
    ⟨l, hnumber, hleaves, henters, hconnect⟩
  have hlinked := (spares_enlink hspares.booked hnumber hleaves henters hlisted hfree).1
  rw [hcounter] at hnumber
  exact .inr ⟨l, _, hconnect, hnumber, hnumber, hspares.trans hlinked⟩

end Workflow

end NodeFlow
