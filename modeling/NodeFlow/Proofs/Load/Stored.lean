import NodeFlow.Proofs.Load.Finish
import NodeFlow.Proofs.Load.Patch

/-!
# Nodes and graphs that were stored

A node that is built again from its type takes on the state it was saved with and is the same node
again, but for the widgets of primitives.  A graph that was configured from a document has what
makes its own document acceptable: sound links of different numbers, ids that do not find one
another, and counters that are not behind.

Main results:

- Definition `Node.Fits` and theorem `Node.Fits.configure`: a node that takes its state on again.
- Definition `Graph.IsStored` and theorem `Graph.configure_isStored`: configured graphs.
- Theorem `Graph.configure_saveWith`: a graph that is configured from its own document.
-/

namespace NodeFlow

section Fits

variable {γ : Type}

/-! ## Widgets and kinds -/

/-- Filling values in changes nothing about widgets but their values. -/
theorem Widget.bare_fill (ws : List Widget) (vs : List Json) :
    (fill ws vs).map bare = ws.map bare := by
  induction ws generalizing vs with
  | nil => cases vs <;> rfl
  | cons w ws ih =>
    cases vs with
    | nil => rfl
    | cons v vs => simp only [fill, List.map_cons, bare_withValue, ih]

private theorem Widget.fill_nil (ws : List Widget) : fill ws [] = ws := by cases ws <;> rfl

/-- Widgets take their values back. -/
theorem Widget.fill_values {ws ws' : List Widget} (h : ws'.map bare = ws.map bare) :
    fill ws' (ws.map (·.value)) = ws := by
  induction ws generalizing ws' with
  | nil =>
    rw [List.map_nil, fill_nil]
    exact List.map_eq_nil_iff.1 h
  | cons w ws ih =>
    cases ws' with
    | nil => cases h
    | cons w' ws' =>
      rcases List.cons.inj h with ⟨hw, hws⟩
      have hsame : w'.withValue w.value = w := Widget.eq_of_bare (by rwa [bare_withValue]) rfl
      rw [List.map_cons, fill, ih hws, hsame]

private theorem Kind.remember_remember (k : Kind γ) (values values' : Option (List Json)) :
    (k.remember values).remember values' = k.remember values' := by cases k <;> rfl

/-- Whether nodes of this kind may hold saved values besides those of their widgets. -/
def Kind.holdsValues : Kind γ → Bool
  | missing _ | primitive _ => true
  | _ => false

/-! ## Nodes -/

/-- The second node is the first one with a state of its own. -/
structure Node.Fits (b n : Node γ) : Prop where
  type : n.type = b.type
  title : (n.title <|> b.title) = n.title
  properties : b.properties.update n.properties = n.properties
  inputs : n.inputs = [] → b.inputs = []
  outputs : n.outputs = [] → b.outputs = []
  kind : ∀ values, b.kind.remember values = n.kind.remember values
  widgets : n.kind.isPrimitive = false → n.widgets.map Widget.bare = b.widgets.map Widget.bare
  empty : b.kind.holdsValues = true → b.widgets = []
  watchesOutput : n.watchesOutput = b.watchesOutput
  watchesStart : n.watchesStart = b.watchesStart
  isCutOff : n.isCutOff = b.isCutOff

private theorem Node.Fits.holdsValues {b n : Node γ} (h : b.Fits n) :
    n.kind.holdsValues = b.kind.holdsValues := by
  have hkind := h.kind none
  cases hn : n.kind <;> cases hb : b.kind <;> rw [hn, hb] at hkind <;> cases hkind <;> rfl

private theorem InputSlot.slot_save (s : InputSlot) : s.save.slot = s.trim := by
  unfold save SavedInput.slot trim
  cases s.widget.truthy <;> rfl

private theorem Node.slots_record_inputs (n : Node γ) :
    n.record.inputs.map SavedInput.slot = n.inputs.map InputSlot.trim := by
  rw [record, List.map_map]
  exact List.map_congr_left fun s _ => InputSlot.slot_save s

private theorem Node.slots_record_outputs (n : Node γ) :
    n.record.outputs.map SavedOutput.slot = n.outputs := by
  refine List.ext_getElem? fun i => ?_
  simp only [record, List.getElem?_map, List.getElem?_mapIdx, Option.map_map]
  cases n.outputs[i]? <;> rfl

/-- The widget values that are saved, and what the kind remembers of them, lead back to the node
before its widgets existed. -/
theorem Node.Fits.refill {b n : Node γ} (h : b.Fits n) (hsettled : n.IsSettled) :
    b.kind.remember n.savedValues = n.unfinish.kind ∧
      Widget.fill b.widgets (n.savedValues.getD []) = n.unfinish.widgets := by
  rw [h.kind n.savedValues]
  have hown : n.kind.isPrimitive = false → n.savedValues = (if n.widgets.isEmpty then none
      else some (n.widgets.map (·.value))) →
      Widget.fill b.widgets (n.savedValues.getD []) = n.widgets := by
    intro hplain hvalues
    have hbare := h.widgets hplain
    rw [hvalues]
    cases hws : n.widgets with
    | nil =>
      rw [hws] at hbare
      rw [List.map_eq_nil_iff.1 hbare.symm]
      rfl
    | cons w ws => exact Widget.fill_values (by rw [← hws, hbare])
  cases hk : n.kind with
  | primitive pending =>
    have hnone : b.widgets = [] := h.empty (by rw [← h.holdsValues, hk]; rfl)
    have hempty := hsettled pending hk
    rw [hnone]
    rcases pending with _ | _ | ⟨v, vs⟩
    · -- the values are those of the widgets
      have hne := hempty.1 rfl
      have hvalues : n.savedValues = some (n.widgets.map (·.value)) := by
        simp [savedValues, hk, hne]
      simp only [hvalues, unfinish, hk]
      exact ⟨rfl, rfl⟩
    · have hwidgets : n.widgets = [] := by simpa using hempty
      have hvalues : n.savedValues = none := by simp [savedValues, hk, hwidgets]
      simp only [hvalues, unfinish, hk, hwidgets]
      exact ⟨rfl, rfl⟩
    · have hwidgets : n.widgets = [] := by simpa using hempty
      have hvalues : n.savedValues = some (v :: vs) := by simp [savedValues, hk, hwidgets]
      simp only [hvalues, unfinish, hk, hwidgets]
      exact ⟨rfl, rfl⟩
  | missing saved =>
    have hnone : b.widgets = [] := h.empty (by rw [← h.holdsValues, hk]; rfl)
    have hwidgets : n.widgets = [] := by
      have hbare := h.widgets (by rw [hk]; rfl)
      rw [hnone] at hbare
      exact List.map_eq_nil_iff.1 hbare
    have hvalues : n.savedValues = saved := by simp [savedValues, hk]
    simp only [hvalues, unfinish, hk, hwidgets, hnone]
    exact ⟨rfl, rfl⟩
  | _ =>
    have hvalues : n.savedValues = (if n.widgets.isEmpty then none
        else some (n.widgets.map (·.value))) := by simp only [savedValues, hk]
    have hplain : n.unfinish = n := unfinish_of_not_primitive (by rw [hk]; rfl)
    rw [hplain, hown (by rw [hk]; rfl) hvalues, hk]
    exact ⟨rfl, rfl⟩

/-- What is saved of a node goes back into the node that is built again. -/
theorem Node.Fits.configure {b n : Node γ} (h : b.Fits n) (hsettled : n.IsSettled)
    (htrim : n.inputs.map InputSlot.trim = n.inputs) : b.configure n.record = n.unfinish := by
  have hinputs : (if n.record.inputs.isEmpty then b.inputs
      else n.record.inputs.map SavedInput.slot) = n.inputs := by
    rw [Node.slots_record_inputs, htrim]
    cases hslots : n.inputs with
    | nil => simp [record, hslots, h.inputs hslots]
    | cons s slots => simp [record, hslots]
  have houtputs : (if n.record.outputs.isEmpty then b.outputs
      else n.record.outputs.map SavedOutput.slot) = n.outputs := by
    rw [Node.slots_record_outputs]
    cases hslots : n.outputs with
    | nil => simp [record, hslots, h.outputs hslots]
    | cons s slots => simp [record, hslots]
  rcases h.refill hsettled with ⟨hkind, hwidgets⟩
  rw [Node.configure, hinputs, houtputs]
  have hvalues : n.record.values = n.savedValues := rfl
  have hself : n.unfinish = { n with kind := n.unfinish.kind, widgets := n.unfinish.widgets } := by
    unfold unfinish
    split <;> rfl
  have htitle : (n.record.title <|> b.title) = n.title := h.title
  have hproperties : b.properties.update n.record.properties = n.properties := h.properties
  rw [hvalues, hkind, hwidgets, htitle, hproperties, hself, ← h.type, ← h.watchesOutput,
    ← h.watchesStart, ← h.isCutOff]
  rfl

/-! ## What becomes of a node -/

/-- A node that is built keeps nothing back that a saved state could not replace. -/
structure Node.IsBlank (b : Node γ) : Prop where
  properties : b.properties = []
  empty : b.kind.holdsValues = true → b.widgets = []

variable {b n n' : Node γ}

/-- A node without a state of its own fits any saved state. -/
theorem Node.IsBlank.fits (h : b.IsBlank) (saved : NodeRecord) : b.Fits (b.configure saved) where
  type := rfl
  title := by
    unfold Node.configure
    cases saved.title <;> cases b.title <;> rfl
  properties := by
    have hnodup : (Table.update [] saved.properties).names.Nodup := Table.nodup_update .nil
    simp only [Node.configure, h.properties, Table.update_nil hnodup]
  inputs := by
    intro hnone
    simp only [Node.configure] at hnone
    split at hnone
    · exact hnone
    · rename_i hsome
      exact absurd (by simpa using hnone) (by simpa using hsome)
  outputs := by
    intro hnone
    simp only [Node.configure] at hnone
    split at hnone
    · exact hnone
    · rename_i hsome
      exact absurd (by simpa using hnone) (by simpa using hsome)
  kind values := (b.kind.remember_remember saved.values values).symm
  widgets _ := Widget.bare_fill b.widgets _
  empty := h.empty
  watchesOutput := rfl
  watchesStart := rfl
  isCutOff := rfl

/-- A node without a state of its own is fresh once it has taken on a saved one. -/
theorem Node.IsBlank.isFresh_configure (h : b.IsBlank) (saved : NodeRecord) :
    (b.configure saved).IsFresh := by
  intro pending hkind
  simp only [Node.configure] at hkind ⊢
  cases hb : b.kind <;> rw [hb] at hkind <;> cases hkind
  rw [h.empty (by rw [hb]; rfl)]
  exact ⟨Option.some_ne_none _, by cases saved.values.getD [] <;> rfl⟩

/-- A node that fits a blank one still does when it is finished. -/
theorem Node.Fits.finished {g : Graph γ} (h : b.Fits n) (hfresh : n.IsFresh)
    (hfinished : g.finished n = .ok n') : b.Fits n' := by
  cases hprimitive : n.kind.isPrimitive with
  | false =>
    rw [Graph.finished_of_not_primitive hprimitive] at hfinished
    cases hfinished
    exact h
  | true =>
    rcases Kind.isPrimitive_iff.1 hprimitive with ⟨pending, hkind⟩
    rw [Graph.finished_eq hkind (hfresh pending hkind).2] at hfinished
    rcases Fault.map_eq_ok_iff.1 hfinished with ⟨found, -, rfl⟩
    rcases found with _ | ⟨node, target⟩
    · exact h
    · have houtputs := Graph.links_primitiveOutputs n.outputs node target.name
      exact { h with
        outputs := fun hnone => h.outputs (by
          have hlinks : n.outputs.map (·.links) = [] := by
            rw [← houtputs]
            exact List.map_eq_nil_iff.2 hnone
          exact List.map_eq_nil_iff.1 hlinks)
        kind := fun values => by rw [h.kind, hkind]; rfl
        widgets := nofun }

/-- A node that fits a blank one still does when names are replaced. -/
theorem Node.Fits.patch (h : b.Fits n) (reset : Bool) : b.Fits (n.patch reset) :=
  { h with
    widgets := fun hplain => by
      rw [← h.widgets hplain]
      exact Widget.map_bare_patch n.type reset n.widgets }

/-- A node that fits a blank one still does when it is trimmed. -/
theorem Node.Fits.trim (h : b.Fits n) : b.Fits n.trim :=
  { h with inputs := fun hnone => h.inputs (List.map_eq_nil_iff.1 hnone) }

end Fits

/-! ## Links -/

/-- The link has endpoints and a type, as links of documents have. -/
structure Link.IsSound (l : Link) : Prop where
  origin : l.origin.isNull = false
  target : l.target.isNull = false
  type : l.type.isNull = false

/-- What a document holds of a link. -/
def Link.entry (l : Link) : List Json :=
  [l.id.toJson, l.origin, l.originSlot.toJson, l.target, l.targetSlot.toJson, l.type]

private theorem Whole.ofJson?_toJson (w : Whole) :
    Whole.ofJson? w.toJson = some w := by cases w <;> rfl

private theorem Link.isSound_of_ofJson {entry : Json} {location : String} {l : Link}
    (h : Link.ofJson entry location = .ok l) : l.IsSound := by
  unfold Link.ofJson at h
  split at h
  · split at h
    · split at h
      · cases h
      · rename_i hends
        rw [Bool.or_eq_true, not_or, Bool.not_eq_true, Bool.not_eq_true] at hends
        cases h
        refine ⟨hends.1, hends.2, ?_⟩
        dsimp only
        split
        · rfl
        · rename_i hne
          cases htype : List.headD _ Json.null with
          | null => exact absurd htype hne
          | _ => rfl
    · cases h
  · cases h

/-- A sound link is read back from its entry. -/
theorem Link.ofJson_entry {l : Link} (h : l.IsSound) (location : String) :
    Link.ofJson (.arr l.entry) location = .ok l := by
  have hparts : Link.parts? (.arr l.entry) = some l.entry := rfl
  have hnull := h.type
  simp only [Link.ofJson, hparts]
  simp only [Link.entry, Whole.ofJson?_toJson, h.origin, h.target, Bool.or_self,
    Bool.false_eq_true, if_false, List.headD_cons]
  rcases l with ⟨id, origin, originSlot, target, targetSlot, type⟩
  cases type with
  | null => cases hnull
  | _ => rfl

namespace Graph

variable {γ : Type}

/-- The links can be taken in once more, and the counter is not behind. -/
structure LinksStored (g : Graph γ) : Prop where
  sound : ∀ l ∈ g.links, l.IsSound
  distinct : (g.links.map (·.id.val)).Nodup
  counted : ∀ l ∈ g.links, l.id.val ≤ g.lastLinkId.val

private theorem LinksStored.addLink {g : Graph γ} (h : g.LinksStored) {l : Link} (hl : l.IsSound) :
    (g.addLink l).LinksStored := by
  have hput : (g.putLink l).links.map (·.id.val) =
      if g.links.any (·.id.val == l.id.val) then g.links.map (·.id.val)
      else g.links.map (·.id.val) ++ [l.id.val] := by
    unfold putLink
    split
    · rw [List.map_map]
      refine List.map_congr_left fun m _ => ?_
      by_cases hm : m.id.val = l.id.val <;> simp [hm]
    · rw [List.map_append, List.map_singleton]
  have hlinks : (g.addLink l).links = (g.putLink l).links := by
    simp only [Graph.addLink]
    split <;> rfl
  have hlast : g.lastLinkId.val ≤ (g.addLink l).lastLinkId.val ∧
      l.id.val ≤ (g.addLink l).lastLinkId.val := by
    have hsame : (g.putLink l).lastLinkId = g.lastLinkId := rfl
    simp only [Graph.addLink]
    split
    · rename_i hlt
      exact ⟨hsame ▸ hlt.le, le_refl _⟩
    · rename_i hle
      exact ⟨le_refl _, not_lt.1 hle⟩
  refine ⟨?_, ?_, ?_⟩
  · intro m hm
    rcases mem_links_putLink (hlinks ▸ hm) with rfl | hold
    · exact hl
    · exact h.sound m hold
  · rw [hlinks, hput]
    split
    · exact h.distinct
    · rename_i hnew
      rw [← List.concat_eq_append, List.nodup_concat]
      refine ⟨fun hmem => ?_, h.distinct⟩
      rcases List.mem_map.1 hmem with ⟨m, hm, hval⟩
      exact hnew (List.any_eq_true.2 ⟨m, hm, beq_iff_eq.2 hval⟩)
  · intro m hm
    rcases mem_links_putLink (hlinks ▸ hm) with rfl | hold
    · exact hlast.2
    · exact (h.counted m hold).trans hlast.1

private theorem addLinks_linksStored {g g' : Graph γ} {i : Nat} {entries : List (List Json)}
    (h : g.addLinks i entries = .ok g') (hg : g.LinksStored) : g'.LinksStored := by
  induction entries generalizing g i with
  | nil =>
    cases h
    exact hg
  | cons entry entries ih =>
    rcases Fault.bind_eq_ok_iff.1 h with ⟨l, hl, h⟩
    exact ih h (hg.addLink (Link.isSound_of_ofJson hl))

/-- Sound links of different numbers are taken in as they are. -/
theorem addLinks_entries {g : Graph γ} {i : Nat} {ls : List Link}
    (hsound : ∀ l ∈ ls, l.IsSound) (hdistinct : ((g.links ++ ls).map (·.id.val)).Nodup)
    (hcounted : ∀ l ∈ ls, l.id.val ≤ g.lastLinkId.val) :
    g.addLinks i (ls.map Link.entry) = .ok { g with links := g.links ++ ls } := by
  induction ls generalizing g i with
  | nil => simp [addLinks]
  | cons l ls ih =>
    have hnew : g.links.any (·.id.val == l.id.val) = false := by
      rw [List.any_eq_false]
      intro m hm hval
      rw [List.map_append, List.nodup_append] at hdistinct
      exact hdistinct.2.2 _ (List.mem_map_of_mem hm) _ (List.mem_map_of_mem List.mem_cons_self)
        (beq_iff_eq.1 hval)
    have hadd : g.addLink l = { g with links := g.links ++ [l] } := by
      have hle : ¬ g.lastLinkId.val < l.id.val := not_lt.2 (hcounted l List.mem_cons_self)
      simp [addLink, putLink, hnew, hle]
    have hrest := ih (g := { g with links := g.links ++ [l] }) (i := i + 1)
      (fun m hm => hsound m (List.mem_cons_of_mem _ hm)) (by simpa using hdistinct)
      fun m hm => hcounted m (List.mem_cons_of_mem _ hm)
    simp only [List.append_assoc, List.singleton_append] at hrest
    rw [← hadd] at hrest
    rw [List.map_cons, addLinks, Link.ofJson_entry (hsound l List.mem_cons_self)]
    exact hrest

/-! ## Graphs -/

/-- What a lookup does not find depends on ids only. -/
theorem find?_of_ids {g h : Graph γ} (hids : h.nodes.map (·.id) = g.nodes.map (·.id)) {id : NodeId}
    (hg : g.find? id = .ok none) : h.find? id = .ok none := by
  have hat : ∀ i, (h.at? i).map (·.id) = (g.at? i).map (·.id) := by
    have hsplit : ∀ (x : Graph γ) (i : NodeId),
        (x.at? i).map (·.id) = (x.nodes.map (·.id)).find? (· == i) := by
      intro x i
      rw [List.find?_map]
      rfl
    intro i
    rw [hsplit, hsplit, hids]
  have hlookup := lookup?_map_congr hat id.toJson
  rw [find?] at hg ⊢
  rw [hg] at hlookup
  rcases Fault.map_eq_ok_iff.1 hlookup with ⟨found, hfound, hnone⟩
  rw [hfound, Option.map_eq_none_iff.1 hnone]

/-- The document of the graph can be taken in again, and something holds of the nodes. -/
structure IsStored (P : Node γ → Prop) (g : Graph γ) : Prop where
  links : g.LinksStored
  nodes : ∀ n ∈ g.nodes, P n
  admitted : ∀ front n back, g.nodes = front ++ n :: back →
    find? ({ nodes := front } : Graph γ) n.id = .ok none
  numbers : ∀ n ∈ g.nodes, ∀ k, n.id = .number k → k ≤ g.lastNodeId

variable {P P' : Node γ → Prop} {g g' : Graph γ}

private theorem IsStored.addNode (h : g.IsStored P) {n : Node γ} (hn : P n)
    (hfind : g.find? n.id = .ok none) : (g.addNode n).IsStored P where
  links := ⟨h.links.sound, h.links.distinct, h.links.counted⟩
  nodes m hm := by
    rcases List.mem_append.1 hm with hold | hnew
    · exact h.nodes m hold
    · rw [List.mem_singleton.1 hnew]
      exact hn
  admitted front m back hsplit := by
    have hnodes : g.nodes ++ [n] = front ++ m :: back := hsplit
    rcases List.eq_nil_or_concat back with rfl | ⟨back, last, rfl⟩
    · rcases List.append_inj' hnodes rfl with ⟨rfl, hlast⟩
      cases hlast
      exact find?_of_ids rfl hfind
    · have hassoc : g.nodes ++ [n] = (front ++ m :: back) ++ [last] := by simp [hnodes]
      exact h.admitted front m back (List.append_inj' hassoc rfl).1
  numbers m hm k hk := by
    have hlast : g.lastNodeId ≤ (g.addNode n).lastNodeId := by
      unfold Graph.addNode
      cases n.id <;> simp
    rcases List.mem_append.1 hm with hold | hnew
    · exact (h.numbers m hold k hk).trans hlast
    · rw [List.mem_singleton.1 hnew] at hk
      simp [Graph.addNode, hk]

private theorem addNodes_isStored {build : SavedNode Document → Except Fault (Node γ)} {i : Nat}
    {entries : List (SavedNode Document)} (h : g.addNodes build i entries = .ok g')
    (hg : g.IsStored P) (hbuild : ∀ saved ∈ entries, ∀ b, build saved = .ok b →
      P (b.configure saved.toNodeRecord)) : g'.IsStored P := by
  induction entries generalizing g i with
  | nil =>
    cases h
    exact hg
  | cons saved entries ih =>
    rcases addNodes_cons h with ⟨hfind, b, hb, h⟩
    exact ih h (hg.addNode (hbuild saved List.mem_cons_self b hb) hfind) fun saved hsaved =>
      hbuild saved (List.mem_cons_of_mem _ hsaved)

/-- A graph that is configured from a document can be taken in again. -/
theorem configure_isStored {build : SavedNode Document → Except Fault (Node γ)} {d : Document}
    (h : configure build d = .ok g) (hbuild : ∀ saved ∈ d.nodes, ∀ b, build saved = .ok b →
      P (b.configure saved.toNodeRecord)) : g.IsStored P := by
  rcases Fault.bind_eq_ok_iff.1 h with ⟨linked, hlinked, h⟩
  have hnone : linked.nodes = [] := nodes_addLinks hlinked
  refine addNodes_isStored h ⟨?_, ?_, ?_, ?_⟩ hbuild
  · exact addLinks_linksStored hlinked ⟨nofun, .nil, nofun⟩
  · simp [hnone]
  · simp [hnone]
  · simp [hnone]

/-- A change of the nodes that keeps their ids. -/
theorem IsStored.of_forall₂ (h : g.IsStored P) (hlinks : g'.links = g.links)
    (hlink : g'.lastLinkId.val = g.lastLinkId.val) (hnode : g'.lastNodeId = g.lastNodeId)
    (hnodes : List.Forall₂ (fun n n' => n'.id = n.id ∧ (P n → P' n')) g.nodes g'.nodes) :
    g'.IsStored P' := by
  have hids : ∀ {ns ns' : List (Node γ)},
      List.Forall₂ (fun n n' => n'.id = n.id ∧ (P n → P' n')) ns ns' →
        ns'.map (·.id) = ns.map (·.id) := by
    intro ns ns' hns
    induction hns with
    | nil => rfl
    | cons hn _ ih => rw [List.map_cons, List.map_cons, hn.1, ih]
  have hmem : ∀ {ns ns' : List (Node γ)},
      List.Forall₂ (fun n n' => n'.id = n.id ∧ (P n → P' n')) ns ns' →
        ∀ n' ∈ ns', ∃ n ∈ ns, n'.id = n.id ∧ (P n → P' n') := by
    intro ns ns' hns
    induction hns with
    | nil => exact fun n' hn' => absurd hn' List.not_mem_nil
    | cons hn _ ih =>
      intro n' hn'
      rcases List.mem_cons.1 hn' with rfl | hn'
      · exact ⟨_, List.mem_cons_self, hn⟩
      · rcases ih n' hn' with ⟨m, hm, hm'⟩
        exact ⟨m, List.mem_cons_of_mem _ hm, hm'⟩
  refine ⟨⟨hlinks ▸ h.links.sound, hlinks ▸ h.links.distinct, ?_⟩, ?_, ?_, ?_⟩
  · rw [hlinks, hlink]
    exact h.links.counted
  · intro n' hn'
    rcases hmem hnodes n' hn' with ⟨n, hn, -, hP⟩
    exact hP (h.nodes n hn)
  · intro front' n' back' hsplit'
    have hsplit : g.nodes.map (·.id) = front'.map (·.id) ++ n'.id :: back'.map (·.id) := by
      rw [← hids hnodes, hsplit', List.map_append, List.map_cons]
    rcases List.map_eq_append_iff.1 hsplit with ⟨front, rest, hsplit, hfront, hrest⟩
    rcases List.map_eq_cons_iff.1 hrest with ⟨n, back, rfl, hn, -⟩
    have hfind := h.admitted front n back hsplit
    rw [hn] at hfind
    exact find?_of_ids (g := { nodes := front }) (h := { nodes := front' }) hfront.symm hfind
  · intro n' hn' k hk
    rcases hmem hnodes n' hn' with ⟨n, hn, hid, -⟩
    rw [hnode]
    exact h.numbers n hn k (hid ▸ hk)

/-- A sweep keeps what each of its steps keeps. -/
theorem IsStored.sweep {f : Graph γ → Node γ → Except Fault (Node γ)} (h : g.IsStored P)
    (hids : (g.nodes.map (·.id)).Nodup) (hid : ∀ g n n', f g n = .ok n' → n'.id = n.id)
    (hstep : ∀ g n n', P n → f g n = .ok n' → P' n')
    (hsweep : Graph.sweep f g (g.nodes.map (·.id)) = .ok g') : g'.IsStored P' := by
  rcases (sweep_eq_ok_iff hid (List.nil_append g.nodes).symm hids).1 hsweep with ⟨ns', hswept, rfl⟩
  refine h.of_forall₂ rfl rfl rfl (hswept.forall₂.imp ?_)
  rintro n n' ⟨g', hn⟩
  exact ⟨hid g' n n' hn, fun hP => hstep g' n n' hP hn⟩

private theorem addNodes_save {build : SavedNode Document → Except Fault (Node γ)}
    {save : Node γ → SavedNode Document} {undo : Node γ → Node γ} (h : g.IsStored P)
    (hsave : ∀ n, (save n).id = n.id) (hundo : ∀ n, (undo n).id = n.id)
    (hbuild : ∀ n, P n → ∃ b, build (save n) = .ok b ∧
      b.configure (save n).toNodeRecord = undo n) {front ns : List (Node γ)} (i : Nat)
    (hnodes : g.nodes = front ++ ns) :
    addNodes build { g with nodes := front.map undo } i (ns.map save) = .ok (g.mapNodes undo) := by
  induction ns generalizing front i with
  | nil =>
    rw [List.append_nil] at hnodes
    rw [List.map_nil, addNodes, mapNodes, hnodes]
  | cons n ns ih =>
    have hmem : n ∈ g.nodes := by simp [hnodes]
    rcases hbuild n (h.nodes n hmem) with ⟨b, hb, hconfigure⟩
    have hfind : find? ({ g with nodes := front.map undo } : Graph γ) (save n).id = .ok none := by
      refine hsave n ▸ find?_of_ids ?_ (h.admitted front n ns hnodes)
      simp [hundo, Function.comp_def]
    have hadd : Graph.addNode (undo n) { g with nodes := front.map undo } =
        { g with nodes := (front ++ [n]).map undo } := by
      rw [List.map_append, List.map_singleton, Graph.addNode, hundo]
      cases hid : n.id with
      | number k => simp only [max_eq_left (h.numbers n hmem k hid)]
      | name s => rfl
    rw [List.map_cons, addNodes, hfind]
    simp only [bind, Except.bind, Option.isSome_none, Bool.false_eq_true, if_false, hb, hconfigure,
      hadd]
    exact ih (i + 1) (by simp [hnodes])

/-- A graph whose nodes are built again is configured from its own document. -/
theorem configure_saveWith {build : SavedNode Document → Except Fault (Node γ)}
    {save : Node γ → SavedNode Document} {undo : Node γ → Node γ} (h : g.IsStored P)
    (hlast : g.lastLinkId = .number g.lastLinkId.val) (hsave : ∀ n, (save n).id = n.id)
    (hundo : ∀ n, (undo n).id = n.id)
    (hbuild : ∀ n, P n → ∃ b, build (save n) = .ok b ∧
      b.configure (save n).toNodeRecord = undo n) :
    configure build (g.saveWith save) = .ok (g.mapNodes undo) := by
  have hlinks := addLinks_entries (g := ({ g with nodes := [], links := [] } : Graph γ)) (i := 0)
    h.links.sound h.links.distinct h.links.counted
  have hnodes := addNodes_save h hsave hundo hbuild 0 (List.nil_append g.nodes).symm
  have hcounter : (g.saveWith save).lastLinkId = g.lastLinkId.val := rfl
  rw [configure, hcounter, ← hlast]
  refine Fault.bind_eq_ok_iff.2 ⟨_, hlinks, ?_⟩
  rw [List.nil_append]
  exact hnodes

end Graph

end NodeFlow
