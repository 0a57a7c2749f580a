import NodeFlow.Proofs.Load.Contents
import NodeFlow.Proofs.Table

/-!
# Rebuilding

A graph is rebuilt from a prompt in two passes: the nodes of all steps are added, then each node
takes the inputs of its step.  Taking an input changes what stands under its name and nothing else,
so that in the end every node holds what its step says.

Main results:

- Definition `Workflow.Suits`: an input that a node of a graph can take.
- Theorem `Rebuild.exec_addInput`: what taking one input comes to.
- Theorem `Rebuild.exec_addSteps`: the first pass gives the nodes of the steps.
- Theorem `Rebuild.exec_addInputs`: the second pass gives them what the steps say.
-/

namespace NodeFlow

open NodeFlow.Graph

/-! ## One input -/

/-- An array of two items, which is read as a link where inputs are read. -/
def Json.isPair : Json → Bool
  | .arr [_, _] => true
  | _ => false

/-- A value that is no pair is no reference. -/
theorem Json.ofJson?_of_isPair {v : Json} (h : v.isPair = false) : Reference.ofJson? v = none := by
  unfold Reference.ofJson?
  split
  · cases h
  · rfl

/-- An input of a step that a node of a graph can take: a value for a widget, or a reference to an
output that is there, for a slot. -/
inductive Workflow.Suits (g : Workflow) (n : Node Group) : String × Json → Prop
  | value {w : Widget} {v : Json} (hw : w ∈ n.widgets) (hv : v.isPair = false) :
    Suits g n (w.name, v)
  | reference {s : InputSlot} {m : Node Group} {i : Nat} (hs : s ∈ n.inputs) (hm : m ∈ g.nodes)
    (hi : i < m.outputs.length) : Suits g n (s.name, Reference.toJson ⟨m.id.key, i⟩)

namespace Rebuild

/-- The graph while nodes take inputs: its records agree, and its nodes are those that were added,
but for links and values. -/
structure Stage (g₀ g : Workflow) : Prop where
  booked : g.Booked
  frames : g.nodes.map Node.frame = g₀.nodes.map Node.frame

variable {g₀ g : Workflow} {n : Node Group}

/-- Nodes that are to take inputs have different ids. -/
theorem Stage.ids (h : Stage g₀ g) : (g₀.nodes.map (·.id)).Nodup := by
  have hids : g.nodes.map (·.id) = g₀.nodes.map (·.id) := by
    have hmap := congrArg (List.map (·.id)) h.frames
    rwa [List.map_map, List.map_map] at hmap
  exact hids ▸ h.booked.ids

/-- Every node that was added is there while inputs are taken, with its frame. -/
theorem Stage.exists_at? (h : Stage g₀ g) (hn : n ∈ g₀.nodes) :
    ∃ n', g.at? n.id = some n' ∧ n'.frame = n.frame :=
  exists_at?_of_frames h.frames (at?_of_mem h.ids hn)

/-- A slot that is fed by nothing holds nothing. -/
theorem held_of_feeding? (hg : g.Booked) {id : NodeId} (hn : g.at? id = some n) {name : String}
    {j : Nat} (hj : n.inputPosition? name = some j) (hfree : g.feeding? id name = none) :
    j < n.inputs.length ∧ g.heldAt? id j = some none := by
  have hlt : j < n.inputs.length := (List.findIdx?_eq_some_iff_getElem.1 hj).1
  refine ⟨hlt, ?_⟩
  simp only [feeding?, hn, Option.bind_some, hj, incoming?] at hfree
  have hheld : g.heldAt? id j = some (n.inputs[j]).link := by
    rw [heldAt?_of_at? hn, List.getElem?_eq_getElem hlt, Option.map_some]
  cases hk : (n.inputs[j]).link with
  | none => rw [hheld, hk]
  | some k =>
    rw [hk] at hheld
    rcases hg.link?_of_held hheld with ⟨l, hl, -⟩
    rw [hheld, Option.join_some, Option.bind_some, hl] at hfree
    cases hfree

private theorem exec_disconnect_of_free (hg : g.Booked) {t : NodeId} (hn : g.at? t = some n)
    {j : Nat} (hj : j < n.inputs.length) (hfree : g.heldAt? t j = some none) :
    (Workflow.disconnect (.outer t) j).exec g = (.ok ⟨⟩, g) := by
  rcases Workflow.exec_disconnect hg hn (position?_ofNat hj) with ⟨-, hexec⟩ | hheld
  · exact hexec
  · rcases hheld with ⟨l, hl, o, i, -, henters, -⟩
    rw [hg.held_of_enters hl henters] at hfree
    cases hfree

/-- A pair that names an output of the graph is connected to a slot that is fed by nothing. -/
theorem exec_connectInput (h : Stage g₀ g) {t : NodeId} (hn : g.at? t = some n) {name : String}
    {j : Nat} (hj : n.inputPosition? name = some j) (hfree : g.feeding? t name = none)
    {origin slot : Json} {m : Node Group} (hm : g.lookup? origin = .ok (some m)) {w : Whole} {i : Nat}
    (hw : Whole.ofJson? slot = some w) (hval : w.val = i) (hi : i < m.outputs.length) :
    ∃ l g', (connectInput t name origin slot).exec g = (.ok ⟨⟩, g') ∧ Stage g₀ g' ∧
      Spares (fun id j' => id = t ∧ j' = j) g g' ∧
      g'.nodes.map Node.unlinked = g.nodes.map Node.unlinked ∧ l ∈ g'.links ∧
      l.Leaves m.id i ∧ l.Enters t j := by
  have hat : g.at? m.id = some m := at?_of_mem h.booked.ids (mem_of_lookup? hm)
  rcases held_of_feeding? h.booked hn hj hfree with ⟨hlt, hheld⟩
  have hlisted : g.listedAt? m.id i = some (m.outputs[i]).links := by
    rw [listedAt?_of_at? hat, List.getElem?_eq_getElem hi, Option.map_some]
  -- the link that is made, and the graph with it
  rcases Workflow.exec_connect_of_disconnect (a := w) (b := .number j) hat hn hval rfl hi
    hlt (exec_disconnect_of_free h.booked hn hlt hheld) with
    ⟨l, hnumber, hleaves, henters, hconnect⟩
  rcases Workflow.spares_enlink h.booked hnumber hleaves henters hlisted hheld with ⟨hspares, hl⟩
  have hunlinked := unlinked_enlink l m.id t i j ({ g with lastLinkId := l.id } : Workflow)
  refine ⟨l, _, ?_, ⟨hspares.booked, (frames_of_unlinked hunlinked).trans h.frames⟩, hspares,
    hunlinked, hl, hleaves, henters⟩
  have hrange : 0 ≤ w.val ∧ w.val < m.outputs.length := by omega
  simp only [connectInput, Act.exec_bind, Act.exec_get, Act.exec_lift, hm, hn, Option.bind_some, hj,
    hw, hrange, decide_true, Bool.and_self, if_true, hconnect, Act.exec_pure]

/-- Taking an input changes what stands under its name, and leaves all else as it is. -/
theorem exec_addInput (hcanonical : g₀.Canonical) (h : Stage g₀ g) (hn : n ∈ g₀.nodes)
    {name : String} {v : Json} (hsuits : Workflow.Suits g₀ n (name, v))
    (hfree : (g.content n.id name).fed = none) :
    ∃ g', (addInput n.id (name, v)).exec g = (.ok ⟨⟩, g') ∧ Stage g₀ g' ∧
      ∀ id' name', g'.content id' name' =
        if id' = n.id ∧ name' = name then (g.content id' name').take v
        else g.content id' name' := by
  rcases h.exists_at? hn with ⟨n', hn', hframe⟩
  cases hsuits with
  | @value w _ hw hv =>
    have hname : ∃ w' ∈ n'.widgets, w'.name = w.name := by
      rcases Widget.exists_of_bare (Node.widgets_of_frame hframe) hw with ⟨w', hw', hbare⟩
      exact ⟨w', hw', congrArg (·.name) hbare⟩
    refine ⟨g.modifyNode n.id (Node.assign w.name v), ?_,
      ⟨h.booked.assign n.id w.name, (g.frames_assign n.id w.name v).trans h.frames⟩,
      content_assign hn' hname (Json.ofJson?_of_isPair hv)⟩
    unfold addInput
    split
    · rename_i origin slot hpair
      have hsame : v = .arr [origin, slot] := hpair
      rw [hsame] at hv
      cases hv
    · rfl
  | @reference s m i hs hm hi =>
    rcases h.exists_at? hm with ⟨m', hm', hframe'⟩
    have hi' : i < m'.outputs.length := Node.outputs_length_of_frame hframe' ▸ hi
    obtain ⟨j, hj⟩ : ∃ j, n'.inputPosition? s.name = some j := by
      rw [Node.inputPosition?_of_frame hframe]
      apply Option.isSome_iff_exists.1
      rw [Node.inputPosition?, List.findIdx?_isSome, List.any_eq_true]
      exact ⟨s, hs, by simp⟩
    have hlookup : g.lookup? (.str m.id.key) = .ok (some m') := by
      rw [(hcanonical.of_frames h.frames).lookup?_key (hcanonical m hm), hm']
    have hslot : Whole.ofJson? (.int i) = some (.number i) := rfl
    rcases exec_connectInput h hn' hj (Option.map_eq_none_iff.1 hfree) hlookup hslot rfl hi' with
      ⟨l, g', hexec, hstage, hspares, hunlinked, hl, hleaves, henters⟩
    rw [id_of_at? hm'] at hleaves
    exact ⟨g', hexec, hstage,
      content_of_spares h.booked hspares hunlinked hl hleaves henters (by simp [hn', hj])⟩

/-! ## All inputs -/

/-- A node takes its inputs one by one, each under its own name. -/
theorem exec_each_addInput (hcanonical : g₀.Canonical) (h : Stage g₀ g) (hn : n ∈ g₀.nodes)
    {inputs : Members} (hnames : (Table.names inputs).Nodup)
    (hsuits : ∀ input ∈ inputs, Workflow.Suits g₀ n input)
    (hfree : ∀ name ∈ Table.names inputs, (g.content n.id name).fed = none) :
    ∃ g', (Act.each inputs (addInput n.id)).exec g = (.ok ⟨⟩, g') ∧ Stage g₀ g' ∧
      ∀ id name, g'.content id name =
        if id = n.id then (g.content id name).receive (Table.get? inputs name)
        else g.content id name := by
  induction inputs generalizing g with
  | nil => exact ⟨g, rfl, h, fun id name => (ite_self _).symm⟩
  | cons input inputs ih =>
    rcases input with ⟨name, v⟩
    rcases List.nodup_cons.1 hnames with ⟨hfresh, hnames⟩
    obtain ⟨g₁, hexec, hstage, hcontent⟩ := exec_addInput hcanonical h hn
      (hsuits _ List.mem_cons_self) (hfree name List.mem_cons_self)
    have hother : ∀ name' ∈ Table.names inputs, (g₁.content n.id name').fed = none := by
      intro name' hname'
      have hne : name' ≠ name := fun he => hfresh (he ▸ hname')
      rw [hcontent, if_neg fun hcell => hne hcell.2]
      exact hfree name' (List.mem_cons_of_mem _ hname')
    rcases ih hstage hnames (fun input hinput => hsuits input (List.mem_cons_of_mem _ hinput))
      hother with ⟨g₂, hexec', hstage', hcontent'⟩
    refine ⟨g₂, Act.exec_bind_eq_ok_iff.2 ⟨⟨⟩, g₁, hexec, hexec'⟩, hstage', fun id name' => ?_⟩
    rw [hcontent', hcontent]
    by_cases hid : id = n.id
    · by_cases hname : name' = name
      · subst hname
        have hnone : Table.get? inputs name' = none := Table.get?_eq_none hfresh
        simp [hid, hnone, Table.get?, Content.receive]
      · simp [hid, hname, Ne.symm hname, Table.get?]
    · simp [hid]

/-- What a step says under a name. -/
def said (steps : Output) (id : NodeId) (name : String) : Option Json :=
  (steps.get? id.key).bind fun s => Table.get? s.inputs name

/-- The nodes of steps take their inputs. -/
theorem exec_addInputs (hcanonical : g₀.Canonical) (h : Stage g₀ g) {steps : Output}
    (hkeys : steps.names.Nodup)
    (hnodes : ∀ m ∈ steps, ∃ n ∈ g₀.nodes, n.id.key = m.1 ∧
      ∀ input ∈ m.2.inputs, Workflow.Suits g₀ n input)
    (hnames : ∀ m ∈ steps, (Table.names m.2.inputs).Nodup)
    (hfree : ∀ n ∈ g₀.nodes, n.id.key ∈ steps.names → ∀ name, (g.content n.id name).fed = none) :
    ∃ g', (Act.each (steps.map fun m => (m.1, m.2.toJson)) addInputs).exec g = (.ok ⟨⟩, g') ∧
      Stage g₀ g' ∧ ∀ n ∈ g₀.nodes, ∀ name,
        g'.content n.id name = (g.content n.id name).receive (said steps n.id name) := by
  induction steps generalizing g with
  | nil => exact ⟨g, rfl, h, fun _ _ _ => rfl⟩
  | cons m steps ih =>
    rcases m with ⟨key, step⟩
    rcases hnodes _ List.mem_cons_self with ⟨n, hn, hkey, hsuits⟩
    subst hkey
    rcases List.nodup_cons.1 hkeys with ⟨hfresh, hrest⟩
    obtain ⟨g₁, hexec, hstage, hcontent⟩ := exec_each_addInput hcanonical h hn
      (hnames _ List.mem_cons_self) hsuits fun name _ => hfree n hn List.mem_cons_self name
    have hother : ∀ n' ∈ g₀.nodes, n'.id.key ≠ n.id.key →
        ∀ name, g₁.content n'.id name = g.content n'.id name := by
      intro n' hn' hne name
      rw [hcontent, if_neg fun hid => hne (congrArg NodeId.key hid)]
    rcases ih hstage hrest (fun m hm => hnodes m (List.mem_cons_of_mem _ hm))
      (fun m hm => hnames m (List.mem_cons_of_mem _ hm)) (fun n' hn' hmem name => by
        rw [hother n' hn' (fun he => hfresh (he ▸ hmem)) name]
        exact hfree n' hn' (List.mem_cons_of_mem _ hmem) name) with
      ⟨g₂, hexec', hstage', hcontent'⟩
    have hfirst : (addInputs (n.id.key, step.toJson)).exec g = (.ok ⟨⟩, g₁) := by
      rcases h.exists_at? hn with ⟨n', hn', hframe⟩
      have hid : n'.id = n.id := Node.id_of_frame hframe
      have hfound : g.find? n.id = .ok (some n') := by
        rw [(hcanonical.of_frames h.frames).find?_eq (hcanonical n hn), hn']
      have hkeyId : keyId n.id.key = .ok n.id := hcanonical n hn
      have hinputs : inputsOf step.toJson = .ok step.inputs := rfl
      simp only [addInputs, hkeyId, hinputs, Act.exec_bind, Act.exec_lift, Act.exec_get, hfound,
        hid, hexec]
    refine ⟨g₂, Act.exec_bind_eq_ok_iff.2 ⟨⟨⟩, g₁, hfirst, hexec'⟩, hstage', ?_⟩
    intro n' hn' name
    rw [hcontent' n' hn']
    by_cases hkey : n'.id.key = n.id.key
    · have hid : n'.id = n.id := (hcanonical n' hn').eq_of_key (hcanonical n hn) hkey
      have hnone : Table.get? steps n.id.key = none := Table.get?_eq_none hfresh
      simp [hcontent, hid, said, Table.get?, hnone, Content.receive]
    · rw [hother n' hn' hkey]
      simp [said, Table.get?, Ne.symm hkey]

/-! ## The nodes -/

/-- The node is a new one of the class of the step, under the key of the step. -/
def IsMadeOf (r : Registry) (n : Node Group) (m : String × Step) : Prop :=
  n.id.key = m.1 ∧ ∃ blank : Node Group, r.create {} m.2.className = .ok blank ∧
    n = { blank with id := n.id, order := n.order }

/-- The graph while nodes are added: nothing in it is linked. -/
structure Blank (g : Workflow) : Prop where
  booked : g.Booked
  canonical : g.Canonical
  links : g.links = []

/-- The node of a step is added at the end, if its key is new and its class can be made. -/
theorem exec_addStep_blank (r : Registry) (h : Blank g) {m : String × Step}
    (hfresh : ∀ n ∈ g.nodes, n.id.key ≠ m.1) {id : NodeId} (hid : keyId m.1 = .ok id)
    (hkey : id.key = m.1) {blank : Node Group} (hblank : r.create {} m.2.className = .ok blank)
    (hunlinked : blank.IsUnlinked) :
    ∃ g' n, (addStep r (m.1, m.2.toJson)).exec g = (.ok ⟨⟩, g') ∧ Blank g' ∧
      g'.nodes = g.nodes ++ [n] ∧ IsMadeOf r n m := by
  have hcanonical : id.IsCanonical := NodeId.isCanonical_of_keyId hid hkey
  have hnone : g.at? id = none := by
    rw [at?, List.find?_eq_none]
    intro n hn hsame
    exact hfresh n hn (by rw [beq_iff_eq.1 hsame, hkey])
  have hfind : g.occupant? id = .ok none := by
    rw [occupant?_of_writableOnly g (NodeId.writableOnly_of_keyId hid),
      h.canonical.find?_eq hcanonical, hnone]
  have hbooked := (h.booked.add hunlinked (some id)).booked
  have hgiven : (some id).getD (.number (g.lastNodeId + 1)) = id := rfl
  rcases exec_add g (some id) blank hgiven with ⟨-, hexec⟩ | ⟨hfound, -⟩
  · rw [hexec] at hbooked
    refine ⟨_, g.placed id blank, ?_, ⟨hbooked, fun n hn => ?_, h.links⟩, rfl, hkey, blank, hblank, rfl⟩
    · have hclass : classOf m.2.toJson = .ok (.str m.2.className) := rfl
      simp only [addStep, hclass, hid, Act.exec_bind, Act.exec_lift, Json.display_str, hblank,
        hexec, Act.exec_pure]
    · rcases List.mem_append.1 hn with hn | hn
      · exact h.canonical n hn
      · rw [List.mem_singleton.1 hn]
        exact hcanonical
  · exact absurd hfind hfound

/-- The nodes of steps are added at the end, in the order of the steps. -/
theorem exec_addSteps (r : Registry) (h : Blank g) {steps : Output} (hkeys : steps.names.Nodup)
    (hfresh : ∀ n ∈ g.nodes, n.id.key ∉ steps.names)
    (hids : ∀ m ∈ steps, ∃ id, keyId m.1 = .ok id ∧ id.key = m.1)
    (hmade : ∀ m ∈ steps, ∃ blank : Node Group, r.create {} m.2.className = .ok blank ∧
      blank.IsUnlinked) :
    ∃ g' added, (Act.each (steps.map fun m => (m.1, m.2.toJson)) (addStep r)).exec g =
        (.ok ⟨⟩, g') ∧ Blank g' ∧ g'.nodes = g.nodes ++ added ∧
      added.map (·.id.key) = steps.names ∧ ∀ n ∈ added, ∃ m ∈ steps, IsMadeOf r n m := by
  induction steps generalizing g with
  | nil => exact ⟨g, [], rfl, h, by simp, rfl, by simp⟩
  | cons m steps ih =>
    rcases List.nodup_cons.1 hkeys with ⟨hnew, hkeys⟩
    rcases hids m List.mem_cons_self with ⟨id, hid, hkey⟩
    rcases hmade m List.mem_cons_self with ⟨blank, hblank, hunlinked⟩
    have hother : ∀ n ∈ g.nodes, n.id.key ≠ m.1 := fun n hn hsame =>
      hfresh n hn (hsame ▸ List.mem_cons_self)
    obtain ⟨g₁, n₁, hfirst, hstage, hnodes₁, hmade₁⟩ :=
      exec_addStep_blank r h hother hid hkey hblank hunlinked
    have hfresh' : ∀ n ∈ g₁.nodes, n.id.key ∉ Table.names steps := by
      intro n hn hmem
      rcases List.mem_append.1 (hnodes₁ ▸ hn) with hn | hn
      · exact hfresh n hn (List.mem_cons_of_mem _ hmem)
      · rw [List.mem_singleton.1 hn, hmade₁.1] at hmem
        exact hnew hmem
    obtain ⟨g', added, hrest, hstage', hnodes, haddedKeys, hadded⟩ := ih hstage hkeys hfresh'
      (fun m hm => hids m (List.mem_cons_of_mem _ hm))
      (fun m hm => hmade m (List.mem_cons_of_mem _ hm))
    refine ⟨g', n₁ :: added, Act.exec_bind_eq_ok_iff.2 ⟨⟨⟩, g₁, hfirst, hrest⟩, hstage', ?_, ?_, ?_⟩
    · rw [hnodes, hnodes₁, List.append_assoc]
      rfl
    · rw [List.map_cons, haddedKeys, hmade₁.1]
      rfl
    · intro n hn
      rcases List.mem_cons.1 hn with rfl | hn
      · exact ⟨m, List.mem_cons_self, hmade₁⟩
      · rcases hadded n hn with ⟨m', hm', hmade'⟩
        exact ⟨m', List.mem_cons_of_mem _ hm', hmade'⟩

end Rebuild

end NodeFlow
