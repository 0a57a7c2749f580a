import NodeFlow.Proofs.Edit.Agreement
import NodeFlow.Proofs.Load.DefinedInputs
import NodeFlow.Proofs.Load.NewNodes
import NodeFlow.Proofs.Load.Rebuilt
import NodeFlow.Proofs.Order.Shape

/-!
# Inputs of steps in a rebuilt graph

A prompt may come from anywhere.  Its keys need not be spelled as ids are shown, its inputs need not
suit the classes of its steps, and pairs need not be references.  What does not suit is passed over.
Each input still meets only what stands under its own name, so that in a graph that could be rebuilt
every reference to an output that is there feeds the slot of its name, and every value that is no pair
stands in the widget of its name.

Main results:

- Definition `Graph.Linked`: an input of a node is linked to an output.
- Structure `Rebuild.Heeds`: under a name of a node stands what an input says.
- Theorem `Rebuild.heeds_addInput`: the step lemma, for one input.
- Theorem `Rebuild.heeds_addInputs`: every input of every step is heeded.
- Theorem `Registry.rebuild_keepsInputs`: what a rebuilt graph keeps of the inputs of a prompt.
-/

namespace NodeFlow

open NodeFlow.Graph

/-! ## What stands under a name -/

/-- The input of a name of a node is linked to an output of a node. -/
def Graph.Linked {γ : Type} (g : Graph γ) (n : Node γ) (name : String) (o : Node γ) (i : Nat) : Prop :=
  ∃ j s l, n.inputs[j]? = some s ∧ s.name = name ∧ l ∈ g.links ∧ s.link = some l.id.val ∧
    l.Leaves o.id i ∧ l.Enters n.id j

namespace Rebuild

variable {g₀ g g' : Workflow} {n : Node Group} {name : String} {v : Json}

/-- In two graphs the same stands under a name of a node. -/
structure AgreeAt (g g' : Workflow) (id : NodeId) (name : String) : Prop where
  feeding : g'.feeding? id name = g.feeding? id name
  shown : (g'.content id name).shown = (g.content id name).shown

private theorem AgreeAt.refl (g : Workflow) (id : NodeId) (name : String) :
    AgreeAt g g id name := ⟨rfl, rfl⟩

private theorem AgreeAt.trans {g'' : Workflow} {id : NodeId} (h : AgreeAt g g' id name)
    (h' : AgreeAt g' g'' id name) : AgreeAt g g'' id name :=
  ⟨h'.feeding.trans h.feeding, h'.shown.trans h.shown⟩

/-- Under a name of a node stands what an input says: a link from the output that a pair names, if the
node has a slot of this name, or a value, if it has a widget.  A pair leaves a widget alone. -/
structure Heeds (g₀ g : Workflow) (n : Node Group) (name : String) (v : Json) : Prop where
  link : ∀ origin slot m w (i : Nat), v = .arr [origin, slot] → g₀.lookup? origin = .ok (some m) →
    Whole.ofJson? slot = some w → w.val = i → i < m.outputs.length →
    (n.inputPosition? name).isSome = true → ∃ l, g.feeding? n.id name = some l ∧ l.Leaves m.id i
  value : v.isPair = false → (∃ w ∈ n.widgets, w.name = name) →
    (g.content n.id name).shown = some v
  pair : v.isPair = true → (g.content n.id name).shown = (g₀.content n.id name).shown

private theorem Heeds.of_agreeAt (h : Heeds g₀ g n name v) (hsame : AgreeAt g g' n.id name) :
    Heeds g₀ g' n name v where
  link origin slot m w i hv hm hw hval hi hname := by
    rw [hsame.feeding]
    exact h.link origin slot m w i hv hm hw hval hi hname
  value hv hw := hsame.shown.trans (h.value hv hw)
  pair hv := hsame.shown.trans (h.pair hv)

/-! ## One input -/

/-- Nodes are found as in the beginning. -/
theorem Stage.lookup? (h : Stage g₀ g) (v : Json) :
    (g.lookup? v).map (Option.map Node.frame) = (g₀.lookup? v).map (Option.map Node.frame) :=
  lookup?_map_congr (at?_map_congr (F := Node.frame) (fun _ => rfl) h.frames) v

private theorem exists_of_map_eq {α β : Type} {f : α → β} {x y : Except Fault (Option α)}
    (h : x.map (Option.map f) = y.map (Option.map f)) {b : α} (hy : y = .ok (some b)) :
    ∃ a, x = .ok (some a) ∧ f a = f b := by
  subst hy
  rcases Fault.map_eq_ok_iff.1 h with ⟨found, hfound, hsame⟩
  rw [Option.map_some] at hsame
  rcases Option.map_eq_some_iff.1 hsame with ⟨a, ha, hsame⟩
  exact ⟨a, ha ▸ hfound, hsame⟩

/-- Giving a value changes at most what stands under the name. -/
theorem agreeAt_assign (g : Workflow) (id : NodeId) (name : String) (v : Json) {id' : NodeId}
    {name' : String} (hother : ¬ (id' = id ∧ name' = name)) :
    AgreeAt g (g.modifyNode id (Node.assign name v)) id' name' := by
  refine ⟨feeding?_assign g id name v id' name', ?_⟩
  simp only [content, at?_assign]
  by_cases hid : id' = id
  · subst hid
    have hname : name' ≠ name := fun hname => hother ⟨rfl, hname⟩
    cases g.at? id' with
    | none => simp
    | some m => simpa using Node.find?_assign_of_ne name v m hname
  · rw [if_neg hid]

/-- Where the node has no widget of the name, giving a value changes nothing. -/
theorem heeds_value (h : Stage g₀ g) (hn : n ∈ g₀.nodes) (hv : v.isPair = false) :
    Heeds g₀ (g.modifyNode n.id (Node.assign name v)) n name v where
  link origin slot m w i hpair := by
    subst hpair
    cases hv
  value := by
    rintro - ⟨w, hw, hname⟩
    rcases h.exists_at? hn with ⟨n', hn', hframe⟩
    rcases Widget.exists_of_bare (Node.widgets_of_frame hframe) hw with ⟨w', hw', hbare⟩
    have hname' : w'.name = name := (congrArg (·.name) hbare).trans hname
    rw [content_assign hn' ⟨w', hw', hname'⟩ (Json.ofJson?_of_isPair hv), if_pos ⟨rfl, rfl⟩,
      Content.take_value _ (Json.ofJson?_of_isPair hv)]
  pair hpair := by
    rw [hv] at hpair
    cases hpair

/-- A pair connects a slot to an output, or changes nothing. -/
theorem exec_connectInput_cases (h : Stage g₀ g) (hn : n ∈ g₀.nodes) {origin slot : Json}
    (hfree : g.feeding? n.id name = none)
    (hexec : (connectInput n.id name origin slot).exec g = (.ok ⟨⟩, g')) :
    (g' = g ∧ ∀ m w (i : Nat), g₀.lookup? origin = .ok (some m) → Whole.ofJson? slot = some w →
      w.val = i → i < m.outputs.length → (n.inputPosition? name).isSome = true → False) ∨
    ∃ m w, ∃ i : Nat, g₀.lookup? origin = .ok (some m) ∧ Whole.ofJson? slot = some w ∧ w.val = i ∧
      ∃ l, Stage g₀ g' ∧ l.Leaves m.id i ∧
        (∀ id' name', g'.feeding? id' name' =
          if id' = n.id ∧ name' = name then some l else g.feeding? id' name') ∧
        ∀ id' name', (g'.content id' name').shown = (g.content id' name').shown := by
  rcases h.exists_at? hn with ⟨n', hn', hframe⟩
  have hposition := Node.inputPosition?_of_frame hframe name
  by_cases hsuits : ∃ m w, ∃ i : Nat, g₀.lookup? origin = .ok (some m) ∧
      Whole.ofJson? slot = some w ∧ w.val = i ∧ i < m.outputs.length ∧
      (n.inputPosition? name).isSome = true
  · obtain ⟨m, w, i, hm, hw, hval, hi, hname⟩ := hsuits
    refine .inr ⟨m, w, i, hm, hw, hval, ?_⟩
    rcases exists_of_map_eq (h.lookup? origin) hm with ⟨m', hm', hframe'⟩
    obtain ⟨j, hj⟩ := Option.isSome_iff_exists.1 hname
    have hi' : i < m'.outputs.length := Node.outputs_length_of_frame hframe' ▸ hi
    rcases exec_connectInput h hn' (hposition.trans hj) hfree hm' hw hval hi' with
      ⟨l, g'', hexec', hstage, hspares, hunlinked, hl, hleaves, henters⟩
    rw [hexec', Prod.mk.injEq] at hexec
    obtain ⟨-, rfl⟩ := hexec
    have hname' : (g.at? n.id).bind (·.inputPosition? name) = some j := by
      rw [hn', Option.bind_some, hposition, hj]
    exact ⟨l, hstage, Node.id_of_frame hframe' ▸ hleaves,
      feeding?_of_spares h.booked hspares hunlinked hl henters hname', shown_of_unlinked hunlinked⟩
  · refine .inl ⟨?_, fun m w i hm hw hval hi hname => hsuits ⟨m, w, i, hm, hw, hval, hi, hname⟩⟩
    cases hfound : g.lookup? origin with
    | error f => simp [connectInput, Act.exec_bind, hfound] at hexec
    | ok found =>
      simp only [connectInput, Act.exec_bind, Act.exec_get, Act.exec_lift, hfound] at hexec
      split at hexec
      · rename_i m' j w hj hw
        split at hexec
        · -- the pair suits after all
          rename_i hrange
          simp only [Bool.and_eq_true, decide_eq_true_eq] at hrange
          rcases exists_of_map_eq (h.lookup? origin).symm hfound with ⟨m, hm, hframe'⟩
          rw [hn', Option.bind_some, hposition] at hj
          refine absurd ⟨m, w, w.val.toNat, hm, hw, (Int.toNat_of_nonneg hrange.1).symm, ?_, ?_⟩ hsuits
          · rw [Node.outputs_length_of_frame hframe']
            omega
          · rw [hj]
            rfl
        · cases hexec
          rfl
      · cases hexec
        rfl

/-- The step lemma: an input of a step is heeded, and changes nothing but what stands under its name. -/
theorem heeds_addInput (hlinks : g₀.links = []) (h : Stage g₀ g) (hn : n ∈ g₀.nodes)
    (hsame : AgreeAt g₀ g n.id name) (hexec : (addInput n.id (name, v)).exec g = (.ok ⟨⟩, g')) :
    Stage g₀ g' ∧ (∀ id' name', ¬ (id' = n.id ∧ name' = name) → AgreeAt g g' id' name') ∧
      Heeds g₀ g' n name v := by
  have hfree : g.feeding? n.id name = none := hsame.feeding.trans (feeding?_of_links hlinks _ _)
  cases hpair : v.isPair with
  | false =>
    have hassign : (addInput n.id (name, v)).exec g =
        (.ok ⟨⟩, g.modifyNode n.id (Node.assign name v)) := by
      unfold addInput
      split
      · rename_i origin slot hv
        have hv' : v = .arr [origin, slot] := hv
        rw [hv'] at hpair
        cases hpair
      · rfl
    rw [hassign, Prod.mk.injEq] at hexec
    obtain ⟨-, rfl⟩ := hexec
    exact ⟨⟨h.booked.assign n.id name, (g.frames_assign n.id name v).trans h.frames⟩,
      fun id' name' hother => agreeAt_assign g n.id name v hother, heeds_value h hn hpair⟩
  | true =>
    obtain ⟨origin, slot, rfl⟩ : ∃ origin slot, v = .arr [origin, slot] := by
      unfold Json.isPair at hpair
      split at hpair
      · exact ⟨_, _, rfl⟩
      · cases hpair
    rcases exec_connectInput_cases h hn hfree hexec with ⟨rfl, hnone⟩ |
      ⟨m, w, i, hm, hw, hval, l, hstage, hleaves, hfeeding, hshown⟩
    · refine ⟨h, fun id' name' _ => .refl g' id' name', ⟨?_, ?_, fun _ => hsame.shown⟩⟩
      · intro origin' slot' m w i hv hm hw hval hi hname
        cases hv
        exact (hnone m w i hm hw hval hi hname).elim
      · intro hv
        rw [hpair] at hv
        cases hv
    · refine ⟨hstage, fun id' name' hother => ⟨?_, hshown id' name'⟩, ⟨?_, ?_, fun _ => ?_⟩⟩
      · rw [hfeeding, if_neg hother]
      · rintro origin' slot' m' w' i' hv hm' hw' hval' - -
        cases hv
        rw [hm, Except.ok.injEq, Option.some.injEq] at hm'
        rw [hw, Option.some.injEq] at hw'
        subst hm' hw'
        have hi : i' = i := by omega
        exact ⟨l, by rw [hfeeding, if_pos ⟨rfl, rfl⟩], hi ▸ hleaves⟩
      · intro hv
        rw [hpair] at hv
        cases hv
      · rw [hshown]
        exact hsame.shown

/-! ## All inputs -/

/-- The inputs of one step are heeded, each under its own name. -/
theorem heeds_each (hlinks : g₀.links = []) (h : Stage g₀ g) (hn : n ∈ g₀.nodes) {inputs : Members}
    (hnames : (Table.names inputs).Nodup) (hsame : ∀ name ∈ Table.names inputs, AgreeAt g₀ g n.id name)
    (hexec : (Act.each inputs (addInput n.id)).exec g = (.ok ⟨⟩, g')) :
    Stage g₀ g' ∧
      (∀ id' name', ¬ (id' = n.id ∧ name' ∈ Table.names inputs) → AgreeAt g g' id' name') ∧
      ∀ input ∈ inputs, Heeds g₀ g' n input.1 input.2 := by
  induction inputs generalizing g with
  | nil =>
    cases hexec
    exact ⟨h, fun id' name' _ => .refl g' id' name', fun _ hmem => absurd hmem List.not_mem_nil⟩
  | cons input inputs ih =>
    rcases List.nodup_cons.1 hnames with ⟨hfresh, hnames⟩
    obtain ⟨⟨⟩, g₁, hfirst, hrest⟩ := Act.exec_bind_eq_ok_iff.1 hexec
    rcases heeds_addInput hlinks h hn (hsame _ List.mem_cons_self) hfirst with
      ⟨hstage, hother, hheeds⟩
    have hsame' : ∀ name ∈ Table.names inputs, AgreeAt g₀ g₁ n.id name := by
      intro name hname
      refine (hsame name (List.mem_cons_of_mem _ hname)).trans (hother n.id name ?_)
      rintro ⟨-, rfl⟩
      exact hfresh hname
    rcases ih hstage hnames hsame' hrest with ⟨hstage', hother', hheeds'⟩
    refine ⟨hstage', fun id' name' hcell => ?_, fun input' hmem => ?_⟩
    · refine (hother id' name' ?_).trans (hother' id' name' ?_)
      · rintro ⟨hid, rfl⟩
        exact hcell ⟨hid, List.mem_cons_self⟩
      · rintro ⟨hid, hname⟩
        exact hcell ⟨hid, List.mem_cons_of_mem _ hname⟩
    · rcases List.mem_cons.1 hmem with rfl | hmem
      · refine hheeds.of_agreeAt (hother' n.id input'.1 ?_)
        rintro ⟨-, hname⟩
        exact hfresh hname
      · exact hheeds' input' hmem

/-- The node of a step that could take its inputs has taken them one by one. -/
theorem exec_each_of_addInputs (h : Stage g₀ g) (hn : n ∈ g₀.nodes) {m : String × Json}
    (hkey : keyId m.1 = .ok n.id) (hexec : (addInputs m).exec g = (.ok ⟨⟩, g')) :
    ∃ inputs, inputsOf m.2 = .ok inputs ∧
      (Act.each inputs (addInput n.id)).exec g = (.ok ⟨⟩, g') := by
  rcases h.exists_at? hn with ⟨n', hn', hframe⟩
  have hid : n'.id = n.id := id_of_at? hn'
  have hfind : g.find? n.id = .ok (some n') := lookup?_of_at? hn'
  simp only [addInputs, Act.exec_bind, Act.exec_lift, hkey, Act.exec_get, hfind] at hexec
  cases hinputs : inputsOf m.2 with
  | error f =>
    rw [hinputs] at hexec
    cases hexec
  | ok inputs =>
    rw [hinputs] at hexec
    exact ⟨inputs, rfl, hid ▸ hexec⟩

/-- The inputs of all steps are heeded, where different steps are those of different nodes. -/
theorem heeds_addInputs (hlinks : g₀.links = []) (h : Stage g₀ g) {steps : Members}
    (hkeys : (steps.map fun m => keyId m.1).Nodup)
    (hnodes : ∀ m ∈ steps, ∃ n ∈ g₀.nodes, keyId m.1 = .ok n.id)
    (hnames : ∀ m ∈ steps, ∀ inputs, inputsOf m.2 = .ok inputs → (Table.names inputs).Nodup)
    (hsame : ∀ n ∈ g₀.nodes, .ok n.id ∈ steps.map (fun m => keyId m.1) →
      ∀ name, AgreeAt g₀ g n.id name)
    (hexec : (Act.each steps addInputs).exec g = (.ok ⟨⟩, g')) :
    Stage g₀ g' ∧
      (∀ id name, .ok id ∉ steps.map (fun m => keyId m.1) → AgreeAt g g' id name) ∧
      ∀ m ∈ steps, ∀ n ∈ g₀.nodes, keyId m.1 = .ok n.id →
        ∃ inputs, inputsOf m.2 = .ok inputs ∧ ∀ input ∈ inputs, Heeds g₀ g' n input.1 input.2 := by
  induction steps generalizing g with
  | nil =>
    cases hexec
    exact ⟨h, fun id name _ => .refl g' id name, fun _ hmem => absurd hmem List.not_mem_nil⟩
  | cons m steps ih =>
    rcases List.nodup_cons.1 hkeys with ⟨hfresh, hkeys⟩
    obtain ⟨⟨⟩, g₁, hfirst, hrest⟩ := Act.exec_bind_eq_ok_iff.1 hexec
    rcases hnodes m List.mem_cons_self with ⟨n, hn, hkey⟩
    have hfresh : .ok n.id ∉ steps.map (fun m => keyId m.1) := hkey ▸ hfresh
    rcases exec_each_of_addInputs h hn hkey hfirst with ⟨inputs, hinputs, heach⟩
    have hfree : ∀ name, AgreeAt g₀ g n.id name :=
      hsame n hn (hkey ▸ List.mem_cons_self)
    rcases heeds_each hlinks h hn (hnames m List.mem_cons_self inputs hinputs)
      (fun name _ => hfree name) heach with ⟨hstage, hother, hheeds⟩
    have hsame' : ∀ n' ∈ g₀.nodes, .ok n'.id ∈ steps.map (fun m => keyId m.1) →
        ∀ name, AgreeAt g₀ g₁ n'.id name := by
      intro n' hn' hmem name
      refine (hsame n' hn' (List.mem_cons_of_mem _ hmem) name).trans (hother n'.id name ?_)
      rintro ⟨hid, -⟩
      exact hfresh (hid ▸ hmem)
    rcases ih hstage hkeys (fun m hm => hnodes m (List.mem_cons_of_mem _ hm))
      (fun m hm => hnames m (List.mem_cons_of_mem _ hm)) hsame' hrest with
      ⟨hstage', hother', hheeds'⟩
    refine ⟨hstage', fun id name hid => ?_, fun m' hm' n' hn' hkey' => ?_⟩
    · rw [List.map_cons, List.mem_cons, not_or, hkey] at hid
      refine (hother id name ?_).trans (hother' id name hid.2)
      rintro ⟨rfl, -⟩
      exact hid.1 rfl
    · rcases List.mem_cons.1 hm' with rfl | hm'
      · have hid : n' = n := by
          rw [hkey, Except.ok.injEq] at hkey'
          exact List.inj_on_of_nodup_map h.ids hn' hn hkey'.symm
        subst hid
        refine ⟨inputs, hinputs, fun input hinput => (hheeds input hinput).of_agreeAt ?_⟩
        exact hother' n'.id input.1 hfresh
      · exact hheeds' m' hm' n' hn' hkey'

/-! ## The nodes of steps -/

/-- The node is a new one of the class of the step, under an id that the key of the step stands for. -/
def Made (r : Registry) (n : Node Group) (m : String × Json) : Prop :=
  keyId m.1 = .ok n.id ∧ ∃ type, ∃ blank : Node Group, classOf m.2 = .ok type ∧
    r.create {} type.display = .ok blank ∧ n = { blank with id := n.id, order := n.order }

private theorem made_addStep {r : Registry} (hg : g.Booked) (hlinks : g.links = [])
    {m : String × Json} (hexec : (addStep r m).exec g = (.ok ⟨⟩, g')) :
    g'.Booked ∧ g'.links = [] ∧ ∃ n, g'.nodes = g.nodes ++ [n] ∧ Made r n m := by
  rcases Act.exec_bind_eq_ok_iff.1 hexec with ⟨type, _, htype, hexec⟩
  rw [Act.exec_lift_eq_ok_iff] at htype
  obtain ⟨htype, rfl⟩ := htype
  rcases Act.exec_bind_eq_ok_iff.1 hexec with ⟨id, _, hid, hexec⟩
  rw [Act.exec_lift_eq_ok_iff] at hid
  obtain ⟨hid, rfl⟩ := hid
  rcases Act.exec_bind_eq_ok_iff.1 hexec with ⟨blank, _, hblank, hexec⟩
  rw [Act.exec_lift_eq_ok_iff] at hblank
  obtain ⟨hblank, rfl⟩ := hblank
  rcases Act.exec_bind_eq_ok_iff.1 hexec with ⟨_, _, hadd, hexec⟩
  cases hexec
  have hbooked := (hg.add (Registry.isUnlinked_create hblank) (some id)).booked
  have hgiven : (some id).getD (.number (g.lastNodeId + 1)) = id := rfl
  rcases exec_add g (some id) blank hgiven with ⟨-, hexec⟩ | ⟨-, f, hexec⟩
  · rw [hadd] at hbooked hexec
    cases hexec
    exact ⟨hbooked, hlinks, g.placed id blank, rfl, hid, type, blank, htype, hblank, rfl⟩
  · rw [hadd] at hexec
    cases hexec

private theorem made_addSteps {r : Registry} (hg : g.Booked) (hlinks : g.links = [])
    {steps : Members} (hexec : (Act.each steps (addStep r)).exec g = (.ok ⟨⟩, g')) :
    g'.Booked ∧ g'.links = [] ∧ ∃ added, g'.nodes = g.nodes ++ added ∧
      added.map (fun n => .ok n.id) = steps.map (fun m => keyId m.1) ∧
      ∀ m ∈ steps, ∃ n ∈ added, Made r n m := by
  induction steps generalizing g with
  | nil =>
    cases hexec
    exact ⟨hg, hlinks, [], by simp, rfl, fun _ hm => absurd hm List.not_mem_nil⟩
  | cons m steps ih =>
    obtain ⟨⟨⟩, g₁, hfirst, hrest⟩ := Act.exec_bind_eq_ok_iff.1 hexec
    rcases made_addStep hg hlinks hfirst with ⟨hbooked, hlinks, n, hnodes, hmade⟩
    rcases ih hbooked hlinks hrest with ⟨hbooked', hlinks', added, hnodes', hkeys, hmade'⟩
    refine ⟨hbooked', hlinks', n :: added, ?_, ?_, fun m' hm' => ?_⟩
    · rw [hnodes', hnodes, List.append_assoc]
      rfl
    · rw [List.map_cons, List.map_cons, hkeys, hmade.1]
    · rcases List.mem_cons.1 hm' with rfl | hm'
      · exact ⟨n, List.mem_cons_self, hmade⟩
      · rcases hmade' m' hm' with ⟨n', hn', hmade'⟩
        exact ⟨n', List.mem_cons_of_mem _ hn', hmade'⟩

/-- A text that stands for a name is this name. -/
theorem eq_of_keyId_name {key s : String} (h : keyId key = .ok (.name s)) : s = key := by
  have hother := NodeId.otherSpelling?_of_keyId_name h
  rw [keyId, hother] at h
  cases h
  rfl

/-- Where all ids are those that keys stand for, a key finds the node of its id. -/
theorem lookup?_of_keyId (hkeys : ∀ n ∈ g.nodes, ∃ key, keyId key = .ok n.id) {key : String}
    {id : NodeId} (hkey : keyId key = .ok id) (hn : g.at? id = some n) :
    g.lookup? (.str key) = .ok (some n) := by
  cases id with
  | name s =>
    rw [eq_of_keyId_name hkey] at hn
    exact lookup?_of_at? hn
  | number k =>
    have hnone : g.at? (.name key) = none := by
      rw [Option.eq_none_iff_forall_ne_some]
      intro m hm
      rcases hkeys m (mem_of_at? hm) with ⟨key', hkey'⟩
      rw [id_of_at? hm] at hkey'
      rw [eq_of_keyId_name hkey', hkey'] at hkey
      cases hkey
    simp only [Graph.lookup?, idOf?, Option.bind_some, hnone,
      NodeId.otherSpelling?_of_keyId_number hkey]
    exact congrArg Except.ok hn

/-- A link that feeds a slot stands in all records. -/
theorem linked_of_feeding? (hg : g.Booked) (hn : g.at? n.id = some n) {l : Link}
    (hl : g.feeding? n.id name = some l) {o : Node Group} {i : Nat} (hleaves : l.Leaves o.id i) :
    g.Linked n name o i := by
  rw [feeding?, hn, Option.bind_some] at hl
  rcases Option.bind_eq_some_iff.1 hl with ⟨j, hj, hl⟩
  rcases Option.bind_eq_some_iff.1 hl with ⟨k, hk, hl⟩
  rcases exists_of_heldAt? (Option.join_eq_some_iff.1 hk) with ⟨n', s, hn', hs, hlink⟩
  rw [hn, Option.some.injEq] at hn'
  subst hn'
  rcases List.findIdx?_eq_some_iff_getElem.1 hj with ⟨hlt, hname, -⟩
  rcases hg.link?_of_held (Option.join_eq_some_iff.1 hk) with ⟨l', hl', hmem, hnumber, henters⟩
  rw [hl, Option.some.injEq] at hl'
  subst hl'
  have hsame : n.inputs[j] = s := by
    rw [List.getElem?_eq_getElem hlt, Option.some.injEq] at hs
    exact hs
  refine ⟨j, s, l, hs, ?_, hmem, hnumber ▸ hlink, hleaves, henters⟩
  rw [← hsame]
  simpa using hname

end Rebuild

/-! ## The graph of a prompt -/

private theorem Registry.exec_of_rebuild {r : Registry} {steps : Members} {g : Workflow}
    (h : r.rebuild (.obj steps) = .ok (some g, [])) :
    ∃ g₀, (Act.each steps (Rebuild.addStep r)).exec {} = (.ok ⟨⟩, g₀) ∧
      (Act.each steps Rebuild.addInputs).exec g₀ = (.ok ⟨⟩, g) := by
  rcases Fault.bind_eq_ok_iff.1 h with ⟨missing, -, h⟩
  cases missing with
  | cons first rest => cases h
  | nil =>
    dsimp only at h
    split at h
    · rename_i g' hbuild
      cases h
      rcases Act.exec_bind_eq_ok_iff.1 hbuild with ⟨_, g₀, hadd, htake⟩
      exact ⟨g₀, hadd, htake⟩
    · cases h

namespace Rebuild

/-- What a node of a rebuilt graph keeps of an input of its step, where `blank` is a new node of its
class.  A reference to an output that is there feeds the slot of its name, and a value that is no pair
stands in the widget of its name.  A reference under a name that is no slot is passed over, and leaves a
widget of this name as it was made. -/
structure KeepsInput (g : Workflow) (steps : Members) (d : Definition) (blank n : Node Group)
    (name : String) (v : Json) : Prop where
  linked : ∀ ref, Reference.ofJson? v = some ref → d.HasSlot name → ref.origin ∈ Table.names steps →
    ∃ o, g.lookup? (.str ref.origin) = .ok (some o) ∧ keyId ref.origin = .ok o.id ∧
      ∀ i : Nat, ref.slot = i → i < o.outputs.length → g.Linked n name o i
  shown : v.isPair = false → d.HasWidget name →
    ∃ w, Widget.find? n.widgets name = some w ∧ w.value = v
  passed : (Reference.ofJson? v).isSome = true → ¬ d.HasSlot name →
    (∀ s ∈ n.inputs, s.name ≠ name) ∧
      (Widget.find? n.widgets name).map (·.value) = (Widget.find? blank.widgets name).map (·.value)

private theorem shown_of_at? {γ : Type} {g : Graph γ} {id : NodeId} {n : Node γ}
    (hn : g.at? id = some n)
    (name : String) : (g.content id name).shown = (Widget.find? n.widgets name).map (·.value) := by
  simp only [content, hn, Option.bind_some]

section Keeps

variable {g₀ g : Workflow} {r : Registry} {steps : Members} {type name : String} {d : Definition}
  {blank n₀ n : Node Group} {v : Json}

/-- What is heeded is kept. -/
theorem Heeds.keepsInput (h : Heeds g₀ g n₀ name v) (hstage : Stage g₀ g)
    (hfound : ∀ key ∈ Table.names steps, ∃ o₀ ∈ g₀.nodes, keyId key = .ok o₀.id ∧
      g₀.lookup? (.str key) = .ok (some o₀))
    (hd : r.Defines type d) (hblank : r.create {} type = .ok blank) (hn₀ : n₀ ∈ g₀.nodes)
    (hinputs : n₀.inputs = blank.inputs) (hwidgets : n₀.widgets = blank.widgets)
    (hn : g.at? n₀.id = some n) (hframe : n.frame = n₀.frame) :
    KeepsInput g steps d blank n name v := by
  have hid : n.id = n₀.id := id_of_at? hn
  have hslot : (n₀.inputPosition? name).isSome = true ↔ d.HasSlot name := by
    rw [← hd.isSome_inputPosition?_iff hblank, Node.inputPosition?, hinputs, Node.inputPosition?]
  constructor
  · intro ref href hname hkey
    rcases hfound ref.origin hkey with ⟨o₀, ho₀, hkeyId, hlookup⟩
    rcases exists_of_map_eq (hstage.lookup? _) hlookup with ⟨o, ho, hframe'⟩
    have hoid : o.id = o₀.id := Node.id_of_frame hframe'
    refine ⟨o, ho, hoid ▸ hkeyId, fun i hi hlt => ?_⟩
    rcases h.link _ _ o₀ (.number ref.slot) i (Reference.eq_toJson_of_ofJson? href) hlookup rfl hi
      (Node.outputs_length_of_frame hframe' ▸ hlt) (hslot.2 hname) with ⟨l, hl, hleaves⟩
    exact linked_of_feeding? hstage.booked (hid ▸ hn) (hid ▸ hl) (hoid ▸ hleaves)
  · intro hv hname
    rcases hd.exists_widget hblank hname with ⟨w, hw, hwname⟩
    have hshown := h.value hv ⟨w, hwidgets ▸ hw, hwname⟩
    rw [shown_of_at? hn] at hshown
    exact Option.map_eq_some_iff.1 hshown
  · intro href hname
    obtain ⟨ref, href⟩ := Option.isSome_iff_exists.1 href
    have hpair : v.isPair = true := by
      rw [Reference.eq_toJson_of_ofJson? href]
      rfl
    constructor
    · intro s hs hsname
      refine hname (hslot.1 ?_)
      rw [← Node.inputPosition?_of_frame hframe, Node.inputPosition?, List.findIdx?_isSome,
        List.any_eq_true]
      exact ⟨s, hs, by simp [hsname]⟩
    · have hshown := h.pair hpair
      rwa [shown_of_at? hn, shown_of_at? (at?_of_mem hstage.ids hn₀), hwidgets] at hshown

end Keeps

end Rebuild

/-- In a graph that could be rebuilt from a prompt, the node of every step whose class follows a
definition keeps the inputs of the step: whatever the prompt holds otherwise, and however its keys are
spelled, no reference to an output that is there is lost for a slot, and no value that is no pair for a
widget. -/
theorem Registry.rebuild_keepsInputs (r : Registry) (steps : Members) (g : Workflow)
    (hnames : ∀ m ∈ steps, ∀ inputs, Rebuild.inputsOf m.2 = .ok inputs → (Table.names inputs).Nodup)
    (hrebuild : r.rebuild (.obj steps) = .ok (some g, [])) :
    ∀ m ∈ steps, ∀ type d, Rebuild.classOf m.2 = .ok (.str type) → r.Defines type d →
      ∃ (n blank : Node Group) (inputs : Members), keyId m.1 = .ok n.id ∧ g.at? n.id = some n ∧
        r.create {} type = .ok blank ∧ Rebuild.inputsOf m.2 = .ok inputs ∧
        ∀ input ∈ inputs, Rebuild.KeepsInput g steps d blank n input.1 input.2 := by
  intro m hm type d htype hd
  obtain ⟨g₀, hadd, htake⟩ := Registry.exec_of_rebuild hrebuild
  -- the nodes are added
  rcases Rebuild.made_addSteps Workflow.booked_blank rfl hadd with
    ⟨hbooked, hlinks, added, hnodes, hkeys, hmade⟩
  obtain rfl : g₀.nodes = added := hnodes
  have hkeyed : (steps.map fun m => keyId m.1).Nodup := by
    rw [← hkeys]
    have hinjective : Function.Injective fun id : NodeId => (.ok id : Except Fault NodeId) :=
      fun _ _ => Except.ok.inj
    have hids := hbooked.ids.map hinjective
    rwa [List.map_map] at hids
  have hnodes : ∀ m ∈ steps, ∃ n ∈ g₀.nodes, keyId m.1 = .ok n.id :=
    fun m hm => (hmade m hm).imp fun n hn => ⟨hn.1, hn.2.1⟩
  -- they take their inputs
  obtain ⟨hstage, -, hheeds⟩ := Rebuild.heeds_addInputs hlinks ⟨hbooked, rfl⟩ hkeyed hnodes hnames
    (fun n _ _ name => .refl g₀ n.id name) htake
  have hfound : ∀ key ∈ Table.names steps, ∃ o₀ ∈ g₀.nodes, keyId key = .ok o₀.id ∧
      g₀.lookup? (.str key) = .ok (some o₀) := by
    intro key hkey
    rcases List.mem_map.1 hkey with ⟨m', hm', rfl⟩
    rcases hnodes m' hm' with ⟨o₀, ho₀, hid⟩
    refine ⟨o₀, ho₀, hid, Rebuild.lookup?_of_keyId (fun n hn => ?_) hid (at?_of_mem hbooked.ids ho₀)⟩
    have hmem : .ok n.id ∈ steps.map (fun m => keyId m.1) := by
      rw [← hkeys]
      exact List.mem_map.2 ⟨n, hn, rfl⟩
    rcases List.mem_map.1 hmem with ⟨m'', -, hid'⟩
    exact ⟨m''.1, hid'⟩
  rcases hmade m hm with ⟨n₀, hn₀, hkey, type', blank, htype', hblank, hmadeOf⟩
  rw [htype, Except.ok.injEq] at htype'
  subst htype'
  rw [Json.display_str] at hblank
  rcases hstage.exists_at? hn₀ with ⟨n, hn, hframe⟩
  have hid : n.id = n₀.id := id_of_at? hn
  rcases hheeds m hm n₀ hn₀ hkey with ⟨inputs, hinputs, hheeds⟩
  have hslots : n₀.inputs = blank.inputs := by rw [hmadeOf]
  have hwidgets : n₀.widgets = blank.widgets := by rw [hmadeOf]
  exact ⟨n, blank, inputs, hid ▸ hkey, hid ▸ hn, hblank, hinputs, fun input hinput =>
    (hheeds input hinput).keepsInput hstage hfound hd hblank hn₀ hslots hwidgets hn hframe⟩

/-- Two classes: one makes an image, the other one takes an image and a text. -/
def Registry.captions : Registry where
  definitions := [("Paint", { name := "Paint", outputs := [.str "IMAGE"] }),
    ("Caption", { name := "Caption",
                  required := [("image", [.str "IMAGE"]), ("text", [.str "STRING"])] })]

/-- A prompt of both classes, the first one under a key that is no shown number. -/
def captionSteps (inputs : Members) : Members :=
  [("01", .obj [("class_type", .str "Paint")]),
    ("2", .obj [("class_type", .str "Caption"), ("inputs", .obj inputs)])]

private theorem Registry.captions_defines : captions.Defines "Caption"
    { name := "Caption", required := [("image", [.str "IMAGE"]), ("text", [.str "STRING"])] } :=
  ⟨rfl, rfl⟩

private theorem Rebuild.inputsOf_captionSteps {inputs : Members}
    (hnames : (Table.names inputs).Nodup) :
    ∀ m ∈ captionSteps inputs, ∀ inputs', inputsOf m.2 = .ok inputs' →
      (Table.names inputs').Nodup := by
  intro m hm inputs' h
  rcases List.mem_cons.1 hm with rfl | hm
  · cases h
    exact List.nodup_nil
  · rw [List.mem_singleton.1 hm] at h
    cases h
    exact hnames

/-- The image of the other step and a text are kept. -/
theorem Registry.captions_keepInputs : ∃ g n o, captions.rebuild (.obj (captionSteps
      [("image", .arr [.str "01", .int 0]), ("text", .str "dawn")])) = .ok (some g, []) ∧
    g.at? (.number 2) = some n ∧ keyId "01" = .ok o.id ∧ g.Linked n "image" o 0 ∧
    ∃ w, Widget.find? n.widgets "text" = some w ∧ w.value = .str "dawn" := by
  obtain ⟨g, hrebuild, houtputs⟩ : ∃ g, captions.rebuild (.obj (captionSteps
      [("image", .arr [.str "01", .int 0]), ("text", .str "dawn")])) = .ok (some g, []) ∧
      (g.lookup? (.str "01")).map (Option.map fun o => o.outputs.length) = .ok (some 1) :=
    ⟨_, rfl, rfl⟩
  obtain ⟨n, blank, inputs, hkey, hn, -, hinputs, hkeeps⟩ := rebuild_keepsInputs captions _ g
    (Rebuild.inputsOf_captionSteps (by decide)) hrebuild ("2", _)
    (List.mem_cons_of_mem _ (List.mem_singleton_self _)) "Caption" _ rfl captions_defines
  cases hinputs
  have hid : keyId "2" = .ok (.number 2) := rfl
  rw [hid, Except.ok.injEq] at hkey
  obtain ⟨o, ho, hokey, hlinked⟩ := (hkeeps ("image", .arr [.str "01", .int 0]) (by simp)).linked
    ⟨"01", 0⟩ rfl ⟨_, List.mem_cons_self, rfl, rfl⟩ (by simp [Table.names, captionSteps])
  rw [ho] at houtputs
  simp only [Except.map, Option.map_some, Except.ok.injEq, Option.some.injEq] at houtputs
  exact ⟨g, n, o, hrebuild, hkey ▸ hn, hokey, hlinked 0 rfl (by omega),
    (hkeeps ("text", .str "dawn") (by simp)).shown rfl
      ⟨_, List.mem_cons_of_mem _ List.mem_cons_self, rfl, rfl⟩⟩

/-- A reference to an output that is there, under the name of a widget: the node has no input of this
name, and the widget keeps the empty text that it was made with. -/
theorem Registry.captions_loseReference :
    let v : Json := .arr [.str "01", .int 0]
    ∃ g n o, captions.rebuild (.obj (captionSteps [("text", v)])) = .ok (some g, []) ∧
      Reference.ofJson? v = some ⟨"01", 0⟩ ∧ g.lookup? (.str "01") = .ok (some o) ∧
      0 < o.outputs.length ∧ (∃ d, captions.Defines "Caption" d ∧ d.HasWidget "text") ∧
      g.at? (.number 2) = some n ∧ (∀ s ∈ n.inputs, s.name ≠ "text") ∧
      (Widget.find? n.widgets "text").map (·.value) = some (.str "") :=
  ⟨_, _, _, rfl, rfl, rfl, by decide, ⟨_, captions_defines, _,
    List.mem_cons_of_mem _ List.mem_cons_self, rfl, rfl⟩, rfl, by decide, rfl⟩

end NodeFlow
