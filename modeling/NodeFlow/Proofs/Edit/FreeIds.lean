import NodeFlow.Proofs.Compile.Spelling
import NodeFlow.Proofs.Edit.Connect
import NodeFlow.Proofs.Drift
import NodeFlow.Proofs.Load.Stored

/-!
# Free ids

A node that is added without an id gets the number after the counter.  Loads, rebuilds and edits keep
the counter at or above the numbers of all nodes, so no node has that number.  The counter knows
nothing of nodes that are named by a text: the next number is taken where a node has its numeral for
an id.  An id that is asked for raises the counter before it is looked up, so that an edit that is
refused may leave a higher counter behind.

Main results:

- Definition `Graph.NumbersCounted`: no node has a number above the counter.
- Definition `Workflow.IsReached`: what loads, rebuilds and edits come to.
- Theorem `Workflow.IsReached.numbersCounted`: all of these count the numbers of their nodes.
- Definition `Graph.IsUnclaimed` and theorem `Graph.exec_add_above`: which numbers above the counter are
  given.
- Theorem `Workflow.IsReached.add_outcome`: what comes of adding a node, and what a refusal leaves.
-/

namespace NodeFlow

/-! ## The counter -/

namespace Graph

variable {γ : Type} {g g' : Graph γ}

/-- No node has a number above the counter. -/
def NumbersCounted (g : Graph γ) : Prop :=
  ∀ k, NodeId.number k ∈ g.nodes.map (·.id) → k ≤ g.lastNodeId

namespace NumbersCounted

/-- Nodes may go, and the counter may rise. -/
theorem of_subset (h : g.NumbersCounted) (hids : g'.nodes.map (·.id) ⊆ g.nodes.map (·.id))
    (hlast : g.lastNodeId ≤ g'.lastNodeId) : g'.NumbersCounted :=
  fun k hk => (h k (hids hk)).trans hlast

private theorem of_ids (h : g.NumbersCounted) (hids : g'.nodes.map (·.id) = g.nodes.map (·.id))
    (hlast : g'.lastNodeId = g.lastNodeId) : g'.NumbersCounted :=
  h.of_subset (hids ▸ List.Subset.refl _) hlast.ge

end NumbersCounted

private theorem le_counterFor (g : Graph γ) (id : NodeId) : g.lastNodeId ≤ g.counterFor id := by
  cases id <;> simp [counterFor]

private theorem le_counterFor_number (g : Graph γ) (k : Int) : k ≤ g.counterFor (.number k) := by
  simp [counterFor]

private theorem counterFor_eq_iff {id : NodeId} :
    g.counterFor id = g.lastNodeId ↔ ∀ k, id = .number k → k ≤ g.lastNodeId := by
  cases id <;> simp [counterFor]

private theorem configure_numbersCounted {build : SavedNode Document → Except Fault (Node γ)}
    {d : Document} (h : configure build d = .ok g) : g.NumbersCounted := by
  have hstored := configure_isStored (P := fun _ => True) h fun _ _ _ _ => trivial
  intro k hk
  rcases List.mem_map.1 hk with ⟨n, hn, hid⟩
  exact hstored.numbers n hn k hid

/-- A node that is added is counted, and a refused one raises the counter only. -/
theorem NumbersCounted.add (h : g.NumbersCounted) (id? : Option NodeId) (n : Node γ) :
    ((Graph.add id? n).exec g).2.NumbersCounted := by
  rcases exec_add g id? n rfl with ⟨-, hexec⟩ | ⟨-, f, hexec⟩
  · rw [hexec]
    intro k hk
    rw [List.map_append, List.mem_append] at hk
    rcases hk with hk | hk
    · exact (h k hk).trans (le_counterFor g _)
    · have hid : NodeId.number k = id?.getD (.number (g.lastNodeId + 1)) := List.mem_singleton.1 hk
      rw [← hid]
      exact le_counterFor_number g k
  · rw [hexec]
    exact h.of_subset (List.Subset.refl _) (le_counterFor g _)

end Graph

/-! ## Edits -/

namespace Workflow

open NodeFlow.Graph

variable {g : Workflow}

private theorem numbersCounted_modifyNode (h : NumbersCounted g) (id : NodeId)
    {f : Node Group → Node Group} (hf : ∀ n, (f n).id = n.id) :
    NumbersCounted (Graph.modifyNode id f g) :=
  h.of_ids (ids_modifyNode_of_id hf g id) rfl

private theorem numbersCounted_modifyAt (h : NumbersCounted g) (place : Place)
    {outer : Node Group → Node Group} {inner : Node Empty → Node Empty}
    (houter : ∀ n, (outer n).id = n.id) : NumbersCounted (modifyAt place outer inner g) := by
  cases place with
  | outer id => exact numbersCounted_modifyNode h id houter
  | inner host id =>
    refine numbersCounted_modifyNode h host fun n => ?_
    cases n.kind <;> simp

private theorem numbersCounted_modifyInput (h : NumbersCounted g) (place : Place) (i : Nat)
    (f : InputSlot → InputSlot) : NumbersCounted (modifyInput place i f g) :=
  numbersCounted_modifyAt h place fun _ => rfl

private theorem numbersCounted_modifyOutput (h : NumbersCounted g) (place : Place) (i : Nat)
    (f : OutputSlot → OutputSlot) : NumbersCounted (modifyOutput place i f g) :=
  numbersCounted_modifyAt h place fun _ => rfl

private theorem keeps_set {g' : Workflow} (h : NumbersCounted g') :
    (set g' : Act Workflow PUnit).Keeps NumbersCounted := fun _ _ => h

private theorem keeps_detachOrigin (l : Link) : (detachOrigin l).Keeps NumbersCounted := by
  refine .bind_get fun g hg => .bind (.lift _) fun origin => ?_
  cases origin with
  | none => exact .pure _
  | some o =>
    dsimp only
    split
    · split
      · exact .lift _
      · exact keeps_set (numbersCounted_modifyOutput hg _ _ _)
    · exact .pure _

private theorem keeps_disconnect (target : Place) (slot : Int) :
    (disconnect target slot).Keeps NumbersCounted := by
  refine .bind_get fun g hg => ?_
  split
  · exact .pure _
  · split
    · exact .lift _
    · split
      · exact .pure _
      · rename_i id _
        have hdropped : NumbersCounted (Graph.dropLink id g) := hg
        refine .bind (keeps_set (numbersCounted_modifyInput hdropped _ _ _)) fun _ => ?_
        split
        · exact .pure _
        · exact keeps_detachOrigin _

private theorem keeps_connect (origin target : Place) (originSlot targetSlot : Whole) :
    (connect origin originSlot target targetSlot).Keeps NumbersCounted := by
  refine .bind_get fun g _ => ?_
  split
  · split
    · exact .lift _
    · split
      · exact .lift _
      · refine .bind (keeps_disconnect _ _) fun _ => .bind (.modify fun _ hg => hg) fun _ =>
          .bind_get fun g hg => ?_
        split
        · split
          · exact .lift _
          · rename_i slot _
            refine .bind (keeps_set ?_) fun _ => .pure _
            have hput : NumbersCounted (Graph.putLink
                { id := g.lastLinkId, origin := origin.node.toJson, originSlot,
                  target := target.node.toJson, targetSlot, type := .str slot.type } g) := hg
            exact numbersCounted_modifyInput (numbersCounted_modifyOutput hput _ _ _) _ _ _
        · exact .lift _
  · exact .lift _

private theorem keeps_cutLink (id : Int) : (cutLink id).Keeps NumbersCounted := by
  refine .bind_get fun g _ => ?_
  split
  · exact .pure _
  · refine .bind (.lift _) fun target => ?_
    cases target with
    | none => exact .pure _
    | some n => exact keeps_disconnect _ _

private theorem keeps_cutOutput (place : Place) (slot : Nat) :
    (cutOutput place slot).Keeps NumbersCounted := by
  refine .bind_get fun g _ => ?_
  split
  · exact .pure _
  · exact .each fun id _ => keeps_cutLink id

private theorem keeps_remove (place : Place) : (remove place).Keeps NumbersCounted := by
  refine .bind_get fun g _ => ?_
  split
  · exact .pure _
  · refine .bind (.each fun i _ => keeps_disconnect _ _) fun _ =>
      .bind (.each fun i _ => keeps_cutOutput _ _) fun _ => .modify fun g hg => ?_
    have hcut : NumbersCounted (cutOff place g) := numbersCounted_modifyAt hg place fun _ => rfl
    exact hcut.of_subset (List.Sublist.subset (List.filter_sublist.map _)) (le_refl _)

end Workflow

/-! ## Prompts -/

namespace Rebuild

open NodeFlow.Graph Workflow

private theorem keeps_add (id? : Option NodeId) (n : Node Group) :
    (Graph.add id? n).Keeps NumbersCounted := by
  intro g hg
  have hstraight : (Graph.add id? n : Act Workflow NodeId).IsStraight := by
    refine .bind .get fun g => .bind (fun _ => rfl) fun _ => .bind (.lift _) fun found => ?_
    cases found with
    | none => exact .bind (.modify _) fun _ => .pure _
    | some m => exact .lift _
  rw [hstraight g]
  exact hg.add id? n

private theorem keeps_addStep (r : Registry) (step : String × Json) :
    (addStep r step).Keeps NumbersCounted :=
  .bind (.lift _) fun _ => .bind (.lift _) fun _ => .bind (.lift _) fun _ =>
    .bind (keeps_add _ _) fun _ => .pure _

private theorem keeps_addInput (id : NodeId) (input : String × Json) :
    (addInput id input).Keeps NumbersCounted := by
  unfold addInput
  split
  · refine .bind_get fun g _ => .bind (.lift _) fun origin => ?_
    split
    · split
      · exact .bind (keeps_connect _ _ _ _) fun _ => .pure _
      · exact .pure _
    · exact .pure _
  · refine .modify fun g hg => numbersCounted_modifyNode hg id fun n => ?_
    split <;> rfl

private theorem keeps_addInputs (step : String × Json) : (addInputs step).Keeps NumbersCounted := by
  refine .bind (.lift _) fun key => .bind_get fun g _ => .bind (.lift _) fun found => ?_
  cases found with
  | none => exact .pure _
  | some n => exact .bind (.lift _) fun inputs => .each fun input _ => keeps_addInput n.id input

/-- A graph that is rebuilt from a prompt counts the numbers of its nodes. -/
theorem rebuild_numbersCounted {r : Registry} {prompt : Json} {g : Workflow}
    {missing : List MissingType} (h : r.rebuild prompt = .ok (some g, missing)) :
    NumbersCounted g := by
  cases prompt with
  | obj steps =>
    rcases Fault.bind_eq_ok_iff.1 h with ⟨classes, -, h⟩
    have hkeeps : (do Act.each steps (addStep r); Act.each steps addInputs : Act Workflow PUnit).Keeps
        NumbersCounted := .bind (.each fun m _ => keeps_addStep r m) fun _ =>
      .each fun m _ => keeps_addInputs m
    cases classes with
    | cons m ms => cases h
    | nil =>
      dsimp only at h
      split at h
      · rename_i hexec
        cases h
        exact hkeeps.of_exec (fun k hk => (by cases hk)) hexec
      · cases h
  | _ => cases h

end Rebuild

/-! ## Loads -/

namespace Workflow

open NodeFlow.Graph

variable {g g' : Workflow}

private theorem numbersCounted_of_names (h : NumbersCounted g) (hnames : names g' = names g)
    (hlast : g'.lastNodeId = g.lastNodeId) : NumbersCounted g' := by
  refine h.of_ids ?_ hlast
  rw [← ids_names, hnames, ids_names]

private theorem lastNodeId_finishNode {γ : Type} {g g' : Graph γ} {id : NodeId}
    (h : g.finishNode id = .ok g') : g'.lastNodeId = g.lastNodeId := by
  rcases finishNode_cases h with rfl | ⟨n, n', -, -, rfl⟩ <;> simp [modifyNode]

private theorem lastNodeId_finishDeep {id : NodeId} (h : finishDeep g id = .ok g') :
    g'.lastNodeId = g.lastNodeId := by
  rcases Fault.bind_eq_ok_iff.1 h with ⟨g₁, hfirst, h⟩
  rw [← lastNodeId_finishNode hfirst]
  split at h
  · cases h
    simp
  · rcases Fault.bind_eq_ok_iff.1 h with ⟨inner, -, h⟩
    cases h
    simp [modifyGroup, modifyNode]

private theorem lastNodeId_finishEach {ids : List NodeId} (h : finishEach g ids = .ok g') :
    g'.lastNodeId = g.lastNodeId := by
  induction ids generalizing g with
  | nil =>
    cases h
    simp
  | cons id ids ih =>
    rcases Fault.bind_eq_ok_iff.1 h with ⟨g₁, hfirst, h⟩
    rw [ih h, lastNodeId_finishDeep hfirst]

@[simp] theorem lastNodeId_modifyAt (place : Place) (outer : Node Group → Node Group)
    (inner : Node Empty → Node Empty) (g : Workflow) :
    (modifyAt place outer inner g).lastNodeId = g.lastNodeId := by
  cases place <;> simp [modifyAt, modifyGroup, modifyNode]

private theorem lastNodeId_patch (reset : Bool) (g : Workflow) :
    (patch reset g).lastNodeId = g.lastNodeId := by
  have hfold : ∀ (places : List Place) (g : Workflow),
      (places.foldl (patchAt reset) g).lastNodeId = g.lastNodeId := by
    intro places
    induction places with
    | nil => simp
    | cons place places ih =>
      intro g
      rw [List.foldl_cons, ih, patchAt, lastNodeId_modifyAt]
  exact hfold _ g

end Workflow

namespace Registry

private theorem assemble_numbersCounted {r : Registry} {d : Document} {g : Workflow}
    (h : r.assemble d = .ok g) : Graph.NumbersCounted g := by
  rcases Fault.bind_eq_ok_iff.1 h with ⟨g₀, hconfigured, h⟩
  exact Workflow.numbersCounted_of_names (Graph.configure_numbersCounted hconfigured)
    (Workflow.names_finishEach (configure_distinctKeys hconfigured).distinct.outer h)
    (Workflow.lastNodeId_finishEach h)

end Registry

namespace Editor

open Workflow

private theorem lastNodeId_offerNode {g g' : Workflow} {place : Place} {e e' : Editor}
    (h : (offerNode g place).exec e = (.ok g', e')) : g'.lastNodeId = g.lastNodeId := by
  unfold offerNode at h
  split at h
  · rcases Act.exec_bind_eq_ok_iff.1 h with ⟨answer, u, -, h⟩
    split at h <;> cases h <;> simp
  · cases h
    simp

private theorem lastNodeId_settleNodes {reset : Bool} {g g' : Workflow} {places : List Place}
    {e e' : Editor} (h : (settleNodes reset g places).exec e = (.ok g', e')) :
    g'.lastNodeId = g.lastNodeId := by
  induction places generalizing g e with
  | nil =>
    cases h
    simp
  | cons place places ih =>
    rcases Act.exec_bind_eq_ok_iff.1 h with ⟨g₁, u, hfirst, h⟩
    rw [ih h, lastNodeId_offerNode hfirst, patchAt, lastNodeId_modifyAt]

private theorem assemble_numbersCounted {source : LoadSource} {e e' : Editor} {g : Workflow}
    {missing : List MissingType} (h : (assemble source).exec e = (.ok (g, missing), e')) :
    Graph.NumbersCounted g := by
  rcases exists_assembled h with ⟨_, _, _, _, g₀, _, -, hassembled, hsettled, -⟩
  exact numbersCounted_of_names (Registry.assemble_numbersCounted hassembled)
    (names_settleNodes hsettled) (lastNodeId_settleNodes hsettled)

end Editor

private theorem Workflow.IsLoaded.numbersCounted {g : Workflow} (h : IsLoaded g) :
    Graph.NumbersCounted g := by
  cases h with
  | alone h =>
    rcases Registry.load_eq_ok_iff.1 h with ⟨_, g₀, -, hassembled, rfl, -⟩
    exact numbersCounted_of_names (Registry.assemble_numbersCounted hassembled)
      (names_patch _ g₀) (lastNodeId_patch _ g₀)
  | inEditor h => exact Editor.assemble_numbersCounted h

/-! ## Runs -/

/-- A load or a rebuild and edits after it come to this workflow.  The edits may concern any place,
and those that fail count too. -/
inductive Workflow.IsReached : Workflow → Prop
  | loaded {g : Workflow} (h : IsLoaded g) : IsReached g
  | rebuilt {r : Registry} {prompt : Json} {g : Workflow} {missing : List MissingType}
      (h : r.rebuild prompt = .ok (some g, missing)) : IsReached g
  | added {g : Workflow} (h : IsReached g) (id? : Option NodeId) (n : Node Group) :
      IsReached ((Graph.add id? n).exec g).2
  | connected {g : Workflow} (h : IsReached g) (origin target : Place)
      (originSlot targetSlot : Whole) :
      IsReached ((connect origin originSlot target targetSlot).exec g).2
  | disconnected {g : Workflow} (h : IsReached g) (target : Place) (slot : Int) :
      IsReached ((disconnect target slot).exec g).2
  | removed {g : Workflow} (h : IsReached g) (place : Place) :
      IsReached ((remove place).exec g).2

/-- Loads, rebuilds and edits count the numbers of all nodes. -/
theorem Workflow.IsReached.numbersCounted {g : Workflow} (h : IsReached g) :
    Graph.NumbersCounted g := by
  induction h with
  | loaded h => exact h.numbersCounted
  | rebuilt h => exact Rebuild.rebuild_numbersCounted h
  | added _ id? n ih => exact ih.add id? n
  | connected _ origin target originSlot targetSlot ih =>
    exact (keeps_connect origin target originSlot targetSlot).of_exec ih rfl
  | disconnected _ target slot ih => exact (keeps_disconnect target slot).of_exec ih rfl
  | removed _ place ih => exact (keeps_remove place).of_exec ih rfl

/-! ## Adding a node -/

namespace Graph

variable {γ : Type} {g : Graph γ}

/-- The number can be written, and no node has its numeral for an id. -/
def IsUnclaimed (g : Graph γ) (k : Int) : Prop :=
  IsReadable k ∧ NodeId.name (toString k) ∉ g.nodes.map (·.id)

instance (g : Graph γ) (k : Int) : Decidable (g.IsUnclaimed k) := inferInstanceAs (Decidable (_ ∧ _))

private theorem at?_eq_none_iff {id : NodeId} : g.at? id = none ↔ id ∉ g.nodes.map (·.id) := by
  simp [at?]

private theorem NumbersCounted.at?_above (h : g.NumbersCounted) {k : Int} (hk : g.lastNodeId < k) :
    g.at? (.number k) = none := by
  rw [at?_eq_none_iff]
  intro hmem
  have hle := h k hmem
  omega

/-- A number that no node has is looked up under its numeral. -/
theorem find?_number {k : Int} (hk : g.at? (.number k) = none) :
    g.find? (.number k) = .ok (g.at? (.name (toString k))) := by
  simp [find?, lookup?, NodeId.toJson, idOf?, hk, otherSpelling?, bind, Except.bind, pure, Except.pure]

/-- A numeral that no node has is looked up as a number. -/
theorem find?_numeral {k : Int} (hk : IsReadable k) (hname : g.at? (.name (toString k)) = none) :
    g.find? (.name (toString k)) = .ok (g.at? (.number k)) := by
  simp only [find?, lookup?, NodeId.toJson, idOf?, Option.bind_some, hname, otherSpelling?,
    Text.looksNumeric_toString, if_true, Fault.readWhole_toString hk]
  rfl

private theorem occupant?_number_iff {k : Int} (hk : g.at? (.number k) = none) :
    g.occupant? (.number k) = .ok none ↔ g.IsUnclaimed k := by
  unfold IsUnclaimed
  by_cases hreadable : IsReadable k
  · have hwritable : Fault.writableOnly (.number k) = .ok (.number k) := if_pos hreadable
    rw [occupant?_of_writableOnly g hwritable, find?_number hk, Except.ok.injEq, at?_eq_none_iff]
    simp [hreadable]
  · have hunwritable : Fault.writableOnly (.number k) = .error Fault.tooLongToWrite :=
      if_neg hreadable
    simp [occupant?, hunwritable, hreadable, bind, Except.bind]

/-- A number above the counter is given to a node if it is free; the counter rises to it in any
case. -/
theorem exec_add_above (h : g.NumbersCounted) {k : Int} (hk : g.lastNodeId < k)
    (id? : Option NodeId) (hid : id?.getD (.number (g.lastNodeId + 1)) = .number k) (n : Node γ) :
    g.IsUnclaimed k ∧ (Graph.add id? n).exec g = (.ok (.number k),
        { g with nodes := g.nodes ++ [g.placed (.number k) n], lastNodeId := k }) ∨
      ¬ g.IsUnclaimed k ∧ ∃ f, (Graph.add id? n).exec g = (.error f, { g with lastNodeId := k }) := by
  have hcounter : g.counterFor (.number k) = k := max_eq_right hk.le
  rw [← occupant?_number_iff (h.at?_above hk)]
  have hadd := exec_add g id? n hid
  rwa [hcounter] at hadd

end Graph

namespace Workflow

open NodeFlow.Graph

variable {g : Workflow}

/-- A node without an id gets the number after the counter, which no lookup found before in either
spelling, if that number is free; otherwise the edit is refused.  An edit that is refused under an id
of its own leaves the graph as it was, unless the id is a number above the counter that is not free:
then the counter has risen to it. -/
theorem IsReached.add_outcome (h : IsReached g) (n : Node Group) :
    (IsUnclaimed g (g.lastNodeId + 1) ∧
          find? g (.number (g.lastNodeId + 1)) = .ok none ∧
          find? g (.name (toString (g.lastNodeId + 1))) = .ok none ∧
          (Graph.add none n).exec g = (.ok (.number (g.lastNodeId + 1)),
            { g with nodes := g.nodes ++ [placed g (.number (g.lastNodeId + 1)) n],
                     lastNodeId := g.lastNodeId + 1 }) ∨
        ¬ IsUnclaimed g (g.lastNodeId + 1) ∧ ∃ f, (Graph.add none n).exec g =
          (.error f, { g with lastNodeId := g.lastNodeId + 1 })) ∧
      ∀ id f g', (Graph.add (some id) n).exec g = (.error f, g') →
        (∃ k, id = .number k ∧ g.lastNodeId < k ∧ ¬ IsUnclaimed g k ∧ g' = { g with lastNodeId := k }) ∨
          (∀ k, id = .number k → k ≤ g.lastNodeId) ∧ g' = g := by
  have hcounted := h.numbersCounted
  refine ⟨?_, ?_⟩
  · have hlt : g.lastNodeId < g.lastNodeId + 1 := by omega
    have hnumber := hcounted.at?_above hlt
    rcases exec_add_above hcounted hlt none rfl n with ⟨hfree, hexec⟩ | hrefused
    · have hname := at?_eq_none_iff.2 hfree.2
      refine .inl ⟨hfree, ?_, ?_, hexec⟩
      · rw [find?_number hnumber, hname]
      · rw [find?_numeral hfree.1 hname, hnumber]
    · exact .inr hrefused
  · intro id f g' hfailed
    by_cases habove : ∃ k, id = .number k ∧ g.lastNodeId < k
    · rcases habove with ⟨k, rfl, hk⟩
      rcases exec_add_above hcounted hk (some _) rfl n with ⟨-, hexec⟩ | ⟨hfree, f', hexec⟩
      · rw [hfailed] at hexec
        cases hexec
      · rw [hfailed] at hexec
        cases hexec
        exact .inl ⟨k, rfl, hk, hfree, rfl⟩
    · have hbelow : ∀ k, id = .number k → k ≤ g.lastNodeId := by
        intro k hk
        by_contra hlt
        exact habove ⟨k, hk, by omega⟩
      rcases exec_add g (some id) n rfl with ⟨-, hexec⟩ | ⟨-, f', hexec⟩
      · rw [hfailed] at hexec
        cases hexec
      · rw [hfailed, Option.getD_some, counterFor_eq_iff.2 hbelow] at hexec
        cases hexec
        exact .inr ⟨hbelow, rfl⟩

/-- A document with a note under the id. -/
def noted (id : NodeId) : Document := { nodes := [{ id := id, type := "Note" }] }

/-- The graph of this document. -/
def loadedNote (id : NodeId) : Workflow :=
  ((Registry.load {} (.document (noted id))).toOption.map (·.1)).getD {}

/-- A node to be added. -/
def note : Node Group := { type := "Note", title := none }

/-- After the removal of a node of the number 7 the next number is 8, and in its presence nothing is
changed by the attempt to add another one under that number. -/
theorem loadedNote_adds :
    IsReached (loadedNote (.number 7)) ∧
      ((Graph.add none note).exec ((remove (.outer (.number 7))).exec (loadedNote (.number 7))).2).1 =
        .ok (.number 8) ∧
      ∃ f, (Graph.add (some (.number 7)) note).exec (loadedNote (.number 7)) =
        (.error f, loadedNote (.number 7)) := by
  obtain ⟨missing, hload⟩ : ∃ missing, Registry.load {} (.document (noted (.number 7))) =
    .ok (loadedNote (.number 7), missing) := ⟨_, rfl⟩
  have hreached : IsReached (loadedNote (.number 7)) := .loaded (.alone hload)
  refine ⟨hreached, ?_, ?_⟩
  · have hlast : ((remove (.outer (.number 7))).exec (loadedNote (.number 7))).2.lastNodeId = 7 := by
      decide +kernel
    rcases (hreached.removed (.outer (.number 7))).add_outcome note with
      ⟨⟨-, -, -, hexec⟩ | ⟨htaken, -⟩, -⟩
    · rw [hexec, hlast]
      simp
    · exact absurd (by decide +kernel) htaken
  · obtain ⟨f, g', hfailed⟩ : ∃ f g', (Graph.add (some (.number 7)) note).exec
      (loadedNote (.number 7)) = (.error f, g') := ⟨_, _, rfl⟩
    rcases (hreached.add_outcome note).2 _ f g' hfailed with ⟨k, hid, habove, -⟩ | ⟨-, hsame⟩
    · cases hid
      exact absurd habove (by decide +kernel)
    · exact ⟨f, hsame ▸ hfailed⟩

/-- Beside a node with the numeral 1 for an id, no node can be added without an id.  Beside one with
the numeral 9, the number 9 is refused, but the counter stays at it. -/
theorem loadedNumeral_refuses :
    IsReached (loadedNote (.name "1")) ∧ IsReached (loadedNote (.name "9")) ∧
      (∃ f g', (Graph.add none note).exec (loadedNote (.name "1")) = (.error f, g')) ∧
      ∃ f g', (Graph.add (some (.number 9)) note).exec (loadedNote (.name "9")) = (.error f, g') ∧
        (loadedNote (.name "9")).lastNodeId = 0 ∧ g'.lastNodeId = 9 := by
  obtain ⟨missing, hload⟩ : ∃ missing, Registry.load {} (.document (noted (.name "1"))) =
    .ok (loadedNote (.name "1"), missing) := ⟨_, rfl⟩
  obtain ⟨missing', hload'⟩ : ∃ missing, Registry.load {} (.document (noted (.name "9"))) =
    .ok (loadedNote (.name "9"), missing) := ⟨_, rfl⟩
  refine ⟨.loaded (.alone hload), .loaded (.alone hload'), ⟨_, _, rfl⟩, _, _, rfl, ?_, ?_⟩ <;>
    decide +kernel

end Workflow

end NodeFlow
