import NodeFlow.Proofs.Edit.Agreement
import NodeFlow.Proofs.Load.Contents
import NodeFlow.Proofs.Load.Keys
import NodeFlow.Proofs.Load.Refusal

/-!
# What a prompt is rejected for

A prompt whose classes are all known is rebuilt unless a step of its own is at fault: its class, its
key, its inputs, or an origin of one of them.  Edits never fail on the way, since the records of the
graph agree at every stage.

Main results:

- Type `Rebuild.Trips`: the flaws of a prompt that cannot be rebuilt.
- Definition `Rebuild.GoesOn`: what an edit comes to in a graph whose records agree.
- Theorem `Registry.rebuild_failsWith`: a prompt is rebuilt, or one of its steps is at fault.
-/

namespace NodeFlow

open NodeFlow.Graph

/-! ## Ids of keys -/

/-- A value that is no simple one. -/
def Json.IsContainer (v : Json) : Prop := (∃ items, v = .arr items) ∨ ∃ members, v = .obj members

/-- A value that cannot name a node. -/
def Json.IsUnnameable (v : Json) : Prop :=
  v.IsContainer ∨ ∃ s f, v = .str s ∧ Text.looksNumeric s = true ∧ Fault.readWhole s = .error f

private theorem Graph.Refuses.isUnnameable {γ : Type} {g : Graph γ} {v : Json} (h : g.Refuses v) :
    v.IsUnnameable := by
  cases h with
  | array items => exact .inl (.inl ⟨items, rfl⟩)
  | object members => exact .inl (.inr ⟨members, rfl⟩)
  | text _ hlooks hread => exact .inr ⟨_, _, rfl, hlooks, hread⟩

/-- The id of a key that is a text does not look like a number. -/
theorem NodeId.looksNumeric_of_keyId {key s : String} (h : keyId key = .ok (.name s)) :
    Text.looksNumeric s = false := by
  have hother := otherSpelling?_of_keyId_name h
  have hsame : key = s := by
    unfold keyId at h
    rw [hother] at h
    cases h
    rfl
  subst hsame
  rw [← Bool.not_eq_true]
  intro hlooks
  rw [otherSpelling?, if_pos hlooks] at hother
  rcases Fault.map_eq_ok_iff.1 hother with ⟨n, -, hn⟩
  cases hn

/-- The id of a key can be looked up; it finds the node that carries it, if the ids of all nodes are
those of keys. -/
theorem Graph.find?_of_keyId {γ : Type} {g : Graph γ}
    (hg : ∀ n ∈ g.nodes, ∃ key, keyId key = .ok n.id) {key : String} {id : NodeId}
    (h : keyId key = .ok id) : g.find? id = .ok (g.at? id) := by
  cases hat : g.at? id with
  | some n => exact lookup?_of_at? hat
  | none =>
    cases id with
    | name s =>
      have hlooks := NodeId.looksNumeric_of_keyId h
      simp only [find?, NodeId.toJson, lookup?, idOf?, Option.bind_some, hat, otherSpelling?, hlooks]
      rfl
    | number k =>
      have hname : g.at? (.name (toString k)) = none := by
        cases hat : g.at? (.name (toString k)) with
        | none => rfl
        | some m =>
          rcases hg m (mem_of_at? hat) with ⟨key', hkey'⟩
          rw [id_of_at? hat] at hkey'
          have hlooks := NodeId.looksNumeric_of_keyId hkey'
          rw [Text.looksNumeric_toString] at hlooks
          cases hlooks
      simp only [find?, NodeId.toJson, lookup?, idOf?, Option.bind_some, hat, otherSpelling?]
      exact congrArg Except.ok hname

namespace Rebuild

/-! ## Flaws -/

/-- What is wrong with a prompt that cannot be rebuilt: a class that cannot be one; or, if all classes
are known, a key that is no id, two keys of one id, a class without nodes, inputs that are none, or an
input from an origin that cannot name a node. -/
inductive Trips (r : Registry) (steps : Members) : Prop
  | type {m : String × Json} {v : Json} (hm : m ∈ steps) (hclass : classOf m.2 = .ok v)
      (h : v.IsContainer)
  | key (hknown : missingClasses r (steps.map (·.2)) = .ok []) {m : String × Json} {f : Fault}
      (hm : m ∈ steps) (h : keyId m.1 = .error f)
  | twice (hknown : missingClasses r (steps.map (·.2)) = .ok [])
      (h : ¬ steps.Pairwise fun m m' => ∀ id, keyId m.1 = .ok id → keyId m'.1 ≠ .ok id)
  | node (hknown : missingClasses r (steps.map (·.2)) = .ok []) {m : String × Json} {v : Json}
      {f : Fault} (hm : m ∈ steps) (hclass : classOf m.2 = .ok v)
      (h : (r.create {} v.display : Except Fault (Node Group)) = .error f)
  | inputs (hknown : missingClasses r (steps.map (·.2)) = .ok []) {m : String × Json} {f : Fault}
      (hm : m ∈ steps) (h : inputsOf m.2 = .error f)
  | origin (hknown : missingClasses r (steps.map (·.2)) = .ok []) {m : String × Json}
      {inputs : Members} {name : String} {origin slot : Json} (hm : m ∈ steps)
      (hinputs : inputsOf m.2 = .ok inputs) (hinput : (name, .arr [origin, slot]) ∈ inputs)
      (h : origin.IsUnnameable)

/-! ## Classes -/

variable {r : Registry} {steps : Members}

private theorem exists_classOf (hprompt : isPrompt (.obj steps) = true) {m : String × Json}
    (hm : m ∈ steps) : ∃ v, classOf m.2 = .ok v := by
  rw [isPrompt, Bool.and_eq_true, List.all_eq_true] at hprompt
  have htruthy := hprompt.2 m hm
  cases hstep : m.2 with
  | obj ms =>
    rw [hstep, Json.get?] at htruthy
    rw [classOf]
    cases hget : Table.get? ms "class_type" with
    | some v => exact ⟨v, rfl⟩
    | none =>
      rw [hget] at htruthy
      cases htruthy
  | _ =>
    rw [hstep] at htruthy
    cases htruthy

private theorem missingClasses_failsWith (hprompt : isPrompt (.obj steps) = true) :
    FailsWith (fun _ => Trips r steps) (missingClasses r (steps.map (·.2))) := by
  have hall : ∀ rest : Members, (∀ m ∈ rest, m ∈ steps) →
      FailsWith (fun _ => Trips r steps) (missingClasses r (rest.map (·.2))) := by
    intro rest
    induction rest with
    | nil => exact fun _ => .ok _
    | cons m rest ih =>
      intro hrest
      have hm := hrest m List.mem_cons_self
      rcases exists_classOf hprompt hm with ⟨v, hv⟩
      have hone : FailsWith (fun _ => Trips r steps) (missingClass? r m.2) := by
        rw [missingClass?, hv]
        simp only [bind, Except.bind]
        split
        · exact .ok _
        · exact .error (.type hm hv (.inl ⟨_, rfl⟩))
        · exact .error (.type hm hv (.inr ⟨_, rfl⟩))
        · exact .ok _
      refine hone.bind fun found _ => ?_
      exact (ih fun m' hm' => hrest m' (List.mem_cons_of_mem m hm')).bind fun _ _ => .ok _
  exact hall steps fun m hm => hm

/-! ## Edits -/

/-- An edit is done and the records of the graph agree again, or it fails for the given reason. -/
def GoesOn (P : Prop) (g : Workflow) (act : Act Workflow PUnit) : Prop :=
  (∃ g', act.exec g = (.ok ⟨⟩, g') ∧ g'.Booked) ∨ (∃ f g', act.exec g = (.error f, g')) ∧ P

section GoesOn

variable {P : Prop} {g : Workflow}

private theorem goesOn_each {α : Type} {xs : List α} {f : α → Act Workflow PUnit}
    (hf : ∀ x ∈ xs, ∀ g : Workflow, g.Booked → GoesOn P g (f x)) (hg : g.Booked) :
    GoesOn P g (Act.each xs f) := by
  induction xs generalizing g with
  | nil => exact .inl ⟨g, rfl, hg⟩
  | cons x xs ih =>
    unfold GoesOn
    rw [Act.each, Act.exec_bind]
    rcases hf x List.mem_cons_self g hg with ⟨g', hexec, hg'⟩ | ⟨⟨e, g', hexec⟩, hP⟩
    · rw [hexec]
      exact ih (fun y hy => hf y (List.mem_cons_of_mem x hy)) hg'
    · rw [hexec]
      exact .inr ⟨⟨e, g', rfl⟩, hP⟩

end GoesOn

/-- An input takes its link unless its origin cannot name a node. -/
theorem connectInput_goesOn {g : Workflow} (hg : g.Booked) (id : NodeId) (name : String)
    (origin originSlot : Json) :
    GoesOn origin.IsUnnameable g (connectInput id name origin originSlot) := by
  have hnothing : ∀ {g : Workflow}, g.Booked →
      GoesOn origin.IsUnnameable g (pure ⟨⟩ : Act Workflow PUnit) := fun {g} h => .inl ⟨g, rfl, h⟩
  unfold GoesOn
  rw [connectInput, Act.exec_bind, Act.exec_get]
  dsimp only
  rw [Act.exec_bind, Act.exec_lift]
  cases hlookup : g.lookup? origin with
  | error f => exact .inr ⟨⟨f, g, rfl⟩, (refuses_iff.2 ⟨f, hlookup⟩).isUnnameable⟩
  | ok found =>
    dsimp only
    split
    · rename_i o i slot hi _
      split
      · rename_i hrange
        rw [Bool.and_eq_true, decide_eq_true_eq, decide_eq_true_eq] at hrange
        have ho : g.at? o.id = some o := at?_of_mem hg.ids (mem_of_lookup? hlookup)
        rcases Option.bind_eq_some_iff.1 hi with ⟨t, ht, hposition⟩
        have hin : i < t.inputs.length := (List.findIdx?_eq_some_iff_getElem.1 hposition).1
        have hslot : slot.val = (slot.val.toNat : Int) := (Int.toNat_of_nonneg hrange.1).symm
        have hout : slot.val.toNat < o.outputs.length := by omega
        rcases Workflow.exec_connect hg ho ht hslot (rfl : (Whole.number i).val = (i : Int)) with
          ⟨hno, -⟩ | ⟨l, g', hexec, -, -, hspares⟩
        · exact absurd ⟨hout, hin⟩ hno
        · refine .inl ⟨g', ?_, hspares.booked⟩
          rw [Act.exec_bind, hexec]
          rfl
      · exact hnothing hg
    · exact hnothing hg

private theorem addInput_goesOn {g : Workflow} (hg : g.Booked) (id : NodeId)
    (input : String × Json) :
    GoesOn (∃ origin slot, input.2 = .arr [origin, slot] ∧ origin.IsUnnameable) g
      (addInput id input) := by
  unfold addInput
  split
  · rename_i origin slot hpair
    rcases connectInput_goesOn hg id input.1 origin slot with hdone | ⟨hfails, horigin⟩
    · exact .inl hdone
    · exact .inr ⟨hfails, origin, slot, hpair, horigin⟩
  · exact .inl ⟨_, rfl, hg.assign id input.1⟩

/-- A node takes the inputs of its step unless something is wrong with them. -/
theorem addInputs_goesOn (hknown : missingClasses r (steps.map (·.2)) = .ok []) {g : Workflow}
    (hg : g.Booked) {m : String × Json} (hm : m ∈ steps) :
    GoesOn (Trips r steps) g (addInputs m) := by
  unfold GoesOn
  rw [addInputs, Act.exec_bind, Act.exec_lift]
  cases hkey : keyId m.1 with
  | error f => exact .inr ⟨⟨f, g, rfl⟩, .key hknown hm hkey⟩
  | ok id =>
    dsimp only
    rw [Act.exec_bind, Act.exec_get]
    dsimp only
    rw [Act.exec_bind, Act.exec_lift]
    cases hfind : g.find? id with
    | error f =>
      -- an id of a key can be looked up
      rcases isUnreadable_of_find? hfind with ⟨s, -, rfl, hlooks, -⟩
      rw [NodeId.looksNumeric_of_keyId hkey] at hlooks
      cases hlooks
    | ok found =>
      dsimp only
      cases found with
      | none => exact .inl ⟨g, rfl, hg⟩
      | some n =>
        dsimp only
        rw [Act.exec_bind, Act.exec_lift]
        cases hinputs : inputsOf m.2 with
        | error f => exact .inr ⟨⟨f, g, rfl⟩, .inputs hknown hm hinputs⟩
        | ok inputs =>
          refine goesOn_each (fun input hinput g hg => ?_) hg
          rcases addInput_goesOn hg n.id input with hdone | ⟨hfails, origin, slot, hpair, horigin⟩
          · exact .inl hdone
          · have hmem : (input.1, Json.arr [origin, slot]) ∈ inputs := by rwa [← hpair]
            exact .inr ⟨hfails, .origin hknown hm hinputs hmem horigin⟩

/-! ## Nodes -/

/-- The ids of the nodes are those of the keys of steps. -/
def Keyed (front : Members) (g : Workflow) : Prop :=
  ∀ n ∈ g.nodes, ∃ m ∈ front, keyId m.1 = .ok n.id

/-- The node of a step is added unless the key or the class of the step is at fault, or the id of an
earlier step is the same. -/
theorem exec_addStep {front : Members} {g : Workflow} (hg : g.Booked) (hkeyed : Keyed front g)
    {m : String × Json} {v : Json} (hclass : classOf m.2 = .ok v) :
    (∃ g', (addStep r m).exec g = (.ok ⟨⟩, g') ∧ g'.Booked ∧ Keyed (front ++ [m]) g') ∨
      (∃ f g', (addStep r m).exec g = (.error f, g')) ∧ ((∃ f, keyId m.1 = .error f) ∨
        (∃ f, (r.create {} v.display : Except Fault (Node Group)) = .error f) ∨
        ∃ m' ∈ front, ∃ id, keyId m'.1 = .ok id ∧ keyId m.1 = .ok id) := by
  rw [addStep, Act.exec_bind, Act.exec_lift, hclass]
  dsimp only
  rw [Act.exec_bind, Act.exec_lift]
  cases hkey : keyId m.1 with
  | error f => exact .inr ⟨⟨f, g, rfl⟩, .inl ⟨f, rfl⟩⟩
  | ok id =>
    dsimp only
    rw [Act.exec_bind, Act.exec_lift]
    cases hnode : (r.create {} v.display : Except Fault (Node Group)) with
    | error f => exact .inr ⟨⟨f, g, rfl⟩, .inr (.inl ⟨f, rfl⟩)⟩
    | ok n =>
      dsimp only
      rw [Act.exec_bind]
      have hbooked := (hg.add (Registry.isUnlinked_create hnode) (some id)).booked
      have hgiven : (some id).getD (.number (g.lastNodeId + 1)) = id := rfl
      rcases exec_add g (some id) n hgiven with ⟨-, hexec⟩ | ⟨hfound, f, hexec⟩
      · rw [hexec] at hbooked ⊢
        refine .inl ⟨_, rfl, hbooked, fun k hk => ?_⟩
        rcases List.mem_append.1 hk with hk | hk
        · rcases hkeyed k hk with ⟨m', hm', hid⟩
          exact ⟨m', List.mem_append_left _ hm', hid⟩
        · rw [List.mem_singleton.1 hk]
          exact ⟨m, List.mem_append_right _ (List.mem_singleton.2 rfl), hkey⟩
      · rw [hexec]
        refine .inr ⟨⟨f, _, rfl⟩, .inr (.inr ?_)⟩
        have hkeys : ∀ n ∈ g.nodes, ∃ key, keyId key = .ok n.id := by
          intro n hn
          rcases hkeyed n hn with ⟨m', -, hid⟩
          exact ⟨m'.1, hid⟩
        rw [occupant?_of_writableOnly g (NodeId.writableOnly_of_keyId hkey),
          find?_of_keyId hkeys hkey] at hfound
        cases hat : g.at? id with
        | none => exact absurd (congrArg Except.ok hat) hfound
        | some k =>
          rcases hkeyed k (mem_of_at? hat) with ⟨m', hm', hid⟩
          rw [id_of_at? hat] at hid
          exact ⟨m', hm', id, hid, rfl⟩

/-- The nodes of all steps are added unless a step is at fault. -/
theorem addSteps_goesOn (hprompt : isPrompt (.obj steps) = true)
    (hknown : missingClasses r (steps.map (·.2)) = .ok []) :
    GoesOn (Trips r steps) {} (Act.each steps (addStep r)) := by
  have hall : ∀ (rest front : Members) (g : Workflow), steps = front ++ rest → g.Booked →
      Keyed front g → GoesOn (Trips r steps) g (Act.each rest (addStep r)) := by
    intro rest
    induction rest with
    | nil => exact fun front g _ hg _ => .inl ⟨g, rfl, hg⟩
    | cons m rest ih =>
      intro front g hsplit hg hkeyed
      have hm : m ∈ steps := by
        rw [hsplit]
        exact List.mem_append_right _ List.mem_cons_self
      rcases exists_classOf hprompt hm with ⟨v, hv⟩
      unfold GoesOn
      rw [Act.each, Act.exec_bind]
      rcases exec_addStep (r := r) hg hkeyed hv with ⟨g', hexec, hg', hkeyed'⟩ |
        ⟨⟨f, g', hexec⟩, hfault⟩
      · rw [hexec]
        exact ih (front ++ [m]) g' (by rw [hsplit, List.append_assoc, List.singleton_append]) hg'
          hkeyed'
      · rw [hexec]
        refine .inr ⟨⟨f, g', rfl⟩, ?_⟩
        rcases hfault with ⟨f, hkey⟩ | ⟨f, hnode⟩ | ⟨m', hm', id, hid', hid⟩
        · exact .key hknown hm hkey
        · exact .node hknown hm hv hnode
        · refine .twice hknown fun hpairwise => ?_
          rw [hsplit, List.pairwise_append] at hpairwise
          exact hpairwise.2.2 m' hm' m List.mem_cons_self id hid' hid
  exact hall steps [] {} rfl Workflow.booked_blank fun n hn => absurd hn List.not_mem_nil

end Rebuild

/-- A prompt is rebuilt or has unknown classes, or a step of it is at fault. -/
theorem Registry.rebuild_failsWith {r : Registry} {steps : Members}
    (hprompt : isPrompt (.obj steps) = true) :
    FailsWith (fun _ => Rebuild.Trips r steps) (r.rebuild (.obj steps)) := by
  refine (Rebuild.missingClasses_failsWith hprompt).bind fun missing hmissing => ?_
  cases missing with
  | cons m missing => exact .ok _
  | nil =>
    intro f hf
    dsimp only at hf
    rcases hbuild : Act.exec (do
        Act.each steps (Rebuild.addStep r)
        Act.each steps Rebuild.addInputs) ({} : Workflow) with ⟨f' | u, g⟩
    · rw [Act.exec_bind] at hbuild
      rcases Rebuild.addSteps_goesOn hprompt hmissing with ⟨g', hexec, hg'⟩ | ⟨-, htrips⟩
      · rw [hexec] at hbuild
        rcases Rebuild.goesOn_each (fun m hm g hg => Rebuild.addInputs_goesOn hmissing hg hm) hg' with
          ⟨g'', hexec', -⟩ | ⟨-, htrips⟩
        · cases hexec'.symm.trans hbuild
        · exact htrips
      · exact htrips
    · rw [hbuild] at hf
      cases hf

end NodeFlow
