import NodeFlow.Proofs.Load.Entries
import NodeFlow.Proofs.Load.Ready

/-!
# What a load refuses

A document that cannot be applied is refused with its place.  There are two ways around that: an id
that looks like a number and is none cannot be looked up, and the links of primitives are followed
when the graph stands already, so that a target that cannot be looked up, or an input slot before the
first one, fails the load in a way of its own.

Main results:

- Type `Graph.Refuses` and theorem `Graph.refuses_iff`: the values that cannot be looked up.
- Type `Graph.Misaimed` and theorem `Graph.aimed_of_not_misaimed`: what is in the way when the links
  of primitives are followed.
- Theorem `Workflow.exists_finish`: a graph whose primitives are aimed can be finished.
- Type `Document.Trips` and theorem `Registry.load_failsWith`: a load is refused, or its document has
  one of these flaws.
-/

namespace NodeFlow

/-! ## References that cannot be looked up -/

namespace Graph

variable {γ : Type} {g : Graph γ}

/-- The values that a lookup refuses: arrays, objects, and texts that look like numbers, but neither
are numerals nor ids. -/
inductive Refuses (g : Graph γ) : Json → Prop
  | array (items : List Json) : Refuses g (.arr items)
  | object (members : Members) : Refuses g (.obj members)
  | text {s : String} {f : Fault} (hid : g.at? (.name s) = none)
      (hlooks : Text.looksNumeric s = true) (hread : Fault.readWhole s = .error f) :
      Refuses g (.str s)

/-- A graph refuses exactly the values that no lookup survives. -/
theorem refuses_iff {v : Json} : g.Refuses v ↔ ∃ f, g.lookup? v = .error f := by
  constructor
  · rintro (items | members | ⟨hid, hlooks, hread⟩)
    · exact ⟨_, rfl⟩
    · exact ⟨_, rfl⟩
    · rename_i s f
      refine ⟨f, ?_⟩
      simp [lookup?, idOf?, hid, otherSpelling?, hlooks, hread, Except.map, bind, Except.bind]
  · rintro ⟨f, h⟩
    unfold lookup? at h
    split at h
    · exact .array _
    · exact .object _
    · split at h
      · cases h
      · rename_i hnone
        rcases Fault.bind_eq_error_iff.1 h with hother | ⟨other, -, h⟩
        · unfold otherSpelling? at hother
          split at hother
          · rename_i s _ _
            split at hother
            · rename_i hlooks
              cases hread : Fault.readWhole s with
              | error f => exact .text hnone hlooks hread
              | ok n =>
                rw [hread] at hother
                cases hother
            · cases hother
          · cases hother
          · cases hother
          · cases hother
        · cases other <;> cases h

instance (g : Graph γ) (v : Json) : Decidable (g.Refuses v) :=
  decidable_of_iff ((g.lookup? v).isOk = false) <| by
    rw [refuses_iff]
    cases g.lookup? v with
    | error f => exact ⟨fun _ => ⟨f, rfl⟩, fun _ => rfl⟩
    | ok found => simp [Except.isOk, Except.toBool]

/-- A value that is not refused is looked up. -/
theorem exists_lookup {v : Json} (h : ¬ g.Refuses v) : ∃ found, g.lookup? v = .ok found := by
  cases hfound : g.lookup? v with
  | error f => exact absurd (refuses_iff.2 ⟨f, hfound⟩) h
  | ok found => exact ⟨found, rfl⟩

end Graph

/-- A text that looks like a number and is none. -/
def NodeId.IsUnreadable (id : NodeId) : Prop :=
  ∃ s f, id = .name s ∧ Text.looksNumeric s = true ∧ Fault.readWhole s = .error f

/-- An id cannot be looked up only where it looks like a number and is none. -/
theorem Graph.isUnreadable_of_find? {γ : Type} {g : Graph γ} {id : NodeId} {f : Fault}
    (h : g.find? id = .error f) : id.IsUnreadable := by
  have hrefuses : g.Refuses id.toJson := refuses_iff.2 ⟨f, h⟩
  cases id with
  | number n => cases hrefuses
  | name s =>
    cases hrefuses with
    | text _ hlooks hread => exact ⟨s, _, rfl, hlooks, hread⟩

/-! ## Building -/

/-- A document that cannot be read or applied. -/
def Fault.IsConfiguration (f : Fault) : Prop := ∃ d l s, f = .configuration d l s

private theorem Fault.isConfiguration_atNode (f : Fault) (saved : NodeRecord) (location : String) :
    (f.atNode saved location).IsConfiguration := by
  cases f <;> exact ⟨_, _, _, rfl⟩

/-- Reading a document fails with refusals only. -/
theorem Document.read_failsWith (v : Json) : FailsWith Fault.IsConfiguration (Document.read v) := by
  unfold Document.read
  split
  · exact .ok _
  · exact .error ⟨_, _, _, rfl⟩
  · exact .error ⟨_, _, _, rfl⟩

private theorem Link.ofJson_failsWith (entry : Json) (location : String) :
    FailsWith Fault.IsConfiguration (Link.ofJson entry location) := by
  unfold Link.ofJson
  split
  · split
    · split
      · exact .error ⟨_, _, _, rfl⟩
      · exact .ok _
    · exact .error ⟨_, _, _, rfl⟩
  · exact .error ⟨_, _, _, rfl⟩

namespace Graph

variable {γ : Type} {g : Graph γ}

private theorem addLinks_failsWith (entries : List (List Json)) (g : Graph γ) (i : Nat) :
    FailsWith Fault.IsConfiguration (g.addLinks i entries) := by
  induction entries generalizing g i with
  | nil => exact .ok _
  | cons entry entries ih => exact (Link.ofJson_failsWith _ _).bind fun l _ => ih _ _

private theorem addNodes_failsWith (build : SavedNode Document → Except Fault (Node γ))
    (entries : List (SavedNode Document)) (g : Graph γ) (i : Nat) :
    FailsWith (fun f => f.IsConfiguration ∨ ∃ saved ∈ entries, saved.id.IsUnreadable)
      (g.addNodes build i entries) := by
  induction entries generalizing g i with
  | nil => exact .ok _
  | cons saved entries ih =>
    intro f h
    rw [addNodes] at h
    rcases Fault.bind_eq_error_iff.1 h with hfind | ⟨found, -, h⟩
    · exact .inr ⟨saved, List.mem_cons_self, isUnreadable_of_find? hfind⟩
    · split at h
      · cases h
        exact .inl ⟨_, _, _, rfl⟩
      · split at h
        · cases h
          exact .inl (Fault.isConfiguration_atNode _ _ _)
        · rcases ih _ _ f h with hconfiguration | ⟨saved', hsaved', hid⟩
          · exact .inl hconfiguration
          · exact .inr ⟨saved', List.mem_cons_of_mem saved hsaved', hid⟩

private theorem configure_failsWith (build : SavedNode Document → Except Fault (Node γ))
    (d : Document) :
    FailsWith (fun f => f.IsConfiguration ∨ ∃ saved ∈ d.nodes, saved.id.IsUnreadable)
      (configure build d) :=
  FailsWith.bind (fun f hf => .inl (addLinks_failsWith _ _ _ f hf)) fun _ _ =>
    addNodes_failsWith build d.nodes _ _

/-! ## Finishing -/

/-- A link that leaves a primitive cannot be followed: its target cannot be looked up, or lies before
the first input. -/
inductive Misaimed (g : Graph γ) : Prop
  | target {n : Node γ} {ls : List Link} {l : Link} (hn : n ∈ g.nodes)
      (hprimitive : n.kind.isPrimitive = true) (hls : g.outLinks? n 0 = .ok ls) (hl : l ∈ ls)
      (h : g.Refuses l.target)
  | slot {n m : Node γ} {ls : List Link} {l : Link} (hn : n ∈ g.nodes)
      (hprimitive : n.kind.isPrimitive = true) (hls : g.outLinks? n 0 = .ok ls) (hl : l ∈ ls)
      (hm : g.lookup? l.target = .ok (some m)) (h : l.targetSlot.val < -(m.inputs.length : Int))

/-- The links of the first output can always be listed. -/
theorem exists_outLinks? (g : Graph γ) (n : Node γ) : ∃ ls, g.outLinks? n 0 = .ok ls := by
  unfold outLinks?
  split
  · exact ⟨[], rfl⟩
  · rename_i hopen
    have hlength : 0 < n.outputs.length := by
      simp only [Bool.or_eq_true, decide_eq_true_eq, not_or] at hopen
      omega
    have hposition : position? n.outputs.length 0 = some 0 := position?_ofNat hlength
    rw [hposition, Option.bind_some, List.getElem?_eq_getElem hlength]
    exact ⟨_, rfl⟩

/-- Links can be followed if nothing is in the way. -/
theorem aimed_of_not_misaimed (h : ¬ g.Misaimed) : g.Aimed := by
  intro n hn hprimitive
  rcases exists_outLinks? g n with ⟨ls, hls⟩
  have hone : ∀ l ∈ ls, ∃ place, g.targetOf l = .ok place := by
    intro l hl
    rcases exists_lookup fun hrefuses => h (.target hn hprimitive hls hl hrefuses) with
      ⟨found, hfound⟩
    rw [targetOf_eq, hfound]
    cases found with
    | none => exact ⟨none, rfl⟩
    | some m =>
      show ∃ place, reachedFrom l m = .ok place
      unfold reachedFrom
      split
      · exact ⟨none, rfl⟩
      · have hposition : ∃ p, position? m.inputs.length l.targetSlot.val = some p := by
          have hlow : ¬ l.targetSlot.val < -(m.inputs.length : Int) := fun hlow =>
            h (.slot hn hprimitive hls hl hfound hlow)
          unfold position?
          split
          · rw [if_pos (by omega)]
            exact ⟨_, rfl⟩
          · rw [if_pos (by omega)]
            exact ⟨_, rfl⟩
        rcases hposition with ⟨p, hp⟩
        rw [hp, Option.bind_some, List.getElem?_eq_getElem (position?_lt hp)]
        exact ⟨_, rfl⟩
  have hall : ∀ ks : List Link, (∀ l ∈ ks, l ∈ ls) → ∃ places, g.targetsOf ks = .ok places := by
    intro ks
    induction ks with
    | nil => exact fun _ => ⟨[], rfl⟩
    | cons l ks ih =>
      intro hks
      rcases hone l (hks l List.mem_cons_self) with ⟨place, hplace⟩
      rcases ih fun k hk => hks k (List.mem_cons_of_mem l hk) with ⟨places, hplaces⟩
      exact ⟨_, Fault.bind_eq_ok_iff.2 ⟨place, hplace,
        Fault.bind_eq_ok_iff.2 ⟨places, hplaces, rfl⟩⟩⟩
  rcases hall ls fun l hl => hl with ⟨places, hplaces⟩
  exact ⟨places, Fault.bind_eq_ok_iff.2 ⟨ls, hls, hplaces⟩⟩

/-- Nodes that can be replaced in every graph of the same links and shape can be swept. -/
theorem exists_swept {f : Graph γ → Node γ → Except Fault (Node γ)}
    (hf : ∀ h n, h.links = g.links → h.shape = g.shape → n ∈ g.nodes →
      ∃ n', f h n = .ok n' ∧ n'.id = n.id ∧ n'.inputs.length = n.inputs.length)
    {front ns : List (Node γ)} (hns : ∀ n ∈ ns, n ∈ g.nodes)
    (hshape : shape { g with nodes := front ++ ns } = g.shape) :
    ∃ ns', Swept f g front ns ns' := by
  induction ns generalizing front with
  | nil => exact ⟨[], .nil front⟩
  | cons n ns ih =>
    rcases hf { g with nodes := front ++ n :: ns } n rfl hshape (hns n List.mem_cons_self) with
      ⟨n', hnode, hid, hinputs⟩
    have hshape' : shape { g with nodes := (front ++ [n']) ++ ns } = g.shape := by
      rw [← hshape]
      simp [shape, hid, hinputs]
    rcases ih (fun m hm => hns m (List.mem_cons_of_mem n hm)) hshape' with ⟨ns', hswept⟩
    exact ⟨n' :: ns', .cons hnode hswept⟩

/-- A primitive whose links can be followed can be finished. -/
theorem exists_finished {h : Graph γ} (haimed : g.Aimed) (hlinks : h.links = g.links)
    (hshape : h.shape = g.shape) {n : Node γ} (hn : n ∈ g.nodes) (hunaimed : n.IsUnaimed) :
    ∃ n', h.finished n = .ok n' ∧ n'.id = n.id ∧ n'.inputs.length = n.inputs.length := by
  have hfinished : ∃ n', h.finished n = .ok n' := by
    cases hprimitive : n.kind.isPrimitive with
    | false => exact ⟨n, finished_of_not_primitive hprimitive⟩
    | true =>
      rcases Kind.isPrimitive_iff.1 hprimitive with ⟨pending, hkind⟩
      rcases haimed n hn hprimitive with ⟨places, hplaces⟩
      rcases exists_targets_congr hlinks hshape rfl rfl hplaces with ⟨places', hplaces'⟩
      rw [finished_eq hkind (hunaimed.bare hprimitive), model?, hplaces']
      exact ⟨_, rfl⟩
  rcases hfinished with ⟨n', hn'⟩
  have haims := aims_finished hunaimed hn'
  exact ⟨n', hn', haims.id, haims.inputs⟩

private theorem exists_sweep {f : Graph γ → Node γ → Except Fault (Node γ)}
    (hid : ∀ g n n', f g n = .ok n' → n'.id = n.id) (hids : (g.nodes.map (·.id)).Nodup)
    (hf : ∀ h n, h.links = g.links → h.shape = g.shape → n ∈ g.nodes →
      ∃ n', f h n = .ok n' ∧ n'.id = n.id ∧ n'.inputs.length = n.inputs.length) :
    ∃ g', sweep f g (g.nodes.map (·.id)) = .ok g' := by
  have hswept : ∃ ns', Swept f g [] g.nodes ns' := exists_swept hf (fun n hn => hn) rfl
  rcases hswept with ⟨ns', hswept⟩
  exact ⟨_, (sweep_eq_ok_iff hid (List.nil_append g.nodes).symm hids).2 ⟨ns', hswept, rfl⟩⟩

end Graph

namespace Workflow

/-- A link of a primitive cannot be followed, outside or inside a group. -/
def Misaimed (g : Workflow) : Prop :=
  Graph.Misaimed g ∨ ∃ n ∈ g.nodes, ∃ x, n.group? = some x ∧ x.graph.Misaimed

/-- A graph whose primitives are aimed can be finished. -/
theorem exists_finish {g : Workflow} (hids : (g.nodes.map (·.id)).Nodup)
    (hunaimed : ∀ n ∈ g.nodes, IsUnaimedDeep n) (h : ¬ Misaimed g) :
    ∃ g', Workflow.finish g = .ok g' := by
  rw [finish_eq_sweep]
  refine Graph.exists_sweep (fun _ _ _ => id_finishedDeep) hids fun g' n hlinks hshape hn => ?_
  cases hgroup : n.group? with
  | none =>
    simp only [finishedDeep, hgroup]
    exact Graph.exists_finished (Graph.aimed_of_not_misaimed fun hmis => h (.inl hmis)) hlinks
      hshape hn (hunaimed n hn).outside
  | some x =>
    have haimed : x.graph.Aimed := Graph.aimed_of_not_misaimed fun hmis =>
      h (.inr ⟨n, hn, x, hgroup, hmis⟩)
    have hinside := (hunaimed n hn).inside x hgroup
    rcases Graph.exists_sweep (g := x.graph) (fun _ _ _ => Graph.id_finished)
      ((hunaimed n hn).distinct x hgroup) (fun h m hlinks hshape hm =>
        Graph.exists_finished haimed hlinks hshape hm (hinside m hm)) with ⟨inner, hinner⟩
    refine ⟨n.onGroup fun _ => inner, ?_, ?_, ?_⟩
    · simp only [finishedDeep, hgroup, Graph.finishAll_eq_sweep, hinner]
      rfl
    · rw [Node.onGroup_of_group? _ hgroup]
    · rw [Node.onGroup_of_group? _ hgroup]

end Workflow

/-! ## Loads -/

/-- What is wrong with a document that fails a load without being refused: the id of a node, or a
link of a primitive. -/
inductive Document.Trips (r : Registry) (d : Document) : Prop
  | id {saved : SavedNode Document} (hsaved : saved ∈ d.nodes) (h : saved.id.IsUnreadable)
  | link {g : Workflow} (hg : Graph.configure r.build (d.normalize r.knows).1 = .ok g)
      (h : g.Misaimed)

private theorem SavedNode.id_normalize (knows : String → Bool) (n : SavedNode Document) :
    (n.normalize knows).id = n.id := by
  rcases n with ⟨n, _ | d⟩ <;> rfl

/-- A document is loaded, or refused, or it trips the load. -/
theorem Registry.load_failsWith {r : Registry} {source : LoadSource} {d : Document}
    (hread : source.read = .ok d) :
    FailsWith (fun f => f.IsConfiguration ∨ d.Trips r) (r.load source) := by
  intro f h
  rcases Fault.bind_eq_error_iff.1 h with hfault | ⟨d', hd', h⟩
  · cases hread.symm.trans hfault
  · cases hread.symm.trans hd'
    rcases Fault.bind_eq_error_iff.1 h with hassemble | ⟨g, -, h⟩
    · rcases Fault.bind_eq_error_iff.1 hassemble with hconfigure | ⟨g, hg, hfinish⟩
      · rcases Graph.configure_failsWith _ _ f hconfigure with hconfiguration | ⟨saved, hsaved, hid⟩
        · exact .inl hconfiguration
        · rw [Document.normalize_eq] at hsaved
          rcases List.mem_map.1 hsaved with ⟨n, hn, rfl⟩
          rw [SavedNode.id_normalize] at hid
          exact .inr (.id hn hid)
      · refine .inr (.link hg ?_)
        by_contra hclear
        rcases Graph.configure_distinct hg with ⟨hkeys, hbuilt⟩
        rcases Workflow.exists_finish hkeys.ids_nodup (fun n hn => by
          rcases hbuilt n hn with ⟨saved, -, b, hb, rfl⟩
          exact isUnaimed_build hb) hclear with ⟨g', hg'⟩
        cases hfinish.symm.trans hg'
    · cases h

end NodeFlow
