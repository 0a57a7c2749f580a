import NodeFlow.Proofs.Compile.Push
import NodeFlow.Proofs.Compile.Running
import NodeFlow.Proofs.Edit.Connect
import NodeFlow.Registry

/-!
# New nodes

What the registry makes of a type carries no links and no hooks that run around a submission.  What
a caller chooses about a new node changes neither its slots nor its widgets.

Main results:

- Definition `Node.IsNew`: a node of a class that simply runs and that nothing is linked to.
- Theorems `Registry.isUnlinked_create` and `Registry.IsNamed.exists_isNew`: the new nodes of a type.
-/

namespace NodeFlow

/-! ## Widgets of inputs -/

namespace Widget

private theorem isSilent_withControl (source : RandomSource) {w : Widget} (h : w.IsSilent) :
    ∀ u ∈ withControl source w, u.IsSilent := by
  intro u hu
  rcases List.mem_cons.1 hu with rfl | hu
  · exact ⟨h.beforeQueued, h.callback, h.serializer⟩
  · rw [List.mem_singleton.1 hu]
    exact ⟨rfl, rfl, rfl⟩

private theorem isSilent_forInput {source : RandomSource} {name : String} {type : Json}
    {options : Members} {ws : List Widget} (h : forInput source name type options = .ok ws) :
    ∀ w ∈ ws, w.IsSilent := by
  have hone : ∀ w : Widget, w.IsSilent → ∀ u ∈ [w], u.IsSilent := by
    intro w hw u hu
    rwa [List.mem_singleton.1 hu]
  unfold forInput at h
  split at h
  · cases h
    exact hone _ ⟨rfl, rfl, rfl⟩
  · rcases Fault.bind_eq_ok_iff.1 h with ⟨value, -, h⟩
    cases h
    split
    · exact isSilent_withControl source ⟨rfl, rfl, rfl⟩
    · exact hone _ ⟨rfl, rfl, rfl⟩
  · rcases Fault.bind_eq_ok_iff.1 h with ⟨value, -, h⟩
    cases h
    exact hone _ ⟨rfl, rfl, rfl⟩
  · cases h
    exact hone _ ⟨rfl, rfl, rfl⟩
  · cases h
    exact hone _ ⟨rfl, rfl, rfl⟩
  · cases h

end Widget

/-! ## Nodes of types -/

/-- The widgets that a definition describes have no hooks. -/
theorem Definition.isSilent_frontOf {source : RandomSource} {specs : List InputSpec}
    {front : List InputSlot × List Widget} (h : frontOf source specs = .ok front) :
    ∀ w ∈ front.2, w.IsSilent := by
  induction specs generalizing front with
  | nil =>
    cases h
    exact fun _ hw => absurd hw List.not_mem_nil
  | cons spec specs ih =>
    rw [frontOf] at h
    split at h
    · rcases Fault.bind_eq_ok_iff.1 h with ⟨ws, hws, h⟩
      rcases Fault.bind_eq_ok_iff.1 h with ⟨rest, hrest, h⟩
      cases h
      intro w hw
      rcases List.mem_append.1 hw with hw | hw
      · exact Widget.isSilent_forInput hws w hw
      · exact ih hrest w hw
    · rcases Fault.bind_eq_ok_iff.1 h with ⟨rest, hrest, h⟩
      cases h
      have hsilent : ∀ w ∈ rest.2, w.IsSilent := ih hrest
      exact hsilent

private theorem Definition.frontOf_link {source : RandomSource} {specs : List InputSpec}
    {front : List InputSlot × List Widget} (h : frontOf source specs = .ok front) :
    ∀ s ∈ front.1, s.link = none := by
  induction specs generalizing front with
  | nil =>
    cases h
    exact fun _ hs => absurd hs List.not_mem_nil
  | cons spec specs ih =>
    rw [frontOf] at h
    split at h
    · rcases Fault.bind_eq_ok_iff.1 h with ⟨ws, -, h⟩
      rcases Fault.bind_eq_ok_iff.1 h with ⟨rest, hrest, h⟩
      cases h
      have hlinks : ∀ s ∈ rest.1, s.link = none := ih hrest
      exact hlinks
    · rcases Fault.bind_eq_ok_iff.1 h with ⟨rest, hrest, h⟩
      cases h
      intro s hs
      rcases List.mem_cons.1 hs with rfl | hs
      · rfl
      · exact ih hrest s hs

/-- A new node is not linked. -/
theorem Registry.isUnlinked_create {γ : Type} {r : Registry} {setup : NodeSetup} {type : String}
    {n : Node γ} (h : r.create setup type = .ok n) : n.IsUnlinked := by
  unfold create at h
  split at h
  · rename_i v _
    cases h
    unfold VirtualKind.node
    cases v.kind <;> simp [Node.IsUnlinked, NodeSetup.blank]
  · split at h
    · rename_i d _
      rcases Fault.bind_eq_ok_iff.1 h with ⟨front, hfront, h⟩
      cases h
      refine ⟨Definition.frontOf_link hfront, fun o ho => ?_⟩
      rcases List.mem_mapIdx.1 ho with ⟨i, hi, rfl⟩
      rfl
    · cases h

/-- Nodes are created of known types only. -/
theorem Registry.knows_of_create {γ : Type} {r : Registry} {setup : NodeSetup} {type : String}
    {n : Node γ} (h : r.create setup type = .ok n) : r.knows type = true := by
  unfold create at h
  split at h
  · rename_i hvirtual
    simp [knows, Table.has, hvirtual]
  · split at h
    · rename_i hd
      simp [knows, Table.has, hd]
    · cases h

/-- The node is one of a class, as the registry makes it: it runs, and nothing is linked to it. -/
structure Node.IsNew (n : Node Group) (className : String) : Prop where
  runs : n.Runs
  type : n.type = className
  unlinked : n.IsUnlinked

namespace Registry

variable {r : Registry}

/-- Behind a node that is not virtual there is a new node of its class, with the same slots and
widgets. -/
theorem IsNamed.exists_isNew (hr : r.IsNamed) {setup : NodeSetup} {type : String} {n : Node Group}
    (h : r.create setup type = .ok n) (hreal : n.isVirtual = false) :
    ∃ blank : Node Group, r.create {} n.type = .ok blank ∧ blank.IsNew n.type ∧
      blank.inputs = n.inputs ∧ blank.outputs = n.outputs ∧ blank.widgets = n.widgets := by
  unfold create at h
  split at h
  · -- virtual types make virtual nodes
    rename_i v _
    cases h
    unfold VirtualKind.node Node.isVirtual at hreal
    cases hkind : v.kind <;> simp [hkind, Kind.isVirtual] at hreal
  · rename_i hvirtual
    split at h
    · rename_i d hd
      rcases Fault.bind_eq_ok_iff.1 h with ⟨front, hfront, hn⟩
      cases hn
      have hname : d.name = type := hr type d hd
      let blank : Node Group := { ({} : NodeSetup).blank d.name with
        title := some (firstText [none, d.displayName] d.name)
        inputs := front.1
        widgets := front.2
        outputs := d.outputs.mapIdx d.outputAt }
      have hblank : r.create {} type = .ok blank := by
        simp only [create, hvirtual, hd, Node.ofDefinition, hfront]
        rfl
      have hnew : r.create {} d.name = .ok blank := (congrArg (r.create {}) hname).trans hblank
      refine ⟨blank, hnew, ⟨⟨rfl, rfl, rfl, fun w hw => ?_⟩, rfl, ?_⟩, rfl, rfl, rfl⟩
      · have hsilent := Definition.isSilent_frontOf hfront w hw
        exact ⟨hsilent.beforeQueued, hsilent.serializer⟩
      · exact isUnlinked_create hblank
    · cases h

end Registry

end NodeFlow
