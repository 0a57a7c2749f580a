import Mathlib.Data.List.Basic
import NodeFlow.Proofs.Outcome
import NodeFlow.Registry

/-!
# Slots and widgets of definitions

A definition shows each of its inputs either as a slot or as widgets, among them one of its name.  New
nodes of a type have the slots and the widgets of its definition.

Main results:

- Definitions `Definition.HasSlot` and `Definition.HasWidget`: how an input is shown.
- Structure `Registry.Defines`: a type whose new nodes follow a definition.
- Theorems `Registry.Defines.isSome_inputPosition?_iff` and `Registry.Defines.exists_widget`: what new
  nodes have.
-/

namespace NodeFlow

/-! ## Slots and widgets -/

namespace Definition

/-- The definition shows an input of a name as a slot. -/
def HasSlot (d : Definition) (name : String) : Prop :=
  ∃ spec ∈ d.inputs, spec.name = name ∧ Widget.isWidgetType spec.type spec.options = false

/-- The definition shows an input of a name as a widget. -/
def HasWidget (d : Definition) (name : String) : Prop :=
  ∃ spec ∈ d.inputs, spec.name = name ∧ Widget.isWidgetType spec.type spec.options = true

/-- The slots of new nodes are those inputs that are no widgets. -/
theorem names_frontOf {source : RandomSource} {specs : List InputSpec}
    {front : List InputSlot × List Widget} (h : frontOf source specs = .ok front) :
    front.1.map (·.name) =
      (specs.filter fun spec => !Widget.isWidgetType spec.type spec.options).map (·.name) := by
  induction specs generalizing front with
  | nil =>
    cases h
    rfl
  | cons spec specs ih =>
    rw [frontOf] at h
    split at h
    · rename_i hwidget
      rcases Fault.bind_eq_ok_iff.1 h with ⟨ws, -, h⟩
      rcases Fault.bind_eq_ok_iff.1 h with ⟨rest, hrest, h⟩
      cases h
      simpa [hwidget] using ih hrest
    · rename_i hslot
      rcases Fault.bind_eq_ok_iff.1 h with ⟨rest, hrest, h⟩
      cases h
      simpa [hslot] using ih hrest

private theorem exists_of_forInput {source : RandomSource} {name : String} {type : Json}
    {options : Members} {ws : List Widget} (h : Widget.forInput source name type options = .ok ws) :
    ∃ w ∈ ws, w.name = name := by
  unfold Widget.forInput at h
  split at h
  · cases h
    exact ⟨_, List.mem_singleton_self _, rfl⟩
  · rcases Fault.bind_eq_ok_iff.1 h with ⟨value, -, h⟩
    cases h
    split <;> exact ⟨_, List.mem_cons_self, rfl⟩
  · rcases Fault.bind_eq_ok_iff.1 h with ⟨value, -, h⟩
    cases h
    exact ⟨_, List.mem_singleton_self _, rfl⟩
  · cases h
    exact ⟨_, List.mem_singleton_self _, rfl⟩
  · cases h
    exact ⟨_, List.mem_singleton_self _, rfl⟩
  · cases h

/-- The widgets of new nodes are at least those inputs that are widgets. -/
theorem exists_widget_of_frontOf {source : RandomSource} {specs : List InputSpec}
    {front : List InputSlot × List Widget} (h : frontOf source specs = .ok front) {spec : InputSpec}
    (hspec : spec ∈ specs) (hwidget : Widget.isWidgetType spec.type spec.options = true) :
    ∃ w ∈ front.2, w.name = spec.name := by
  induction specs generalizing front with
  | nil => cases hspec
  | cons first specs ih =>
    rw [frontOf] at h
    split at h
    · rcases Fault.bind_eq_ok_iff.1 h with ⟨ws, hws, h⟩
      rcases Fault.bind_eq_ok_iff.1 h with ⟨rest, hrest, h⟩
      cases h
      rcases List.mem_cons.1 hspec with rfl | hspec
      · rcases exists_of_forInput hws with ⟨w, hw, hname⟩
        exact ⟨w, List.mem_append_left _ hw, hname⟩
      · rcases ih hrest hspec with ⟨w, hw, hname⟩
        exact ⟨w, List.mem_append_right _ hw, hname⟩
    · rename_i hslot
      rcases Fault.bind_eq_ok_iff.1 h with ⟨rest, hrest, h⟩
      cases h
      rcases List.mem_cons.1 hspec with rfl | hspec
      · exact absurd hwidget hslot
      · have hfound : ∃ w ∈ rest.2, w.name = spec.name := ih hrest hspec
        exact hfound

end Definition

/-! ## New nodes -/

/-- A type with a definition that is not virtual: its new nodes follow the definition. -/
structure Registry.Defines (r : Registry) (type : String) (d : Definition) : Prop where
  known : r.definitions.get? type = some d
  real : r.virtuals.get? type = none

namespace Registry.Defines

variable {r : Registry} {type : String} {d : Definition} (h : r.Defines type d) {n : Node Group}
  (hn : r.create {} type = .ok n) {name : String}

include h hn

private theorem frontOf : Definition.frontOf r.source d.inputs = .ok (n.inputs, n.widgets) := by
  rw [create, h.real, h.known] at hn
  rcases Fault.bind_eq_ok_iff.1 hn with ⟨front, hfront, hn⟩
  cases hn
  exact hfront

/-- A node has the inputs that its definition makes slots of. -/
theorem isSome_inputPosition?_iff : (n.inputPosition? name).isSome = true ↔ d.HasSlot name := by
  have hnames : n.inputs.map (·.name) = _ := Definition.names_frontOf (h.frontOf hn)
  have hmem : (n.inputPosition? name).isSome = true ↔ name ∈ n.inputs.map (·.name) := by
    rw [Node.inputPosition?, List.findIdx?_isSome, List.any_eq_true, List.mem_map]
    simp only [beq_iff_eq]
  rw [hmem, hnames, List.mem_map, Definition.HasSlot]
  constructor
  · rintro ⟨spec, hspec, hname⟩
    rcases List.mem_filter.1 hspec with ⟨hspec, hslot⟩
    exact ⟨spec, hspec, hname, by simpa using hslot⟩
  · rintro ⟨spec, hspec, hname, hslot⟩
    exact ⟨spec, List.mem_filter.2 ⟨hspec, by simp [hslot]⟩, hname⟩

/-- A node has the widgets that its definition describes. -/
theorem exists_widget (hname : d.HasWidget name) : ∃ w ∈ n.widgets, w.name = name := by
  obtain ⟨spec, hspec, rfl, hwidget⟩ := hname
  exact Definition.exists_widget_of_frontOf (h.frontOf hn) hspec hwidget

end Registry.Defines

end NodeFlow
