import NodeFlow.Proofs.Compile.Steps

/-!
# The inputs of a step

A step takes the literals of its widgets, and over them a reference for every slot whose link is
resolved to a producer that is not virtual.

Main results:

- Definition `Site.Links`: a slot of a site and the reference that it resolves to.
- Theorem `Site.IsBuilt.mem_inputs`: where an input of a step comes from.
- Theorems `Site.IsBuilt.get?_of_links` and `Site.IsBuilt.get?_of_not_links`: what stands under a
  name.
- Theorem `Site.get?_literals_of_alone`: the literal of a widget that has its name for itself.
-/

namespace NodeFlow

namespace Site

/-- The slot at a position resolves to a producer that is not virtual, and this is the reference to
it. -/
def Links (g : Workflow) (maxHops : Int) (s : Site) (i : Nat) (r : Reference) : Prop :=
  ∃ found, s.resolve g maxHops i = .ok found ∧ referenceOf found = some r

variable {g : Workflow} {maxHops : Int} {s : Site}

private theorem Links.unique {i : Nat} {r r' : Reference} (h : s.Links g maxHops i r)
    (h' : s.Links g maxHops i r') : r = r' := by
  rcases h with ⟨found, hfound, hr⟩
  rcases h' with ⟨found', hfound', hr'⟩
  rw [hfound, Except.ok.injEq] at hfound'
  rw [← hfound', hr, Option.some.injEq] at hr'
  exact hr'

/-- The steps of the pass over the slots: a slot that links writes its reference, another one
nothing. -/
theorem linkInputs_cons {i : Nat} {slot : InputSlot} {slots : List InputSlot}
    {inputs out : Members}
    (h : linkInputs g maxHops s i (slot :: slots) inputs = .ok out) :
    (∃ r, s.Links g maxHops i r ∧
      linkInputs g maxHops s (i + 1) slots (inputs.set slot.name r.toJson) = .ok out) ∨
    ((∀ r, ¬ s.Links g maxHops i r) ∧ linkInputs g maxHops s (i + 1) slots inputs = .ok out) := by
  rw [linkInputs] at h
  rcases Fault.bind_eq_ok_iff.1 h with ⟨found, hfound, h⟩
  split at h
  · rename_i r hr
    exact .inl ⟨r, ⟨found, hfound, hr⟩, h⟩
  · rename_i hnone
    refine .inr ⟨?_, h⟩
    rintro r ⟨found', hfound', hr⟩
    rw [hfound, Except.ok.injEq] at hfound'
    rw [hfound', hr] at hnone
    cases hnone

private theorem mem_linkInputs {i : Nat} {slots : List InputSlot} {inputs out : Members}
    (h : linkInputs g maxHops s i slots inputs = .ok out) {m : String × Json} (hm : m ∈ out) :
    m ∈ inputs ∨ ∃ j r, s.Links g maxHops (i + j) r ∧ m.2 = r.toJson := by
  induction slots generalizing i inputs with
  | nil =>
    cases h
    exact .inl hm
  | cons slot slots ih =>
    have hshift : (∃ j r, s.Links g maxHops (i + 1 + j) r ∧ m.2 = r.toJson) →
        ∃ j r, s.Links g maxHops (i + j) r ∧ m.2 = r.toJson := by
      rintro ⟨j, r, hlinks, hvalue⟩
      exact ⟨j + 1, r, by rwa [← Nat.add_assoc, Nat.add_right_comm], hvalue⟩
    rcases linkInputs_cons h with ⟨r, hlinks, h⟩ | ⟨-, h⟩
    · rcases ih h with hset | hrest
      · rcases Table.mem_of_mem_set hset with rfl | hold
        · exact .inr ⟨0, r, hlinks, rfl⟩
        · exact .inl hold
      · exact .inr (hshift hrest)
    · exact (ih h).imp_right hshift

private theorem nodup_linkInputs {i : Nat} {slots : List InputSlot} {inputs out : Members}
    (hinputs : (Table.names inputs).Nodup)
    (h : linkInputs g maxHops s i slots inputs = .ok out) : (Table.names out).Nodup := by
  induction slots generalizing i inputs with
  | nil =>
    cases h
    exact hinputs
  | cons slot slots ih =>
    rcases linkInputs_cons h with ⟨r, -, h⟩ | ⟨-, h⟩
    · exact ih (Table.nodup_set hinputs) h
    · exact ih hinputs h

/-- Under a name that no linking slot has, there stands what stood there before. -/
theorem get?_linkInputs_of_not_links {i : Nat} {slots : List InputSlot} {inputs out : Members}
    (h : linkInputs g maxHops s i slots inputs = .ok out) {name : String}
    (hname : ∀ j slot, slots[j]? = some slot → slot.name = name →
      ∀ r, ¬ s.Links g maxHops (i + j) r) : Table.get? out name = Table.get? inputs name := by
  induction slots generalizing i inputs with
  | nil =>
    cases h
    rfl
  | cons slot slots ih =>
    have hrest : ∀ j slot, slots[j]? = some slot → slot.name = name →
        ∀ r, ¬ s.Links g maxHops (i + 1 + j) r := by
      intro j slot hslot hsame
      rw [Nat.add_assoc, Nat.add_comm 1]
      exact hname (j + 1) slot (by simpa using hslot) hsame
    rcases linkInputs_cons h with ⟨r, hlinks, h⟩ | ⟨-, h⟩
    · have hne : name ≠ slot.name := by
        rintro rfl
        exact hname 0 slot rfl rfl r hlinks
      rw [ih h hrest, Table.get?_set_of_ne hne]
    · exact ih h hrest

/-- Under the name of a slot that links there stands its reference, if no later slot of that name
links. -/
theorem get?_linkInputs_of_last {i : Nat} {slots : List InputSlot} {inputs out : Members}
    (h : linkInputs g maxHops s i slots inputs = .ok out) {j : Nat} {slot : InputSlot}
    (hslot : slots[j]? = some slot) {r : Reference} (hlinks : s.Links g maxHops (i + j) r)
    (hlast : ∀ k slot', j < k → slots[k]? = some slot' → slot'.name = slot.name →
      ∀ r, ¬ s.Links g maxHops (i + k) r) :
    Table.get? out slot.name = some r.toJson := by
  induction slots generalizing i j inputs with
  | nil => simp at hslot
  | cons first slots ih =>
    cases j with
    | zero =>
      have hfirst : first = slot := Option.some.inj hslot
      subst hfirst
      have hothers : ∀ k slot', slots[k]? = some slot' → slot'.name = first.name →
          ∀ r, ¬ s.Links g maxHops (i + 1 + k) r := by
        intro k slot' hslot' hsame
        rw [Nat.add_assoc, Nat.add_comm 1]
        exact hlast (k + 1) slot' (Nat.succ_pos k) (by simpa using hslot') hsame
      rcases linkInputs_cons h with ⟨r', hlinks', h⟩ | ⟨hnot, -⟩
      · rw [get?_linkInputs_of_not_links h hothers, Table.get?_set_self, hlinks'.unique hlinks]
      · exact absurd hlinks (hnot r)
    | succ j =>
      have hlinks' : s.Links g maxHops (i + 1 + j) r := by
        rwa [Nat.add_assoc, Nat.add_comm 1]
      have hlast' : ∀ k slot', j < k → slots[k]? = some slot' → slot'.name = slot.name →
          ∀ r, ¬ s.Links g maxHops (i + 1 + k) r := by
        intro k slot' hk hslot' hsame
        rw [Nat.add_assoc, Nat.add_comm 1]
        exact hlast (k + 1) slot' (Nat.succ_lt_succ hk) (by simpa using hslot') hsame
      rcases linkInputs_cons h with ⟨_, -, h⟩ | ⟨-, h⟩
      · exact ih h (by simpa using hslot) hlinks' hlast'
      · exact ih h (by simpa using hslot) hlinks' hlast'

/-! ## The step of a site -/

variable {titled : Bool} {m : String × Step}

/-- The inputs of a step are its literals with the links written over them. -/
theorem IsBuilt.linkInputs (h : s.IsBuilt g maxHops titled m) :
    linkInputs g maxHops s 0 s.inputs s.literals = .ok m.2.inputs := by
  rcases m with ⟨key, step⟩
  rcases Fault.bind_eq_ok_iff.1 h.2 with ⟨inputs, hinputs, hstep⟩
  cases hstep
  exact hinputs

private theorem nodup_literals (s : Site) :
    (Table.names s.literals).Nodup := Table.nodup_update .nil

/-- The inputs of a step have different names. -/
theorem IsBuilt.nodup_inputs (h : s.IsBuilt g maxHops titled m) : (Table.names m.2.inputs).Nodup :=
  nodup_linkInputs s.nodup_literals h.linkInputs

/-- A literal is what a widget sends. -/
theorem exists_widget_of_mem_literals {entry : String × Json} (h : entry ∈ s.literals) :
    ∃ w ∈ s.widgets, w.isSent = true ∧ entry = (w.name, w.literal) := by
  rcases Table.mem_of_mem_update h with hnil | hmem
  · cases hnil
  · rcases List.mem_map.1 hmem with ⟨w, hw, rfl⟩
    rcases List.mem_filter.1 hw with ⟨hw, hsent⟩
    exact ⟨w, hw, hsent, rfl⟩

/-- An input of a step is the literal of a widget or the reference of a slot. -/
theorem IsBuilt.mem_inputs (h : s.IsBuilt g maxHops titled m) {entry : String × Json}
    (hentry : entry ∈ m.2.inputs) :
    (∃ w ∈ s.widgets, w.isSent = true ∧ entry = (w.name, w.literal)) ∨
      ∃ i r, s.Links g maxHops i r ∧ entry.2 = r.toJson := by
  rcases mem_linkInputs h.linkInputs hentry with hliteral | ⟨j, r, hlinks, hvalue⟩
  · exact .inl (exists_widget_of_mem_literals hliteral)
  · exact .inr ⟨0 + j, r, hlinks, hvalue⟩

/-- Under the name of a slot that links, a step has its reference. -/
theorem IsBuilt.get?_of_links (h : s.IsBuilt g maxHops titled m)
    (hnames : (s.inputs.map (·.name)).Nodup) {i : Nat} {slot : InputSlot}
    (hslot : s.inputs[i]? = some slot) {r : Reference} (hlinks : s.Links g maxHops i r) :
    Table.get? m.2.inputs slot.name = some r.toJson :=
  get?_linkInputs_of_last h.linkInputs hslot (by rwa [Nat.zero_add]) fun k slot' hk hslot' hsame => by
    -- a later slot has another name
    have hlt : i < (s.inputs.map (·.name)).length := by
      rw [List.length_map]
      exact (List.getElem?_eq_some_iff.1 hslot).1
    have hnamed : (s.inputs.map (·.name))[i]? = (s.inputs.map (·.name))[k]? := by
      rw [List.getElem?_map, List.getElem?_map, hslot, hslot', Option.map_some, Option.map_some, hsame]
    exact absurd ((List.getElem?_inj hlt hnames).1 hnamed) (Nat.ne_of_lt hk)

/-- Under any other name, a step has what the last widget of that name sends. -/
theorem IsBuilt.get?_of_not_links (h : s.IsBuilt g maxHops titled m) {name : String}
    (hname : ∀ i slot, s.inputs[i]? = some slot → slot.name = name →
      ∀ r, ¬ s.Links g maxHops i r) :
    Table.get? m.2.inputs name = Table.get? s.literals name :=
  get?_linkInputs_of_not_links h.linkInputs (by simpa using hname)

/-- The literal under a name is that of the last widget of that name that sends any. -/
theorem get?_literals (s : Site) (name : String) :
    Table.get? s.literals name =
      ((s.widgets.filter fun w => w.isSent && w.name == name).getLast?).map (·.literal) := by
  have hfilter : ((s.widgets.filter (·.isSent)).map fun w => (w.name, w.literal)).filter
      (·.1 = name) = (s.widgets.filter fun w => w.isSent && w.name == name).map
        fun w => (w.name, w.literal) := by
    rw [List.filter_map, List.filter_filter]
    congr 1
    refine List.filter_congr fun w _ => ?_
    by_cases hname : w.name = name <;> simp [hname]
  rw [literals, Table.get?_update, hfilter, List.getLast?_map]
  simp [Function.comp_def]

/-- The literal under the name of a widget that sends its value as it is, and that has the name for
itself, is this value. -/
theorem get?_literals_of_alone {j : Nat} {w : Widget} (hw : s.widgets[j]? = some w)
    (hsent : w.isSent = true) (hplain : w.serializer = none)
    (halone : ∀ (j' : Nat) u, s.widgets[j']? = some u → u.name = w.name → j' = j) :
    Table.get? s.literals w.name = some w.value := by
  rw [get?_literals]
  -- of all widgets that send under this name there is only the one
  have hmem : w ∈ s.widgets.filter fun u => u.isSent && u.name == w.name :=
    List.mem_filter.2 ⟨List.mem_of_getElem? hw, by simp [hsent]⟩
  cases hlast : (s.widgets.filter fun u => u.isSent && u.name == w.name).getLast? with
  | none =>
    rw [List.getLast?_eq_none_iff] at hlast
    rw [hlast] at hmem
    cases hmem
  | some u =>
    rcases List.mem_filter.1 (List.mem_of_getLast? hlast) with ⟨hu, hname⟩
    rcases List.getElem?_of_mem hu with ⟨j', hj'⟩
    simp only [Bool.and_eq_true, beq_iff_eq] at hname
    have hj := halone j' u hj' hname.2
    rw [hj, hw, Option.some.injEq] at hj'
    rw [← hj', Option.map_some, Widget.literal, hplain]

end Site

end NodeFlow
