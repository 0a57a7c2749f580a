import NodeFlow.Proofs.Compile.GroupOutputs

/-!
# Literals that read as references

A step holds the values that widgets send and the references of its links in one table.  The two are
told apart by their shape alone: a pair of a text and a whole number is read as a reference, whoever
has written it.  A value of this shape stays in its step only if the text is the key of some step,
and then it is listed among the references.  Every other value stays as it is.

Main results:

- Definitions `Site.Linked` and `Site.Poses`: the two ways in which a name comes to a reference.
- Theorem `Site.isFree_or_linked`: a name without a link, or the last slot of it that links.
- Theorem `Site.IsBuilt.mem_references_keep_iff`: where the references of a step come from.
- Theorem `Editor.compile_literals`: what becomes of the values of widgets in a prompt.
- Theorem `posing_mistakes`: a value that is lost and one that is listed, without any link.
-/

namespace NodeFlow

open Workflow

namespace Site

variable {g : Workflow} {maxHops : Int} {titled : Bool} {s : Site} {m : String × Step}
  {name : String} {r : Reference}

/-! ## Names with and without a link -/

/-- No slot of this name links. -/
def IsFree (g : Workflow) (maxHops : Int) (s : Site) (name : String) : Prop :=
  ∀ (i : Nat) slot, s.inputs[i]? = some slot → slot.name = name → ∀ r, ¬ s.Links g maxHops i r

/-- The last slot of this name that links leads to this reference. -/
def Linked (g : Workflow) (maxHops : Int) (s : Site) (name : String) (r : Reference) : Prop :=
  ∃ (i : Nat) (slot : InputSlot), s.inputs[i]? = some slot ∧ slot.name = name ∧
    s.Links g maxHops i r ∧ s.IsLast g maxHops i name

/-- No slot of this name links, and the last widget that sends a value under it sends one that reads
as this reference. -/
def Poses (g : Workflow) (maxHops : Int) (s : Site) (name : String) (r : Reference) : Prop :=
  s.IsFree g maxHops name ∧
    ∃ w, (s.widgets.filter fun w => w.isSent && w.name == name).getLast? = some w ∧
      Reference.ofJson? w.literal = some r

private theorem Linked.not_isFree (h : s.Linked g maxHops name r) : ¬ s.IsFree g maxHops name := by
  rcases h with ⟨i, slot, hslot, hname, hlinks, -⟩
  exact fun hfree => hfree i slot hslot hname r hlinks

/-- Of the slots of a name that link, one is the last. -/
theorem isFree_or_linked (g : Workflow) (maxHops : Int) (s : Site) (name : String) :
    s.IsFree g maxHops name ∨ ∃ r, s.Linked g maxHops name r := by
  classical
  let IsLinking : Nat → Prop := fun i =>
    ∃ slot, s.inputs[i]? = some slot ∧ slot.name = name ∧ ∃ r, s.Links g maxHops i r
  by_cases hsome : ∃ i, IsLinking i
  · rcases hsome with ⟨i, hi⟩
    have hbound : ∀ j, IsLinking j → j ≤ s.inputs.length := by
      rintro j ⟨slot, hslot, -⟩
      exact (List.getElem?_eq_some_iff.1 hslot).1.le
    obtain ⟨slot, hslot, hname, r, hlinks⟩ :
        IsLinking (Nat.findGreatest IsLinking s.inputs.length) :=
      Nat.findGreatest_spec (hbound i hi) hi
    refine .inr ⟨r, _, slot, hslot, hname, hlinks, ?_⟩
    intro j slot' hj hslot' hname' r' hlinks'
    have hlinking : IsLinking j := ⟨slot', hslot', hname', r', hlinks'⟩
    exact Nat.findGreatest_is_greatest hj (hbound j hlinking) hlinking
  · refine .inl fun i slot hslot hname r hlinks => hsome ⟨i, slot, hslot, hname, r, hlinks⟩

/-! ## The references of a step -/

private theorem IsBuilt.get?_of_linked (h : s.IsBuilt g maxHops titled m)
    (hr : s.Linked g maxHops name r) : Table.get? m.2.inputs name = some r.toJson := by
  rcases hr with ⟨i, slot, hslot, rfl, hlinks, hlast⟩
  exact h.get?_of_last hslot hlinks hlast

/-- A step lists a reference under a name exactly if that is what stands there. -/
theorem mem_references_iff {step : Step} (hnames : (Table.names step.inputs).Nodup) :
    (name, r) ∈ step.references ↔ Table.get? step.inputs name = some r.toJson := by
  rw [Table.get?_eq_some_iff hnames]
  constructor
  · intro h
    rcases exists_of_mem_references h with ⟨v, hmem, hv⟩
    rwa [Reference.eq_toJson_of_ofJson? hv] at hmem
  · intro h
    exact List.mem_filterMap.2 ⟨_, h, by simp⟩

/-- What stands under a name before pruning reads as a reference if a link leads there, or if the
value of a widget has this shape. -/
theorem IsBuilt.get?_eq_toJson_iff (h : s.IsBuilt g maxHops titled m) :
    Table.get? m.2.inputs name = some r.toJson ↔
      s.Linked g maxHops name r ∨ s.Poses g maxHops name r := by
  rcases s.isFree_or_linked g maxHops name with hfree | ⟨r', hlinked⟩
  · have hnot : ¬ s.Linked g maxHops name r := fun hlinked => hlinked.not_isFree hfree
    rw [h.get?_of_not_links hfree, get?_literals, Option.map_eq_some_iff]
    constructor
    · rintro ⟨w, hw, hliteral⟩
      exact .inr ⟨hfree, w, hw, by rw [hliteral, Reference.ofJson?_toJson]⟩
    · rintro (hlinked | ⟨-, w, hw, hliteral⟩)
      · exact absurd hlinked hnot
      · exact ⟨w, hw, Reference.eq_toJson_of_ofJson? hliteral⟩
  · rw [h.get?_of_linked hlinked, Option.some.injEq]
    constructor
    · intro hsame
      have hr : r' = r := by
        simpa using congrArg Reference.ofJson? hsame
      exact .inl (hr ▸ hlinked)
    · rintro (hother | hposes)
      · have hget := h.get?_of_linked hother
        rwa [h.get?_of_linked hlinked, Option.some.injEq] at hget
      · exact absurd hposes.1 hlinked.not_isFree

/-- The references of a pruned step name steps of the output, and come from links or from widgets
whose values have the shape of a reference. -/
theorem IsBuilt.mem_references_keep_iff (h : s.IsBuilt g maxHops titled m) (output : Output) :
    (name, r) ∈ (m.2.keep output).references ↔
      output.has r.origin = true ∧ (s.Linked g maxHops name r ∨ s.Poses g maxHops name r) := by
  have hnames : (Table.names (m.2.keep output).inputs).Nodup := Table.nodup_filter _ h.nodup_inputs
  rw [mem_references_iff hnames, h.get?_keep, Option.filter_eq_some_iff, h.get?_eq_toJson_iff,
    Step.refersInto, Reference.ofJson?_toJson, and_comm]

/-! ## The values of widgets -/

/-- The widget at a position sends its value as it is, no other widget has its name, and no slot of
this name links. -/
structure SendsAlone (g : Workflow) (maxHops : Int) (s : Site) (j : Nat) (w : Widget) : Prop where
  widget : s.widgets[j]? = some w
  sent : w.isSent = true
  plain : w.serializer = none
  alone : ∀ (j' : Nat) u, s.widgets[j']? = some u → u.name = w.name → j' = j
  free : s.IsFree g maxHops w.name

/-- Where widgets have different names, one that no slot shares its name with sends alone. -/
theorem sendsAlone_of_nodup (g : Workflow) (maxHops : Int) {j : Nat} {w : Widget}
    (hw : s.widgets[j]? = some w) (hsent : w.isSent = true) (hplain : w.serializer = none)
    (hnames : (s.widgets.map (·.name)).Nodup) (hslots : ∀ slot ∈ s.inputs, slot.name ≠ w.name) :
    s.SendsAlone g maxHops j w := by
  refine ⟨hw, hsent, hplain, ?_, ?_⟩
  · intro k u hu hname
    have hlt : k < (s.widgets.map (·.name)).length := by
      simpa using (List.getElem?_eq_some_iff.1 hu).1
    refine (List.getElem?_inj hlt hnames).1 ?_
    rw [List.getElem?_map, List.getElem?_map, hu, hw, Option.map_some, Option.map_some, hname]
  · intro i slot hslot hname
    exact absurd hname (hslots slot (List.mem_of_getElem? hslot))

/-- Pruning leaves the value of such a widget, unless it reads as a reference to no step. -/
theorem IsBuilt.get?_keep_of_sendsAlone (h : s.IsBuilt g maxHops titled m) {j : Nat} {w : Widget}
    (hw : s.SendsAlone g maxHops j w) (output : Output) :
    Table.get? (m.2.keep output).inputs w.name =
      if Step.refersInto output w.value then some w.value else none := by
  rw [h.get?_keep, h.get?_of_not_links hw.free,
    s.get?_literals_of_alone hw.widget hw.sent hw.plain hw.alone, Option.filter_some]

end Site

namespace Editor

variable {e e' : Editor} {p : Prompt}

/-- Where ids are distinct, take a site that becomes a step and whose key no other one has.  A
widget that sends its value as it is, has its name for itself and is overridden by no link finds its
value, as the preparation left it, in the step, unless the value reads as a reference to a step that
is not in the prompt; then nothing stands under its name.  The step lists a reference exactly if it
names a step and comes from a resolved link, or from a value of that shape.  So all references it
lists are resolved links exactly if no value that reads as a reference names a step.  The compilation
changes nothing but values of widgets. -/
theorem compile_literals (hdistinct : Distinct e.graph) (h : compile.exec e = (.ok p, e'))
    {s : Site} (hs : s ∈ emitted e'.graph)
    (hkey : ∀ t ∈ emitted e'.graph, t.id.key = s.id.key → t = s) :
    skeleton e'.graph = skeleton e.graph ∧ ∃ step, p.output.get? s.id.key = some step ∧
      (∀ j w, s.SendsAlone e'.graph e'.settings.maxHops j w →
        step.inputs.get? w.name =
          if Step.refersInto p.output w.value then some w.value else none) ∧
      (∀ name r, (name, r) ∈ step.references ↔ p.output.has r.origin = true ∧
        (s.Linked e'.graph e'.settings.maxHops name r ∨
          s.Poses e'.graph e'.settings.maxHops name r)) ∧
      ((∀ m ∈ step.references, s.Linked e'.graph e'.settings.maxHops m.1 m.2) ↔
        ∀ name r, s.Poses e'.graph e'.settings.maxHops name r →
          p.output.has r.origin = false) := by
  obtain ⟨built, hbuilt, hstep⟩ := exists_step_of_compile hdistinct h hs hkey
  refine ⟨skeleton_of_compile hdistinct h, _, hstep,
    fun j w hw => hbuilt.get?_keep_of_sendsAlone hw p.output,
    fun name r => hbuilt.mem_references_keep_iff p.output, ?_⟩
  constructor
  · intro hall name r hposes
    rw [← Bool.not_eq_true]
    intro hhas
    have hmem := (hbuilt.mem_references_keep_iff p.output).2 ⟨hhas, .inr hposes⟩
    exact (hall _ hmem).not_isFree hposes.1
  · rintro hnone ⟨name, r⟩ hmem
    rcases (hbuilt.mem_references_keep_iff p.output).1 hmem with ⟨hhas, hlinked | hposes⟩
    · exact hlinked
    · rw [hnone name r hposes] at hhas
      cases hhas

end Editor

/-! ## A sink with odd values -/

/-- A sink that is linked to a source and has three widgets: one whose value reads as a reference to
no step, one whose value reads as a reference to the source, and one whose value is another pair. -/
def posingSink : Node Group where
  id := .number 2
  type := "Sink"
  title := none
  inputs := [{ name := "image", link := some 1 }]
  widgets := [{ name := "lost", value := .arr [.str "a", .int 3] },
    { name := "posed", value := .arr [.str "1", .int 7] },
    { name := "kept", value := .arr [.str "a", .bool true] }]

/-- The editor with the source and the sink. -/
def posing : Editor where
  graph := {
    nodes := [
      { id := .number 1, type := "Source", title := none,
        outputs := [{ name := "o", links := [1] }] },
      posingSink]
    links := [⟨.number 1, .int 1, .number 0, .int 2, .number 0, .str "*"⟩] }

private theorem posing_distinct : Distinct posing.graph := by
  refine ⟨by decide, ?_⟩
  intro n hn group hgroup
  simp only [posing, List.mem_cons, List.not_mem_nil, or_false] at hn
  rcases hn with rfl | rfl <;> cases hgroup

/-- No slot of the sink has the name of a widget, so the values stand for themselves. -/
theorem posing_sendsAlone (g : Workflow) (maxHops : Int) {j : Nat} {w : Widget}
    (hw : posingSink.widgets[j]? = some w) : (Site.outer posingSink).SendsAlone g maxHops j w := by
  have hall : ∀ u ∈ posingSink.widgets, u.isSent = true ∧ u.serializer.isNone = true ∧
      ∀ slot ∈ posingSink.inputs, slot.name ≠ u.name := by decide
  obtain ⟨hsent, hplain, hslots⟩ := hall w (List.mem_of_getElem? hw)
  exact Site.sendsAlone_of_nodup g maxHops hw hsent (Option.isNone_iff_eq_none.1 hplain) (by decide)
    hslots

/-- The first value is gone, and the second one is listed as a reference, although no link has to do
with either. -/
theorem posing_mistakes :
    ∃ p e', Distinct posing.graph ∧ Editor.compile.exec posing = (.ok p, e') ∧
      Site.outer posingSink ∈ emitted e'.graph ∧
      (Site.outer posingSink).SendsAlone e'.graph e'.settings.maxHops 0
        { name := "lost", value := .arr [.str "a", .int 3] } ∧
      (Site.outer posingSink).SendsAlone e'.graph e'.settings.maxHops 1
        { name := "posed", value := .arr [.str "1", .int 7] } ∧
      p.output.map (fun m => (m.1, m.2.inputs, m.2.references)) =
        [("1", [], []),
          ("2", [("posed", .arr [.str "1", .int 7]), ("kept", .arr [.str "a", .bool true]),
              ("image", .arr [.str "1", .int 0])],
            [("posed", ⟨"1", 7⟩), ("image", ⟨"1", 0⟩)])] :=
  ⟨_, _, posing_distinct, rfl, List.mem_cons_of_mem _ List.mem_cons_self,
    posing_sendsAlone _ _ rfl, posing_sendsAlone _ _ rfl, rfl⟩

/-- The value of another pair is kept, the first one is dropped, and the second one is listed. -/
theorem posing_literals : ∃ p e', Editor.compile.exec posing = (.ok p, e') ∧
    skeleton e'.graph = skeleton posing.graph ∧
    ∃ step, p.output.get? "2" = some step ∧ step.inputs.get? "lost" = none ∧
      step.inputs.get? "kept" = some (.arr [.str "a", .bool true]) ∧
      ("posed", ⟨"1", 7⟩) ∈ step.references := by
  have hkey : ∀ t ∈ emitted posing.graph, t.id.key = "2" → t = .outer posingSink := by
    intro t ht hkey
    have hemitted : emitted posing.graph =
        [.outer { id := .number 1, type := "Source", title := none,
                  outputs := [{ name := "o", links := [1] }] }, .outer posingSink] := rfl
    rw [hemitted, List.mem_cons, List.mem_singleton] at ht
    rcases ht with rfl | rfl
    · exact absurd hkey (by decide)
    · rfl
  obtain ⟨hskeleton, step, hstep, hvalues, hreferences, -⟩ :=
    Editor.compile_literals posing_distinct rfl (List.mem_cons_of_mem _ List.mem_cons_self) hkey
  refine ⟨_, _, rfl, hskeleton, step, hstep, ?_, ?_, ?_⟩
  · exact hvalues 0 _ (posing_sendsAlone _ _ rfl)
  · exact hvalues 2 _ (posing_sendsAlone _ _ rfl)
  · refine (hreferences _ _).2 ⟨rfl, .inr ⟨(posing_sendsAlone _ _ (j := 1) rfl).free, _, rfl, rfl⟩⟩

end NodeFlow
