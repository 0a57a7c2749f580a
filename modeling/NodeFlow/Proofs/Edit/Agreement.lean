import NodeFlow.Proofs.Edit.Remove

/-!
# Agreement of the records of links

A link is an entry of the table, a number in the list of one output, and the number that one input
holds.  Nothing else ties the three together than the care of the edits, so that their agreement
is a fact about runs: it holds of the blank graph, and each edit restores it, also one that fails.

Main results:

- Type `Edit` with `Edit.runAll` and `Edit.numbers`: runs of edits and the numbers that they give
  to links.
- Structure `Graph.LinksAgree`: every record of a link has its two counterparts.
- Theorem `Edit.spares`: what one edit preserves.
- Theorem `Edit.linksAgree_runAll`: the records agree after every run, an edit reaches only the
  inputs that it is about, and numbers of links are not used twice.
-/

namespace NodeFlow

/-! ## Edits -/

/-- A change that the editor makes to the graph. -/
inductive Edit where
  | add (id? : Option NodeId) (n : Node Group)
  | connect (origin : NodeId) (originSlot : Whole) (target : NodeId) (targetSlot : Whole)
  | disconnect (target : NodeId) (slot : Int)
  | remove (id : NodeId)

namespace Edit

/-- The edit as an action; connecting gives the new link. -/
def act : Edit → Act Workflow (Option Link)
  | add id? n => do
    let _ ← Graph.add id? n
    pure none
  | connect o a t b => do
    let l ← Workflow.connect (.outer o) a (.outer t) b
    pure (some l)
  | disconnect t slot => do
    Workflow.disconnect (.outer t) slot
    pure none
  | remove id => do
    Workflow.remove (.outer id)
    pure none

/-- The graph after the edit, also where the edit fails. -/
def run (e : Edit) (g : Workflow) : Workflow := (e.act.exec g).2

/-- The number that the edit gives to a link, if it makes one. -/
def assigned? (e : Edit) (g : Workflow) : Option Int :=
  match (e.act.exec g).1 with
  | .ok (some l) => some l.id.val
  | _ => none

/-- What callers promise: added nodes hold no links, and the nodes that are connected or removed are
in the graph.  Slots may be missing; they are not counted from the end. -/
def IsFit (g : Workflow) : Edit → Prop
  | add _ n => n.IsUnlinked
  | connect o a t b => (g.at? o).isSome ∧ (g.at? t).isSome ∧ 0 ≤ a.val ∧ 0 ≤ b.val
  | disconnect _ _ => True
  | remove id => (g.at? id).isSome

/-- The inputs that the edit is about: the one that is connected or disconnected, and of a node that
is removed its own and those that it feeds. -/
def Touches (g : Workflow) (id : NodeId) (j : Nat) : Edit → Prop
  | add _ _ => False
  | connect _ _ t b => id = t ∧ (j : Int) = b.val
  | disconnect t slot => id = t ∧ ∃ n, g.at? t = some n ∧ position? n.inputs.length slot = some j
  | remove r => id = r ∨ ∃ l, g.incoming? id j = some l ∧ l.origin = r.toJson

/-- The graph after edits that follow each other. -/
def runAll : List Edit → Workflow → Workflow
  | [], g => g
  | e :: es, g => runAll es (e.run g)

/-- The numbers that the edits give to links, in their order. -/
def numbers : List Edit → Workflow → List Int
  | [], _ => []
  | e :: es, g => (e.assigned? g).toList ++ numbers es (e.run g)

/-- Each edit is fit for the graph that those before it leave. -/
def AllFit : List Edit → Workflow → Prop
  | [], _ => True
  | e :: es, g => e.IsFit g ∧ AllFit es (e.run g)

instance : DecidablePred (@Node.IsUnlinked Group) := fun _ =>
  inferInstanceAs (Decidable (_ ∧ _))

instance decidableIsFit (g : Workflow) : (e : Edit) → Decidable (e.IsFit g)
  | add _ n => inferInstanceAs (Decidable n.IsUnlinked)
  | connect .. => inferInstanceAs (Decidable (_ ∧ _ ∧ _ ∧ _))
  | disconnect .. => inferInstanceAs (Decidable True)
  | remove _ => inferInstanceAs (Decidable (_ = true))

instance decidableAllFit : (es : List Edit) → (g : Workflow) → Decidable (AllFit es g)
  | [], _ => inferInstanceAs (Decidable True)
  | e :: es, g =>
    have := decidableAllFit es (e.run g)
    inferInstanceAs (Decidable (_ ∧ _))

end Edit

/-! ## Agreement -/

/-- Every entry of the table stands in the list of the output and in the input that it names, in no
other, and lists and inputs name entries of the table only. -/
structure Graph.LinksAgree {γ : Type} (g : Graph γ) : Prop where
  ids : (g.nodes.map (·.id)).Nodup
  numbers : (g.links.map (·.id.val)).Nodup
  counted : ∀ l ∈ g.links, l.id.val ≤ g.lastLinkId.val
  leaves : ∀ l ∈ g.links, ∃ n ∈ g.nodes, l.origin = n.id.toJson ∧
    ∃ (i : Nat) (o : _), l.originSlot.val = i ∧ n.outputs[i]? = some o ∧ o.links.count l.id.val = 1
  enters : ∀ l ∈ g.links, ∃ n ∈ g.nodes, l.target = n.id.toJson ∧
    ∃ (j : Nat) (s : _), l.targetSlot.val = j ∧ n.inputs[j]? = some s ∧ s.link = some l.id.val
  listed : ∀ n ∈ g.nodes, ∀ (i : Nat) o, n.outputs[i]? = some o → ∀ k ∈ o.links,
    ∃ l ∈ g.links, l.id.val = k ∧ l.origin = n.id.toJson ∧ l.originSlot.val = i
  held : ∀ n ∈ g.nodes, ∀ (j : Nat) s, n.inputs[j]? = some s → ∀ k, s.link = some k →
    ∃ l ∈ g.links, l.id.val = k ∧ l.target = n.id.toJson ∧ l.targetSlot.val = j

private theorem Graph.Booked.linksAgree {γ : Type} {g : Graph γ} (h : g.Booked) : g.LinksAgree where
  ids := h.ids
  numbers := h.numbers
  counted := h.counted
  leaves := by
    intro l hl
    rcases h.leaves l hl with ⟨id, i, ks, ⟨horigin, hslot⟩, hlisted, hmem⟩
    rcases exists_of_listedAt? hlisted with ⟨n, o, hn, ho, rfl⟩
    have hcount : o.links.count l.id.val = 1 :=
      List.count_eq_one_of_mem (h.listed id i o.links hlisted).1 hmem
    exact ⟨n, mem_of_at? hn, (id_of_at? hn).symm ▸ horigin, i, o, hslot, ho, hcount⟩
  enters := by
    intro l hl
    rcases h.enters l hl with ⟨id, j, ⟨htarget, hslot⟩, hheld⟩
    rcases exists_of_heldAt? hheld with ⟨n, s, hn, hs, hlink⟩
    exact ⟨n, mem_of_at? hn, (id_of_at? hn).symm ▸ htarget, j, s, hslot, hs, hlink⟩
  listed := by
    intro n hn i o ho k hk
    have hlisted : g.listedAt? n.id i = some o.links := by
      rw [listedAt?_of_at? (at?_of_mem h.ids hn), ho, Option.map_some]
    rcases (h.listed n.id i o.links hlisted).2 k hk with ⟨l, hl, hnumber, hleaves⟩
    exact ⟨l, hl, hnumber, hleaves⟩
  held := by
    intro n hn j s hs k hk
    have hheld : g.heldAt? n.id j = some (some k) := by
      rw [heldAt?_of_at? (at?_of_mem h.ids hn), hs, Option.map_some, hk]
    rcases h.held n.id j k hheld with ⟨l, hl, hnumber, henters⟩
    exact ⟨l, hl, hnumber, henters⟩

/-! ## One edit -/

namespace Edit

open NodeFlow.Graph Workflow

variable {g : Workflow}

/-- An edit keeps the records in step and reaches only the inputs that it is about; a number that it
gives to a link is above all that were there. -/
theorem spares (h : g.Booked) (e : Edit) (hfit : e.IsFit g) :
    Spares (fun id j => e.Touches g id j) g (e.run g) ∧
      ∀ k, e.assigned? g = some k → g.lastLinkId.val < k ∧ k ≤ (e.run g).lastLinkId.val := by
  cases e with
  | add id? n =>
    have hspares := h.add hfit id?
    cases hexec : (Graph.add id? n).exec g with
    | mk r g' =>
      rw [hexec] at hspares
      cases r <;>
        simp only [run, assigned?, act, Act.exec_bind, hexec, Act.exec_pure] <;>
        exact ⟨hspares, fun k hk => (by cases hk)⟩
  | connect o a t b =>
    rcases hfit with ⟨ho, ht, ha, hb⟩
    rcases Option.isSome_iff_exists.1 ho with ⟨n, hn⟩
    rcases Option.isSome_iff_exists.1 ht with ⟨m, hm⟩
    rcases Int.eq_ofNat_of_zero_le ha with ⟨i, hi⟩
    rcases Int.eq_ofNat_of_zero_le hb with ⟨j, hj⟩
    rcases exec_connect h hn hm hi hj with
      ⟨-, f, hexec⟩ | ⟨l, g', hexec, hnumber, hcounter, hspares⟩
    · simp only [run, assigned?, act, Act.exec_bind, hexec]
      exact ⟨.refl h, fun k hk => (by cases hk)⟩
    · simp only [run, assigned?, act, Act.exec_bind, hexec, Act.exec_pure]
      refine ⟨hspares.mono fun id j' hslot => ?_, fun k hk => ?_⟩
      · rw [Touches, hj]
        exact ⟨hslot.1, congrArg _ hslot.2⟩
      · cases hk
        omega
  | disconnect t slot =>
    have hspares := spares_disconnect h t slot
    cases hexec : (Workflow.disconnect (.outer t) slot).exec g with
    | mk r g' =>
      rw [hexec] at hspares
      cases r <;>
        simp only [run, assigned?, act, Act.exec_bind, hexec, Act.exec_pure] <;>
        exact ⟨hspares, fun k hk => (by cases hk)⟩
  | remove r =>
    rcases Option.isSome_iff_exists.1 hfit with ⟨n, hn⟩
    rcases exec_remove h hn with ⟨g', hexec, -, hspares⟩
    simp only [run, assigned?, act, Act.exec_bind, hexec, Act.exec_pure]
    refine ⟨hspares.mono fun id j hslot => ?_, fun k hk => (by cases hk)⟩
    rcases hslot with hid | ⟨l, hl, henters, horigin⟩
    · exact .inl hid
    · refine .inr ⟨l, ?_, horigin⟩
      rw [incoming?, h.held_of_enters hl henters, Option.join_some, Option.bind_some]
      exact h.link?_eq_some_iff.2 ⟨hl, rfl⟩

end Edit

/-! ## Runs of edits -/

namespace Workflow

open NodeFlow.Graph

/-- In a blank graph there are no records that could disagree. -/
theorem booked_blank : ({} : Workflow).Booked where
  ids := List.nodup_nil
  numbers := List.nodup_nil
  counted := fun l hl => absurd hl List.not_mem_nil
  leaves := fun l hl => absurd hl List.not_mem_nil
  enters := fun l hl => absurd hl List.not_mem_nil
  listed := fun id i ks hlisted => (by cases hlisted)
  held := fun id j k hheld => (by cases hheld)

end Workflow

namespace Edit

variable {g : Workflow} {es : List Edit}

/-- What edits preserve that follow each other; the numbers they give grow. -/
theorem booked_runAll (h : g.Booked) (hfit : AllFit es g) :
    (runAll es g).Booked ∧ (numbers es g).Nodup ∧ ∀ k ∈ numbers es g, g.lastLinkId.val < k := by
  induction es generalizing g with
  | nil => exact ⟨h, List.nodup_nil, fun k hk => absurd hk List.not_mem_nil⟩
  | cons e es ih =>
    rcases e.spares h hfit.1 with ⟨hspares, hassigned⟩
    rcases ih hspares.booked hfit.2 with ⟨hbooked, hnodup, hgrow⟩
    refine ⟨hbooked, ?_, ?_⟩
    · rw [numbers, List.nodup_append]
      refine ⟨by cases e.assigned? g <;> simp, hnodup, ?_⟩
      intro k hk k' hk'
      have hle := (hassigned k (Option.mem_toList.1 hk)).2
      have hlt := hgrow k' hk'
      omega
    · intro k hk
      rcases List.mem_append.1 hk with hk | hk
      · exact (hassigned k (Option.mem_toList.1 hk)).1
      · exact hspares.counter.trans_lt (hgrow k hk)

/-- After every run of edits the records of links agree, the next edit leaves the incoming link of
every input alone that it is not about, and no number was given to two links. -/
theorem linksAgree_runAll (hfit : AllFit es {}) :
    (runAll es {}).LinksAgree ∧ (numbers es {}).Nodup ∧
      ∀ e : Edit, e.IsFit (runAll es {}) → ∀ id j, ¬ e.Touches (runAll es {}) id j →
        (e.run (runAll es {})).incoming? id j = (runAll es {}).incoming? id j := by
  rcases booked_runAll Workflow.booked_blank hfit with ⟨hbooked, hnodup, -⟩
  exact ⟨hbooked.linksAgree, hnodup, fun e he _ _ hother =>
    (e.spares hbooked he).1.incoming? hbooked hother⟩

/-- One output feeds both inputs of a node, a third link leads from that node to itself in place of
one of them, and a fourth is refused.  The removal of the first node leaves the third link alone. -/
def fanOut : List Edit :=
  [.add none { type := "Source", title := none, outputs := [{ name := "OUT" }] },
   .add none { type := "Sink", title := none, inputs := [{ name := "left" }, { name := "right" }],
               outputs := [{ name := "OUT" }] },
   .connect (.number 1) (.number 0) (.number 2) (.number 0),
   .connect (.number 1) (.number 0) (.number 2) (.number 1),
   .connect (.number 2) (.number 0) (.number 2) (.number 0),
   .connect (.number 2) (.number 1) (.number 2) (.number 1)]

/-- The records agree where one output feeds two inputs and another link leads from a node to
itself. -/
theorem linksAgree_fanOut :
    AllFit fanOut {} ∧ (runAll fanOut {}).LinksAgree ∧ numbers fanOut {} = [1, 2, 3] ∧
      ((runAll fanOut {}).incoming? (.number 2) 0).map (·.id.val) = some 3 ∧
      ((Edit.remove (.number 1)).run (runAll fanOut {})).incoming? (.number 2) 0 =
        (runAll fanOut {}).incoming? (.number 2) 0 := by
  have hfit : AllFit fanOut {} := by decide +kernel
  have hagree := linksAgree_runAll hfit
  have hself : ((runAll fanOut {}).incoming? (.number 2) 0).bind (fun l => Graph.idOf? l.origin) =
    some (.number 2) := by decide +kernel
  refine ⟨hfit, hagree.1, by decide +kernel, by decide +kernel, ?_⟩
  refine hagree.2.2 (.remove (.number 1)) (by decide +kernel) (.number 2) 0 ?_
  rintro (hid | ⟨l, hl, horigin⟩)
  · cases hid
  · rw [hl, Option.bind_some, horigin] at hself
    cases hself

end Edit

end NodeFlow
