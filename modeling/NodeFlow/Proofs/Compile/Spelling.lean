import NodeFlow.Proofs.Compile.Push
import NodeFlow.Proofs.Load.Finish
import NodeFlow.Proofs.Load.Names

/-!
# Spellings of ids

A reference to a node names a number or a text, and a lookup takes the number for its numeral and the
numeral for the number.  Where ids have different texts, it does not matter which of the two a link
holds at its ends: the order of the nodes, the targets of primitives and the graph with its primitives
finished are the same.

Main results:

- Definitions `Json.asText` and `Graph.asText`: numerals in place of the numbers that name nodes.
- Theorem `Json.asText_eq_iff`: what is spelled the other way has the same numeral.
- Theorem `Graph.lookup?_spelling`: both spellings find the same.
- Theorems `Graph.plan_asText` and `Graph.targets_asText`: what does not depend on the spelling.
- Theorem `Graph.finishAll_asText`: primitives are finished alike.
-/

namespace NodeFlow

/-! ## Numerals -/

/-- The numeral of the number is no longer than what is read. -/
def IsReadable (n : Int) : Prop := (Nat.toDigits 10 n.natAbs).length ≤ Decimal.maxDigits

instance (n : Int) : Decidable (IsReadable n) := inferInstanceAs (Decidable (_ ≤ _))

/-- A number that can be read is read from its text. -/
theorem Fault.readWhole_toString {n : Int} (h : IsReadable n) : readWhole (toString n) = .ok n := by
  rw [readWhole, Decimal.readInt_toString, if_neg (Nat.not_lt.2 h)]

/-- The value with a numeral in place of a number. -/
def Json.asText : Json → Json
  | .int n => if IsReadable n then .str (toString n) else .int n
  | v => v

private theorem Json.asText_cases (v : Json) :
    v.asText = v ∨ ∃ n, IsReadable n ∧ v = .int n ∧ v.asText = .str (toString n) := by
  cases v with
  | int n =>
    by_cases hreadable : IsReadable n
    · exact .inr ⟨n, hreadable, rfl, if_pos hreadable⟩
    · exact .inl (if_neg hreadable)
  | null | bool | float | str | arr | obj => exact .inl rfl

/-- What has the same numeral is the same, or one is a number and the other its numeral. -/
theorem Json.asText_eq_iff {v v' : Json} : v'.asText = v.asText ↔ v' = v ∨ ∃ n, IsReadable n ∧
    (v = .int n ∧ v' = .str (toString n) ∨ v' = .int n ∧ v = .str (toString n)) := by
  constructor
  · intro h
    rcases v.asText_cases with hv | ⟨n, hn, rfl, hv⟩ <;>
      rcases v'.asText_cases with hv' | ⟨n', hn', rfl, hv'⟩ <;>
      rw [hv, hv'] at h
    · exact .inl h
    · exact .inr ⟨n', hn', .inr ⟨rfl, h.symm⟩⟩
    · exact .inr ⟨n, hn, .inl ⟨rfl, h⟩⟩
    · exact .inl (congrArg Json.int (eq_of_toString_eq (Json.str.inj h)))
  · rintro (rfl | ⟨n, hn, ⟨rfl, rfl⟩ | ⟨rfl, rfl⟩⟩)
    · rfl
    · exact (if_pos hn).symm
    · exact if_pos hn

@[simp] theorem Json.isNull_asText (v : Json) : v.asText.isNull = v.isNull := by
  cases v with
  | int n =>
    rw [asText]
    split <;> rfl
  | null | bool | float | str | arr | obj => rfl

/-- The id with a numeral in place of a number. -/
def NodeId.asText : NodeId → NodeId
  | .number n => if IsReadable n then .name (toString n) else .number n
  | .name s => .name s

/-- Writing an id as a text and as a value can change places. -/
theorem NodeId.toJson_asText (id : NodeId) : id.asText.toJson = id.toJson.asText := by
  cases id with
  | number n =>
    rw [asText, toJson, Json.asText]
    split <;> rfl
  | name s => rfl

/-- The link with numerals at its ends. -/
def Link.asText (l : Link) : Link := { l with origin := l.origin.asText, target := l.target.asText }

/-! ## Groups -/

section MapGroup

variable {γ : Type} (ψ : γ → γ)

/-- Change what a node stands for. -/
def Kind.mapGroup : Kind γ → Kind γ
  | .group x => .group (ψ x)
  | k => k

/-- Change what a node stands for, and nothing else about it. -/
def Node.mapGroup (n : Node γ) : Node γ := { n with kind := n.kind.mapGroup ψ }

@[simp] theorem Node.group?_mapGroup (n : Node γ) : (n.mapGroup ψ).group? = n.group?.map ψ := by
  unfold mapGroup group?
  cases n.kind <;> rfl

@[simp] theorem Node.isVirtual_mapGroup (n : Node γ) : (n.mapGroup ψ).isVirtual = n.isVirtual := by
  unfold mapGroup isVirtual
  cases n.kind <;> rfl

@[simp] theorem Node.passThrough?_mapGroup (n : Node γ) (output : Int) :
    (n.mapGroup ψ).passThrough? output = n.passThrough? output := by
  unfold mapGroup passThrough?
  cases n.kind <;> rfl

/-- A change inside a group is nothing that primitives look at. -/
theorem Node.isNominal_mapGroup : Graph.IsNominal (Node.mapGroup ψ) where
  id _ := rfl
  order _ := rfl
  inputs _ := rfl
  outputs _ := rfl
  isCutOff _ := rfl
  isPrimitive n := by
    unfold mapGroup
    cases n.kind <;> rfl
  widgets _ := rfl

end MapGroup

/-! ## Graphs -/

namespace Graph

variable {γ : Type} {g : Graph γ}

/-- The graph with numerals at the ends of links, and something done to what its nodes stand for. -/
def asText (ψ : γ → γ) (g : Graph γ) : Graph γ :=
  { g with nodes := g.nodes.map (Node.mapGroup ψ), links := g.links.map Link.asText }

/-- Where the texts of ids differ, a number and its numeral do not both name nodes. -/
theorem KeysNodup.at?_eq_none (hg : g.KeysNodup) {n : Int} {m : Node γ}
    (hm : g.at? (.number n) = some m) : g.at? (.name (toString n)) = none := by
  cases hname : g.at? (.name (toString n)) with
  | none => rfl
  | some m' =>
    have hkey : m.id.key = m'.id.key := by
      rw [id_of_at? hm, id_of_at? hname]
      rfl
    have hsame := List.inj_on_of_nodup_map hg (mem_of_at? hm) (mem_of_at? hname) hkey
    have hid := id_of_at? hm
    rw [hsame, id_of_at? hname] at hid
    cases hid

/-- A number is looked up as it is, then under its numeral. -/
theorem lookup?_int (g : Graph γ) (n : Int) :
    g.lookup? (.int n) = .ok ((g.at? (.number n)).or (g.at? (.name (toString n)))) := by
  simp only [lookup?, idOf?, Option.bind_some]
  cases g.at? (.number n) <;> rfl

/-- A numeral is looked up as it is, then as the number. -/
theorem lookup?_numeral (g : Graph γ) {n : Int} (h : IsReadable n) :
    g.lookup? (.str (toString n)) = .ok ((g.at? (.name (toString n))).or (g.at? (.number n))) := by
  have hother : otherSpelling? (.str (toString n)) = .ok (some (.number n)) := by
    rw [otherSpelling?, if_pos (Text.looksNumeric_toString n), Fault.readWhole_toString h]
    rfl
  simp only [lookup?, idOf?, Option.bind_some, hother]
  cases g.at? (.name (toString n)) <;> rfl

/-- Both spellings of a number find the same node. -/
theorem lookup?_spelling (hg : g.KeysNodup) (v : Json) : g.lookup? v.asText = g.lookup? v := by
  cases v with
  | int n =>
    rw [Json.asText]
    split
    · rename_i hreadable
      rw [lookup?_int, lookup?_numeral g hreadable]
      cases hnumber : g.at? (.number n) with
      | some m => rw [hg.at?_eq_none hnumber, Option.none_or, Option.some_or]
      | none => rw [Option.or_none, Option.none_or]
    · rfl
  | null | bool | float | str | arr | obj => rfl

variable (ψ : γ → γ)

/-- Another spelling of links keeps the ids of nodes in their order. -/
theorem ids_asText (g : Graph γ) : (g.asText ψ).nodes.map (·.id) = g.nodes.map (·.id) :=
  ids_mapNodes (Node.isNominal_mapGroup ψ).toIsNeutral g

/-- Another spelling of links leaves the nodes under their ids. -/
theorem at?_asText (g : Graph γ) (id : NodeId) :
    (g.asText ψ).at? id = (g.at? id).map (Node.mapGroup ψ) :=
  at?_mapNodes (Node.isNominal_mapGroup ψ).toIsNeutral g id

/-- A lookup does not depend on links. -/
theorem lookup?_asText (g : Graph γ) (v : Json) :
    (g.asText ψ).lookup? v = (g.lookup? v).map (Option.map (Node.mapGroup ψ)) :=
  lookup?_mapNodes (Node.isNominal_mapGroup ψ).toIsNeutral g v

private theorem link?_asText (g : Graph γ) (id : Int) :
    (g.asText ψ).link? id = (g.link? id).map Link.asText := by
  rw [link?, asText, List.find?_map]
  rfl

/-- An input gets the respelled link. -/
theorem inLink?_asText (g : Graph γ) (n : Node γ) (slot : Int) :
    (g.asText ψ).inLink? (n.mapGroup ψ) slot = (g.inLink? n slot).map Link.asText := by
  have hinput : (n.mapGroup ψ).inputLink? slot = n.inputLink? slot := rfl
  have hcut : (n.mapGroup ψ).isCutOff = n.isCutOff := rfl
  rw [inLink?, inLink?, hinput, hcut]
  split
  · rfl
  · rw [Option.map_bind]
    exact congrArg _ (funext fun id => link?_asText ψ g id)

private theorem outLinks?_asText (g : Graph γ) (n : Node γ) (slot : Int) :
    (g.asText ψ).outLinks? (n.mapGroup ψ) slot = (g.outLinks? n slot).map (List.map Link.asText) := by
  have houtputs : (n.mapGroup ψ).outputs = n.outputs := rfl
  have hcut : (n.mapGroup ψ).isCutOff = n.isCutOff := rfl
  rw [outLinks?, outLinks?, houtputs, hcut]
  split
  · rfl
  · split
    · have hlink : (g.asText ψ).link? = fun id => (g.link? id).map Link.asText :=
        funext fun id => link?_asText ψ g id
      rw [hlink, Except.map, List.map_filterMap]
    · rfl

/-! ### Order -/

section Order

variable (hg : g.KeysNodup)

include hg

private theorem producer?_asText (slot : InputSlot) :
    (g.asText ψ).producer? slot = g.producer? slot := by
  have hlink : (g.asText ψ).link? = fun id => (g.link? id).map Link.asText :=
    funext fun id => link?_asText ψ g id
  have hfound : slot.link.bind (g.asText ψ).link? = (slot.link.bind g.link?).map Link.asText := by
    rw [Option.map_bind, hlink]
    rfl
  rw [producer?, producer?, hfound]
  cases slot.link.bind g.link? with
  | none => rfl
  | some l =>
    simp only [Option.map_some, Link.asText, lookup?_asText, lookup?_spelling hg]
    cases g.lookup? l.origin with
    | error f => rfl
    | ok origin => cases origin <;> rfl

private theorem producers_asText (slots : List InputSlot) (known : List NodeId) :
    (g.asText ψ).producers slots known = g.producers slots known := by
  induction slots generalizing known with
  | nil => rfl
  | cons slot slots ih => simp only [producers, producer?_asText ψ hg, ih]

private theorem waitingList_asText (ns : List (Node γ)) :
    (g.asText ψ).waitingList (ns.map (Node.mapGroup ψ)) = g.waitingList ns := by
  induction ns with
  | nil => rfl
  | cons n ns ih =>
    simp only [List.map_cons, waitingList, dependencies, producers_asText ψ hg, ih]
    rfl

/-- The execution order does not depend on the spelling. -/
theorem plan_asText : (g.asText ψ).plan = g.plan := by
  have hcandidates : (g.asText ψ).candidates = g.candidates.map (Node.mapGroup ψ) :=
    sortByOrder_map (Node.isNominal_mapGroup ψ).toIsNeutral g.nodes
  simp only [plan, hcandidates, waitingList_asText ψ hg]

/-- The order does not depend on how links spell ids. -/
theorem planned_asText :
    (g.asText ψ).planned = g.planned.map (List.map (Node.mapGroup ψ)) := by
  rw [planned, planned, plan_asText ψ hg]
  cases g.plan with
  | error f => rfl
  | ok order =>
    have hat : (g.asText ψ).at? = fun id => (g.at? id).map (Node.mapGroup ψ) :=
      funext fun id => at?_asText ψ g id
    simp only [bind, Except.bind, pure, Except.pure, Except.map, hat, List.map_filterMap]

/-! ### Primitives -/

private theorem targetOf_asText (l : Link) : (g.asText ψ).targetOf l.asText = g.targetOf l := by
  have hnominal := Node.isNominal_mapGroup ψ
  have hnodes : (g.asText ψ).targetOf l.asText = (g.mapNodes (Node.mapGroup ψ)).targetOf l.asText :=
    rfl
  rw [hnodes, targetOf_mapNodes hnominal.isNamed, targetOf, targetOf, Link.asText, lookup?_spelling hg]

private theorem targetsOf_asText (ls : List Link) :
    (g.asText ψ).targetsOf (ls.map Link.asText) = g.targetsOf ls := by
  induction ls with
  | nil => rfl
  | cons l ls ih => simp only [List.map_cons, targetsOf, targetOf_asText ψ hg, ih]

/-- The widgets that a node is linked to do not depend on the spelling. -/
theorem targets_asText (n : Node γ) : (g.asText ψ).targets (n.mapGroup ψ) = g.targets n := by
  rw [targets, targets, outLinks?_asText]
  cases g.outLinks? n 0 with
  | error f => rfl
  | ok ls => exact targetsOf_asText ψ hg ls

private theorem finished_asText (n : Node γ) :
    (g.asText ψ).finished (n.mapGroup ψ) = (g.finished n).map (Node.mapGroup ψ) := by
  have hwidgetAt : ∀ c, (g.asText ψ).widgetAt? c =
      (g.widgetAt? c).map fun found => (found.1.mapGroup ψ, found.2) := by
    intro c
    simp only [widgetAt?, at?_asText]
    cases g.at? c.1 with
    | none => rfl
    | some m => cases hw : m.widgets[c.2]? <;> simp [Node.mapGroup, hw]
  have htargets := targets_asText ψ hg n
  cases hkind : n.kind with
  | primitive pending =>
    have hsame : (n.mapGroup ψ).kind = .primitive pending := by
      rw [Node.mapGroup, hkind]
      rfl
    have hwidgets : (n.mapGroup ψ).widgets = n.widgets := rfl
    rw [finished, finished, hsame, hkind, hwidgets, htargets]
    dsimp only
    split
    · rfl
    · cases g.targets n with
      | error f => rfl
      | ok places =>
        simp only [bind, Except.bind, pure, Except.pure]
        cases places.head? with
        | none => rfl
        | some c =>
          simp only [Option.bind_some, hwidgetAt]
          cases g.widgetAt? c <;> rfl
  | plain | missing | reroute | note | group =>
    have hother : n.kind.isPrimitive = false := by rw [hkind]; rfl
    rw [finished_of_not_primitive hother, finished_of_not_primitive]
    · rfl
    · rw [(Node.isNominal_mapGroup ψ).isPrimitive, hother]

end Order

/-- Changing a node and respelling can change places. -/
theorem modifyNode_asText {f f' : Node γ → Node γ}
    (h : ∀ n, f' (Node.mapGroup ψ n) = (f n).mapGroup ψ) (g : Graph γ) (id : NodeId) :
    (g.asText ψ).modifyNode id f' = (g.modifyNode id f).asText ψ := by
  have hnodes : ((g.nodes.map (Node.mapGroup ψ)).map fun n => if n.id = id then f' n else n) =
      (g.nodes.map fun n => if n.id = id then f n else n).map (Node.mapGroup ψ) := by
    rw [List.map_map, List.map_map]
    refine List.map_congr_left fun n _ => ?_
    have hid : (n.mapGroup ψ).id = n.id := rfl
    simp only [Function.comp, hid]
    split
    · exact h n
    · rfl
  simp only [modifyNode, asText, hnodes]

/-- Finishing a node and respelling can change places. -/
theorem finishNode_asText (hg : g.KeysNodup) (id : NodeId) :
    (g.asText ψ).finishNode id = (g.finishNode id).map (asText ψ) := by
  rw [finishNode, finishNode, at?_asText]
  cases g.at? id with
  | none => rfl
  | some n =>
    simp only [Option.map_some, finished_asText ψ hg]
    cases g.finished n with
    | error f => rfl
    | ok m =>
      have hmodify : (g.asText ψ).modifyNode id (fun _ => m.mapGroup ψ) =
          (g.modifyNode id fun _ => m).asText ψ := by
        refine modifyNode_asText ψ (fun _ => ?_) g id
        rfl
      exact congrArg Except.ok hmodify

/-- Whether keys are distinct depends on the ids only. -/
theorem keysNodup_of_ids {g g' : Graph γ} (h : g'.nodes.map (·.id) = g.nodes.map (·.id))
    (hg : g.KeysNodup) : g'.KeysNodup := by
  have hkeys : ∀ x : Graph γ, x.nodes.map (·.id.key) = (x.nodes.map (·.id)).map NodeId.key := by
    intro x
    rw [List.map_map]
    rfl
  rw [KeysNodup, hkeys, h, ← hkeys]
  exact hg

/-- Finishing nodes and respelling can change places. -/
theorem finishAll_asText (hg : g.KeysNodup) (ids : List NodeId) :
    (g.asText ψ).finishAll ids = (g.finishAll ids).map (asText ψ) := by
  induction ids generalizing g with
  | nil => rfl
  | cons id ids ih =>
    rw [finishAll, finishAll, finishNode_asText ψ hg]
    cases hfirst : g.finishNode id with
    | error f => rfl
    | ok g' => exact ih (keysNodup_of_ids (ids_finishNode hfirst) hg)

end Graph

end NodeFlow
