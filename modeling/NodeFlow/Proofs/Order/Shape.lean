import NodeFlow.Order

/-!
# What the order depends on

The execution order depends on the links, and on ids, order attributes and inputs of the nodes.
Changing anything else about the nodes changes nothing about it.

Main results:

- Definition `Graph.mapNodes`: all nodes of a graph changed.
- Theorem `Graph.lookup?_map_congr`: what a lookup depends on.
- Theorems `Graph.at?_mapNodes` and `Graph.lookup?_mapNodes`: what a lookup finds then.
- Theorem `Graph.plan_mapNodes`: the order stays.
-/

namespace NodeFlow

namespace Graph

variable {γ : Type}

/-- Change all nodes. -/
def mapNodes (f : Node γ → Node γ) (g : Graph γ) : Graph γ := { g with nodes := g.nodes.map f }

/-- Links are looked up by number, whatever becomes of the nodes. -/
theorem link?_mapNodes (f : Node γ → Node γ) (g : Graph γ) : (g.mapNodes f).link? = g.link? := rfl

/-- What a lookup finds depends on what is found under the ids themselves. -/
theorem lookup?_map_congr {γ' β : Type} {g : Graph γ} {h : Graph γ'} {φ : Node γ' → β}
    {ψ : Node γ → β} (hat : ∀ id, (h.at? id).map φ = (g.at? id).map ψ) (v : Json) :
    (h.lookup? v).map (·.map φ) = (g.lookup? v).map (·.map ψ) := by
  have hfirst : ∀ id? : Option NodeId, (id?.bind h.at?).map φ = (id?.bind g.at?).map ψ := by
    intro id?
    cases id? with
    | none => rfl
    | some id => exact hat id
  obtain ⟨id?, hid⟩ : ∃ id?, idOf? v = id? := ⟨_, rfl⟩
  have hsame := hfirst id?
  cases v with
  | arr items => rfl
  | obj members => rfl
  | _ =>
    simp only [lookup?, hid]
    cases hg : id?.bind g.at? with
    | none =>
      rw [hg, Option.map_none, Option.map_eq_none_iff] at hsame
      rw [hsame]
      cases otherSpelling? _ with
      | error e => rfl
      | ok other =>
        cases other with
        | none => rfl
        | some id => exact congrArg Except.ok (hat id)
    | some n =>
      rw [hg] at hsame
      rcases Option.map_eq_some_iff.1 hsame with ⟨m, hm, hnode⟩
      rw [hm]
      simp only [Except.map, Option.map_some, hnode]

/-- A change of nodes that the order does not depend on. -/
structure IsNeutral (f : Node γ → Node γ) : Prop where
  id : ∀ n, (f n).id = n.id
  order : ∀ n, (f n).order = n.order
  inputs : ∀ n, (f n).inputs = n.inputs

variable {f : Node γ → Node γ} (hf : IsNeutral f) (g : Graph γ)

include hf

/-- A neutral change keeps the ids of nodes in their order. -/
theorem ids_mapNodes : (g.mapNodes f).nodes.map (·.id) = g.nodes.map (·.id) := by
  simp [mapNodes, hf.id, Function.comp_def]

/-- After a neutral change the changed node is found under its id. -/
theorem at?_mapNodes (id : NodeId) : (g.mapNodes f).at? id = (g.at? id).map f := by
  simp only [at?, mapNodes, List.find?_map]
  have hsame : (fun n : Node γ => n.id == id) ∘ f = fun n => n.id == id := by
    funext n
    simp [hf.id]
  rw [hsame]

/-- After a neutral change a value names the changed node. -/
theorem lookup?_mapNodes (v : Json) : (g.mapNodes f).lookup? v = (g.lookup? v).map (·.map f) := by
  have hlookup := lookup?_map_congr (φ := id) (ψ := f) (h := g.mapNodes f) (g := g)
    (fun id => by rw [Option.map_id, at?_mapNodes hf]; rfl) v
  rw [← hlookup]
  cases (g.mapNodes f).lookup? v with
  | error e => rfl
  | ok found => cases found <;> rfl

private theorem producer?_mapNodes (slot : InputSlot) :
    (g.mapNodes f).producer? slot = g.producer? slot := by
  have hlink : (g.mapNodes f).link? = g.link? := rfl
  simp only [producer?, hlink]
  cases slot.link.bind g.link? with
  | none => rfl
  | some l =>
    simp only [lookup?_mapNodes hf]
    cases g.lookup? l.origin with
    | error e => rfl
    | ok origin => cases origin <;> simp [Except.map, bind, Except.bind, pure, Except.pure, hf.id]

private theorem producers_mapNodes (slots : List InputSlot) (known : List NodeId) :
    (g.mapNodes f).producers slots known = g.producers slots known := by
  induction slots generalizing known with
  | nil => rfl
  | cons slot slots ih => simp only [producers, producer?_mapNodes hf, ih]

private theorem waitingList_mapNodes (ns : List (Node γ)) :
    (g.mapNodes f).waitingList (ns.map f) = g.waitingList ns := by
  induction ns with
  | nil => rfl
  | cons n ns ih =>
    simp only [List.map_cons, waitingList, dependencies, producers_mapNodes hf, ih, hf.id,
      hf.inputs]

omit g in
/-- A neutral change and sorting can change places. -/
theorem sortByOrder_map (ns : List (Node γ)) : sortByOrder (ns.map f) = (sortByOrder ns).map f := by
  have hinsert : ∀ (n : Node γ) (ns : List (Node γ)),
      insertByOrder (f n) (ns.map f) = (insertByOrder n ns).map f := by
    intro n ns
    induction ns with
    | nil => rfl
    | cons m ms ih =>
      simp only [List.map_cons, insertByOrder, hf.order]
      split
      · rfl
      · rw [ih, List.map_cons]
  induction ns with
  | nil => rfl
  | cons n ns ih => rw [List.map_cons, sortByOrder, ih, hinsert, sortByOrder]

/-- The execution order stays. -/
theorem plan_mapNodes : (g.mapNodes f).plan = g.plan := by
  have hcandidates : (g.mapNodes f).candidates = g.candidates.map f := sortByOrder_map hf g.nodes
  simp only [plan, hcandidates, waitingList_mapNodes hf]

end Graph

end NodeFlow
