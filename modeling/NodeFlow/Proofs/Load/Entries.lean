import NodeFlow.Load.Normal
import NodeFlow.Proofs.Table

/-!
# Entries of documents

A document that is read has no free members that carry the name of a field, at any depth.  A
document whose type names are in use has known types and clean ones, and such a document stays as
it is when its names are replaced once more.

Main results:

- Definition `Document.Every`: what holds of the nodes of a document up to a depth.
- Theorem `Document.every_read`: the free members of nodes that are read.
- Theorems `Document.every_normalize` and `Document.normalize_self`: type names in use.
-/

namespace NodeFlow

/-- No free member has the name of a field. -/
def NodeRecord.IsFree (n : NodeRecord) : Prop :=
  ∀ name ∈ Table.names n.extra, name ∉ SavedNode.fields

/-- Something holds of the nodes of a document and of the documents inside it, up to a depth. -/
def Document.Every (P : SavedNode Document → Prop) : Nat → Document → Prop
  | 0, _ => True
  | depth + 1, d => ∀ n ∈ d.nodes, P n ∧ ∀ inner, n.subgraph = some inner → Every P depth inner

/-! ## Reading -/

namespace Check

variable {α : Type}

private theorem mem_items {item : Json → Checked α} {vs : List Json} {i : Nat} {x : α}
    (h : x ∈ (items item i vs).value) : ∃ v, x = (item v).value := by
  induction vs generalizing i with
  | nil => cases h
  | cons v vs ih =>
    rcases List.mem_cons.1 h with rfl | h
    · exact ⟨v, rfl⟩
    · exact ih h

private theorem mem_list {item : Json → Checked α} {v : Json} {x : α}
    (h : x ∈ (list item v).value) : ∃ v, x = (item v).value := by
  cases v with
  | arr vs => exact mem_items h
  | _ => cases h

private theorem value_optional {ms : Members} {name : String} {absent : α}
    {check : Json → Checked α} : (optional ms name absent check).value = absent ∨
      ∃ v, (optional ms name absent check).value = (check v).value := by
  unfold optional
  split
  · exact .inr ⟨_, rfl⟩
  · exact .inl rfl

private theorem value_maybe {ms : Members} {name : String} {check : Json → Checked α} :
    (maybe ms name check).value = none ∨
      ∃ v, (maybe ms name check).value = some (check v).value := by
  unfold maybe
  rcases value_optional with hnone | ⟨v, hv⟩
  · exact .inl hnone
  · rw [hv]
    cases v with
    | null => exact .inl rfl
    | _ => exact .inr ⟨_, rfl⟩

end Check

private theorem SavedNode.isFree_check {δ : Type} (subgraph : Json → Checked δ) (v : Json) :
    (SavedNode.check subgraph v).value.toNodeRecord.IsFree := by
  intro name hname
  cases v with
  | obj ms =>
    have hothers : name ∈ Table.names (Check.others SavedNode.fields ms) := hname
    rcases List.mem_map.1 hothers with ⟨m, hm, rfl⟩
    simpa using (List.mem_filter.1 hm).2
  | _ => cases hname

private theorem SavedNode.subgraph_check {δ : Type} {subgraph : Json → Checked δ} {v : Json} {d : δ}
    (h : (SavedNode.check subgraph v).value.subgraph = some d) : ∃ v, d = (subgraph v).value := by
  cases v with
  | obj ms =>
    have hmaybe : (Check.maybe ms "subgraph" subgraph).value = some d := h
    rcases Check.value_maybe with hnone | ⟨v, hv⟩
    · cases hnone.symm.trans hmaybe
    · exact ⟨v, Option.some.inj (hmaybe.symm.trans hv)⟩
  | _ => cases h

private theorem Document.mem_nodes_checkWithin {bound : Nat} {v : Json} {n : SavedNode Document}
    (h : n ∈ (Document.checkWithin bound v).value.nodes) :
    ∃ bound v, n = (SavedNode.check (Document.checkWithin bound) v).value := by
  cases bound with
  | zero => cases h
  | succ bound =>
    cases v with
    | obj ms =>
      have hmem : n ∈ (Check.optional ms "nodes" []
          (Check.list (SavedNode.check (Document.checkWithin bound)))).value := h
      have hfield : (Check.optional ms "nodes" []
            (Check.list (SavedNode.check (Document.checkWithin bound)))).value = [] ∨ ∃ v, _ :=
        Check.value_optional
      rcases hfield with hnone | ⟨v, hv⟩
      · rw [hnone] at hmem
        cases hmem
      · rw [hv] at hmem
        rcases Check.mem_list hmem with ⟨v, rfl⟩
        exact ⟨bound, v, rfl⟩
    | _ => cases h

/-- The nodes of a checked document have no free members with names of fields. -/
theorem Document.every_checkWithin (depth bound : Nat) (v : Json) :
    Document.Every (fun n => n.toNodeRecord.IsFree) depth (Document.checkWithin bound v).value := by
  induction depth generalizing bound v with
  | zero => trivial
  | succ depth ih =>
    intro n hn
    rcases Document.mem_nodes_checkWithin hn with ⟨bound', v', rfl⟩
    refine ⟨SavedNode.isFree_check _ v', ?_⟩
    intro inner hinner
    rcases SavedNode.subgraph_check hinner with ⟨v'', rfl⟩
    exact ih bound' v''

/-- No free member of an entry has the name of a field, where the document was read. -/
theorem Document.every_read {v : Json} {d : Document} (h : Document.read v = .ok d) (depth : Nat) :
    d.Every (fun n => n.toNodeRecord.IsFree) depth := by
  unfold Document.read at h
  split at h
  · rename_i d' hchecked
    cases h
    rw [← (Checked.toExcept_eq_ok.1 hchecked).2]
    exact Document.every_checkWithin depth _ v
  · cases h
  · cases h

/-! ## Type names in use -/

private theorem sanitize_sanitize (type : String) : sanitize (sanitize type) = sanitize type := by
  simp [sanitize, List.filter_filter]

/-- The type is known, or it is clean. -/
def NodeRecord.IsSettled (knows : String → Bool) (n : NodeRecord) : Prop :=
  knows n.type = true ∨ sanitize n.type = n.type

/-- The node with its type name in use, or with those inside it. -/
def SavedNode.normalize (knows : String → Bool) (n : SavedNode Document) : SavedNode Document :=
  match n.subgraph with
  | some d => { n with subgraph := some (d.normalize knows).1 }
  | none =>
    let type := currentType n.type
    { n with type := if knows type then type else sanitize type }

namespace Document

variable {knows : String → Bool}

private theorem normalizeNodes_eq (ns : List (SavedNode Document)) :
    (normalizeNodes knows ns).1 = ns.map (SavedNode.normalize knows) := by
  induction ns with
  | nil => rw [normalizeNodes, List.map_nil]
  | cons n ns ih =>
    rcases n with ⟨n, _ | d⟩
    · rw [normalizeNodes]
      dsimp only
      rw [List.map_cons, ← ih]
      split
      · rename_i hknows
        simp [SavedNode.normalize, hknows]
      · rename_i hknows
        simp [SavedNode.normalize, hknows]
    · rw [normalizeNodes, List.map_cons, ← ih]
      rfl

/-- Normalizing a document changes its entries one by one. -/
theorem normalize_eq (d : Document) :
    (d.normalize knows).1 = { d with nodes := d.nodes.map (SavedNode.normalize knows) } := by
  rcases d with ⟨lastNodeId, lastLinkId, nodes, links, groups, config, extraData, version, extra⟩
  rw [normalize, ← normalizeNodes_eq]

/-- Normalizing a document reports what normalizing its entries does. -/
theorem normalize_report (d : Document) :
    (d.normalize knows).2 = (normalizeNodes knows d.nodes).2 := by
  rcases d with ⟨lastNodeId, lastLinkId, nodes, links, groups, config, extraData, version, extra⟩
  rw [normalize]

/-- The document inside an entry is normalized with it. -/
theorem subgraph_normalize (n : SavedNode Document) :
    (n.normalize knows).subgraph = n.subgraph.map fun d => (d.normalize knows).1 := by
  rcases n with ⟨n, _ | d⟩ <;> rfl

/-- A document with names in use stays as it is. -/
theorem normalize_self {d : Document} (h : ∀ n ∈ d.nodes, n.normalize knows = n) :
    (d.normalize knows).1 = d := by
  rw [normalize_eq, List.map_congr_left h, List.map_id']
  cases d
  rfl

/-- What holds of nodes whatever their type, and known or clean types where a type is needed. -/
theorem every_normalize {P : SavedNode Document → Prop} {depth : Nat} {d : Document}
    (hP : ∀ n, P n → P (n.normalize knows)) (h : d.Every P depth) :
    (d.normalize knows).1.Every
      (fun n => P n ∧ (n.subgraph = none → n.toNodeRecord.IsSettled knows)) depth := by
  induction depth generalizing d with
  | zero => trivial
  | succ depth ih =>
    intro m hm
    rw [normalize_eq] at hm
    rcases List.mem_map.1 hm with ⟨n, hn, rfl⟩
    rcases h n hn with ⟨hPn, hinner⟩
    cases hsubgraph : n.subgraph with
    | some inner =>
      have hnormal : n.normalize knows = { n with subgraph := some (inner.normalize knows).1 } := by
        simp only [SavedNode.normalize, hsubgraph]
      refine ⟨⟨hP n hPn, ?_⟩, ?_⟩
      · rw [hnormal]
        exact nofun
      · rw [hnormal]
        rintro _ ⟨⟩
        exact ih (hinner inner hsubgraph)
    | none =>
      have hnone : (n.normalize knows).subgraph = none := by
        simp only [SavedNode.normalize, hsubgraph]
      refine ⟨⟨hP n hPn, fun _ => ?_⟩, ?_⟩
      · have htype : (n.normalize knows).type =
            if knows (currentType n.type) then currentType n.type
            else sanitize (currentType n.type) := by simp only [SavedNode.normalize, hsubgraph]
        unfold NodeRecord.IsSettled
        rw [htype]
        split
        · rename_i hknows
          exact .inl hknows
        · exact .inr (sanitize_sanitize _)
      · rw [hnone]
        exact nofun

end Document

end NodeFlow
