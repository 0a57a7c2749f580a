import NodeFlow.Load.Rebuild
import NodeFlow.Proofs.Numeral
import NodeFlow.Proofs.Outcome

/-!
# Keys of steps

A prompt names its nodes by texts, and a text that looks like a number stands for a number.  An id is
canonical if reading its text gives it back.  Where all ids are canonical, a node has one spelling:
its id and its text find the same.

Main results:

- Definitions `NodeId.IsCanonical` and `Graph.Canonical`.
- Theorem `NodeId.IsCanonical.eq_of_key`: canonical ids of one text are equal.
- Theorems `Graph.Canonical.lookup?_key` and `Graph.Canonical.find?_eq`: lookups by text and by id.
-/

namespace NodeFlow

namespace NodeId

/-- The text of the id stands for the id. -/
def IsCanonical (id : NodeId) : Prop := keyId id.key = .ok id

/-- Ids that keep their spelling are told apart by their keys. -/
theorem IsCanonical.eq_of_key {id id' : NodeId} (h : id.IsCanonical) (h' : id'.IsCanonical)
    (hkey : id.key = id'.key) : id = id' := by
  rw [IsCanonical, hkey, h'] at h
  exact (Except.ok.inj h).symm

/-- An id that is read from its own key keeps its spelling. -/
theorem isCanonical_of_keyId {key : String} {id : NodeId} (h : keyId key = .ok id)
    (hkey : id.key = key) : id.IsCanonical := by rw [IsCanonical, hkey, h]

/-- A text stands for a name only if it has no other spelling. -/
theorem otherSpelling?_of_keyId_name {key s : String} (h : keyId key = .ok (.name s)) :
    Graph.otherSpelling? (.str key) = .ok none := by
  rcases Fault.bind_eq_ok_iff.1 h with ⟨other, hother, h⟩
  cases other with
  | none => exact hother
  | some id =>
    -- the other spelling of a text is a number
    simp only [Graph.otherSpelling?] at hother
    split at hother
    · rcases Fault.map_eq_ok_iff.1 hother with ⟨n, -, hid⟩
      cases hid
      cases h
    · cases hother

/-- A key that reads as a number is another spelling of the number. -/
theorem otherSpelling?_of_keyId_number {key : String} {n : Int} (h : keyId key = .ok (.number n)) :
    Graph.otherSpelling? (.str key) = .ok (some (.number n)) := by
  rcases Fault.bind_eq_ok_iff.1 h with ⟨other, hother, h⟩
  cases other with
  | none => cases h
  | some id =>
    cases h
    exact hother

/-- A number that a text stands for can be written. -/
theorem writableOnly_of_keyId {key : String} {id : NodeId} (h : keyId key = .ok id) :
    Fault.writableOnly id = .ok id := by
  cases id with
  | name s => rfl
  | number n =>
    have hother := otherSpelling?_of_keyId_number h
    simp only [Graph.otherSpelling?] at hother
    split at hother
    · rcases Fault.map_eq_ok_iff.1 hother with ⟨k, hread, hk⟩
      cases hk
      exact Fault.writableOnly_of_readWhole hread
    · cases hother

end NodeId

namespace Graph

variable {γ : Type} {g : Graph γ}

/-- The ids of all nodes are canonical. -/
def Canonical (g : Graph γ) : Prop := ∀ n ∈ g.nodes, n.id.IsCanonical

namespace Canonical

variable (h : g.Canonical)

include h

/-- No node is found under an id that is not canonical. -/
theorem at?_eq_none {id : NodeId} (hid : ¬ id.IsCanonical) : g.at? id = none := by
  cases hat : g.at? id with
  | none => rfl
  | some n => exact absurd (id_of_at? hat ▸ h n (mem_of_at? hat)) hid

private theorem at?_key_of_number {n : Int} (hn : (NodeId.number n).IsCanonical) :
    g.at? (.name (toString n)) = none := by
  refine h.at?_eq_none fun hname => ?_
  have hsame := hn.eq_of_key hname rfl
  cases hsame

/-- The text of a canonical id finds what the id finds. -/
theorem lookup?_key {id : NodeId} (hid : id.IsCanonical) :
    g.lookup? (.str id.key) = .ok (g.at? id) := by
  cases id with
  | name s =>
    cases hat : g.at? (.name s) with
    | some n => exact lookup?_of_at? hat
    | none =>
      have hother := NodeId.otherSpelling?_of_keyId_name hid
      simp only [NodeId.key_name] at hother ⊢
      simp only [lookup?, idOf?, Option.bind_some, hat, hother]
      rfl
  | number n =>
    have hother := NodeId.otherSpelling?_of_keyId_number hid
    simp only [NodeId.key] at hother ⊢
    simp only [lookup?, idOf?, Option.bind_some, h.at?_key_of_number hid, hother]
    rfl

/-- Where ids keep their spelling, an id finds no node but the one that carries it. -/
theorem find?_eq {id : NodeId} (hid : id.IsCanonical) : g.find? id = .ok (g.at? id) := by
  cases id with
  | name s => exact h.lookup?_key hid
  | number n =>
    cases hat : g.at? (.number n) with
    | some m => exact lookup?_of_at? hat
    | none =>
      simp only [find?, NodeId.toJson, lookup?, idOf?, Option.bind_some, hat, otherSpelling?]
      exact congrArg Except.ok (h.at?_key_of_number hid)

end Canonical

end Graph

end NodeFlow
