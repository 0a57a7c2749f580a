import Mathlib.Data.List.Dedup
import NodeFlow.Table

/-!
# Tables without repeated names

A table that is filled by writes names nothing twice.  It is then determined by what it holds under
each name, and its entries are exactly what it holds.

Main results:

- Theorems `Table.get?_eq_some_iff` and `Table.has_iff`: entries and what a table holds.
- Theorem `Table.nodup_set`: a write repeats no name.
- Theorem `Table.names_update_perm`: the names of a table that is filled by writes.
- Theorem `Table.get?_update`: of several writes under one name the last one counts.
- Theorem `Table.update_eq_append`: fresh names come at the end, in their order.
- Theorem `Table.get?_filter`: entries dropped by their values.
-/

namespace NodeFlow

namespace Table

variable {α : Type} {t u : Table α} {name : String} {v : α}

/-! ## Entries -/

/-- What is found in a table is an entry of it. -/
theorem mem_of_get? (h : t.get? name = some v) : (name, v) ∈ t := by
  induction t with
  | nil => cases h
  | cons e t ih =>
    rcases e with ⟨k, w⟩
    by_cases hk : k = name
    · subst hk
      simp only [get?, if_true, Option.some.injEq] at h
      rw [h]
      exact List.mem_cons_self
    · simp only [get?, hk, if_false] at h
      exact List.mem_cons_of_mem _ (ih h)

/-- The name of an entry is one of the names. -/
theorem mem_names_of_mem (h : (name, v) ∈ t) : name ∈ t.names := List.mem_map_of_mem h

/-- Where no two entries have one name, a table finds exactly its entries. -/
theorem get?_eq_some_iff (hnames : t.names.Nodup) : t.get? name = some v ↔ (name, v) ∈ t := by
  refine ⟨mem_of_get?, ?_⟩
  intro h
  induction t with
  | nil => cases h
  | cons e t ih =>
    rcases e with ⟨k, w⟩
    rcases List.nodup_cons.1 hnames with ⟨hk, hrest⟩
    rcases List.mem_cons.1 h with hhere | hthere
    · cases hhere
      simp [get?]
    · have hne : k ≠ name := by
        rintro rfl
        exact hk (mem_names_of_mem hthere)
      simpa [get?, hne] using ih hrest hthere

/-- The order of different names does not matter. -/
theorem get?_of_perm (hperm : List.Perm t u) (hnames : t.names.Nodup) (name : String) :
    t.get? name = u.get? name := by
  have hnames' : u.names.Nodup := (hperm.map _).nodup_iff.1 hnames
  refine Option.ext fun v => ?_
  rw [get?_eq_some_iff hnames, get?_eq_some_iff hnames', hperm.mem_iff]

/-- A table has exactly its names. -/
theorem has_iff : t.has name = true ↔ name ∈ t.names := by
  induction t with
  | nil => simp [has, names]
  | cons e t ih =>
    rcases e with ⟨k, w⟩
    by_cases hk : k = name
    · simp [has, get?, names, hk]
    · have hother : name ≠ k := Ne.symm hk
      simp only [has] at ih
      simp only [has, get?, hk, if_false, ih]
      simp [names, hother]

/-- Nothing is found under a name that no entry has. -/
theorem get?_eq_none (h : name ∉ t.names) : t.get? name = none := by
  rw [← Option.not_isSome_iff_eq_none]
  exact fun hsome => h (has_iff.1 hsome)

/-! ## Writes -/

/-- A write adds one entry and no other. -/
theorem mem_of_mem_set {e : String × α} (h : e ∈ t.set name v) : e = (name, v) ∨ e ∈ t := by
  induction t with
  | nil => simpa [set] using h
  | cons e' t ih =>
    rcases e' with ⟨k, w⟩
    by_cases hk : k = name
    · simp only [set, hk, if_true, List.mem_cons] at h
      exact h.imp_right (List.mem_cons_of_mem _)
    · simp only [set, hk, if_false, List.mem_cons] at h
      rcases h with rfl | h
      · exact .inr List.mem_cons_self
      · exact (ih h).imp_right (List.mem_cons_of_mem _)

/-- An update adds the entries of the second table only. -/
theorem mem_of_mem_update {e : String × α} (h : e ∈ t.update u) : e ∈ t ∨ e ∈ u := by
  induction u generalizing t with
  | nil => exact .inl h
  | cons e' u ih =>
    rcases ih (t := t.set e'.1 e'.2) h with hset | hrest
    · rcases mem_of_mem_set hset with rfl | hold
      · exact .inr List.mem_cons_self
      · exact .inl hold
    · exact .inr (List.mem_cons_of_mem _ hrest)

/-- Of two writes under one name the second one counts. -/
theorem set_set (t : Table α) (name : String) (v w : α) : (t.set name v).set name w = t.set name w := by
  induction t with
  | nil => simp [set]
  | cons e t ih =>
    rcases e with ⟨k, u⟩
    by_cases hk : k = name <;> simp [set, hk, ih]

/-- A write adds one name and takes none away. -/
theorem mem_names_set {other : String} :
    other ∈ (t.set name v).names ↔ other = name ∨ other ∈ t.names := by
  by_cases h : other = name
  · subst h
    simp [← has_iff, has]
  · simp [← has_iff, has, get?_set_of_ne h, h]

private theorem mem_names_update {other : String} :
    other ∈ (t.update u).names ↔ other ∈ t.names ∨ other ∈ u.names := by
  induction u generalizing t with
  | nil => simp [update, names]
  | cons e u ih =>
    have hstep : t.update (e :: u) = (t.set e.1 e.2).update u := rfl
    have hnames : names (e :: u) = e.1 :: names u := rfl
    rw [hstep, ih, mem_names_set, hnames, List.mem_cons]
    tauto

/-- A write leaves the names of a table distinct. -/
theorem nodup_set (hnames : t.names.Nodup) : (t.set name v).names.Nodup := by
  induction t with
  | nil => simp [set, names]
  | cons e t ih =>
    rcases e with ⟨k, w⟩
    rcases List.nodup_cons.1 hnames with ⟨hk, hrest⟩
    by_cases hkn : k = name
    · simpa [set, hkn, names] using hnames
    · simp only [set, hkn, if_false, names, List.map_cons]
      refine List.nodup_cons.2 ⟨?_, ih hrest⟩
      intro hmem
      rcases mem_names_set.1 hmem with hsame | hmem
      · exact hkn hsame
      · exact hk hmem

private theorem set_eq_append (h : name ∉ t.names) : t.set name v = t ++ [(name, v)] := by
  induction t with
  | nil => rfl
  | cons e t ih =>
    rcases e with ⟨k, w⟩
    obtain ⟨hk, hrest⟩ : ¬ name = k ∧ name ∉ names t := by simpa [names] using h
    simp [set, Ne.symm hk, ih hrest]

/-- An update leaves the names of a table distinct. -/
theorem nodup_update (hnames : t.names.Nodup) : (t.update u).names.Nodup := by
  induction u generalizing t with
  | nil => exact hnames
  | cons e u ih => exact ih (nodup_set hnames)

/-- Of several writes under one name the last one counts. -/
theorem get?_update (t u : Table α) (name : String) :
    (t.update u).get? name =
      (((u.filter (·.1 = name)).getLast?).map (·.2)).or (t.get? name) := by
  induction u generalizing t with
  | nil => simp [update]
  | cons e u ih =>
    have hstep : t.update (e :: u) = (t.set e.1 e.2).update u := rfl
    rw [hstep, ih]
    by_cases he : e.1 = name
    · subst he
      cases hlast : (u.filter (·.1 = e.1)).getLast? <;> simp [hlast, List.getLast?_cons]
    · simp [he, get?_set_of_ne (Ne.symm he)]

/-- Where no name is in both tables, an update puts the second table behind the first one. -/
theorem update_eq_append (hnames : (t ++ u).names.Nodup) : t.update u = t ++ u := by
  induction u generalizing t with
  | nil => simp [update]
  | cons e u ih =>
    have hfresh : e.1 ∉ t.names := by
      intro hmem
      simp only [names, List.map_append, List.map_cons, List.nodup_append] at hnames
      exact hnames.2.2 _ hmem _ List.mem_cons_self rfl
    have hstep : t.update (e :: u) = (t.set e.1 e.2).update u := rfl
    rw [hstep, set_eq_append hfresh, ih (by simpa [names] using hnames)]
    simp

/-- An update of the empty table is the other table. -/
theorem update_nil (hnames : u.names.Nodup) : Table.update [] u = u :=
  update_eq_append (t := []) hnames

/-- A table that is filled by writes has the names that were written, each once. -/
theorem names_update_perm (u : Table α) : (Table.update [] u).names.Perm u.names.dedup := by
  have hnodup : (Table.update [] u).names.Nodup := nodup_update .nil
  refine (List.perm_ext_iff_of_nodup hnodup (List.nodup_dedup _)).2 fun name => ?_
  rw [mem_names_update, List.mem_dedup]
  simp [names]

/-! ## Entries dropped by their values -/

/-- The names of some of the entries are distinct if all are. -/
theorem nodup_filter (p : String × α → Bool) (hnames : t.names.Nodup) :
    (names (t.filter p)).Nodup := by
  have hsub : ((t.filter p).map (·.1)).Sublist (t.map (·.1)) := List.filter_sublist.map _
  exact hsub.nodup hnames

/-- Where names are distinct, what is found among the entries of certain values is what is found
among all, if it has such a value. -/
theorem get?_filter (p : α → Bool) (hnames : t.names.Nodup) :
    get? (t.filter fun e => p e.2) name = (t.get? name).filter p := by
  refine Option.ext fun w => ?_
  rw [get?_eq_some_iff (nodup_filter _ hnames), List.mem_filter, Option.filter_eq_some_iff,
    get?_eq_some_iff hnames]

end Table

end NodeFlow
