import Mathlib.Data.List.Induction
import NodeFlow.Editor.Load
import NodeFlow.Proofs.Editor.Gathering
import NodeFlow.Proofs.Load.Names
import NodeFlow.Proofs.Outcome
import NodeFlow.Proofs.Table

/-!
# Clean names

Names of missing types are shown in markup, so they are cleaned of the characters that have a meaning
there.  A load cleans what it finds in a document, and so does a rebuild with the classes of a prompt.
Extensions may add entries of their own while a document is loaded; these are shown as they come.

Main results:

- Definition `MissingType.IsClean`: the name that is shown holds no markup.
- Definition `Extension.Offers`: the entries that an extension adds to the report on a document.
- Theorem `MissingType.names_clean_iff`: the names that the dialog shows are clean if those of the
  report are.
- Theorem `Document.mem_normalize`: what is found in a document is shown under its clean name.
- Theorem `Editor.reported_names`: the names that loads and rebuilds report.
-/

namespace NodeFlow

/-! ## Names in the dialog -/

/-- The name is free of the characters that have a meaning in markup. -/
def IsMarkupFree (name : String) : Prop := ∀ c ∈ name.toList, c ∉ markupChars

instance (name : String) : Decidable (IsMarkupFree name) :=
  List.decidableBAll (· ∉ markupChars) name.toList

namespace MissingType

/-- The name that is shown is free of markup. -/
def IsClean (m : MissingType) : Prop := IsMarkupFree m.shown

instance (m : MissingType) : Decidable m.IsClean := inferInstanceAs (Decidable (IsMarkupFree _))

private theorem isClean_sanitize (type name : String) (hint : Json) :
    IsClean ⟨type, sanitize name, hint⟩ := sanitize_clean name

private theorem lines_concat (ms : List MissingType) (m : MissingType) :
    lines (ms ++ [m]) =
      if (lines ms).has m.shown then lines ms else (lines ms).set m.shown m.line := by
  rw [lines, List.foldl_append]
  rfl

/-- The names in the dialog are those that are shown. -/
theorem mem_names_lines {ms : List MissingType} {name : String} :
    name ∈ (lines ms).names ↔ name ∈ ms.map (·.shown) := by
  induction ms using List.reverseRecOn with
  | nil => simp [lines, Table.names]
  | append_singleton ms m ih =>
    have hstep : name ∈ (lines (ms ++ [m])).names ↔ name = m.shown ∨ name ∈ (lines ms).names := by
      rw [lines_concat]
      split
      · rename_i hseen
        have hmem := Table.has_iff.1 hseen
        refine ⟨.inr, ?_⟩
        rintro (rfl | hold)
        · exact hmem
        · exact hold
      · exact Table.mem_names_set
    rw [hstep, ih]
    simp [or_comm]

/-- Each line is the line of a missing type under the name that it is shown under. -/
theorem exists_of_mem_lines {ms : List MissingType} {line : String × String}
    (h : line ∈ lines ms) : ∃ m ∈ ms, line = (m.shown, m.line) := by
  induction ms using List.reverseRecOn with
  | nil => cases h
  | append_singleton ms m ih =>
    have hstep : line = (m.shown, m.line) ∨ line ∈ lines ms := by
      rw [lines_concat] at h
      split at h
      · exact .inr h
      · exact Table.mem_of_mem_set h
    rcases hstep with hnew | hold
    · exact ⟨m, by simp, hnew⟩
    · rcases ih hold with ⟨m', hm', hline⟩
      exact ⟨m', List.mem_append_left _ hm', hline⟩

/-- The dialog shows clean names exactly if the report does. -/
theorem names_clean_iff {ms : List MissingType} :
    (∀ line ∈ lines ms, IsMarkupFree line.1) ↔ ∀ m ∈ ms, m.IsClean := by
  constructor
  · intro h m hm
    have hname : m.shown ∈ (lines ms).names := mem_names_lines.2 (List.mem_map_of_mem hm)
    rcases List.mem_map.1 hname with ⟨line, hline, hshown⟩
    rw [IsClean, ← hshown]
    exact h line hline
  · intro h line hline
    rcases exists_of_mem_lines hline with ⟨m, hm, rfl⟩
    exact h m hm

end MissingType

/-! ## Documents -/

namespace Document

mutual
/-- What is found in a document is shown under its clean name. -/
theorem mem_normalize (knows : String → Bool) (d : Document) :
    ∀ entry ∈ (d.normalize knows).2, ∃ type, knows type = false ∧
      entry = .known ⟨type, sanitize type, .null⟩ := by
  cases d with
  | mk lastNodeId lastLinkId nodes links groups config extraData version extra =>
    rw [normalize]
    exact mem_normalizeNodes knows nodes

/-- What is reported of the nodes of a document is a type that is not known, with its cleaned name.
-/
theorem mem_normalizeNodes (knows : String → Bool) (ns : List (SavedNode Document)) :
    ∀ entry ∈ (normalizeNodes knows ns).2, ∃ type, knows type = false ∧
      entry = .known ⟨type, sanitize type, .null⟩ := by
  cases ns with
  | nil => simp [normalizeNodes]
  | cons n ns =>
    have hrest := mem_normalizeNodes knows ns
    cases n with
    | mk n subgraph =>
      cases subgraph with
      | some d =>
        have hinside := mem_normalize knows d
        intro entry hentry
        simp only [normalizeNodes, List.mem_append] at hentry
        exact hentry.elim (hinside entry) (hrest entry)
      | none =>
        intro entry hentry
        simp only [normalizeNodes] at hentry
        split at hentry
        · exact hrest entry hentry
        · rename_i hunknown
          rcases List.mem_cons.1 hentry with rfl | hentry
          · exact ⟨_, by simpa using hunknown, rfl⟩
          · exact hrest entry hentry
end

end Document

/-! ## Prompts -/

namespace Rebuild

variable {r : Registry}

/-- A class that is not known is reported under its clean name, and without a hint. -/
theorem exists_of_missingClass? {step : Json} {m : MissingType}
    (h : missingClass? r step = .ok (some m)) : ∃ type, m = ⟨type, sanitize type, .null⟩ := by
  rcases Fault.bind_eq_ok_iff.1 h with ⟨type, -, h⟩
  cases type with
  | str type =>
    simp only [pure, Except.pure, Except.ok.injEq] at h
    split at h
    · cases h
    · cases h
      exact ⟨_, rfl⟩
  | arr | obj => cases h
  | _ =>
    cases h
    exact ⟨_, rfl⟩

/-- What a prompt lacks is reported by its class, with its cleaned name. -/
theorem exists_of_mem_missingClasses {steps : List Json} {missing : List MissingType}
    (h : missingClasses r steps = .ok missing) :
    ∀ m ∈ missing, ∃ type, m = ⟨type, sanitize type, .null⟩ := by
  induction steps generalizing missing with
  | nil =>
    cases h
    simp
  | cons step steps ih =>
    rcases Fault.bind_eq_ok_iff.1 h with ⟨found, hfound, h⟩
    rcases Fault.bind_eq_ok_iff.1 h with ⟨rest, hrest, h⟩
    cases h
    intro m hm
    rcases List.mem_append.1 hm with hm | hm
    · rw [Option.mem_toList] at hm
      subst hm
      exact exists_of_missingClass? hfound
    · exact ih hrest m hm

end Rebuild

private theorem Registry.clean_rebuild {r : Registry} {prompt : Json} {built : Option Workflow}
    {missing : List MissingType} (h : r.rebuild prompt = .ok (built, missing)) :
    ∀ m ∈ missing, m.IsClean := by
  cases prompt with
  | obj steps =>
    rcases Fault.bind_eq_ok_iff.1 h with ⟨classes, hclasses, h⟩
    cases classes with
    | cons m ms =>
      cases h
      intro m' hm'
      rcases Rebuild.exists_of_mem_missingClasses hclasses m' hm' with ⟨type, rfl⟩
      exact MissingType.isClean_sanitize _ _ _
    | nil =>
      dsimp only at h
      split at h
      · cases h
        simp
      · cases h
  | _ => cases h

/-! ## Extensions -/

/-- The entries of a report among the subjects. -/
def Subject.entries : Subject → List MissingEntry
  | .missing entries => entries
  | _ => []

namespace Deed

/-- The entry that a deed adds to a report. -/
def entry? : Deed → Option MissingEntry
  | report v => some (.reported v)
  | reportType m => some (.known m)
  | _ => none

private theorem entries_onFirst {change : Subject → Option Subject}
    (hchange : ∀ s s', change s = some s' → s'.entries = s.entries) {ss ss' : List Subject}
    (h : onFirst change ss = some ss') : ss'.flatMap Subject.entries = ss.flatMap Subject.entries := by
  cases ss with
  | nil => cases h
  | cons s ss =>
    rcases Option.map_eq_some_iff.1 h with ⟨s', hs', rfl⟩
    rw [List.flatMap_cons, List.flatMap_cons, hchange s s' hs']

private theorem entries_addReport {entry : MissingEntry} {ss ss' : List Subject}
    (h : addReport entry ss = some ss') :
    ∀ e ∈ ss'.flatMap Subject.entries, e ∈ ss.flatMap Subject.entries ∨ e = entry := by
  unfold addReport at h
  split at h
  · cases h
    intro e he
    simp only [List.flatMap_cons, Subject.entries, List.mem_append, List.mem_singleton] at he ⊢
    tauto
  · split at h
    · cases h
      intro e he
      exact .inl he
    · cases h
  · cases h

/-- A deed adds no other entry to a report than its own. -/
theorem entries_applied? {d : Deed} {ss ss' : List Subject} (h : d.applied? ss = some ss') :
    ∀ e ∈ ss'.flatMap Subject.entries, e ∈ ss.flatMap Subject.entries ∨ d.entry? = some e := by
  cases d with
  | report v =>
    intro e he
    rcases entries_addReport h e he with hold | rfl
    · exact .inl hold
    · exact .inr rfl
  | reportType m =>
    intro e he
    rcases entries_addReport h e he with hold | rfl
    · exact .inl hold
    · exact .inr rfl
  | retype i type =>
    intro e he
    refine .inl (entries_onFirst ?_ h ▸ he)
    intro s s' hs'
    cases s with
    | document d =>
      rcases Option.map_eq_some_iff.1 hs' with ⟨nodes, -, rfl⟩
      rfl
    | _ => cases hs'
  | setWidget i v =>
    intro e he
    refine .inl (entries_onFirst ?_ h ▸ he)
    intro s s' hs'
    cases s with
    | node id title ws =>
      rcases Option.map_eq_some_iff.1 hs' with ⟨ws', -, rfl⟩
      rfl
    | _ => cases hs'
  | define name raw =>
    intro e he
    refine .inl (entries_onFirst ?_ h ▸ he)
    intro s s' hs'
    cases s with
    | data v =>
      cases v with
      | obj ms =>
        cases hs'
        rfl
      | _ => cases hs'
    | _ => cases hs'
  | retitle | rename =>
    intro e he
    refine .inl (entries_onFirst ?_ h ▸ he)
    intro s s' hs'
    cases s <;> cases hs' <;> rfl

end Deed

/-- The extension adds the entry to the report while a document is offered to it. -/
def Extension.Offers (x : Extension) (entry : MissingEntry) : Prop :=
  ∃ h, x.hook? "before_configure_graph" = some h ∧ ∃ d ∈ h.deeds, d.entry? = some entry

namespace Editor

/-- What deeds preserve is preserved by a call of all extensions. -/
theorem broadcast_keeps {P : List Subject → Prop} {e e' : Editor} {hook : String}
    {subjects subjects' : List Subject} {answers : List Json}
    (hkeeps : ∀ x ∈ e.extensions, x.Keeps P hook) (hdrop : ∀ ss, P ss → P ss.dropLast)
    (hsubjects : P (subjects ++ [.editor]))
    (h : (broadcast hook subjects).exec e = (.ok (answers, subjects'), e')) : P subjects' := by
  rw [broadcast, Act.exec_bind, Act.exec_get] at h
  dsimp only at h
  split at h
  · cases h
    have hdropped := hdrop _ hsubjects
    rwa [List.dropLast_concat] at hdropped
  · simp only [Act.exec_bind, Act.exec_wait, Act.exec_get, Act.exec_set, Act.exec_pure] at h
    cases h
    exact hdrop _ (Extension.broadcast_keeps hkeeps hsubjects)

/-- The entries that come with an offered document are those that extensions offer. -/
theorem offers_of_offerDocument {e e' : Editor} {d d' : Document} {given : List MissingEntry}
    (h : (offerDocument d).exec e = (.ok (d', given), e')) :
    ∀ entry ∈ given, ∃ x ∈ e.extensions, x.Offers entry := by
  rcases Act.exec_bind_eq_ok_iff.1 h with ⟨⟨answers, subjects⟩, e₁, hcall, h⟩
  have hentries : ∀ entry ∈ subjects.flatMap Subject.entries,
      ∃ x ∈ e.extensions, x.Offers entry := by
    refine broadcast_keeps (P := fun ss => ∀ entry ∈ ss.flatMap Subject.entries,
      ∃ x ∈ e.extensions, x.Offers entry) ?_ ?_ ?_ hcall
    · intro x hx hk hhook deed hdeed ss ss' hss happlied entry hentry
      rcases Deed.entries_applied? happlied entry hentry with hold | hnew
      · exact hss entry hold
      · exact ⟨x, hx, hk, hhook, deed, hdeed, hnew⟩
    · intro ss hss entry hentry
      rcases List.mem_flatMap.1 hentry with ⟨s, hs, hmem⟩
      exact hss entry (List.mem_flatMap.2 ⟨s, (List.dropLast_sublist ss).subset hs, hmem⟩)
    · simp [Subject.entries]
  split at h
  · rename_i hanswer
    cases hanswer
    cases h
    intro entry hentry
    exact hentries entry (by simpa [Subject.entries] using hentry)
  · cases h
    simp

/-- The report of a load: what extensions offer, as it comes, and what is found in the document, under
clean names. -/
theorem missing_assemble {e e' : Editor} {source : LoadSource} {g : Workflow}
    {missing : List MissingType} (h : (assemble source).exec e = (.ok (g, missing), e')) :
    ∃ (given : List MissingEntry) (own : List MissingType),
      missing = given.map MissingType.ofEntry ++ own ∧
      (∀ entry ∈ given, ∃ x ∈ e.extensions, x.Offers entry) ∧ ∀ m ∈ own, m.IsClean := by
  rcases exists_assembled h with ⟨_, d₁, given, _, _, _, hoffered, -, -, rfl⟩
  refine ⟨given, _, List.map_append, offers_of_offerDocument hoffered, ?_⟩
  intro m hm
  rcases List.mem_map.1 hm with ⟨entry, hentry, rfl⟩
  rcases Document.mem_normalize _ d₁ entry hentry with ⟨type, -, rfl⟩
  exact MissingType.isClean_sanitize _ _ _

private theorem exists_assemble_of_load {e e' : Editor} {source : LoadSource} {isClean : Bool}
    {loaded : Loaded} (h : (load source isClean).exec e = (.ok (some loaded), e')) :
    ∃ e₀ g e₁, e₀.extensions = e.extensions ∧
      (assemble source).exec e₀ = (.ok (g, loaded.missing), e₁) := by
  -- what the last runs left has nothing to do with extensions
  obtain ⟨e₀, hextensions, h⟩ : ∃ e₀, e₀.extensions = e.extensions ∧
      (load source false).exec e₀ = (.ok (some loaded), e') := by
    cases isClean with
    | false => exact ⟨e, rfl, h⟩
    | true => exact ⟨(clean.exec e).2, rfl, h⟩
  rcases Act.exec_bind_eq_ok_iff.1 h with ⟨outcome, e₁, hattempt, h⟩
  rw [Act.exec_attempt] at hattempt
  cases outcome with
  | error f =>
    cases f with
    | configuration detail location place =>
      rcases Act.exec_bind_eq_ok_iff.1 h with ⟨_, _, -, h⟩
      rcases Act.exec_bind_eq_ok_iff.1 h with ⟨_, _, -, h⟩
      cases h
    | _ => cases h
  | ok assembled =>
    rcases Act.exec_bind_eq_ok_iff.1 h with ⟨_, _, -, h⟩
    rcases Act.exec_bind_eq_ok_iff.1 h with ⟨_, _, -, h⟩
    rcases Act.exec_bind_eq_ok_iff.1 h with ⟨_, _, -, h⟩
    rcases Act.exec_bind_eq_ok_iff.1 h with ⟨_, _, -, h⟩
    cases h
    rcases Prod.mk.inj hattempt with ⟨hresult, hstate⟩
    exact ⟨e₀, assembled.1, e₁, hextensions, Prod.ext (Except.ok.inj hresult) hstate⟩

private theorem clean_of_loadPrompt {e e' : Editor} {prompt : Json} {loaded : Loaded}
    (h : (loadPrompt prompt).exec e = (.ok loaded, e')) : ∀ m ∈ loaded.missing, m.IsClean := by
  rcases Act.exec_bind_eq_ok_iff.1 h with ⟨e₀, _, -, h⟩
  rcases Act.exec_bind_eq_ok_iff.1 h with ⟨⟨built, missing⟩, _, hrebuild, h⟩
  have hclean := Registry.clean_rebuild (Act.exec_lift_eq_ok_iff.1 hrebuild).1
  cases built with
  | some g =>
    rcases Act.exec_bind_eq_ok_iff.1 h with ⟨_, _, -, h⟩
    rcases Act.exec_bind_eq_ok_iff.1 h with ⟨_, _, -, h⟩
    cases h
    exact hclean
  | none =>
    rcases Act.exec_bind_eq_ok_iff.1 h with ⟨_, _, -, h⟩
    cases h
    exact hclean

/-- Rebuilds report clean names.  Loads do, too, but for the entries that extensions offer, which are
reported first and as they come; where these are clean, the whole report is, and so are the names that
the dialog shows. -/
theorem reported_names (e : Editor) :
    (∀ source isClean loaded e', (load source isClean).exec e = (.ok (some loaded), e') →
      ∃ (given : List MissingEntry) (own : List MissingType),
        loaded.missing = given.map MissingType.ofEntry ++ own ∧
        (∀ entry ∈ given, ∃ x ∈ e.extensions, x.Offers entry) ∧ (∀ m ∈ own, m.IsClean) ∧
        ((∀ m ∈ loaded.missing, m.IsClean) ↔
          ∀ entry ∈ given, (MissingType.ofEntry entry).IsClean)) ∧
      (∀ prompt loaded e', (loadPrompt prompt).exec e = (.ok loaded, e') →
        ∀ m ∈ loaded.missing, m.IsClean) ∧
      ∀ ms : List MissingType, (∀ line ∈ MissingType.lines ms, ∃ m ∈ ms, line = (m.shown, m.line)) ∧
        ((∀ line ∈ MissingType.lines ms, IsMarkupFree line.1) ↔ ∀ m ∈ ms, m.IsClean) := by
  refine ⟨?_, fun _ _ _ h => clean_of_loadPrompt h,
    fun ms => ⟨fun _ h => MissingType.exists_of_mem_lines h, MissingType.names_clean_iff⟩⟩
  intro source isClean loaded e' h
  rcases exists_assemble_of_load h with ⟨e₀, g, e₁, hextensions, hassemble⟩
  rcases missing_assemble hassemble with ⟨given, own, hmissing, hgiven, hown⟩
  rw [hextensions] at hgiven
  refine ⟨given, own, hmissing, hgiven, hown, ?_⟩
  rw [hmissing]
  constructor
  · intro hclean entry hentry
    exact hclean _ (List.mem_append_left _ (List.mem_map_of_mem hentry))
  · intro hclean m hm
    rcases List.mem_append.1 hm with hm | hm
    · rcases List.mem_map.1 hm with ⟨entry, hentry, rfl⟩
      exact hclean entry hentry
    · exact hown m hm

/-- The editor with an extension that reports a type of this name for every document. -/
def reporting (name : String) : Editor where
  extensions := [{ name := .str "watch", hooks := [("before_configure_graph",
    some { deeds := [.report (.str name), .reportType ⟨name, name, .null⟩] })] }]

/-- A document with a node of an unknown type. -/
def strange : LoadSource := .document { nodes := [{ id := .number 1, type := "<Strange>" }] }

/-- Beside what is found in the document, a clean name is reported. -/
theorem reporting_clean : ∃ loaded e', (load strange false).exec (reporting "Lost") =
    (.ok (some loaded), e') ∧ loaded.missing.length = 3 ∧ ∀ m ∈ loaded.missing, m.IsClean := by
  obtain ⟨loaded, e', hload, hlength⟩ : ∃ loaded e', (load strange false).exec (reporting "Lost") =
    (.ok (some loaded), e') ∧ loaded.missing.length = 3 := ⟨_, _, rfl, rfl⟩
  refine ⟨loaded, e', hload, hlength, ?_⟩
  rcases (reported_names (reporting "Lost")).1 _ _ _ _ hload with ⟨given, own, -, hgiven, -, hiff⟩
  refine hiff.2 fun entry hentry => ?_
  rcases hgiven entry hentry with ⟨x, hx, hk, hhook, d, hd, hadds⟩
  cases List.mem_singleton.1 hx
  cases hhook
  simp only [List.mem_cons, List.not_mem_nil, or_false] at hd
  rcases hd with rfl | rfl <;>
  · cases hadds
    decide

/-- The name that an extension reports is shown as it comes. -/
theorem reporting_markup : ∃ loaded e', (load (.document {}) false).exec (reporting "<b>") =
    (.ok (some loaded), e') ∧ MissingType.lines loaded.missing = [("<b>", "<b>")] ∧
      ∀ m ∈ loaded.missing, ¬ m.IsClean :=
  ⟨_, _, rfl, rfl, by decide⟩

end Editor

end NodeFlow
