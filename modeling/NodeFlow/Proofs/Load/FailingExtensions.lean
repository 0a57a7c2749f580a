import NodeFlow.Editor.Load
import NodeFlow.Proofs.Editor.Gathering
import NodeFlow.Proofs.Mirror

/-!
# Loads with failing extensions

A load calls extensions three times: with the document, with each node, and with the missing types.
What they do to these is part of the outcome, and so is what they do to anything else that the load
reads; their answers are not.  So an extension whose hooks fail before they have changed anything
leaves no mark on the outcome, whatever the other extensions do and however they take turns.

Loads of the editor are of this kind.  Their hooks do deeds, and the calls of hooks show in the
trace; the trace is all that such an extension is seen in.

Main results:

- Types `Listener` and `Offers`; definition `Offers.assemble`: loads with hooks of any kind.
- Theorem `Offers.Agree.assemble`: loads whose calls of extensions come to the same.
- Theorem `Listener.agree_filter`: calls without extensions that fail at once.
- Theorem `Editor.exec_assemble_eq_offers`: loads of the editor as loads of this kind.
- Theorem `Editor.assemble_withoutFailing`: what failing extensions mean for loads and broadcasts.
-/

namespace NodeFlow

open Workflow

variable {σ τ β : Type}

/-! ## Loads with hooks of any kind -/

/-- The calls of extensions in a load: with the document and the entries of the report, with each
node of the graph, and with the missing types. -/
structure Offers (σ : Type) where
  document : Document → Act σ (Document × List MissingEntry)
  node : Place → Workflow × List MissingEntry → Act σ (Workflow × List MissingEntry)
  report : Workflow × List MissingType → Act σ (Workflow × List MissingType)

namespace Offers

/-- Replace outdated values and call extensions with nodes, one after the other. -/
def settle (offers : Offers σ) (reset : Bool) :
    List Place → Workflow × List MissingEntry → Act σ (Workflow × List MissingEntry)
  | [], x => pure x
  | place :: places, x => do
    let x ← offers.node place (patchAt reset x.1 place, x.2)
    offers.settle reset places x

/-- The graph of a source and its missing types, with the calls of extensions as they are given. -/
def assemble (offers : Offers σ) (registry : σ → Registry) (source : LoadSource) :
    Act σ (Workflow × List MissingType) := do
  let d ← Act.lift source.read
  let (d, reported) ← offers.document d
  let registry := registry (← get)
  let (d, unknown) := d.normalize registry.knows
  let g ← Act.lift (registry.assemble d)
  let (g, entries) ← offers.settle source.resets ((sites g).map (·.place)) (g, reported ++ unknown)
  offers.report (g, entries.map MissingType.ofEntry)

/-- From states that agree, the calls of extensions come to the same and leave states that agree. -/
structure Agree (R : σ → σ → Prop) (offers offers' : Offers σ) : Prop where
  document : ∀ d s t, R s t → (offers.document d).Matches R (offers'.document d) s t
  node : ∀ place x s t, R s t → (offers.node place x).Matches R (offers'.node place x) s t
  report : ∀ x s t, R s t → (offers.report x).Matches R (offers'.report x) s t

variable {R : σ → σ → Prop} {offers offers' : Offers σ}

private theorem Agree.settle (h : offers.Agree R offers') (reset : Bool) (places : List Place)
    (x : Workflow × List MissingEntry) {s t : σ} (hst : R s t) :
    (offers.settle reset places x).Matches R (offers'.settle reset places x) s t := by
  induction places generalizing x s t with
  | nil => exact .pure x hst
  | cons place places ih => exact (h.node _ _ s t hst).bind fun y u v huv => ih y huv

/-- Loads whose calls of extensions come to the same come to the same. -/
theorem Agree.assemble (h : offers.Agree R offers') {registry : σ → Registry}
    (hregistry : ∀ s t, R s t → registry s = registry t) (source : LoadSource) {s t : σ}
    (hst : R s t) :
    (offers.assemble registry source).Matches R (offers'.assemble registry source) s t := by
  refine (Act.Matches.lift source.read hst).bind fun d s t hst => ?_
  refine (h.document d s t hst).bind fun ⟨d, reported⟩ s t hst => ?_
  refine Act.Matches.bind_get ?_
  rw [hregistry s t hst]
  refine (Act.Matches.lift _ hst).bind fun g s t hst => ?_
  refine (h.settle _ _ _ hst).bind fun ⟨g, entries⟩ s t hst => ?_
  exact h.report _ s t hst

end Offers

/-- Call hooks on a value that they may change. -/
def callOn (call : β × σ → List Json × β × σ) (x : β) : Act σ β :=
  Act.ofExec fun s => (.ok (call (x, s)).2.1, (call (x, s)).2.2)

/-- An extension with hooks of any kind.  They act on what they are given, and on all else. -/
structure Listener (σ : Type) where
  name : Json
  document : Option (Handler ((Document × List MissingEntry) × σ)) := none
  node : Option (Place → Handler ((Workflow × List MissingEntry) × σ)) := none
  report : Option (Handler ((Workflow × List MissingType) × σ)) := none

namespace Listener

/-- The extension as far as documents are concerned. -/
def onDocument (x : Listener σ) : Callee ((Document × List MissingEntry) × σ) :=
  ⟨x.name, x.document⟩

/-- The extension as far as the node at a place is concerned. -/
def onNode (place : Place) (x : Listener σ) : Callee ((Workflow × List MissingEntry) × σ) :=
  ⟨x.name, x.node.map fun hook => hook place⟩

/-- The extension as far as reports are concerned. -/
def onReport (x : Listener σ) : Callee ((Workflow × List MissingType) × σ) := ⟨x.name, x.report⟩

/-- The calls of these extensions in a load.  Those with documents and reports are waited for: the
plans say how the extensions take turns then. -/
def offers (xs : List (Listener σ)) (plan plan' : List (Json → Bool)) : Offers σ where
  document d := callOn (gatherAll (xs.map onDocument) plan) (d, [])
  node place := callOn (tellEach (xs.map (onNode place)))
  report := callOn (gatherAll (xs.map onReport) plan')

/-- All hooks of the extension fail without having changed anything, whatever others do while they
wait. -/
structure IsVain (x : Listener σ) : Prop where
  document : ∀ h, x.document = some h → h.IsVain id
  node : ∀ hook, x.node = some hook → ∀ place, (hook place).IsVain id
  report : ∀ h, x.report = some h → h.IsVain id

variable {xs : List (Listener σ)} {kept : Listener σ → Bool}

/-- Calls of hooks that come to the same. -/
theorem matches_callOn {call call' : β × σ → List Json × β × σ} (h : ∀ s, (call s).2 = (call' s).2)
    (x : β) (s t : σ) (hst : s = t) : (callOn call x).Matches Eq (callOn call' x) s t := by
  subst hst
  simp [Act.Matches, callOn, h]

/-- In view of the whole state, extensions that fail at once might as well not be there. -/
theorem thinRoll {callee : Listener σ → Callee τ}
    (hvain : ∀ x ∈ xs, kept x = false → (callee x).IsVain id) :
    ThinRoll id (xs.map callee) ((xs.filter kept).map callee) :=
  thinRoll_map (fun _ _ h _ => h.follows_id) hvain

/-- The calls are the same without extensions that fail at once. -/
theorem agree_filter (hvain : ∀ x ∈ xs, kept x = false → x.IsVain)
    (plan plan' : List (Json → Bool)) :
    (offers xs plan plan').Agree Eq (offers (xs.filter kept) plan plan') where
  document d := by
    have hroll : ThinRoll id (xs.map onDocument) ((xs.filter kept).map onDocument) :=
      thinRoll fun x hx hdropped => (hvain x hx hdropped).document
    have hcall : ∀ s, (gatherAll (xs.map onDocument) plan s).2 =
      (gatherAll ((xs.filter kept).map onDocument) plan s).2 := fun s => gatherAll_thin hroll rfl
    exact matches_callOn hcall (d, [])
  node place := by
    have hroll : ThinRoll id (xs.map (onNode place)) ((xs.filter kept).map (onNode place)) := by
      refine thinRoll fun x hx hdropped h hhook => ?_
      obtain ⟨hook, hnode, rfl⟩ := Option.map_eq_some_iff.1 hhook
      exact (hvain x hx hdropped).node hook hnode place
    exact matches_callOn fun _ => tellEach_thin hroll rfl
  report := by
    have hroll : ThinRoll id (xs.map onReport) ((xs.filter kept).map onReport) :=
      thinRoll fun x hx hdropped => (hvain x hx hdropped).report
    exact matches_callOn fun _ => gatherAll_thin hroll rfl

end Listener

/-! ## Hooks that do deeds -/

namespace Scene

/-- What hooks look at: all but the trace. -/
def seen (s : Scene) : List Subject × Outside := (s.subjects, { s.outside with trace := [] })

/-- The extensions whose hooks have been called, as the trace shows them. -/
def called (s : Scene) : List Json :=
  (s.outside.trace.filterMap fun
    | .extensionCalled x _ _ => some x
    | _ => none).reverse

/-- Deeds go by their subjects alone. -/
theorem perform_congr (ds : List Deed) {s t : Scene} (hst : s.subjects = t.subjects) :
    (s.perform ds).1 = (t.perform ds).1 ∧
      (s.perform ds).2.subjects = (t.perform ds).2.subjects := by
  induction ds generalizing s t with
  | nil => exact ⟨rfl, hst⟩
  | cons d ds ih =>
    rw [perform, perform, hst]
    split
    · exact ih rfl
    · exact ⟨rfl, hst⟩

end Scene

namespace ExtensionHook

variable {h : ExtensionHook} {owner : Json} {name : String} {s t : Scene}

/-- The hook fails without having changed its subjects, whatever they are. -/
def IsVain (h : ExtensionHook) : Prop := ∀ (owner : Json) (name : String) (s : Scene),
  (h.perform owner name s).1 = none ∧ (h.perform owner name s).2.subjects = s.subjects

/-- A hook that does no deeds and raises is one of these. -/
theorem isVain_of_raises (hdeeds : h.deeds = []) (hraises : h.raises.isSome = true) : h.IsVain := by
  intro owner name s
  have hperform : s.perform h.deeds = (true, s) := by
    rw [hdeeds]
    rfl
  rw [perform, hperform]
  refine ⟨if_pos hraises, ?_⟩
  dsimp only
  split <;> rfl

private theorem seen_perform (owner : Json) (name : String) (h : ExtensionHook) (s : Scene) :
    (h.perform owner name s).2.seen =
      ((s.perform h.deeds).2.subjects, { s.outside with trace := [] }) := by
  obtain ⟨hsubjects, houtside⟩ := h.perform_snd owner name s
  rw [Scene.seen, hsubjects]
  rcases houtside with houtside | houtside <;> rw [houtside]
  rfl

private theorem called_perform (owner : Json) (name : String) (h : ExtensionHook) (s : Scene) :
    (h.perform owner name s).2.called = s.called := by
  rw [Scene.called, Scene.called]
  rcases (h.perform_snd owner name s).2 with houtside | houtside <;> rw [houtside]
  rfl

/-- What a hook answers and leaves depends on what it sees. -/
theorem perform_congr (owner : Json) (name : String) (h : ExtensionHook)
    (hst : s.seen = t.seen) :
    (h.perform owner name s).1 = (h.perform owner name t).1 ∧
      (h.perform owner name s).2.seen = (h.perform owner name t).2.seen := by
  obtain ⟨hsubjects, houtside⟩ := Prod.mk.inj hst
  obtain ⟨hdone, hleft⟩ := Scene.perform_congr h.deeds hsubjects
  rw [seen_perform, seen_perform, hleft, houtside]
  refine ⟨?_, rfl⟩
  unfold perform
  rcases hs : s.perform h.deeds with ⟨done, s'⟩
  rcases ht : t.perform h.deeds with ⟨done', t'⟩
  rw [hs, ht] at hdone
  cases hdone
  cases done <;> rfl

private theorem alike_rest (waits : Nat) (hst : s.seen = t.seen) :
    (h.rest owner name waits s).Alike Scene.seen (h.rest owner name waits t) := by
  induction waits generalizing s t with
  | zero =>
    obtain ⟨hanswer, hseen⟩ := perform_congr owner name h hst
    exact ⟨congrArg h.outcome hanswer, hseen⟩
  | succ waits ih => exact ⟨hst, fun u v huv => ih huv⟩

private theorem follows_handler : (h.handler owner name).Follows Scene.seen := by
  intro s t hst
  exact alike_rest h.ticks (s := start owner name s) (t := start owner name t) hst

private theorem IsVain.seen_perform (hvain : h.IsVain) (owner : Json) (name : String) (s : Scene) :
    (h.perform owner name s).2.seen = s.seen := by
  rw [ExtensionHook.seen_perform, ← (h.perform_snd owner name s).1, (hvain owner name s).2]
  rfl

private theorem IsVain.handler (hvain : h.IsVain) : (h.handler owner name).IsVain Scene.seen where
  still := by
    refine .bind (.modify fun s => rfl) fun _ => .bind (.waitFor _) fun _ s => ?_
    exact hvain.seen_perform owner name s
  fails := by
    have hrest : ∀ waits s r, (h.rest owner name waits s).MayEnd r → ∃ f, r = .error f := by
      intro waits
      induction waits with
      | zero =>
        intro s r hr
        cases hr
        exact ⟨_, congrArg h.outcome (hvain owner name s).1⟩
      | succ waits ih =>
        intro s r hr
        cases hr with
        | waiting u hr => exact ih u r hr
    exact fun s r hr => hrest h.ticks (start owner name s) r hr

private theorem signs_handler : (h.handler owner name).Signs Scene.called owner := by
  refine ⟨start owner name, Act.waitFor h.ticks >>= fun _ => h.conclude owner name, fun s => rfl,
    fun s => ?_, ?_⟩
  · simp [Scene.called, start, Scene.record, Outside.record]
  · exact .bind (.waitFor _) fun _ s => h.called_perform owner name s

end ExtensionHook

namespace Extension

variable {es : List Extension} {kept : Extension → Bool} {name : String} {s t : Scene}

/-- All hooks of the extension fail without having changed their subjects. -/
def IsVain (x : Extension) : Prop := ∀ name h, x.hook? name = some h → h.IsVain

private theorem isVain_of_hooks {x : Extension}
    (h : ∀ entry ∈ x.hooks, ∀ hook, entry.2 = some hook →
    hook.deeds = [] ∧ hook.raises.isSome = true) : x.IsVain := by
  intro name hook hhook
  obtain ⟨hdeeds, hraises⟩ := h _ (mem_of_hook? hhook) hook rfl
  exact ExtensionHook.isVain_of_raises hdeeds hraises

/-- In view of all but the trace, extensions that fail at once might as well not be there. -/
theorem thinRoll (hvain : ∀ x ∈ es, kept x = false → x.IsVain) (name : String) :
    ThinRoll Scene.seen (es.map (callee name)) ((es.filter kept).map (callee name)) := by
  refine thinRoll_map ?_ ?_
  · intro x _ h hhook
    obtain ⟨k, -, rfl⟩ := Option.map_eq_some_iff.1 hhook
    exact ExtensionHook.follows_handler
  · intro x hx hdropped h hhook
    obtain ⟨k, hk, rfl⟩ := Option.map_eq_some_iff.1 hhook
    exact (hvain x hx hdropped name k hk).handler

private theorem seen_broadcast_filter (name : String) (hvain : ∀ x ∈ es, kept x = false → x.IsVain)
    (hst : s.seen = t.seen) :
    (broadcast name es s).2.seen = (broadcast name (es.filter kept) t).2.seen := by
  have hleft := Nat.le_max_left (longestWait (startAll name es s).1)
    (longestWait (startAll name (es.filter kept) t).1)
  have hright := Nat.le_max_right (longestWait (startAll name es s).1)
    (longestWait (startAll name (es.filter kept) t).1)
  rw [broadcast_eq_gatherAll name es s hleft, broadcast_eq_gatherAll name (es.filter kept) t hright]
  exact gatherAll_thin (thinRoll hvain name) hst

private theorem seen_announce_filter (name : String) (hvain : ∀ x ∈ es, kept x = false → x.IsVain)
    (hst : s.seen = t.seen) :
    (announce name es s).2.seen = (announce name (es.filter kept) t).2.seen := by
  rw [announce_eq_tellEach, announce_eq_tellEach]
  exact tellEach_thin (thinRoll hvain name) hst

end Extension

/-! ## Loads of the editor -/

namespace Editor

/-- The calls of extensions in a load of the editor. -/
def offers : Offers Editor where
  document := offerDocument
  node place x := do
    let g ← offerNode x.1 place
    pure (g, x.2)
  report x := do
    let _ ← broadcast "after_configure_graph" [.missing (x.2.map .known)]
    pure x

private theorem exec_settle_eq_offers (reset : Bool) (places : List Place) (g : Workflow)
    (entries : List MissingEntry) (e : Editor) : (offers.settle reset places (g, entries)).exec e =
      (settleNodes reset g places >>= fun g => pure (g, entries)).exec e := by
  induction places generalizing g e with
  | nil => rfl
  | cons place places ih =>
    rw [Offers.settle, settleNodes, Act.exec_bind, Act.exec_bind, Act.exec_bind]
    simp only [offers, Act.exec_bind]
    rcases (offerNode (patchAt reset g place) place).exec e with ⟨f | g', e'⟩
    · rfl
    · exact (ih g' e').trans (Act.exec_bind _ _ e')

/-- Going on with the settled nodes, and with the calls for them. -/
theorem exec_settle_bind {γ : Type} (reset : Bool) (places : List Place) (g : Workflow)
    (entries : List MissingEntry) (f : Workflow × List MissingEntry → EditorAct γ) (e : Editor) :
    (offers.settle reset places (g, entries) >>= f).exec e =
      (settleNodes reset g places >>= fun g => f (g, entries)).exec e := by
  rw [Act.exec_bind, exec_settle_eq_offers, Act.exec_bind, Act.exec_bind]
  rcases (settleNodes reset g places).exec e with ⟨_ | _, _⟩ <;> rfl

/-- A load of the editor is a load with its calls of extensions. -/
theorem exec_assemble_eq_offers (source : LoadSource) (e : Editor) :
    (assemble source).exec e = (offers.assemble (·.registry) source).exec e := by
  have hmatches : (assemble source).Matches Eq (offers.assemble (·.registry) source) e e := by
    refine (Act.Matches.lift source.read rfl).bind ?_
    rintro d e _ rfl
    have hdocument : (offerDocument d).Matches Eq (offers.document d) e e := ⟨rfl, rfl⟩
    refine hdocument.bind ?_
    rintro ⟨d, reported⟩ e _ rfl
    refine Act.Matches.bind_get ((Act.Matches.lift _ rfl).bind ?_)
    rintro g e _ rfl
    rw [Act.Matches, exec_settle_bind]
    exact ⟨rfl, rfl⟩
  exact Prod.ext hmatches.1 hmatches.2

/-- A broadcast of the editor is one of its extensions, whether there are any or not. -/
theorem run_broadcast (hook : String) (subjects : List Subject) (e : Editor) :
    (broadcast hook subjects).exec e =
      (.ok ((Extension.broadcast hook e.extensions ⟨subjects ++ [.editor], e.outside⟩).1,
          (Extension.broadcast hook e.extensions
            ⟨subjects ++ [.editor], e.outside⟩).2.subjects.dropLast),
        { e with outside := (Extension.broadcast hook e.extensions
            ⟨subjects ++ [.editor], e.outside⟩).2.outside }) := by
  rw [broadcast, Act.exec_bind, Act.exec_get]
  dsimp only
  split
  · rename_i hnone
    have hcall : Extension.broadcast hook e.extensions ⟨subjects ++ [.editor], e.outside⟩ =
        ([], ⟨subjects ++ [.editor], e.outside⟩) := by
      rw [List.isEmpty_iff.1 hnone]
      rfl
    rw [hcall, List.dropLast_concat]
    rfl
  · simp [Act.exec_bind]

/-- The second editor has the first one's extensions without some, and perhaps another trace. -/
def Without (es : List Extension) (kept : Extension → Bool) (e e' : Editor) : Prop :=
  e.extensions = es ∧ ∃ trace, e' =
    { e with extensions := es.filter kept, outside := { e.outside with trace := trace } }

variable {es : List Extension} {kept : Extension → Bool} {e e' : Editor}

/-- What hooks of both editors see is the same. -/
theorem Without.seen (h : Without es kept e e') (subjects : List Subject) :
    Scene.seen ⟨subjects, e.outside⟩ = Scene.seen ⟨subjects, e'.outside⟩ := by
  obtain ⟨-, trace, rfl⟩ := h
  rfl

/-- Calls after which hooks see the same leave editors of this kind. -/
theorem Without.outside (h : Without es kept e e') {s t : Scene} (hst : s.seen = t.seen) :
    Without es kept { e with outside := s.outside } { e' with outside := t.outside } := by
  obtain ⟨hes, trace, rfl⟩ := h
  refine ⟨hes, t.outside.trace, ?_⟩
  have houtside := congrArg
    (fun p : List Subject × Outside => { p.2 with trace := t.outside.trace }) hst
  exact congrArg (fun o => { e with extensions := es.filter kept, outside := o }) houtside.symm

/-- Going on from calls after which hooks see the same, whatever they have answered. -/
theorem Without.matches_bind {γ : Type} (h : Without es kept e e')
    {act : EditorAct (List Json × List Subject)} {answers answers' : List Json} {s t : Scene}
    (hst : s.seen = t.seen)
    (hexec : act.exec e = (.ok (answers, s.subjects.dropLast), { e with outside := s.outside }))
    (hexec' : act.exec e' = (.ok (answers', t.subjects.dropLast), { e' with outside := t.outside }))
    {f : List Json × List Subject → EditorAct γ}
    (hf : ∀ ss u v, Without es kept u v →
      (f (answers, ss)).Matches (Without es kept) (f (answers', ss)) u v) :
    (act >>= f).Matches (Without es kept) (act >>= f) e e' := by
  have hsubjects : s.subjects = t.subjects := congrArg Prod.fst hst
  rw [Act.Matches, Act.exec_bind, Act.exec_bind, hexec, hexec', hsubjects]
  exact hf _ _ _ (h.outside hst)

/-- Broadcasts, with extensions that fail at once and without. -/
theorem Without.matches_broadcast {γ : Type} (hvain : ∀ x ∈ es, kept x = false → x.IsVain)
    (h : Without es kept e e') (hook : String) (subjects : List Subject)
    {f : List Json × List Subject → EditorAct γ}
    (hf : ∀ answers answers' ss u v, Without es kept u v →
      (f (answers, ss)).Matches (Without es kept) (f (answers', ss)) u v) :
    (broadcast hook subjects >>= f).Matches (Without es kept) (broadcast hook subjects >>= f)
      e e' := by
  have hseen := Extension.seen_broadcast_filter hook hvain (h.seen (subjects ++ [.editor]))
  have hes : e'.extensions = es.filter kept := by
    obtain ⟨-, trace, rfl⟩ := h
    rfl
  rw [← hes, ← h.1] at hseen
  exact h.matches_bind hseen (run_broadcast hook subjects e) (run_broadcast hook subjects e')
    (hf _ _)

/-- Calls without waiting, with extensions that fail at once and without. -/
theorem Without.matches_announce {γ : Type} (hvain : ∀ x ∈ es, kept x = false → x.IsVain)
    (h : Without es kept e e') (hook : String) (subjects : List Subject)
    {f : List Json × List Subject → EditorAct γ}
    (hf : ∀ answers answers' ss u v, Without es kept u v →
      (f (answers, ss)).Matches (Without es kept) (f (answers', ss)) u v) :
    (announce hook subjects >>= f).Matches (Without es kept) (announce hook subjects >>= f)
      e e' := by
  have hseen := Extension.seen_announce_filter hook hvain (h.seen (subjects ++ [.editor]))
  have hes : e'.extensions = es.filter kept := by
    obtain ⟨-, trace, rfl⟩ := h
    rfl
  rw [← hes, ← h.1] at hseen
  exact h.matches_bind hseen rfl rfl (hf _ _)

/-- The calls of extensions in a load come to the same without extensions that fail at once. -/
theorem agree_without (hvain : ∀ x ∈ es, kept x = false → x.IsVain) :
    offers.Agree (Without es kept) offers where
  document d e e' h := by
    refine h.matches_broadcast hvain _ _ fun answers answers' ss u v huv => ?_
    rcases ss with _ | ⟨s₁, _ | ⟨s₂, _ | ⟨s₃, ss⟩⟩⟩
    · exact .pure _ huv
    · cases s₁ <;> exact .pure _ huv
    · cases s₁ <;> cases s₂ <;> exact .pure _ huv
    · cases s₁ <;> cases s₂ <;> exact .pure _ huv
  node place x e e' h := by
    have hnode : (offerNode x.1 place).Matches (Without es kept) (offerNode x.1 place) e e' := by
      unfold offerNode
      cases siteAt? x.1 place with
      | none => exact .pure _ h
      | some s =>
        refine h.matches_announce hvain _ _ fun answers answers' ss u v huv => ?_
        rcases ss with _ | ⟨s₁, _ | ⟨s₂, ss⟩⟩
        · exact .pure _ huv
        · cases s₁ <;> exact .pure _ huv
        · cases s₁ <;> exact .pure _ huv
    exact hnode.bind fun _ _ _ huv => .pure _ huv
  report x e e' h := h.matches_broadcast hvain _ _ fun _ _ _ u v huv => .pure _ huv

/-- Calls of hooks, and loads without some extensions.

However hooks of any kind take turns, there is one answer for each extension, in the order of
registration: null where there is no hook or it fails, and what the hook has come to else.  If hooks
sign a log when they start, those that there are have signed it, once each and in this order.

Without extensions all of whose hooks fail before they have changed anything, a load has the same
outcome and leaves the same state, whatever the hooks of the others are and however all take turns.

The editor loads and calls in these ways: its broadcasts take turns in rounds and show in the trace,
and without such extensions its loads have the same outcome and differ in the trace alone. -/
theorem assemble_withoutFailing (σ τ : Type) :
    (∀ (roll : List (Callee τ)) plan s,
      List.Forall₂ Callee.Answers roll (gatherAll roll plan s).1 ∧
        ∀ log, (∀ c ∈ roll, ∀ h, c.hook = some h → h.Signs log c.name) →
          log (gatherAll roll plan s).2 = log s ++ callees roll) ∧
    (∀ (xs : List (Listener σ)) kept, (∀ x ∈ xs, kept x = false → x.IsVain) →
      ∀ plan plan' registry source s,
        ((Listener.offers (xs.filter kept) plan plan').assemble registry source).exec s =
          ((Listener.offers xs plan plan').assemble registry source).exec s) ∧
    (∀ source e, (assemble source).exec e = (offers.assemble (·.registry) source).exec e) ∧
    (∀ name es s,
      (∃ rounds, Extension.broadcast name es s =
        gatherAll (es.map (Extension.callee name)) (List.replicate rounds fun _ => true) s) ∧
      Extension.announce name es s = tellEach (es.map (Extension.callee name)) s ∧
      (Extension.broadcast name es s).2.called =
        s.called ++ callees (es.map (Extension.callee name))) ∧
    (∀ e kept, (∀ x ∈ e.extensions, kept x = false → x.IsVain) → ∀ source,
      ((assemble source).exec { e with extensions := e.extensions.filter kept }).1 =
        ((assemble source).exec e).1 ∧
      Without e.extensions kept ((assemble source).exec e).2
        ((assemble source).exec { e with extensions := e.extensions.filter kept }).2) := by
  refine ⟨fun roll plan s => ⟨gatherAll_answers roll plan s, fun _ hroll => gatherAll_log hroll s⟩,
    ?_, exec_assemble_eq_offers, ?_, ?_⟩
  · intro xs kept hvain plan plan' registry source s
    have hregistry : ∀ s t, s = t → registry s = registry t := fun _ _ hst => congrArg registry hst
    obtain ⟨houtcome, hstate⟩ :=
      (Listener.agree_filter hvain plan plan').assemble hregistry source (rfl : s = s)
    exact (Prod.ext houtcome hstate).symm
  · intro name es s
    have hbroadcast := Extension.broadcast_eq_gatherAll name es s (Nat.le_refl _)
    refine ⟨⟨_, hbroadcast⟩, Extension.announce_eq_tellEach name es s, ?_⟩
    rw [hbroadcast]
    refine gatherAll_log ?_ s
    intro c hc h hhook
    obtain ⟨x, -, rfl⟩ := List.mem_map.1 hc
    obtain ⟨k, -, rfl⟩ := Option.map_eq_some_iff.1 hhook
    exact ExtensionHook.signs_handler
  · intro e kept hvain source
    have hwithout : Without e.extensions kept e { e with extensions := e.extensions.filter kept } :=
      ⟨rfl, e.outside.trace, rfl⟩
    have hregistry : ∀ u v, Without e.extensions kept u v → u.registry = v.registry := by
      rintro u _ ⟨-, trace, rfl⟩
      rfl
    obtain ⟨houtcome, hstate⟩ := (agree_without hvain).assemble hregistry source hwithout
    rw [← exec_assemble_eq_offers, ← exec_assemble_eq_offers] at houtcome hstate
    exact ⟨houtcome.symm, hstate⟩

/-- An extension that reports a type for every document, and gives nodes a title. -/
def helper : Extension where
  name := .str "helper"
  hooks := [("before_configure_graph",
      some { mayWait := true, ticks := 1, deeds := [.report (.str "Extra")] }),
    ("loaded_graph_node", some { deeds := [.retitle (some "Seen")] })]

/-- An extension that fails, before and after it has waited. -/
def broken : Extension where
  name := .str "broken"
  hooks := [("before_configure_graph", some { mayWait := true, ticks := 2, raises := some {} }),
    ("loaded_graph_node", some { raises := some {} })]

/-- The editor with both. -/
def troubled : Editor where
  extensions := [broken, helper]

/-- A document with a node of an unknown type. -/
def unfamiliar : LoadSource := .document { nodes := [{ id := .number 1, type := "Strange" }] }

/-- The load comes to what it comes to without the failing extension. -/
theorem troubled_assemble : broken.IsVain ∧
    ∃ g missing, ((assemble unfamiliar).exec troubled).1 = .ok (g, missing) ∧
      missing.map (·.type) = ["Extra", "Strange"] ∧ g.nodes.map (·.title) = [some "Seen"] ∧
      ((assemble unfamiliar).exec { troubled with extensions := [helper] }).1 =
        .ok (g, missing) := by
  have hbroken : broken.IsVain := by
    refine Extension.isVain_of_hooks ?_
    simp only [broken, List.mem_cons, List.not_mem_nil, or_false]
    rintro _ (rfl | rfl) _ ⟨⟩ <;> exact ⟨rfl, rfl⟩
  have hvain : ∀ x ∈ troubled.extensions, x.name.same helper.name = false → x.IsVain := by
    simp only [troubled, List.mem_cons, List.not_mem_nil, or_false]
    rintro _ (rfl | rfl) hdropped
    · exact hbroken
    · exact absurd hdropped (by decide)
  obtain ⟨-, -, -, -, hload⟩ := assemble_withoutFailing PUnit PUnit
  obtain ⟨houtcome, -⟩ := hload troubled (fun x => x.name.same helper.name) hvain unfamiliar
  refine ⟨hbroken, _, _, rfl, rfl, rfl, ?_⟩
  exact houtcome

end Editor

end NodeFlow
