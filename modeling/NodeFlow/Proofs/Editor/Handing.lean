import NodeFlow.Proofs.Editor.Sending

/-!
# Prompts in the hands of the backend

A backend whose replies leave the graph alone is handed prompts one after the other.  What it is handed
does not depend on what it answers, and whatever goes wrong on the way can be shown.

Main results:

- Definition `Fault.IsShowable`: failures that have a text.
- Definition `Backend.IsSound`: replies that leave the graph alone and can be shown.
- Definitions `Backend.handed` and `Backend.Continues`: what a backend is handed, and the backend after
  so many submissions.
- Theorem `Editor.submitTo_ensures`: a submission.
-/

namespace NodeFlow

/-! ## Failures that can be shown -/

namespace Fault

/-- There is a text for the failure. -/
def IsShowable (f : Fault) : Prop := ∃ text, f.shown = .ok text

/-- A computation that fails, if at all, in a way that can be shown. -/
def FailsOpenly {α : Type} (r : Except Fault α) : Prop := ∀ f, r = .error f → f.IsShowable

variable {α β : Type}

private theorem failsOpenly_ok (a : α) : FailsOpenly (.ok a) := by
  rintro _ ⟨⟩

private theorem IsShowable.failsOpenly {f : Fault} (h : f.IsShowable) :
    FailsOpenly (.error f : Except Fault α) := by
  rintro _ ⟨⟩
  exact h

/-- A refusal can be shown if the backend has said what is wrong in an object, or nothing. -/
theorem isShowable_rejected {detail : String} {response status : Json}
    (h : response.truthy = true → ∃ ms, response = .obj ms) :
    (rejected detail response status).IsShowable := by
  cases hsaid : response.truthy with
  | false => simp [IsShowable, shown, hsaid]
  | true =>
    rcases h hsaid with ⟨ms, rfl⟩
    simp [IsShowable, shown, hsaid]

private theorem failsOpenly_shallowOnly (depth : Nat) (v : Json) :
    FailsOpenly (shallowOnly depth v) := by
  intro f h
  unfold shallowOnly at h
  split at h <;> cases h
  exact ⟨_, rfl⟩

private theorem failsOpenly_portableOnly (v : Json) : FailsOpenly (portableOnly v) := by
  intro f h
  unfold portableOnly at h
  split at h <;> cases h
  exact ⟨_, rfl⟩

private theorem failsOpenly_ofIssues (subject : String) (c : Checked α) :
    FailsOpenly (ofIssues subject c) := by
  intro f h
  unfold ofIssues at h
  split at h <;> cases h
  exact ⟨_, rfl⟩

private theorem isShowable_ofFlaw (flaw : Json.Flaw) : (ofFlaw flaw).IsShowable := by
  cases flaw <;> exact ⟨_, rfl⟩

end Fault

open Fault

/-! ## Backends -/

/-- The answer says what is wrong with a prompt in an object, or says nothing. -/
def Verdict.IsReadable (v : Verdict) : Prop :=
  ∀ message response status, v = .reject message response status → response.truthy = true →
    ∃ ms, response = .obj ms

/-- The reply leaves the graph alone and can be shown. -/
structure BackendReply.IsSound (reply : BackendReply) : Prop where
  removes : reply.removes = none
  loads : reply.loads = none
  verdict : reply.verdict.IsReadable

namespace WireClient

/-- What a client sends, unless it cannot. -/
def requesting (c : WireClient) (method path : String) (body : Json) : Except Fault Trace.Entry := do
  let u ← c.url path
  let body ← portableOnly body
  if c.isClosed then
    .error (.raised ⟨.runtime, "Cannot send a request, as the client has been closed."⟩)
  else .ok (.request method u.render body)

/-- The request by which a client submits a prompt. -/
def posting (c : WireClient) (number : Int) (p : Prompt) : Except Fault Trace.Entry := do
  let body ← p.body c.clientId number
  c.requesting "POST" "/prompt" body

end WireClient

namespace Backend

/-- All replies leave the graph alone and can be shown. -/
def IsSound : Backend → Prop
  | replying r => ∀ reply, some reply ∈ r.replies → reply.IsSound
  | wire _ => True

/-- What is handed over when a prompt is submitted after so many others. -/
def handed (b : Backend) (earlier : Nat) (number : Int) (p : Prompt) : List Trace.Entry :=
  match b with
  | replying r => [.submitted (r.count + earlier + 1) number p.output]
  | wire c => (c.posting number p).toOption.toList

/-- A backend after so many submissions. -/
def Continues (b : Backend) (n : Nat) (b' : Backend) : Prop :=
  match b with
  | replying r => b' = replying { r with count := r.count + n }
  | wire c => ∃ replies, b' = wire { c with replies }

/-- A backend that is asked nothing stays as it is. -/
theorem Continues.refl (b : Backend) : b.Continues 0 b := by
  cases b with
  | replying r => rfl
  | wire c => exact ⟨c.replies, rfl⟩

end Backend

/-! ## Over the wire -/

namespace WireClient

private theorem receive_isStraight (u : Url) : (receive u).IsStraight := by
  refine .bind .get fun s => ?_
  extract_lets c
  split
  · exact .pure _
  · refine .bind (.modify _) fun _ => ?_
    split
    · exact .pure _
    · exact .lift _

private theorem request_isStraight (method path : String) (body : Json) :
    (request method path body).IsStraight := by
  refine .bind .get fun s => .bind (.lift _) fun u => .bind (.lift _) fun body => ?_
  split
  · exact .lift _
  · refine .bind (.modify _) fun _ => .bind (receive_isStraight u) fun _ => ?_
    split
    · exact .pure _
    · exact .lift _

/-- The client over the wire never waits for others. -/
theorem submit_isStraight (number : Int) (p : Prompt) : (submit number p).IsStraight := by
  refine .bind .get fun s => .bind (.lift _) fun body => .bind (request_isStraight _ _ _) fun a => ?_
  split
  · exact .lift _
  · split
    · exact .bind (.lift _) fun _ => .lift _
    · exact .lift _

/-- A run that leaves the outside as given and takes nothing but replies from the client.  Whatever is
wrong can be shown. -/
structure Served (c : WireClient) (o : Outside) {α : Type}
    (run : Except Fault α × WireClient × Outside) : Prop where
  outcome : FailsOpenly run.1
  state : ∃ replies, run.2 = ({ c with replies }, o)

variable {α β : Type} {c : WireClient} {o : Outside}

private theorem Served.bind {act : Act (WireClient × Outside) α}
    {f : α → Act (WireClient × Outside) β} {s : WireClient × Outside} (h : Served c o (act.exec s))
    (hf : ∀ a replies, Served c o ((f a).exec ({ c with replies }, o))) :
    Served c o ((act >>= f).exec s) := by
  rcases h with ⟨houtcome, replies, hstate⟩
  rw [Act.exec_bind]
  rcases hrun : act.exec s with ⟨r, t⟩
  rw [hrun] at houtcome hstate
  dsimp only at houtcome hstate
  subst hstate
  cases r with
  | ok a => exact hf a replies
  | error e => exact ⟨(houtcome e rfl).failsOpenly, replies, rfl⟩

private theorem served_lift {r : Except Fault α} (h : FailsOpenly r) (replies : List WireReply) :
    Served c o ((Act.lift r).exec ({ c with replies }, o)) := ⟨h, replies, rfl⟩

private theorem served_receive (u : Url) (replies : List WireReply) :
    Served c o ((receive u).exec ({ c with replies }, o)) := by
  rw [receive, Act.exec_bind, Act.exec_get]
  dsimp only
  split
  · exact ⟨failsOpenly_ok _, replies, rfl⟩
  · rw [Act.exec_bind, Act.exec_modify]
    dsimp only
    split
    · exact ⟨failsOpenly_ok _, _, rfl⟩
    · exact ⟨IsShowable.failsOpenly ⟨_, rfl⟩, _, rfl⟩

private theorem isShowable_refusal (status : Nat) (text : String) :
    (refusal status text).IsShowable := by
  unfold refusal
  split
  · exact isShowable_rejected fun _ => ⟨_, rfl⟩
  · exact isShowable_ofFlaw _
  · exact isShowable_rejected fun h => by cases h

private theorem failsOpenly_decode (text : String) : FailsOpenly (decode text) := by
  unfold decode
  split
  · exact failsOpenly_ok _
  · exact (isShowable_ofFlaw _).failsOpenly

private theorem failsOpenly_url (c : WireClient) (path : String) : FailsOpenly (c.url path) := by
  unfold url
  split
  · exact failsOpenly_ok _
  · exact IsShowable.failsOpenly ⟨_, rfl⟩

private theorem failsOpenly_body (p : Prompt) (clientId : String) (number : Int) :
    FailsOpenly (p.body clientId number) := by
  intro f h
  rcases Fault.bind_eq_error_iff.1 h with hwrite | ⟨_, -, hlast⟩
  · exact failsOpenly_shallowOnly _ _ f hwrite
  · cases hlast

private theorem served_request (c : WireClient) (o : Outside) (method path : String) (body : Json) :
    Served c ((c.requesting method path body).toOption.elim o o.record)
      ((request method path body).exec (c, o)) := by
  rw [request, Act.exec_bind, Act.exec_get]
  dsimp only
  rw [Act.exec_bind, Act.exec_lift, requesting]
  cases hurl : c.url path with
  | error f => exact ⟨(failsOpenly_url c path f hurl).failsOpenly, c.replies, rfl⟩
  | ok u =>
    dsimp only
    rw [Act.exec_bind, Act.exec_lift]
    cases hbody : portableOnly body with
    | error f => exact ⟨(failsOpenly_portableOnly body f hbody).failsOpenly, c.replies, rfl⟩
    | ok body =>
      cases hclosed : c.isClosed with
      | true => exact ⟨IsShowable.failsOpenly ⟨_, rfl⟩, c.replies, rfl⟩
      | false =>
        have hanswer : ∀ (o : Outside) (replies : List WireReply), Served c o
            ((receive u >>= fun answer => if Url.namesKind u.render then pure answer
              else throw (unknownKind u.render) : Act (WireClient × Outside) WireAnswer).exec
                ({ c with replies }, o)) := by
          refine fun o replies => .bind (served_receive u replies) fun answer replies => ?_
          split
          · exact ⟨failsOpenly_ok _, replies, rfl⟩
          · exact served_lift (IsShowable.failsOpenly ⟨_, rfl⟩) replies
        exact hanswer (o.record _) c.replies

/-- A submission sends its request, unless it has none to send. -/
theorem served_submit (c : WireClient) (o : Outside) (number : Int) (p : Prompt) :
    Served c ((c.posting number p).toOption.elim o o.record) ((submit number p).exec (c, o)) := by
  rw [submit, Act.exec_bind, Act.exec_get]
  dsimp only
  rw [Act.exec_bind, Act.exec_lift, posting]
  cases hbody : p.body c.clientId number with
  | error f => exact ⟨(failsOpenly_body p c.clientId number f hbody).failsOpenly, c.replies, rfl⟩
  | ok body =>
    refine Served.bind (served_request c o "POST" "/prompt" body) fun answer replies => ?_
    split
    · exact served_lift (failsOpenly_ofIssues _ _) replies
    · split
      · exact .bind (served_lift (failsOpenly_decode _) replies) fun v replies =>
          served_lift (failsOpenly_ofIssues _ _) replies
      · exact served_lift (isShowable_refusal _ _).failsOpenly replies

/-- What the client posts is a submission. -/
theorem isSubmission_of_posting {number : Int} {p : Prompt} {entry : Trace.Entry}
    (h : c.posting number p = .ok entry) : entry.isSubmission = true := by
  rcases Fault.bind_eq_ok_iff.1 h with ⟨body, -, hrequest⟩
  rcases Fault.bind_eq_ok_iff.1 hrequest with ⟨u, -, hrequest⟩
  rcases Fault.bind_eq_ok_iff.1 hrequest with ⟨body, -, hlast⟩
  split at hlast
  · cases hlast
  · cases hlast
    rfl

end WireClient

/-! ## Submissions -/

/-- A submission that is recorded comes last. -/
theorem Outside.submissions_record_of_isSubmission (o : Outside) {entry : Trace.Entry}
    (h : entry.isSubmission = true) : (o.record entry).submissions = o.submissions ++ [entry] := by
  simp [submissions, record, h]

/-- Handing something over leaves alone what hooks read. -/
theorem Outside.Echoes.handing {K : Nat → Prop} {sent : List Trace.Entry} {o t : Outside}
    (h : o.Echoes K sent t) {entry : Trace.Entry} (hentry : entry.isSubmission = true) :
    (o.record entry).Echoes K (sent ++ [entry]) t :=
  ⟨⟨h.own, h.shared, h.length, h.count, h.spent⟩, by
    rw [o.submissions_record_of_isSubmission hentry, h.submissions]⟩

private theorem Backend.IsSound.reply {r : ReplyList} (h : (replying r).IsSound) (i : Nat) :
    (((r.replies[i]?).bind id).getD {}).IsSound := by
  cases hreply : (r.replies[i]?).bind id with
  | none => exact ⟨rfl, rfl, fun _ _ _ h => by cases h⟩
  | some reply =>
    rcases Option.bind_eq_some_iff.1 hreply with ⟨_, hfound, rfl⟩
    exact h reply (List.mem_of_getElem? hfound)

namespace Editor

private theorem failsOpenly_answerOf (count : Nat) {v : Verdict} (h : v.IsReadable) :
    FailsOpenly (answerOf count v) := by
  cases v with
  | accept => exact failsOpenly_ok _
  | answer v => exact failsOpenly_ofIssues _ _
  | reject message response status =>
    exact (isShowable_rejected (h message response status rfl)).failsOpenly
  | raise r => exact IsShowable.failsOpenly ⟨_, rfl⟩

private theorem disturb_of_isSound {reply : BackendReply} (h : reply.IsSound) :
    disturb reply = pure ⟨⟩ := by
  rw [disturb, h.removes, h.loads]

/-- In the hands of a sound backend, a prompt changes nothing but what has been handed over. -/
theorem submitTo_ensures {K : Nat → Prop} {sent : List Trace.Entry} {e t : Editor} {b : Backend}
    (hsound : b.IsSound) {n : Nat} (hb : b.Continues n e.backend) (h : e.Echoes K sent t)
    (number : Int) (p : Prompt) :
    (submitTo number p e).Ensures still fun r u => FailsOpenly r ∧
      u.Echoes K (sent ++ b.handed n number p) t ∧ b.Continues (n + 1) u.backend ∧
      u.view.objects = e.view.objects := by
  cases b with
  | replying r =>
    have hb : e.backend = .replying { r with count := r.count + n } := hb
    let entry := Trace.Entry.submitted (r.count + n + 1) number p.output
    let e₁ : Editor := { e with
      backend := .replying { r with count := r.count + n + 1 }, outside := e.outside.record entry }
    have hechoes : e₁.Echoes K (sent ++ [entry]) t :=
      ⟨h.graph, h.settings, h.counts, h.outside.handing rfl⟩
    have hstart : submitTo number p e = ((Act.waitFor r.ticks >>= fun _ =>
        disturb (((r.replies[r.count + n]?).bind id).getD {}) >>= fun _ =>
          Act.lift (answerOf (r.count + n + 1) (((r.replies[r.count + n]?).bind id).getD {}).verdict) :
            EditorAct QueueResponse)) e₁ := by
      rw [submitTo, Act.bind_get_apply, hb]
      rfl
    rw [hstart]
    refine Act.ensures_bind (Act.ensures_waitFor _) ?_ ?_
    · rintro _ u ⟨-, hstill⟩
      have hreply := Backend.IsSound.reply hsound (r.count + n)
      rw [disturb_of_isSound hreply]
      exact ⟨failsOpenly_answerOf _ hreply.verdict, hechoes.of_sends hstill.sends, hstill.backend,
        hstill.objects⟩
    · rintro f u ⟨hf, -⟩
      cases hf
  | wire c =>
    rcases hb with ⟨replies, hb⟩
    rw [submitTo, Act.bind_get_apply, hb]
    refine Act.ensures_bind (Act.ensures_waitFor _) ?_ ?_
    · rintro _ u ⟨-, hstill⟩
      have hechoes : u.Echoes K sent t := h.of_sends hstill.sends
      rcases WireClient.served_submit { c with replies } u.outside number p with
        ⟨houtcome, replies', hstate⟩
      refine ((WireClient.submit_isStraight number p).focus _ _).ensures ?_
      rw [(WireClient.submit_isStraight number p).exec_focus, hstate]
      refine ⟨houtcome, ⟨hechoes.graph, hechoes.settings, hechoes.counts, ?_⟩, ⟨replies', rfl⟩,
        hstill.objects⟩
      have hposting : { c with replies }.posting number p = c.posting number p := rfl
      rw [hposting, Backend.handed]
      cases hsent : c.posting number p with
      | error f => simpa [Except.toOption] using hechoes.outside
      | ok entry => exact hechoes.outside.handing (WireClient.isSubmission_of_posting hsent)
    · rintro f u ⟨hf, -⟩
      cases hf

end Editor

end NodeFlow
