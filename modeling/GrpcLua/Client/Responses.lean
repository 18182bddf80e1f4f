import GrpcLua.Client.SyncWriter
import GrpcLua.Client.Writer.Closing

/-!
# Client — Responses

Four paths lead from a response batch to the user: `ServiceStub::SyncRequest`,
`ClientAsyncCallCqTag::DoComplete`, `ClientSyncWriter::Close` and `ClientAsyncWriterImpl::OnClosed`.
Each of them reads a flag, a status and a buffer, and `Outcome` is the three.  `Proper` says what
the user ought to get; the paths agree on it where the outcome is `Fit`.
-/

namespace GrpcLua
open Prog

/-- What came of a response batch. -/
structure Outcome where
  success : Bool
  tag : CodRecvMsg
  cod : CodClientRecvStatus
  deriving DecidableEq, Repr

namespace Outcome

/-- The response: the batch succeeded, the status is OK, and there is a message. -/
def response (o : Outcome) : Option Bytes :=
  if o.success && o.cod.isStatusOk then o.tag.recvBuf.bind byteBufferToString else none

/-- One result is reported: the response with an OK status, or an error. -/
def Proper (o : Outcome) (reports : Option (List Report)) : Prop :=
  ∃ st msg, reports = some [(st, msg)] ∧
    match o.response with
    | some bytes => st = .OK ∧ msg = bytes
    | none => st.ok = false

/-- An OK status came with a message, and from a batch that succeeded unless the message cannot
be read. -/
def Fit (o : Outcome) : Prop :=
  o.cod.isStatusOk = true →
    ∃ buf, o.tag.recvBuf = some buf ∧ (o.success = true ∨ byteBufferToString buf = none)

/-- What the paths make of the outcome, which do not look at the flag. -/
def Made (o : Outcome) (st : Status) (msg : Bytes) : Prop :=
  if o.cod.isStatusOk then
    match o.tag.recvBuf.bind byteBufferToString with
    | some bytes => st = .OK ∧ msg = bytes
    | none => st.ok = false
  else st.ok = false

/-- An OK status came without a message. -/
def Bare (o : Outcome) : Prop := o.cod.isStatusOk = true ∧ o.tag.recvBuf = none

variable {o : Outcome}

theorem Bare.not_fit (h : o.Bare) : ¬ o.Fit := by
  intro hf
  obtain ⟨buf, hbuf, -⟩ := hf h.1
  exact absurd (h.2.symm.trans hbuf) (by simp)

theorem not_proper_none : ¬ o.Proper none := by
  rintro ⟨st, msg, h, -⟩
  exact absurd h (by simp)

/-- Of an outcome that is not bare, what the paths make is proper exactly where it is fit. -/
theorem Made.proper_iff {st : Status} {msg : Bytes} (h : o.Made st msg) (hb : ¬ o.Bare) :
    o.Proper (some [(st, msg)]) ↔ o.Fit := by
  have hproper : o.Proper (some [(st, msg)]) ↔
      match o.response with
      | some bytes => st = .OK ∧ msg = bytes
      | none => st.ok = false := by
    constructor
    · rintro ⟨_, _, he, hp⟩
      cases he
      exact hp
    · exact fun hp => ⟨st, msg, rfl, hp⟩
  rw [hproper]
  unfold Made at h
  cases hok : o.cod.isStatusOk with
  | false =>
      rw [if_neg (by simp [hok])] at h
      simp [response, Fit, hok, h]
  | true =>
      rw [if_pos hok] at h
      cases hbuf : o.tag.recvBuf with
      | none => exact absurd ⟨hok, hbuf⟩ hb
      | some buf =>
          rw [hbuf, Option.bind_some] at h
          cases hread : byteBufferToString buf with
          | none =>
              rw [hread] at h
              simp [response, Fit, hok, hbuf, hread, h]
          | some bytes =>
              rw [hread] at h
              cases hs : o.success with
              | true => simp [response, Fit, hok, hbuf, hread, hs, h]
              | false => simp [response, Fit, hok, hbuf, hread, hs, h.1]

end Outcome

/-! ### Reports -/

/-- What `x`, started in `s`, adds to the reports `f` of the state, unless the process stops. -/
def reports {σ : Type} (f : σ → List Report) (x : EStateM Exit σ Unit) (s : σ) :
    Option (List Report) :=
  match Process.settle (x s) with
  | .running s' => some ((f s').drop (f s).length)
  | .stopped _ _ => none

theorem reports_of_wp {σ : Type} {f : σ → List Report} {x : EStateM Exit σ Unit} {s : σ}
    {P : Option (List Report) → Prop}
    (h : wp x (fun _ s' => P (some ((f s').drop (f s).length)))
      (Process.Leaves (fun s' => P (some ((f s').drop (f s).length))) fun _ _ => P none) s) :
    P (reports f x s) := by
  unfold wp at h
  unfold reports
  cases hx : x s with
  | ok _ s' => rw [hx] at h; exact h
  | error e s' =>
      rw [hx] at h
      cases e <;> exact h

/-- A path that aborts on a bare outcome, and else reports once what it makes of the outcome. -/
theorem reports_iff {σ : Type} {f : σ → List Report} {x : EStateM Exit σ Unit} {s : σ}
    {o : Outcome}
    (hbare : o.Bare → wp x (fun _ _ => False) (fun e _ => e = .assertion) s)
    (hmade : ¬ o.Bare → ∃ P : σ → Prop,
      wp x (fun _ => P) (Process.Leaves P fun _ _ => False) s ∧
        ∀ s', P s' → ∃ st msg, f s' = f s ++ [(st, msg)] ∧ o.Made st msg) :
    o.Proper (reports f x s) ↔ o.Fit := by
  by_cases hb : o.Bare
  · have hnone : reports f x s = none := by
      refine reports_of_wp (P := (· = none)) (wp_mono (hbare hb) (fun _ _ hf => hf.elim) ?_)
      rintro _ _ rfl
      rfl
    rw [hnone]
    exact ⟨fun hp => absurd hp Outcome.not_proper_none, fun hf => absurd hf hb.not_fit⟩
  · obtain ⟨P, hx, hP⟩ := hmade hb
    refine reports_of_wp (P := fun r => o.Proper r ↔ o.Fit) (wp_mono hx ?_ ?_)
    · intro _ s' hs'
      obtain ⟨st, msg, hf, hm⟩ := hP s' hs'
      rw [hf, List.drop_left]
      exact hm.proper_iff hb
    · intro e s' hs'
      cases e with
      | exception =>
          obtain ⟨st, msg, hf, hm⟩ := hP s' hs'
          show o.Proper (some ((f s').drop (f s).length)) ↔ o.Fit
          rw [hf, List.drop_left]
          exact hm.proper_iff hb
      | assertion => exact hs'.elim
      | undefined => exact hs'.elim

/-- What the synchronous paths have returned. -/
def returned (tr : List (Event Report)) : List Report :=
  tr.filterMap fun | .called r => some r | _ => none

theorem AsyncCall.told_append (tr tr' : List (Event AsyncCall.Cb)) :
    AsyncCall.told (tr ++ tr') = AsyncCall.told tr ++ AsyncCall.told tr' := List.filterMap_append

/-! ### The four paths -/

section paths
variable {o : Outcome}

/-- `GetResultMsg(result)` of an OK status. -/
theorem wp_getResultMsg {σ : Type} {s : σ} {result : Bytes} {Q : Report → σ → Prop}
    {E : Exit → σ → Prop} (hok : o.cod.isStatusOk = true) (hbare : o.Bare → E .assertion s)
    (hQ : ∀ st msg, ¬ o.Bare → o.Made st msg → Q (st, msg) s) :
    wp (o.tag.getResultMsg result) Q E s := by
  obtain ⟨success, ⟨_ | ⟨_ | bytes⟩⟩, cod⟩ := o
  · exact hbare ⟨hok, rfl⟩
  all_goals
    replace hok : cod.isStatusOk = true := hok
    refine hQ _ _ (fun hb => absurd hb.2 (by simp)) ?_
    simp [Outcome.Made, hok, byteBufferToString]

theorem made_status (hok : ¬ o.cod.isStatusOk = true) (msg : Bytes) :
    ¬ o.Bare ∧ o.Made o.cod.getStatus msg := by
  refine ⟨fun h => hok h.1, ?_⟩
  unfold Outcome.Made
  rw [if_neg hok, CodClientRecvStatus.ok_getStatus]
  simpa using hok

/-- `GetResponse(response)` of `ClientCallCqTag`. -/
theorem wp_getResponse {σ : Type} {s : σ} {response : Bytes} {Q : Report → σ → Prop}
    {E : Exit → σ → Prop} (hbare : o.Bare → E .assertion s)
    (hQ : ∀ st msg, ¬ o.Bare → o.Made st msg → Q (st, msg) s) :
    wp (getResponse o.tag o.cod response) Q E s := by
  simp only [getResponse, wp_ite, wp_pure]
  by_cases hok : o.cod.isStatusOk = true
  · rw [if_neg (by simp [hok])]
    exact wp_getResultMsg hok hbare hQ
  · rw [if_pos (by simp [hok])]
    obtain ⟨hb, hm⟩ := made_status hok response
    exact hQ _ _ hb hm

theorem syncRequest_iff (s : ServiceStub) (hstart : s.starts.headD true = true)
    (request response : Bytes) :
    o.Proper (reports (fun s : ServiceStub => returned s.trace)
      (ServiceStub.syncRequest request response o.tag o.cod) s) ↔ o.Fit := by
  have hstart' : (HasEnv.env s).starts.headD true = true := hstart
  refine reports_iff (fun hb => ?_) fun hb => ⟨fun s' => ∃ st msg,
    returned s'.trace = returned s.trace ++ [(st, msg)] ∧ o.Made st msg, ?_, fun _ h' => h'⟩
  all_goals
    simp only [ServiceStub.syncRequest, wp_bind, wp_startBatch, wp_ite, wp_emit, hstart']
    rw [if_neg (by simp)]
    refine wp_getResponse (fun hb' => ?_) fun st msg hb' hm => ?_
  · rfl
  · exact absurd hb hb'
  · exact absurd hb' hb
  · exact ⟨st, msg, by simp [returned, HasEnv.setEnv, HasEnv.env], hm⟩

theorem syncWriterClose_iff (s : SyncWriter) (hs : s.status.ok = true)
    (hstart : s.starts.headD true = true) (response : Bytes) :
    o.Proper (reports (fun s : SyncWriter => returned s.trace)
      (SyncWriter.Step.exec (.close response o.tag o.cod)) s) ↔ o.Fit := by
  refine reports_iff (fun hb => ?_) fun hb => ⟨fun s' => ∃ st msg,
    returned s'.trace = returned s.trace ++ [(st, msg)] ∧ o.Made st msg, ?_, fun _ h' => h'⟩
  all_goals
    simp only [SyncWriter.Step.exec, SyncWriter.close, wp_bind, wp_get, wp_startBatch, wp_ite,
      wp_pure, wp_modify, wp_emit, SyncWriter.env_eq, SyncWriter.setEnv_eq, hstart]
    rw [if_neg (by simp [hs]), if_neg (by simp)]
    by_cases hok : o.cod.isStatusOk = true
  · rw [if_pos hok]
    exact wp_getResultMsg hok (fun _ => rfl) fun _ _ hb' => absurd hb hb'
  · exact absurd hb.1 hok
  · rw [if_pos hok]
    refine wp_getResultMsg hok (fun hb' => absurd hb' hb) fun st msg _ hm => ?_
    exact ⟨st, msg, by simp [returned], hm⟩
  · rw [if_neg hok]
    exact ⟨o.cod.getStatus, response, by simp [returned], (made_status hok _).2⟩

/-- The callback that the result goes to is set, and the response callback has no objection that
anybody hears. -/
def ClientAsyncCallCqTag.Hears (c : ClientAsyncCallCqTag) (o : Outcome) : Prop :=
  match o.response with
  | some bytes => ∃ k, c.responseCb = some k ∧
      (c.errorCb = none ∨ ∀ st, k bytes = some st → st.ok = true)
  | none => c.errorCb ≠ none

theorem AsyncCall.wp_callErrorCb {s : AsyncCall} {Q : Unit → AsyncCall → Prop}
    {E : Exit → AsyncCall → Prop} {st : Status} (hnone : s.errorCb = none → Q () s)
    (hQ : s.errorCb ≠ none → ∀ s', AsyncCall.told s'.trace = AsyncCall.told s.trace ++ [(st, [])] →
      Q () s' ∧ E .exception s') :
    wp (AsyncCall.callErrorCb st) Q E s := by
  simp only [AsyncCall.callErrorCb, wp_bind, wp_get]
  cases hcb : s.errorCb with
  | none => exact hnone hcb
  | some k =>
      have ht := hQ (by simp [hcb]) { s with trace := s.trace ++ [.called (.errorCb st)] }
        (AsyncCall.told_append _ _)
      simp only [wp_bind, wp_emit, AsyncCall.env_eq, AsyncCall.setEnv_eq]
      cases k st with
      | none => exact ht.2
      | some _ => exact ht.1

/-- A batch that succeeded has a response where the paths make an OK status of it. -/
theorem Outcome.Made.response {st : Status} {msg : Bytes} (h : o.Made st msg)
    (hs : o.success = true) : o.response = if st.ok then some msg else none := by
  unfold Made at h
  cases hok : o.cod.isStatusOk with
  | false =>
      rw [if_neg (by simp [hok])] at h
      simp [Outcome.response, hok, h]
  | true =>
      rw [if_pos hok] at h
      cases hread : o.tag.recvBuf.bind byteBufferToString with
      | none =>
          rw [hread] at h
          simp [Outcome.response, hs, hok, hread, show st.ok = false from h]
      | some bytes =>
          rw [hread] at h
          obtain ⟨rfl, rfl⟩ := h
          simp [Outcome.response, hs, hok, hread]

/-- The reports of a tag from `s` on. -/
abbrev AsyncCall.since (s s' : AsyncCall) : Option (List Report) :=
  some ((AsyncCall.told s'.trace).drop (AsyncCall.told s.trace).length)

/-- What was told from `s` to `s'` is proper exactly if the outcome is `fit` and the callbacks
hear it. -/
abbrev AsyncCall.Agrees (s : AsyncCall) (o : Outcome) (fit : Prop) (s' : AsyncCall) : Prop :=
  o.Proper (s.since s') ↔ fit ∧ s.Hears o

/-- An error is heard if the error callback is set. -/
theorem AsyncCall.wp_error {s : AsyncCall} {st : Status} {fit : Prop} (hst : st.ok = false)
    (hr : o.response = none) (hfit : fit) (J : Exit → AsyncCall → Prop) :
    wp (AsyncCall.callErrorCb st) (fun _ => s.Agrees o fit)
      (Process.Leaves (s.Agrees o fit) J) s := by
  refine AsyncCall.wp_callErrorCb (fun hnone => ?_) fun hset s' ht => ?_
  · refine iff_of_false ?_ fun h => ?_
    · rintro ⟨st', msg, h, -⟩
      simp [AsyncCall.since] at h
    · have := h.2
      rw [ClientAsyncCallCqTag.Hears, hr] at this
      exact this hnone
  · have hiff : s.Agrees o fit s' := by
      rw [AsyncCall.Agrees, AsyncCall.since, ht, List.drop_left, ClientAsyncCallCqTag.Hears, hr]
      exact iff_of_true ⟨st, [], rfl, by rw [hr]; exact hst⟩ ⟨hfit, hset⟩
    exact ⟨hiff, hiff⟩

section answer
variable {s s' : AsyncCall} {fit : Prop} {msg : Bytes}

/-- Without a response callback, nobody hears of the response. -/
theorem AsyncCall.agrees_untold (hr : o.response = some msg) (hcb : s.responseCb = none) :
    s.Agrees o fit s := by
  refine iff_of_false ?_ fun h => ?_
  · rintro ⟨st', msg', h, -⟩
    simp at h
  · have := h.2
    rw [ClientAsyncCallCqTag.Hears, hr] at this
    obtain ⟨k, hk, -⟩ := this
    exact absurd (hcb.symm.trans hk) (by simp)

variable {k : Bytes → Option Status}

/-- The response is told once where an objection is not heard, or none is made. -/
theorem AsyncCall.agrees_once (hr : o.response = some msg) (hfit : fit)
    (hcb : s.responseCb = some k)
    (ht : AsyncCall.told s'.trace = AsyncCall.told s.trace ++ [(.OK, msg)])
    (hk : s.errorCb = none ∨ ∀ st, k msg = some st → st.ok = true) : s.Agrees o fit s' := by
  rw [AsyncCall.Agrees, AsyncCall.since, ht, List.drop_left, ClientAsyncCallCqTag.Hears, hr]
  exact iff_of_true ⟨.OK, msg, rfl, by rw [hr]; exact ⟨rfl, rfl⟩⟩ ⟨hfit, k, hcb, hk⟩

/-- An objection of the response callback that is heard is a second report. -/
theorem AsyncCall.agrees_twice {st : Status} (hr : o.response = some msg)
    (hcb : s.responseCb = some k)
    (ht : AsyncCall.told s'.trace = AsyncCall.told s.trace ++ [(.OK, msg)] ++ [(st, [])])
    (hset : s.errorCb ≠ none) (hk : k msg = some st) (hst : st.ok = false) :
    s.Agrees o fit s' := by
  rw [AsyncCall.Agrees, AsyncCall.since, ht, List.append_assoc, List.drop_left,
    ClientAsyncCallCqTag.Hears, hr]
  refine iff_of_false ?_ fun h => ?_
  · rintro ⟨_, _, h, -⟩
    simp at h
  · obtain ⟨k', hk', hno | hok⟩ := h.2
    · exact hset hno
    · rw [hcb] at hk'
      cases hk'
      exact absurd (hok st hk) (by simp [hst])

end answer

/-- The response is handed on if the response callback is set; an objection of the callback is a
second report. -/
theorem AsyncCall.doComplete_iff (s : AsyncCall) :
    o.Proper (reports (fun s : AsyncCall => AsyncCall.told s.trace)
      (AsyncCall.doComplete o.success o.tag o.cod) s) ↔
      (o.success = true → o.Fit) ∧ s.Hears o := by
  obtain ⟨fit, hiff⟩ : ∃ fit, (fit ↔ (o.success = true → o.Fit)) := ⟨_, Iff.rfl⟩
  rw [← hiff]
  refine reports_of_wp (P := fun r => o.Proper r ↔ fit ∧ s.Hears o) ?_
  simp only [AsyncCall.doComplete, wp_bind, wp_ite]
  cases hs : o.success with
  | false =>
      rw [if_pos (by simp)]
      exact AsyncCall.wp_error rfl (by simp [Outcome.response, hs]) (hiff.mpr (by simp [hs])) _
  | true =>
  rw [if_neg (by simp)]
  refine wp_getResponse (fun hb => ?_) fun st msg hb hm => ?_
  · exact iff_of_false Outcome.not_proper_none fun h => hb.not_fit (hiff.mp h.1 hs)
  have hfit : fit := by
    refine hiff.mpr fun _ hok => ?_
    cases hbuf : o.tag.recvBuf with
    | none => exact absurd ⟨hok, hbuf⟩ hb
    | some buf => exact ⟨buf, rfl, .inl hs⟩
  have hr := hm.response hs
  by_cases hst : st.ok = true
  case neg =>
    rw [if_neg hst] at hr
    rw [if_pos (by simp [hst])]
    exact AsyncCall.wp_error (by simpa using hst) hr hfit _
  rw [if_pos hst] at hr
  rw [if_neg (by simp [hst])]
  simp only [wp_get]
  cases hcb : s.responseCb with
  | none => exact AsyncCall.agrees_untold hr hcb
  | some k =>
  -- The response has been handed on: what matters is whether a second report follows.
  obtain ⟨s₁, hs₁⟩ : ∃ s₁ : AsyncCall,
      s₁ = { s with trace := s.trace ++ [.called (.responseCb msg)] } := ⟨_, rfl⟩
  have htold : AsyncCall.told s₁.trace = AsyncCall.told s.trace ++ [(.OK, msg)] := by
    rw [hs₁]
    exact AsyncCall.told_append _ _
  simp only [wp_bind, wp_emit, AsyncCall.env_eq, AsyncCall.setEnv_eq, ← hs₁]
  cases hk : k msg with
  | none =>
      exact AsyncCall.agrees_once hr hfit hcb htold
        (.inr fun st' h' => absurd (hk.symm.trans h') (by simp))
  | some st' =>
      simp only [AsyncCall.answer, wp_pure, wp_ite]
      by_cases hst' : st'.ok = true
      · rw [if_neg (by simp [hst'])]
        refine AsyncCall.agrees_once hr hfit hcb htold (.inr fun st'' h' => ?_)
        rw [hk] at h'
        cases h'
        exact hst'
      · rw [if_pos (by simp [hst'])]
        have herr : s₁.errorCb = s.errorCb := by rw [hs₁]
        refine AsyncCall.wp_callErrorCb
          (fun hnone => AsyncCall.agrees_once hr hfit hcb htold (.inl (herr ▸ hnone))) ?_
        intro hset s' ht
        have htwice : s.Agrees o fit s' := AsyncCall.agrees_twice hr hcb (ht.trans (by rw [htold]))
          (herr ▸ hset) hk (by simpa using hst')
        exact ⟨htwice, htwice⟩

/-- `OnClosed` in a run of the asynchronous writer, with the first `Close` waiting for it. -/
theorem onClosed_iff {s : Writer} {starts : List Bool} {ls : List Writer.Step}
    (h : Writer.Legal (Writer.new starts o.cod.getStatus) ls)
    (hs : Writer.after (Writer.new starts o.cod.getStatus) ls = .running s)
    (hclosing : 0 < s.closing) (hgiven : (Writer.closes s.trace).head? = some true)
    (cb : Status → Writer.React) :
    o.Proper (reports (fun s : Writer => Writer.told s.trace)
      (Writer.Step.exec (.closed o.success o.tag cb)) s) ↔ o.Fit := by
  obtain ⟨s₁, hs₁, hI⟩ := Writer.run_keeps h
  rw [hs] at hs₁
  cases hs₁
  -- A writer that is being closed has told nothing yet.
  have hends := hI.ends
  have hok := hI.flight_ok (.inr hclosing)
  have hnone := hI.untold hok (.inr hclosing)
  refine reports_iff (fun hb => ?_) fun hb => ⟨Writer.Closed o.tag s, ?_, ?_⟩
  · -- With an OK status and no message, the assertion of `getResultMsg` fails.
    obtain ⟨hcod, hbuf⟩ := hb
    simp only [Writer.Step.exec, Writer.onClosed, wp_bind, wp_get, wp_modify, wp_emit,
      Writer.env_eq, Writer.setEnv_eq, wp_check, wp_ite, hok]
    rw [if_neg (by simp), if_neg (by simpa [Writer.recvStatus, hends,
      CodClientRecvStatus.getStatus, CodClientRecvStatus.isStatusOk] using hcod)]
    unfold CodRecvMsg.getResultMsg
    rw [hbuf]
    rfl
  · -- Otherwise the completion is told of, exactly once.
    rw [← hends] at hI
    refine wp_mono (Writer.wp_closed hI hclosing o.success o.tag ?_) (fun _ _ h' => h'.2) ?_
    · rw [hends]
      intro hfin
      cases hbuf : o.tag.recvBuf with
      | none => exact absurd ⟨hfin, hbuf⟩ hb
      | some buf => simp [CodRecvMsg.hasGotMsg, hbuf]
    · rintro _ s' ⟨⟨rfl, -⟩, h'⟩
      exact h'
  · intro s' hc
    obtain ⟨st, msg, ht, hr⟩ := hc hgiven
    refine ⟨st, msg, by rw [ht, hnone]; rfl, ?_⟩
    rw [hends, Writer.Result] at hr
    unfold Outcome.Made
    by_cases hcod : o.cod.isStatusOk = true
    · rw [if_pos (show o.cod.getStatus.ok = true from hcod)] at hr
      rw [if_pos hcod]
      exact hr
    · rw [if_neg (show ¬ o.cod.getStatus.ok = true from hcod)] at hr
      rw [if_neg hcod, hr.1, CodClientRecvStatus.ok_getStatus]
      simpa using hcod

end paths

/-- **Responses.**  For every outcome, each path reports one result, and the right one, exactly
where the outcome is fit; the asynchronous request, which looks at the flag, also where the batch
failed, but it needs somebody to hear. -/
theorem responses_iff (o : Outcome) :
    (∀ (s : ServiceStub) (request response : Bytes), s.starts.headD true = true →
      (o.Proper (reports (fun s : ServiceStub => returned s.trace)
        (ServiceStub.syncRequest request response o.tag o.cod) s) ↔ o.Fit)) ∧
    (∀ s : AsyncCall, o.Proper (reports (fun s : AsyncCall => AsyncCall.told s.trace)
        (AsyncCall.doComplete o.success o.tag o.cod) s) ↔
      (o.success = true → o.Fit) ∧ s.Hears o) ∧
    (∀ (s : SyncWriter) (response : Bytes), s.status.ok = true → s.starts.headD true = true →
      (o.Proper (reports (fun s : SyncWriter => returned s.trace)
        (SyncWriter.Step.exec (.close response o.tag o.cod)) s) ↔ o.Fit)) ∧
    ∀ (s : Writer) (starts : List Bool) (ls : List Writer.Step) (cb : Status → Writer.React),
      Writer.Legal (Writer.new starts o.cod.getStatus) ls →
      Writer.after (Writer.new starts o.cod.getStatus) ls = .running s →
      0 < s.closing → (Writer.closes s.trace).head? = some true →
      (o.Proper (reports (fun s : Writer => Writer.told s.trace)
        (Writer.Step.exec (.closed o.success o.tag cb)) s) ↔ o.Fit) :=
  ⟨fun s request response h => syncRequest_iff s h request response, AsyncCall.doComplete_iff,
    fun s response hs h => syncWriterClose_iff s hs h response,
    fun _ _ _ cb h hs hc hg => onClosed_iff h hs hc hg cb⟩

/-- The asynchronous writer with its close batch in flight. -/
def closingWriter : Writer :=
  (Writer.after (Writer.new [] .OK) [.call (.close true) Writer.idle]).state

/-- A response that came is reported by all four. -/
theorem responses_iff_came :
    let o : Outcome := ⟨true, ⟨some ⟨some [7]⟩⟩, {}⟩
    let async : AsyncCall := ⟨⟨some fun _ => some .OK, none⟩, ⟨[], .OK, []⟩⟩
    o.Proper (reports (fun s : ServiceStub => returned s.trace)
      (ServiceStub.syncRequest [1] [] o.tag o.cod) ⟨[], .OK, []⟩) ∧
    o.Proper (reports (fun s : AsyncCall => AsyncCall.told s.trace)
      (AsyncCall.doComplete o.success o.tag o.cod) async) ∧
    o.Proper (reports (fun s : SyncWriter => returned s.trace)
      (SyncWriter.Step.exec (.close [] o.tag o.cod)) ⟨{}, ⟨[], .OK, []⟩⟩) ∧
    o.Proper (reports (fun s : Writer => Writer.told s.trace)
      (Writer.Step.exec (.closed o.success o.tag Writer.idle)) closingWriter) := by
  have hfit : Outcome.Fit ⟨true, ⟨some ⟨some [7]⟩⟩, {}⟩ := fun _ => ⟨_, rfl, .inl rfl⟩
  obtain ⟨hsync, hasync, hwriter, hclosed⟩ := responses_iff ⟨true, ⟨some ⟨some [7]⟩⟩, {}⟩
  refine ⟨(hsync _ _ _ rfl).mpr hfit, (hasync _).mpr ⟨fun _ => hfit, ?_⟩,
    (hwriter _ _ rfl rfl).mpr hfit,
    (hclosed closingWriter [] [.call (.close true) Writer.idle] _ ?_ ?_ ?_ ?_).mpr hfit⟩
  · exact ⟨_, rfl, .inl rfl⟩
  all_goals decide

/-- An OK status without a message, which any server can send, stops the client on all four paths:
there is no report. -/
theorem bare_aborts :
    let o : Outcome := ⟨true, ⟨none⟩, {}⟩
    let async : AsyncCall := ⟨⟨some fun _ => some .OK, some fun _ => some ()⟩, ⟨[], .OK, []⟩⟩
    reports (fun s : ServiceStub => returned s.trace)
      (ServiceStub.syncRequest [1] [] o.tag o.cod) ⟨[], .OK, []⟩ = none ∧
    reports (fun s : AsyncCall => AsyncCall.told s.trace)
      (AsyncCall.doComplete o.success o.tag o.cod) async = none ∧
    reports (fun s : SyncWriter => returned s.trace)
      (SyncWriter.Step.exec (.close [] o.tag o.cod)) ⟨{}, ⟨[], .OK, []⟩⟩ = none ∧
    reports (fun s : Writer => Writer.told s.trace)
      (Writer.Step.exec (.closed o.success o.tag Writer.idle)) closingWriter = none ∧
    ∀ r, o.Proper r → r ≠ none := by
  refine ⟨rfl, rfl, rfl, by decide, ?_⟩
  rintro r ⟨st, msg, rfl, -⟩
  simp

end GrpcLua
