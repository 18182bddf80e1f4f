import GrpcLua.Client.ReaderWriter.Invariant

/-!
# Client — ReaderWriter — Functions

One specification for each function of the object.  The callbacks it runs are assumed to keep
`Inv` and to do no more than `Grows` allows; `call_keeps` shows that a call of the user does so
under such callbacks, and `prog_keeps` that every reaction does.  The completions of a send and of
a read have a rule for each of their outcomes.
-/

namespace GrpcLua.ReaderWriter
open Prog Trace

variable {given : Bool} {s s' : ReaderWriter}

/-! ### Small moves -/

/-- In error, the invariant asks for less. -/
theorem Base.fail (h : Base given s) {e : Status} (he : e.ok = false) :
    Base given { s with status := e } :=
  { h with
    queue := by rw [he]; exact h.queue.fail
    busy := fun h' => absurd (he.symm.trans h') (by simp)
    status_OK := fun h' => absurd (he.symm.trans h') (by simp)
    inited_batch := fun h' => absurd (he.symm.trans h') (by simp)
    ended_close := fun h' => absurd (he.symm.trans h') (by simp)
    ended_reading := fun h' => absurd (he.symm.trans h') (by simp)
    said := fun _ => .inl he }

/-- Messages and batches come and go: of the object, only the queue changes. -/
theorem Base.requeued (h : Base given s) {queue sending : List Bytes} {tr : List (Event Cb)}
    (hqueue : SendQueue s.status.ok queue sending s.hasSentClose tr)
    (hbusy : s.status.ok = true → queue ≠ [] → sending ≠ [])
    (hsend : sending ≠ [] → batches tr ≠ []) (htr : s.trace <+: tr)
    (hst : statuses tr = statuses s.trace) (hm : Whenever MsgsFirst tr) (starts : List Bool) :
    Base given { s with msgQueue := queue, sending := sending, starts := starts, trace := tr } :=
  { h with
    queue := hqueue
    busy := hbusy
    sending_batch := hsend
    inited_batch := fun h' h'' => batches_of_prefix htr (h.inited_batch h' h'')
    said := by rw [hst]; exact h.said
    msgs_first := hm
    unset := by rw [hst]; exact h.unset }

/-- An event that is neither a message nor a half-close nor a status. -/
theorem Base.event (h : Base given s) {e : Event Cb} (ha : accepted [e] = [])
    (hh : handed [e] = []) (hd : delivered [e] = []) (hc : closed [e] = false)
    (hcl : ClosesLast s.trace e) (hst : statuses [e] = []) (hm : MsgsFirst s.trace e)
    (starts : List Bool) : Base given { s with starts := starts, trace := s.trace ++ [e] } :=
  h.requeued (h.queue.other ha hh hd hc hcl) h.busy
    (fun h' => batches_of_prefix (List.prefix_append _ _) (h.sending_batch h'))
    (List.prefix_append _ _) (by rw [statuses_append, hst, List.append_nil])
    ((whenever_concat _).mpr ⟨h.msgs_first, hm⟩) starts

/-- A batch that sends no message, or that is refused, and that does not half-close. -/
theorem Base.batch (h : Base given s) (b : Batch) (started : Bool)
    (hm : started = false ∨ b.msg? = none) (hb : b.closes = false)
    (hc : b.msg? ≠ none → closed s.trace = false) :
    Base given { s with starts := s.starts.tail, trace := s.trace ++ [.batch b started] } :=
  h.event rfl (handed_batch hm) rfl (by simp [closed, hb])
    ⟨fun h' => absurd (hb.symm.trans h') (by simp), hc⟩ rfl trivial _

/-- A status may be handed on after an error, and once both directions have ended. -/
theorem Base.notify (h : Base given s)
    (hs : s.status.ok = false ∨ s.readingEnded = true ∧ s.writingEnded = true) :
    Base given { s with trace := s.trace ++ [.called (.statusCb s.status)] } :=
  { h with
    queue := h.queue.other rfl rfl rfl rfl trivial
    sending_batch := fun h' => batches_of_prefix (List.prefix_append _ _) (h.sending_batch h')
    inited_batch := fun h' h'' =>
      batches_of_prefix (List.prefix_append _ _) (h.inited_batch h' h'')
    said := fun _ => hs
    msgs_first := (whenever_concat _).mpr ⟨h.msgs_first, trivial⟩
    unset := fun _ _ => by simp [statuses] }

/-- Once a batch is submitted the object may count as initialised. -/
theorem Base.init (h : Base given s) (hb : batches s.trace ≠ []) :
    Base given { s with inited := true } :=
  { h with
    inited_batch := fun _ _ => hb
    reading_inited := fun _ => rfl
    ended_reading := fun h' h'' => ⟨rfl, (h.ended_reading h' h'').2⟩ }

/-- The object after `StartBatch` answered `started` to `b`. -/
abbrev submitted (s : ReaderWriter) (b : Batch) (started : Bool) : ReaderWriter :=
  { s with starts := s.starts.tail, trace := s.trace ++ [.batch b started] }

/-- A batch is recorded with the answer of gRPC. -/
theorem wp_submit {Q : Bool → ReaderWriter → Prop} {E : Exit → ReaderWriter → Prop} (b : Batch) :
    wp (startBatch b) Q E s ↔ Q (s.starts.headD true) (submitted s b (s.starts.headD true)) :=
  Iff.rfl

/-- A batch may follow while there is no error. -/
theorem Grows.submitted (g : Grows s s') (hs : s.status.ok = true) (b : Batch) (started : Bool) :
    Grows s (submitted s' b started) :=
  { g with
    trace := g.trace.trans (List.prefix_append _ _)
    batches := fun h => absurd (hs.symm.trans h) (by simp)
    statuses := by simpa [ReaderWriter.statuses] using g.statuses }

/-! ### The private functions -/

/-- What a call leaves of the object: the invariant, and no more than `Grows` allows. -/
abbrev Kept (given : Bool) (s s' : ReaderWriter) : Prop := Inv given s' ∧ Grows s s'

section functions
variable {k : Status → M Status} (hk : ∀ st, Keeps (Inv given) Grows (k st))
include hk

/-- The object as it runs `status_cb_`. -/
def notified (s : ReaderWriter) : ReaderWriter :=
  if s.statusCb then { s with trace := s.trace ++ [.called (.statusCb s.status)] } else s

/-- `status_cb_` is told, and reset. -/
theorem wp_callStatusCb (h : Base given s)
    (hs : s.status.ok = false ∨ s.readingEnded = true ∧ s.writingEnded = true) :
    wp (callStatusCb k)
      (fun _ s' => (Inv given s' ∧ Grows (notified s) s') ∧ s'.statusCb = false)
      (fun _ s' => Inv given s' ∧ Grows (notified s) s') s := by
  simp only [callStatusCb, wp_bind, wp_get, wp_ite, wp_emit, env_eq, setEnv_eq, wp_modify, wp_pure]
  by_cases hset : s.statusCb = true
  · have htold : statuses (s.trace ++ [.called (.statusCb s.status)]) ≠ [] := by
      simp [statuses]
    have hI : Inv given { s with trace := s.trace ++ [.called (.statusCb s.status)] } :=
      { h.notify hs with told := fun _ _ => htold }
    rw [if_pos hset, notified, if_pos hset]
    refine (hk s.status).wp hI (fun _ s₁ h₁ g₁ => ⟨⟨?_, ?_⟩, trivial⟩) fun _ s₁ h₁ g₁ => ⟨h₁, g₁⟩
    · exact { h₁ with unset := fun _ _ => g₁.told htold }
    · exact { g₁ with unset := fun h' => absurd h' (by simp) }
  · rw [Bool.not_eq_true] at hset
    rw [if_neg (by simp [hset]), notified, if_neg (by simp [hset])]
    exact ⟨⟨{ h with told := fun hg _ => h.unset hg hset }, .refl s⟩, hset⟩

/-- The object after an error: `status_cb_` has been reset and both directions have ended. -/
def Failed (s : ReaderWriter) : Prop :=
  s.status.ok = false ∧ s.statusCb = false ∧ s.readingEnded = true ∧ s.writingEnded = true

omit hk in
/-- Assigning an error and handing it on is all that happens before `status_cb_` runs. -/
theorem Grows.notified_error (hs : s.status.ok = true) {e : Status} (he : e.ok = false) :
    Grows s (notified { s with status := e }) := by
  have hne : ¬ e.ok = true := by simp [he]
  unfold notified
  by_cases hset : s.statusCb = true
  · rw [if_pos hset]
    exact
      { trace := List.prefix_append _ _
        ok := fun h => absurd h hne
        batches := fun h => absurd (hs.symm.trans h) (by simp)
        inited := id
        closing := id
        unset := id
        statuses := .inr ⟨hs, he, hset, e, by simp [ReaderWriter.statuses]⟩
        started := fun h => ⟨h, rfl⟩
        ended := fun h => absurd h hne }
  · rw [if_neg hset]
    exact { Moves.refl s with
      ok := fun h => absurd h hne
      started := fun h => ⟨h, rfl⟩
      ended := fun h => absurd h hne
      statuses := .inl rfl }

/-- From a state whose status is OK, the error is assigned, told, and both directions end. -/
theorem wp_endOnErrorStatus {e : Status} (hs : s.status.ok = true) (he : e.ok = false)
    (h : Base given { s with status := e }) :
    wp (endOnErrorStatus k e) (fun _ s' => Kept given s s' ∧ Failed s')
      (fun _ s' => Kept given s s' ∧ s'.status.ok = false) s := by
  have hn : Grows s (notified { s with status := e }) := .notified_error hs he
  have hf : (notified { s with status := e }).status.ok = false := by
    unfold notified
    split <;> exact he
  simp only [endOnErrorStatus, wp_bind, wp_check, he, Bool.not_false, if_true, hs, wp_modify]
  refine wp_mono (wp_callStatusCb hk h (.inl he)) ?_ ?_
  · rintro _ s₁ ⟨⟨h₁, g₁⟩, hset⟩
    have hf₁ : s₁.status.ok = false := g₁.failed hf
    have hne : ¬ s₁.status.ok = true := by simp [hf₁]
    refine ⟨⟨?_, { hn.trans g₁ with ended := fun h' => absurd h' hne }⟩, hf₁, hset, rfl, rfl⟩
    exact
      { h₁ with
        close_ended := fun _ => rfl
        ended_close := fun h' => absurd h' hne
        ended_reading := fun h' => absurd h' hne
        said := fun _ => .inl hf₁ }
  · rintro _ s₁ ⟨h₁, g₁⟩
    exact ⟨⟨h₁, hn.trans g₁⟩, g₁.failed hf⟩

/-- Ending on an error submits no batch. -/
theorem endOnErrorStatus_batches {e : Status} (hs : s.status.ok = true) (he : e.ok = false)
    (h : Base given { s with status := e }) :
    wp (endOnErrorStatus k e) (fun _ s' => batches s'.trace = batches s.trace)
      (fun _ s' => batches s'.trace = batches s.trace) s := by
  have hn : (notified { s with status := e }).status.ok = false ∧
      batches (notified { s with status := e }).trace = batches s.trace := by
    unfold notified
    split <;> exact ⟨he, by simp [batches]⟩
  simp only [endOnErrorStatus, wp_bind, wp_check, he, Bool.not_false, if_true, hs, wp_modify]
  refine wp_mono (wp_callStatusCb hk h (.inl he)) ?_ ?_
  · rintro _ s₁ ⟨⟨-, g₁⟩, -⟩
    exact (g₁.batches hn.1).trans hn.2
  · rintro _ s₁ ⟨-, g₁⟩
    exact (g₁.batches hn.1).trans hn.2

/-- `SetInternalError(sError)` in an operation that began in `s` and has come to `s'`. -/
theorem wp_setInternalError {sError : Bytes} (g : Grows s s') (hs : s'.status.ok = true)
    (h : Base given { s' with status := .internalError sError }) :
    wp (setInternalError k sError) (fun _ s' => Kept given s s' ∧ Failed s')
      (fun _ s' => Kept given s s' ∧ s'.status.ok = false) s' := by
  simp only [setInternalError, wp_bind, wp_check, hs, if_true]
  refine wp_mono (wp_endOnErrorStatus hk hs rfl h) ?_ ?_
  · rintro _ s₁ ⟨⟨h₁, g₁⟩, hf⟩
    exact ⟨⟨h₁, g.trans g₁⟩, hf⟩
  · rintro _ s₁ ⟨⟨h₁, g₁⟩, hf⟩
    exact ⟨⟨h₁, g.trans g₁⟩, hf⟩

/-- `InitIfNot()` leaves the object initialised, or in error. -/
theorem wp_initIfNot (h : Inv given s) :
    wp (initIfNot k)
      (fun _ s' => Kept given s s' ∧
        (s'.status.ok = true → s'.inited = true ∧ s'.writingEnded = s.writingEnded))
      (fun _ s' => Kept given s s' ∧ s'.status.ok = false) s := by
  simp only [initIfNot, wp_bind, wp_get, wp_ite, wp_pure, wp_modify, wp_submit, Bool.not_eq_true']
  -- `inited_` is set before the two batches, whatever becomes of them.
  by_cases hi : s.inited = true
  · rw [if_pos hi]
    exact ⟨⟨h, .refl s⟩, by simp [hi]⟩
  rw [if_neg hi]
  have g : Grows s { s with inited := true } := { Grows.refl s with inited := fun _ => rfl }
  -- An object in error starts neither of them.
  by_cases hs : s.status.ok = false
  · have hne : ¬ s.status.ok = true := by simp [hs]
    rw [if_pos hs]
    refine ⟨⟨?_, g⟩, fun h' => absurd h' hne⟩
    exact
      { h with
        reading_inited := fun _ => rfl
        inited_batch := fun h' => absurd h' hne
        ended_reading := fun h' => absurd h' hne }
  rw [if_neg hs]
  rw [Bool.not_eq_false] at hs
  have h₁ := (h.batch [.sendInitMd] (s.starts.headD true) (.inr rfl) rfl
    (by simp [Batch.msg?])).init (by simp [batches])
  have g₁ := g.submitted hs [.sendInitMd] (s.starts.headD true)
  by_cases hstart : s.starts.headD true = false
  · rw [if_pos hstart]
    refine wp_mono (wp_setInternalError hk g₁ hs (h₁.fail rfl)) ?_ fun _ _ h' => h'
    rintro _ s' ⟨hI, hf⟩
    exact ⟨hI, by simp [hf.1]⟩
  rw [if_neg hstart]
  have h₂ := h₁.batch [.recvInitMd] (s.starts.tail.headD true) (.inr rfl) rfl
    (by simp [Batch.msg?])
  have g₂ := g₁.submitted hs [.recvInitMd] (s.starts.tail.headD true)
  by_cases hstart' : s.starts.tail.headD true = false
  · rw [if_pos hstart']
    refine wp_mono (wp_setInternalError hk g₂ hs (h₂.fail rfl)) ?_ fun _ _ h' => h'
    rintro _ s' ⟨hI, hf⟩
    exact ⟨hI, by simp [hf.1]⟩
  · rw [if_neg hstart']
    refine ⟨⟨{ h₂ with told := fun _ h' => absurd h' ?_ }, g₂⟩, by simp⟩
    simp [hs]

omit hk in
/-- In error, and with nothing in flight, the queue may hold anything. -/
theorem Base.queued (h : Base given s) (hsend : s.sending = []) {e : Status} (he : e.ok = false)
    (q : List Bytes) : Base given { s with status := e, msgQueue := q } :=
  { h.fail he with
    queue := by
      have hq := h.queue
      rw [hsend] at hq
      rw [he, hsend]
      exact hq.fail_queue q
    busy := fun h' => absurd (he.symm.trans h') (by simp) }

/-- The object after `SendNext()` has started a batch for the front message. -/
abbrev sentNext (s : ReaderWriter) : ReaderWriter :=
  { submitted s [.sendMsg (s.msgQueue.headD [])] true with
    sending := s.sending ++ [s.msgQueue.headD []] }

/-- `SendNext()` starts the front message, or fails. -/
theorem wp_sendNext (g : Grows s s') (hs : s'.status.ok = true) (hq : s'.msgQueue ≠ [])
    (h : Base given
      { s' with status := .internalError (str "Failed to write bi-directional streaming.") })
    (hc : closed s'.trace = false) :
    wp (sendNext k)
      (fun r s₁ => if r then s'.starts.headD true = true ∧ s₁ = sentNext s'
        else Kept given s s₁ ∧ Failed s₁)
      (fun _ s₁ => Kept given s s₁ ∧ s₁.status.ok = false) s' := by
  simp only [sendNext, wp_bind, wp_check, wp_get, wp_submit, wp_ite, wp_modify, wp_pure]
  rw [if_pos (by simpa using hq), if_pos hs]
  by_cases hstart : s'.starts.headD true = true
  · rw [if_pos hstart]
    rw [hstart]
    exact ⟨rfl, rfl⟩
  · rw [if_neg hstart]
    rw [Bool.not_eq_true] at hstart
    rw [hstart]
    have h₁ := h.batch [.sendMsg (s'.msgQueue.headD [])] false (.inl rfl) rfl
      fun _ => hc
    exact wp_setInternalError hk (g.submitted (g.ok hs) _ false) hs h₁

/-- `ReadNext()` starts a read where none is in flight, or fails. -/
theorem wp_readNext (g : Moves s s') (hs : s'.status.ok = true) (h : Inv given s')
    (hi : s'.inited = true) (hread : s'.reading = 0) (hstarted : s'.readingStarted = true)
    (hended : s'.readingEnded = false) :
    wp (readNext k)
      (fun _ s₁ => (Inv given s₁ ∧ Moves s s₁) ∧
        (s₁.status.ok = true → s₁.readingEnded = false ∧ s₁.writingEnded = s'.writingEnded))
      (fun _ s₁ => (Inv given s₁ ∧ Moves s s₁) ∧ s₁.status.ok = false) s' := by
  have hb := h.batch [.recvMsg] (s'.starts.headD true) (.inr rfl) rfl
    (by simp [Batch.msg?])
  simp only [readNext, wp_bind, wp_check, wp_submit, wp_ite, wp_modify, hs, if_true]
  by_cases hstart : s'.starts.headD true = true
  · rw [if_pos hstart]
    refine ⟨⟨?_, ?_⟩, by simp [hended]⟩
    · exact
        { hb with
          one_reading := by simp [hread]
          reading_started := fun _ => hstarted
          reading_inited := fun _ => hi
          ended_reading := fun _ h' => absurd (hended.symm.trans h') (by simp)
          told := fun _ h' => absurd (h'.symm.trans hs) (by simp) }
    · have g₁ := Grows.submitted (.refl s') hs [.recvMsg] (s'.starts.headD true)
      exact { g.trans g₁.toMoves with }
  · rw [if_neg hstart]
    have g₁ := Grows.submitted (.refl s') hs [.recvMsg] (s'.starts.headD true)
    refine wp_mono (wp_setInternalError hk g₁ hs (hb.fail rfl)) ?_ ?_
    · rintro _ s₁ ⟨⟨hI, g₂⟩, hf⟩
      exact ⟨⟨hI, g.trans g₂.toMoves⟩, by simp [hf.1]⟩
    · rintro _ s₁ ⟨⟨hI, g₂⟩, hf⟩
      exact ⟨⟨hI, g.trans g₂.toMoves⟩, hf⟩

omit hk in
/-- The half-close is submitted, whether `StartBatch` takes it or not. -/
theorem Base.close (h : Base given s) (hs : s.status.ok = true)
    (hclosing : s.writingClosing = true) (hclose : s.hasSentClose = false)
    (hq : s.msgQueue = []) (hsend : s.sending = []) (started : Bool) :
    Base given { s with
      hasSentClose := true
      writingEnded := true
      starts := s.starts.tail
      trace := s.trace ++ [.batch [.clientSendClose] started] } :=
  { h with
    queue := by
      have hqueue := h.queue
      rw [hs, hq, hsend, hclose] at hqueue
      rw [hs, hq, hsend]
      exact hqueue.close rfl rfl started
    sending_batch := fun _ => by simp [batches]
    inited_batch := fun _ _ => by simp [batches]
    close_closing := fun _ => hclosing
    close_ended := fun _ => rfl
    ended_close := fun _ _ => rfl
    said := fun h' => (h.said (by simpa [statuses] using h')).imp_right fun h'' => ⟨h''.1, rfl⟩
    msgs_first := (whenever_concat _).mpr ⟨h.msgs_first, trivial⟩
    unset := fun h' h'' => by simpa [statuses] using h.unset h' h'' }

/-- `SendClose()` half-closes a call with nothing left to send. -/
theorem wp_sendClose (g : Grows s s') (hs : s'.status.ok = true) (h : Inv given s')
    (hclosing : s'.writingClosing = true) (hclose : s'.hasSentClose = false)
    (hq : s'.msgQueue = []) (hsend : s'.sending = []) :
    wp (sendClose k)
      (fun _ s₁ => Kept given s s₁ ∧
        (s'.starts.headD true = true ∧ s₁.status.ok = true ∧ s₁.writingEnded = true ∨ Failed s₁))
      (fun _ s₁ => Kept given s s₁ ∧ s₁.status.ok = false) s' := by
  have hb := h.close hs hclosing hclose hq hsend (s'.starts.headD true)
  have g₁ : Grows s { s' with
      hasSentClose := true
      writingEnded := true
      starts := s'.starts.tail
      trace := s'.trace ++ [.batch [.clientSendClose] (s'.starts.headD true)] } :=
    { g.submitted (g.ok hs) [.clientSendClose] (s'.starts.headD true) with }
  simp only [sendClose, wp_bind, wp_check, wp_modify, wp_submit, wp_ite, wp_pure]
  rw [if_pos hclosing, if_pos (by simp [hclose]), if_pos hs]
  by_cases hstart : s'.starts.headD true = true
  · rw [if_pos hstart]
    refine ⟨⟨?_, g₁⟩, .inl ⟨hstart, hs, trivial⟩⟩
    exact { hb with told := fun _ h' => absurd (h'.symm.trans hs) (by simp) }
  · rw [if_neg hstart]
    refine wp_mono (wp_setInternalError hk g₁ hs (hb.fail rfl)) ?_ fun _ _ h' => h'
    rintro _ s₁ ⟨hI, hf⟩
    exact ⟨hI, .inr hf⟩

/-! ### The public functions -/

omit hk in
/-- The queue has moved on by one message. -/
theorem Inv.requeued (h : Inv given s) {queue sending : List Bytes} {tr : List (Event Cb)}
    (hqueue : SendQueue s.status.ok queue sending s.hasSentClose tr)
    (hbusy : s.status.ok = true → queue ≠ [] → sending ≠ [])
    (hsend : sending ≠ [] → batches tr ≠ []) (htr : s.trace <+: tr)
    (hst : statuses tr = statuses s.trace) (hm : Whenever MsgsFirst tr) (starts : List Bool) :
    Inv given { s with msgQueue := queue, sending := sending, starts := starts, trace := tr } :=
  { h.toBase.requeued hqueue hbusy hsend htr hst hm starts with
    told := by rw [hst]; exact h.told }

omit hk in
/-- An event that is none of those the invariant speaks of. -/
theorem Inv.event (h : Inv given s) {e : Event Cb} (ha : accepted [e] = [])
    (hh : handed [e] = []) (hd : delivered [e] = []) (hc : closed [e] = false)
    (hcl : ClosesLast s.trace e) (hst : statuses [e] = []) (hm : MsgsFirst s.trace e) :
    Inv given { s with trace := s.trace ++ [e] } :=
  { h.toBase.event ha hh hd hc hcl hst hm s.starts with
    told := by rw [statuses_append, hst, List.append_nil]; exact h.told }

omit hk in
/-- An event that neither submits a batch nor tells a status. -/
theorem Grows.event (g : Grows s s') {e : Event Cb} (hb : GrpcLua.batches [e] = [])
    (hst : ReaderWriter.statuses [e] = []) : Grows s { s' with trace := s'.trace ++ [e] } :=
  { g with
    trace := g.trace.trans (List.prefix_append _ _)
    batches := by rw [batches_append, hb, List.append_nil]; exact g.batches
    statuses := by rw [statuses_append, hst, List.append_nil]; exact g.statuses }

omit hk in
/-- `Write` has refused the message. -/
theorem refused (h : Inv given s' ∧ Grows s s') (msg : Bytes) :
    Inv given { s' with trace := s'.trace ++ [.wrote msg false] } ∧
      Grows s { s' with trace := s'.trace ++ [.wrote msg false] } :=
  ⟨h.1.event rfl rfl rfl rfl trivial rfl trivial, h.2.event rfl rfl⟩

omit hk in
/-- With the queue empty nothing is in flight. -/
theorem Base.sending_nil (h : Base given s) (hq : s.msgQueue = []) : s.sending = [] := by
  rcases h.queue.flying_cases with hf | ⟨m, q, -, hq'⟩
  · exact hf
  · exact absurd (hq.symm.trans hq') (by simp)

omit hk in
/-- Before `CloseWriting` there is no half-close. -/
theorem Base.not_closed (h : Base given s) (hw : ¬ s.writingClosing = true) :
    s.hasSentClose = false ∧ closed s.trace = false := by
  have hc : s.hasSentClose = false := by
    by_contra hc
    rw [Bool.not_eq_false] at hc
    exact hw (h.close_closing hc)
  exact ⟨hc, h.queue.trace_closed.trans hc⟩

/-- `Write(msg)`: an accepted message is started or waits behind the one in flight. -/
theorem wp_write (h : Inv given s) (msg : Bytes) :
    wp (Call.exec (.write msg) k)
      (fun _ s' => Kept given s s' ∧
        (s'.status.ok = true → s'.writingEnded = s.writingEnded))
      (fun _ s' => Kept given s s' ∧ s'.status.ok = false) s := by
  simp only [Call.exec, ReaderWriter.write, wp_bind, wp_get, wp_ite, wp_check, wp_pure, wp_modify,
    wp_emit, env_eq, setEnv_eq]
  refine wp_mono (wp_initIfNot hk h) ?_ fun _ _ h' => h'
  rintro _ s₁ ⟨⟨h₁, g₁⟩, hi⟩
  by_cases hs : s₁.status.ok = true
  · rw [if_neg (by simp [hs])]
    by_cases hw : (s₁.writingClosing || s₁.writingEnded) = true
    · rw [if_pos hw]
      exact ⟨refused ⟨h₁, g₁⟩ msg, fun _ => (hi hs).2⟩
    rw [if_neg hw]
    rw [Bool.or_eq_true, not_or] at hw
    obtain ⟨hclose, hclosed⟩ := h₁.not_closed hw.1
    have hqueue := h₁.queue
    rw [hs, hclose] at hqueue
    by_cases hq : s₁.msgQueue = []
    · -- Nothing is in flight: the message is handed to gRPC at once.
      have hsend := h₁.sending_nil hq
      rw [hq, hsend] at hqueue
      rw [if_neg (by simp [hq])]
      have g₂ : Grows s { s₁ with msgQueue := s₁.msgQueue ++ [msg] } := { g₁ with }
      refine wp_mono (wp_sendNext hk g₂ hs (by simp) (h₁.queued hsend rfl _) hclosed) ?_
        fun _ _ h' => h'
      rintro (_ | _) s₂ h₂
      · exact ⟨refused h₂.1 msg, fun h' => absurd (h₂.2.1.symm.trans h') (by simp)⟩
      · obtain ⟨hstart, rfl⟩ := h₂
        refine ⟨⟨h₁.requeued ?_ (fun _ _ => by simp) (fun _ => by simp [batches]) ?_ ?_ ?_ _, ?_⟩,
          ?_⟩
        · rw [hs, hclose, hq, hsend]
          exact hqueue.push_start rfl rfl
        · exact (List.prefix_append _ _).trans (List.prefix_append _ _)
        · simp [statuses]
        · exact (whenever_concat _).mpr
            ⟨(whenever_concat _).mpr ⟨h₁.msgs_first, trivial⟩, trivial⟩
        · have g₃ := g₁.submitted (g₁.ok hs) [.sendMsg ((s₁.msgQueue ++ [msg]).headD [])] true
          exact { g₃.event (e := .wrote msg true) rfl rfl with }
        · exact fun _ => (hi hs).2
    · -- It waits behind the message in flight.
      rw [if_pos (by simpa using hq)]
      refine ⟨⟨h₁.requeued ?_ (fun _ _ => h₁.busy hs hq) (fun h' => ?_) ?_ ?_ ?_ _, ?_⟩, ?_⟩
      · rw [hs, hclose]; exact hqueue.push hq
      · exact batches_of_prefix (List.prefix_append _ _) (h₁.sending_batch h')
      · exact List.prefix_append _ _
      · simp [statuses]
      · exact (whenever_concat _).mpr ⟨h₁.msgs_first, trivial⟩
      · exact { g₁.event (e := .wrote msg true) rfl rfl with }
      · exact fun _ => (hi hs).2
  · -- An error refuses the message, once the object has noticed that both directions ended.
    rw [if_pos (by simp [hs])]
    by_cases he : (s₁.readingEnded && s₁.writingEnded) = true
    · rw [if_pos he]
      exact ⟨refused ⟨h₁, g₁⟩ msg, fun h' => absurd h' hs⟩
    · rw [if_neg he]
      exact ⟨⟨h₁, g₁⟩, by simpa using hs⟩

/-- The call closes the writing. -/
def Call.closesWriting : Call → Bool
  | .closeWriting => true
  | .destroyWrapper => true
  | _ => false

/-- What `CloseWriting()` needs in order to half-close the call at once. -/
def Closes (s : ReaderWriter) : Prop :=
  s.writingClosing = false ∧ s.msgQueue = [] ∧ s.starts.headD true = true

/-- `CloseWriting()` half-closes the call if nothing waits to be sent. -/
theorem wp_closeWriting (h : Inv given s) :
    wp (closeWriting k)
      (fun _ s' => (Kept given s s' ∧ s'.writingClosing = true) ∧
        (s'.status.ok = true → s'.writingEnded = true → s.writingEnded = true ∨ Closes s))
      (fun _ s' => Kept given s s' ∧ s'.status.ok = false) s := by
  simp only [closeWriting, wp_bind, wp_get, wp_ite, wp_check, wp_pure, wp_modify]
  by_cases hw : s.writingClosing = true
  · rw [if_pos hw]
    exact ⟨⟨⟨h, .refl s⟩, hw⟩, fun _ h' => .inl h'⟩
  rw [if_neg hw]
  have hclose := (h.not_closed hw).1
  have h₁ : Inv given { s with writingClosing := true } :=
    { h with
      close_closing := fun _ => rfl
      unwrapped := fun _ => rfl }
  have g₁ : Grows s { s with writingClosing := true } :=
    { Grows.refl s with closing := fun _ => rfl }
  -- Closing with an empty queue goes straight to the half-close.
  by_cases hs : s.status.ok = true
  · rw [if_neg (by simp [hs])]
    by_cases hq : s.msgQueue = []
    · rw [if_neg (by simp [hq]), if_pos (by simp [hclose])]
      have hsend := wp_sendClose hk (.refl { s with writingClosing := true }) hs h₁ rfl hclose hq
        (h.sending_nil hq)
      refine wp_mono hsend ?_ ?_
      · rintro _ s₁ ⟨⟨hI, g⟩, hend⟩
        have hclosing : s₁.writingClosing = true := g.closing rfl
        rcases hend with ⟨hstart, -, hended⟩ | hf
        · rw [if_pos hended]
          exact ⟨⟨⟨hI, g₁.trans g⟩, hclosing⟩, fun _ _ => .inr ⟨by simpa using hw, hq, hstart⟩⟩
        · rw [if_pos hf.2.2.2]
          exact ⟨⟨⟨hI, g₁.trans g⟩, hclosing⟩, fun h' => absurd (hf.1.symm.trans h') (by simp)⟩
      · rintro _ s₁ ⟨⟨hI, g⟩, hf⟩
        exact ⟨⟨hI, g₁.trans g⟩, hf⟩
    · rw [if_pos (by simpa using hq)]
      exact ⟨⟨⟨h₁, g₁⟩, trivial⟩, fun _ h' => .inl h'⟩
  · rw [if_pos (by simp [hs])]
    exact ⟨⟨⟨h₁, g₁⟩, trivial⟩, fun h' => absurd h' hs⟩

omit hk in
/-- The reading starts; no read is in flight. -/
theorem Inv.startReading (h : Inv given s) (hr : ¬ s.readingStarted = true) :
    Kept given s { s with readingStarted := true } ∧ s.reading = 0 := by
  refine ⟨⟨?_, { Grows.refl s with started := fun h' => absurd h' hr }⟩, ?_⟩
  · exact
      { h with
        reading_started := fun _ => rfl
        ended_reading := fun h' h'' => absurd (h.ended_reading h' h'').2.1 hr }
  · by_contra hr'
    exact hr (h.reading_started (Nat.pos_of_ne_zero hr'))

/-- `ReadEach(msg_cb)` starts the first read. -/
theorem wp_readEach (h : Inv given s) (msgCb : Bool) :
    wp (readEach k msgCb)
      (fun _ s' => Kept given s s' ∧
        (s'.status.ok = true → s'.writingEnded = s.writingEnded))
      (fun _ s' => Kept given s s' ∧ s'.status.ok = false) s := by
  simp only [readEach, wp_bind, wp_get, wp_ite, wp_pure, wp_modify]
  by_cases hr : s.readingStarted = true
  · rw [if_pos hr]
    exact ⟨⟨h, .refl s⟩, by simp⟩
  rw [if_neg hr]
  obtain ⟨⟨h₁, g₁⟩, hread⟩ := h.startReading hr
  refine wp_mono (wp_initIfNot hk h₁) ?_
    fun _ s₂ h₂ => ⟨⟨h₂.1.1, g₁.trans h₂.1.2⟩, h₂.2⟩
  rintro _ s₂ ⟨⟨h₂, g₂⟩, hi⟩
  by_cases hs : s₂.status.ok = true
  · rw [if_neg (by simp [hs])]
    -- The callbacks of `InitIfNot()` may have called `ReadEach()`, but it was started before.
    obtain ⟨hstarted, hread₂⟩ := g₂.started rfl
    have hended : s.readingEnded = false := by
      by_contra he
      exact hr (h.ended_reading (g₂.ok hs) (by simpa using he)).2.1
    have h₃ : Inv given { s₂ with msgCb := msgCb } := { h₂ with }
    have g₃ : Moves s { s₂ with msgCb := msgCb } := { (g₁.trans g₂).toMoves with }
    refine wp_mono (wp_readNext hk g₃ hs h₃ (hi hs).1 (hread₂.trans hread) hstarted
      ((g₂.ended hs).trans hended)) ?_ ?_
    · rintro _ s₄ ⟨⟨h₄, g₄⟩, hok⟩
      refine ⟨⟨h₄, ?_⟩, fun h' => (hok h').2.trans (hi hs).2⟩
      exact
        { g₄ with
          started := fun h' => absurd h' hr
          ended := fun h' => (hok h').1.trans hended.symm }
    · rintro _ s₄ ⟨⟨h₄, g₄⟩, hf⟩
      refine ⟨⟨h₄, ?_⟩, hf⟩
      exact
        { g₄ with
          started := fun h' => absurd h' hr
          ended := fun h' => absurd (hf.symm.trans h') (by simp) }
  · rw [if_pos (by simp [hs])]
    exact ⟨⟨h₂, g₁.trans g₂⟩, fun h' => absurd h' hs⟩

/-- `SetErrorStatus(error_status)` ends the call, or replaces the error it ended with. -/
theorem wp_setErrorStatus (h : Inv given s) (errorStatus : Status) :
    wp (setErrorStatus k errorStatus)
      (fun _ s' => Kept given s s' ∧ s'.status.ok = false)
      (fun _ s' => Kept given s s' ∧ (s'.status.ok = true → s' = s)) s := by
  simp only [setErrorStatus, wp_bind, wp_get, wp_ite, wp_check, wp_modify]
  by_cases he : errorStatus.ok = true
  · rw [if_neg (by simp [he])]
    exact ⟨⟨h, .refl s⟩, fun _ => trivial⟩
  rw [Bool.not_eq_true] at he
  rw [if_pos (by simp [he])]
  by_cases hs : s.status.ok = true
  · rw [if_pos hs]
    refine wp_mono (wp_endOnErrorStatus hk hs he (h.fail he)) ?_ ?_
    · rintro _ s₁ ⟨hI, hf⟩
      exact ⟨hI, hf.1⟩
    · rintro _ s₁ ⟨hI, hf⟩
      exact ⟨hI, fun h' => absurd (hf.symm.trans h') (by simp)⟩
  · -- The error is replaced without a word to `status_cb_`.
    rw [if_neg hs]
    have hf : s.status.ok = false := by simpa using hs
    have hne : ¬ errorStatus.ok = true := by simp [he]
    refine ⟨⟨{ h.fail he with told := fun hg _ => h.told hg hf }, ?_⟩, he⟩
    exact
      { Grows.refl s with
        ok := fun h' => absurd h' hne
        ended := fun h' => absurd h' hne
        statuses := .inl rfl }

/-- What a call of the user, under callbacks that keep the invariant, leaves of the object.  Where
no error comes of it, only closing the writing ends the writing. -/
theorem wp_call (h : Inv given s) (c : Call) :
    wp (c.exec k)
      (fun _ s' => Kept given s s' ∧ (s'.status.ok = true → s'.writingEnded = true →
        s.writingEnded = true ∨ c.closesWriting = true ∧ Closes s))
      (fun _ s' => Kept given s s' ∧ (s'.status.ok = true → s' = s)) s := by
  have hexit : ∀ s', Kept given s s' ∧ s'.status.ok = false →
      Kept given s s' ∧ (s'.status.ok = true → s' = s) := by
    rintro s' ⟨hI, hf⟩
    exact ⟨hI, fun h' => absurd (hf.symm.trans h') (by simp)⟩
  cases c with
  | write msg =>
      refine wp_mono (wp_write hk h msg) ?_ fun _ => hexit
      rintro _ s' ⟨hI, hw⟩
      exact ⟨hI, fun h' h'' => .inl ((hw h').symm.trans h'')⟩
  | closeWriting =>
      refine wp_mono (wp_closeWriting hk h) ?_ fun _ => hexit
      rintro _ s' ⟨⟨hI, -⟩, hw⟩
      exact ⟨hI, fun h' h'' => (hw h' h'').imp_right fun hc => ⟨rfl, hc⟩⟩
  | readEach msgCb =>
      refine wp_mono (wp_readEach hk h msgCb) ?_ fun _ => hexit
      rintro _ s' ⟨hI, hw⟩
      exact ⟨hI, fun h' h'' => .inl ((hw h').symm.trans h'')⟩
  | setErrorStatus e =>
      refine wp_mono (wp_setErrorStatus hk h e) ?_ fun _ _ h' => h'
      rintro _ s' ⟨hI, hf⟩
      exact ⟨hI, fun h' => absurd (hf.symm.trans h') (by simp)⟩
  | destroyWrapper =>
      simp only [Call.exec, wp_bind, wp_modify]
      refine wp_mono (wp_closeWriting hk h) ?_ fun _ => hexit
      rintro _ s' ⟨⟨⟨hI, g⟩, hclosing⟩, hw⟩
      exact ⟨⟨{ hI with unwrapped := fun _ => hclosing }, { g with }⟩,
        fun h' h'' => (hw h' h'').imp_right fun hc => ⟨rfl, hc⟩⟩

/-- Every call keeps the invariant. -/
theorem call_keeps (c : Call) : Keeps (Inv given) Grows (c.exec k) :=
  fun _ h => wp_mono (wp_call hk h c) (fun _ _ h' => h'.1) fun _ _ h' => h'.1

end functions

/-- Every reaction of a callback keeps the invariant, whatever it calls. -/
theorem prog_keeps (r : React) : Keeps (Inv given) Grows r.prog :=
  Reaction.keeps Grows.refl (fun _ _ _ => Grows.trans) (fun op _ _ hk => call_keeps hk op) r
    (Reaction.every_of_forall (fun _ _ => trivial) r)

/-! ### The outcomes of a send -/

section sent
variable {Q : Unit → ReaderWriter → Prop} {E : Exit → ReaderWriter → Prop} {cb : Status → React}
  {m : Bytes} {q : List Bytes}

/-- The object once the front message is off the queue. -/
abbrev popped (s : ReaderWriter) (m : Bytes) (q : List Bytes) (success : Bool) : ReaderWriter :=
  { s with msgQueue := q, sending := [], trace := s.trace ++ [.sent m success] }

/-- In error, nothing comes of a send but the assertion that `status_cb_` has been reset. -/
theorem wp_sent_inError (hf : s.sending = [m]) (hq : s.msgQueue = m :: q)
    (hs : s.status.ok = false) {success : Bool} :
    wp (Step.exec (.sent success cb)) Q E s ↔
      if s.statusCb then E .assertion (popped s m q success) else Q () (popped s m q success) := by
  simp only [Step.exec, onSent, wp_bind, wp_get, wp_modify, wp_emit, env_eq, setEnv_eq, wp_check,
    wp_ite]
  rw [hf, hq, if_pos (by simp), if_pos (by simp [hs])]
  by_cases hset : s.statusCb = true
  · rw [if_neg (by simp [hset]), if_pos hset]
    rfl
  · rw [if_pos (by simp [hset]), if_neg hset]
    rfl

/-- A send that failed. -/
theorem wp_sent_failure (hf : s.sending = [m]) (hq : s.msgQueue = m :: q)
    (hs : s.status.ok = true) :
    wp (Step.exec (.sent false cb)) Q E s ↔
      wp (setInternalError (fun st => (cb st).prog) (str "Failed to send message.")) Q E
        (popped s m q false) := by
  simp only [Step.exec, onSent, wp_bind, wp_get, wp_modify, wp_emit, env_eq, setEnv_eq, wp_check,
    wp_ite]
  rw [hf, hq, if_pos (by simp), if_neg (by simp [hs]), if_pos (by rfl)]
  rfl

/-- With more in the queue, the next message is started. -/
theorem wp_sent_next {m' : Bytes} (hf : s.sending = [m]) (hq : s.msgQueue = m :: m' :: q)
    (hs : s.status.ok = true) :
    wp (Step.exec (.sent true cb)) Q E s ↔
      wp (sendNext fun st => (cb st).prog) (fun _ => Q ()) E (popped s m (m' :: q) true) := by
  simp only [Step.exec, onSent, wp_bind, wp_get, wp_modify, wp_emit, env_eq, setEnv_eq, wp_check,
    wp_ite, wp_pure]
  rw [hf, hq, if_pos (by simp), if_neg (by simp [hs]), if_neg (by simp), if_pos (by rfl)]
  rfl

/-- With the queue empty, the writing waits for the next message. -/
theorem wp_sent_open (hf : s.sending = [m]) (hq : s.msgQueue = [m]) (hs : s.status.ok = true)
    (hw : s.writingClosing = false) :
    wp (Step.exec (.sent true cb)) Q E s ↔ Q () (popped s m [] true) := by
  simp only [Step.exec, onSent, wp_bind, wp_get, wp_modify, wp_emit, env_eq, setEnv_eq, wp_check,
    wp_ite, wp_pure]
  rw [hf, hq, if_pos (by simp), if_neg (by simp [hs]), if_neg (by simp), if_neg (by simp),
    if_pos (by simp [hw])]
  rfl

/-- With the queue empty, a writing that is closing is half-closed; where the reading has ended
too, this ends the call. -/
theorem wp_sent_close (hf : s.sending = [m]) (hq : s.msgQueue = [m]) (hs : s.status.ok = true)
    (hw : s.writingClosing = true) :
    wp (Step.exec (.sent true cb)) Q E s ↔
      wp (sendClose fun st => (cb st).prog)
        (fun _ s' => if s'.writingEnded then
          if s'.readingEnded then wp (callStatusCb fun st => (cb st).prog) Q E s' else Q () s'
          else E .assertion s') E (popped s m [] true) := by
  simp only [Step.exec, onSent, wp_bind, wp_get, wp_modify, wp_emit, env_eq, setEnv_eq, wp_check,
    wp_ite, wp_pure]
  rw [hf, hq, if_pos (by simp), if_neg (by simp [hs]), if_neg (by simp), if_neg (by simp),
    if_neg (by simp [hw])]
  rfl

end sent

/-! ### The outcomes of a read -/

section read
variable {Q : Unit → ReaderWriter → Prop} {E : Exit → ReaderWriter → Prop}
  {onMsg : Bytes → React} {cb : Status → React}

/-- The object when its read has completed. -/
abbrev readDone (s : ReaderWriter) : ReaderWriter := { s with reading := s.reading - 1 }

/-- A completed read that was never started fails the assertion. -/
theorem wp_read_unstarted (hstarted : s.readingStarted = false) {success : Bool}
    {tag : CodRecvMsg} :
    wp (Step.exec (.read success tag onMsg cb)) Q E s ↔ E .assertion (readDone s) := by
  simp only [Step.exec, onRead, wp_bind, wp_get, wp_modify, wp_check]
  rw [if_neg (by simp [hstarted])]

/-- In error, nothing comes of a read but the assertion that `status_cb_` has been reset. -/
theorem wp_read_inError (hstarted : s.readingStarted = true) (hs : s.status.ok = false)
    {success : Bool} {tag : CodRecvMsg} :
    wp (Step.exec (.read success tag onMsg cb)) Q E s ↔
      if s.statusCb then E .assertion (readDone s) else Q () (readDone s) := by
  simp only [Step.exec, onRead, wp_bind, wp_get, wp_modify, wp_check, wp_ite]
  rw [if_pos hstarted, if_pos (by simp [hs])]
  cases hset : s.statusCb <;> simp

/-- A read that failed. -/
theorem wp_read_failure (hstarted : s.readingStarted = true) (hs : s.status.ok = true)
    {tag : CodRecvMsg} :
    wp (Step.exec (.read false tag onMsg cb)) Q E s ↔
      wp (setInternalError (fun st => (cb st).prog) (str "ClientReaderReadCqTag failed.")) Q E
        (readDone s) := by
  simp only [Step.exec, onRead, wp_bind, wp_get, wp_modify, wp_check, wp_ite]
  rw [if_pos hstarted, if_neg (by simp [hs]), if_pos (by rfl)]

/-- The end of the stream. -/
theorem wp_read_end (hstarted : s.readingStarted = true) (hs : s.status.ok = true) :
    wp (Step.exec (.read true ⟨none⟩ onMsg cb)) Q E s ↔
      if s.writingEnded then
        wp (callStatusCb fun st => (cb st).prog) Q E { readDone s with readingEnded := true }
      else Q () { readDone s with readingEnded := true } := by
  simp only [Step.exec, onRead, wp_bind, wp_get, wp_modify, wp_check, wp_ite, wp_pure]
  rw [if_pos hstarted, if_neg (by simp [hs]), if_neg (by simp), if_pos (by rfl)]

/-- A buffer that cannot be read. -/
theorem wp_read_unreadable (hstarted : s.readingStarted = true) (hs : s.status.ok = true) :
    wp (Step.exec (.read true ⟨some ⟨none⟩⟩ onMsg cb)) Q E s ↔
      wp (endOnErrorStatus (fun st => (cb st).prog)
        (.internalError (str "Failed to read recv byte buffer."))) Q E (readDone s) := by
  simp only [Step.exec, onRead, wp_bind, wp_get, wp_modify, wp_check, wp_ite]
  rw [if_pos hstarted, if_neg (by simp [hs]), if_neg (by simp),
    if_neg (by simp [CodRecvMsg.hasGotMsg])]
  simp only [CodRecvMsg.getResultMsg, byteBufferToString, wp_pure]
  rw [if_pos (by rfl)]

/-- A message, and what `msg_cb_` answers. -/
theorem wp_read_message (hstarted : s.readingStarted = true) (hs : s.status.ok = true)
    {bytes : Bytes} :
    wp (Step.exec (.read true ⟨some ⟨some bytes⟩⟩ onMsg cb)) Q E s ↔
      if s.msgCb then
        wp (onMsg bytes).prog
          (fun status s' => wp (if !status.ok then endOnErrorStatus (fun st => (cb st).prog) status
            else readNext fun st => (cb st).prog) Q E s')
          E { readDone s with trace := s.trace ++ [.called (.msgCb bytes)] }
      else wp (readNext fun st => (cb st).prog) Q E (readDone s) := by
  simp only [Step.exec, onRead, wp_bind, wp_get, wp_modify, wp_check, wp_ite]
  rw [if_pos hstarted, if_neg (by simp [hs]), if_neg (by simp),
    if_neg (by simp [CodRecvMsg.hasGotMsg])]
  simp only [CodRecvMsg.getResultMsg, byteBufferToString, wp_pure, wp_emit, env_eq, setEnv_eq]
  rw [if_neg (by simp)]

end read
end GrpcLua.ReaderWriter
