import GrpcLua.Client.Writer.Invariant

/-!
# Client — Writer — Functions

One specification for each function of the object: from a state in the invariant, or from one
where only the owed callback is missing, it ends in the invariant.  Whoever finds an error with
nothing left in flight hands it on (`wp_tryToCallCloseCb`), and a writer that has nothing left to
send submits the close batch (`wp_sendClose`).
-/

namespace GrpcLua.Writer
open Prog Trace

variable {final : Status} {s : Writer}

/-! ### Small moves -/

theorem Base.not_closed (h : Base final s) (hc : ¬ s.isClosing = true) :
    s.hasSentClose = false ∧ closes s.trace = [] := by
  constructor
  · by_contra hs
    rw [Bool.not_eq_false] at hs
    exact hc (h.close_closing hs)
  · by_contra hs
    exact hc (h.closing_closes.mpr hs)

/-- An open writer owes no callback. -/
theorem Base.inv_of_open (h : Base final s) (hc : ¬ s.isClosing = true) : Inv final s := by
  refine { h with sent_close := fun _ h' => absurd h' hc, owed := fun hg _ => ?_ }
  rw [(h.not_closed hc).2] at hg
  exact absurd hg (by simp)

theorem Base.closing_zero (h : Base final s) (hc : s.hasSentClose = false) : s.closing = 0 := by
  by_contra hz
  exact absurd (hc.symm.trans (h.closing_close (Nat.pos_of_ne_zero hz))) (by simp)

/-- With the queue empty nothing is in flight. -/
theorem Base.sending_nil (h : Base final s) (hq : s.msgQueue = []) : s.sending = [] := by
  rcases h.queue.flying_cases with hf | ⟨m, q, -, hq'⟩
  · exact hf
  · exact absurd (hq.symm.trans hq') (by simp)

/-- A writer without error whose close batch is not done has told nothing. -/
theorem Base.untold (h : Base final s) (hs : s.status.ok = true)
    (hc : s.hasSentClose = false ∨ 0 < s.closing) : told s.trace = [] := by
  by_contra ht
  obtain ⟨-, hf | ⟨hsent, hzero⟩⟩ := h.told_done ht
  · exact absurd (hf.symm.trans hs) (by simp)
  · rcases hc with hc | hc
    · exact absurd (hc.symm.trans hsent) (by simp)
    · omega

/-- Messages come and go before the close batch: of the object, only the queue and the status
change. -/
theorem Base.requeued (h : Base final s) (hclose : s.hasSentClose = false) {status : Status}
    {queue sending : List Bytes} {tr : List (Event Cb)}
    (hst : status.ok = true → s.status.ok = true)
    (hqueue : SendQueue status.ok queue sending false tr)
    (hbusy : status.ok = true → queue ≠ [] → sending ≠ [])
    (hflight : sending ≠ [] → status.ok = true) (hclean : clean tr = status.ok)
    (hcl : closes tr = closes s.trace) (htold : told tr = told s.trace)
    (ha : Whenever Accepts tr) (hf : Whenever (Fair final) tr) (starts : List Bool) :
    Base final { s with
      status := status, msgQueue := queue, sending := sending, starts := starts, trace := tr } :=
  { h with
    queue := by rw [hclose]; exact hqueue
    busy := hbusy
    clean_ok := fun h' => hclean.trans h'
    dirty := fun h' _ => hclean.trans h'
    flight_ok := fun h' => h'.elim hflight fun h'' =>
      absurd (h.closing_zero hclose) (Nat.ne_of_gt h'')
    closing_closes := by rw [hcl]; exact h.closing_closes
    first := by rw [hcl]; exact h.first
    pending := by rw [hcl, htold]; exact h.pending
    accepts := ha
    fair := hf
    one_told := by rw [htold]; exact h.one_told
    told_done := fun h' => by
      obtain ⟨hc, hd⟩ := h.told_done (by rwa [htold] at h')
      refine ⟨hc, .inl ?_⟩
      rcases hd with hd | ⟨hd, -⟩
      · by_contra hok
        exact absurd (hd.symm.trans (hst (by simpa using hok))) (by simp)
      · exact absurd (hclose.symm.trans hd) (by simp) }

/-! ### The callback -/

/-- What `CallCloseCb()` may hand on: the result of the call, or an error. -/
def Due (final : Status) (s : Writer) (msg : Bytes) : Prop :=
  (clean s.trace = false → s.status.ok = false) ∧
  (clean s.trace = true → ∃ tag, .called (.closed tag) ∈ s.trace ∧ Result final tag s.status msg)

/-- The callback, if it was given, has been told `r`. -/
def Tells (s : Writer) (r : Status × Bytes) (s' : Writer) : Prop :=
  (closes s.trace).head? = some true → told s'.trace = [r]

/-- With nothing in flight, the callback is invoked if it is owed. -/
theorem wp_callCloseCb_tells {cb : Status → React} (h : Base final s) (hc : s.isClosing = true)
    (hclosing : s.closing = 0) (hdone : s.status.ok = false ∨ s.hasSentClose = true)
    (hnone : told s.trace = []) {sMsg : Bytes} (hdue : Due final s sMsg) :
    wp (callCloseCb (fun st => (cb st).prog) sMsg)
      (fun _ s' => Inv final s' ∧ Tells s (s.status, sMsg) s')
      (fun e s' => Raised final e s' ∧ Tells s (s.status, sMsg) s') s := by
  have hsent : s.status.ok = true → s.isClosing = true → s.msgQueue = [] →
      s.hasSentClose = true := by
    intro hs _ _
    exact hdone.resolve_left (by simp [hs])
  simp only [callCloseCb, wp_bind, wp_get]
  cases hcb : s.closeCb with
  | none =>
      -- Without a callback, none was given, and there is nobody to tell.
      have howed : (closes s.trace).head? = some true → False := fun hg =>
        absurd (hcb.symm.trans (h.pending hg hnone)) (by simp)
      exact ⟨{ h with sent_close := hsent, owed := fun hg _ => (howed hg).elim },
        fun hg => (howed hg).elim⟩
  | some n =>
      -- The callback is taken out before it is called, so it is told once.
      obtain ⟨rfl, hgiven⟩ := h.first n hcb
      have htold : told (s.trace ++ [.called (.closeCb 0 s.status sMsg)]) =
          [(s.status, sMsg)] := by
        rw [told_append, hnone]
        rfl
      have hI : Telling final (s.status, sMsg)
          { s with trace := s.trace ++ [.called (.closeCb 0 s.status sMsg)] } := by
        refine ⟨{ h with
          queue := h.queue.other rfl rfl rfl rfl trivial
          clean_ok := by simpa [clean] using h.clean_ok
          dirty := by simpa [clean] using h.dirty
          closing_closes := by simpa [closes] using h.closing_closes
          first := by simpa [closes] using h.first
          pending := fun _ ht => absurd (htold.symm.trans ht) (by simp)
          accepts := (whenever_concat _).mpr ⟨h.accepts, trivial⟩
          fair := (whenever_concat _).mpr ⟨h.fair, ⟨rfl, hgiven, hnone⟩, hdue⟩
          one_told := by rw [htold]; exact Nat.le_refl 1
          told_done := fun _ => ⟨hc, hdone.imp_right fun hd => ⟨hd, hclosing⟩⟩
          sent_close := hsent
          owed := fun _ ht => absurd (htold.symm.trans ht) (by simp) }, hc, htold⟩
      simp only [wp_bind, wp_emit, env_eq, setEnv_eq, wp_modify]
      refine wp_mono (prog_telling (cb s.status) hI) (fun _ s₁ h₁ => ⟨?_, fun _ => h₁.told⟩)
        fun _ _ h₁ => ⟨⟨h₁.1, h₁.2.inv⟩, fun _ => h₁.2.told⟩
      exact
        { h₁.inv with
          first := fun n hn => absurd hn (by simp)
          pending := fun _ ht => absurd (h₁.told.symm.trans ht) (by simp) }

theorem wp_callCloseCb {cb : Status → React} (h : Base final s) (hc : s.isClosing = true)
    (hclosing : s.closing = 0) (hdone : s.status.ok = false ∨ s.hasSentClose = true)
    (hnone : told s.trace = []) {sMsg : Bytes} (hdue : Due final s sMsg) :
    wp (callCloseCb (fun st => (cb st).prog) sMsg) (fun _ => Inv final) (Raised final) s :=
  wp_mono (wp_callCloseCb_tells h hc hclosing hdone hnone hdue) (fun _ _ h' => h'.1)
    fun _ _ h' => h'.1

/-- Before the close batch, an error is due as it is. -/
theorem Base.due (h : Base final s) (hs : s.status.ok = false) (hclose : s.hasSentClose = false)
    (msg : Bytes) : Due final s msg :=
  ⟨fun _ => hs, fun hc => absurd ((h.dirty hs hclose).symm.trans hc) (by simp)⟩

/-- An error before the close batch is handed on if the object is closing, and waits otherwise. -/
theorem wp_tryToCallCloseCb {cb : Status → React} (h : Base final s) (hs : s.status.ok = false)
    (hclose : s.hasSentClose = false) (hnone : told s.trace = []) :
    wp (tryToCallCloseCb fun st => (cb st).prog) (fun _ => Inv final) (Raised final) s := by
  simp only [tryToCallCloseCb, wp_bind, wp_check, wp_get, wp_ite, wp_pure]
  rw [if_pos (by simp [hs])]
  split
  case isTrue hc =>
    exact wp_callCloseCb h hc (h.closing_zero hclose) (.inl hs) hnone (h.due hs hclose _)
  case isFalse hc => exact h.inv_of_open hc

/-! ### The private functions -/

/-- The object after `StartBatch` answered `started` to `b`. -/
abbrev submitted (s : Writer) (b : Batch) (started : Bool) : Writer :=
  { s with starts := s.starts.tail, trace := s.trace ++ [.batch b started] }

theorem wp_submit {Q : Bool → Writer → Prop} {E : Exit → Writer → Prop} (b : Batch) :
    wp (startBatch b) Q E s ↔ Q (s.starts.headD true) (submitted s b (s.starts.headD true)) :=
  Iff.rfl

/-- The object after `SendNext()` has started a batch for the front message. -/
abbrev sentNext (s : Writer) : Writer :=
  { submitted s [.sendMsg (s.msgQueue.headD [])] true with
    sending := s.sending ++ [s.msgQueue.headD []] }

/-- `SendNext()` starts the front message, or fails. -/
theorem wp_sendNext {cb : Status → React} (hs : s.status.ok = true) (hq : s.msgQueue ≠ [])
    (hclose : s.hasSentClose = false) (hnone : told s.trace = [])
    (h : Base final { submitted s [.sendMsg (s.msgQueue.headD [])] false with
      status := .internalError (str "Failed to write client-side streaming.") }) :
    wp (sendNext fun st => (cb st).prog)
      (fun r s' => if r then s' = sentNext s else Inv final s') (Raised final) s := by
  simp only [sendNext, wp_bind, wp_check, wp_get, wp_submit, wp_ite, wp_modify, wp_pure]
  rw [if_pos (by simpa using hq), if_pos hs]
  cases hstart : s.starts.headD true with
  | true => rfl
  | false =>
      refine wp_mono (wp_tryToCallCloseCb h rfl hclose ?_) (fun _ _ h' => h') fun _ _ h' => h'
      simpa [told] using hnone

/-- `SendClose()` submits the close batch of a writer with nothing left to send. -/
theorem wp_sendClose {cb : Status → React} (h : Base final s) (hs : s.status.ok = true)
    (hc : s.isClosing = true) (hclose : s.hasSentClose = false) (hq : s.msgQueue = []) :
    wp (sendClose fun st => (cb st).prog) (fun _ => Inv final) (Raised final) s := by
  have hsend := h.sending_nil hq
  have hnone := h.untold hs (.inl hclose)
  have hzero := h.closing_zero hclose
  have hqueue := h.queue
  rw [hs, hq, hsend, hclose] at hqueue
  have hclosed : ∀ started, SendQueue true [] [] true
      (s.trace ++ [.batch [.clientSendClose, .recvInitMd, .recvMsg, .clientRecvStatus] started]) :=
    fun started => hqueue.close rfl rfl started
  simp only [sendClose, wp_bind, wp_check, wp_modify, wp_submit, wp_ite]
  rw [if_pos hc, if_pos (by simp [hclose]), if_pos hs]
  cases hstart : s.starts.headD true with
  | true =>
      -- The batch closes the call, and its completion is what there is to wait for.
      exact
        { h with
          queue := by rw [hs, hq, hsend]; exact hclosed true
          clean_ok := by simpa [clean] using h.clean_ok
          dirty := fun h' => absurd (h'.symm.trans hs) (by simp)
          flight_ok := fun _ => hs
          closing_closes := by simpa [closes] using h.closing_closes
          close_closing := fun _ => hc
          one_closing := by simp [hzero]
          closing_close := fun _ => rfl
          first := by simpa [closes] using h.first
          pending := by simpa [closes, told] using h.pending
          accepts := (whenever_concat _).mpr ⟨h.accepts, trivial⟩
          fair := (whenever_concat _).mpr ⟨h.fair, trivial⟩
          one_told := by rw [told_append, hnone]; exact Nat.zero_le 1
          told_done := fun h' => absurd hnone (by simpa [told] using h')
          sent_close := fun _ _ _ => rfl
          owed := fun _ _ => ⟨hs, .inr (Nat.succ_pos _)⟩ }
  | false =>
      -- The batch is refused, so that the callback is told at once.
      refine wp_callCloseCb (s := { submitted s _ false with
        hasSentClose := true, status := .internalError _ }) ?_ hc hzero (.inl rfl) ?_ ?_
      · exact
          { h with
            queue := by rw [hq, hsend]; exact (hclosed false).fail
            busy := fun h' => absurd h' (by simp)
            clean_ok := fun h' => absurd h' (by simp)
            dirty := fun _ => by simp [clean]
            flight_ok := fun h' => by simp [hsend, hzero] at h'
            closing_closes := by simpa [closes] using h.closing_closes
            close_closing := fun _ => hc
            closing_close := fun _ => rfl
            first := by simpa [closes] using h.first
            pending := by simpa [closes, told] using h.pending
            accepts := (whenever_concat _).mpr ⟨h.accepts, trivial⟩
            fair := (whenever_concat _).mpr ⟨h.fair, trivial⟩
            one_told := by rw [told_append, hnone]; exact Nat.zero_le 1
            told_done := fun h' => absurd hnone (by simpa [told] using h') }
      · simpa [told] using hnone
      · exact ⟨fun _ => rfl, fun h' => absurd h' (by simp [clean])⟩

end GrpcLua.Writer
