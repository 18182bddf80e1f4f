import GrpcLua.Client.Writer.Functions

/-!
# Client — Writer — Closing

`ClientAsyncWriterImpl` over every run: its messages are sent in order, the close batch comes last,
and the callback of the first `Close` is invoked once, with the result of the call, while no other
callback ever is.
-/

namespace GrpcLua.Writer
open Prog Trace

variable {final : Status} {s : Writer}

/-! ### The public functions -/

/-- `Write` has refused the message of an idle or failed writer. -/
theorem Inv.refused (h : Inv final s) (msg : Bytes) :
    Inv final { s with trace := s.trace ++ [.wrote msg false] } :=
  { h with
    queue := h.queue.other rfl rfl rfl rfl trivial
    clean_ok := by simpa [clean] using h.clean_ok
    dirty := by simpa [clean] using h.dirty
    closing_closes := by simpa [closes] using h.closing_closes
    first := by simpa [closes] using h.first
    pending := by simpa [closes, told] using h.pending
    accepts := (whenever_concat _).mpr ⟨h.accepts, trivial⟩
    fair := (whenever_concat _).mpr ⟨h.fair, trivial⟩
    one_told := by simpa [told] using h.one_told
    told_done := by simpa [told] using h.told_done
    owed := by simpa [closes, told] using h.owed }

/-- `Write(request)`: an accepted message is started or waits behind the one in flight. -/
theorem wp_write {cb : Status → React} (h : Inv final s) (request : Bytes) :
    wp (Call.exec (.write request) fun st => (cb st).prog) (fun _ => Inv final)
      (Raised final) s := by
  simp only [Call.exec, Writer.write, wp_bind, wp_get, wp_ite, wp_pure, wp_modify, wp_emit, env_eq,
    setEnv_eq]
  by_cases hs : s.status.ok = true
  case neg =>
    rw [if_pos (by simp [hs])]
    exact h.refused request
  rw [if_neg (by simp [hs])]
  by_cases hc : s.isClosing = true
  · rw [if_pos hc]
    exact h.refused request
  rw [if_neg hc]
  obtain ⟨hclose, hcloses⟩ := h.not_closed hc
  have hnone := h.untold hs (.inl hclose)
  have hclean := h.clean_ok hs
  have haccepts : Accepts s.trace (.wrote request true) := ⟨hcloses, hclean⟩
  have hqueue := h.queue
  rw [hs, hclose] at hqueue
  by_cases hq : s.msgQueue = []
  · -- Nothing is in flight: the message is handed to gRPC at once.
    have hsend := h.sending_nil hq
    rw [hq, hsend] at hqueue
    rw [if_neg (by simp [hq])]
    refine wp_mono (wp_sendNext hs (by simp) hclose hnone ?_) ?_ fun _ _ h' => h'
    · refine h.requeued hclose ?_ ?_ ?_ ?_ ?_ ?_ ?_ ?_ ?_ _
      · exact fun _ => hs
      · rw [hsend]
        have hopen : closed s.trace = false := h.queue.trace_closed.trans hclose
        exact (hqueue.fail_queue _).other rfl rfl rfl rfl
          ⟨fun h' => absurd h' (by simp [Batch.closes]), fun _ => hopen⟩
      · exact fun h' => absurd h' (by simp)
      · exact fun h' => absurd hsend h'
      · simp [clean]
      · simp [closes]
      · simp [told]
      · exact (whenever_concat _).mpr ⟨h.accepts, trivial⟩
      · exact (whenever_concat _).mpr ⟨h.fair, trivial⟩
    · rintro (_ | _) s' h'
      · exact Inv.refused h' request
      · obtain rfl := h'
        refine (h.requeued hclose ?_ ?_ ?_ ?_ ?_ ?_ ?_ ?_ ?_ _).inv_of_open hc
        · exact fun _ => hs
        · rw [hs, hq, hsend]
          exact hqueue.push_start rfl rfl
        · exact fun _ _ => by simp
        · exact fun _ => hs
        · simpa [clean, hs] using hclean
        · simp [closes]
        · simp [told]
        · refine (whenever_concat _).mpr ⟨(whenever_concat _).mpr ⟨h.accepts, trivial⟩, ?_⟩
          exact ⟨by simpa [closes] using hcloses, by simpa [clean] using hclean⟩
        · exact (whenever_concat _).mpr ⟨(whenever_concat _).mpr ⟨h.fair, trivial⟩, trivial⟩
  · -- It waits behind the message in flight.
    rw [if_pos (by simpa using hq)]
    refine (h.requeued hclose ?_ ?_ ?_ ?_ ?_ ?_ ?_ ?_ ?_ _).inv_of_open hc
    · exact fun _ => hs
    · rw [hs]
      exact hqueue.push hq
    · exact fun _ _ => h.busy hs hq
    · exact fun _ => hs
    · simpa [clean, hs] using hclean
    · simp [closes]
    · simp [told]
    · exact (whenever_concat _).mpr ⟨h.accepts, haccepts⟩
    · exact (whenever_concat _).mpr ⟨h.fair, trivial⟩

/-- The first `Close` keeps its callback. -/
theorem Base.close (h : Base final s) (hc : ¬ s.isClosing = true) (given : Bool) :
    Base final { s with
      trace := s.trace ++ [.called (.close given)]
      isClosing := true
      closeCb := if given then some (closes s.trace).length else none } := by
  obtain ⟨-, hcl⟩ := h.not_closed hc
  have hnone : told s.trace = [] := by
    by_contra ht
    exact hc (h.told_done ht).1
  refine
    { h with
      queue := h.queue.other rfl rfl rfl rfl trivial
      clean_ok := by simpa [clean] using h.clean_ok
      dirty := by simpa [clean] using h.dirty
      closing_closes := ⟨fun _ => by simp [closes], fun _ => rfl⟩
      close_closing := fun _ => rfl
      first := ?_
      pending := ?_
      accepts := (whenever_concat _).mpr ⟨h.accepts, trivial⟩
      fair := (whenever_concat _).mpr ⟨h.fair, trivial⟩
      one_told := by rw [told_append, hnone]; exact Nat.zero_le 1
      told_done := fun h' => absurd hnone (by simpa [told] using h') }
  · rw [closes_append, hcl]
    cases given <;> simp [closes]
  · rw [closes_append, hcl]
    cases given <;> simp [closes]

theorem wp_close {cb : Status → React} (h : Inv final s) (given : Bool) :
    wp (Call.exec (.close given) fun st => (cb st).prog) (fun _ => Inv final)
      (Raised final) s := by
  simp only [Call.exec, Writer.close, wp_bind, wp_get, wp_ite, wp_pure, wp_modify, wp_emit, env_eq,
    setEnv_eq]
  by_cases hc : s.isClosing = true
  · rw [if_pos hc]
    exact h.idle hc (.inr ⟨given, rfl⟩)
  rw [if_neg hc]
  obtain ⟨hclose, -⟩ := h.not_closed hc
  have h₁ := h.toBase.close hc given
  by_cases hs : s.status.ok = true
  · rw [if_neg (by simp [hs])]
    by_cases hq : s.msgQueue = []
    · rw [if_pos (by simp [hq])]
      exact wp_sendClose h₁ hs rfl hclose hq
    · rw [if_neg (by simpa using hq)]
      exact { h₁ with
        sent_close := fun _ _ h' => absurd h' hq
        owed := fun _ _ => ⟨hs, .inl (h.busy hs hq)⟩ }
  · rw [Bool.not_eq_true] at hs
    rw [if_pos (by simp [hs])]
    refine wp_callCloseCb h₁ rfl (h.closing_zero hclose) (.inl hs) ?_ (h₁.due hs hclose [])
    by_contra ht
    exact hc (h.told_done (by simpa [told] using ht)).1

/-! ### The completions -/

section sent
variable {cb : Status → React} {m : Bytes} {q : List Bytes}

/-- The object once the front message is off the queue. -/
abbrev popped (s : Writer) (m : Bytes) (q : List Bytes) (success : Bool) : Writer :=
  { s with msgQueue := q, sending := [], trace := s.trace ++ [.sent m success] }

/-- The events that the invariant speaks of stay in order when a message completes. -/
theorem Inv.sent_ordered (h : Inv final s) (m : Bytes) (success : Bool) :
    Whenever Accepts (s.trace ++ [.sent m success]) ∧
      Whenever (Fair final) (s.trace ++ [.sent m success]) :=
  ⟨(whenever_concat _).mpr ⟨h.accepts, trivial⟩, (whenever_concat _).mpr ⟨h.fair, trivial⟩⟩

/-- After a failed send nothing is sent any more, and a `Close` that waited is told at once. -/
theorem wp_failed_send (h : Inv final s) (hf : s.sending = [m]) (hq : s.msgQueue = m :: q) :
    wp (tryToCallCloseCb fun st => (cb st).prog) (fun _ => Inv final) (Raised final)
      { popped s m q false with status := .internalError (str "Failed to send message.") } := by
  have hsend : s.sending ≠ [] := by simp [hf]
  have hs := h.flight_ok (.inl hsend)
  have hclose : s.hasSentClose = false := h.queue.open_of_flying hsend
  have hnone := h.untold hs (.inl hclose)
  obtain ⟨haccepts, hfair⟩ := h.sent_ordered m false
  have hqueue := h.queue
  rw [hf, hq, hs, hclose] at hqueue
  refine wp_tryToCallCloseCb
    (h.requeued hclose (fun _ => hs) ?_ ?_ ?_ ?_ ?_ ?_ haccepts hfair _) rfl hclose
    (by simpa [told] using hnone)
  · exact hqueue.complete_fail q
  · exact fun h' => absurd h' (by simp)
  · exact fun h' => absurd rfl h'
  · simp [clean]
  · simp [closes]
  · simp [told]

/-- The message behind the one that was sent is started. -/
theorem wp_next_send (h : Inv final s) (hf : s.sending = [m]) {m' : Bytes}
    (hq : s.msgQueue = m :: m' :: q) :
    wp (sendNext fun st => (cb st).prog) (fun _ => Inv final) (Raised final)
      (popped s m (m' :: q) true) := by
  have hsend : s.sending ≠ [] := by simp [hf]
  have hs := h.flight_ok (.inl hsend)
  have hclose : s.hasSentClose = false := h.queue.open_of_flying hsend
  have hnone := h.untold hs (.inl hclose)
  have hclean := h.clean_ok hs
  obtain ⟨haccepts, hfair⟩ := h.sent_ordered m true
  have hdone := h.queue
  rw [hf, hq, hs, hclose] at hdone
  replace hdone := hdone.complete
  refine wp_mono (wp_sendNext hs (by simp) hclose (by simpa [told] using hnone) ?_) ?_
    fun _ _ h' => h'
  · refine h.requeued hclose (fun _ => hs) ?_ ?_ ?_ ?_ ?_ ?_ ?_ ?_ _
    · exact hdone.fail.other rfl rfl rfl rfl
        ⟨fun h' => absurd h' (by simp [Batch.closes]), fun _ => hdone.trace_closed⟩
    · exact fun h' => absurd h' (by simp)
    · exact fun h' => absurd rfl h'
    · simp [clean]
    · simp [closes]
    · simp [told]
    · exact (whenever_concat _).mpr ⟨haccepts, trivial⟩
    · exact (whenever_concat _).mpr ⟨hfair, trivial⟩
  · rintro (_ | _) s' h'
    · exact h'
    · obtain rfl := h'
      refine
        { h.requeued hclose (fun _ => hs) ?_ ?_ ?_ ?_ ?_ ?_ ?_ ?_ _ with
          sent_close := fun _ _ h'' => absurd h'' (by simp)
          owed := fun _ _ => ⟨hs, .inl (by simp)⟩ }
      · rw [hs]
        exact hdone.start rfl rfl
      · exact fun _ _ => by simp
      · exact fun _ => hs
      · simpa [clean, hs] using hclean
      · simp [closes]
      · simp [told]
      · exact (whenever_concat _).mpr ⟨haccepts, trivial⟩
      · exact (whenever_concat _).mpr ⟨hfair, trivial⟩

/-- The last message is sent, and nothing is in flight. -/
theorem Inv.last_sent (h : Inv final s) (hf : s.sending = [m]) (hq : s.msgQueue = [m]) :
    Base final (popped s m [] true) := by
  have hsend : s.sending ≠ [] := by simp [hf]
  have hs := h.flight_ok (.inl hsend)
  have hclose : s.hasSentClose = false := h.queue.open_of_flying hsend
  have hclean := h.clean_ok hs
  obtain ⟨haccepts, hfair⟩ := h.sent_ordered m true
  have hqueue := h.queue
  rw [hf, hq, hs, hclose] at hqueue
  refine h.requeued hclose id ?_ ?_ ?_ ?_ ?_ ?_ haccepts hfair s.starts
  · rw [hs]
    exact hqueue.complete
  · exact fun _ h' => absurd rfl h'
  · exact fun h' => absurd rfl h'
  · simpa [clean, hs] using hclean
  · simp [closes]
  · simp [told]

/-- The send in flight completes: the next message is started, or the call is closed. -/
theorem wp_sent (h : Inv final s) (hsend : s.sending ≠ []) (success : Bool) :
    wp (Step.exec (.sent success cb)) (fun _ => Inv final) (Raised final) s := by
  obtain ⟨m, q, hf, hq⟩ := h.queue.flying_cases.resolve_left hsend
  have hs := h.flight_ok (.inl hsend)
  have hclose : s.hasSentClose = false := h.queue.open_of_flying hsend
  simp only [Step.exec, onSent, wp_bind, wp_get, wp_modify, wp_emit, env_eq, setEnv_eq, wp_check,
    wp_ite, wp_pure]
  rw [hf, hq, if_pos (by simp), if_neg (by simp [hs])]
  cases success with
  | false =>
      rw [if_pos (by simp)]
      exact wp_failed_send h hf hq
  | true =>
      rw [if_neg (by simp)]
      cases q with
      | cons m' q =>
          rw [if_pos (show (!(m :: m' :: q).tail.isEmpty) = true from rfl)]
          exact wp_next_send h hf hq
      | nil =>
          -- A `Close` that waited for the last message goes on.
          rw [if_neg (show ¬ (!(List.tail [m]).isEmpty) = true by simp)]
          split
          case isTrue hc => exact wp_sendClose (h.last_sent hf hq) hs hc hclose rfl
          case isFalse hc => exact (h.last_sent hf hq).inv_of_open hc

end sent

/-- The close batch has completed: its result was handed on, if anybody asked for it. -/
def Closed (tag : CodRecvMsg) (s s' : Writer) : Prop :=
  (closes s.trace).head? = some true →
    ∃ st msg, told s'.trace = [(st, msg)] ∧ Result s.final tag st msg

/-- The close batch completes, with a message if the final status is OK. -/
theorem wp_closed {cb : Status → React} (h : Inv s.final s) (hclosing : 0 < s.closing)
    (success : Bool) (tag : CodRecvMsg) (htag : s.final.ok = true → tag.hasGotMsg = true) :
    wp (Step.exec (.closed success tag cb)) (fun _ s' => Inv s.final s' ∧ Closed tag s s')
      (fun e s' => Raised s.final e s' ∧ Closed tag s s') s := by
  have hs := h.flight_ok (.inr hclosing)
  have hclose := h.closing_close hclosing
  have hc := h.close_closing hclose
  have hnone := h.untold hs (.inr hclosing)
  have hclean := h.clean_ok hs
  have hzero : s.closing - 1 = 0 := by
    have := h.one_closing
    omega
  have hqueue := h.queue
  rw [hs, hclose] at hqueue
  have hsend := hqueue.flying_of_closing
  -- Whatever the result is, the object is left without a tag in flight.
  have hresult : ∀ (st : Status) (msg : Bytes), Result s.final tag st msg →
      wp (callCloseCb (fun st => (cb st).prog) msg) (fun _ s' => Inv s.final s' ∧ Closed tag s s')
        (fun e s' => Raised s.final e s' ∧ Closed tag s s')
        { s with
          status := st, closing := s.closing - 1
          trace := s.trace ++ [.called (.closed tag)] } := by
    intro st msg hr
    have htells : ∀ s', Tells { s with
        status := st, closing := s.closing - 1, trace := s.trace ++ [.called (.closed tag)] }
        (st, msg) s' → Closed tag s s' := by
      intro s' ht hg
      exact ⟨st, msg, ht (by simpa [closes] using hg), hr⟩
    refine wp_mono (wp_callCloseCb_tells (s := { s with
      status := st, closing := s.closing - 1, trace := s.trace ++ [.called (.closed tag)] })
      ?_ hc hzero (.inr hclose) (by simpa [told] using hnone) ⟨?_, ?_⟩)
      (fun _ s' h' => ⟨h'.1, htells s' h'.2⟩) fun _ s' h' => ⟨h'.1, htells s' h'.2⟩
    · exact
        { h with
          queue := by
            rw [hqueue.queue_of_closing, hsend, hclose]
            rw [hqueue.queue_of_closing, hsend] at hqueue
            have hother := hqueue.other (e := .called (.closed tag)) rfl rfl rfl rfl trivial
            cases hst : st.ok with
            | true => exact hother
            | false => exact hother.fail
          busy := fun _ h' => absurd hqueue.queue_of_closing h'
          clean_ok := fun _ => by simpa [clean] using hclean
          dirty := fun _ h' => absurd (h'.symm.trans hclose) (by simp)
          flight_ok := fun h' => by simp [hsend, hzero] at h'
          closing_closes := by simpa [closes] using h.closing_closes
          one_closing := Nat.le_trans (Nat.le_of_eq hzero) (Nat.zero_le 1)
          closing_close := fun _ => hclose
          first := by simpa [closes] using h.first
          pending := by simpa [closes, told] using h.pending
          accepts := (whenever_concat _).mpr ⟨h.accepts, trivial⟩
          fair := (whenever_concat _).mpr ⟨h.fair, trivial⟩
          one_told := by rw [told_append, hnone]; exact Nat.zero_le 1
          told_done := fun h' => absurd hnone (by simpa [told] using h') }
    · exact fun h' => absurd (h'.symm.trans (show _ = true by simpa [clean] using hclean)) (by simp)
    · exact fun _ => ⟨tag, by simp, hr⟩
  simp only [Step.exec, onClosed, wp_bind, wp_get, wp_modify, wp_emit, env_eq, setEnv_eq, wp_check,
    wp_ite]
  rw [if_neg (by simp [hs])]
  by_cases hf : s.final.ok = true
  · rw [if_neg (by simpa [recvStatus, CodClientRecvStatus.isStatusOk, Status.ok] using hf)]
    obtain ⟨_ | ⟨_ | bytes⟩⟩ := tag
    · exact absurd (htag hf) (by decide)
    · simp only [CodRecvMsg.getResultMsg, byteBufferToString, wp_pure]
      exact hresult (.internalError (str "Failed to read recv byte buffer.")) []
        (by simp [Result, hf, byteBufferToString])
    · simp only [CodRecvMsg.getResultMsg, byteBufferToString, wp_pure]
      exact hresult .OK bytes (by simp [Result, hf, byteBufferToString])
  · rw [if_pos (by simpa [recvStatus, CodClientRecvStatus.isStatusOk, Status.ok] using hf)]
    exact hresult s.final [] (by simp [Result, hf])

/-! ### Runs -/

theorem step_keeps (h : Inv final s) (l : Step) (hl : Step.Enabled s l)
    (ha : Step.Answered s.final l) : wp l.exec (fun _ => Inv final) (Raised final) s := by
  cases l with
  | call c cb =>
      cases c with
      | write request => exact wp_write h request
      | close given => exact wp_close h given
  | sent success cb => exact wp_sent h hl success
  | closed success tag cb =>
      obtain rfl := h.ends
      exact wp_mono (wp_closed h hl success tag ha.2) (fun _ _ h' => h'.1) fun _ _ h' => h'.1

/-- The object before its constructor has run. -/
theorem Base.empty (starts : List Bool) (final : Status) : Base final (empty starts final) where
  ends := rfl
  queue := .nil
  busy := fun _ h => absurd rfl h
  clean_ok := fun _ => rfl
  dirty := fun h => absurd h (by simp [Writer.empty])
  flight_ok := fun _ => rfl
  closing_closes := by simp [Writer.empty, closes]
  close_closing := fun h => absurd h (by simp [Writer.empty])
  one_closing := Nat.zero_le 1
  closing_close := fun h => absurd h (by simp [Writer.empty])
  first := fun _ h => absurd h (by simp [Writer.empty])
  pending := fun h => absurd h (by simp [Writer.empty, closes])
  accepts := whenever_nil
  fair := whenever_nil
  one_told := Nat.zero_le 1
  told_done := fun h => absurd rfl h

theorem Inv.new (starts : List Bool) (final : Status) : Inv final (new starts final) := by
  have h := Base.empty starts final
  have hqueue : ∀ started, SendQueue started [] [] false
      ([.batch [.sendInitMd] started] : List (Event Cb)) := by
    intro started
    have hother := h.queue.other (e := .batch [.sendInitMd] started) rfl
      (handed_batch (.inr rfl)) rfl rfl ⟨fun h' => absurd h' (by decide), fun _ => rfl⟩
    cases started with
    | true => exact hother
    | false => exact hother.fail
  have hnew : ∀ (started : Bool) (status : Status), status.ok = started →
      Inv final { Writer.empty starts final with
        status := status, starts := starts.tail, trace := [.batch [.sendInitMd] started] } := by
    intro started status hst
    refine (h.requeued rfl (fun _ => rfl) ?_ ?_ ?_ ?_ ?_ ?_ ?_ ?_ _).inv_of_open
      (show ¬ false = true by simp)
    · rw [hst]
      exact hqueue started
    · exact fun _ h' => absurd rfl h'
    · exact fun h' => absurd rfl h'
    · simp [clean, hst]
    · rfl
    · rfl
    · exact (whenever_singleton _).mpr trivial
    · exact (whenever_singleton _).mpr trivial
  refine endState_of_wp (P := Inv final) ?_
  simp only [construct, wp_bind, wp_submit, wp_ite, wp_pure, wp_modify, wp_check]
  cases hstart : (Writer.empty starts final).starts.headD true with
  | true => exact hnew true .OK rfl
  | false => exact hnew false (.internalError _) rfl

/-- What holds of a writer wherever a run leads. -/
structure Orderly (final : Status) (s : Writer) : Prop where
  one_sending : s.sending.length ≤ 1
  /-- The messages handed to gRPC are a prefix of the accepted ones. -/
  handed : handed s.trace <+: accepted s.trace
  /-- The close batch comes once, after every accepted message was sent. -/
  close_batch : Whenever ClosesLast s.trace
  /-- No message is accepted after `Close` or after an error. -/
  accepts : Whenever Accepts s.trace
  /-- The callback invoked is that of the first `Close`, with the result of the call or an error. -/
  fair : Whenever (Fair final) s.trace
  one_told : (told s.trace).length ≤ 1
  /-- The callback of the first `Close` is invoked by the time nothing is in flight. -/
  owed : (closes s.trace).head? = some true → s.sending = [] → s.closing = 0 →
    (told s.trace).length = 1

theorem Inv.orderly (h : Inv final s) : Orderly final s := by
  refine ⟨?_, h.queue.handed_prefix, h.queue.order, h.accepts, h.fair, h.one_told, ?_⟩
  · rcases h.queue.flying_cases with hf | ⟨m, q, hf, -⟩ <;> simp [hf]
  · intro hg hsend hclosing
    by_contra ht
    have hnone : told s.trace = [] := by
      have := h.one_told
      exact List.length_eq_zero_iff.mp (by omega)
    obtain ⟨-, hf | hf⟩ := h.owed hg hnone
    · exact hf hsend
    · omega

/-- No run of a writer aborts, and the invariant holds wherever it leads. -/
theorem run_keeps {starts : List Bool} {ls : List Step} (h : Legal (new starts final) ls) :
    ∃ s, after (new starts final) ls = .running s ∧ Inv final s := by
  have hh : Process.Holds (Inv final) (fun _ _ => False) (after (new starts final) ls) := by
    refine Process.invariant (fun s l hI hl => ?_) (Inv.new starts final) h
    refine wp_mono (step_keeps hI l hl.1 hl.2) (fun _ _ h' => h') ?_
    rintro _ s' ⟨rfl, h'⟩
    exact h'
  cases hs : after (new starts final) ls with
  | running s =>
      rw [hs] at hh
      exact ⟨s, rfl, hh⟩
  | stopped e s =>
      rw [hs] at hh
      exact hh.elim

/-- **Closing.**  No run of a writer aborts, its messages and its close batch are in order, and
the callback of the first `Close` is invoked once by the time nothing is in flight. -/
theorem close_told (starts : List Bool) (final : Status) (ls : List Step)
    (h : Legal (new starts final) ls) :
    ∃ s, after (new starts final) ls = .running s ∧ Orderly final s := by
  obtain ⟨s, hs, hI⟩ := run_keeps h
  exact ⟨s, hs, hI.orderly⟩

/-- A callback that does nothing. -/
def idle : Status → React := fun _ => .ret ()

/-- The second message is refused by gRPC while `Close` waits for it, and the callback raises. -/
theorem close_told_refused :
    ∃ s, after (new [true, true, false] .OK)
      [.call (.write [1]) idle, .call (.write [2]) idle, .call (.close true) idle,
        .call (.close true) idle, .sent true fun _ => .raise] = .running s ∧ Orderly .OK s :=
  close_told _ _ _ (by decide)

/-- The details of an OK status are not handed on. -/
theorem close_told_OK :
    let final : Status := ⟨.ok, [120]⟩
    let ls : List Step := [.call (.close true) idle, .closed true ⟨some ⟨some [7]⟩⟩ idle]
    let s := (after (new [] final) ls).state
    Legal (new [] final) ls ∧ clean s.trace = true ∧ told s.trace = [(.OK, [7])] ∧
      Status.OK ≠ final := by
  decide

end GrpcLua.Writer
