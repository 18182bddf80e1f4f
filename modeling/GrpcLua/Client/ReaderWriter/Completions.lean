import GrpcLua.Client.ReaderWriter.Functions

/-!
# Client — ReaderWriter — Completions

The specifications of the two completions.  Each may end with `status_cb_` being handed the OK
status, when the second of the two directions ends normally: that last callback is left to the
caller of the rule, and everything before it is `Quiet`.
-/

namespace GrpcLua.ReaderWriter
open Prog Trace

variable {given : Bool} {s s' : ReaderWriter}

/-- What a completion leaves of the object where it does not end both directions. -/
structure Quiet (given : Bool) (s s' : ReaderWriter) : Prop where
  inv : Inv given s'
  moves : Moves s s'
  ended : s'.status.ok = true → s'.readingEnded = true → s'.writingEnded = true →
    s.readingEnded = true ∧ s.writingEnded = true

/-- The completion ends the second of the two directions, without error. -/
def EndsBoth (s : ReaderWriter) : Step → Bool
  | .call _ _ => false
  | .sent success _ =>
      success && s.status.ok && s.msgQueue.length == 1 && s.writingClosing && s.readingEnded &&
        s.starts.headD true
  | .read success tag _ _ => success && s.status.ok && !tag.hasGotMsg && s.writingEnded

/-- The object when the completion `l` has ended both directions and is to tell it: it has told
nothing before, or has nothing left to tell. -/
structure Last (given : Bool) (l : Step) (s s' : ReaderWriter) : Prop where
  ok : s.status.ok = true
  inv : Inv given s'
  moves : Moves s s'
  readingEnded : s'.readingEnded = true
  writingEnded : s'.writingEnded = true
  untold : (EndsBoth s l = true ∧ s'.status.ok = true) ∧ statuses s'.trace = [] ∨
    s'.statusCb = false

theorem Quiet.of_failed (hI : Inv given s') (hm : Moves s s') (hf : s'.status.ok = false) :
    Quiet given s s' where
  inv := hI
  moves := hm
  ended := fun h' => absurd (hf.symm.trans h') (by simp)

/-- While the status is OK and one direction has not ended, no status has been handed on. -/
theorem Base.untold (h : Base given s) (hs : s.status.ok = true)
    (he : s.readingEnded = false ∨ s.writingEnded = false) : statuses s.trace = [] := by
  by_contra ht
  rcases h.said ht with hf | ⟨hr, hw⟩
  · exact absurd (hf.symm.trans hs) (by simp)
  · rcases he with he | he
    · exact absurd (he.symm.trans hr) (by simp)
    · exact absurd (he.symm.trans hw) (by simp)

theorem Moves.of_popped (s : ReaderWriter) (m : Bytes) (q : List Bytes) (success : Bool) :
    Moves s (popped s m q success) :=
  { Moves.refl s with
    trace := List.prefix_append _ _
    batches := fun _ => by simp [GrpcLua.batches]
    statuses := .inl (by simp [ReaderWriter.statuses]) }

/-- In error, a completed message only leaves the queue. -/
theorem Base.popped_failed (h : Base given s) {m : Bytes} {q : List Bytes} {e : Status}
    (he : e.ok = false) (hf : s.sending = [m]) (hq : s.msgQueue = m :: q) (success : Bool) :
    Base given { popped s m q success with status := e } := by
  have hqueue := h.queue.fail
  rw [hf, hq] at hqueue
  refine (h.fail he).requeued ?_ (fun h' => absurd (he.symm.trans h') (by simp))
    (fun h' => absurd rfl h') (List.prefix_append _ _) (by simp [statuses]) ?_ s.starts
  · rw [he]
    cases success with
    | false => exact hqueue.complete_fail q
    | true => exact hqueue.complete
  · exact (whenever_concat _).mpr ⟨h.msgs_first, trivial⟩

/-- The last message of the queue is sent. -/
theorem Inv.last_sent (h : Inv given s) {m : Bytes} (hf : s.sending = [m])
    (hq : s.msgQueue = [m]) : Inv given (popped s m [] true) := by
  have hqueue := h.queue
  rw [hf, hq] at hqueue
  refine h.requeued hqueue.complete (fun _ h' => absurd rfl h') (fun h' => absurd rfl h')
    (List.prefix_append _ _) (by simp [statuses]) ?_ s.starts
  exact (whenever_concat _).mpr ⟨h.msgs_first, trivial⟩

/-- A message is sent and the next one started. -/
theorem Inv.next_sent (h : Inv given s) (hs : s.status.ok = true) (hclose : s.hasSentClose = false)
    {m m' : Bytes} {q : List Bytes} (hf : s.sending = [m]) (hq : s.msgQueue = m :: m' :: q) :
    Inv given (sentNext (popped s m (m' :: q) true)) := by
  have hqueue := h.queue
  rw [hf, hq, hs, hclose] at hqueue
  refine h.requeued ?_ ?_ ?_ ?_ ?_ ?_ s.starts.tail
  · rw [hs, hclose]
    exact hqueue.complete.start rfl rfl
  · exact fun _ _ => by simp
  · exact fun _ => by simp [batches]
  · exact (List.prefix_append _ _).trans (List.prefix_append _ _)
  · simp [statuses]
  · exact (whenever_concat _).mpr ⟨(whenever_concat _).mpr ⟨h.msgs_first, trivial⟩, trivial⟩

/-- A completion that comes to an error ends there. -/
theorem wp_of_error {Q : Unit → ReaderWriter → Prop} {E : Exit → ReaderWriter → Prop}
    {x : M Unit} {s₁ : ReaderWriter} (hm : Moves s s₁)
    (hx : wp x (fun _ s' => Kept given s₁ s' ∧ Failed s')
      (fun _ s' => Kept given s₁ s' ∧ s'.status.ok = false) s₁)
    (hQ : ∀ s', Quiet given s s' → Q () s') (hE : ∀ e s', Quiet given s s' → E e s') :
    wp x Q E s₁ := by
  refine wp_mono hx ?_ ?_
  · rintro _ s' ⟨⟨hI, g⟩, hf⟩
    exact hQ _ (.of_failed hI (hm.trans g.toMoves) hf.1)
  · rintro _ s' ⟨⟨hI, g⟩, hf⟩
    exact hE _ _ (.of_failed hI (hm.trans g.toMoves) hf)

section sent
variable {Q : Unit → ReaderWriter → Prop} {E : Exit → ReaderWriter → Prop} {cb : Status → React}
  {m : Bytes} {q : List Bytes}

/-- A send in flight keeps the writing from having ended. -/
theorem Inv.not_written (h : Inv given s) (hsend : s.sending ≠ []) (hs : s.status.ok = true) :
    s.writingEnded = false := by
  have hclose : s.hasSentClose = false := h.queue.open_of_flying hsend
  by_contra hw
  rw [Bool.not_eq_false] at hw
  exact absurd (hclose.symm.trans (h.ended_close hs hw)) (by simp)

/-- The message behind the one that was sent is started. -/
theorem wp_next_send (h : Inv given s) (hf : s.sending = [m]) {m' : Bytes}
    (hq : s.msgQueue = m :: m' :: q) (hs : s.status.ok = true)
    (hQ : ∀ s', Quiet given s s' → Q () s') (hE : ∀ e s', Quiet given s s' → E e s') :
    wp (Step.exec (.sent true cb)) Q E s := by
  have hclose : s.hasSentClose = false := h.queue.open_of_flying (by simp [hf])
  have hm : Moves s (popped s m (m' :: q) true) := .of_popped s m (m' :: q) true
  have hclosed : closed (popped s m (m' :: q) true).trace = false := by
    rw [closed_append, h.queue.trace_closed, hclose]
    rfl
  rw [wp_sent_next hf hq hs]
  refine wp_mono (wp_sendNext (fun st => prog_keeps (cb st)) (.refl (popped s m (m' :: q) true)) hs
    (by simp) (h.toBase.popped_failed rfl hf hq true) hclosed) ?_ ?_
  · rintro (_ | _) s' h'
    · exact hQ _ (.of_failed h'.1.1 (hm.trans h'.1.2.toMoves) h'.2.1)
    · obtain ⟨-, rfl⟩ := h'
      refine hQ _ ⟨h.next_sent hs hclose hf hq, ?_, fun _ h' h'' => ⟨h', h''⟩⟩
      exact hm.trans
        { (Grows.refl (popped s m (m' :: q) true)).submitted hs [.sendMsg m'] true with }
  · rintro _ s' ⟨⟨hI, g⟩, hf⟩
    exact hE _ _ (.of_failed hI (hm.trans g.toMoves) hf)

/-- With the last message sent, a writing that is closing is half-closed. -/
theorem wp_last_send (h : Inv given s) (hf : s.sending = [m]) (hq : s.msgQueue = [m])
    (hs : s.status.ok = true) (hw : s.writingClosing = true)
    (hQ : ∀ s', Quiet given s s' → Q () s') (hE : ∀ e s', Quiet given s s' → E e s')
    (hlast : ∀ s', Last given (.sent true cb) s s' →
      wp (callStatusCb fun st => (cb st).prog) Q E s') :
    wp (Step.exec (.sent true cb)) Q E s := by
  have hsend : s.sending ≠ [] := by simp [hf]
  have hclose : s.hasSentClose = false := h.queue.open_of_flying hsend
  have hI := h.last_sent hf hq
  have hm : Moves s (popped s m [] true) := .of_popped s m [] true
  rw [wp_sent_close hf hq hs hw]
  refine wp_mono (wp_sendClose (fun st => prog_keeps (cb st)) (.refl (popped s m [] true)) hs hI hw
    hclose rfl rfl) ?_ ?_
  · rintro _ s' ⟨⟨hI', g⟩, hstart⟩
    have hw' : s'.writingEnded = true := by
      rcases hstart with hstart | hf
      · exact hstart.2.2
      · exact hf.2.2.2
    rw [if_pos hw']
    split
    case isFalse hr => exact hQ _ ⟨hI', hm.trans g.toMoves, fun _ h' => absurd h' hr⟩
    case isTrue hr =>
      refine hlast _ ⟨hs, hI', hm.trans g.toMoves, hr, hw', ?_⟩
      rcases hstart with ⟨hstart, hs', -⟩ | hf
      · have hr₀ : s.readingEnded = true := (g.ended hs').symm.trans hr
        have hends : EndsBoth s (.sent true cb) = true := by
          have hstart' : s.starts.headD true = true := hstart
          simp only [EndsBoth, hs, hq, hw, hr₀, hstart', List.length_singleton]
          rfl
        have hnone := hI.untold hs (.inr (h.not_written hsend hs))
        exact .inl ⟨⟨hends, hs'⟩, (g.quiet hs').trans hnone⟩
      · exact .inr hf.2.1
  · rintro _ s' ⟨⟨hI, g⟩, hf⟩
    exact hE _ _ (.of_failed hI (hm.trans g.toMoves) hf)

/-- The send in flight completes: the next message is started, or the call is half-closed. -/
theorem wp_sent (h : Inv given s) (hsend : s.sending ≠ []) (success : Bool) (cb : Status → React)
    (hQ : ∀ s', Quiet given s s' → Q () s') (hE : ∀ e s', Quiet given s s' → E e s')
    (hlast : ∀ s', Last given (.sent success cb) s s' →
      wp (callStatusCb fun st => (cb st).prog) Q E s') :
    wp (Step.exec (.sent success cb)) Q E s := by
  obtain ⟨m, q, hf, hq⟩ := h.queue.flying_cases.resolve_left hsend
  have hm : Moves s (popped s m q success) := .of_popped s m q success
  by_cases hs : s.status.ok = true
  case neg =>
    -- A `status_cb_` that raised an exception has not been reset, and fails the assertion.
    have hs' : s.status.ok = false := by simpa using hs
    have hI : Inv given (popped s m q success) :=
      { h.toBase.popped_failed hs' hf hq success with
        told := fun hg _ => by simpa [statuses] using h.told hg hs' }
    have hquiet := Quiet.of_failed hI hm hs'
    rw [wp_sent_inError hf hq hs']
    split
    · exact hE _ _ hquiet
    · exact hQ _ hquiet
  cases success with
  | false =>
      rw [wp_sent_failure hf hq hs]
      exact wp_of_error hm (wp_setInternalError (fun st => prog_keeps (cb st))
        (.refl (popped s m q false)) hs (h.toBase.popped_failed rfl hf hq false)) hQ hE
  | true =>
      cases q with
      | cons m' q => exact wp_next_send h hf hq hs hQ hE
      | nil =>
          by_cases hw : s.writingClosing = true
          · exact wp_last_send h hf hq hs hw hQ hE hlast
          · rw [wp_sent_open hf hq hs (by simpa using hw)]
            exact hQ _ ⟨h.last_sent hf hq, hm, fun _ h' h'' => ⟨h', h''⟩⟩

end sent

/-- The read in flight completes. -/
theorem Inv.read_done (h : Inv given s) (hread : 0 < s.reading) :
    Inv given { s with reading := s.reading - 1 } ∧ s.reading - 1 = 0 := by
  have hzero : s.reading - 1 = 0 := by
    have := h.one_reading
    omega
  have hi := h.reading_inited hread
  have hstarted := h.reading_started hread
  exact
    ⟨{ h with
      one_reading := by simp [hzero]
      reading_started := fun _ => hstarted
      reading_inited := fun _ => hi
      ended_reading := fun _ _ => ⟨hi, hstarted, hzero⟩ }, hzero⟩

section read
variable {Q : Unit → ReaderWriter → Prop} {E : Exit → ReaderWriter → Prop} {s₁ : ReaderWriter}
  {cb : Status → React}

/-- A read in flight keeps the reading from having ended. -/
theorem Inv.not_ended (h : Inv given s) (hread : 0 < s.reading) (hs : s.status.ok = true) :
    s.readingEnded = false := by
  by_contra hr
  have := (h.ended_reading hs (by simpa using hr)).2.2
  omega

/-- The next read, unless the callback has ended the call. -/
theorem wp_next_read (hm : Moves s s₁) (hI : Inv given s₁) (hi : s₁.inited = true)
    (hstarted : s₁.readingStarted = true) (hzero : s₁.reading = 0)
    (hended : s₁.status.ok = true → s₁.readingEnded = false)
    (hQ : ∀ s', Quiet given s s' → Q () s') (hE : ∀ e s', Quiet given s s' → E e s') :
    wp (readNext fun st => (cb st).prog) Q E s₁ := by
  have hk : ∀ st, Keeps (Inv given) Grows (cb st).prog := fun st => prog_keeps (cb st)
  by_cases hs : s₁.status.ok = true
  · refine wp_mono (wp_readNext hk hm hs hI hi hzero hstarted (hended hs)) ?_ ?_
    · rintro _ s' ⟨⟨hI', hm'⟩, hr⟩
      refine hQ _ ⟨hI', hm', fun h' h'' => ?_⟩
      exact absurd ((hr h').1.symm.trans h'') (by simp)
    · rintro _ s' ⟨⟨hI', hm'⟩, hf⟩
      exact hE _ _ (.of_failed hI' hm' hf)
  · simp only [readNext, wp_bind, wp_check]
    rw [if_neg hs]
    exact hE _ _ (.of_failed hI hm (by simpa using hs))

/-- The error that `msg_cb_` answers, unless it has ended the call itself. -/
theorem wp_answer_error (hm : Moves s s₁) (hI : Inv given s₁) {status : Status}
    (he : status.ok = false) (hQ : ∀ s', Quiet given s s' → Q () s')
    (hE : ∀ e s', Quiet given s s' → E e s') :
    wp (endOnErrorStatus (fun st => (cb st).prog) status) Q E s₁ := by
  by_cases hs : s₁.status.ok = true
  · exact wp_of_error hm (wp_endOnErrorStatus (fun st => prog_keeps (cb st)) hs he (hI.fail he))
      hQ hE
  · -- The assertion that the status is OK fails.
    simp only [endOnErrorStatus, wp_bind, wp_check]
    rw [if_pos (by simp [he]), if_neg hs]
    exact hE _ _ (.of_failed hI hm (by simpa using hs))

/-- A message is handed on, and the next read started. -/
theorem wp_message (h : Inv given s) (hread : 0 < s.reading) (hs : s.status.ok = true)
    {bytes : Bytes} {onMsg : Bytes → React}
    (hQ : ∀ s', Quiet given s s' → Q () s') (hE : ∀ e s', Quiet given s s' → E e s') :
    wp (Step.exec (.read true ⟨some ⟨some bytes⟩⟩ onMsg cb)) Q E s := by
  have hstarted := h.reading_started hread
  have hended := h.not_ended hread
  obtain ⟨hI, hzero⟩ := h.read_done hread
  have hm : Moves s (readDone s) := { Moves.refl s with }
  rw [wp_read_message hstarted hs]
  split
  case isFalse =>
    exact wp_next_read hm hI (h.reading_inited hread) hstarted hzero hended hQ hE
  case isTrue =>
    have hI₁ : Inv given { readDone s with trace := s.trace ++ [.called (.msgCb bytes)] } :=
      hI.event rfl rfl rfl rfl trivial rfl (h.untold hs (.inl (hended hs)))
    have hm₁ : Moves s { readDone s with trace := s.trace ++ [.called (.msgCb bytes)] } :=
      hm.trans ((Grows.refl _).event rfl rfl).toMoves
    -- The message callback may call the object, and even end the call.
    refine (prog_keeps (onMsg bytes)).wp hI₁ (fun status s₂ hI₂ g => ?_) fun e s₂ hI₂ g => ?_
    · have hm₂ := hm₁.trans g.toMoves
      obtain ⟨hstarted₂, hzero₂⟩ := g.started hstarted
      split
      case isTrue he => exact wp_answer_error hm₂ hI₂ (by simpa using he) hQ hE
      case isFalse =>
        exact wp_next_read hm₂ hI₂ (hm₂.inited (h.reading_inited hread)) hstarted₂
          (hzero₂.trans hzero) (fun hs₂ => (g.ended hs₂).trans (hended hs)) hQ hE
    · refine hE _ _ ⟨hI₂, hm₁.trans g.toMoves, fun hs₂ hr => ?_⟩
      exact absurd (((g.ended hs₂).trans (hended hs)).symm.trans hr) (by simp)

/-- The read in flight completes: a message is handed on and the next read started, or the stream
has ended. -/
theorem wp_read (h : Inv given s) (hread : 0 < s.reading) (success : Bool) (tag : CodRecvMsg)
    (onMsg : Bytes → React) (cb : Status → React)
    (hQ : ∀ s', Quiet given s s' → Q () s') (hE : ∀ e s', Quiet given s s' → E e s')
    (hlast : ∀ s', Last given (.read success tag onMsg cb) s s' →
      wp (callStatusCb fun st => (cb st).prog) Q E s') :
    wp (Step.exec (.read success tag onMsg cb)) Q E s := by
  have hk : ∀ st, Keeps (Inv given) Grows (cb st).prog := fun st => prog_keeps (cb st)
  have hstarted := h.reading_started hread
  obtain ⟨hI, hzero⟩ := h.read_done hread
  have hm : Moves s (readDone s) := { Moves.refl s with }
  by_cases hs : s.status.ok = true
  case neg =>
    have hs' : s.status.ok = false := by simpa using hs
    rw [wp_read_inError hstarted hs']
    split
    · exact hE _ _ (.of_failed hI hm hs')
    · exact hQ _ (.of_failed hI hm hs')
  cases success with
  | false =>
      rw [wp_read_failure hstarted hs]
      exact wp_of_error hm (wp_setInternalError hk (.refl _) hs (hI.toBase.fail rfl)) hQ hE
  | true =>
      obtain ⟨_ | ⟨_ | bytes⟩⟩ := tag
      · rw [wp_read_end hstarted hs]
        have hnone := h.untold hs (.inl (h.not_ended hread hs))
        have hI' : Inv given { readDone s with readingEnded := true } :=
          { hI with
            ended_reading := fun _ _ => ⟨h.reading_inited hread, hstarted, hzero⟩
            said := fun h' => absurd hnone h' }
        have hm' : Moves s { readDone s with readingEnded := true } := { Moves.refl s with }
        split
        case isTrue hw =>
          have hends : EndsBoth s (.read true ⟨none⟩ onMsg cb) = true := by
            simp [EndsBoth, hs, CodRecvMsg.hasGotMsg, hw]
          exact hlast _ ⟨hs, hI', hm', rfl, hw, .inl ⟨⟨hends, hs⟩, hnone⟩⟩
        case isFalse hw => exact hQ _ ⟨hI', hm', fun _ _ h' => absurd h' hw⟩
      · rw [wp_read_unreadable hstarted hs]
        exact wp_of_error hm (wp_endOnErrorStatus hk hs rfl (hI.toBase.fail rfl)) hQ hE
      · exact wp_message h hread hs hQ hE

end read

end GrpcLua.ReaderWriter
