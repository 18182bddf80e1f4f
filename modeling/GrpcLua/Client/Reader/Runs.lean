import GrpcLua.Client.Reader

/-!
# Client — Reader — Runs

The life of a `ClientAsyncReaderImpl`.  It is started, then one read after the other is in flight,
then the batch that receives the final status, and then nothing (`Phase`).  A callback that calls
`Start()` again finds the object started, so it does nothing but answer or raise
(`wp_prog`).
-/

namespace GrpcLua.Reader
open Prog Trace

variable {s : Reader}

/-! ### What a run shows -/

/-- The messages handed to `msg_cb_`. -/
def msgs (tr : List (Event Cb)) : List Bytes :=
  tr.filterMap fun | .called (.msgCb msg) => some msg | _ => none

@[simp] theorem msgs_append (tr tr' : List (Event Cb)) :
    msgs (tr ++ tr') = msgs tr ++ msgs tr' := List.filterMap_append

/-- `msg_cb_` is invoked only while `status_cb_` has not been. -/
def MsgsFirst (pre : List (Event Cb)) : Event Cb → Prop
  | .called (.msgCb _) => statuses pre = []
  | _ => True

/-- The callbacks that a call of `Start()` is given: `msg_cb` and `status_cb`. -/
def Step.args : Step → Option (Bool × Bool)
  | call (.start msgCb statusCb) _ => some (msgCb, statusCb)
  | _ => none

/-- The message that a completed read has received. -/
def Step.received : Step → List Bytes
  | read true ⟨some ⟨some msg⟩⟩ _ _ => [msg]
  | _ => []

/-- The error that the object itself comes to in the step, if any. -/
def localError (s : Reader) : Step → Option Status
  | .call _ _ =>
      if s.isStarted then none
      else if !s.starts.headD true then
        some (.internalError (str "Failed to start async client reader."))
      else if !s.starts.tail.headD true then
        some (.internalError (str "Failed to async read server-side streaming."))
      else none
  | .read false _ _ _ => some (.internalError (str "ClientReaderReadCqTag failed."))
  | .read true ⟨none⟩ _ _ =>
      if s.starts.headD true then none
      else some (.internalError (str "Failed to receive status."))
  | .read true ⟨some ⟨none⟩⟩ _ _ =>
      some (.internalError (str "Failed to read recv byte buffer."))
  | .read true ⟨some ⟨some msg⟩⟩ onMsg _ =>
      match if s.msgCb then (onMsg msg).answer else some .OK with
      | none => none
      | some st =>
          if !st.ok then some st
          else if s.starts.headD true then none
          else some (.internalError (str "Failed to async read server-side streaming."))
  | .recvStatus success _ =>
      if success then none else some (.internalError (str "Failed to receive status."))

/-- The status that the step hands to a `status_cb`, if any. -/
def tells (s : Reader) : Step → Option Status
  | .call (.start msgCb statusCb) cb =>
      if statusCb then localError s (.call (.start msgCb statusCb) cb) else none
  | .read success tag onMsg cb =>
      if s.statusCb then localError s (.read success tag onMsg cb) else none
  | .recvStatus success cb =>
      if s.receiving.headD false then some ((localError s (.recvStatus success cb)).getD s.final)
      else none

/-- A callback that the step invokes raises an exception. -/
def Raises (s : Reader) : Step → Bool
  | .call c cb => (tells s (.call c cb)).any fun st => (cb st).answer.isNone
  | .read success tag onMsg cb =>
      (s.msgCb && (Step.read success tag onMsg cb).received.any fun msg =>
        (onMsg msg).answer.isNone) ||
      (tells s (.read success tag onMsg cb)).any fun st => (cb st).answer.isNone
  | .recvStatus success cb =>
      (tells s (.recvStatus success cb)).any fun st => (cb st).answer.isNone

/-! ### The functions -/

/-- A callback finds the object started. -/
theorem wp_prog {r : React} {Q : Status → Reader → Prop} {E : Exit → Reader → Prop}
    (hs : s.isStarted = true) :
    wp r.prog Q E s ↔ r.answer.elim (E .exception s) fun a => Q a s := by
  show wp (r.run Call.exec .exception) Q E s ↔ _
  refine Reaction.wp_run_of_idle ?_ r
  rintro ⟨msgCb, statusCb⟩ inner
  simp only [Call.exec, start, wp_bind, wp_get, wp_ite, wp_pure, hs, if_true]

/-- The object after a callback has been invoked. -/
abbrev called (s : Reader) (k : Cb) : Reader := { s with trace := s.trace ++ [.called k] }

/-- The object after `StartBatch` answered to `b`. -/
abbrev submitted (s : Reader) (b : Batch) : Reader :=
  { s with starts := s.starts.tail, trace := s.trace ++ [.batch b (s.starts.headD true)] }

variable {Q : Unit → Reader → Prop} {E : Exit → Reader → Prop} {cb : Status → React}

theorem wp_callStatusCb (hs : s.isStarted = true) :
    wp (callStatusCb fun st => (cb st).prog) Q E s ↔
      if s.statusCb then (cb s.status).answer.elim (E .exception (called s (.statusCb s.status)))
        fun _ => Q () { called s (.statusCb s.status) with statusCb := false }
      else Q () s := by
  simp only [callStatusCb, wp_bind, wp_get, wp_ite, wp_pure, wp_emit, env_eq, setEnv_eq, wp_modify]
  split
  · exact wp_prog hs
  · rfl

/-! ### The outcomes of a read -/

section read
variable {onMsg : Bytes → React}

/-- The object when its read has completed. -/
abbrev readDone (s : Reader) : Reader := { s with reading := s.reading - 1 }

/-- In error, no read may complete. -/
theorem wp_read_inError (hs : s.isStarted = true) (hok : s.status.ok = false) {success : Bool}
    {tag : CodRecvMsg} :
    wp (Step.exec (.read success tag onMsg cb)) Q E s ↔ E .assertion (readDone s) := by
  simp only [Step.exec, onRead, wp_bind, wp_modify, wp_check]
  rw [if_pos hs, if_neg (by simp [hok])]

/-- A read that failed. -/
theorem wp_read_failure (hs : s.isStarted = true) (hok : s.status.ok = true) {tag : CodRecvMsg} :
    wp (Step.exec (.read false tag onMsg cb)) Q E s ↔
      wp (callStatusCb fun st => (cb st).prog) Q E
        { readDone s with status := .internalError (str "ClientReaderReadCqTag failed.") } := by
  simp only [Step.exec, onRead, wp_bind, wp_modify, wp_check, wp_ite]
  rw [if_pos hs, if_pos hok, if_pos (by rfl)]

/-- The end of the stream. -/
theorem wp_read_end (hs : s.isStarted = true) (hok : s.status.ok = true) :
    wp (Step.exec (.read true ⟨none⟩ onMsg cb)) Q E s ↔
      wp (recvStatus (fun st => (cb st).prog) s.statusCb) Q E (readDone s) := by
  simp only [Step.exec, onRead, wp_bind, wp_get, wp_modify, wp_check, wp_ite]
  rw [if_pos hs, if_pos hok, if_neg (by simp), if_pos (by rfl)]

/-- A buffer that cannot be read. -/
theorem wp_read_unreadable (hs : s.isStarted = true) (hok : s.status.ok = true) :
    wp (Step.exec (.read true ⟨some ⟨none⟩⟩ onMsg cb)) Q E s ↔
      wp (callStatusCb fun st => (cb st).prog) Q E
        { readDone s with status := .internalError (str "Failed to read recv byte buffer.") } := by
  simp only [Step.exec, onRead, wp_bind, wp_modify, wp_check, wp_ite]
  rw [if_pos hs, if_pos hok, if_neg (by simp), if_neg (by simp [CodRecvMsg.hasGotMsg])]
  simp only [CodRecvMsg.getResultMsg, byteBufferToString, wp_pure]
  rw [if_pos (by rfl)]

/-- A message, and what `msg_cb_` answers. -/
theorem wp_read_message (hs : s.isStarted = true) (hok : s.status.ok = true) {bytes : Bytes} :
    wp (Step.exec (.read true ⟨some ⟨some bytes⟩⟩ onMsg cb)) Q E s ↔
      if s.msgCb then
        (onMsg bytes).answer.elim
          (E .exception (called { readDone s with status := .OK } (.msgCb bytes)))
          fun status =>
            wp (if !status.ok then callStatusCb fun st => (cb st).prog
              else readNext fun st => (cb st).prog) Q E
              { called (readDone s) (.msgCb bytes) with status := status }
      else wp (readNext fun st => (cb st).prog) Q E { readDone s with status := .OK } := by
  simp only [Step.exec, onRead, wp_bind, wp_get, wp_modify, wp_check, wp_ite]
  rw [if_pos hs, if_pos hok, if_neg (by simp), if_neg (by simp [CodRecvMsg.hasGotMsg])]
  simp only [CodRecvMsg.getResultMsg, byteBufferToString, wp_pure, wp_emit, env_eq, setEnv_eq]
  rw [if_neg (by simp)]
  split
  · rw [wp_prog (by exact hs)]
  · rfl

end read

/-! ### Phases -/

/-- What holds of the object once it is started. -/
structure Common (args : Bool × Bool) (received : List Bytes) (final : Status) (s : Reader) :
    Prop where
  started : s.isStarted = true
  msgCb : s.msgCb = args.1
  statusCb : s.statusCb = true → args.2 = true
  final : s.final = final
  msgs : msgs s.trace = if args.1 then received else []
  msgs_first : Whenever MsgsFirst s.trace

/-- The phases of the object: not started; with a read in flight; with the batch in flight that
receives the final status; and at the end, where the status has been told. -/
inductive Phase (final : Status) (s : Reader) :
    Option (Bool × Bool) → List Bytes → Option Status → Prop
  | fresh (hs : s.isStarted = false) (hok : s.status.ok = true) (hreading : s.reading = 0)
      (hrecv : s.receiving = []) (hfinal : s.final = final) (htr : s.trace = []) :
      Phase final s none [] none
  | reading {args received} (h : Common args received final s) (hok : s.status.ok = true)
      (hcb : s.statusCb = args.2) (hreading : s.reading = 1) (hrecv : s.receiving = [])
      (hst : statuses s.trace = []) : Phase final s (some args) received none
  | receiving {args received} (h : Common args received final s)
      (hreading : s.reading = 0) (hrecv : s.receiving = [args.2])
      (hst : statuses s.trace = []) : Phase final s (some args) received none
  | ended {args received error} (h : Common args received final s) (hreading : s.reading = 0)
      (hrecv : s.receiving = [])
      (hst : statuses s.trace = if args.2 then [error.getD final] else []) :
      Phase final s (some args) received error

/-- Nothing is in flight after a callback has raised in a completion; of the status, only an error
that the object itself came to has been told. -/
structure Halted (args : Bool × Bool) (received : List Bytes) (error : Option Status)
    (final : Status) (s : Reader) : Prop extends Common args received final s where
  reading : s.reading = 0
  receiving : s.receiving = []
  statuses : statuses s.trace = if args.2 then error.toList else []

/-- The program returns in a state `P` accepts, or an exception escapes and leaves one; `raises`
says which. -/
abbrev Comes (x : M Unit) (raises : Bool) (P : Reader → Prop) (s : Reader) : Prop :=
  wp x (fun _ s' => raises = false ∧ P s') (fun e s' => e = .exception ∧ raises = true ∧ P s') s

/-- The callback that is handed `error`, if it is set and there is an error, raises. -/
def raisesOn (cb : Status → React) (statusCb : Bool) (error : Option Status) : Bool :=
  statusCb && error.any fun st => (cb st).answer.isNone

section phases
variable {args : Bool × Bool} {received : List Bytes} {final : Status}

theorem Common.called (h : Common args received final s) (st : Status) :
    Common args received final (called s (.statusCb st)) :=
  { h with
    msgs := by simpa [Reader.msgs] using h.msgs
    msgs_first := (whenever_concat _).mpr ⟨h.msgs_first, trivial⟩ }

theorem Common.heard (h : Common args received final s) (hset : s.msgCb = true)
    (hst : statuses s.trace = []) (bytes : Bytes) :
    Common args (received ++ [bytes]) final (Reader.called s (.msgCb bytes)) :=
  { h with
    msgs := by
      rw [msgs_append, h.msgs, ← h.msgCb, hset]
      rfl
    msgs_first := (whenever_concat _).mpr ⟨h.msgs_first, hst⟩ }

/-- After an error of the object, the end is the same as after an exception. -/
theorem Phase.halted {error : Status} (h : Phase final s (some args) received (some error)) :
    Halted args received (some error) final s := by
  cases h with
  | ended h hreading hrecv hst =>
      exact { h with reading := hreading, receiving := hrecv, statuses := hst }

/-- The callback of a started object is told the last status. -/
theorem comes_told (h : Common args received final s) (hset : args.2 = true)
    (hreading : s.reading = 0) (hrecv : s.receiving = []) (hst : statuses s.trace = [])
    (error : Option Status) (cb : Status → React) :
    wp (cb (error.getD s.final)).prog
      (fun _ s' => (cb (error.getD s.final)).answer.isNone = false ∧
        Phase final s' (some args) received error)
      (fun e s' => e = .exception ∧ (cb (error.getD s.final)).answer.isNone = true ∧
        Phase final s' (some args) received error) (called s (.statusCb (error.getD s.final))) := by
  have hend : Phase final (called s (.statusCb (error.getD s.final))) (some args) received
      error := by
    refine .ended (h.called _) hreading hrecv ?_
    rw [statuses_append, hst, hset, h.final]
    rfl
  refine (wp_prog (by exact h.started)).mpr ?_
  cases (cb (error.getD s.final)).answer with
  | none => exact ⟨rfl, rfl, hend⟩
  | some a => exact ⟨rfl, hend⟩

/-- An error is told, and that is the end. -/
theorem comes_callStatusCb (h : Common args received final s) (hcb : s.statusCb = args.2)
    (hreading : s.reading = 0) (hrecv : s.receiving = []) (hst : statuses s.trace = []) :
    Comes (callStatusCb fun st => (cb st).prog) (raisesOn cb args.2 (some s.status))
      (Phase final · (some args) received (some s.status)) s := by
  rw [Comes, wp_callStatusCb h.started, hcb]
  cases hset : args.2 with
  | false =>
      rw [if_neg (by simp)]
      exact ⟨rfl, .ended h hreading hrecv (by simp [hset, hst])⟩
  | true =>
      rw [if_pos rfl]
      have hend : ∀ s' : Reader, s' = Reader.called s (.statusCb s.status) ∨
          s' = { Reader.called s (.statusCb s.status) with statusCb := false } →
          Phase final s' (some args) received (some s.status) := by
        have hst' : statuses (s.trace ++ [.called (.statusCb s.status)]) = [s.status] := by
          rw [statuses_append, hst]
          rfl
        rintro s' (rfl | rfl)
        · exact .ended (h.called _) hreading hrecv (by simpa [hset] using hst')
        · exact .ended { h.called s.status with statusCb := fun _ => hset } hreading hrecv
            (by simpa [hset] using hst')
      cases ha : (cb s.status).answer with
      | none => exact ⟨rfl, by simp [raisesOn, ha], hend _ (.inl rfl)⟩
      | some a => exact ⟨by simp [raisesOn, ha], hend _ (.inr rfl)⟩

/-- `ReadNext()` starts the next read, or ends the stream. -/
theorem comes_readNext (h : Common args received final s) (hok : s.status.ok = true)
    (hcb : s.statusCb = args.2) (hreading : s.reading = 0) (hrecv : s.receiving = [])
    (hst : statuses s.trace = []) {error : Option Status}
    (he : error = if s.starts.headD true then none
      else some (.internalError (str "Failed to async read server-side streaming."))) :
    Comes (readNext fun st => (cb st).prog) (raisesOn cb args.2 error)
      (Phase final · (some args) received error) s := by
  have hst' : statuses (s.trace ++ [.batch [.recvMsg] (s.starts.headD true)]) = [] := by
    simpa [statuses] using hst
  have h' : Common args received final (submitted s [.recvMsg]) :=
    { h with
      msgs := by simpa [Reader.msgs] using h.msgs
      msgs_first := (whenever_concat _).mpr ⟨h.msgs_first, trivial⟩ }
  simp only [Comes, readNext, wp_bind, wp_check, wp_startBatch, wp_ite, wp_modify, env_eq,
    setEnv_eq]
  rw [if_pos hok]
  split
  case isTrue hstart =>
    rw [if_pos hstart] at he
    subst he
    refine ⟨by simp [raisesOn], .reading { h' with } hok hcb (by simp [hreading]) hrecv hst'⟩
  case isFalse hstart =>
    rw [if_neg hstart] at he
    subst he
    exact comes_callStatusCb (s := { submitted s [.recvMsg] with
      status := .internalError (str "Failed to async read server-side streaming.") })
      { h' with } hcb hreading hrecv hst'

/-- `RecvStatus()` waits for the final status, or tells that none will come. -/
theorem comes_recvStatus (h : Common args received final s) (hcb : s.statusCb = args.2)
    (hreading : s.reading = 0) (hrecv : s.receiving = []) (hst : statuses s.trace = [])
    {error : Option Status}
    (he : error = if s.starts.headD true then none
      else some (.internalError (str "Failed to receive status."))) :
    Comes (recvStatus (fun st => (cb st).prog) s.statusCb) (raisesOn cb args.2 error)
      (Phase final · (some args) received error) s := by
  have hst' : statuses (s.trace ++ [.batch [.clientRecvStatus] (s.starts.headD true)]) = [] := by
    simpa [statuses] using hst
  have h' : Common args received final (submitted s [.clientRecvStatus]) :=
    { h with
      msgs := by simpa [Reader.msgs] using h.msgs
      msgs_first := (whenever_concat _).mpr ⟨h.msgs_first, trivial⟩ }
  simp only [Comes, recvStatus, wp_bind, wp_startBatch, wp_ite, wp_modify, wp_emit, wp_pure, env_eq,
    setEnv_eq]
  subst he
  split
  case isTrue =>
    exact ⟨by simp [raisesOn], .receiving { h' with } hreading (by simp [hrecv, hcb]) hst'⟩
  case isFalse =>
    rw [hcb]
    cases hset : args.2 with
    | false =>
        rw [if_neg (by simp)]
        refine ⟨by simp [raisesOn], .ended { h' with } hreading hrecv ?_⟩
        simpa [hset] using hst'
    | true =>
        rw [if_pos rfl]
        exact comes_told h' hset hreading hrecv hst'
          (some (.internalError (str "Failed to receive status."))) cb

/-- Once the object is started, a call of `Start()` does nothing. -/
theorem comes_started (hs : s.isStarted = true) (c : Call) (cb : Status → React)
    {P : Reader → Prop} (hP : P s) :
    Comes (Step.exec (.call c cb)) (Raises s (.call c cb)) P s := by
  obtain ⟨msgCb, statusCb⟩ := c
  have hraises : Raises s (.call (.start msgCb statusCb) cb) = false := by
    simp [Raises, tells, localError, hs]
  simp only [Comes, Step.exec, Call.exec, start, wp_bind, wp_get, wp_ite, wp_pure]
  rw [if_pos hs]
  exact ⟨hraises, hP⟩

/-- The first call of `Start()`. -/
theorem comes_start (hs : s.isStarted = false) (hok : s.status.ok = true) (hreading : s.reading = 0)
    (hrecv : s.receiving = []) (hfinal : s.final = final) (htr : s.trace = [])
    (msgCb statusCb : Bool) (cb : Status → React) :
    Comes (Step.exec (.call (.start msgCb statusCb) cb))
      (raisesOn cb statusCb (localError s (.call (.start msgCb statusCb) cb)))
      (Phase final · (some (msgCb, statusCb)) [] (localError s (.call (.start msgCb statusCb) cb)))
      s := by
  let b : Batch := [.sendMsg s.request, .sendInitMd, .recvInitMd, .clientSendClose]
  let s₁ : Reader :=
    submitted { s with isStarted := true, msgCb := msgCb, statusCb := statusCb } b
  -- The request goes out first, and whatever is told comes after it.
  have htr₁ : s₁.trace = [.batch b (s.starts.headD true)] := by simp [s₁, htr]
  have h₁ : Common (msgCb, statusCb) [] final s₁ :=
    { started := rfl
      msgCb := rfl
      statusCb := id
      final := hfinal
      msgs := by simp [htr₁, Reader.msgs]
      msgs_first := by rw [htr₁]; exact (whenever_singleton _).mpr trivial }
  have hst₁ : statuses s₁.trace = [] := by simp [htr₁, statuses]
  simp only [Comes, Step.exec, Call.exec, start, init, wp_bind, wp_get, wp_ite, wp_check, wp_modify,
    wp_pure, wp_startBatch, env_eq, setEnv_eq]
  rw [if_neg (by simp [hs]), if_pos hok, if_pos hok]
  split
  case isTrue hstart =>
    rw [if_pos trivial]
    refine comes_readNext (s := s₁) h₁ hok rfl hreading hrecv hst₁ ?_
    simp only [localError, hs, hstart, Bool.not_eq_true', Bool.not_true, Bool.false_eq_true,
      if_false]
    cases s.starts.tail.headD true <;> rfl
  case isFalse hstart =>
    -- The request is refused, and no read follows.
    have he : localError s (.call (.start msgCb statusCb) cb) =
        some (.internalError (str "Failed to start async client reader.")) := by
      simp only [localError, hs, hstart, Bool.not_eq_true', Bool.false_eq_true, if_false, if_true]
    rw [he]
    refine wp_mono (comes_callStatusCb (s := { s₁ with
      status := .internalError (str "Failed to start async client reader.") })
      { h₁ with } rfl hreading hrecv hst₁) ?_ fun _ _ h' => h'
    intro _ s' h'
    rw [if_neg (by simp)]
    exact h'

theorem call_phase {args? : Option (Bool × Bool)} {error : Option Status}
    (h : Phase final s args? received error) (c : Call) (cb : Status → React) :
    Comes (Step.exec (.call c cb)) (Raises s (.call c cb))
      (Phase final · (args?.or (Step.call c cb).args) received
        (error.or (localError s (.call c cb)))) s := by
  have hlate : s.isStarted = true → localError s (.call c cb) = none := fun hs => by
    simp [localError, hs]
  cases h with
  | fresh hs hok hreading hrecv hfinal htr =>
      obtain ⟨msgCb, statusCb⟩ := c
      have hstart := comes_start hs hok hreading hrecv hfinal htr msgCb statusCb cb
      have hraises : Raises s (.call (.start msgCb statusCb) cb) =
          raisesOn cb statusCb (localError s (.call (.start msgCb statusCb) cb)) := by
        cases statusCb <;> simp [Raises, tells, raisesOn]
      rw [hraises]
      exact hstart
  | reading h hok hcb hreading hrecv hst =>
      rw [hlate h.started]
      exact comes_started h.started c cb (.reading h hok hcb hreading hrecv hst)
  | receiving h hreading hrecv hst =>
      rw [hlate h.started]
      exact comes_started h.started c cb (.receiving h hreading hrecv hst)
  | ended h hreading hrecv hst =>
      rw [hlate h.started, Option.or_none]
      exact comes_started h.started c cb (.ended h hreading hrecv hst)

/-- The status has come, or has not. -/
theorem recvStatus_phase {args? : Option (Bool × Bool)} {error : Option Status}
    (h : Phase final s args? received error) (success : Bool) (cb : Status → React)
    (hl : s.receiving ≠ []) :
    Comes (Step.exec (.recvStatus success cb)) (Raises s (.recvStatus success cb))
      (Phase final · args? received (error.or (localError s (.recvStatus success cb)))) s := by
  cases h with
  | fresh _ _ _ hrecv _ _ => exact absurd hrecv hl
  | reading _ _ _ _ hrecv _ => exact absurd hrecv hl
  | ended _ _ hrecv _ => exact absurd hrecv hl
  | @receiving args received h hreading hrecv hst =>
      have hstatus : (if success = true then s.final
          else .internalError (str "Failed to receive status.")) =
          (localError s (.recvStatus success cb)).getD s.final := by
        cases success <;> rfl
      simp only [Comes, Step.exec, onRecvStatus, wp_bind, wp_get, wp_modify, wp_ite, wp_pure,
        wp_emit,
        env_eq, setEnv_eq, hrecv, List.headD_cons, List.tail_cons, CodClientRecvStatus.getStatus]
      rw [Option.none_or]
      have h' : Common args received final { s with receiving := [] } := { h with }
      cases hset : args.2 with
      | false =>
          rw [if_pos (by rfl)]
          refine ⟨by simp [Raises, tells, hrecv, hset], .ended h' hreading rfl ?_⟩
          simp [hset, hst]
      | true =>
          rw [if_neg (by simp), hstatus]
          generalize hlocal : localError s (.recvStatus success cb) = error
          have hraises : Raises s (.recvStatus success cb) =
              (cb (error.getD s.final)).answer.isNone := by
            simp [Raises, tells, hrecv, hset, hlocal]
          rw [hraises]
          exact comes_told h' hset hreading rfl hst error cb

/-- Where `msg_cb` does not raise in a read, only `status_cb` can. -/
theorem raises_read {success : Bool} {tag : CodRecvMsg} {onMsg : Bytes → React}
    {cb : Status → React} (hcb : s.statusCb = args.2)
    (hmsg : (s.msgCb && (Step.read success tag onMsg cb).received.any fun msg =>
      (onMsg msg).answer.isNone) = false) :
    Raises s (.read success tag onMsg cb) =
      raisesOn cb args.2 (localError s (.read success tag onMsg cb)) := by
  simp only [Raises, hmsg, Bool.false_or, tells, hcb, raisesOn]
  cases args.2 <;> simp

/-- What the object has come to after a read, in which `raises` says whether a callback raises. -/
abbrev ComesReading (x : M Unit) (raises : Bool) (args : Bool × Bool) (received : List Bytes)
    (error : Option Status) (final : Status) (s : Reader) : Prop :=
  wp x (fun _ s' => raises = false ∧ Phase final s' (some args) received error)
    (fun e s' => e = .exception ∧ raises = true ∧ Halted args received error final s') s

/-- An exception of `status_cb` leaves the end, as an error of the object does. -/
theorem Comes.reading {x : M Unit} {cb : Status → React} {error : Option Status}
    (h : Comes x (raisesOn cb args.2 error) (Phase final · (some args) received error) s) :
    ComesReading x (raisesOn cb args.2 error) args received error final s := by
  refine wp_mono h (fun _ _ h' => h') ?_
  rintro e s' ⟨he, hraises, h'⟩
  cases error with
  | none => simp [raisesOn] at hraises
  | some error => exact ⟨he, hraises, h'.halted⟩

section read
variable {onMsg : Bytes → React} {cb : Status → React} (h : Common args received final s)
  (hok : s.status.ok = true) (hcb : s.statusCb = args.2) (hreading : s.reading = 1)
  (hrecv : s.receiving = []) (hst : statuses s.trace = [])
include h hok hcb hreading hrecv hst

/-- A read that failed. -/
theorem failure_comes (tag : CodRecvMsg) :
    ComesReading (Step.exec (.read false tag onMsg cb)) (Raises s (.read false tag onMsg cb)) args
      received (localError s (.read false tag onMsg cb)) final s := by
  rw [raises_read hcb (by simp [Step.received]), ComesReading, wp_read_failure h.started hok]
  exact (comes_callStatusCb (s := { readDone s with
    status := .internalError (str "ClientReaderReadCqTag failed.") })
    { h with } hcb (by simp [hreading]) hrecv hst).reading

/-- The end of the stream. -/
theorem end_comes :
    ComesReading (Step.exec (.read true ⟨none⟩ onMsg cb)) (Raises s (.read true ⟨none⟩ onMsg cb))
      args received (localError s (.read true ⟨none⟩ onMsg cb)) final s := by
  rw [raises_read hcb (by simp [Step.received]), ComesReading, wp_read_end h.started hok]
  exact (comes_recvStatus (s := readDone s) { h with } hcb (by simp [hreading]) hrecv hst
    rfl).reading

/-- A buffer that cannot be read. -/
theorem unreadable_comes :
    ComesReading (Step.exec (.read true ⟨some ⟨none⟩⟩ onMsg cb))
      (Raises s (.read true ⟨some ⟨none⟩⟩ onMsg cb)) args received
      (localError s (.read true ⟨some ⟨none⟩⟩ onMsg cb)) final s := by
  rw [raises_read hcb (by simp [Step.received]), ComesReading, wp_read_unreadable h.started hok]
  exact (comes_callStatusCb (s := { readDone s with
    status := .internalError (str "Failed to read recv byte buffer.") })
    { h with } hcb (by simp [hreading]) hrecv hst).reading

/-- A message. -/
theorem message_comes (bytes : Bytes) :
    ComesReading (Step.exec (.read true ⟨some ⟨some bytes⟩⟩ onMsg cb))
      (Raises s (.read true ⟨some ⟨some bytes⟩⟩ onMsg cb)) args (received ++ [bytes])
      (localError s (.read true ⟨some ⟨some bytes⟩⟩ onMsg cb)) final s := by
  have hzero : s.reading - 1 = 0 := by simp [hreading]
  rw [ComesReading, wp_read_message h.started hok]
  split
  case isFalse hset =>
    have hset : s.msgCb = false := by simpa using hset
    have h₁ : Common args (received ++ [bytes]) final { readDone s with status := .OK } :=
      { h with msgs := by simpa [← h.msgCb, hset] using h.msgs }
    rw [raises_read hcb (by simp [hset])]
    exact (comes_readNext h₁ rfl hcb hzero hrecv hst (by simp [localError, hset])).reading
  case isTrue hset =>
    have hheard := h.heard hset hst bytes
    cases ha : (onMsg bytes).answer with
    | none =>
        have hlocal : localError s (.read true ⟨some ⟨some bytes⟩⟩ onMsg cb) = none := by
          simp [localError, hset, ha]
        refine ⟨rfl, by simp [Raises, Step.received, hset, ha], ?_⟩
        exact { hheard with
          reading := hzero
          receiving := hrecv
          statuses := by
            rw [hlocal, statuses_append, hst]
            cases args.2 <;> rfl }
    | some status =>
        have h₂ : Common args (received ++ [bytes]) final
            { called (readDone s) (.msgCb bytes) with status := status } := { hheard with }
        have hst₂ : statuses (s.trace ++ [.called (.msgCb bytes)]) = [] := by
          simpa [statuses] using hst
        rw [raises_read hcb (by simp [Step.received, ha]), Option.elim_some]
        by_cases he : status.ok = true
        · rw [if_neg (by simp [he])]
          exact (comes_readNext h₂ he hcb hzero hrecv hst₂
            (by simp [localError, hset, ha, he])).reading
        · have hlocal : localError s (.read true ⟨some ⟨some bytes⟩⟩ onMsg cb) = some status := by
            simp [localError, hset, ha, he]
          rw [if_pos (by simp [he]), hlocal]
          exact (comes_callStatusCb h₂ hcb hzero hrecv hst₂).reading

end read

/-- A read is completed. -/
theorem read_phase {args? : Option (Bool × Bool)} {error : Option Status}
    (h : Phase final s args? received error) (success : Bool) (tag : CodRecvMsg)
    (onMsg : Bytes → React) (cb : Status → React) (hl : 0 < s.reading) :
    wp (Step.exec (.read success tag onMsg cb))
      (fun _ s' => Raises s (.read success tag onMsg cb) = false ∧
        Phase final s' args? (received ++ (Step.read success tag onMsg cb).received)
          (error.or (localError s (.read success tag onMsg cb))))
      (fun e s' => e = .exception ∧ Raises s (.read success tag onMsg cb) = true ∧
        ∃ args, args? = some args ∧
          Halted args (received ++ (Step.read success tag onMsg cb).received)
            (error.or (localError s (.read success tag onMsg cb))) final s') s := by
  cases h with
  | fresh _ _ hreading _ _ _ => exact absurd hl (by simp [hreading])
  | receiving _ hreading _ _ => exact absurd hl (by simp [hreading])
  | ended _ hreading _ _ => exact absurd hl (by simp [hreading])
  | @reading args received h hok hcb hreading hrecv hst =>
      rw [Option.none_or]
      have hcomes : ComesReading (Step.exec (.read success tag onMsg cb))
          (Raises s (.read success tag onMsg cb)) args
          (received ++ (Step.read success tag onMsg cb).received)
          (localError s (.read success tag onMsg cb)) final s := by
        cases success with
        | false =>
            rw [show (Step.read false tag onMsg cb).received = [] from rfl, List.append_nil]
            exact failure_comes h hok hcb hreading hrecv hst tag
        | true =>
            obtain ⟨_ | ⟨_ | bytes⟩⟩ := tag
            · rw [show (Step.read true ⟨none⟩ onMsg cb).received = [] from rfl, List.append_nil]
              exact end_comes h hok hcb hreading hrecv hst
            · rw [show (Step.read true ⟨some ⟨none⟩⟩ onMsg cb).received = [] from rfl,
                List.append_nil]
              exact unreadable_comes h hok hcb hreading hrecv hst
            · exact message_comes h hok hcb hreading hrecv hst bytes
      exact wp_mono hcomes (fun _ _ h' => h') fun _ _ h' => ⟨h'.1, h'.2.1, args, rfl, h'.2.2⟩

end phases

/-! ### Runs -/

/-- The callbacks of the step do not raise. -/
def Step.Returns : Step → Prop
  | call _ cb => ∀ st, (cb st).answer.isSome
  | read _ _ onMsg cb => (∀ msg, (onMsg msg).answer.isSome) ∧ ∀ st, (cb st).answer.isSome
  | recvStatus _ cb => ∀ st, (cb st).answer.isSome

theorem Step.Returns.raises {l : Step} (h : l.Returns) (s : Reader) : Raises s l = false := by
  have hcb : ∀ {cb : Status → React} {st? : Option Status}, (∀ st, (cb st).answer.isSome) →
      (st?.any fun st => (cb st).answer.isNone) = false := by
    intro cb st? hcb
    cases st? with
    | none => rfl
    | some st => simpa using hcb st
  cases l with
  | call c cb => exact hcb h
  | recvStatus success cb => exact hcb h
  | read success tag onMsg cb =>
      have hmsg : ((Step.read success tag onMsg cb).received.any fun msg =>
          (onMsg msg).answer.isNone) = false := by
        rw [List.any_eq_false]
        intro msg _
        rw [Bool.not_eq_true, Option.isNone_eq_false_iff]
        exact h.1 msg
      rw [Raises, hmsg, hcb h.2, Bool.and_false, Bool.or_false]

/-- The callbacks of the first call of `Start()`. -/
def args (ls : List Step) : Option (Bool × Bool) := ls.findSome? Step.args

/-- The messages received, in order. -/
def received (ls : List Step) : List Bytes := ls.flatMap Step.received

/-- The first local error of the run. -/
def firstError : Process Reader → List Step → Option Status
  | _, [] => none
  | .stopped _ _, _ :: _ => none
  | .running s, l :: ls =>
      (localError s l).or (firstError (Process.next Step.exec (.running s) l) ls)

theorem firstError_concat {c : Process Reader} {ls : List Step} (l : Step)
    (hs : Process.after Step.exec c ls = .running s) :
    firstError c (ls ++ [l]) = (firstError c ls).or (localError s l) := by
  induction ls generalizing c with
  | nil =>
      cases hs
      simp [firstError]
  | cons l' ls ih =>
      cases c with
      | stopped e s' =>
          rw [Process.after_stopped] at hs
          cases hs
      | running s' =>
          simp only [List.cons_append, firstError, ih hs, Option.or_assoc]

/-- What the run promises of the object it leads to: `args` are the callbacks it was started with,
`received` the messages that came, and `error` is the first local error. -/
structure Proper (args : Option (Bool × Bool)) (received : List Bytes) (error : Option Status)
    (final : Status) (s : Reader) : Prop where
  one_reading : s.reading ≤ 1
  /-- Every message that came is handed on, in order. -/
  msgs : msgs s.trace = if args.any (·.1) then received else []
  /-- After an error no message can come. -/
  error_last : error ≠ none → s.reading = 0
  once : (statuses s.trace).length ≤ 1
  status : ∀ st ∈ statuses s.trace, st = error.getD final
  msgs_first : Whenever MsgsFirst s.trace
  /-- With nothing in flight, the status has been told. -/
  told : args.any (·.2) = true → s.reading = 0 → s.receiving = [] →
    statuses s.trace = [error.getD final]

theorem Phase.proper {args? : Option (Bool × Bool)} {received : List Bytes}
    {error : Option Status} {final : Status} (h : Phase final s args? received error) :
    Proper args? received error final s := by
  cases h with
  | fresh hs hok hreading hrecv hfinal htr =>
      constructor <;> simp [hreading, htr, statuses, Reader.msgs]
  | reading h hok hcb hreading hrecv hst =>
      constructor <;> simp [hreading, hst, h.msgs, h.msgs_first]
  | receiving h hreading hrecv hst =>
      constructor <;> simp [hreading, hst, h.msgs, h.msgs_first, hrecv]
  | @ended args received error h hreading hrecv hst =>
      cases hset : args.2 <;> constructor <;>
        simp [hreading, hst, h.msgs, h.msgs_first, hset]

/-- A step whose callbacks do not raise leads from phase to phase. -/
theorem step_phase {args? : Option (Bool × Bool)} {received : List Bytes} {error : Option Status}
    {final : Status} (h : Phase final s args? received error) (l : Step) (hl : Step.Enabled s l)
    (hr : l.Returns) :
    wp l.exec (fun _ s' => Phase final s' (args?.or l.args) (received ++ l.received)
      (error.or (localError s l))) (fun _ _ => False) s := by
  have hno := hr.raises s
  cases l with
  | call c cb =>
      refine wp_mono (call_phase h c cb) ?_ ?_
      · rintro _ s' ⟨-, h'⟩
        rwa [show (Step.call c cb).received = [] from rfl, List.append_nil]
      · rintro _ s' ⟨-, hyes, -⟩
        exact absurd (hno.symm.trans hyes) (by simp)
  | read success tag onMsg cb =>
      refine wp_mono (read_phase h success tag onMsg cb hl) ?_ ?_
      · rintro _ s' ⟨-, h'⟩
        rwa [show (Step.read success tag onMsg cb).args = none from rfl, Option.or_none]
      · rintro _ s' ⟨-, hyes, -⟩
        exact absurd (hno.symm.trans hyes) (by simp)
  | recvStatus success cb =>
      refine wp_mono (recvStatus_phase h success cb hl) ?_ ?_
      · rintro _ s' ⟨-, h'⟩
        rwa [show (Step.recvStatus success cb).args = none from rfl, Option.or_none,
          show (Step.recvStatus success cb).received = [] from rfl, List.append_nil]
      · rintro _ s' ⟨-, hyes, -⟩
        exact absurd (hno.symm.trans hyes) (by simp)

/-- **The life of the stream.**  Whatever comes, and whatever gRPC refuses, as long as no callback
raises. -/
theorem runs_proper (request : Bytes) (starts : List Bool) (final : Status) (ls : List Step)
    (h : Legal (new request starts final) ls) (hr : ∀ l ∈ ls, l.Returns) :
    ∃ s, after (new request starts final) ls = .running s ∧
      Proper (args ls) (received ls) (firstError (.running (new request starts final)) ls) final
        s := by
  have hstep : ∀ pre s l, after (new request starts final) pre = .running s →
      Phase final s (args pre) (received pre)
        (firstError (.running (new request starts final)) pre) →
      Step.Enabled s l ∧ l.Returns →
      wp l.exec (fun _ s' => Phase final s' (args (pre ++ [l])) (received (pre ++ [l]))
        (firstError (.running (new request starts final)) (pre ++ [l]))) (fun _ _ => False) s := by
    rintro pre s l hs hI ⟨hl, hret⟩
    have hargs : [l].findSome? Step.args = l.args := by
      simp only [List.findSome?_cons, List.findSome?_nil]
      cases l.args <;> rfl
    rw [firstError_concat l hs, args, List.findSome?_append, hargs, received,
      List.flatMap_append, List.flatMap_singleton]
    exact step_phase hI l hl hret
  obtain ⟨s, hs, hphase⟩ := Process.history (.fresh rfl rfl rfl rfl rfl rfl) hstep
    (h.and (.of_forall hr))
  exact ⟨s, hs, hphase.proper⟩

/-- One message, the end of the stream, and the final status. -/
def readingRun : List Step :=
  [.call (.start true true) fun _ => .ret .OK,
    .read true ⟨some ⟨some [1]⟩⟩ (fun _ => .ret .OK) fun _ => .ret .OK,
    .read true ⟨none⟩ (fun _ => .ret .OK) fun _ => .ret .OK,
    .recvStatus true fun _ => .ret .OK]

theorem runs_proper_readingRun :
    ∃ s, after (new [] [] .OK) readingRun = .running s ∧
      Proper (args readingRun) (received readingRun)
        (firstError (.running (new [] [] .OK)) readingRun) .OK s :=
  runs_proper [] [] .OK readingRun (by decide)
    (by simp [readingRun, Step.Returns, Reaction.answer])

end GrpcLua.Reader
