import GrpcLua.Client.Reader.Telling
import GrpcLua.Client.ReaderWriter.Telling
import GrpcLua.Client.Writer.Completions
import GrpcLua.Core.Guarded

/-!
# Client — AsyncCalls

What the asynchronous objects submit on their call, against what gRPC permits.  A synchronous object
leaves part of it to its user; an asynchronous one does not, whatever is called in whatever order,
by the user or by the callbacks, and whichever batches are refused (`async_permitted`).  Each object
has a member for every operation that it must not repeat, and sets it before it submits the batch.
-/

namespace GrpcLua
open Prog Trace

/-! ### The writer -/

namespace Writer
variable {s : Writer}

/-- The metadata are the constructor's; the rest is the close batch. -/
def guard (s : Writer) : Op → Bool
  | .sendInitMd => true
  | _ => s.hasSentClose

theorem guard_env (s : Writer) (e : Env Cb) (op : Op) (h : guard s op = true) :
    guard (HasEnv.setEnv s e) op = true := h

/-- A change that spares the trace and `has_sent_close_` keeps the guard. -/
theorem modify_guard {g : Writer → Writer}
    (h : ∀ s, (g s).trace = s.trace ∧ (g s).hasSentClose = s.hasSentClose) :
    Follows (KeepsGuard guard) (modify g : M PUnit) := by
  refine modify_guarded (fun s => (h s).1) fun s op hs => ?_
  cases op with
  | sendInitMd => rfl
  | _ => exact (h s).2.trans hs

section functions
variable {k : Status → M Unit} (hk : ∀ st, Follows (KeepsGuard guard) (k st))
include hk

/-- `CallCloseCb` submits nothing. -/
theorem callCloseCb_guard (sMsg : Bytes) : Follows (KeepsGuard guard) (callCloseCb k sMsg) := by
  refine .bind .get fun s => ?_
  cases s.closeCb with
  | none => exact .pure
  | some n =>
      exact .bind (emit_guarded guard_env trivial) fun _ => .bind (hk _) fun _ =>
        modify_guard fun _ => ⟨rfl, rfl⟩

theorem tryToCallCloseCb_guard : Follows (KeepsGuard guard) (tryToCallCloseCb k) :=
  .bind .check fun _ => .bind .get fun _ => .ite (callCloseCb_guard hk _) .pure

/-- `SendNext` submits messages only, which may be repeated. -/
theorem sendNext_guard : Follows (KeepsGuard guard) (sendNext k) :=
  .bind .check fun _ => .bind .check fun _ => .bind .get fun _ =>
    .bind (startBatch_guarded guard_env (by simp [Op.repeats])) fun _ => .ite
      (.bind (modify_guard fun _ => ⟨rfl, rfl⟩) fun _ => .pure)
      (.bind (modify_guard fun _ => ⟨rfl, rfl⟩) fun _ =>
        .bind (tryToCallCloseCb_guard hk) fun _ => .pure)

/-- The close batch is submitted where `has_sent_close_` is not set, and it is set by then. -/
theorem sendClose_guard : Follows (KeepsGuard guard) (sendClose k) := by
  refine .bind .check fun _ s => ?_
  simp only [wp_bind, wp_check, wp_modify, wp_submit, wp_ite]
  split
  case isFalse => exact id
  case isTrue hclose =>
  have hup : ∀ (s' : Writer) op, s'.hasSentClose = true → guard s op = true →
      guard s' op = true := by
    intro s' op hs' _
    cases op with
    | sendInitMd => rfl
    | _ => exact hs'
  have hsubmit : ∀ started, KeepsGuard guard s
      (submitted { s with hasSentClose := true }
        [.clientSendClose, .recvInitMd, .recvMsg, .clientRecvStatus] started) := by
    intro started h
    refine h.submit rfl (fun op hop _ => ?_) fun op => hup _ op rfl
    have hdown : s.hasSentClose = false := by simpa using hclose
    rcases List.mem_cons.mp hop with rfl | hop
    · exact ⟨hdown, rfl⟩
    · simp only [List.mem_cons, List.not_mem_nil, or_false] at hop
      rcases hop with rfl | rfl | rfl <;> exact ⟨hdown, rfl⟩
  split
  case isFalse => exact fun h => h.raise rfl fun op => hup _ op rfl
  case isTrue =>
    split
    · exact fun h => (hsubmit _ h).raise rfl fun _ => id
    · have hrefused : KeepsGuard guard s { submitted { s with hasSentClose := true }
          [.clientSendClose, .recvInitMd, .recvMsg, .clientRecvStatus] (s.starts.headD true) with
            status := .internalError (str "Failed to close client-side streaming.") } :=
        fun h => (hsubmit _ h).raise rfl fun _ => id
      exact (callCloseCb_guard hk []).wp hrefused (fun _ _ h' => h') fun _ _ h' => h'

theorem call_guard (c : Call) : Follows (KeepsGuard guard) (c.exec k) := by
  cases c with
  | write request =>
      refine .bind ?_ fun _ => emit_guarded guard_env trivial
      exact .bind .get fun _ => .ite .pure <| .ite .pure <|
        .bind (modify_guard fun _ => ⟨rfl, rfl⟩) fun _ => .ite .pure (sendNext_guard hk)
  | close given =>
      exact .bind .get fun _ => .bind (emit_guarded guard_env trivial) fun _ =>
        .bind .get fun _ => .ite .pure <| .bind (modify_guard fun _ => ⟨rfl, rfl⟩) fun _ =>
        .ite (callCloseCb_guard hk _) <| .ite (sendClose_guard hk) .pure

end functions

/-- Whatever a callback calls keeps the guard. -/
theorem prog_guard (r : React) : Follows (KeepsGuard guard) r.prog :=
  Follows.reaction (fun c _ hk => call_guard hk c) r

/-- Every call and every completion keeps the guard. -/
theorem step_guard (l : Step) : Follows (KeepsGuard guard) l.exec := by
  have hk : ∀ cb : Status → React, ∀ st, Follows (KeepsGuard guard) (cb st).prog :=
    fun cb st => prog_guard (cb st)
  cases l with
  | call c cb => exact call_guard (hk cb) c
  | sent success cb =>
      exact .bind .get fun _ => .bind (modify_guard fun _ => ⟨rfl, rfl⟩) fun _ =>
        .bind (emit_guarded guard_env trivial) fun _ => .bind .check fun _ =>
        .bind (modify_guard fun _ => ⟨rfl, rfl⟩) fun _ => .bind .get fun _ => .ite .check <|
        .ite (.bind (modify_guard fun _ => ⟨rfl, rfl⟩) fun _ => tryToCallCloseCb_guard (hk cb)) <|
        .ite (.bind (sendNext_guard (hk cb)) fun _ => .pure) <|
        .ite (sendClose_guard (hk cb)) .pure
  | closed success tag cb =>
      refine .bind .get fun _ => .bind (modify_guard fun _ => ⟨rfl, rfl⟩) fun _ =>
        .bind (emit_guarded guard_env trivial) fun _ => .bind .get fun _ => .ite .check <|
        .ite (.bind (modify_guard fun _ => ⟨rfl, rfl⟩) fun _ => callCloseCb_guard (hk cb) _) <|
        .bind (fun s => ?_) fun _ =>
          .bind (modify_guard fun _ => ⟨rfl, rfl⟩) fun _ => callCloseCb_guard (hk cb) _
      exact CodRecvMsg.wp_getResultMsg (fun _ => id) id

/-- The constructor submits the initial metadata, once. -/
theorem guarded_new (starts : List Bool) (final : Status) : Guarded guard (new starts final) := by
  have hempty : Guarded guard (empty starts final) :=
    ⟨whenever_nil, fun _ _ h => absurd h (by simp [empty, startedOp])⟩
  refine endState_of_wp (P := Guarded guard) ?_
  simp only [construct, wp_bind, wp_submit, wp_ite, wp_pure, wp_modify, wp_check]
  have hinit : ∀ started, Guarded guard (submitted (empty starts final) [.sendInitMd] started) := by
    intro started
    refine ⟨(whenever_singleton _).mpr fun _ _ _ => rfl, fun op hop hs => ?_⟩
    have hs : startedOp op [(.batch [.sendInitMd] started : Event Cb)] = true := hs
    rw [startedOp_batch, Bool.and_eq_true] at hs
    obtain rfl : op = .sendInitMd := List.mem_singleton.mp (by simpa using hs.2)
    rfl
  split
  · exact hinit _
  · split
    all_goals exact (hinit _).raise rfl fun _ => id

end Writer

/-! ### The reader-writer -/

namespace ReaderWriter
variable {s : ReaderWriter}

/-- The metadata go with `InitIfNot()`, the half-close with `SendClose()`, and the status is never
received. -/
def guard (s : ReaderWriter) : Op → Bool
  | .sendInitMd => s.inited
  | .recvInitMd => s.inited
  | .clientSendClose => s.hasSentClose
  | _ => false

theorem guard_env (s : ReaderWriter) (e : Env Cb) (op : Op) (h : guard s op = true) :
    guard (HasEnv.setEnv s e) op = true := h

/-- The guard only grows: neither member is ever reset. -/
theorem guard_mono {s' : ReaderWriter} (hinit : s.inited = true → s'.inited = true)
    (hclose : s.hasSentClose = true → s'.hasSentClose = true) (op : Op) (h : guard s op = true) :
    guard s' op = true := by
  cases op with
  | sendInitMd => exact hinit h
  | recvInitMd => exact hinit h
  | clientSendClose => exact hclose h
  | _ => exact h

/-- A change that spares the trace and both members keeps the guard. -/
theorem modify_guard {g : ReaderWriter → ReaderWriter}
    (h : ∀ s, (g s).trace = s.trace ∧ (g s).inited = s.inited ∧
      (g s).hasSentClose = s.hasSentClose) :
    Follows (KeepsGuard guard) (modify g : M PUnit) :=
  modify_guarded (fun s => (h s).1) fun s =>
    guard_mono (fun hs => (h s).2.1.trans hs) fun hs => (h s).2.2.trans hs

section functions
variable {k : Status → M Status} (hk : ∀ st, Follows (KeepsGuard guard) (k st))
include hk

theorem callStatusCb_guard : Follows (KeepsGuard guard) (callStatusCb k) :=
  .bind .get fun _ => .ite
    (.bind (emit_guarded guard_env trivial) fun _ => .bind (hk _) fun _ =>
      modify_guard fun _ => ⟨rfl, rfl, rfl⟩) .pure

/-- Ending with an error submits nothing. -/
theorem endOnErrorStatus_guard (e : Status) : Follows (KeepsGuard guard) (endOnErrorStatus k e) :=
  .bind .check fun _ => .bind .check fun _ => .bind (modify_guard fun _ => ⟨rfl, rfl, rfl⟩) fun _ =>
    .bind (callStatusCb_guard hk) fun _ => modify_guard fun _ => ⟨rfl, rfl, rfl⟩

theorem setInternalError_guard (sError : Bytes) :
    Follows (KeepsGuard guard) (setInternalError k sError) :=
  .bind .check fun _ => endOnErrorStatus_guard hk _

/-- Both batches of metadata are submitted where `inited_` is not set, and it is set by then. -/
theorem initIfNot_guard : Follows (KeepsGuard guard) (initIfNot k) := by
  intro s
  simp only [initIfNot, wp_bind, wp_get, wp_ite, wp_pure, wp_modify, wp_submit]
  split
  case isTrue => exact id
  case isFalse hinited =>
  rw [Bool.not_eq_true] at hinited
  have hup : ∀ op, guard s op = true → guard { s with inited := true } op = true :=
    guard_mono (fun _ => rfl) id
  -- The first batch raises the guard of both; the second is not there yet.
  have hone : ∀ started, KeepsGuard guard s
      (submitted { s with inited := true } [.sendInitMd] started) := by
    intro started h
    refine h.submit rfl (fun op hop _ => ?_) hup
    obtain rfl := List.mem_singleton.mp hop
    exact ⟨hinited, rfl⟩
  have htwo : ∀ first second, KeepsGuard guard s
      (submitted (submitted { s with inited := true } [.sendInitMd] first) [.recvInitMd]
        second) := by
    intro first second h
    have hunread : startedOp .recvInitMd s.trace = false := by
      by_contra hs
      exact absurd (h.raised .recvInitMd rfl (by simpa using hs)) (by simp [guard, hinited])
    have hfree : startedOp .recvInitMd (s.trace ++ [.batch [.sendInitMd] first]) = false := by
      rw [startedOp_append, hunread, startedOp_batch]
      cases first <;> rfl
    have h₁ := hone first h
    refine ⟨(whenever_concat _).mpr ⟨h₁.singles, fun op hop _ => ?_⟩, fun op hop hs => ?_⟩
    · obtain rfl : op = .recvInitMd := List.mem_singleton.mp hop
      exact hfree
    · have hs : startedOp op (s.trace ++ [.batch [.sendInitMd] first] ++
          [.batch [.recvInitMd] second]) = true := hs
      rw [startedOp_append, startedOp_batch, Bool.or_eq_true, Bool.and_eq_true] at hs
      rcases hs with hs | ⟨-, hs⟩
      · exact h₁.raised op hop hs
      · obtain rfl : op = .recvInitMd := List.mem_singleton.mp (by simpa using hs)
        rfl
  split
  · exact fun h => h.raise rfl hup
  split
  · exact (setInternalError_guard hk _).wp (hone _) (fun _ _ h' => h') fun _ _ h' => h'
  split
  · exact (setInternalError_guard hk _).wp (htwo _ _) (fun _ _ h' => h') fun _ _ h' => h'
  · exact htwo _ _

/-- `SendNext` submits messages only, which may be repeated. -/
theorem sendNext_guard : Follows (KeepsGuard guard) (sendNext k) :=
  .bind .check fun _ => .bind .check fun _ => .bind .get fun _ =>
    .bind (startBatch_guarded guard_env (by simp [Op.repeats])) fun _ => .ite
      (.bind (modify_guard fun _ => ⟨rfl, rfl, rfl⟩) fun _ => .pure)
      (.bind (setInternalError_guard hk _) fun _ => .pure)

/-- `ReadNext` submits one read, which may be repeated. -/
theorem readNext_guard : Follows (KeepsGuard guard) (readNext k) :=
  .bind .check fun _ => .bind (startBatch_guarded guard_env (by simp [Op.repeats])) fun _ =>
    .ite (modify_guard fun _ => ⟨rfl, rfl, rfl⟩) (setInternalError_guard hk _)

/-- The half-close is submitted where `has_sent_close_` is not set, and it is set by then. -/
theorem sendClose_guard : Follows (KeepsGuard guard) (sendClose k) := by
  refine .bind .check fun _ s => ?_
  simp only [wp_bind, wp_check, wp_modify, wp_submit, wp_ite, wp_pure]
  split
  case isFalse => exact id
  case isTrue hclose =>
  have hup : ∀ op, guard s op = true → guard { s with hasSentClose := true } op = true :=
    guard_mono id fun _ => rfl
  have hsubmit : ∀ started, KeepsGuard guard s
      (submitted { s with hasSentClose := true, writingEnded := true } [.clientSendClose]
        started) := by
    intro started h
    refine h.submit rfl (fun op hop _ => ?_) hup
    have hdown : s.hasSentClose = false := by simpa using hclose
    obtain rfl : op = .clientSendClose := List.mem_singleton.mp hop
    exact ⟨hdown, rfl⟩
  split
  case isFalse => exact fun h => h.raise rfl hup
  case isTrue =>
    split
    · exact hsubmit _
    · exact (setInternalError_guard hk _).wp (hsubmit _) (fun _ _ h' => h')
        fun _ _ h' => h'

/-- The half-close goes through `SendClose`. -/
theorem closeWriting_guard : Follows (KeepsGuard guard) (closeWriting k) :=
  .bind .get fun _ => .ite .pure <| .bind (modify_guard fun _ => ⟨rfl, rfl, rfl⟩) fun _ =>
    .ite .pure <| .ite .pure <| .bind .check fun _ => .bind (sendClose_guard hk) fun _ => .check

theorem call_guard (c : Call) : Follows (KeepsGuard guard) (c.exec k) := by
  cases c with
  | write msg =>
      refine .bind ?_ fun _ => emit_guarded guard_env trivial
      exact .bind (initIfNot_guard hk) fun _ => .bind .get fun _ => .ite
        (.bind .check fun _ => .pure) <| .ite .pure <|
        .bind (modify_guard fun _ => ⟨rfl, rfl, rfl⟩) fun _ => .ite .pure (sendNext_guard hk)
  | closeWriting => exact closeWriting_guard hk
  | readEach msgCb =>
      exact .bind .get fun _ => .ite .pure <| .bind (modify_guard fun _ => ⟨rfl, rfl, rfl⟩) fun _ =>
        .bind (initIfNot_guard hk) fun _ => .bind .get fun _ => .ite .pure <|
        .bind (modify_guard fun _ => ⟨rfl, rfl, rfl⟩) fun _ => readNext_guard hk
  | setErrorStatus e =>
      exact .bind .check fun _ => .bind .get fun _ => .ite (endOnErrorStatus_guard hk e)
        (modify_guard fun _ => ⟨rfl, rfl, rfl⟩)
  | destroyWrapper =>
      exact .bind (closeWriting_guard hk) fun _ => modify_guard fun _ => ⟨rfl, rfl, rfl⟩

end functions

/-- Whatever a callback calls keeps the guard. -/
theorem prog_guard (r : React) : Follows (KeepsGuard guard) r.prog :=
  Follows.reaction (fun c _ hk => call_guard hk c) r

/-- Every call and every completion keeps the guard. -/
theorem step_guard (l : Step) : Follows (KeepsGuard guard) l.exec := by
  have hk : ∀ cb : Status → React, ∀ st, Follows (KeepsGuard guard) (cb st).prog :=
    fun cb st => prog_guard (cb st)
  cases l with
  | call c cb => exact call_guard (hk cb) c
  | sent success cb =>
      exact .bind .get fun _ => .bind (modify_guard fun _ => ⟨rfl, rfl, rfl⟩) fun _ =>
        .bind (emit_guarded guard_env trivial) fun _ => .bind .check fun _ =>
        .bind (modify_guard fun _ => ⟨rfl, rfl, rfl⟩) fun _ => .bind .get fun _ => .ite .check <|
        .ite (setInternalError_guard (hk cb) _) <|
        .ite (.bind (sendNext_guard (hk cb)) fun _ => .pure) <| .ite .pure <|
        .bind (sendClose_guard (hk cb)) fun _ => .bind .check fun _ => .bind .get fun _ =>
        .ite (callStatusCb_guard (hk cb)) .pure
  | read success tag onMsg cb =>
      refine .bind (modify_guard fun _ => ⟨rfl, rfl, rfl⟩) fun _ => .bind .check fun _ =>
        .bind .get fun _ => .ite .check <| .ite (setInternalError_guard (hk cb) _) <| .ite
        (.bind (modify_guard fun _ => ⟨rfl, rfl, rfl⟩) fun _ =>
          .ite (callStatusCb_guard (hk cb)) .pure) <|
        .bind (fun s => ?_) fun _ => .ite (endOnErrorStatus_guard (hk cb) _) <| .ite
        (.bind (emit_guarded guard_env trivial) fun _ => .bind (prog_guard (onMsg _)) fun _ =>
          .ite (endOnErrorStatus_guard (hk cb) _) (readNext_guard (hk cb)))
        (readNext_guard (hk cb))
      exact CodRecvMsg.wp_getResultMsg (fun _ => id) id

/-- Nothing has been submitted by the constructor. -/
theorem guarded_new (given : Bool) (starts : List Bool) (final : Status) :
    Guarded guard (new given starts final) :=
  ⟨whenever_nil, fun _ _ h => absurd h (by simp [new, startedOp])⟩

end ReaderWriter

/-! ### The reader -/

namespace Reader
variable {s : Reader}

/-- The batches are in order, one read is in flight at a time, and while one is, the status is not
received. -/
structure Asks (s : Reader) : Prop where
  singles : Whenever Singles s.trace
  order : Whenever ClosesLast s.trace
  one_reading : s.reading ≤ 1
  fresh : s.isStarted = false → s.reading = 0 ∧ s.receiving = [] ∧ s.trace = []
  waits : 0 < s.reading → startedOp .clientRecvStatus s.trace = false

/-- An event that is no batch. -/
theorem Asks.event (h : Asks s) (hs : s.isStarted = true) {e : Event Cb} (he : e.Silent) :
    Asks { s with trace := s.trace ++ [e] } := by
  have hsilent : ∀ e' ∈ [e], e'.Silent := by simpa using he
  refine ⟨(whenever_concat e).mpr ⟨h.singles, ?_⟩, (whenever_concat e).mpr ⟨h.order, ?_⟩,
    h.one_reading, fun h' => absurd (hs.symm.trans h') (by simp), fun hr => ?_⟩
  · cases e with
    | batch b started => exact he.elim
    | _ => trivial
  · cases e with
    | batch b started => exact he.elim
    | _ => trivial
  · exact ((silent_append hsilent).1 _).trans (h.waits hr)

/-- A batch that sends nothing, by an object that has no read in flight before it. -/
theorem Asks.batch (h : Asks s) (hs : s.isStarted = true) {b : Batch} {reading : Nat}
    (hr : reading ≤ 1) {started : Bool}
    (hb : ∀ op ∈ b, op.repeats = false → startedOp op s.trace = false)
    (hm : b.msg? = none) (hc : b.closes = false)
    (hwaits : 0 < reading →
      startedOp .clientRecvStatus (s.trace ++ [.batch b started]) = false) (starts : List Bool) :
    Asks { s with
      reading := reading, starts := starts, trace := s.trace ++ [.batch b started] } where
  singles := (whenever_concat _).mpr ⟨h.singles, hb⟩
  order := (whenever_concat _).mpr
    ⟨h.order, fun h' => absurd (hc.symm.trans h') (by simp), fun h' => absurd hm h'⟩
  one_reading := hr
  fresh := fun h' => absurd (hs.symm.trans h') (by simp)
  waits := hwaits

section functions
variable {cb : Status → React}

/-- `status_cb_` submits nothing: a `Start()` that it calls finds the call started. -/
theorem wp_callStatusCb_asks (h : Asks s) (hs : s.isStarted = true) :
    wp (callStatusCb fun st => (cb st).prog) (fun _ => Asks) (fun _ => Asks) s := by
  have htold : Asks (called s (.statusCb s.status)) := h.event hs trivial
  refine (wp_callStatusCb hs).mpr ?_
  split
  · cases (cb s.status).answer with
    | none => exact htold
    | some a => exact { htold with }
  · exact h

/-- A read is submitted where none is in flight, and before the final status is asked for. -/
theorem wp_readNext_asks (h : Asks s) (hs : s.isStarted = true) (hr : s.reading = 0)
    (hno : startedOp .clientRecvStatus s.trace = false) :
    wp (readNext fun st => (cb st).prog) (fun _ => Asks) (fun _ => Asks) s := by
  simp only [readNext, wp_bind, wp_check, wp_startBatch, wp_ite, wp_modify, env_eq, setEnv_eq]
  have hread : ∀ op ∈ [Op.recvMsg], op.repeats = false → startedOp op s.trace = false := by
    simp [Op.repeats]
  split
  case isFalse => exact h
  case isTrue =>
    split
    · refine h.batch hs (by rw [hr]) hread rfl rfl (fun _ => ?_) _
      rw [startedOp_append, hno, startedOp_batch]
      exact Bool.and_false _
    · have h₁ : Asks (submitted s [.recvMsg]) :=
        h.batch hs h.one_reading hread rfl rfl (fun hpos => absurd hr (Nat.ne_of_gt hpos)) _
      exact wp_callStatusCb_asks
        (s := { submitted s [.recvMsg] with status := .internalError _ }) { h₁ with } hs

/-- The status is received once: no read is in flight any more. -/
theorem wp_recvStatus_asks (h : Asks s) (hs : s.isStarted = true) (hr : s.reading = 0)
    (hno : startedOp .clientRecvStatus s.trace = false) (statusCb : Bool) :
    wp (recvStatus (fun st => (cb st).prog) statusCb) (fun _ => Asks) (fun _ => Asks) s := by
  simp only [recvStatus, wp_bind, wp_startBatch, wp_ite, wp_modify, wp_emit, wp_pure, env_eq,
    setEnv_eq]
  have h₁ : Asks (submitted s [.clientRecvStatus]) := by
    refine h.batch hs h.one_reading (fun op hop _ => ?_) rfl rfl
      (fun hpos => absurd hr (Nat.ne_of_gt hpos)) _
    obtain rfl : op = .clientRecvStatus := List.mem_singleton.mp hop
    exact hno
  split
  · exact { h₁ with fresh := fun h' => absurd (hs.symm.trans h') (by simp) }
  · split
    · have h₂ : Asks (called (submitted s [.clientRecvStatus])
          (.statusCb (.internalError (str "Failed to receive status.")))) := h₁.event hs trivial
      refine (wp_prog (by exact hs)).mpr ?_
      cases (cb (.internalError (str "Failed to receive status."))).answer with
      | none => exact h₂
      | some a => exact h₂
    · exact h₁

/-- What is done with a message: it is handed on, and then comes the next read. -/
theorem wp_onRead_asks (h : Asks s) (hs : s.isStarted = true) (hr : s.reading = 0)
    (hno : startedOp .clientRecvStatus s.trace = false) {onMsg : Bytes → React} (success : Bool)
    (tag : CodRecvMsg) :
    wp (onRead (fun st => (cb st).prog) (fun msg => (onMsg msg).prog) success tag) (fun _ => Asks)
      (fun _ => Asks) s := by
  simp only [onRead, wp_bind, wp_check, wp_get, wp_ite, wp_modify, wp_emit, env_eq, setEnv_eq]
  rw [if_pos hs]
  split
  case isFalse => exact h
  case isTrue =>
  split
  · exact wp_callStatusCb_asks (s := { s with status := .internalError _ }) { h with } hs
  split
  · exact wp_recvStatus_asks h hs hr hno _
  refine wp_mono CodRecvMsg.getResultMsg_reads ?_ fun _ _ h' => h'.2 ▸ h
  rintro ⟨st, msg⟩ s₁ heq
  subst s₁
  split
  · exact wp_callStatusCb_asks (s := { s with status := st }) { h with } hs
  split
  · -- The callback may call `Start()`, which does nothing.
    have h₁ : Asks (called { s with status := st } (.msgCb msg)) :=
      Asks.event (s := { s with status := st }) { h with } hs trivial
    refine (wp_prog (by exact hs)).mpr ?_
    cases (onMsg msg).answer with
    | none => exact h₁
    | some a =>
        have hno' : startedOp .clientRecvStatus (s.trace ++ [.called (.msgCb msg)]) = false := by
          rw [startedOp_append, hno]
          rfl
        show ite _ _ _
        split
        · exact wp_callStatusCb_asks
            (s := { called { s with status := st } (.msgCb msg) with status := a }) { h₁ with } hs
        · exact wp_readNext_asks
            (s := { called { s with status := st } (.msgCb msg) with status := a }) { h₁ with } hs
            hr hno'
  · exact wp_readNext_asks (s := { s with status := st }) { h with } hs hr hno

end functions

/-- Every step asks for reads and for the final status as gRPC permits. -/
theorem step_asks (h : Asks s) (l : Step) (hl : Step.Enabled s l) :
    wp l.exec (fun _ => Asks) (fun _ => Asks) s := by
  cases l with
  | call c cb =>
      obtain ⟨msgCb, statusCb⟩ := c
      simp only [Step.exec, Call.exec, start, init, wp_bind, wp_get, wp_ite, wp_check, wp_modify,
        wp_pure, wp_startBatch, env_eq, setEnv_eq]
      split
      case isTrue => exact h
      case isFalse hs =>
      obtain ⟨hr, -, htr⟩ := h.fresh (by simpa using hs)
      have hstart : Asks { s with isStarted := true, msgCb := msgCb, statusCb := statusCb } :=
        { h with fresh := fun h' => absurd h' (by simp) }
      split
      case isFalse => exact hstart
      case isTrue =>
      have hfirst : ∀ started, Asks { s with
          isStarted := true, msgCb := msgCb, statusCb := statusCb, starts := s.starts.tail
          trace := s.trace ++ [.batch
            [.sendMsg s.request, .sendInitMd, .recvInitMd, .clientSendClose] started] } := by
        intro started
        refine ⟨?_, ?_, h.one_reading, fun h' => absurd h' (by simp),
          fun hpos => absurd hr (Nat.ne_of_gt hpos)⟩
        · rw [htr, List.nil_append]
          exact (whenever_singleton _).mpr fun _ _ _ => rfl
        · rw [htr, List.nil_append]
          exact (whenever_singleton _).mpr ⟨fun _ => ⟨rfl, rfl⟩, fun _ => rfl⟩
      split
      · refine wp_readNext_asks (hfirst _) rfl hr ?_
        rw [htr, List.nil_append, startedOp_batch]
        exact Bool.and_false _
      · refine wp_mono (wp_callStatusCb_asks (s := { s with
          isStarted := true, msgCb := msgCb, statusCb := statusCb, starts := s.starts.tail
          trace := _, status := .internalError _ }) { hfirst _ with } rfl) ?_ fun _ _ h' => h'
        exact fun _ _ h' => h'
  | read success tag onMsg cb =>
      have hpos : 0 < s.reading := hl
      have hs : s.isStarted = true := by
        by_contra hs
        exact absurd (h.fresh (by simpa using hs)).1 (Nat.ne_of_gt hpos)
      have hr : s.reading - 1 = 0 := Nat.sub_eq_zero_of_le h.one_reading
      simp only [Step.exec, wp_bind, wp_modify]
      refine wp_onRead_asks (s := { s with reading := s.reading - 1 }) ?_ hs hr (h.waits hpos)
        success tag
      exact { h with
        one_reading := by rw [hr]; exact Nat.zero_le 1
        fresh := fun h' => absurd (hs.symm.trans h') (by simp)
        waits := fun hpos' => absurd hr (Nat.ne_of_gt hpos') }
  | recvStatus success cb =>
      have hs : s.isStarted = true := by
        by_contra hs
        exact hl (h.fresh (by simpa using hs)).2.1
      have h₁ : Asks { s with receiving := s.receiving.tail } :=
        { h with fresh := fun h' => absurd (hs.symm.trans h') (by simp) }
      simp only [Step.exec, onRecvStatus, wp_bind, wp_get, wp_modify, wp_ite, wp_pure, wp_emit,
        env_eq, setEnv_eq]
      split
      · exact h₁
      · refine (wp_prog (by exact hs)).mpr ?_
        have h₂ : ∀ st, Asks { s with
            receiving := s.receiving.tail, trace := s.trace ++ [.called (.statusCb st)] } :=
          fun st => h₁.event hs trivial
        split
        all_goals
          cases (cb _).answer with
          | none => exact h₂ _
          | some a => exact h₂ _

/-- The constructor asks for neither. -/
theorem Asks.new (request : Bytes) (starts : List Bool) (final : Status) :
    Asks (new request starts final) :=
  ⟨whenever_nil, whenever_nil, Nat.zero_le 1, fun _ => ⟨rfl, rfl, rfl⟩, fun _ => rfl⟩

end Reader

/-! ### The three objects -/

/-- **The rules of a call, kept.**  Whatever is called on an asynchronous object, by its user or by
its callbacks, which may raise, and whichever batches gRPC refuses: no operation but the messages is
submitted again once it was started, and no message after the half-close. -/
theorem async_permitted (starts : List Bool) (final : Status) :
    (∀ ls, Writer.Legal (.new starts final) ls →
      Permitted (Writer.after (.new starts final) ls).state.trace) ∧
    (∀ request ls, Reader.Legal (.new request starts final) ls →
      Permitted (Reader.after (.new request starts final) ls).state.trace) ∧
    (∀ statusCb ls, ReaderWriter.Legal (.new statusCb starts final) ls →
      Permitted (ReaderWriter.after (.new statusCb starts final) ls).state.trace) := by
  refine ⟨fun ls h => ?_, fun request ls h => ?_, fun statusCb ls h => ?_⟩
  · obtain ⟨s, hs, hI⟩ := Writer.run_keeps h
    have hguard : Guarded Writer.guard (Writer.after (.new starts final) ls).state :=
      Process.invariant_state (P := Writer.Step.Enabled)
        (fun s l hG _ => wp_mono (Writer.step_guard l s) (fun _ _ h' => h' hG) fun _ _ h' => h' hG)
        (Writer.guarded_new starts final) (h.imp fun _ _ hl => hl.1)
    refine permitted_of_singles hguard.singles ?_
    rw [hs]
    exact hI.queue.order
  · have hasks : Reader.Asks (Reader.after (.new request starts final) ls).state :=
      Process.invariant_state (fun _ l hA hl => Reader.step_asks hA l hl)
        (Reader.Asks.new request starts final) h
    exact permitted_of_singles hasks.singles hasks.order
  · have hguard : Guarded ReaderWriter.guard
        (ReaderWriter.after (.new statusCb starts final) ls).state :=
      Process.invariant_state
        (fun s l hG _ => wp_mono (ReaderWriter.step_guard l s) (fun _ _ h' => h' hG)
          fun _ _ h' => h' hG)
        (ReaderWriter.guarded_new statusCb starts final) h
    exact permitted_of_singles hguard.singles (ReaderWriter.run_keeps h).queue.order

/-- A reader-writer that is closed and written to again, a reader started again by its callback, and
a writer closed twice. -/
theorem async_permitted_again :
    Permitted (Writer.after (.new [] .OK) [.call (.write [1]) Writer.idle,
      .call (.close true) Writer.idle, .sent true Writer.idle,
      .call (.close true) Writer.idle]).state.trace ∧
    Permitted (Reader.after (.new [] [] .OK) [.call (.start true true) fun _ => .ret .OK,
      .read true ⟨some ⟨some [1]⟩⟩ (fun _ => .call (.start true true) (fun _ => .raise) (.ret .OK))
        (fun _ => .raise)]).state.trace ∧
    Permitted (ReaderWriter.after (.new true [] .OK) [.call (.write [1]) ReaderWriter.idle,
      .sent true ReaderWriter.idle, .call .closeWriting ReaderWriter.idle,
      .call (.write [2]) ReaderWriter.idle,
      .call (.readEach true) ReaderWriter.idle]).state.trace :=
  ⟨(async_permitted [] .OK).1 _ (by decide), (async_permitted [] .OK).2.1 _ _ (by decide),
    (async_permitted [] .OK).2.2 _ _ (by decide)⟩

end GrpcLua
