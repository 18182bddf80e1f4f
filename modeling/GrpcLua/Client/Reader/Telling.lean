import GrpcLua.Client.Reader.Runs

/-!
# Client — Reader — Telling

What a `ClientAsyncReaderImpl` tells, whether its callbacks raise or not.  The object itself hands
on errors only; an OK status is the one that the server ended the call with (`step_oks`).  After an
exception nothing is in flight any more (`step_goes`).
-/

namespace GrpcLua.Reader
open Prog Trace

variable {s : Reader} {final : Status}

/-- The OK statuses handed to `status_cb_`. -/
def oks (tr : List (Event Cb)) : List Status := (statuses tr).filter Status.ok

@[simp] theorem oks_append (tr tr' : List (Event Cb)) : oks (tr ++ tr') = oks tr ++ oks tr' := by
  simp only [oks, statuses_append, List.filter_append]

/-! ### Errors only -/

/-- The program tells no OK status. -/
abbrev TellsErrors {α : Type} (x : M α) : Prop := Spares (fun s : Reader => oks s.trace) x

theorem startBatch_errors (b : Batch) : TellsErrors (startBatch b) := by
  intro s
  rw [wp_startBatch, env_eq, setEnv_eq]
  exact (oks_append _ _).trans (List.append_nil _)

section functions
variable {k : Status → M Status} (hk : ∀ st, TellsErrors (k st))
include hk

/-- `status_cb_` is handed an error. -/
theorem tell_errors {e : Status} (he : e.ok = false) {s : Reader} {Q : Reader → Prop}
    (hQ : ∀ s', oks s'.trace = oks s.trace → Q s') :
    wp (k e) (fun _ => Q) (fun _ => Q) { s with trace := s.trace ++ [.called (.statusCb e)] } := by
  have hoks : oks (s.trace ++ [.called (.statusCb e)]) = oks s.trace := by
    rw [oks_append]
    simp [oks, statuses, he]
  exact (hk e).wp (fun _ s' h => hQ s' (h.trans hoks)) fun _ s' h => hQ s' (h.trans hoks)

theorem callStatusCb_errors (hs : s.status.ok = false) :
    wp (callStatusCb k) (fun _ s' => oks s'.trace = oks s.trace)
      (fun _ s' => oks s'.trace = oks s.trace) s := by
  simp only [callStatusCb, wp_bind, wp_get, wp_ite, wp_pure, wp_emit, env_eq, setEnv_eq, wp_modify]
  split
  · exact tell_errors hk hs fun s' h => h
  · trivial

/-- An error is noted and told. -/
theorem fail_errors {e : Status} (he : e.ok = false) :
    TellsErrors (do modify fun s => { s with status := e }; callStatusCb k) := by
  intro s
  rw [wp_bind, wp_modify]
  exact callStatusCb_errors hk (s := { s with status := e }) he

theorem readNext_errors : TellsErrors (readNext k) :=
  .bind .check fun _ => .bind (startBatch_errors _) fun _ =>
    .ite (.modify fun _ => rfl) (fail_errors hk rfl)

theorem start_errors (msgCb statusCb : Bool) : TellsErrors (start k msgCb statusCb) := by
  have hinit : TellsErrors (init k) := by
    refine .bind .check fun _ => .bind .get fun s => .bind (startBatch_errors _) fun _ =>
      .ite .pure ?_
    intro s₁
    rw [wp_bind, wp_modify, wp_bind]
    exact wp_mono (callStatusCb_errors hk (s := { s₁ with status := .internalError _ }) rfl)
      (fun _ _ h => h) fun _ _ h => h
  exact .bind .get fun _ => .ite .pure <| .bind (.modify fun _ => rfl) fun _ =>
    .bind .check fun _ => .bind hinit fun _ => .ite (readNext_errors hk) .pure

theorem recvStatus_errors (statusCb : Bool) : TellsErrors (recvStatus k statusCb) := by
  refine .bind (startBatch_errors _) fun _ => .ite (.modify fun _ => rfl) (.ite ?_ .pure)
  intro s
  simp only [wp_bind, wp_emit, env_eq, setEnv_eq, wp_pure]
  exact tell_errors hk rfl fun s' h => h

theorem onRead_errors {onMsg : Bytes → M Status} (hmsg : ∀ msg, TellsErrors (onMsg msg))
    (success : Bool) (tag : CodRecvMsg) : TellsErrors (onRead k onMsg success tag) := by
  have hheard : ∀ (s : Reader) (msg : Bytes),
      oks (s.trace ++ [.called (.msgCb msg)]) = oks s.trace := fun s msg =>
    (oks_append _ _).trans (List.append_nil _)
  refine .bind .check fun _ => .bind .check fun _ => .ite (fail_errors hk rfl) <| .ite
    (.bind .get fun _ => recvStatus_errors hk _) ?_
  intro s
  rw [wp_bind]
  refine CodRecvMsg.wp_getResultMsg ?_ rfl
  rintro ⟨status, sMsg⟩
  simp only [wp_bind, wp_modify, wp_ite, wp_get]
  split
  case isTrue hstatus =>
    exact callStatusCb_errors hk (s := { s with status := status }) (by simpa using hstatus)
  case isFalse hstatus =>
    split
    case isFalse => exact readNext_errors hk { s with status := status }
    case isTrue =>
      rw [wp_emit, env_eq, setEnv_eq]
      refine (hmsg sMsg).wp (fun st s₁ h₁ => ?_) fun _ s₁ h₁ => h₁.trans (hheard _ _)
      have h₂ : oks s₁.trace = oks s.trace := h₁.trans (hheard _ _)
      split
      case isTrue hst =>
        exact wp_mono (callStatusCb_errors hk (s := { s₁ with status := st }) (by simpa using hst))
          (fun _ _ h => h.trans h₂) fun _ _ h => h.trans h₂
      case isFalse hst =>
        exact (readNext_errors hk).wp (s := { s₁ with status := st })
          (fun _ _ h => h.trans h₂) fun _ _ h => h.trans h₂

end functions

/-- Whatever a callback does, it tells no OK status. -/
theorem prog_errors (r : React) : TellsErrors r.prog :=
  Reaction.spares (fun c _ hk => by cases c with
    | start msgCb statusCb => exact start_errors hk _ _) r

/-- **Telling.**  An OK status that a step tells is the final one, and has been received. -/
theorem step_oks (l : Step) (s : Reader) :
    wp l.exec
      (fun _ s' => oks s'.trace = oks s.trace ∨
        (∃ cb, l = .recvStatus true cb) ∧ oks s'.trace = oks s.trace ++ [s.final].filter Status.ok)
      (fun _ s' => oks s'.trace = oks s.trace ∨
        (∃ cb, l = .recvStatus true cb) ∧ oks s'.trace = oks s.trace ++ [s.final].filter Status.ok)
      s := by
  cases l with
  | call c cb =>
      cases c with
      | start msgCb statusCb =>
          exact (start_errors (fun st => prog_errors (cb st)) msgCb statusCb).wp
            (fun _ _ h => .inl h) fun _ _ h => .inl h
  | read success tag onMsg cb =>
      simp only [Step.exec, wp_bind, wp_modify]
      exact (onRead_errors (fun st => prog_errors (cb st)) (fun msg => prog_errors (onMsg msg))
        success tag).wp (fun _ _ h => .inl h) fun _ _ h => .inl h
  | recvStatus success cb =>
      simp only [Step.exec, onRecvStatus, wp_bind, wp_get, wp_modify, wp_ite, wp_pure, wp_emit,
        env_eq, setEnv_eq]
      split
      · exact .inl trivial
      · cases success with
        | false =>
            exact tell_errors (s := { s with receiving := s.receiving.tail })
              (e := .internalError (str "Failed to receive status."))
              (fun st => prog_errors (cb st)) rfl fun s' h => .inl h
        | true =>
            have htold : oks (s.trace ++ [.called (.statusCb s.final)]) =
                oks s.trace ++ [s.final].filter Status.ok := oks_append _ _
            exact (prog_errors (cb s.final)).wp
              (fun _ _ h => .inr ⟨⟨cb, rfl⟩, h.trans htold⟩)
              fun _ _ h => .inr ⟨⟨cb, rfl⟩, h.trans htold⟩

/-! ### Runs with exceptions -/

/-- Where the object stands: in one of its phases, or with nothing in flight after an exception. -/
def Stands (final : Status) (s : Reader) (received : List Bytes) : Prop :=
  ∃ args? error, Phase final s args? received error ∨
    ∃ args, args? = some args ∧ Halted args received error final s

/-- A step adds what it has received. -/
theorem step_goes {received : List Bytes} (h : Stands final s received) (l : Step)
    (hl : Step.Enabled s l) :
    wp l.exec (fun _ s' => Stands final s' (received ++ l.received))
      (fun e s' => e = .exception ∧ Stands final s' (received ++ l.received)) s := by
  obtain ⟨args?, error, h | ⟨args, rfl, h⟩⟩ := h
  · cases l with
    | call c cb =>
        rw [show (Step.call c cb).received = [] from rfl, List.append_nil]
        exact wp_mono (call_phase h c cb) (fun _ _ h' => ⟨_, _, .inl h'.2⟩)
          fun _ _ h' => ⟨h'.1, _, _, .inl h'.2.2⟩
    | read success tag onMsg cb =>
        refine wp_mono (read_phase h success tag onMsg cb hl) (fun _ _ h' => ⟨_, _, .inl h'.2⟩) ?_
        rintro _ s' ⟨he, -, args, hargs, h'⟩
        exact ⟨he, _, _, .inr ⟨args, hargs, h'⟩⟩
    | recvStatus success cb =>
        rw [show (Step.recvStatus success cb).received = [] from rfl, List.append_nil]
        exact wp_mono (recvStatus_phase h success cb hl) (fun _ _ h' => ⟨_, _, .inl h'.2⟩)
          fun _ _ h' => ⟨h'.1, _, _, .inl h'.2.2⟩
  · -- Of an object that has halted, only `Start()` can be called.
    cases l with
    | call c cb =>
        rw [show (Step.call c cb).received = [] from rfl, List.append_nil]
        have hs : Stands final s received := ⟨_, _, .inr ⟨args, rfl, h⟩⟩
        exact wp_mono (comes_started h.started c cb hs) (fun _ _ h' => h'.2)
          fun _ _ h' => ⟨h'.1, h'.2.2⟩
    | read success tag onMsg cb => exact absurd hl (by simp [Step.Enabled, h.reading])
    | recvStatus success cb => exact absurd h.receiving hl

theorem Stands.new (request : Bytes) (starts : List Bool) (final : Status) :
    Stands final (new request starts final) [] :=
  ⟨none, none, .inl (.fresh rfl rfl rfl rfl rfl rfl)⟩

/-- The messages handed on are those received. -/
theorem Stands.msgs {received : List Bytes} (h : Stands final s received) :
    s.final = final ∧ (msgs s.trace = [] ∨ msgs s.trace = received) ∧
      (s.msgCb = true → msgs s.trace = received) := by
  have hcommon : ∀ {args : Bool × Bool}, Common args received final s →
      s.final = final ∧ (Reader.msgs s.trace = [] ∨ Reader.msgs s.trace = received) ∧
        (s.msgCb = true → Reader.msgs s.trace = received) := by
    intro args h
    refine ⟨h.final, ?_, fun hset => by rw [h.msgs, if_pos (h.msgCb.symm.trans hset)]⟩
    rw [h.msgs]
    split
    · exact .inr rfl
    · exact .inl rfl
  obtain ⟨args?, error, h | ⟨args, rfl, h⟩⟩ := h
  · cases h with
    | fresh hs hok hreading hrecv hfinal htr =>
        have hmsgs : Reader.msgs s.trace = [] := by rw [htr]; rfl
        exact ⟨hfinal, .inl hmsgs, fun _ => hmsgs⟩
    | reading h hok hcb hreading hrecv hst => exact hcommon h
    | receiving h hreading hrecv hst => exact hcommon h
    | ended h hreading hrecv hst => exact hcommon h
  · exact hcommon h.toCommon

end GrpcLua.Reader
