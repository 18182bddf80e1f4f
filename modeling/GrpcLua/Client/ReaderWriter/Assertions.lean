import GrpcLua.Client.ReaderWriter.StatusCb
import GrpcLua.Client.ReaderWriter.Settling

/-!
# Client — ReaderWriter — Assertions

When the assertions of the object hold.  It runs its callbacks in the middle of its transitions:
`EndOnErrorStatus` lets both directions end only after `status_cb_` has returned, so that a `Write`
that `status_cb_` calls fails its assertion (`Heeds`); `OnRead` goes on with an OK status after
`msg_cb_`, which may have made it an error (`Unharmed`); and a `status_cb_` that raises is not
reset, which fails the assertions of the completions.  `Step.calm` is the condition for one step,
and a run fails no assertion exactly if its steps meet it (`asserts_iff`).
-/

namespace GrpcLua.ReaderWriter
open Prog

variable {given : Bool} {s : ReaderWriter}

/-! ### The errors that a call comes to -/

/-- The error where gRPC does not take a batch. -/
def onRefusal (started : Bool) (sError : String) : Option Status :=
  if started then none else some (.internalError (str sError))

@[simp] theorem onRefusal_true (sError : String) : onRefusal true sError = none := rfl

@[simp] theorem onRefusal_false (sError : String) :
    onRefusal false sError = some (.internalError (str sError)) := rfl

/-- The error of `InitIfNot()`. -/
def initError (s : ReaderWriter) : Option Status :=
  if s.inited then none else
  (onRefusal (s.starts.headD true)
    "Failed to send init metadata to init bi-directional streaming.").orElse fun _ =>
  onRefusal (s.starts.tail.headD true)
    "Failed to receive init metadata to init bi-directional streaming."

/-- What is left of gRPC's answers after `InitIfNot()`. -/
def startsLeft (s : ReaderWriter) : List Bool := if s.inited then s.starts else s.starts.tail.tail

/-- The error that the call makes of an OK status. -/
def Call.error (s : ReaderWriter) : Call → Option Status
  | write _ => (initError s).orElse fun _ =>
      if s.writingClosing || s.writingEnded || !s.msgQueue.isEmpty then none else
      onRefusal ((startsLeft s).headD true) "Failed to write bi-directional streaming."
  | readEach _ =>
      if s.readingStarted then none else
      (initError s).orElse fun _ =>
      onRefusal ((startsLeft s).headD true) "Failed to async read bi-directional streaming."
  | setErrorStatus e => some e
  | closeWriting | destroyWrapper =>
      if s.writingClosing || !s.msgQueue.isEmpty then none else
      onRefusal (s.starts.headD true) "Failed to close writing."

/-! ### What a callback may call -/

/-- Both directions have ended. -/
abbrev bothEnded (s : ReaderWriter) : Bool := s.readingEnded && s.writingEnded

/-- The call fails no assertion in a stream that has an error, of which both directions have
`ended` or not. -/
def Call.fits (ended : Bool) : Call → Bool
  | write _ => ended
  | setErrorStatus e => !e.ok
  | _ => true

/-- A `status_cb_` that is told an error makes only calls that fit. -/
def Heeds (ended : Bool) : React → Bool
  | .ret _ => true
  | .raise => true
  | .call c _ rest => c.fits ended && Heeds ended rest

/-- The error may be told to `status_cb_`, if it is `set`. -/
def tells (set ended : Bool) (cb : Status → React) (e : Status) : Bool := !set || Heeds ended (cb e)

/-- The call fails no assertion, whatever it comes to tell. -/
def Call.calm (s : ReaderWriter) (c : Call) (cb : Status → React) : Bool :=
  c.fits (s.status.ok || bothEnded s) && (!s.status.ok ||
    (c.error s).all (tells s.statusCb (s.readingEnded && (c.closesWriting || s.writingEnded)) cb))

/-- The calls of a callback are calm, in the states in which it makes them. -/
def Calm : ReaderWriter → React → Bool
  | _, .ret _ => true
  | _, .raise => true
  | s, .call c inner rest => c.calm s inner && (raises (c.exec fun st => React.prog (inner st)) s ||
      Calm (endState (c.exec fun st => React.prog (inner st)) s) rest)

/-- None of the calls comes to an error. -/
def Unharmed : ReaderWriter → React → Bool
  | _, .ret _ => true
  | _, .raise => true
  | s, .call c inner rest =>
      (c.error s).isNone && Unharmed (endState (c.exec fun st => React.prog (inner st)) s) rest

/-- A `status_cb_` that is told an OK status may still make it an error, and be told it. -/
def Civil : React → Bool
  | .ret _ => true
  | .raise => true
  | .call (.setErrorStatus e) inner rest =>
      !e.ok && Heeds true (inner e) && ((inner e).answer.isNone || Heeds true rest)
  | .call _ _ rest => Civil rest

/-- The error that the completion of a send comes to. -/
def sentError (s : ReaderWriter) (success : Bool) : Option Status :=
  if !success then some (.internalError (str "Failed to send message.")) else
  if !s.msgQueue.tail.isEmpty then
    onRefusal (s.starts.headD true) "Failed to write bi-directional streaming."
  else if !s.writingClosing then none
  else onRefusal (s.starts.headD true) "Failed to close writing."

/-- The error that a completed read comes to after `msg_cb_`, if that has answered. -/
def answerError (s : ReaderWriter) : Option Status → Option Status
  | none => none
  | some status =>
      if status.ok then
        onRefusal (s.starts.headD true) "Failed to async read bi-directional streaming."
      else some status

/-- The completed read of a message fails no assertion. -/
def msgCalm (s : ReaderWriter) (msg : Bytes) (x : React) (cb : Status → React) : Bool :=
  let s₁ := { s with reading := s.reading - 1, trace := s.trace ++ [.called (.msgCb msg)] }
  let s₂ := endState x.prog s₁
  Calm s₁ x && (raises x.prog s₁ ||
    Unharmed s₁ x && (answerError s₂ x.answer).all (tells s₂.statusCb (bothEnded s₂) cb))

/-- The step fails no assertion.  In a stream that has an error, a completion fails one if
`status_cb_` has not been reset. -/
def Step.calm (s : ReaderWriter) : Step → Bool
  | .call c cb => c.calm s cb
  | .sent success cb =>
      if !s.status.ok then !s.statusCb else
      (sentError s success).all (tells s.statusCb
          (s.readingEnded && (success && s.msgQueue.tail.isEmpty)) cb) &&
        (!EndsBoth s (.sent success cb) || !s.statusCb || Civil (cb .OK))
  | .read success tag onMsg cb =>
      if !s.status.ok then !s.statusCb else
      match success, tag with
      | false, _ => tells s.statusCb false cb (.internalError (str "ClientReaderReadCqTag failed."))
      | true, ⟨none⟩ => !s.writingEnded || !s.statusCb || Civil (cb .OK)
      | true, ⟨some ⟨none⟩⟩ =>
          tells s.statusCb false cb (.internalError (str "Failed to read recv byte buffer."))
      | true, ⟨some ⟨some msg⟩⟩ =>
          if s.msgCb then msgCalm s msg (onMsg msg) cb else
          (onRefusal (s.starts.headD true) "Failed to async read bi-directional streaming.").all
            (tells s.statusCb false cb)

/-! ### In error -/

/-- In error a call runs no callback, and leaves the directions as they are. -/
theorem call_fits {k : Status → M Status} (hs : s.status.ok = false) (c : Call) :
    wp (c.exec k)
      (fun _ s' => c.fits (bothEnded s) = true ∧ s'.status.ok = false ∧ bothEnded s' = bothEnded s)
      (fun e _ => e = .assertion ∧ c.fits (bothEnded s) = false) s := by
  -- In error, neither initialising nor closing starts a batch, so that neither can fail.
  have hinit : ∀ s₁ : ReaderWriter, s₁.status.ok = false →
      wp (initIfNot k) (fun _ s' => s'.status.ok = false ∧ bothEnded s' = bothEnded s₁)
        (fun _ _ => False) s₁ := by
    intro s₁ hs₁
    simp only [initIfNot, wp_bind, wp_get, wp_ite, wp_pure, wp_modify]
    split
    · exact ⟨hs₁, trivial⟩
    · rw [if_pos (by simp [hs₁])]
      exact ⟨hs₁, trivial⟩
  have hclose : wp (closeWriting k)
      (fun _ s' => s'.status.ok = false ∧ bothEnded s' = bothEnded s) (fun _ _ => False) s := by
    simp only [closeWriting, wp_bind, wp_get, wp_ite, wp_pure, wp_modify]
    split
    · exact ⟨hs, trivial⟩
    · rw [if_pos (by simp [hs])]
      exact ⟨hs, trivial⟩
  cases c with
  | write msg =>
      simp only [Call.exec, write, wp_bind, wp_get, wp_ite, wp_check, wp_emit, wp_pure]
      refine wp_mono (hinit s hs) ?_ fun _ _ hf => hf.elim
      rintro _ s₁ ⟨hs₁, hended⟩
      rw [if_pos (by simp [hs₁])]
      split
      case isTrue h => exact ⟨hended.symm.trans h, hs₁, hended⟩
      case isFalse h => exact ⟨trivial, hended.symm.trans (by simpa using h)⟩
  | closeWriting => exact wp_mono hclose (fun _ _ h => ⟨rfl, h⟩) fun _ _ hf => hf.elim
  | readEach msgCb =>
      simp only [Call.exec, readEach, wp_bind, wp_get, wp_ite, wp_pure, wp_modify]
      split
      · exact ⟨rfl, hs, trivial⟩
      refine wp_mono (hinit { s with readingStarted := true } hs) ?_ fun _ _ hf => hf.elim
      rintro _ s₁ ⟨hs₁, hended⟩
      rw [if_pos (by simp [hs₁])]
      exact ⟨rfl, hs₁, hended⟩
  | setErrorStatus e =>
      simp only [Call.exec, setErrorStatus, wp_bind, wp_check, wp_get, wp_ite, wp_modify]
      split
      case isTrue he =>
        rw [if_neg (by simp [hs])]
        exact ⟨he, by simpa using he, trivial⟩
      case isFalse he => exact ⟨trivial, by simpa [Call.fits] using he⟩
  | destroyWrapper =>
      simp only [Call.exec, wp_bind, wp_modify]
      exact wp_mono hclose (fun _ _ h => ⟨rfl, h⟩) fun _ _ hf => hf.elim

/-- The assertions in the program hold exactly if `c` does.  Where it returns, `Q` holds. -/
abbrev Verdict {α : Type} (c : Bool) (x : M α) (Q : α → ReaderWriter → Prop) (s : ReaderWriter) :
    Prop :=
  wp x (fun a s' => c = true ∧ Q a s')
    (fun e _ => e = .assertion ∧ c = false ∨ e = .exception ∧ c = true) s

/-- The verdict, whatever else holds in the end. -/
theorem Verdict.any {α : Type} {c : Bool} {x : M α} {Q : α → ReaderWriter → Prop}
    (h : Verdict c x Q s) : Verdict c x (fun _ _ => True) s :=
  wp_mono h (fun _ _ h' => ⟨h'.1, trivial⟩) fun _ _ h' => h'

/-- A callback in a stream that has an error. -/
theorem prog_heeds : ∀ (x : React) {s : ReaderWriter}, s.status.ok = false →
    wp x.prog
      (fun a s' => Heeds (bothEnded s) x = true ∧ x.answer = some a ∧ s'.status.ok = false)
      (fun e _ => e = .assertion ∧ Heeds (bothEnded s) x = false ∨
        e = .exception ∧ Heeds (bothEnded s) x = true ∧ x.answer = none) s
  | .ret a, s, hs => ⟨rfl, rfl, hs⟩
  | .raise, s, _ => .inr ⟨rfl, rfl, rfl⟩
  | .call c inner rest, s, hs => by
      simp only [React.prog, Reaction.run, wp_bind, Heeds]
      refine wp_mono (call_fits hs c) ?_ ?_
      · rintro _ s₁ ⟨hfits, hs₁, hended⟩
        rw [hfits, Bool.true_and, ← hended]
        exact prog_heeds rest hs₁
      · rintro e _ ⟨rfl, hfits⟩
        exact .inl ⟨rfl, by rw [hfits, Bool.false_and]⟩

/-! ### Ending on an error -/

section functions
variable {cb : Status → React} {α β : Type}

/-- `CallStatusCb()` in a stream that has an error. -/
theorem callStatusCb_tells (hs : s.status.ok = false) :
    Verdict (tells s.statusCb (bothEnded s) cb s.status) (callStatusCb fun st => (cb st).prog)
      (fun _ s' => s'.status.ok = false ∧ s'.statusCb = false) s := by
  simp only [callStatusCb, wp_bind, wp_get, wp_ite, wp_emit, env_eq, setEnv_eq, wp_modify, wp_pure]
  split
  case isTrue hset =>
    have hcb := prog_heeds (cb s.status)
      (s := { s with trace := s.trace ++ [.called (.statusCb s.status)] }) hs
    simp only [tells, hset, Bool.not_true, Bool.false_or]
    exact wp_mono hcb (fun _ _ h => ⟨h.1, h.2.2, trivial⟩)
      fun _ _ h => h.imp_right fun h' => ⟨h'.1, h'.2.1⟩
  case isFalse hset =>
    rw [Bool.not_eq_true] at hset
    exact ⟨by simp [tells, hset], hs, hset⟩

/-- The program ends the stream on the error, which it tells to a `status_cb_` that is `set`, the
directions having `ended` or not.  Where there is no error, it returns, and `Q` holds. -/
def Comes (set ended : Bool) (cb : Status → React) (error : Option Status) (x : M α)
    (Q : α → ReaderWriter → Prop) (s : ReaderWriter) : Prop :=
  match error with
  | none => wp x Q (fun _ _ => False) s
  | some e => Verdict (tells set ended cb e) x (fun _ => Failed) s

/-- A program that comes to no error goes on; after an error, what follows does nothing. -/
theorem Comes.bind {set ended : Bool} {error : Option Status} {error' : Unit → Option Status}
    {x : M α} {f : α → M β} {Q : α → ReaderWriter → Prop} {R : β → ReaderWriter → Prop}
    (hx : Comes set ended cb error x Q s)
    (hf : ∀ a s', Q a s' → Comes set ended cb (error' ()) (f a) R s')
    (hfailed : ∀ a s', Failed s' → wp (f a) (fun _ => Failed) (fun _ _ => False) s') :
    Comes set ended cb (error.orElse error') (x >>= f) R s := by
  cases error with
  | none =>
      cases he : error' () with
      | none =>
          simp only [Option.orElse_none, he, Comes, wp_bind] at hf ⊢
          exact wp_mono hx hf fun _ _ h => h
      | some e =>
          simp only [Option.orElse_none, he, Comes, wp_bind] at hf ⊢
          exact wp_mono hx hf fun _ _ h => h.elim
  | some e =>
      simp only [Option.orElse_some, Comes, wp_bind] at hx ⊢
      refine wp_mono hx ?_ fun _ _ h => h
      rintro a s' ⟨htells, h⟩
      exact wp_mono (hfailed a s' h) (fun _ _ h' => ⟨htells, h'⟩) fun _ _ h' => h'.elim

/-- Ending with an error tells the callback, which comes back. -/
theorem endOnErrorStatus_comes {e : Status} {Q : Unit → ReaderWriter → Prop}
    (hs : s.status.ok = true) (he : e.ok = false) :
    Comes s.statusCb (bothEnded s) cb (some e)
      (endOnErrorStatus (fun st => (cb st).prog) e) Q s := by
  simp only [Comes, endOnErrorStatus, wp_bind, wp_check, he, hs, wp_modify, Bool.not_false, if_true]
  refine wp_mono (callStatusCb_tells (s := { s with status := e }) he) ?_ fun _ _ h => h
  rintro _ s₁ ⟨htells, hs₁, hset⟩
  exact ⟨htells, hs₁, hset, rfl, rfl⟩

/-- `SetInternalError` comes to its own error. -/
theorem setInternalError_comes {sError : Bytes} {Q : Unit → ReaderWriter → Prop}
    (hs : s.status.ok = true) :
    Comes s.statusCb (bothEnded s) cb (some (.internalError sError))
      (setInternalError (fun st => (cb st).prog) sError) Q s := by
  have h : Comes s.statusCb (bothEnded s) cb (some (.internalError sError))
      (endOnErrorStatus (fun st => (cb st).prog) (.internalError sError)) Q s :=
    endOnErrorStatus_comes hs rfl
  simp only [Comes, setInternalError, wp_bind, wp_check, hs, if_true] at h ⊢
  exact h

/-- An assertion fails exactly if the callback that is told of the error does not bear it. -/
theorem Comes.verdict {set ended : Bool} {error : Option Status} {x : M α}
    {Q : α → ReaderWriter → Prop} (h : Comes set ended cb error x Q s) :
    Verdict (error.all (tells set ended cb)) x
      (fun a s' => error = none ∧ Q a s' ∨ error ≠ none ∧ Failed s') s := by
  cases error with
  | none => exact wp_mono h (fun _ _ h' => ⟨rfl, .inl ⟨rfl, h'⟩⟩) fun _ _ hf => hf.elim
  | some e => exact wp_mono h (fun _ _ h' => ⟨h'.1, .inr ⟨nofun, h'.2⟩⟩) fun _ _ h' => h'

/-- The object after `InitIfNot()`. -/
def initialised (s : ReaderWriter) (tr : List (Event Cb)) : ReaderWriter :=
  { s with inited := true, starts := startsLeft s, trace := tr }

/-- `InitIfNot` comes to the refusal of the metadata. -/
theorem initIfNot_comes (hs : s.status.ok = true) :
    Comes s.statusCb (bothEnded s) cb (initError s) (initIfNot fun st => (cb st).prog)
      (fun _ s' => ∃ tr, s' = initialised s tr) s := by
  -- An initialised object has nothing to do; otherwise two batches may be refused.
  by_cases hi : s.inited = true
  · have herror : initError s = none := by simp [initError, hi]
    rw [herror]
    simp only [Comes, initIfNot, wp_bind, wp_get, wp_ite, wp_pure, hi, if_true]
    refine ⟨s.trace, ?_⟩
    simp only [initialised, startsLeft, hi, if_true]
    rw [← hi]
  rw [Bool.not_eq_true] at hi
  have hfails : ∀ (sError : Bytes) (starts : List Bool) (tr : List (Event Cb)),
      Comes s.statusCb (bothEnded s) cb (some (.internalError sError))
        (setInternalError (fun st => (cb st).prog) sError) (fun _ _ => True)
        { s with inited := true, starts := starts, trace := tr } :=
    fun _ _ _ => setInternalError_comes hs
  cases hsend : s.starts.headD true with
  | false =>
      have herror : initError s = some (.internalError
          (str "Failed to send init metadata to init bi-directional streaming.")) := by
        rw [initError, if_neg (by simp [hi]), hsend]
        rfl
      rw [herror]
      simp only [Comes, initIfNot, wp_bind, wp_get, wp_ite, wp_modify, wp_startBatch, env_eq,
        setEnv_eq, hi, hs, hsend]
      exact hfails _ _ _
  | true =>
      cases hrecv : s.starts.tail.headD true with
      | false =>
          have herror : initError s = some (.internalError
              (str "Failed to receive init metadata to init bi-directional streaming.")) := by
            rw [initError, if_neg (by simp [hi]), hsend, hrecv]
            rfl
          rw [herror]
          simp only [Comes, initIfNot, wp_bind, wp_get, wp_ite, wp_modify, wp_startBatch, env_eq,
            setEnv_eq, hi, hs, hsend, hrecv]
          exact hfails _ _ _
      | true =>
          have herror : initError s = none := by
            rw [initError, if_neg (by simp [hi]), hsend, hrecv]
            rfl
          rw [herror]
          simp only [Comes, initIfNot, wp_bind, wp_get, wp_ite, wp_modify, wp_startBatch, env_eq,
            setEnv_eq, wp_pure, hi, hs, hsend, hrecv]
          refine ⟨s.trace ++ [.batch [.sendInitMd] true] ++ [.batch [.recvInitMd] true], ?_⟩
          simp [initialised, startsLeft, hi]

/-- `SendNext` comes to the refusal of the message. -/
theorem sendNext_comes (hs : s.status.ok = true) (hq : s.msgQueue ≠ []) :
    Comes s.statusCb (bothEnded s) cb
      (onRefusal (s.starts.headD true) "Failed to write bi-directional streaming.")
      (sendNext fun st => (cb st).prog) (fun _ s' => s'.status.ok = true) s := by
  have hq' : (!s.msgQueue.isEmpty) = true := by simpa using hq
  cases hstart : s.starts.headD true with
  | true =>
      simp only [onRefusal_true, Comes, sendNext, wp_bind, wp_check, wp_get, wp_startBatch, wp_ite,
        wp_modify, wp_pure, env_eq, setEnv_eq, hq', hs, hstart, if_true]
  | false =>
      have hfails : Comes s.statusCb (bothEnded s) cb
          (some (.internalError (str "Failed to write bi-directional streaming.")))
          (setInternalError (fun st => (cb st).prog)
            (str "Failed to write bi-directional streaming.")) (fun _ _ => True)
          (submitted s [.sendMsg (s.msgQueue.headD [])] false) := setInternalError_comes hs
      simp only [onRefusal_false, Comes, sendNext, wp_bind, wp_check, wp_get, wp_startBatch, wp_ite,
        wp_modify, wp_pure, env_eq, setEnv_eq, hq', hs, hstart, if_true]
      exact hfails

/-- `ReadNext` comes to the refusal of the read. -/
theorem readNext_comes (hs : s.status.ok = true) :
    Comes s.statusCb (bothEnded s) cb
      (onRefusal (s.starts.headD true) "Failed to async read bi-directional streaming.")
      (readNext fun st => (cb st).prog) (fun _ s' => s'.status.ok = true) s := by
  cases hstart : s.starts.headD true with
  | true =>
      simp only [onRefusal_true, Comes, readNext, wp_bind, wp_check, wp_startBatch, wp_ite,
        wp_modify, env_eq, setEnv_eq, hs, hstart, if_true]
  | false =>
      have hfails : Comes s.statusCb (bothEnded s) cb
          (some (.internalError (str "Failed to async read bi-directional streaming.")))
          (setInternalError (fun st => (cb st).prog)
            (str "Failed to async read bi-directional streaming.")) (fun _ _ => True)
          (submitted s [.recvMsg] false) := setInternalError_comes hs
      simp only [onRefusal_false, Comes, readNext, wp_bind, wp_check, wp_startBatch, wp_ite,
        wp_modify, env_eq, setEnv_eq, hs, hstart, if_true]
      exact hfails

/-- The writing has ended before gRPC takes the half-close, or does not. -/
theorem sendClose_comes (hs : s.status.ok = true) (hclosing : s.writingClosing = true)
    (hclose : s.hasSentClose = false) :
    Comes s.statusCb s.readingEnded cb
      (onRefusal (s.starts.headD true) "Failed to close writing.")
      (sendClose fun st => (cb st).prog) (fun _ s' => ∃ tr, s' = { s with
        hasSentClose := true, writingEnded := true, starts := s.starts.tail, trace := tr }) s := by
  cases hstart : s.starts.headD true with
  | true =>
      simp only [onRefusal_true, Comes, sendClose, wp_bind, wp_check, wp_startBatch, wp_ite,
        wp_modify, wp_pure, env_eq, setEnv_eq, hs, hclosing, hclose, hstart, Bool.not_false,
        if_true]
      exact ⟨_, rfl⟩
  | false =>
      have hfails : Comes s.statusCb (s.readingEnded && true) cb
          (some (.internalError (str "Failed to close writing.")))
          (setInternalError (fun st => (cb st).prog) (str "Failed to close writing."))
          (fun _ _ => True) (submitted { s with
            writingClosing := true, hasSentClose := true, writingEnded := true }
            [.clientSendClose] false) := setInternalError_comes hs
      rw [Bool.and_true] at hfails
      simp only [onRefusal_false, Comes, sendClose, wp_bind, wp_check, wp_startBatch, wp_ite,
        wp_modify, wp_pure, env_eq, setEnv_eq, hs, hclosing, hclose, hstart, Bool.not_false,
        if_true]
      exact hfails

/-! ### The calls -/

/-- What the program does is what `y` does from `s'`. -/
theorem Comes.of_wp {set ended : Bool} {error : Option Status} {x y : M α} {s s' : ReaderWriter}
    {Q : α → ReaderWriter → Prop} (hy : Comes set ended cb error y Q s')
    (h : ∀ Q E, wp x Q E s ↔ wp y Q E s') : Comes set ended cb error x Q s := by
  cases error <;> exact (h _ _).mpr hy

/-- After an OK status `f` comes to no error, and after an error it does nothing. -/
theorem Comes.andThen {set ended : Bool} {error : Option Status} {x : M α} {f : α → M β}
    {Q : α → ReaderWriter → Prop} {R : β → ReaderWriter → Prop}
    (hx : Comes set ended cb error x Q s)
    (hf : ∀ a s', Q a s' → wp (f a) R (fun _ _ => False) s')
    (hfailed : ∀ a s', Failed s' → wp (f a) (fun _ => Failed) (fun _ _ => False) s') :
    Comes set ended cb error (x >>= f) R s := by
  have h : Comes set ended cb (error.orElse fun _ => none) (x >>= f) R s := hx.bind hf hfailed
  cases error <;> exact h

/-- `Write` comes to the first refusal on its way. -/
theorem write_comes (hs : s.status.ok = true) (msg : Bytes) :
    Comes s.statusCb (bothEnded s) cb ((Call.write msg).error s)
      (Call.exec (.write msg) fun st => (cb st).prog) (fun _ s' => s'.status.ok = true) s := by
  simp only [Call.exec, Call.error]
  refine Comes.andThen (Q := fun _ s' => s'.status.ok = true) ?_ ?_ ?_
  case refine_2 => exact fun r s' h => h
  case refine_3 => exact fun r s' h => h
  unfold write
  refine (initIfNot_comes hs).bind ?_ ?_
  · rintro _ _ ⟨tr, rfl⟩
    by_cases hrefuses : (s.writingClosing || s.writingEnded) = true
    · rw [if_pos (by simp [hrefuses])]
      simp only [Comes, initialised, wp_bind, wp_get, wp_ite, wp_pure]
      rw [if_neg (by simp [hs]), if_pos hrefuses]
      exact hs
    by_cases hq : s.msgQueue = []
    · rw [if_neg (by simpa [hq] using hrefuses)]
      refine (sendNext_comes (s := { initialised s tr with msgQueue := s.msgQueue ++ [msg] }) hs
        (by simp)).of_wp fun Q E => ?_
      simp only [initialised, wp_bind, wp_get, wp_ite, wp_modify]
      rw [if_neg (by simp [hs]), if_neg hrefuses, if_neg (by simp [hq])]
    · rw [if_pos (by simp [hq])]
      simp only [Comes, initialised, wp_bind, wp_get, wp_ite, wp_pure, wp_modify]
      rw [if_neg (by simp [hs]), if_neg hrefuses, if_pos (by simpa using hq)]
      exact hs
  · rintro _ s' h
    simp only [wp_bind, wp_get, wp_ite, wp_check, wp_pure]
    rw [if_pos (by simp [h.1]), if_pos (by simp [h.2.2])]
    exact h

/-- `CloseWriting` comes to the first refusal on its way. -/
theorem closeWriting_comes (h : Inv given s) (hs : s.status.ok = true) :
    Comes s.statusCb s.readingEnded cb (Call.closeWriting.error s)
      (closeWriting fun st => (cb st).prog) (fun _ s' => s'.status.ok = true) s := by
  simp only [Call.error]
  by_cases hw : s.writingClosing = true
  · rw [if_pos (by simp [hw])]
    simp only [Comes, closeWriting, wp_bind, wp_get, wp_ite, wp_pure]
    rw [if_pos hw]
    exact hs
  by_cases hq : s.msgQueue = []
  case neg =>
    rw [if_pos (by simp [hq])]
    simp only [Comes, closeWriting, wp_bind, wp_get, wp_ite, wp_pure, wp_modify]
    rw [if_neg hw, if_neg (by simp [hs]), if_pos (by simpa using hq)]
    exact hs
  have hclose := (h.not_closed hw).1
  rw [if_neg (by simp [hw, hq])]
  have hsend : Comes s.statusCb s.readingEnded cb
      (onRefusal (s.starts.headD true) "Failed to close writing.")
      (sendClose (fun st => (cb st).prog) >>= fun _ => check fun s => s.writingEnded)
      (fun _ s' => s'.status.ok = true) { s with writingClosing := true } := by
    refine (sendClose_comes (s := { s with writingClosing := true }) hs rfl hclose).andThen ?_ ?_
    · rintro _ _ ⟨tr, rfl⟩
      rw [wp_check, if_pos rfl]
      exact hs
    · rintro _ s' h'
      rw [wp_check, if_pos h'.2.2.2]
      exact h'
  refine hsend.of_wp fun Q E => ?_
  simp only [closeWriting, wp_bind, wp_get, wp_ite, wp_pure, wp_modify]
  rw [if_neg hw, if_neg (by simp [hs]), if_neg (by simp [hq]), wp_check, if_pos (by simp [hclose])]

/-- `ReadEach` comes to the first refusal on its way. -/
theorem readEach_comes (hs : s.status.ok = true) (msgCb : Bool) :
    Comes s.statusCb (bothEnded s) cb ((Call.readEach msgCb).error s)
      (readEach (fun st => (cb st).prog) msgCb) (fun _ s' => s'.status.ok = true) s := by
  simp only [Call.error]
  by_cases hr : s.readingStarted = true
  · rw [if_pos hr]
    simp only [Comes, readEach, wp_bind, wp_get, wp_ite, wp_pure]
    rw [if_pos hr]
    exact hs
  rw [if_neg hr]
  have hread : Comes s.statusCb (bothEnded s) cb
      ((initError s).orElse fun _ => onRefusal ((startsLeft s).headD true)
        "Failed to async read bi-directional streaming.")
      (initIfNot (fun st => (cb st).prog) >>= fun _ => get >>= fun s =>
        if !s.status.ok then pure () else
          modify (fun s => { s with msgCb := msgCb }) >>= fun _ => readNext fun st => (cb st).prog)
      (fun _ s' => s'.status.ok = true) { s with readingStarted := true } := by
    refine (initIfNot_comes (s := { s with readingStarted := true }) hs).bind ?_ ?_
    · rintro _ _ ⟨tr, rfl⟩
      refine (readNext_comes (s := { initialised { s with readingStarted := true } tr with
        msgCb := msgCb }) hs).of_wp fun Q E => ?_
      simp only [initialised, wp_bind, wp_get, wp_ite, wp_modify]
      rw [if_neg (by simp [hs])]
    · rintro _ s' h
      simp only [wp_bind, wp_get, wp_ite, wp_pure]
      rw [if_pos (by simp [h.1])]
      exact h
  refine hread.of_wp fun Q E => ?_
  simp only [readEach, wp_bind, wp_get, wp_ite, wp_pure, wp_modify]
  rw [if_neg hr]

/-- A call of which the status is OK comes to the error that `Call.error` says, or to none. -/
theorem call_comes (h : Inv given s) (hs : s.status.ok = true) (c : Call)
    (hfits : c.fits true = true) :
    Comes s.statusCb (s.readingEnded && (c.closesWriting || s.writingEnded)) cb (c.error s)
      (c.exec fun st => (cb st).prog) (fun _ s' => s'.status.ok = true) s := by
  cases c with
  | write msg => exact write_comes hs msg
  | closeWriting =>
      simp only [Call.closesWriting, Bool.true_or, Bool.and_true]
      exact closeWriting_comes h hs
  | readEach msgCb => exact readEach_comes hs msgCb
  | setErrorStatus e =>
      have he : e.ok = false := by simpa [Call.fits] using hfits
      have hend : Comes s.statusCb (bothEnded s) cb (some e)
          (endOnErrorStatus (fun st => (cb st).prog) e) (fun _ s' => s'.status.ok = true) s :=
        endOnErrorStatus_comes hs he
      refine hend.of_wp fun Q E => ?_
      simp only [Call.exec, setErrorStatus, wp_bind, wp_get, wp_ite, wp_check]
      rw [if_pos (by simp [he]), if_pos hs]
  | destroyWrapper =>
      simp only [Call.closesWriting, Bool.true_or, Bool.and_true]
      exact (closeWriting_comes h hs).andThen (fun _ _ h' => h') fun _ _ h' => h'

/-- **Calls.**  The assertions of a call hold exactly if it is calm. -/
theorem call_calm (h : Inv given s) (c : Call) :
    Verdict (c.calm s cb) (c.exec fun st => (cb st).prog)
      (fun _ s' => s'.status.ok = (s.status.ok && (c.error s).isNone)) s := by
  cases hs : s.status.ok with
  | false =>
      have hcalm : c.calm s cb = c.fits (bothEnded s) := by simp [Call.calm, hs]
      rw [hcalm]
      exact wp_mono (call_fits hs c) (fun _ _ h' => ⟨h'.1, h'.2.1⟩) fun _ _ h' => .inl h'
  | true =>
      by_cases hfits : c.fits true = true
      case neg =>
        -- An OK status is handed to `SetErrorStatus()`.
        rw [Bool.not_eq_true] at hfits
        have hcalm : c.calm s cb = false := by simp [Call.calm, hs, hfits]
        cases c with
        | setErrorStatus e =>
            have he : e.ok = true := by simpa [Call.fits] using hfits
            exact (wp_setErrorStatus_OK he).mpr (.inl ⟨rfl, hcalm⟩)
        | _ => exact absurd hfits (by simp [Call.fits])
      have hcome : Comes s.statusCb (s.readingEnded && (c.closesWriting || s.writingEnded)) cb
          (c.error s) (c.exec fun st => (cb st).prog) (fun _ s' => s'.status.ok = true) s :=
        call_comes h hs c hfits
      have hcalm : c.calm s cb = (c.error s).all
          (tells s.statusCb (s.readingEnded && (c.closesWriting || s.writingEnded)) cb) := by
        simp [Call.calm, hs, hfits]
      rw [hcalm]
      refine wp_mono hcome.verdict ?_ fun _ _ h' => h'
      rintro _ s' ⟨htells, ⟨herror, hs'⟩ | ⟨herror, hf⟩⟩
      · exact ⟨htells, by simp [hs', herror]⟩
      · exact ⟨htells, by simp [hf.1, Option.isSome_iff_ne_none, herror]⟩

end functions

/-! ### The callbacks -/

/-- A callback that returns leaves the status as its calls do. -/
theorem prog_calm : ∀ (x : React) {s : ReaderWriter}, Inv given s →
    Verdict (Calm s x) x.prog
      (fun a s' => x.answer = some a ∧ s'.status.ok = (s.status.ok && Unharmed s x)) s
  | .ret a, s, _ => ⟨rfl, rfl, (Bool.and_true _).symm⟩
  | .raise, s, _ => .inr ⟨rfl, rfl⟩
  | .call c inner rest, s, h => by
      have hcall := wp_and (call_calm h c) (call_keeps (fun st => prog_keeps (inner st)) c s h)
      simp only [Verdict, React.prog, Reaction.run, wp_bind, Calm]
      refine wp_mono (wp_outcome hcall) ?_ ?_
      · rintro _ s₁ ⟨⟨⟨hcalm, hs₁⟩, h₁, -⟩, hraises, rfl⟩
        rw [hcalm, hraises, Bool.true_and, Bool.false_or]
        refine wp_mono (prog_calm rest h₁) ?_ fun _ _ h' => h'
        rintro a s₂ ⟨hcalm', hanswer, hs₂⟩
        refine ⟨hcalm', hanswer, ?_⟩
        rw [hs₂, hs₁, Bool.and_assoc]
        rfl
      · rintro e s₁ ⟨⟨hcalm, -⟩, hraises⟩
        rcases hcalm with ⟨rfl, hcalm⟩ | ⟨rfl, hcalm⟩
        · exact .inl ⟨rfl, by rw [hcalm, Bool.false_and]⟩
        · exact .inr ⟨rfl, by rw [hcalm, hraises.mpr rfl, Bool.true_or, Bool.and_self]⟩

/-- Both directions have ended without error, and `status_cb_` is told so. -/
structure Over (s : ReaderWriter) : Prop where
  ok : s.status.ok = true
  set : s.statusCb = true
  inited : s.inited = true
  started : s.readingStarted = true
  closing : s.writingClosing = true
  ended : bothEnded s = true

/-- A call that sets no error finds nothing left to do. -/
theorem Over.call (h : Over s) {k : Status → M Status} (c : Call)
    (hc : ∀ e, c ≠ .setErrorStatus e) : wp (c.exec k) (fun _ => Over) (fun _ _ => False) s := by
  cases c with
  | write msg =>
      simp only [Call.exec, write, initIfNot, wp_bind, wp_get, wp_ite, wp_pure, wp_emit]
      rw [if_pos h.inited, if_neg (by simp [h.ok]), if_pos (by simp [h.closing])]
      exact { h with }
  | closeWriting =>
      simp only [Call.exec, closeWriting, wp_bind, wp_get, wp_ite, wp_pure]
      rw [if_pos h.closing]
      exact h
  | readEach msgCb =>
      simp only [Call.exec, readEach, wp_bind, wp_get, wp_ite, wp_pure]
      rw [if_pos h.started]
      exact h
  | setErrorStatus e => exact absurd rfl (hc e)
  | destroyWrapper =>
      simp only [Call.exec, closeWriting, wp_bind, wp_get, wp_ite, wp_pure, wp_modify]
      rw [if_pos h.closing]
      exact { h with }

/-- `status_cb_` is told that both directions have ended, and sets an error. -/
theorem Over.setErrorStatus (h : Over s) {e : Status} (he : e.ok = false) (inner : Status → React) :
    wp (setErrorStatus (fun st => React.prog (inner st)) e)
      (fun _ s' => Heeds true (inner e) = true ∧ (inner e).answer.isNone = false ∧ Failed s')
      (fun ex _ => ex = .assertion ∧ Heeds true (inner e) = false ∨
        ex = .exception ∧ Heeds true (inner e) = true ∧ (inner e).answer.isNone = true) s := by
  have hheeds := prog_heeds (inner e)
    (s := { s with status := e, trace := s.trace ++ [.called (.statusCb e)] }) he
  rw [show bothEnded { s with status := e, trace := s.trace ++ [.called (.statusCb e)] } = true from
    h.ended] at hheeds
  simp only [ReaderWriter.setErrorStatus, endOnErrorStatus, callStatusCb, wp_bind, wp_check, wp_get,
    wp_ite, wp_emit, wp_modify, env_eq, setEnv_eq, he, h.ok, Bool.not_false, if_true]
  rw [if_pos h.set]
  refine wp_mono hheeds ?_ ?_
  · rintro a s₁ ⟨hheeds, hanswer, hs₁⟩
    exact ⟨hheeds, by rw [hanswer]; rfl, hs₁, rfl, rfl, rfl⟩
  · rintro ex _ (h' | ⟨rfl, hheeds, hanswer⟩)
    · exact .inl h'
    · exact .inr ⟨rfl, hheeds, by rw [hanswer]; rfl⟩

/-- `status_cb_` is told that both directions have ended. -/
theorem Over.prog : ∀ (x : React) {s : ReaderWriter}, Over s →
    Verdict (Civil x) x.prog (fun _ _ => True) s
  | .ret a, s, _ => ⟨rfl, trivial⟩
  | .raise, s, _ => .inr ⟨rfl, rfl⟩
  | .call c inner rest, s, h => by
      simp only [Verdict, React.prog, Reaction.run, wp_bind]
      by_cases hc : ∃ e, c = .setErrorStatus e
      case neg =>
        have hcivil : Civil (.call c inner rest) = Civil rest := by
          cases c with
          | setErrorStatus e => exact absurd ⟨e, rfl⟩ hc
          | _ => rfl
        rw [hcivil]
        refine wp_mono (h.call c fun e he => hc ⟨e, he⟩) ?_ fun _ _ h' => h'.elim
        exact fun _ s₁ h₁ => Over.prog rest h₁
      obtain ⟨e, rfl⟩ := hc
      by_cases he : e.ok = true
      · exact (wp_setErrorStatus_OK he).mpr (.inl ⟨rfl, by simp [Civil, he]⟩)
      rw [Bool.not_eq_true] at he
      simp only [Civil, he, Bool.not_false, Bool.true_and]
      refine wp_mono (h.setErrorStatus he inner) ?_ ?_
      · rintro _ s₁ ⟨hheeds, hanswer, hs₁, -, hr, hw⟩
        have hrest := prog_heeds rest hs₁
        rw [show bothEnded s₁ = true by simp [bothEnded, hr, hw]] at hrest
        simp only [hheeds, hanswer, Bool.true_and, Bool.false_or]
        exact wp_mono hrest (fun _ _ h' => ⟨h'.1, trivial⟩)
          fun _ _ h' => h'.imp_right fun h'' => ⟨h''.1, h''.2.1⟩
      · rintro ex _ (⟨rfl, hheeds⟩ | ⟨rfl, hheeds, hanswer⟩)
        · exact .inl ⟨rfl, by simp [hheeds]⟩
        · exact .inr ⟨rfl, by simp [hheeds, hanswer]⟩

/-! ### The completions -/

section completions
variable {cb : Status → React}

/-- Once both directions are over, a civil callback is all that the assertions ask for. -/
theorem callStatusCb_civil (h : s.statusCb = true → Over s) :
    Verdict (!s.statusCb || Civil (cb s.status)) (callStatusCb fun st => (cb st).prog)
      (fun _ _ => True) s := by
  simp only [Verdict, callStatusCb, wp_bind, wp_get, wp_ite, wp_emit, env_eq, setEnv_eq, wp_modify,
    wp_pure]
  split
  case isTrue hset =>
    have hover : Over { s with trace := s.trace ++ [.called (.statusCb s.status)] } :=
      { h hset with }
    simp only [hset, Bool.not_true, Bool.false_or]
    exact Over.prog (cb s.status) hover
  case isFalse hset =>
    rw [Bool.not_eq_true] at hset
    exact ⟨by simp [hset], trivial⟩

section sent
variable {m : Bytes} {q : List Bytes}

/-- The send of a message in a queue that goes on is calm if what follows a refused batch is. -/
theorem next_send_calm (h : Inv given s) (hf : s.sending = [m]) {m' : Bytes}
    (hq : s.msgQueue = m :: m' :: q) (hs : s.status.ok = true) :
    Verdict (Step.calm s (.sent true cb)) (Step.exec (.sent true cb)) (fun _ _ => True) s := by
  have hended : bothEnded s = false := by simp [bothEnded, h.not_written (by simp [hf]) hs]
  have hcalm : Step.calm s (.sent true cb) =
      (onRefusal (s.starts.headD true) "Failed to write bi-directional streaming.").all
        (tells s.statusCb (bothEnded s) cb) := by
    simp only [Step.calm, sentError, EndsBoth, hs, hq, hended]
    simp
  have hnext : Comes s.statusCb (bothEnded s) cb
      (onRefusal (s.starts.headD true) "Failed to write bi-directional streaming.")
      (sendNext fun st => (cb st).prog) (fun _ s' => s'.status.ok = true)
      (popped s m (m' :: q) true) :=
    sendNext_comes (s := popped s m (m' :: q) true) hs (by simp)
  rw [Verdict, wp_sent_next hf hq hs, hcalm]
  exact hnext.verdict.any

/-- After the last message, only a refused half-close brings an error. -/
theorem last_send_comes (cb : Status → React) (hs : s.status.ok = true)
    (hclosing : s.writingClosing = true) (hclose : s.hasSentClose = false) (m : Bytes) :
    Comes s.statusCb s.readingEnded cb
      (onRefusal (s.starts.headD true) "Failed to close writing.")
      (sendClose fun st => (cb st).prog) (fun _ s' => ∃ tr, s' = { popped s m [] true with
        hasSentClose := true, writingEnded := true, starts := s.starts.tail, trace := tr })
      (popped s m [] true) :=
  sendClose_comes (s := popped s m [] true) hs hclosing hclose

/-- Where the half-close is refused, the call ends on the error. -/
theorem refused_close_calm (h : Inv given s) (hf : s.sending = [m]) (hq : s.msgQueue = [m])
    (hs : s.status.ok = true) (hclosing : s.writingClosing = true)
    (hstart : s.starts.headD true = false) :
    Verdict (Step.calm s (.sent true cb)) (Step.exec (.sent true cb)) (fun _ _ => True) s := by
  have hclose : s.hasSentClose = false := h.queue.open_of_flying (by simp [hf])
  have hcalm : Step.calm s (.sent true cb) =
      tells s.statusCb s.readingEnded cb (.internalError (str "Failed to close writing.")) := by
    simp only [Step.calm, sentError, EndsBoth, hs, hq, hclosing, hstart]
    simp
  have hcomes := last_send_comes cb hs hclosing hclose m
  rw [hstart] at hcomes
  rw [Verdict, wp_sent_close hf hq hs hclosing, hcalm]
  refine wp_mono hcomes ?_ fun _ _ h' => h'
  rintro _ s₁ ⟨htells, -, hset, hr, hw₁⟩
  rw [if_pos hw₁, if_pos hr]
  simp only [callStatusCb, wp_bind, wp_get, wp_ite, wp_pure]
  rw [if_neg (by simp [hset])]
  exact ⟨htells, trivial⟩

/-- Where the half-close is taken, the callback of a call whose reading has ended is to be civil. -/
theorem close_calm (h : Inv given s) (hf : s.sending = [m]) (hq : s.msgQueue = [m])
    (hs : s.status.ok = true) (hclosing : s.writingClosing = true)
    (hstart : s.starts.headD true = true) :
    Verdict (Step.calm s (.sent true cb)) (Step.exec (.sent true cb)) (fun _ _ => True) s := by
  have hclose : s.hasSentClose = false := h.queue.open_of_flying (by simp [hf])
  have hcalm : Step.calm s (.sent true cb) =
      (!s.readingEnded || !s.statusCb || Civil (cb s.status)) := by
    simp only [Step.calm, sentError, EndsBoth, hq, hclosing, hstart, h.status_OK hs]
    simp
  have hcomes := last_send_comes cb hs hclosing hclose m
  rw [hstart] at hcomes
  rw [Verdict, wp_sent_close hf hq hs hclosing, hcalm]
  refine wp_mono hcomes ?_ fun _ _ hf => hf.elim
  rintro _ _ ⟨tr, rfl⟩
  rw [if_pos rfl]
  -- Only where the reading has ended too is this the end of the call.
  by_cases hr : s.readingEnded = true
  · obtain ⟨hinited, hstarted, -⟩ := h.ended_reading hs hr
    rw [if_pos hr, hr, Bool.not_true, Bool.false_or]
    exact callStatusCb_civil fun hset => ⟨hs, hset, hinited, hstarted, hclosing, by
      simp [bothEnded, hr]⟩
  · rw [if_neg hr]
    exact ⟨by simp [hr], trivial⟩

/-- A completed write is calm exactly if no assertion fails. -/
theorem sent_calm (h : Inv given s) (hsend : s.sending ≠ []) (success : Bool) :
    Verdict (Step.calm s (.sent success cb)) (Step.exec (.sent success cb))
      (fun _ _ => True) s := by
  obtain ⟨m, q, hf, hq⟩ := h.queue.flying_cases.resolve_left hsend
  by_cases hs : s.status.ok = true
  case neg =>
    -- In error, the assertion is that the callback has been reset.
    have hcalm : Step.calm s (.sent success cb) = !s.statusCb := by simp [Step.calm, hs]
    rw [Verdict, wp_sent_inError hf hq (by simpa using hs), hcalm]
    split
    case isTrue hset => exact .inl ⟨rfl, by simpa using hset⟩
    case isFalse hset => exact ⟨by simp [hset], trivial⟩
  cases success with
  | false =>
      have hended : bothEnded s = false := by simp [bothEnded, h.not_written hsend hs]
      have hcalm : Step.calm s (.sent false cb) =
          tells s.statusCb (bothEnded s) cb (.internalError (str "Failed to send message.")) := by
        simp [Step.calm, sentError, EndsBoth, hs, hended]
      have hfails : Comes s.statusCb (bothEnded s) cb
          (some (.internalError (str "Failed to send message.")))
          (setInternalError (fun st => (cb st).prog) (str "Failed to send message."))
          (fun _ _ => True) (popped s m q false) := setInternalError_comes hs
      rw [Verdict, wp_sent_failure hf hq hs, hcalm]
      exact hfails.verdict.any
  | true =>
  cases q with
  | cons m' q => exact next_send_calm h hf hq hs
  | nil =>
  by_cases hclosing : s.writingClosing = true
  case neg =>
    -- The writing goes on, and nothing is left to do.
    have hcalm : Step.calm s (.sent true cb) = true := by
      simp [Step.calm, sentError, EndsBoth, hs, hq, hclosing]
    rw [Verdict, wp_sent_open hf hq hs (by simpa using hclosing)]
    exact ⟨hcalm, trivial⟩
  cases hstart : s.starts.headD true with
  | false => exact refused_close_calm h hf hq hs hclosing hstart
  | true => exact close_calm h hf hq hs hclosing hstart

end sent

/-- After `msg_cb_`, a status that it has made an error fails an assertion. -/
theorem answer_calm {s₁ : ReaderWriter} {x : React} {status : Status}
    (hanswer : x.answer = some status) (hs : s₁.status.ok = Unharmed s x) :
    Verdict (Unharmed s x && (answerError s₁ x.answer).all (tells s₁.statusCb (bothEnded s₁) cb))
      (if !status.ok then endOnErrorStatus (fun st => (cb st).prog) status
        else readNext fun st => (cb st).prog) (fun _ _ => True) s₁ := by
  rw [hanswer, answerError]
  cases hok : s₁.status.ok with
  | false =>
      rw [← hs, hok, Bool.false_and]
      cases he : status.ok with
      | true =>
          simp only [readNext, wp_bind, wp_check, Verdict, wp_ite]
          simp [hok]
      | false =>
          simp only [endOnErrorStatus, wp_bind, wp_check, Verdict, wp_ite]
          simp [hok, he]
  | true =>
      rw [← hs, hok, Bool.true_and]
      cases he : status.ok with
      | true =>
          rw [if_pos rfl, if_neg (by simp)]
          exact (readNext_comes hok).verdict.any
      | false =>
          have hend : Comes s₁.statusCb (bothEnded s₁) cb (some status)
              (endOnErrorStatus (fun st => (cb st).prog) status) (fun _ _ => True) s₁ :=
            endOnErrorStatus_comes hok he
          rw [if_neg (by simp), if_pos (by simp)]
          exact hend.verdict.any

/-- A read that failed: its error is told, and that is all. -/
theorem failure_calm (h : Inv given s) (hread : 0 < s.reading) (hs : s.status.ok = true)
    (tag : CodRecvMsg) (onMsg : Bytes → React) :
    Verdict (Step.calm s (.read false tag onMsg cb)) (Step.exec (.read false tag onMsg cb))
      (fun _ _ => True) s := by
  have hended : bothEnded s = false := by simp [bothEnded, h.not_ended hread hs]
  have hcalm : Step.calm s (.read false tag onMsg cb) = tells s.statusCb (bothEnded s) cb
      (.internalError (str "ClientReaderReadCqTag failed.")) := by
    simp [Step.calm, hs, hended]
  have hfails : Comes s.statusCb (bothEnded s) cb
      (some (.internalError (str "ClientReaderReadCqTag failed.")))
      (setInternalError (fun st => (cb st).prog) (str "ClientReaderReadCqTag failed."))
      (fun _ _ => True) (readDone s) := setInternalError_comes hs
  rw [Verdict, wp_read_failure (h.reading_started hread) hs, hcalm]
  exact hfails.verdict.any

/-- The end of the stream: where the writing has ended too, that is told. -/
theorem end_calm (h : Inv given s) (hread : 0 < s.reading) (hs : s.status.ok = true)
    (onMsg : Bytes → React) :
    Verdict (Step.calm s (.read true ⟨none⟩ onMsg cb)) (Step.exec (.read true ⟨none⟩ onMsg cb))
      (fun _ _ => True) s := by
  have hstarted := h.reading_started hread
  have hcalm : Step.calm s (.read true ⟨none⟩ onMsg cb) =
      (!s.writingEnded || !s.statusCb || Civil (cb s.status)) := by
    simp [Step.calm, h.status_OK hs]
  rw [Verdict, wp_read_end hstarted hs, hcalm]
  split
  case isTrue hw =>
    have hclosing := h.close_closing (h.ended_close hs hw)
    rw [hw, Bool.not_true, Bool.false_or]
    exact callStatusCb_civil fun hset =>
      ⟨hs, hset, h.reading_inited hread, hstarted, hclosing, by simp [bothEnded, hw]⟩
  case isFalse hw => exact ⟨by simp [hw], trivial⟩

/-- A buffer that cannot be read: its error is told, and that is all. -/
theorem unreadable_calm (h : Inv given s) (hread : 0 < s.reading) (hs : s.status.ok = true)
    (onMsg : Bytes → React) :
    Verdict (Step.calm s (.read true ⟨some ⟨none⟩⟩ onMsg cb))
      (Step.exec (.read true ⟨some ⟨none⟩⟩ onMsg cb)) (fun _ _ => True) s := by
  have hended : bothEnded s = false := by simp [bothEnded, h.not_ended hread hs]
  have hcalm : Step.calm s (.read true ⟨some ⟨none⟩⟩ onMsg cb) =
      tells s.statusCb (bothEnded s) cb
        (.internalError (str "Failed to read recv byte buffer.")) := by
    simp [Step.calm, hs, hended]
  have hfails : Comes s.statusCb (bothEnded s) cb
      (some (.internalError (str "Failed to read recv byte buffer.")))
      (endOnErrorStatus (fun st => (cb st).prog)
        (.internalError (str "Failed to read recv byte buffer.")))
      (fun _ _ => True) (readDone s) := endOnErrorStatus_comes hs rfl
  rw [Verdict, wp_read_unreadable (h.reading_started hread) hs, hcalm]
  exact hfails.verdict.any

/-- A message: whether the rest is calm depends on what the callback answers and calls.  Without a
callback, the next read is all that is left. -/
theorem message_calm (h : Inv given s) (hread : 0 < s.reading) (hs : s.status.ok = true)
    (msg : Bytes) (onMsg : Bytes → React) :
    Verdict (Step.calm s (.read true ⟨some ⟨some msg⟩⟩ onMsg cb))
      (Step.exec (.read true ⟨some ⟨some msg⟩⟩ onMsg cb)) (fun _ _ => True) s := by
  have hr := h.not_ended hread hs
  rw [Verdict, wp_read_message (h.reading_started hread) hs]
  by_cases hset : s.msgCb = true
  case neg =>
    have hended : bothEnded s = false := by simp [bothEnded, hr]
    have hcalm : Step.calm s (.read true ⟨some ⟨some msg⟩⟩ onMsg cb) =
        (onRefusal (s.starts.headD true) "Failed to async read bi-directional streaming.").all
          (tells s.statusCb (bothEnded s) cb) := by
      simp only [Step.calm, hs, hset, hended]
      simp
    have hnext : Comes s.statusCb (bothEnded s) cb
        (onRefusal (s.starts.headD true) "Failed to async read bi-directional streaming.")
        (readNext fun st => (cb st).prog) (fun _ s' => s'.status.ok = true) (readDone s) :=
      readNext_comes (s := readDone s) hs
    rw [if_neg hset, hcalm]
    exact hnext.verdict.any
  have hcalm : Step.calm s (.read true ⟨some ⟨some msg⟩⟩ onMsg cb) =
      msgCalm s msg (onMsg msg) cb := by
    simp [Step.calm, hs, hset]
  have hI : Inv given { readDone s with trace := s.trace ++ [.called (.msgCb msg)] } :=
    (h.read_done hread).1.event rfl rfl rfl rfl trivial rfl (h.untold hs (.inl hr))
  rw [if_pos hset, hcalm]
  simp only [msgCalm]
  refine wp_mono (wp_outcome (prog_calm (onMsg msg) hI)) ?_ ?_
  · rintro status s₁ ⟨⟨hcalm₁, hanswer, hs₁⟩, hraises, rfl⟩
    rw [hcalm₁, hraises, Bool.true_and, Bool.false_or]
    rw [hs, Bool.true_and] at hs₁
    exact answer_calm hanswer hs₁
  · rintro e _ ⟨hcalm₁, hraises⟩
    rcases hcalm₁ with ⟨rfl, hcalm₁⟩ | ⟨rfl, hcalm₁⟩
    · exact .inl ⟨rfl, by rw [hcalm₁, Bool.false_and]⟩
    · exact .inr ⟨rfl, by rw [hcalm₁, hraises.mpr rfl, Bool.true_or, Bool.and_self]⟩

/-- A completed read is calm exactly if no assertion fails, whatever it brings. -/
theorem read_calm (h : Inv given s) (hread : 0 < s.reading) (success : Bool) (tag : CodRecvMsg)
    (onMsg : Bytes → React) :
    Verdict (Step.calm s (.read success tag onMsg cb)) (Step.exec (.read success tag onMsg cb))
      (fun _ _ => True) s := by
  by_cases hs : s.status.ok = true
  case neg =>
    -- In error, the assertion is that the callback has been reset.
    have hcalm : Step.calm s (.read success tag onMsg cb) = !s.statusCb := by
      simp [Step.calm, hs]
    rw [Verdict, wp_read_inError (h.reading_started hread) (by simpa using hs), hcalm]
    split
    case isTrue hset => exact .inl ⟨rfl, by simpa using hset⟩
    case isFalse hset => exact ⟨by simp [hset], trivial⟩
  cases success with
  | false => exact failure_calm h hread hs tag onMsg
  | true =>
      obtain ⟨_ | ⟨_ | msg⟩⟩ := tag
      · exact end_calm h hread hs onMsg
      · exact unreadable_calm h hread hs onMsg
      · exact message_calm h hread hs msg onMsg

end completions

/-- **Assertions.**  The assertions in a step hold exactly if it is calm. -/
theorem step_calm (h : Inv given s) (l : Step) (hl : Step.Enabled s l) :
    Verdict (l.calm s) l.exec (fun _ _ => True) s := by
  cases l with
  | call c cb => exact (call_calm h c).any
  | sent success cb => exact sent_calm h hl success
  | read success tag onMsg cb => exact read_calm h hl success tag onMsg

/-- An assertion has failed. -/
def Aborted : Process ReaderWriter → Prop
  | .stopped .assertion _ => True
  | _ => False

/-- A calm step keeps the invariant. -/
theorem next_calm (h : Inv given s) (l : Step) (hl : Step.Enabled s l) (hcalm : l.calm s = true) :
    Inv given (Process.next Step.exec (.running s) l).state ∧
      ¬ Aborted (Process.next Step.exec (.running s) l) := by
  have hstep : wp l.exec (fun _ => Inv given)
      (Process.Leaves (Inv given) fun e s' => Inv given s' ∧ e ≠ .assertion) s := by
    refine wp_mono (wp_and (step_keeps h l hl) (step_calm h l hl)) (fun _ _ h' => h'.1) ?_
    rintro e s' ⟨h', ⟨rfl, hnot⟩ | ⟨rfl, -⟩⟩
    · exact absurd (hnot.symm.trans hcalm) (by simp)
    · exact h'
  have hnext := Process.holds_next hstep
  cases hc : Process.next Step.exec (.running s) l with
  | running s' =>
      rw [hc] at hnext
      exact ⟨hnext, id⟩
  | stopped e s' =>
      rw [hc] at hnext
      refine ⟨hnext.1, fun h' => hnext.2 ?_⟩
      cases e with
      | assertion => rfl
      | _ => exact h'.elim

/-- Any other step fails an assertion. -/
theorem next_not_calm (h : Inv given s) (l : Step) (hl : Step.Enabled s l)
    (hcalm : ¬ l.calm s = true) : Aborted (Process.next Step.exec (.running s) l) := by
  have hstep : wp l.exec (fun _ _ => False)
      (Process.Leaves (fun _ => False) fun e _ => e = .assertion) s := by
    refine wp_mono (step_calm h l hl) (fun _ _ h' => hcalm h'.1) ?_
    rintro e s' (⟨rfl, -⟩ | ⟨-, h'⟩)
    · rfl
    · exact absurd h' hcalm
  obtain ⟨e, s', hc, rfl⟩ := Process.stops_next hstep
  rw [hc]
  trivial

/-- **Assertions.**  In every run, no assertion fails exactly if the steps are calm. -/
theorem asserts_iff (statusCb : Bool) (starts : List Bool) (final : Status) (ls : List Step)
    (h : Legal (new statusCb starts final) ls) :
    (∀ pre, pre <+: ls → ¬ Aborted (after (new statusCb starts final) pre)) ↔
      Process.Along Step.exec (fun s l => l.calm s = true) (.running (new statusCb starts final))
        ls :=
  Process.along_iff_next (I := fun c => Inv statusCb c.state ∧ ¬ Aborted c) (fun _ h' => h'.2)
    (fun _ l hI hl hcalm => next_calm hI.1 l hl hcalm)
    (fun _ l hI hl hcalm h' => h' (next_not_calm hI.1 l hl hcalm))
    ⟨.new statusCb starts final, id⟩ h

/-- The message callback answers, and the status callback closes the writing. -/
def answeringRun : List Step :=
  [.call (.readEach true) idle,
    .read true ⟨some ⟨some [1]⟩⟩ (fun msg => .call (.write msg) idle (.ret .OK)) idle,
    .sent true idle,
    .call (.setErrorStatus (.internalError [])) fun _ => .call .closeWriting idle (.ret .OK),
    .read true ⟨none⟩ (fun _ => .ret .OK) idle]

theorem asserts_iff_answeringRun :
    Legal (new true [] .OK) answeringRun ∧
      ∀ pre, pre <+: answeringRun → ¬ Aborted (after (new true [] .OK) pre) :=
  ⟨by decide, (asserts_iff true [] .OK answeringRun (by decide)).mpr (by decide)⟩

/-- `status_cb_` writes when it is told an error that the user sets. -/
def writingRun : List Step :=
  [.call (.setErrorStatus (.internalError [])) fun _ => .call (.write [1]) idle (.ret .OK)]

/-- The assertion of `Write` fails: the directions end only after `status_cb_` has returned. -/
theorem not_asserts : ¬ ∀ (statusCb : Bool) (starts : List Bool) (final : Status) (ls : List Step),
    Legal (new statusCb starts final) ls →
      ∀ pre, pre <+: ls → ¬ Aborted (after (new statusCb starts final) pre) := by
  intro h
  exact h true [] .OK writingRun (by decide) writingRun List.prefix_rfl trivial

end GrpcLua.ReaderWriter
