import GrpcLua.Client.ReaderWriter.Functions

/-!
# Client — ReaderWriter — Settling

What an operation that returns has finished.  `Whole` says that the object is not in the middle of a
transition, `Broken` that a `status_cb_` which raised has left it in the middle of ending on an
error.  A call of the user leads from the one to the one or the other (`call_whole`) and never out
of the other (`call_broken`); a completion that returns leads from `Whole` to `Whole` (`sent_whole`,
`read_whole`).  What the callbacks do is arbitrary.
-/

namespace GrpcLua.ReaderWriter
open Prog

variable {s : ReaderWriter} {b r w : Bool}

/-- The object is not in the middle of a transition.  With `b`, a reading that was started goes on
or has ended; `msg_cb_` is run between two reads. -/
structure Whole (b : Bool) (s : ReaderWriter) : Prop where
  reads : b = true → s.status.ok = true → s.readingStarted = true →
    s.readingEnded = true ∨ 0 < s.reading
  failed : s.status.ok = false → s.readingEnded = true ∧ s.writingEnded = true
  closes : s.status.ok = true → s.writingClosing = true → s.msgQueue = [] →
    s.writingEnded = true

/-- The status is an error, and `status_cb_` has not been reset; `r` and `w` say which directions
had ended before. -/
structure Broken (r w : Bool) (s : ReaderWriter) : Prop where
  failed : s.status.ok = false
  set : s.statusCb = true
  reading : s.readingEnded = r
  writing : s.writingEnded = w

/-- A new object is not in the middle of anything. -/
theorem Whole.new (statusCb : Bool) (starts : List Bool) (final : Status) :
    Whole b (new statusCb starts final) := by
  constructor <;> simp [ReaderWriter.new]

/-- In error, both directions have ended. -/
theorem Whole.of_failed (hr : s.readingEnded = true) (hw : s.writingEnded = true) :
    Whole b s where
  reads := fun _ _ _ => .inl hr
  failed := fun _ => ⟨hr, hw⟩
  closes := fun _ _ _ => hw

/-- An object in error is in the middle of nothing: both directions have ended. -/
theorem Failed.whole (h : Failed s) : Whole b s :=
  .of_failed h.2.2.1 h.2.2.2

/-- Where there is something left to send, the queue may change. -/
theorem Whole.queued (h : Whole b s) {q : List Bytes} (hq : q ≠ []) (sending : List Bytes)
    (starts : List Bool) (tr : List (Event Cb)) :
    Whole b { s with msgQueue := q, sending := sending, starts := starts, trace := tr } :=
  { h with closes := fun _ _ h' => absurd h' hq }

/-- The program returns with the object whole; an exception leaves it broken. -/
abbrev Finishes {α : Type} (b r w : Bool) (x : M α) (s : ReaderWriter) : Prop :=
  wp x (fun _ => Whole b) (fun e s' => e = .exception → Broken r w s') s

/-- The program returns with the call ended on an error; an exception leaves it broken. -/
abbrev Fails {α : Type} (r w : Bool) (x : M α) (s : ReaderWriter) : Prop :=
  wp x (fun _ => Failed) (fun e s' => e = .exception → Broken r w s') s

/-- To fail is one way to finish. -/
theorem Fails.finishes {α : Type} {x : M α} (h : Fails r w x s) : Finishes b r w x s :=
  wp_mono h (fun _ _ h' => h'.whole) fun _ _ h' => h'

/-- Where a function returns, it leaves the object whole. -/
theorem Finishes.whole {α : Type} {x : M α} (h : Finishes b r w x s) :
    wp x (fun _ => Whole b) (fun _ _ => True) s :=
  wp_mono h (fun _ _ h' => h') fun _ _ _ => trivial

/-- A callback that keeps a broken object broken, and a whole one whole if it returns. -/
structure Minds (x : M Status) : Prop where
  broken : ∀ r w s, Broken r w s → wp x (fun _ => Broken r w) (fun _ => Broken r w) s
  whole : ∀ b s, Whole b s → wp x (fun _ => Whole b) (fun _ _ => True) s

section functions
variable {k : Status → M Status} (hk : ∀ st, Minds (k st))
include hk

/-- `status_cb_` may call what it likes. -/
theorem callStatusCb_whole (h : Whole b s) :
    wp (callStatusCb k) (fun _ => Whole b) (fun _ _ => True) s := by
  simp only [callStatusCb, wp_bind, wp_get, wp_ite, wp_emit, env_eq, setEnv_eq, wp_modify, wp_pure]
  split
  · refine wp_mono ((hk s.status).whole b _ { h with }) ?_ fun _ _ h' => h'
    exact fun _ s₁ h₁ => { h₁ with }
  · exact h

/-- Ending on an error ends both directions, whatever state the object is in. -/
theorem endOnErrorStatus_fails (e : Status) :
    Fails s.readingEnded s.writingEnded (endOnErrorStatus k e) s := by
  simp only [Fails, endOnErrorStatus, callStatusCb, wp_bind, wp_check, wp_get, wp_ite, wp_emit,
    env_eq, setEnv_eq, wp_modify, wp_pure]
  split
  case isFalse => simp
  case isTrue he =>
  rw [Bool.not_eq_true'] at he
  split
  case isFalse => simp
  case isTrue =>
  split
  case isTrue hset =>
    have hbroken : Broken s.readingEnded s.writingEnded
        { s with status := e, trace := s.trace ++ [.called (.statusCb e)] } := ⟨he, hset, rfl, rfl⟩
    refine wp_mono ((hk e).broken _ _ _ hbroken) ?_ fun _ _ h' _ => h'
    exact fun _ s₁ h₁ => ⟨h₁.failed, rfl, rfl, rfl⟩
  case isFalse hset => exact ⟨he, by simpa using hset, rfl, rfl⟩

/-- So does `SetInternalError`. -/
theorem setInternalError_fails (sError : Bytes) :
    Fails s.readingEnded s.writingEnded (setInternalError k sError) s := by
  simp only [Fails, setInternalError, wp_bind, wp_check]
  split
  · exact endOnErrorStatus_fails hk _
  · simp

/-- `InitIfNot()` ends the call on an error, or only initialises the object. -/
theorem initIfNot_fails :
    wp (initIfNot k) (fun _ s' => Failed s' ∨ ∃ inited starts tr,
        s' = { s with inited := inited, starts := starts, trace := tr })
      (fun e s' => e = .exception → Broken s.readingEnded s.writingEnded s') s := by
  have herror : ∀ (sError : Bytes) (s₁ : ReaderWriter),
      wp (setInternalError k sError) (fun _ s' => Failed s' ∨ ∃ inited starts tr,
        s' = { s with inited := inited, starts := starts, trace := tr })
      (fun e s' => e = .exception → Broken s₁.readingEnded s₁.writingEnded s') s₁ :=
    fun sError s₁ => wp_mono (setInternalError_fails hk sError) (fun _ _ h' => .inl h')
      fun _ _ h' => h'
  simp only [initIfNot, wp_bind, wp_get, wp_ite, wp_pure, wp_modify, wp_startBatch, env_eq,
    setEnv_eq]
  split
  · exact .inr ⟨_, _, _, rfl⟩
  split
  · exact .inr ⟨_, _, _, rfl⟩
  split
  · exact herror _ { s with inited := true, starts := _, trace := _ }
  split
  · exact herror _ { s with inited := true, starts := _, trace := _ }
  · exact .inr ⟨_, _, _, rfl⟩

/-- `SendNext` sends, or fails. -/
theorem sendNext_whole (h : Whole b s) :
    Finishes b s.readingEnded s.writingEnded (sendNext k) s := by
  simp only [Finishes, sendNext, wp_bind, wp_check, wp_get, wp_startBatch, wp_ite, wp_modify,
    wp_pure, env_eq, setEnv_eq]
  split
  case isFalse => simp
  case isTrue hq =>
  split
  case isFalse => simp
  case isTrue =>
  split
  · exact h.queued (by simpa using hq) _ _ _
  · exact (setInternalError_fails hk _).finishes

/-- `ReadNext` starts the reading that is to go on, or fails. -/
theorem readNext_whole (h : Whole false s) :
    Finishes b s.readingEnded s.writingEnded (readNext k) s := by
  simp only [Finishes, readNext, wp_bind, wp_check, wp_startBatch, wp_ite, wp_modify, env_eq,
    setEnv_eq]
  split
  case isFalse => simp
  case isTrue hs =>
  split
  · exact { h with reads := fun _ _ _ => .inr (Nat.succ_pos _) }
  · exact (setInternalError_fails hk _).finishes

/-- `SendClose()` ends the writing, also where it fails. -/
theorem sendClose_whole (hr : b = true → s.status.ok = true → s.readingStarted = true →
      s.readingEnded = true ∨ 0 < s.reading) :
    Finishes b s.readingEnded true (sendClose k) s := by
  simp only [Finishes, sendClose, wp_bind, wp_check, wp_modify, wp_startBatch, wp_ite, wp_pure,
    env_eq, setEnv_eq]
  split
  case isFalse => simp
  case isTrue =>
  split
  case isFalse => simp
  case isTrue =>
  split
  case isFalse => simp
  case isTrue hs =>
  split
  · exact ⟨hr, fun hf => absurd (hf.symm.trans hs) (by simp), fun _ _ _ => rfl⟩
  · exact (setInternalError_fails hk _).finishes

/-! ### The calls -/

/-- `Write` queues, sends or fails. -/
theorem write_whole (h : Whole b s) (msg : Bytes) :
    Finishes b s.readingEnded s.writingEnded (write k msg) s := by
  simp only [Finishes, write, wp_bind, wp_get, wp_ite, wp_check, wp_pure, wp_modify]
  refine wp_mono (initIfNot_fails hk) ?_ fun _ _ h' => h'
  rintro _ s₁ (hf | ⟨inited, starts, tr, rfl⟩)
  · rw [if_pos (by simp [hf.1]), if_pos (by simp [hf.2.2])]
    exact hf.whole
  split
  · split
    · exact { h with }
    · simp
  split
  · exact { h with }
  have hq : Whole b { s with
      inited := inited, starts := starts, trace := tr, msgQueue := s.msgQueue ++ [msg] } :=
    { h with closes := fun _ _ h' => absurd h' (by simp) }
  split
  · exact hq
  · exact sendNext_whole hk hq

/-- `CloseWriting` half-closes where nothing is queued. -/
theorem closeWriting_whole (h : Whole b s) :
    Finishes b s.readingEnded true (closeWriting k) s := by
  simp only [Finishes, closeWriting, wp_bind, wp_get, wp_ite, wp_check, wp_pure, wp_modify]
  split
  · exact h
  split
  case isTrue hf =>
    rw [Bool.not_eq_true'] at hf
    exact .of_failed (h.failed hf).1 (h.failed hf).2
  split
  case isTrue hq => exact { h with closes := fun _ _ h' => absurd h' (by simpa using hq) }
  split
  case isFalse => simp
  refine wp_mono (sendClose_whole hk (s := { s with writingClosing := true }) h.reads) ?_
    fun _ _ h' => h'
  intro _ s₁ h₁
  split
  · exact h₁
  · simp

/-- `ReadEach` starts the first read. -/
theorem readEach_whole (h : Whole b s) (msgCb : Bool) :
    Finishes b s.readingEnded s.writingEnded (readEach k msgCb) s := by
  simp only [Finishes, readEach, wp_bind, wp_get, wp_ite, wp_pure, wp_modify]
  split
  · exact h
  refine wp_mono (initIfNot_fails hk) ?_ fun _ _ h' => h'
  rintro _ s₁ (hf | ⟨inited, starts, tr, rfl⟩)
  · rw [if_pos (by simp [hf.1])]
    exact hf.whole
  split
  case isTrue hf =>
    rw [Bool.not_eq_true'] at hf
    exact .of_failed (h.failed hf).1 (h.failed hf).2
  case isFalse =>
    exact readNext_whole hk (s := { s with
      readingStarted := true, inited := inited, starts := starts, trace := tr, msgCb := msgCb })
      ⟨fun h' => absurd h' (by simp), h.failed, h.closes⟩

/-- `SetErrorStatus` ends both directions. -/
theorem setErrorStatus_whole (h : Whole b s) (e : Status) :
    Finishes b s.readingEnded s.writingEnded (setErrorStatus k e) s := by
  simp only [Finishes, setErrorStatus, wp_bind, wp_check, wp_get, wp_ite, wp_modify]
  split
  case isFalse => simp
  split
  case isTrue => exact (endOnErrorStatus_fails hk e).finishes
  case isFalse hs =>
    rw [Bool.not_eq_true] at hs
    exact .of_failed (h.failed hs).1 (h.failed hs).2

/-- A call that comes to an error has ended the writing before if it closes it. -/
theorem call_whole (h : Whole b s) (c : Call) :
    Finishes b s.readingEnded (c.closesWriting || s.writingEnded) (c.exec k) s := by
  cases c with
  | write msg =>
      simp only [Finishes, Call.exec, wp_bind, wp_emit]
      exact wp_mono (write_whole hk h msg) (fun _ _ h' => { h' with }) fun _ _ h' => h'
  | closeWriting => exact closeWriting_whole hk h
  | readEach msgCb => exact readEach_whole hk h msgCb
  | setErrorStatus e => exact setErrorStatus_whole hk h e
  | destroyWrapper =>
      simp only [Finishes, Call.exec, wp_bind, wp_modify]
      exact wp_mono (closeWriting_whole hk h) (fun _ _ h' => { h' with }) fun _ _ h' => h'

omit hk in
/-- In error, no call comes to run a callback. -/
theorem call_broken (h : Broken r w s) (c : Call) :
    wp (c.exec k) (fun _ => Broken r w) (fun e s' => e = .assertion ∧ Broken r w s') s := by
  -- In error, neither initialising nor closing does more than set a flag.
  have hinit : ∀ {s₁}, Broken r w s₁ →
      wp (initIfNot k) (fun _ => Broken r w) (fun _ _ => False) s₁ := by
    intro s₁ h₁
    simp only [initIfNot, wp_bind, wp_get, wp_ite, wp_pure, wp_modify]
    split
    · exact h₁
    · rw [if_pos (by simp [h₁.failed])]
      exact { h₁ with }
  have hclose : wp (closeWriting k) (fun _ => Broken r w) (fun _ _ => False) s := by
    simp only [closeWriting, wp_bind, wp_get, wp_ite, wp_pure, wp_modify]
    split
    · exact h
    · rw [if_pos (by simp [h.failed])]
      exact { h with }
  cases c with
  | write msg =>
      simp only [Call.exec, write, wp_bind, wp_get, wp_ite, wp_check, wp_emit, wp_pure]
      refine wp_mono (hinit h) ?_ fun _ _ h' => h'.elim
      intro _ s₁ h₁
      rw [if_pos (by simp [h₁.failed])]
      split
      · exact { h₁ with }
      · exact ⟨trivial, h₁⟩
  | closeWriting => exact wp_mono hclose (fun _ _ h' => h') fun _ _ h' => h'.elim
  | readEach msgCb =>
      simp only [Call.exec, readEach, wp_bind, wp_get, wp_ite, wp_pure, wp_modify]
      split
      · exact h
      have hstarted : Broken r w { s with readingStarted := true } := { h with }
      refine wp_mono (hinit hstarted) ?_ fun _ _ h' => h'.elim
      intro _ s₁ h₁
      rw [if_pos (by simp [h₁.failed])]
      exact h₁
  | setErrorStatus e =>
      simp only [Call.exec, setErrorStatus, wp_bind, wp_check, wp_get, wp_ite, wp_modify]
      split
      case isFalse => exact ⟨trivial, h⟩
      case isTrue he =>
        rw [if_neg (by simp [h.failed])]
        exact { h with failed := by simpa using he }
  | destroyWrapper =>
      simp only [Call.exec, wp_bind, wp_modify]
      exact wp_mono hclose (fun _ _ h' => { h' with }) fun _ _ h' => h'.elim

end functions

/-! ### The callbacks -/

/-- A broken object stays so, whatever a callback calls. -/
theorem prog_broken (x : React) (h : Broken r w s) :
    wp x.prog (fun _ => Broken r w) (fun _ => Broken r w) s := by
  have hkeeps : Keeps (Broken r w) (fun _ _ => True) x.prog :=
    Reaction.keeps (fun _ => trivial) (fun _ _ _ _ _ => trivial)
      (fun c _ _ _ s h => wp_mono (call_broken h c) (fun _ _ h' => ⟨h', trivial⟩)
        fun _ _ h' => ⟨h'.2, trivial⟩) x (Reaction.every_of_forall (fun _ _ => trivial) x)
  exact hkeeps.wp h (fun _ _ h' _ => h') fun _ _ h' _ => h'

/-- A callback leaves a whole object whole, where it returns. -/
theorem prog_whole : ∀ (x : React) {b : Bool} {s : ReaderWriter}, Whole b s →
    wp x.prog (fun _ => Whole b) (fun _ _ => True) s
  | .ret _, _, _, h => h
  | .raise, _, _, _ => trivial
  | .call c inner rest, _, _, h => by
      simp only [React.prog, Reaction.run, wp_bind]
      have hk : ∀ st, Minds (React.prog (inner st)) := fun st =>
        ⟨fun _ _ _ => prog_broken (inner st), fun _ _ => prog_whole (inner st)⟩
      refine wp_mono (call_whole hk h c) ?_ fun _ _ _ => trivial
      exact fun _ s₁ h₁ => prog_whole rest h₁

/-- Every callback does both. -/
theorem prog_minds (x : React) : Minds x.prog :=
  ⟨fun _ _ _ => prog_broken x, fun _ _ => prog_whole x⟩

/-! ### The completions -/

/-- The step is the completion of a tag. -/
def Step.completes : Step → Bool
  | .call _ _ => false
  | _ => true

section completions
variable {cb : Status → React}

/-- A `status_cb_` that has not been reset fails the assertion of a completion. -/
theorem sent_broken (h : Broken r w s) (success : Bool) :
    wp (Step.exec (.sent success cb)) (fun _ _ => False) (fun e _ => e = .assertion) s := by
  simp only [Step.exec, onSent, wp_bind, wp_get, wp_modify, wp_emit, env_eq, setEnv_eq, wp_check,
    wp_ite, wp_pure]
  split
  case isFalse => trivial
  rw [if_pos (by simp [h.failed]), if_neg (by simp [h.set])]
  trivial

/-- A completed read of an object in error fails an assertion: its `status_cb_` is still set. -/
theorem read_broken (h : Broken r w s) (success : Bool) (tag : CodRecvMsg)
    (onMsg : Bytes → React) :
    wp (Step.exec (.read success tag onMsg cb)) (fun _ _ => False) (fun e _ => e = .assertion)
      s := by
  simp only [Step.exec, onRead, wp_bind, wp_get, wp_modify, wp_check, wp_ite, wp_pure]
  split
  case isFalse => trivial
  rw [if_pos (by simp [h.failed]), if_neg (by simp [h.set])]
  trivial

/-- A completed write sends the next message, half-closes, or waits. -/
theorem sent_whole (h : Whole b s) (success : Bool) :
    wp (Step.exec (.sent success cb)) (fun _ => Whole b) (fun _ _ => True) s := by
  have hk : ∀ st, Minds (cb st).prog := fun st => prog_minds (cb st)
  simp only [Step.exec, onSent, wp_bind, wp_get, wp_modify, wp_emit, env_eq, setEnv_eq, wp_check,
    wp_ite, wp_pure]
  split
  case isFalse => trivial
  split
  case isTrue hf =>
    rw [Bool.not_eq_true'] at hf
    split
    · exact .of_failed (h.failed hf).1 (h.failed hf).2
    · trivial
  split
  · exact (setInternalError_fails hk _).finishes.whole
  split
  case isTrue hq =>
    refine Finishes.whole (sendNext_whole (s := { s with
      sending := _, msgQueue := _, trace := _ }) hk { h with closes := fun _ _ h' => ?_ })
    exact absurd h' (by simpa using hq)
  split
  case isTrue hw =>
    rw [Bool.not_eq_true'] at hw
    exact { h with closes := fun _ h' => absurd (hw.symm.trans h') (by simp) }
  refine wp_mono (sendClose_whole hk (b := b) (s := { s with
    sending := _, msgQueue := _, trace := _ }) h.reads) ?_ fun _ _ _ => trivial
  intro _ s₁ h₁
  split
  case isFalse => trivial
  split
  · exact callStatusCb_whole hk h₁
  · exact h₁

/-- A completed read starts the next one, or ends the reading. -/
theorem read_whole (h : Whole true s) (success : Bool) (tag : CodRecvMsg) (onMsg : Bytes → React) :
    wp (Step.exec (.read success tag onMsg cb)) (fun _ => Whole true) (fun _ _ => True) s := by
  have hk : ∀ st, Minds (cb st).prog := fun st => prog_minds (cb st)
  simp only [Step.exec, onRead, wp_bind, wp_get, wp_modify, wp_check, wp_ite, wp_pure]
  split
  case isFalse => trivial
  split
  case isTrue hf =>
    rw [Bool.not_eq_true'] at hf
    split
    · exact .of_failed (h.failed hf).1 (h.failed hf).2
    · trivial
  case isFalse hs =>
  split
  · exact (setInternalError_fails hk _).finishes.whole
  split
  · have hend : Whole true { s with reading := s.reading - 1, readingEnded := true } :=
      ⟨fun _ _ _ => .inl rfl, fun hf => absurd hf (by simpa using hs), h.closes⟩
    split
    · exact callStatusCb_whole hk hend
    · exact hend
  have hread : Whole false { s with reading := s.reading - 1 } :=
    ⟨fun h' => absurd h' (by simp), h.failed, h.closes⟩
  refine CodRecvMsg.wp_getResultMsg (fun r => ?_) trivial
  split
  · exact (endOnErrorStatus_fails hk _).finishes.whole
  split
  case isFalse => exact (readNext_whole hk hread).whole
  -- Between two reads, the message callback may end the call.
  simp only [wp_emit, env_eq, setEnv_eq]
  refine wp_mono (prog_whole (onMsg r.2) (b := false) { hread with }) ?_ fun _ _ h' => h'
  intro status s₁ h₁
  split
  · exact (endOnErrorStatus_fails hk _).finishes.whole
  · exact (readNext_whole hk h₁).whole

/-- A completion that returns leaves a whole object whole. -/
theorem completion_whole (h : Whole true s) (l : Step) (hl : l.completes = true) :
    wp l.exec (fun _ => Whole true) (fun _ _ => True) s := by
  cases l with
  | call c cb => exact absurd hl (by simp [Step.completes])
  | sent success cb => exact sent_whole h success
  | read success tag onMsg cb => exact read_whole h success tag onMsg

/-- No completion returns from a broken object. -/
theorem completion_broken (h : Broken r w s) (l : Step) (hl : l.completes = true) :
    wp l.exec (fun _ _ => False) (fun e _ => e = .assertion) s := by
  cases l with
  | call c cb => exact absurd hl (by simp [Step.completes])
  | sent success cb => exact sent_broken h success
  | read success tag onMsg cb => exact read_broken h success tag onMsg

end completions

end GrpcLua.ReaderWriter
