import GrpcLua.Client.ReaderWriter.StatusCb
import GrpcLua.Client.Reader
import GrpcLua.Client.SyncReaderWriter

/-!
# Client — FinalStatus

The status with which the server ends a call, and what three kinds of client stream hand to the
user for it.  The runs are those without any local error: gRPC takes every batch, every batch
completes with success, the callbacks set no error and answer none.

The asynchronous reader and the synchronous reader-writer receive the status in a batch of its own;
the asynchronous reader-writer has no such batch, and hands on the OK status it was constructed
with.
-/

namespace GrpcLua
open Prog

/-- What came can be read: the end of the stream, or a message. -/
def CodRecvMsg.Readable (cod : CodRecvMsg) : Prop :=
  ∀ buf, cod.recvBuf = some buf → buf.contents ≠ none

/-- A tag that can be read gives OK and some bytes. -/
theorem CodRecvMsg.Readable.getResultMsg {σ : Type} {cod : CodRecvMsg} (h : cod.Readable)
    (hgot : cod.hasGotMsg = true) (result : Bytes) :
    ∃ bytes, (cod.getResultMsg result : EStateM Exit σ (Status × Bytes)) = pure (.OK, bytes) := by
  obtain ⟨_ | ⟨_ | bytes⟩⟩ := cod
  · simp [hasGotMsg] at hgot
  · exact absurd rfl (h _ rfl)
  · exact ⟨bytes, rfl⟩

/-! ### The asynchronous reader-writer -/

namespace ReaderWriter

/-- The call sets no error. -/
def Call.Smooth (c : Call) : Prop := ∀ e, c ≠ .setErrorStatus e

/-- The step brings no local error. -/
def Step.Smooth : Step → Prop
  | .call c cb => c.Smooth ∧ ∀ st, (cb st).Every fun c _ => c.Smooth
  | .sent success cb => success = true ∧ ∀ st, (cb st).Every fun c _ => c.Smooth
  | .read success tag onMsg cb =>
      (success = true ∧ tag.Readable) ∧
      (∀ msg, ((onMsg msg).Every fun c _ => c.Smooth) ∧ (onMsg msg).Answers (·.ok = true)) ∧
      ∀ st, (cb st).Every fun c _ => c.Smooth

/-- No error has occurred, and the statuses handed on are OK. -/
structure Smooth (s : ReaderWriter) : Prop where
  status : s.status = .OK
  starts : s.starts = []
  handed : ∀ st ∈ statuses s.trace, st = .OK

variable {s : ReaderWriter}

/-- An event that hands over OK at most. -/
theorem Smooth.event (h : Smooth s) {e : Event Cb} (he : ∀ st ∈ statuses [e], st = .OK) :
    Smooth { s with trace := s.trace ++ [e] } where
  status := h.status
  starts := h.starts
  handed := fun st hst => by
    rw [statuses_append] at hst
    exact (List.mem_append.mp hst).elim (h.handed st) (he st)

/-- A batch hands nothing over. -/
theorem Smooth.submitted (h : Smooth s) (b : Batch) : Smooth (submitted s b true) :=
  { h.event (e := .batch b true) (by simp [statuses]) with
    starts := by simp [h.starts] }

/-- Every batch is taken. -/
theorem Smooth.wp_submit (h : Smooth s) {Q : Bool → ReaderWriter → Prop}
    {E : Exit → ReaderWriter → Prop} {b : Batch} (hQ : Q true (ReaderWriter.submitted s b true)) :
    wp (startBatch b) Q E s := by
  rw [ReaderWriter.wp_submit, h.starts]
  exact hQ

section functions
variable {k : Status → M Status} (hk : ∀ st, Keeps Smooth (fun _ _ => True) (k st))
include hk

/-- `status_cb_` is handed the OK of `status_`. -/
theorem smooth_callStatusCb (h : Smooth s) :
    wp (callStatusCb k) (fun _ => Smooth) (fun _ => Smooth) s := by
  simp only [callStatusCb, wp_bind, wp_get, wp_ite, wp_emit, env_eq, setEnv_eq, wp_modify, wp_pure]
  split
  · refine (hk _).wp (h.event ?_) (fun _ s₁ h₁ _ => { h₁ with }) fun _ _ h₁ _ => h₁
    simp [statuses, h.status]
  · exact h

omit hk in
theorem smooth_initIfNot (h : Smooth s) :
    wp (initIfNot k) (fun _ => Smooth) (fun _ => Smooth) s := by
  simp only [initIfNot, wp_bind, wp_get, wp_ite, wp_pure, wp_modify]
  have h₀ : Smooth { s with inited := true } := { h with }
  split
  · exact h
  rw [if_neg (by simp [h.status])]
  refine h₀.wp_submit ?_
  rw [if_neg (by simp)]
  refine (h₀.submitted _).wp_submit ?_
  rw [if_neg (by simp)]
  exact (h₀.submitted _).submitted _

omit hk in
theorem smooth_sendNext (h : Smooth s) :
    wp (sendNext k) (fun _ => Smooth) (fun _ => Smooth) s := by
  simp only [sendNext, wp_bind, wp_check, wp_get, wp_ite, wp_modify, wp_pure]
  split
  · rw [if_pos (by simp [h.status])]
    refine h.wp_submit ?_
    rw [if_pos rfl]
    exact { h.submitted _ with }
  · exact h

omit hk in
/-- The read is taken, so the status stays OK. -/
theorem smooth_readNext (h : Smooth s) :
    wp (readNext k) (fun _ => Smooth) (fun _ => Smooth) s := by
  simp only [readNext, wp_bind, wp_check, wp_ite, wp_modify]
  rw [if_pos (by simp [h.status])]
  refine h.wp_submit ?_
  rw [if_pos rfl]
  exact { h.submitted _ with }

omit hk in
/-- The half-close is taken, so the status stays OK. -/
theorem smooth_sendClose (h : Smooth s) :
    wp (sendClose k) (fun _ => Smooth) (fun _ => Smooth) s := by
  simp only [sendClose, wp_bind, wp_check, wp_modify, wp_ite, wp_pure]
  have h₁ : Smooth { s with hasSentClose := true, writingEnded := true } := { h with }
  split
  · split
    · rw [if_pos (by simp [h.status])]
      refine h₁.wp_submit ?_
      rw [if_pos rfl]
      exact h₁.submitted _
    · exact h
  · exact h

omit hk in
/-- No smooth call makes the status an error. -/
theorem smooth_call (h : Smooth s) (c : Call) (hc : c.Smooth) :
    wp (c.exec k) (fun _ => Smooth) (fun _ => Smooth) s := by
  have hclose : wp (closeWriting k) (fun _ => Smooth) (fun _ => Smooth) s := by
    have h₁ : Smooth { s with writingClosing := true } := { h with }
    simp only [closeWriting, wp_bind, wp_get, wp_ite, wp_pure, wp_modify, wp_check]
    split
    · exact h
    rw [if_neg (by simp [h.status])]
    split
    · exact h₁
    split
    · refine wp_mono (smooth_sendClose h₁) ?_ fun _ _ h' => h'
      intro _ s₁ h'
      split <;> exact h'
    · exact h₁
  cases c with
  | write msg =>
      simp only [Call.exec, ReaderWriter.write, wp_bind, wp_get, wp_ite, wp_check, wp_pure,
        wp_modify, wp_emit, env_eq, setEnv_eq]
      refine wp_mono (smooth_initIfNot h) ?_ fun _ _ h' => h'
      intro _ s₁ h₁
      -- What is written is none of the statuses.
      have hwrote : ∀ {s₂} r, Smooth s₂ → Smooth { s₂ with trace := s₂.trace ++ [.wrote msg r] } :=
        fun r h₂ => h₂.event (by simp [statuses])
      have h₂ : Smooth { s₁ with msgQueue := s₁.msgQueue ++ [msg] } := { h₁ with }
      rw [if_neg (by simp [h₁.status])]
      split
      · exact hwrote _ h₁
      split
      · exact hwrote _ h₂
      · exact wp_mono (smooth_sendNext h₂) (fun r _ h' => hwrote r h') fun _ _ h' => h'
  | closeWriting => exact hclose
  | readEach msgCb =>
      simp only [Call.exec, ReaderWriter.readEach, wp_bind, wp_get, wp_ite, wp_pure, wp_modify]
      have h₁ : Smooth { s with readingStarted := true } := { h with }
      split
      · exact h
      refine wp_mono (smooth_initIfNot h₁) ?_ fun _ _ h' => h'
      intro _ s₂ h₂
      have h₃ : Smooth { s₂ with msgCb := msgCb } := { h₂ with }
      rw [if_neg (by simp [h₂.status])]
      exact smooth_readNext h₃
  | setErrorStatus e => exact absurd rfl (hc e)
  | destroyWrapper =>
      simp only [Call.exec, wp_bind, wp_modify]
      exact wp_mono hclose (fun _ _ h' => { h' with }) fun _ _ h' => h'

end functions

/-- A reaction that sets no error brings none. -/
theorem smooth_prog {r : React} (hr : r.Every fun c _ => c.Smooth) :
    Keeps Smooth (fun _ _ => True) r.prog :=
  Reaction.keeps (fun _ => trivial) (fun _ _ _ _ _ => trivial)
    (fun c _ hc _ _ h => wp_mono (smooth_call h c hc) (fun _ _ h' => ⟨h', trivial⟩)
      fun _ _ h' => ⟨h', trivial⟩) r hr

/-- A step without local error brings none. -/
theorem smooth_step (h : Smooth s) (l : Step) (hl : l.Smooth) :
    wp l.exec (fun _ => Smooth) (fun _ => Smooth) s := by
  cases l with
  | call c cb => exact smooth_call h c hl.1
  | sent success cb =>
      obtain ⟨rfl, hcb⟩ := hl
      have hk := fun st => smooth_prog (hcb st)
      have h₁ : Smooth { s with
          msgQueue := s.msgQueue.tail
          sending := s.sending.tail
          trace := s.trace ++ [.sent (s.sending.headD []) true] } :=
        { h.event (e := .sent (s.sending.headD []) true) (by simp [statuses]) with }
      simp only [Step.exec, onSent, wp_bind, wp_get, wp_modify, wp_emit, env_eq, setEnv_eq,
        wp_check, wp_ite, wp_pure]
      split
      case isFalse =>
        exact { h.event (e := .sent (s.sending.headD []) true) (by simp [statuses]) with }
      rw [if_neg (by simp [h.status]), if_neg (by simp)]
      -- The queue is drained first; the close goes out when it is empty.
      split
      · exact smooth_sendNext h₁
      split
      · exact h₁
      refine wp_mono (smooth_sendClose h₁) ?_ fun _ _ h' => h'
      intro _ s₂ h₂
      split
      · split
        · exact smooth_callStatusCb hk h₂
        · exact h₂
      · exact h₂
  | read success tag onMsg cb =>
      obtain ⟨⟨rfl, htag⟩, hmsg, hcb⟩ := hl
      have hk := fun st => smooth_prog (hcb st)
      have h₁ : Smooth { s with reading := s.reading - 1 } := { h with }
      have h₂ : Smooth { s with reading := s.reading - 1, readingEnded := true } := { h with }
      simp only [Step.exec, onRead, wp_bind, wp_get, wp_modify, wp_check, wp_ite, wp_pure]
      split
      case isFalse => exact h₁
      rw [if_neg (by simp [h.status]), if_neg (by simp)]
      split
      · split
        · exact smooth_callStatusCb hk h₂
        · exact h₂
      case isFalse hgot =>
        -- A smooth read that has got a message can read its bytes.
        obtain ⟨bytes, hbytes⟩ := htag.getResultMsg (by simpa using hgot) []
        rw [hbytes, wp_pure]
        simp only [wp_emit, env_eq, setEnv_eq]
        rw [if_neg (by simp)]
        split
        · have h₃ : Smooth { s with
              reading := s.reading - 1, trace := s.trace ++ [.called (.msgCb bytes)] } :=
            h₁.event (by simp [statuses])
          refine wp_mono (wp_and (smooth_prog (hmsg bytes).1 _ h₃)
            (Reaction.answers (onMsg bytes) (hmsg bytes).2 _)) ?_ fun _ _ h' => h'.1.1
          rintro status s₄ ⟨⟨h₄, -⟩, hok⟩
          rw [if_neg (by simp [hok])]
          exact smooth_readNext h₄
        · exact smooth_readNext h₁

/-- What `status_cb_` is handed, in every run without local error, is the final status. -/
def Hands (final : Status) : Prop :=
  ∀ ls, Legal (new true [] final) ls → (∀ l ∈ ls, l.Smooth) →
    ∀ st ∈ statuses (after (new true [] final) ls).state.trace, st = final

/-- The stream is read and closed, and ends. -/
def endingRun : List Step :=
  [.call (.readEach false) idle, .call .closeWriting idle,
    .read true ⟨none⟩ (fun _ => .ret .OK) idle]

theorem endingRun_smooth : ∀ l ∈ endingRun, l.Smooth := by
  simp [endingRun, Step.Smooth, Call.Smooth, idle, Reaction.Every, Reaction.Answers,
    CodRecvMsg.Readable]

/-- What is handed over is the OK of `status_`, whatever the final status: they agree only where it
is OK. -/
theorem hands_iff (final : Status) : Hands final ↔ final = .OK := by
  constructor
  · -- Whatever the server ends the call with, a stream that ends normally is told OK.
    intro h
    exact (h endingRun ⟨trivial, trivial, Nat.one_pos, trivial⟩ endingRun_smooth .OK
      (List.mem_singleton.mpr rfl)).symm
  · rintro rfl ls - hls
    have hs := Process.invariant_state (P := fun _ l => l.Smooth)
      (fun s l h hl => smooth_step h l hl) (c := .running (new true [] .OK))
      ⟨rfl, rfl, by simp [new, statuses]⟩ (.of_forall hls)
    exact hs.handed

end ReaderWriter

/-! ### The asynchronous reader -/

namespace Reader

/-- The step brings no local error. -/
def Step.Smooth : Step → Prop
  | .call _ _ => True
  | .read success tag onMsg _ =>
      (success = true ∧ tag.Readable) ∧ ∀ msg, (onMsg msg).Answers (·.ok = true)
  | .recvStatus success _ => success = true

/-- No error has occurred, and the statuses handed on are the final one. -/
structure Smooth (final : Status) (s : Reader) : Prop where
  status : s.status.ok = true
  starts : s.starts = []
  ends : s.final = final
  handed : ∀ st ∈ statuses s.trace, st = final

variable {final : Status} {s : Reader}

/-- An event that hands over the final status at most. -/
theorem Smooth.event (h : Smooth final s) {e : Event Cb} (he : ∀ st ∈ statuses [e], st = final) :
    Smooth final { s with trace := s.trace ++ [e] } :=
  { h with
    handed := fun st hst => by
      rw [statuses_append] at hst
      exact (List.mem_append.mp hst).elim (h.handed st) (he st) }

/-- Every batch is taken. -/
theorem Smooth.wp_startBatch (h : Smooth final s) {Q : Bool → Reader → Prop}
    {E : Exit → Reader → Prop} {b : Batch}
    (hQ : ∀ s', Smooth final s' → Q true s') : wp (startBatch b) Q E s := by
  rw [GrpcLua.wp_startBatch, env_eq, h.starts]
  exact hQ _ { h.event (e := .batch b true) (by simp [statuses]) with starts := rfl }

section functions
variable {k : Status → M Status}

/-- The read is taken, so the status stays OK. -/
theorem smooth_readNext (h : Smooth final s) :
    wp (readNext k) (fun _ => Smooth final) (fun _ => Smooth final) s := by
  simp only [readNext, wp_bind, wp_check, wp_ite, wp_modify]
  rw [if_pos h.status]
  refine h.wp_startBatch fun s' h' => ?_
  rw [if_pos rfl]
  exact { h' with }

/-- A call hands nothing over, unless it is the final status. -/
theorem smooth_call (h : Smooth final s) (c : Call) :
    wp (c.exec k) (fun _ => Smooth final) (fun _ => Smooth final) s := by
  obtain ⟨msgCb, statusCb⟩ := c
  simp only [Call.exec, start, init, wp_bind, wp_get, wp_ite, wp_check, wp_modify, wp_pure]
  split
  · exact h
  have h₁ : Smooth final { s with isStarted := true, msgCb := msgCb, statusCb := statusCb } :=
    { h with }
  rw [if_pos h.status, if_pos h.status]
  refine h₁.wp_startBatch fun s' h' => ?_
  rw [if_pos rfl, if_pos trivial]
  exact smooth_readNext h'

end functions

/-- Nor does a callback, whatever it calls. -/
theorem smooth_prog (r : React) : Keeps (Smooth final) (fun _ _ => True) r.prog :=
  Reaction.keeps (p := fun _ _ => True) (fun _ => trivial) (fun _ _ _ _ _ => trivial)
    (fun c _ _ _ _ h => wp_mono (smooth_call h c) (fun _ _ h' => ⟨h', trivial⟩)
      fun _ _ h' => ⟨h', trivial⟩) r (Reaction.every_of_forall (fun _ _ => trivial) r)

/-- A step without local error brings none, and the status it receives is the final one. -/
theorem smooth_step (h : Smooth final s) (l : Step) (hl : l.Smooth) :
    wp l.exec (fun _ => Smooth final) (fun _ => Smooth final) s := by
  cases l with
  | call c cb => exact smooth_call h c
  | read success tag onMsg cb =>
      obtain ⟨⟨rfl, htag⟩, hmsg⟩ := hl
      have h₁ : Smooth final { s with reading := s.reading - 1 } := { h with }
      simp only [Step.exec, onRead, recvStatus, wp_bind, wp_get, wp_modify, wp_check, wp_ite,
        wp_pure]
      split
      case isFalse => exact h₁
      rw [if_pos h.status, if_neg (by simp)]
      split
      · refine h₁.wp_startBatch fun s' h' => ?_
        rw [if_pos rfl]
        exact { h' with }
      case isFalse hgot =>
        -- A smooth read that has got a message can read its bytes.
        obtain ⟨bytes, hbytes⟩ := htag.getResultMsg (by simpa using hgot) []
        have h₂ : Smooth final { s with reading := s.reading - 1, status := .OK } :=
          { h with status := rfl }
        have h₃ : Smooth final { s with
            reading := s.reading - 1
            status := .OK
            trace := s.trace ++ [.called (.msgCb bytes)] } :=
          h₂.event (by simp [statuses])
        rw [hbytes, wp_pure]
        simp only [wp_emit, env_eq, setEnv_eq]
        rw [if_neg (by simp)]
        split
        · refine wp_mono (wp_and (smooth_prog (onMsg bytes) _ h₃)
            (Reaction.answers (onMsg bytes) (hmsg bytes) _)) ?_ fun _ _ h' => h'.1.1
          rintro status s₄ ⟨⟨h₄, -⟩, hok⟩
          have h₅ : Smooth final { s₄ with status := status } := { h₄ with status := hok }
          rw [if_neg (by simp [hok])]
          exact smooth_readNext h₅
        · exact smooth_readNext h₂
  | recvStatus success cb =>
      cases hl
      have h₁ : Smooth final { s with
          receiving := s.receiving.tail
          trace := s.trace ++ [.called (.statusCb s.final)] } :=
        { h.event (e := .called (.statusCb s.final)) (by simp [statuses, h.ends]) with }
      simp only [Step.exec, onRecvStatus, wp_bind, wp_get, wp_modify, wp_ite, wp_pure, wp_emit,
        env_eq, setEnv_eq]
      split
      · exact { h with }
      · exact wp_mono (smooth_prog (cb s.final) _ h₁) (fun _ _ h' => h'.1) fun _ _ h' => h'.1

/-- What the callback is handed, in every run without local error, is the final status. -/
def Hands (final : Status) : Prop :=
  ∀ request ls, Legal (new request [] final) ls → (∀ l ∈ ls, l.Smooth) →
    ∀ st ∈ statuses (after (new request [] final) ls).state.trace, st = final

/-- The reader hands over the final status that gRPC has. -/
theorem hands (final : Status) : Hands final := by
  rintro request ls - hls
  have hs := Process.invariant_state (I := Smooth final) (P := fun _ l => l.Smooth)
    (fun s l h hl => smooth_step h l hl) (c := .running (new request [] final))
    ⟨rfl, rfl, rfl, by simp [new, statuses]⟩ (.of_forall hls)
  exact hs.handed

end Reader

/-! ### The synchronous reader-writer -/

namespace SyncReaderWriter

/-- The statuses that `RecvStatus` returned, call after call. -/
def statuses (tr : List (Event Ret)) : List Status :=
  tr.filterMap fun | .called (.recvStatus st) => some st | _ => none

@[simp] theorem statuses_append (tr tr' : List (Event Ret)) :
    statuses (tr ++ tr') = statuses tr ++ statuses tr' := List.filterMap_append

/-- The step brings no local error. -/
def Step.Smooth : Step → Prop
  | .readOne tag => tag.Readable
  | .setErrorStatus _ => False
  | _ => True

/-- No error has occurred, and the statuses returned are the final one. -/
structure Smooth (final : Status) (s : SyncReaderWriter) : Prop where
  status : s.status.ok = true
  starts : s.starts = []
  ends : s.final = final
  returned : ∀ st ∈ statuses s.trace, st = final

variable {final : Status} {s : SyncReaderWriter}

/-- An event that returns the final status at most. -/
theorem Smooth.event (h : Smooth final s) {e : Event Ret} (he : ∀ st ∈ statuses [e], st = final) :
    Smooth final { s with trace := s.trace ++ [e] } :=
  { h with
    returned := fun st hst => by
      rw [statuses_append] at hst
      exact (List.mem_append.mp hst).elim (h.returned st) (he st) }

/-- Every batch is taken. -/
theorem Smooth.wp_startBatch (h : Smooth final s) {Q : Bool → SyncReaderWriter → Prop}
    {E : Exit → SyncReaderWriter → Prop} {b : Batch}
    (hQ : ∀ s', Smooth final s' → Q true s') : wp (startBatch b) Q E s := by
  rw [GrpcLua.wp_startBatch, env_eq, h.starts]
  exact hQ _ { h.event (e := .batch b true) (by simp [statuses]) with starts := rfl }

/-- The half-close is taken, and returns no status. -/
theorem smooth_closeWriting (h : Smooth final s) :
    wp closeWriting (fun _ => Smooth final) (fun _ => Smooth final) s := by
  simp only [closeWriting, wp_bind, wp_get, wp_ite, wp_pure, wp_modify]
  split
  · exact h
  have h₁ : Smooth final { s with writingClosed := true } := { h with }
  rw [if_neg (by simp [h.status])]
  refine h₁.wp_startBatch fun s' h' => ?_
  rw [if_pos rfl]
  exact h'

/-- A tag that can be read leaves the status OK. -/
theorem smooth_syncReadOne (h : Smooth final s) {tag : CodRecvMsg} (htag : tag.Readable) :
    wp (syncReadOne tag) (fun _ => Smooth final) (fun _ => Smooth final) s := by
  simp only [syncReadOne, wp_bind, wp_get, wp_ite, wp_pure, wp_modify]
  rw [if_neg (by simp [h.status])]
  refine h.wp_startBatch fun s' h' => ?_
  rw [if_neg (by simp)]
  split
  · exact h'
  case isFalse hgot =>
    obtain ⟨bytes, hbytes⟩ := htag.getResultMsg (by simpa using hgot) []
    rw [hbytes, wp_pure]
    exact { h' with status := rfl }

/-- A step without local error brings none, and the status it returns is the final one. -/
theorem smooth_step (h : Smooth final s) (l : Step) (hl : l.Smooth) :
    wp l.exec (fun _ => Smooth final) (fun _ => Smooth final) s := by
  cases l with
  | write request =>
      simp only [Step.exec, SyncReaderWriter.write, wp_bind, wp_get, wp_ite, wp_pure, wp_modify,
        wp_emit, env_eq, setEnv_eq]
      rw [if_neg (by simp [h.status])]
      refine h.wp_startBatch fun s' h' => ?_
      rw [if_pos rfl]
      exact h'.event (by simp [statuses])
  | closeWriting => exact smooth_closeWriting h
  | readOne tag =>
      simp only [Step.exec, SyncReaderWriter.readOne, recvInitMdIfNot, wp_bind, wp_get, wp_ite,
        wp_pure, wp_modify, wp_check, wp_emit, env_eq, setEnv_eq]
      have hread : ∀ s', Smooth final s' → wp (syncReadOne tag)
          (fun a s' => Smooth final { s' with trace := s'.trace ++ [.called (.readOne a)] })
          (fun _ => Smooth final) s' := fun s' h' =>
        wp_mono (smooth_syncReadOne h' hl) (fun _ _ h'' => h''.event (by simp [statuses]))
          fun _ _ h'' => h''
      have h₁ : Smooth final { s with initMdReceived := true } := { h with }
      rw [if_neg (by simp [h.status])]
      split
      · rw [if_neg (by simp [h.status])]
        exact hread s h
      rw [if_pos h.status]
      refine h₁.wp_startBatch fun s' h' => ?_
      rw [if_pos rfl, if_neg (by simp [h'.status])]
      exact hread s' h'
  | recvStatus =>
      simp only [Step.exec, SyncReaderWriter.recvStatus, syncRecvStatus, wp_bind, wp_get, wp_ite,
        wp_pure, wp_emit, env_eq, setEnv_eq]
      rw [if_neg (by simp [h.status])]
      refine h.wp_startBatch fun s' h' => ?_
      rw [if_neg (by simp)]
      exact h'.event (by simp [statuses, CodClientRecvStatus.getStatus, h'.ends])
  | setErrorStatus e => exact hl.elim
  | destroy => exact smooth_closeWriting h

theorem smooth_new (final : Status) : Smooth final (new [] final) := by
  have h : Smooth final (empty [] final) := ⟨rfl, rfl, rfl, by simp [empty, statuses]⟩
  refine endState_of_wp ?_
  simp only [construct, wp_bind, wp_ite, wp_pure, wp_modify]
  refine h.wp_startBatch fun s' h' => ?_
  rw [if_pos rfl]
  exact h'

/-- What `RecvStatus` returns, in every run without local error, is the final status. -/
def Hands (final : Status) : Prop :=
  ∀ ls, (∀ l ∈ ls, l.Smooth) → ∀ st ∈ statuses (after (new [] final) ls).state.trace, st = final

/-- `RecvStatus` returns the final status that gRPC has. -/
theorem hands (final : Status) : Hands final := by
  intro ls hls
  have hs := Process.invariant_state (I := Smooth final) (P := fun _ l => l.Smooth)
    (fun s l h hl => smooth_step h l hl) (c := .running (new [] final)) (smooth_new final)
    (.of_forall hls)
  exact hs.returned

end SyncReaderWriter

/-! ### The three together -/

/-- **The final status.**  The asynchronous reader and the synchronous reader-writer hand on
every final status; the asynchronous reader-writer does so for the OK status alone. -/
theorem handed_final_iff (final : Status) :
    (ReaderWriter.Hands final ∧ Reader.Hands final ∧ SyncReaderWriter.Hands final ↔ final = .OK) ∧
      Reader.Hands final ∧ SyncReaderWriter.Hands final :=
  ⟨⟨fun h => (ReaderWriter.hands_iff final).mp h.1, fun h => ⟨(ReaderWriter.hands_iff final).mpr h,
    Reader.hands final, SyncReaderWriter.hands final⟩⟩, Reader.hands final,
    SyncReaderWriter.hands final⟩

/-- The server ends the call with an error, and the callback is handed the OK status. -/
theorem handed_OK_for_error :
    (ReaderWriter.Legal (.new true [] (.internalError [])) ReaderWriter.endingRun ∧
      ∀ l ∈ ReaderWriter.endingRun, l.Smooth) ∧
    ReaderWriter.statuses (ReaderWriter.after (.new true [] (.internalError []))
      ReaderWriter.endingRun).state.trace = [.OK] ∧ Status.OK ≠ .internalError [] :=
  ⟨⟨by decide, ReaderWriter.endingRun_smooth⟩, by decide, by decide⟩

end GrpcLua
