import GrpcLua.Client.ReaderWriter.Traffic
import GrpcLua.Client.MsgCbWrapper

/-!
# Client — ReaderWriter — Messages

The messages that a `ClientAsyncReaderWriterImpl` hands to `msg_cb_`.  Only a completed read hands
one on (`step_msgs`): the calls of the user, and whatever the callbacks call, leave the messages
alone (`prog_spares`).
-/

namespace GrpcLua.ReaderWriter
open Prog Trace MsgCbWrapper

variable {given : Bool} {s s' : ReaderWriter}

/-- The messages handed to `msg_cb_`. -/
def msgs (tr : List (Event Cb)) : List Bytes :=
  tr.filterMap fun | .called (.msgCb msg) => some msg | _ => none

@[simp] theorem msgs_append (tr tr' : List (Event Cb)) :
    msgs (tr ++ tr') = msgs tr ++ msgs tr' := List.filterMap_append

/-- The message that the step hands to `msg_cb_`, if any. -/
def Step.hands (s : ReaderWriter) : Step → Option Bytes
  | read true ⟨some ⟨some msg⟩⟩ _ _ => if s.status.ok && s.msgCb then some msg else none
  | _ => none

/-- A step hands on the message that it has received, if there is a `msg_cb_` and no error. -/
theorem Step.hands_eq_some {l : Step} {msg : Bytes} (h : l.hands s = some msg) :
    ∃ onMsg cb, l = read true ⟨some ⟨some msg⟩⟩ onMsg cb ∧ s.status.ok = true ∧ s.msgCb = true := by
  unfold hands at h
  split at h
  · simp only [Option.ite_none_right_eq_some, Bool.and_eq_true, Option.some.injEq] at h
    obtain ⟨⟨hs, hset⟩, rfl⟩ := h
    exact ⟨_, _, rfl, hs, hset⟩
  · exact absurd h (by simp)

/-! ### Calls hand on no message -/

/-- The program hands on no message. -/
abbrev Silent {α : Type} (x : M α) : Prop := Spares (fun s : ReaderWriter => msgs s.trace) x

/-- A batch hands on no message. -/
theorem startBatch_silent (b : Batch) : Silent (startBatch b) := by
  intro s
  rw [wp_startBatch, env_eq, setEnv_eq]
  exact (msgs_append _ _).trans (List.append_nil _)

theorem emit_silent {e : Event Cb} (he : msgs [e] = []) : Silent (emit e) := by
  intro s
  rw [wp_emit, env_eq, setEnv_eq]
  show msgs (s.trace ++ [e]) = msgs s.trace
  rw [msgs_append, he, List.append_nil]

section functions
variable {k : Status → M Status} (hk : ∀ st, Silent (k st))
include hk

/-- `status_cb_` is handed no message, and no call that it makes hands one on. -/
theorem callStatusCb_silent : Silent (callStatusCb k) :=
  .bind .get fun _ => .ite
    (.bind (emit_silent rfl) fun _ => .bind (hk _) fun _ => .modify fun _ => rfl) .pure

/-- Ending with an error hands on no message. -/
theorem endOnErrorStatus_silent (e : Status) : Silent (endOnErrorStatus k e) :=
  .bind .check fun _ => .bind .check fun _ => .bind (.modify fun _ => rfl) fun _ =>
    .bind (callStatusCb_silent hk) fun _ => .modify fun _ => rfl

theorem setInternalError_silent (sError : Bytes) : Silent (setInternalError k sError) :=
  .bind .check fun _ => endOnErrorStatus_silent hk _

theorem initIfNot_silent : Silent (initIfNot k) :=
  .bind .get fun _ => .ite .pure <| .bind (.modify fun _ => rfl) fun _ => .ite .pure <|
    .bind (startBatch_silent _) fun _ => .ite (setInternalError_silent hk _) <|
    .bind (startBatch_silent _) fun _ => .ite (setInternalError_silent hk _) .pure

theorem sendNext_silent : Silent (sendNext k) :=
  .bind .check fun _ => .bind .check fun _ => .bind .get fun _ =>
    .bind (startBatch_silent _) fun _ => .ite
      (.bind (.modify fun _ => rfl) fun _ => .pure)
      (.bind (setInternalError_silent hk _) fun _ => .pure)

/-- The next read completes later. -/
theorem readNext_silent : Silent (readNext k) :=
  .bind .check fun _ => .bind (startBatch_silent _) fun _ =>
    .ite (.modify fun _ => rfl) (setInternalError_silent hk _)

theorem sendClose_silent : Silent (sendClose k) :=
  .bind .check fun _ => .bind .check fun _ => .bind (.modify fun _ => rfl) fun _ =>
    .bind .check fun _ => .bind (.modify fun _ => rfl) fun _ =>
    .bind (startBatch_silent _) fun _ => .ite .pure (setInternalError_silent hk _)

/-- What is written is not handed on here. -/
theorem write_silent (msg : Bytes) : Silent (write k msg) :=
  .bind (initIfNot_silent hk) fun _ => .bind .get fun _ => .ite
    (.bind .check fun _ => .pure) <| .ite .pure <|
    .bind (.modify fun _ => rfl) fun _ => .ite .pure (sendNext_silent hk)

theorem closeWriting_silent : Silent (closeWriting k) :=
  .bind .get fun _ => .ite .pure <| .bind (.modify fun _ => rfl) fun _ => .ite .pure <|
    .ite .pure <| .bind .check fun _ => .bind (sendClose_silent hk) fun _ => .check

theorem readEach_silent (msgCb : Bool) : Silent (readEach k msgCb) :=
  .bind .get fun _ => .ite .pure <| .bind (.modify fun _ => rfl) fun _ =>
    .bind (initIfNot_silent hk) fun _ => .bind .get fun _ => .ite .pure <|
    .bind (.modify fun _ => rfl) fun _ => readNext_silent hk

theorem setErrorStatus_silent (e : Status) : Silent (setErrorStatus k e) :=
  .bind .check fun _ => .bind .get fun _ =>
    .ite (endOnErrorStatus_silent hk e) (.modify fun _ => rfl)

/-- No call hands on a message: only the completion of a read does. -/
theorem call_silent (c : Call) : Silent (c.exec k) := by
  cases c with
  | write msg =>
      refine .bind (write_silent hk msg) fun r => emit_silent ?_
      rfl
  | closeWriting => exact closeWriting_silent hk
  | readEach msgCb => exact readEach_silent hk msgCb
  | setErrorStatus e => exact setErrorStatus_silent hk e
  | destroyWrapper => exact .bind (closeWriting_silent hk) fun _ => .modify fun _ => rfl

/-- Nor does the completion of a write. -/
theorem onSent_silent (success : Bool) : Silent (onSent k success) :=
  .bind .check fun _ => .bind (.modify fun _ => rfl) fun _ => .bind .get fun _ =>
    .ite .check <| .ite (setInternalError_silent hk _) <|
    .ite (.bind (sendNext_silent hk) fun _ => .pure) <| .ite .pure <|
    .bind (sendClose_silent hk) fun _ => .bind .check fun _ => .bind .get fun _ =>
    .ite (callStatusCb_silent hk) .pure

end functions

/-- Whatever a callback does, it hands on no message. -/
theorem prog_silent (r : React) : Silent r.prog :=
  Reaction.spares (fun c _ hk => call_silent hk c) r

/-- **Messages.**  A step hands on its own message and no other. -/
theorem step_msgs (h : Inv given s) (l : Step) (hl : Step.Enabled s l) :
    wp l.exec (fun _ s' => msgs s'.trace = msgs s.trace ++ (l.hands s).toList)
      (fun _ s' => msgs s'.trace = msgs s.trace ++ (l.hands s).toList) s := by
  -- Messages are handed on in one place only; all other functions are silent.
  have hsilent : ∀ {x : M Unit} {s₁ : ReaderWriter}, Silent x →
      msgs s₁.trace = msgs s.trace ++ (l.hands s).toList →
      wp x (fun _ s' => msgs s'.trace = msgs s.trace ++ (l.hands s).toList)
        (fun _ s' => msgs s'.trace = msgs s.trace ++ (l.hands s).toList) s₁ :=
    fun hx h₁ => hx.wp (fun _ _ h₂ => h₂.trans h₁) fun _ _ h₂ => h₂.trans h₁
  cases l with
  | call c cb =>
      exact hsilent (call_silent (fun st => prog_silent (cb st)) c) (List.append_nil _).symm
  | sent success cb =>
      exact hsilent (.bind .get fun _ => .bind (.modify fun _ => rfl) fun _ =>
        .bind (emit_silent rfl) fun _ => onSent_silent (fun st => prog_silent (cb st)) success)
        (List.append_nil _).symm
  | read success tag onMsg cb =>
      have hk : ∀ st, Silent (cb st).prog := fun st => prog_silent (cb st)
      have hnone : (Step.read success tag onMsg cb).hands s = none → msgs s.trace =
          msgs s.trace ++ ((Step.read success tag onMsg cb).hands s).toList := by
        intro h
        rw [h, Option.toList_none, List.append_nil]
      have hstarted := h.reading_started hl
      by_cases hs : s.status.ok = true
      case neg =>
        have hno : (Step.read success tag onMsg cb).hands s = none := by
          unfold Step.hands
          split <;> simp [hs]
        rw [wp_read_inError hstarted (by simpa using hs)]
        split <;> exact hnone hno
      cases success with
      | false =>
          rw [wp_read_failure hstarted hs]
          exact hsilent (setInternalError_silent hk _) (hnone rfl)
      | true =>
          obtain ⟨_ | ⟨_ | bytes⟩⟩ := tag
          · rw [wp_read_end hstarted hs]
            split
            · exact hsilent (callStatusCb_silent hk) (hnone rfl)
            · exact hnone rfl
          · rw [wp_read_unreadable hstarted hs]
            exact hsilent (endOnErrorStatus_silent hk _) (hnone rfl)
          · rw [wp_read_message hstarted hs]
            split
            case isFalse hset =>
              exact hsilent (readNext_silent hk) (hnone (by simpa [Step.hands, hs] using hset))
            case isTrue hset =>
              have hhands : (Step.read true ⟨some ⟨some bytes⟩⟩ onMsg cb).hands s = some bytes := by
                simp [Step.hands, hs, hset]
              have hgot : msgs (s.trace ++ [.called (.msgCb bytes)]) =
                  msgs s.trace ++
                    ((Step.read true ⟨some ⟨some bytes⟩⟩ onMsg cb).hands s).toList := by
                rw [hhands]
                exact msgs_append _ _
              refine (prog_silent (onMsg bytes)).wp (fun status s₁ h₁ => ?_)
                fun _ _ h₁ => h₁.trans hgot
              split
              · exact hsilent (endOnErrorStatus_silent hk _) (h₁.trans hgot)
              · exact hsilent (readNext_silent hk) (h₁.trans hgot)

/-! ### Strings that cannot be decoded -/

/-- The only error, if there is any, is `e`: it is what has been told, and the status where there is
no `status_cb_` that can set another one. -/
structure OnlyError (e : Status) (set : Bool) (s : ReaderWriter) : Prop where
  told : ∀ st ∈ statuses s.trace, st = e
  status : set = false → s.status.ok = true ∨ s.status = e

/-- An error is told once, to the callback that is set. -/
theorem endOnErrorStatus_told {k : Status → M Status} (hk : ∀ st, Keeps (Inv given) Grows (k st))
    {e : Status} (hs : s.status.ok = true) (he : e.ok = false)
    (h : Base given { s with status := e }) (hnone : statuses s.trace = []) :
    wp (endOnErrorStatus k e) (fun _ => OnlyError e s.statusCb)
      (fun _ => OnlyError e s.statusCb) s := by
  have hn : s.statusCb = true → ∀ s', Grows (notified { s with status := e }) s' →
      ∀ st ∈ statuses s'.trace, st = e := by
    intro hset s' g
    rw [notified, if_pos hset] at g
    rcases g.statuses with hst | ⟨hok, -⟩
    · rw [hst, statuses_append, hnone]
      exact fun st hmem => List.mem_singleton.mp hmem
    · exact absurd (he.symm.trans hok) (by simp)
  simp only [endOnErrorStatus, wp_bind, wp_check, he, Bool.not_false, if_true, hs, wp_modify]
  by_cases hset : s.statusCb = true
  · exact wp_mono (wp_callStatusCb hk h (.inl he))
      (fun _ s' h' => ⟨hn hset s' h'.1.2, by simp [hset]⟩)
      fun _ s' h' => ⟨hn hset s' h'.2, by simp [hset]⟩
  · simp only [callStatusCb, wp_bind, wp_get, wp_ite, wp_pure]
    rw [if_neg hset]
    exact ⟨by simp [hnone], fun _ => .inr rfl⟩

/-- The status of a stream whose next read is refused. -/
def readError : Status :=
  .internalError (str "Failed to async read bi-directional streaming.")

/-- After a string that is answered OK, the only error is that of the next read. -/
theorem read_told (h : Inv given s) {bytes : Bytes} {onMsg : Bytes → React} {cb : Status → React}
    (hl : 0 < s.reading) (hs : s.status.ok = true) (hset : s.msgCb = true)
    (hok : onMsg bytes = .ret .OK) :
    wp (Step.exec (.read true ⟨some ⟨some bytes⟩⟩ onMsg cb))
      (fun _ => OnlyError readError s.statusCb) (fun _ => OnlyError readError s.statusCb) s := by
  -- A read in flight keeps the reading from having ended, so nothing was told.
  have hnone := h.untold hs (.inl (h.not_ended hl hs))
  have hI₁ : Inv given { readDone s with trace := s.trace ++ [.called (.msgCb bytes)] } :=
    (h.read_done hl).1.event rfl rfl rfl rfl trivial rfl hnone
  -- After the message comes the next read, and the only status is that of its refusal.
  have hI₂ := hI₁.batch [.recvMsg] (s.starts.headD true) (.inr rfl) rfl (by simp [Batch.msg?])
  have hnone₂ : statuses (s.trace ++ [.called (.msgCb bytes)] ++
      [.batch [.recvMsg] (s.starts.headD true)]) = [] := by
    rw [statuses_append, statuses_append, hnone]
    rfl
  rw [wp_read_message (h.reading_started hl) hs, if_pos hset, hok]
  simp only [React.prog, Reaction.run, wp_pure]
  rw [if_neg (by simp)]
  simp only [readNext, setInternalError, wp_bind, wp_check, wp_startBatch, wp_ite, wp_modify,
    env_eq, setEnv_eq, hs, if_true]
  split
  · refine ⟨?_, fun _ => .inl hs⟩
    rw [hnone₂]
    simp
  · exact endOnErrorStatus_told (fun st => prog_keeps (cb st)) hs rfl (hI₂.fail rfl) hnone₂

/-! ### Runs -/

section runs
variable {Msg : Type} {decode : Bytes → Bytes → Option Msg} {msgType : Bytes}

/-- The message callback of the step is a wrapped one. -/
def Step.Wrapped (decode : Bytes → Bytes → Option Msg) (msgType : Bytes) : Step → Prop
  | read _ _ onMsg _ => ∃ msgCb : Msg → React, onMsg = wrapLuaMsgCb decode msgType msgCb
  | _ => True

/-- The string that the step hands on can be decoded. -/
def Step.Decodes (decode : Bytes → Bytes → Option Msg) (msgType : Bytes) (s : ReaderWriter)
    (l : Step) : Prop :=
  ∀ b ∈ l.hands s, MsgCbWrapper.Decodes decode msgType b

instance Step.Decodes.decidable (decode : Bytes → Bytes → Option Msg) (msgType : Bytes)
    (s : ReaderWriter) (l : Step) : Decidable (Step.Decodes decode msgType s l) :=
  inferInstanceAs (Decidable (∀ b ∈ l.hands s, MsgCbWrapper.Decodes decode msgType b))

/-- What has come of the strings so far. -/
abbrev Reports (decode : Bytes → Bytes → Option Msg) (msgType : Bytes) (given : Bool)
    (s : ReaderWriter) : Prop :=
  MsgCbWrapper.Reports decode msgType given (msgs s.trace) s.status (statuses s.trace)

/-- The error of the next read is not that of the string. -/
theorem OnlyError.not_endsInError (h : OnlyError readError s.statusCb s')
    (hgiven : s.statusCb = true → given = true) :
    ¬ EndsInError msgType given s'.status (statuses s'.trace) := by
  rintro ⟨hstatus, htold⟩
  have hne : .internalError (errStr msgType) ≠ readError := fun he =>
    errStr_ne msgType (by decide) (congrArg Status.details he)
  cases hset : s.statusCb with
  | true => exact hne (h.told _ (htold (hgiven hset)))
  | false =>
      rcases h.status hset with hok | he
      · rw [hstatus] at hok
        exact absurd hok (by simp [Status.internalError, Status.ok])
      · exact hne (hstatus.symm.trans he)

/-- The strings of a stream are reported exactly as long as each of them can be decoded. -/
theorem run_reports (starts : List Bool) (final : Status) {ls : List Step}
    (h : Legal (new given starts final) ls) (hw : ∀ l ∈ ls, l.Wrapped decode msgType) :
    (∀ pre, pre <+: ls → Reports decode msgType given (after (new given starts final) pre).state) ↔
      Process.Along Step.exec (Step.Decodes decode msgType) (.running (new given starts final))
        ls := by
  refine reports_along_iff (fun s : ReaderWriter => msgs s.trace) (fun s => s.status)
    (fun s => statuses s.trace) (I := fun s => Inv given s ∧ (s.statusCb = true → given = true))
    (A := fun s l => Step.Enabled s l ∧ l.Wrapped decode msgType) ?_ ?_
    ⟨.new given starts final, id⟩ rfl (h.and (.of_forall hw))
  · rintro s l ⟨hI, hgiven⟩ ⟨hl, -⟩
    exact wp_mono (wp_and (step_keeps_unset hI l hl) (step_msgs hI l hl))
      (fun _ _ h' => ⟨⟨h'.1.1, fun hs => hgiven (h'.1.2 hs)⟩, h'.2⟩)
      fun _ _ h' => ⟨⟨h'.1.1, fun hs => hgiven (h'.1.2 hs)⟩, h'.2⟩
  · rintro s l b ⟨hI, hgiven⟩ ⟨hl, hwrap⟩ hb hdec
    -- The wrapped callback answers OK, and only the next read can fail.
    obtain ⟨onMsg, cb, rfl, hs, hset⟩ := Step.hands_eq_some hb
    obtain ⟨msgCb, rfl⟩ := hwrap
    exact wp_mono (read_told hI hl hs hset (wrapLuaMsgCb_undecoded decode msgType msgCb hdec))
      (fun _ _ h' => h'.not_endsInError hgiven) fun _ _ h' => h'.not_endsInError hgiven

end runs

end GrpcLua.ReaderWriter
