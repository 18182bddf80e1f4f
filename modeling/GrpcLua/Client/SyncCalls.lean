import GrpcLua.Client.SyncReader
import GrpcLua.Client.SyncReaderWriter
import GrpcLua.Client.SyncWriter
import GrpcLua.Core.CallRules

/-!
# Client — SyncCalls

Which sequences of public calls on the synchronous objects keep to the rules of a call.

An object in error submits no batch at all, and `CloseWriting()` and the initial metadata of
`ClientSyncReaderWriter` have a flag of their own.  Nothing else remembers what was submitted: as
long as the status is OK, a `Write` or a `Close` after `Close` submits its batch (`Late`), and so do
a second `RecvStatus` (`Again`) and a `Write` after `CloseWriting` (`Misplaced`).
-/

namespace GrpcLua
open Prog Trace

/-! ### ClientSyncWriter -/

namespace SyncWriter

/-- The batch of a call that finds the status OK. -/
def Step.batch : Step → Batch
  | write request => [.sendMsg request]
  | close _ _ _ => [.clientSendClose, .recvInitMd, .recvMsg, .clientRecvStatus]

/-- The call comes after a `Close` that was submitted, and the status is still OK. -/
def Late (s : SyncWriter) (_ : Step) : Bool := s.status.ok && closed s.trace

/-- The half-close brings the other operations that a call takes once. -/
structure Inv (s : SyncWriter) : Prop where
  admitted : Admitted s.trace
  started_closed : ∀ op, op.once = true → startedOp op s.trace = true → closed s.trace = true
  closed_started : s.status.ok = true → closed s.trace = true →
    startedOp .clientSendClose s.trace = true

/-- A new object has submitted what the invariant says. -/
theorem Inv.new (starts : List Bool) (final : Status) : Inv (new starts final) := by
  have h : ∀ (s : SyncWriter) started, s.trace = [.batch [.sendInitMd] started] → Inv s := by
    intro s started hs
    refine ⟨?_, ?_, ?_⟩
    · rw [hs]
      exact (whenever_singleton _).mpr (.free (by simp [Op.once]) rfl)
    · rw [hs]
      rintro (_ | _ | _ | _ | _ | _ | _) ho <;> simp_all [Op.once, startedOp]
    · rw [hs]
      simp [closed, Batch.closes]
  refine endState_of_wp ?_
  simp only [construct, wp_bind, wp_startBatch, wp_ite, wp_pure, wp_modify, env_eq, setEnv_eq]
  split <;> exact h _ _ rfl

/-- What a call does: in error, nothing; else it submits its batch, and the status stays OK only
if the batch was started. -/
def Does (s : SyncWriter) (l : Step) (s' : SyncWriter) : Prop :=
  s.status.ok = false ∧ s'.status = s.status ∧ Submits none false s.trace s'.trace ∨
  s.status.ok = true ∧ ∃ started, Submits (some l.batch) started s.trace s'.trace ∧
    (s'.status.ok = true → started = true)

/-- What each call submits. -/
theorem step_does (s : SyncWriter) (l : Step) :
    wp l.exec (fun _ s' => Does s l s') (fun _ s' => Does s l s') s := by
  cases hs : s.status.ok with
  | false =>
      cases l <;>
        simp only [Step.exec, write, close, wp_bind, wp_get, wp_ite, wp_pure, wp_emit, env_eq,
          setEnv_eq, hs, Bool.not_false, if_true] <;>
        exact .inl ⟨hs, rfl, _, by simp [Event.Silent], rfl⟩
  | true =>
      have hok : ∀ {s' : SyncWriter} rest, (∀ e ∈ rest, e.Silent) →
          s'.trace = s.trace ++ [.batch l.batch (s.starts.headD true)] ++ rest →
          (s'.status.ok = true → s.starts.headD true = true) → Does s l s' :=
        fun rest hrest htr hst => .inr ⟨hs, _, ⟨rest, hrest, htr⟩, hst⟩
      cases l with
      | write request =>
          simp only [Step.exec, write, wp_bind, wp_get, wp_ite, wp_pure, wp_startBatch, wp_modify,
            wp_emit, env_eq, setEnv_eq, hs, Bool.not_true, Bool.false_eq_true, if_false]
          split
          case isTrue hstart => exact hok [_] (by simp [Event.Silent]) rfl fun _ => hstart
          case isFalse => exact hok [_] (by simp [Event.Silent]) rfl (by simp)
      | close response tag cod =>
          simp only [Step.exec, close, wp_bind, wp_get, wp_ite, wp_pure, wp_startBatch, wp_modify,
            wp_emit, env_eq, setEnv_eq, hs, Bool.not_true, Bool.false_eq_true, if_false]
          split
          case isTrue => exact hok [_] (by simp [Event.Silent]) rfl (by simp)
          case isFalse hstart =>
            have hstart : s.starts.headD true = true := by simpa using hstart
            split
            · refine CodRecvMsg.wp_getResultMsg (fun r => ?_) ?_
              · exact hok [_] (by simp [Event.Silent]) rfl fun _ => hstart
              · exact hok [] (by simp) (List.append_nil _).symm fun _ => hstart
            · exact hok [_] (by simp [Event.Silent]) rfl fun _ => hstart

/-- A call in time keeps the invariant. -/
theorem step_inv {s : SyncWriter} (h : Inv s) (l : Step) (hl : Late s l = false) :
    wp l.exec (fun _ => Inv) (fun _ => Inv) s := by
  have hdoes : ∀ {s'}, Does s l s' → Inv s' := by
    rintro s' (⟨hs, hst, hsub⟩ | ⟨hs, started, hsub, hst⟩)
    · refine ⟨hsub.admitted_none.mpr h.admitted, fun op ho hop => ?_, fun hs' => ?_⟩
      · rw [hsub.closed_eq]
        rw [hsub.startedOp_eq] at hop
        simpa using h.started_closed op ho (by simpa using hop)
      · rw [hst, hs] at hs'
        exact absurd hs' (by simp)
    · have hopen : closed s.trace = false := by simpa [Late, hs] using hl
      have hnone : ∀ op, op.once = true → startedOp op s.trace = false := fun op ho =>
        Bool.eq_false_iff.mpr fun hop => absurd (hopen.symm.trans (h.started_closed op ho hop))
          (by simp)
      refine ⟨hsub.admitted_some.mpr ⟨h.admitted, fun op _ => hnone op, fun _ => hopen⟩, ?_, ?_⟩
      · intro op ho hop
        rw [hsub.startedOp_eq, hnone op ho] at hop
        rw [hsub.closed_eq, hopen]
        cases l with
        | write request => cases op <;> simp_all [Op.once, Step.batch]
        | close response tag cod => rfl
      · intro hs' hc
        rw [hsub.closed_eq, hopen] at hc
        rw [hsub.startedOp_eq, hst hs']
        cases l with
        | write request => simp [Batch.closes, Step.batch] at hc
        | close response tag cod => simp [Step.batch]
  exact wp_mono (step_does s l) (fun _ _ => hdoes) fun _ _ => hdoes

/-- A call only adds to the trace. -/
theorem Does.isPrefix {s s' : SyncWriter} {l : Step} (h : Does s l s') : s.trace <+: s'.trace := by
  rcases h with ⟨-, -, hsub⟩ | ⟨-, started, hsub, -⟩
  · exact hsub.isPrefix
  · exact hsub.isPrefix

/-- A late call submits what is not permitted any more. -/
theorem step_late {s : SyncWriter} (h : Inv s) (l : Step) (hl : Late s l = true) :
    wp l.exec (fun _ s' => ¬ Admitted s'.trace) (fun _ s' => ¬ Admitted s'.trace) s := by
  obtain ⟨hs, hc⟩ : s.status.ok = true ∧ closed s.trace = true := by simpa [Late] using hl
  have hbad : ∀ {s'}, Does s l s' → ¬ Admitted s'.trace := by
    rintro s' (⟨hs', -⟩ | ⟨-, started, hsub, -⟩) hadm
    · exact absurd (hs'.symm.trans hs) (by simp)
    · obtain ⟨honce, hmsg⟩ := (hsub.admitted_some.mp hadm).2
      cases l with
      | write request =>
          have := hmsg (by simp [Step.batch, Batch.msg?])
          exact absurd (this.symm.trans hc) (by simp)
      | close response tag cod =>
          have := honce .clientSendClose (by simp [Step.batch]) rfl
          exact absurd (this.symm.trans (h.closed_started hs hc)) (by simp)
  exact wp_mono (step_does s l) (fun _ _ => hbad) fun _ _ => hbad

/-- The batches of a run are admissible exactly when no call comes too late. -/
theorem run_admitted (starts : List Bool) (final : Status) (ls : List Step) :
    Admitted (after (new starts final) ls).state.trace ↔
      Process.Along Step.exec (fun s l => Late s l = false) (.running (new starts final)) ls :=
  Process.along_iff_last (I := Inv) (A := fun _ _ => True) (Q := fun s => Admitted s.trace)
    (fun _ h => h.admitted) (fun _ l h _ hl => step_inv h l hl)
    (fun _ l h _ hl => step_late h l (by simpa using hl))
    (fun s l h => wp_mono (step_does s l) (fun _ _ hd h' => h (h'.of_prefix hd.isPrefix))
      fun _ _ hd h' => h (h'.of_prefix hd.isPrefix))
    (Inv.new starts final) (.of_forall fun _ _ => trivial)

end SyncWriter

/-! ### ClientSyncReader -/

namespace SyncReader

/-- The batch of a call that finds the status OK. -/
def Step.batch? : Step → Option Batch
  | readOne _ => some [.recvMsg]
  | recvStatus => some [.clientRecvStatus]
  | setErrorStatus _ => none

/-- The call receives the status although that was started before, and the status of the object is
still OK. -/
def Again (s : SyncReader) : Step → Bool
  | .recvStatus => s.status.ok && startedOp .clientRecvStatus s.trace
  | _ => false

/-- What the constructor submits is permitted. -/
theorem Admitted.new (request : Bytes) (starts : List Bool) (final : Status) :
    Admitted (new request starts final).trace := by
  refine endState_of_wp (P := fun s : SyncReader => Admitted s.trace) ?_
  have h : ∀ started, Admitted [(.batch [.sendMsg request, .sendInitMd, .recvInitMd,
      .clientSendClose] started : Event Ret)] :=
    fun started => (whenever_singleton _).mpr ⟨fun op _ _ => rfl, fun _ => rfl⟩
  simp only [construct, wp_bind, wp_startBatch, wp_ite, wp_pure, wp_modify, env_eq, setEnv_eq]
  split <;> exact h _

/-- What a call does: in error, nothing; else it submits its batch. -/
def Does (s : SyncReader) (l : Step) (s' : SyncReader) : Prop :=
  ∃ started, Submits (if s.status.ok then l.batch? else none) started s.trace s'.trace

/-- What each call submits. -/
theorem step_does (s : SyncReader) (l : Step) :
    wp l.exec (fun _ s' => Does s l s') (fun _ s' => Does s l s') s := by
  -- An object in error submits nothing, but may answer.
  cases hs : s.status.ok with
  | false =>
      have hnone : ∀ {s' : SyncReader} rest, (∀ e ∈ rest, e.Silent) →
          s'.trace = s.trace ++ rest → Does s l s' := by
        intro s' rest hrest htr
        refine ⟨false, rest, hrest, ?_⟩
        simpa [hs] using htr
      cases l with
      | setErrorStatus e =>
          simp only [Step.exec, setErrorStatus, wp_bind, wp_check, wp_modify]
          split <;> exact hnone [] (by simp) (List.append_nil _).symm
      | _ =>
          simp only [Step.exec, readOne, recvStatus, wp_bind, wp_get, wp_ite, wp_pure, wp_emit,
            env_eq, setEnv_eq, hs, Bool.not_false, if_true]
          exact hnone [_] (by simp [Event.Silent]) rfl
  | true =>
      -- Otherwise a call submits its one batch, and then answers.
      have hsome : ∀ {s' : SyncReader} {b : Batch} started rest, (∀ e ∈ rest, e.Silent) →
          l.batch? = some b → s'.trace = s.trace ++ [.batch b started] ++ rest → Does s l s' := by
        intro s' b started rest hrest hb htr
        refine ⟨started, rest, hrest, ?_⟩
        simpa [hs, hb] using htr
      cases l with
      | setErrorStatus e =>
          simp only [Step.exec, setErrorStatus, wp_bind, wp_check, wp_modify]
          have hnone : ∀ {s' : SyncReader}, s'.trace = s.trace → Does s (.setErrorStatus e) s' := by
            intro s' htr
            exact ⟨false, [], by simp, by simp [hs, Step.batch?, htr]⟩
          split <;> exact hnone rfl
      | recvStatus =>
          simp only [Step.exec, recvStatus, wp_bind, wp_get, wp_ite, wp_pure, wp_startBatch,
            wp_emit, env_eq, setEnv_eq, hs, Bool.not_true, Bool.false_eq_true, if_false]
          split <;> exact hsome _ [_] (by simp [Event.Silent]) rfl rfl
      | readOne tag =>
          simp only [Step.exec, readOne, wp_bind, wp_get, wp_ite, wp_pure, wp_startBatch,
            wp_modify, wp_emit, env_eq, setEnv_eq, hs, Bool.not_true, Bool.false_eq_true, if_false]
          split
          · exact hsome _ [_] (by simp [Event.Silent]) rfl rfl
          split
          · exact hsome _ [_] (by simp [Event.Silent]) rfl rfl
          · refine CodRecvMsg.wp_getResultMsg (fun r => ?_) ?_
            · exact hsome _ [_] (by simp [Event.Silent]) rfl rfl
            · exact hsome _ [] (by simp) rfl (List.append_nil _).symm

/-- The batches of a run are admissible exactly when no call receives the status again. -/
theorem run_admitted (request : Bytes) (starts : List Bool) (final : Status) (ls : List Step) :
    Admitted (after (new request starts final) ls).state.trace ↔
      Process.Along Step.exec (fun s l => Again s l = false)
        (.running (new request starts final)) ls := by
  refine Process.along_iff_last (I := fun s : SyncReader => Admitted s.trace)
    (A := fun _ _ => True) (Q := fun s => Admitted s.trace) (fun _ h => h) ?_ ?_ ?_
    (Admitted.new request starts final) (.of_forall fun _ _ => trivial)
  · -- Of the batches of a reader only the status may be asked for once.
    intro s l h _ hl
    have hgood : ∀ {s'}, Does s l s' → Admitted s'.trace := by
      rintro s' ⟨started, hsub⟩
      cases hb : (if s.status.ok then l.batch? else none) with
      | none => exact (hb ▸ hsub).admitted_none.mpr h
      | some b =>
          refine (hb ▸ hsub).admitted_some.mpr ⟨h, ?_⟩
          split at hb
          case isTrue hs =>
            cases l with
            | readOne tag =>
                cases hb
                exact .free (by simp [Op.once]) rfl
            | recvStatus =>
                cases hb
                refine ⟨fun op hop _ => ?_, fun hm => absurd rfl hm⟩
                rw [List.mem_singleton.mp hop]
                simpa [Again, hs] using hl
            | setErrorStatus e => cases hb
          case isFalse => cases hb
    exact wp_mono (step_does s l) (fun _ _ => hgood) fun _ _ => hgood
  · -- The second request for the status breaks the rule, whatever gRPC makes of it.
    intro s l _ _ hl
    have hbad : ∀ {s'}, Does s l s' → ¬ Admitted s'.trace := by
      rintro s' ⟨started, hsub⟩ hadm
      cases l with
      | recvStatus =>
          obtain ⟨hs, hagain⟩ : s.status.ok = true ∧
              startedOp .clientRecvStatus s.trace = true := by
            simpa [Again] using hl
          rw [if_pos hs] at hsub
          have := (hsub.admitted_some.mp hadm).2.1 .clientRecvStatus (by simp) rfl
          exact absurd (this.symm.trans hagain) (by simp)
      | _ => exact hl rfl
    exact wp_mono (step_does s l) (fun _ _ => hbad) fun _ _ => hbad
  · -- What was submitted stays submitted.
    intro s l h
    exact wp_mono (step_does s l) (fun _ _ ⟨_, hsub⟩ h' => h (h'.of_prefix hsub.isPrefix))
      fun _ _ ⟨_, hsub⟩ h' => h (h'.of_prefix hsub.isPrefix)

end SyncReader

/-! ### ClientSyncReaderWriter -/

namespace SyncReaderWriter

/-- The call sends a message after the half-close, or receives the status again, although the
status of the object is still OK. -/
def Misplaced (s : SyncReaderWriter) : Step → Bool
  | .write _ => s.status.ok && s.writingClosed
  | .recvStatus => s.status.ok && startedOp .clientRecvStatus s.trace
  | _ => false

/-- The flags know of the half-close and of the initial metadata. -/
structure Inv (s : SyncReaderWriter) : Prop where
  admitted : Admitted s.trace
  closed_flag : closed s.trace = true → s.writingClosed = true
  flag_closed : s.status.ok = true → s.writingClosed = true → closed s.trace = true
  started_flag : startedOp .recvInitMd s.trace = true → s.initMdReceived = true

/-- What a call may submit. -/
theorem Inv.submits {s s' : SyncReaderWriter} (h : Inv s) (b? : Option Batch) (started : Bool)
    (hsub : Submits b? started s.trace s'.trace)
    (hadm : ∀ b ∈ b?, Admits s.trace (.batch b started))
    (hok : s'.status.ok = true → s.status.ok = true)
    (hw : s.writingClosed = true ∨ b?.any Batch.closes = true → s'.writingClosed = true)
    (hw' : s'.status.ok = true → s'.writingClosed = true →
      s.writingClosed = true ∨ b?.any Batch.closes = true)
    (hi : s.initMdReceived = true ∨ b?.any (·.contains .recvInitMd) = true →
      s'.initMdReceived = true) : Inv s' where
  admitted := by
    cases b? with
    | none => exact hsub.admitted_none.mpr h.admitted
    | some b => exact hsub.admitted_some.mpr ⟨h.admitted, hadm b rfl⟩
  closed_flag := by
    rw [hsub.closed_eq, Bool.or_eq_true]
    exact fun hc => hw (hc.imp_left h.closed_flag)
  flag_closed := by
    intro hs' hw₁
    rw [hsub.closed_eq, Bool.or_eq_true]
    exact (hw' hs' hw₁).imp_left (h.flag_closed (hok hs'))
  started_flag := by
    rw [hsub.startedOp_eq, Bool.or_eq_true, Bool.and_eq_true]
    exact fun hc => hi (hc.imp h.started_flag And.right)

/-- A new object has submitted nothing. -/
theorem Inv.new (starts : List Bool) (final : Status) : Inv (new starts final) := by
  have h : ∀ (s : SyncReaderWriter) started, s.trace = [.batch [.sendInitMd] started] →
      s.writingClosed = false → s.initMdReceived = false → Inv s := by
    intro s started hs hw hi
    refine ⟨?_, ?_, ?_, ?_⟩
    · rw [hs]
      exact (whenever_singleton _).mpr (.free (by simp [Op.once]) rfl)
    · simp [hs, closed, Batch.closes]
    · simp [hw]
    · simp [hs, startedOp]
  refine endState_of_wp ?_
  simp only [construct, wp_bind, wp_startBatch, wp_ite, wp_pure, wp_modify, env_eq, setEnv_eq]
  split <;> exact h _ _ rfl rfl rfl

/-- The half-close is submitted where `writing_closed_` is not set. -/
theorem Inv.unclosed {s : SyncReaderWriter} (h : Inv s) (hw : s.writingClosed = false) :
    closed s.trace = false :=
  Bool.eq_false_iff.mpr fun hc => absurd (hw.symm.trans (h.closed_flag hc)) (by simp)

/-- A call that leaves the flags alone. -/
theorem Inv.plain {s s' : SyncReaderWriter} (h : Inv s) (b? : Option Batch) (started : Bool)
    (hsub : Submits b? started s.trace s'.trace)
    (hadm : ∀ b ∈ b?, Admits s.trace (.batch b started)) (hclose : b?.any Batch.closes = false)
    (hinit : b?.any (·.contains .recvInitMd) = false)
    (hok : s'.status.ok = true → s.status.ok = true) (hw : s'.writingClosed = s.writingClosed)
    (hi : s'.initMdReceived = s.initMdReceived) : Inv s' := by
  refine h.submits b? started hsub hadm hok ?_ ?_ ?_
  · rw [hclose, hw]
    simp
  · rw [hclose, hw]
    exact fun _ => .inl
  · rw [hinit, hi]
    simp

/-- `CloseWriting` half-closes once. -/
theorem closeWriting_inv {s : SyncReaderWriter} (h : Inv s) :
    wp closeWriting (fun _ => Inv) (fun _ => Inv) s := by
  simp only [closeWriting, wp_bind, wp_get, wp_ite, wp_pure, wp_startBatch, wp_modify, env_eq,
    setEnv_eq]
  split
  case isTrue => exact h
  case isFalse hw =>
  split
  case isTrue hs =>
    -- In error the flag is set and nothing is submitted.
    have hne : ¬ s.status.ok = true := by simpa using hs
    exact h.submits none false ⟨[], by simp, by simp⟩ (by simp) id
      (fun _ => rfl) (fun hs' => absurd hs' hne) (by simp)
  case isFalse hs =>
    have hs' : s.status.ok = true := by simpa using hs
    have hopen := h.unclosed (by simpa using hw)
    have hadm : Admits s.trace (.batch [.clientSendClose] (s.starts.headD true)) := by
      refine ⟨fun op hop _ => ?_, fun hm => absurd rfl hm⟩
      rw [List.mem_singleton.mp hop]
      refine Bool.eq_false_iff.mpr fun hst => ?_
      exact absurd (hopen.symm.trans (closed_of_startedOp hst)) (by simp)
    have hsub : ∀ {s'}, s'.trace = s.trace ++ [.batch [.clientSendClose] (s.starts.headD true)] →
        (s'.status.ok = true → s.status.ok = true) → s'.writingClosed = true →
        s'.initMdReceived = s.initMdReceived → Inv s' := by
      intro s' htr hok hw' hi
      refine h.submits (some [.clientSendClose]) _ ⟨[], by simp, by rw [htr, List.append_nil]⟩
        ?_ hok (fun _ => hw') (fun _ _ => .inr rfl) ?_
      · rintro b ⟨⟩
        exact hadm
      · rw [hi]
        simp
    split
    · exact hsub rfl id rfl rfl
    · exact hsub rfl (fun _ => hs') rfl rfl

/-- The first read of the initial metadata. -/
theorem recvInitMdIfNot_inv {s : SyncReaderWriter} (h : Inv s) :
    wp recvInitMdIfNot (fun _ => Inv) (fun _ => Inv) s := by
  simp only [recvInitMdIfNot, wp_bind, wp_get, wp_ite, wp_pure, wp_startBatch, wp_modify, wp_check,
    env_eq, setEnv_eq]
  split
  case isTrue => exact h
  case isFalse hi =>
  have hsub : ∀ {s'} (b? : Option Batch),
      Submits b? (s.starts.headD true) s.trace s'.trace → (∀ b ∈ b?, b = [.recvInitMd]) →
      (s'.status.ok = true → s.status.ok = true) → s'.writingClosed = s.writingClosed →
      s'.initMdReceived = true → Inv s' := by
    intro s' b? hsub hb hok hw hi'
    have hclose : b?.any Batch.closes = false := by
      cases b? with
      | none => rfl
      | some b => rw [hb b rfl]; rfl
    refine h.submits _ _ hsub ?_ hok ?_ ?_ fun _ => hi'
    · intro b hb'
      rw [hb b hb']
      refine ⟨fun op hop _ => ?_, fun hm => absurd rfl hm⟩
      rw [List.mem_singleton.mp hop]
      exact Bool.eq_false_iff.mpr fun hst => hi (h.started_flag hst)
    · rw [hclose, hw]
      simp
    · rw [hclose, hw]
      exact fun _ => .inl
  split
  case isFalse => exact hsub none ⟨[], by simp, by simp⟩ (by simp) id rfl rfl
  case isTrue hs =>
    split
    · exact hsub (some [.recvInitMd]) ⟨[], by simp, by simp⟩ (by simp) id rfl rfl
    · exact hsub (some [.recvInitMd]) ⟨[], by simp, by simp⟩ (by simp) (fun _ => hs) rfl rfl

/-- A report does not change anything. -/
theorem Inv.report {s : SyncReaderWriter} (h : Inv s) {e : Event Ret} (he : e.Silent) :
    Inv { s with trace := s.trace ++ [e] } :=
  h.plain none false ⟨[e], by simpa using he, rfl⟩ (by simp) rfl rfl id rfl rfl

/-- `ReadOne` waits for its read, so there is one at a time. -/
theorem syncReadOne_inv {s : SyncReaderWriter} (h : Inv s) (tag : CodRecvMsg) :
    wp (syncReadOne tag) (fun _ => Inv) (fun _ => Inv) s := by
  have hsub : ∀ {s' : SyncReaderWriter},
      s'.trace = s.trace ++ [.batch [.recvMsg] (s.starts.headD true)] →
      (s'.status.ok = true → s.status.ok = true) → s'.writingClosed = s.writingClosed →
      s'.initMdReceived = s.initMdReceived → Inv s' := by
    intro s' htr hok hw hi
    refine h.plain (some [.recvMsg]) _ ⟨[], by simp, by rw [htr, List.append_nil]⟩ ?_ rfl rfl
      hok hw hi
    rintro b ⟨⟩
    exact .free (by simp [Op.once]) rfl
  simp only [syncReadOne, wp_bind, wp_get, wp_ite, wp_pure, wp_startBatch, wp_modify, env_eq,
    setEnv_eq]
  split
  case isTrue => exact h
  case isFalse hs =>
  have hs' : s.status.ok = true := by simpa using hs
  split
  · exact hsub rfl (fun _ => hs') rfl rfl
  split
  · exact hsub rfl id rfl rfl
  · refine CodRecvMsg.wp_getResultMsg (fun r => ?_) ?_
    · exact hsub rfl (fun _ => hs') rfl rfl
    · exact hsub rfl id rfl rfl

/-- A call in its place keeps the invariant. -/
theorem step_inv {s : SyncReaderWriter} (h : Inv s) (l : Step) (hl : Misplaced s l = false) :
    wp l.exec (fun _ => Inv) (fun _ => Inv) s := by
  cases l with
  | write request =>
      simp only [Step.exec, write, wp_bind, wp_get, wp_ite, wp_pure, wp_startBatch, wp_modify,
        wp_emit, env_eq, setEnv_eq]
      split
      case isTrue => exact h.report trivial
      case isFalse hs =>
      have hs' : s.status.ok = true := by simpa using hs
      -- `Misplaced` excludes a write after the half-close, which nothing else does.
      have hopen := h.unclosed (by simpa [Misplaced, hs'] using hl)
      have hadm : Admits s.trace (.batch [.sendMsg request] (s.starts.headD true)) :=
        ⟨by simp [Op.once], fun _ => hopen⟩
      split
      all_goals
        refine h.plain (some [.sendMsg request]) _ ⟨[_], ?_, rfl⟩ ?_ rfl rfl (fun _ => hs') rfl rfl
        · simp [Event.Silent]
        · rintro b ⟨⟩
          exact hadm
  | closeWriting => exact closeWriting_inv h
  | readOne tag =>
      simp only [Step.exec, readOne, wp_bind, wp_get, wp_ite, wp_pure, wp_emit, env_eq, setEnv_eq]
      split
      · exact h.report trivial
      refine wp_mono (recvInitMdIfNot_inv h) ?_ fun _ _ h' => h'
      intro _ s₁ h₁
      split
      · exact h₁.report trivial
      · exact wp_mono (syncReadOne_inv h₁ tag) (fun _ _ h' => h'.report trivial) fun _ _ h' => h'
  | recvStatus =>
      simp only [Step.exec, recvStatus, syncRecvStatus, wp_bind, wp_get, wp_ite, wp_pure,
        wp_startBatch, wp_emit, env_eq, setEnv_eq]
      split
      case isTrue => exact h.report trivial
      case isFalse hs =>
      have hnot : startedOp .clientRecvStatus s.trace = false := by
        have hs' : s.status.ok = true := by simpa using hs
        simpa [Misplaced, hs'] using hl
      have hadm : Admits s.trace (.batch [.clientRecvStatus] (s.starts.headD true)) := by
        refine ⟨fun op hop _ => ?_, fun hm => absurd rfl hm⟩
        rw [List.mem_singleton.mp hop]
        exact hnot
      split
      all_goals
        refine h.plain (some [.clientRecvStatus]) _ ⟨[_], ?_, rfl⟩ ?_ rfl rfl id rfl rfl
        · simp [Event.Silent]
        · rintro b ⟨⟩
          exact hadm
  | setErrorStatus e =>
      simp only [Step.exec, setErrorStatus, wp_bind, wp_check, wp_modify]
      split
      case isTrue he =>
        have hne : ¬ e.ok = true := by simpa using he
        exact { h with flag_closed := fun hs' => absurd hs' hne }
      case isFalse => exact h
  | destroy => exact closeWriting_inv h

/-- A call only adds to the trace. -/
theorem step_extends (s : SyncReaderWriter) (l : Step) :
    wp l.exec (fun _ s' => s.trace <+: s'.trace) (fun _ s' => s.trace <+: s'.trace) s := by
  -- A read extends any trace that already extends this one.
  have hread : ∀ (s₁ : SyncReaderWriter) tag, s.trace <+: s₁.trace →
      wp (syncReadOne tag) (fun _ s' => s.trace <+: s'.trace) (fun _ s' => s.trace <+: s'.trace)
        s₁ := by
    intro s₁ tag hp
    have hp' : ∀ rest, s.trace <+: s₁.trace ++ rest :=
      fun rest => hp.trans (List.prefix_append _ rest)
    simp only [syncReadOne, wp_bind, wp_get, wp_ite, wp_pure, wp_startBatch, wp_modify, env_eq,
      setEnv_eq, hp, hp']
    split
    · trivial
    split
    · trivial
    split
    · trivial
    · exact CodRecvMsg.wp_getResultMsg (fun r => hp' _) (hp' _)
  have hreport : ∀ {s₁ : SyncReaderWriter} {e}, s.trace <+: s₁.trace →
      s.trace <+: s₁.trace ++ [e] :=
    fun hp => hp.trans (List.prefix_append _ _)
  cases l with
  | readOne tag =>
      have hinit : wp recvInitMdIfNot (fun _ s' => s.trace <+: s'.trace)
          (fun _ s' => s.trace <+: s'.trace) s := by
        simp only [recvInitMdIfNot, wp_bind, wp_get, wp_ite, wp_pure, wp_startBatch, wp_modify,
          wp_check, env_eq, setEnv_eq, List.prefix_append, List.prefix_rfl, ite_self]
      simp only [Step.exec, readOne, wp_bind, wp_get, wp_ite, wp_pure, wp_emit, env_eq, setEnv_eq]
      split
      · exact hreport List.prefix_rfl
      refine wp_mono hinit ?_ fun _ _ hp => hp
      intro _ s₁ hp
      split
      · exact hreport hp
      · exact wp_mono (hread s₁ tag hp) (fun _ _ hp' => hreport hp') fun _ _ hp' => hp'
  | _ =>
      simp only [Step.exec, write, closeWriting, recvStatus, syncRecvStatus, setErrorStatus,
        wp_bind, wp_get, wp_ite, wp_pure, wp_startBatch, wp_modify, wp_emit, wp_check, env_eq,
        setEnv_eq, List.append_assoc, List.prefix_append, List.prefix_rfl, ite_self]

/-- A misplaced call submits what is not permitted. -/
theorem step_misplaced (s : SyncReaderWriter) (h : Inv s) (l : Step) (hl : Misplaced s l = true) :
    wp l.exec (fun _ s' => ¬ Admitted s'.trace) (fun _ s' => ¬ Admitted s'.trace) s := by
  have hbad : ∀ {b : Batch} {started : Bool} {rest : List (Event Ret)},
      ¬ Admits s.trace (.batch b started) → ¬ Admitted (s.trace ++ [.batch b started] ++ rest) :=
    fun hb hadm => hb ((whenever_concat _).mp (hadm.of_prefix ⟨_, rfl⟩)).2
  cases l with
  | write request =>
      obtain ⟨hs, hw⟩ : s.status.ok = true ∧ s.writingClosed = true := by
        simpa [Misplaced] using hl
      have hb : ∀ started, ¬ Admits s.trace (.batch [.sendMsg request] started : Event Ret) := by
        intro started ha
        exact absurd ((ha.2 (by simp [Batch.msg?])).symm.trans (h.flag_closed hs hw)) (by simp)
      simp only [Step.exec, write, wp_bind, wp_get, wp_ite, wp_pure, wp_startBatch, wp_modify,
        wp_emit, env_eq, setEnv_eq, hs, Bool.not_true, Bool.false_eq_true, if_false]
      split <;> exact hbad (hb _)
  | recvStatus =>
      obtain ⟨hs, hagain⟩ : s.status.ok = true ∧ startedOp .clientRecvStatus s.trace = true := by
        simpa [Misplaced] using hl
      have hb : ∀ started, ¬ Admits s.trace (.batch [.clientRecvStatus] started : Event Ret) := by
        intro started ha
        have := ha.1 .clientRecvStatus (by simp) rfl
        exact absurd (this.symm.trans hagain) (by simp)
      simp only [Step.exec, recvStatus, syncRecvStatus, wp_bind, wp_get, wp_ite, wp_pure,
        wp_startBatch, wp_emit, env_eq, setEnv_eq, hs, Bool.not_true, Bool.false_eq_true, if_false]
      split <;> exact hbad (hb _)
  | _ => simp [Misplaced] at hl

/-- The batches of a run are admissible exactly when no call is misplaced. -/
theorem run_admitted (starts : List Bool) (final : Status) (ls : List Step) :
    Admitted (after (new starts final) ls).state.trace ↔
      Process.Along Step.exec (fun s l => Misplaced s l = false) (.running (new starts final)) ls :=
  Process.along_iff_last (I := Inv) (A := fun _ _ => True) (Q := fun s => Admitted s.trace)
    (fun _ h => h.admitted) (fun _ l h _ hl => step_inv h l hl)
    (fun s l h _ hl => step_misplaced s h l (by simpa using hl))
    (fun s l h => wp_mono (step_extends s l) (fun _ _ hp h' => h (h'.of_prefix hp))
      fun _ _ hp h' => h (h'.of_prefix hp))
    (Inv.new starts final) (.of_forall fun _ _ => trivial)

end SyncReaderWriter

/-! ### The three objects -/

/-- **The rules of a call.**  Whatever is called, in whatever order, and whichever batches gRPC
refuses: the batches of a synchronous object are admissible exactly when, while its status is OK,
nothing is called on a writer after `Close`, no message is written after `CloseWriting`, and the
status is not received again. -/
theorem admitted_iff (starts : List Bool) (final : Status) :
    (∀ ls : List SyncWriter.Step,
      Admitted (SyncWriter.after (.new starts final) ls).state.trace ↔
        Process.Along SyncWriter.Step.exec (fun s l => s.Late l = false)
          (.running (.new starts final)) ls) ∧
    (∀ request (ls : List SyncReader.Step),
      Admitted (SyncReader.after (.new request starts final) ls).state.trace ↔
        Process.Along SyncReader.Step.exec (fun s l => s.Again l = false)
          (.running (.new request starts final)) ls) ∧
    (∀ ls : List SyncReaderWriter.Step,
      Admitted (SyncReaderWriter.after (.new starts final) ls).state.trace ↔
        Process.Along SyncReaderWriter.Step.exec (fun s l => s.Misplaced l = false)
          (.running (.new starts final)) ls) :=
  ⟨SyncWriter.run_admitted starts final,
    fun request => SyncReader.run_admitted request starts final,
    SyncReaderWriter.run_admitted starts final⟩

/-- A `Close` that returns OK. -/
def SyncWriter.Step.closeOK : SyncWriter.Step := .close [] ⟨some ⟨some []⟩⟩ {}

/-- A writer that is closed twice, a reader that receives the status twice, and a reader-writer
that writes after the half-close. -/
theorem not_admitted :
    ¬ Admitted (SyncWriter.after (.new [] .OK) [.closeOK, .closeOK]).state.trace ∧
    ¬ Admitted (SyncReader.after (.new [] [] .OK) [.recvStatus, .recvStatus]).state.trace ∧
    ¬ Admitted (SyncReaderWriter.after (.new [] .OK) [.closeWriting, .write []]).state.trace :=
  ⟨fun h => absurd ((SyncWriter.run_admitted _ _ _).mp h) (by decide),
    fun h => absurd ((SyncReader.run_admitted _ _ _ _).mp h) (by decide),
    fun h => absurd ((SyncReaderWriter.run_admitted _ _ _).mp h) (by decide)⟩

end GrpcLua
