import GrpcLua.Client.ReaderWriter.Messages
import GrpcLua.Core.Appends

/-!
# Client — ReaderWriter — Telling

What a `ClientAsyncReaderWriterImpl` tells.  The calls of the user, and whatever the callbacks call,
tell errors only (`call_steady`).  An OK status is told by the completion that finds, or makes, both
directions ended (`step_tells`).
-/

namespace GrpcLua.ReaderWriter
open Prog Trace

variable {given : Bool} {s s' : ReaderWriter}

instance : LawfulEnv ReaderWriter := ⟨fun _ _ => rfl⟩

/-- The OK statuses handed to `status_cb_`. -/
def oks (tr : List (Event Cb)) : List Status := (statuses tr).filter Status.ok

@[simp] theorem oks_append (tr tr' : List (Event Cb)) : oks (tr ++ tr') = oks tr ++ oks tr' := by
  simp only [oks, statuses_append, List.filter_append]

/-- What a call does at most: it tells no OK status and ends no reading, and the message callback of
a reading that was started stays. -/
structure Steady (s s' : ReaderWriter) : Prop where
  trace : s.trace <+: s'.trace
  kept : s.readingStarted = true → s'.readingStarted = true ∧ s'.msgCb = s.msgCb
  oks : oks s'.trace = oks s.trace
  ok : s'.status.ok = true → s.status.ok = true ∧ s'.readingEnded = s.readingEnded

instance : IsPreorder ReaderWriter Steady where
  refl _ := ⟨List.prefix_rfl, fun h => ⟨h, rfl⟩, rfl, fun h => ⟨h, rfl⟩⟩
  trans _ _ _ h h' :=
    { trace := h.trace.trans h'.trace
      kept := fun hs => ⟨(h'.kept (h.kept hs).1).1,
        (h'.kept (h.kept hs).1).2.trans (h.kept hs).2⟩
      oks := h'.oks.trans h.oks
      ok := fun hs => ⟨(h.ok (h'.ok hs).1).1, (h'.ok hs).2.trans (h.ok (h'.ok hs).1).2⟩ }

theorem Steady.refl (s : ReaderWriter) : Steady s s := refl_of Steady s

/-- An event that is no OK status. -/
theorem Steady.event {e : Event Cb} (he : ReaderWriter.oks [e] = []) (starts : List Bool) :
    Steady s { s with starts := starts, trace := s.trace ++ [e] } where
  trace := List.prefix_append _ _
  kept := fun h => ⟨h, rfl⟩
  oks := by rw [oks_append, he, List.append_nil]
  ok := fun h => ⟨h, rfl⟩

/-- A batch tells nothing. -/
theorem startBatch_steady (b : Batch) : Follows Steady (startBatch b : M Bool) :=
  fun _ => .event rfl _

/-- An event other than an OK status that is told. -/
theorem emit_steady {e : Event Cb} (he : oks [e] = []) : Follows Steady (emit e : M Unit) :=
  fun s => .event he s.starts

/-- A member that `Steady` does not look at. -/
theorem modify_steady {g : ReaderWriter → ReaderWriter}
    (h : ∀ s, (g s).trace = s.trace ∧ (g s).msgCb = s.msgCb ∧ (g s).status = s.status ∧
      (g s).readingEnded = s.readingEnded ∧
      (s.readingStarted = true → (g s).readingStarted = true)) :
    Follows Steady (modify g : M PUnit) := by
  intro s
  obtain ⟨htr, hmsg, hst, hend, hstart⟩ := h s
  rw [wp_modify]
  exact ⟨⟨[], by rw [htr, List.append_nil]⟩, fun hs => ⟨hstart hs, hmsg⟩, by rw [htr],
    fun hs => ⟨hst ▸ hs, hend⟩⟩

section functions
variable {k : Status → M Status} (hk : ∀ st, Follows Steady (k st))
include hk

/-- What `CallStatusCb()` adds to the trace is the status. -/
theorem wp_callStatusCb_steady {P : ReaderWriter → Prop} (h : P s)
    (htold : ∀ s', Steady { s with trace := s.trace ++ [.called (.statusCb s.status)] } s' → P s') :
    wp (callStatusCb k) (fun _ => P) (fun _ => P) s := by
  simp only [callStatusCb, wp_bind, wp_get, wp_ite, wp_pure, wp_emit, env_eq, setEnv_eq, wp_modify]
  split
  case isFalse => exact h
  case isTrue =>
    refine (hk s.status).wp (.refl _) (fun _ s₁ h₁ => htold _ ?_) fun _ s₁ h₁ => htold s₁ h₁
    exact { h₁ with }

/-- An error is told, which is no OK. -/
theorem endOnErrorStatus_steady (e : Status) : Follows Steady (endOnErrorStatus k e) := by
  intro s
  simp only [endOnErrorStatus, wp_bind, wp_check, wp_modify]
  by_cases he : e.ok = true
  · rw [if_neg (by simp [he])]
    exact .refl s
  rw [Bool.not_eq_true] at he
  rw [if_pos (by simp [he])]
  split
  case isFalse => exact .refl s
  case isTrue =>
    have herror : Steady s { s with status := e } :=
      ⟨List.prefix_rfl, fun h => ⟨h, rfl⟩, rfl, fun h => absurd (he.symm.trans h) (by simp)⟩
    have htell : Steady s { s with
        status := e, trace := s.trace ++ [.called (.statusCb e)] } :=
      trans_of Steady herror (Steady.event (s := { s with status := e })
        (by simp [oks, statuses, he]) s.starts)
    refine wp_mono (wp_callStatusCb_steady hk (s := { s with status := e })
      (P := fun s' => Steady s s' ∧ s'.status.ok = false) ⟨herror, he⟩ fun s' h' => ⟨?_, ?_⟩) ?_ ?_
    · exact trans_of Steady htell h'
    · by_contra hok
      exact absurd ((h'.ok (by simpa using hok)).1.symm.trans he) (by simp)
    · rintro _ s' ⟨h', hf⟩
      exact { h' with ok := fun hok => absurd (hf.symm.trans hok) (by simp) }
    · exact fun _ _ h' => h'.1

theorem setInternalError_steady (sError : Bytes) : Follows Steady (setInternalError k sError) :=
  .bind .check fun _ => endOnErrorStatus_steady hk _

/-- The metadata tell nothing but their refusal. -/
theorem initIfNot_steady : Follows Steady (initIfNot k) :=
  .bind .get fun _ => .ite .pure <|
    .bind (modify_steady fun _ => ⟨rfl, rfl, rfl, rfl, id⟩) fun _ => .ite .pure <|
    .bind (startBatch_steady _) fun _ => .ite (setInternalError_steady hk _) <|
    .bind (startBatch_steady _) fun _ => .ite (setInternalError_steady hk _) .pure

theorem sendNext_steady : Follows Steady (sendNext k) :=
  .bind .check fun _ => .bind .check fun _ => .bind .get fun _ =>
    .bind (startBatch_steady _) fun _ => .ite
      (.bind (modify_steady fun _ => ⟨rfl, rfl, rfl, rfl, id⟩) fun _ => .pure)
      (.bind (setInternalError_steady hk _) fun _ => .pure)

/-- The next read tells nothing but its refusal. -/
theorem readNext_steady : Follows Steady (readNext k) :=
  .bind .check fun _ => .bind (startBatch_steady _) fun _ =>
    .ite (modify_steady fun _ => ⟨rfl, rfl, rfl, rfl, id⟩) (setInternalError_steady hk _)

theorem sendClose_steady : Follows Steady (sendClose k) :=
  .bind .check fun _ => .bind .check fun _ =>
    .bind (modify_steady fun _ => ⟨rfl, rfl, rfl, rfl, id⟩) fun _ => .bind .check fun _ =>
    .bind (modify_steady fun _ => ⟨rfl, rfl, rfl, rfl, id⟩) fun _ =>
    .bind (startBatch_steady _) fun _ => .ite .pure (setInternalError_steady hk _)

/-- A write tells nothing but its refusal. -/
theorem write_steady (msg : Bytes) : Follows Steady (write k msg) :=
  .bind (initIfNot_steady hk) fun _ => .bind .get fun _ => .ite
    (.bind .check fun _ => .pure) <| .ite .pure <|
    .bind (modify_steady fun _ => ⟨rfl, rfl, rfl, rfl, id⟩) fun _ =>
    .ite .pure (sendNext_steady hk)

theorem closeWriting_steady : Follows Steady (closeWriting k) :=
  .bind .get fun _ => .ite .pure <|
    .bind (modify_steady fun _ => ⟨rfl, rfl, rfl, rfl, id⟩) fun _ => .ite .pure <|
    .ite .pure <| .bind .check fun _ => .bind (sendClose_steady hk) fun _ => .check

/-- The message callback is set once. -/
theorem readEach_steady (msgCb : Bool) : Follows Steady (readEach k msgCb) := by
  intro s
  simp only [readEach, wp_bind, wp_get, wp_ite, wp_pure, wp_modify]
  split
  case isTrue => exact .refl s
  case isFalse hs =>
    have h₁ : Steady s { s with readingStarted := true } :=
      ⟨List.prefix_rfl, fun h => absurd h hs, rfl, fun h => ⟨h, rfl⟩⟩
    refine (initIfNot_steady hk).wp h₁ (fun _ s₁ h₁ => ?_) fun _ _ h' => h'
    split
    · exact h₁
    · have h₂ : Steady s { s₁ with msgCb := msgCb } :=
        { h₁ with kept := fun h => absurd h hs }
      exact (readNext_steady hk).wp h₂ (fun _ _ h' => h') fun _ _ h' => h'

/-- A status that is set is an error. -/
theorem setErrorStatus_steady (e : Status) : Follows Steady (setErrorStatus k e) := by
  intro s
  simp only [setErrorStatus, wp_bind, wp_check, wp_get, wp_ite, wp_modify]
  split
  case isFalse => exact .refl s
  case isTrue he =>
    split
    · exact endOnErrorStatus_steady hk e s
    · exact ⟨List.prefix_rfl, fun h => ⟨h, rfl⟩, rfl, fun h => absurd h (by simpa using he)⟩

/-- No call by itself tells an OK. -/
theorem call_steady (c : Call) : Follows Steady (c.exec k) := by
  cases c with
  | write msg => exact .bind (write_steady hk msg) fun _ => emit_steady rfl
  | closeWriting => exact closeWriting_steady hk
  | readEach msgCb => exact readEach_steady hk msgCb
  | setErrorStatus e => exact setErrorStatus_steady hk e
  | destroyWrapper =>
      exact .bind (closeWriting_steady hk) fun _ =>
        modify_steady fun _ => ⟨rfl, rfl, rfl, rfl, id⟩

end functions

/-- Whatever a callback does, it tells errors only. -/
theorem prog_steady (r : React) : Follows Steady r.prog :=
  Follows.reaction (fun c _ hk => call_steady hk c) r

/-! ### Completions -/

/-- The step completes a read with the end of the stream. -/
def Step.ends : Step → Bool
  | read true ⟨none⟩ _ _ => true
  | _ => false

/-- What a step does at most; `ends` says whether it ends the reading. -/
structure Tells (ends : Bool) (s s' : ReaderWriter) : Prop where
  trace : s.trace <+: s'.trace
  kept : s.readingStarted = true → s'.readingStarted = true ∧ s'.msgCb = s.msgCb
  ok : s'.status.ok = true → s.status.ok = true ∧
    (s'.readingEnded = true → s.readingEnded = true ∨ ends = true)
  /-- An OK status is told when both directions have ended, and the writing with the half-close. -/
  oks : oks s'.trace = oks s.trace ∨ s.status.ok = true ∧
    (s.readingEnded = true ∨ ends = true) ∧ closed s'.trace = true

/-- What tells no OK tells it in order. -/
theorem Steady.tells (h : Steady s s') (ends : Bool) : Tells ends s s' where
  trace := h.trace
  kept := h.kept
  ok := fun hs => ⟨(h.ok hs).1, fun he => .inl ((h.ok hs).2 ▸ he)⟩
  oks := .inl h.oks

/-- A half-close is never undone. -/
theorem closed_mono {tr tr' : List (Event Cb)} (h : tr <+: tr') (hc : closed tr = true) :
    closed tr' = true := by
  obtain ⟨rest, rfl⟩ := h
  rw [closed_append, hc]
  rfl

/-- Both directions have ended, and the status is told. -/
theorem callStatusCb_ends {k : Status → M Status} (hk : ∀ st, Follows Steady (k st))
    {ends : Bool} {s₀ : ReaderWriter} (h : Tells ends s₀ s) (hoks : oks s.trace = oks s₀.trace)
    (hs : s.status.ok = true → (s₀.readingEnded = true ∨ ends = true) ∧ closed s.trace = true) :
    wp (callStatusCb k) (fun _ => Tells ends s₀) (fun _ => Tells ends s₀) s := by
  refine wp_callStatusCb_steady hk h fun s' h' => ?_
  have htr : s.trace <+: s'.trace := (List.prefix_append _ _).trans h'.trace
  refine
    { trace := h.trace.trans htr
      kept := fun hst => ⟨(h'.kept (h.kept hst).1).1,
        (h'.kept (h.kept hst).1).2.trans (h.kept hst).2⟩
      ok := fun hok => ⟨(h.ok (h'.ok hok).1).1, fun he => (h.ok (h'.ok hok).1).2
        ((h'.ok hok).2 ▸ he)⟩
      oks := ?_ }
  by_cases hok : s.status.ok = true
  · obtain ⟨hended, hclosed⟩ := hs hok
    exact .inr ⟨(h.ok hok).1, hended, closed_mono htr hclosed⟩
  · refine .inl (h'.oks.trans ?_)
    rw [oks_append, hoks]
    simp [oks, statuses, hok]

/-- `SendClose()` half-closes the call, unless an assertion fails. -/
theorem sendClose_closes {k : Status → M Status} (hk : ∀ st, Follows Steady (k st)) :
    wp (sendClose k) (fun _ s' => Steady s s' ∧ closed s'.trace = true)
      (fun _ s' => Steady s s') s := by
  simp only [sendClose, wp_bind, wp_check, wp_modify, wp_startBatch, wp_ite, wp_pure, env_eq,
    setEnv_eq]
  split
  case isFalse => exact .refl s
  split
  case isFalse => exact .refl s
  split
  case isFalse => exact { Steady.refl s with }
  have h₁ : Steady s { s with
      hasSentClose := true, writingEnded := true, starts := s.starts.tail
      trace := s.trace ++ [.batch [.clientSendClose] (s.starts.headD true)] } :=
    { Steady.event (s := s) (e := .batch [.clientSendClose] (s.starts.headD true)) rfl
        s.starts.tail with }
  have hclosed : closed (s.trace ++ [.batch [.clientSendClose] (s.starts.headD true)]) = true := by
    simp [closed, Batch.closes]
  split
  · exact ⟨h₁, hclosed⟩
  · exact wp_mono (setInternalError_steady hk _ _)
      (fun _ s' h' => ⟨trans_of Steady h₁ h', closed_mono h'.trace hclosed⟩)
      fun _ s' h' => trans_of Steady h₁ h'

section steps
variable {cb : Status → React}

/-- What goes on from a steady state without telling an OK tells in order. -/
theorem Steady.wp_tells {s₁ : ReaderWriter} (h₁ : Steady s s₁) {x : M Unit}
    (hx : Follows Steady x) (ends : Bool) :
    wp x (fun _ => Tells ends s) (fun _ => Tells ends s) s₁ :=
  hx.wp h₁ (fun _ _ h' => h'.tells ends) fun _ _ h' => h'.tells ends

/-- A completed send tells an OK only after its half-close. -/
theorem sent_tells (h : Inv given s) (hsend : s.sending ≠ []) (success : Bool) :
    wp (Step.exec (.sent success cb)) (fun _ => Tells false s) (fun _ => Tells false s) s := by
  have hk : ∀ st, Follows Steady (cb st).prog := fun st => prog_steady (cb st)
  obtain ⟨m, q, hf, hq⟩ := h.queue.flying_cases.resolve_left hsend
  have h₁ : Steady s (popped s m q success) :=
    { Steady.event (s := s) (e := .sent m success) rfl s.starts with }
  by_cases hs : s.status.ok = true
  case neg =>
    rw [wp_sent_inError hf hq (by simpa using hs)]
    split <;> exact h₁.tells _
  cases success with
  | false =>
      rw [wp_sent_failure hf hq hs]
      exact h₁.wp_tells (setInternalError_steady hk _) _
  | true =>
  cases q with
  | cons m' q =>
      rw [wp_sent_next hf hq hs]
      exact (sendNext_steady hk).wp h₁ (fun _ _ h' => h'.tells _) fun _ _ h' => h'.tells _
  | nil =>
  by_cases hw : s.writingClosing = true
  case neg =>
    rw [wp_sent_open hf hq hs (by simpa using hw)]
    exact h₁.tells _
  rw [wp_sent_close hf hq hs hw]
  refine wp_mono (sendClose_closes hk) ?_ fun _ s₂ h₂ => (trans_of Steady h₁ h₂).tells _
  rintro _ s₂ ⟨h₂, hclosed⟩
  have h₂ := trans_of Steady h₁ h₂
  split
  case isFalse => exact h₂.tells _
  split
  case isFalse => exact h₂.tells _
  case isTrue hended =>
    exact callStatusCb_ends hk (h₂.tells _) h₂.oks fun hok =>
      ⟨.inl ((h₂.ok hok).2 ▸ hended), hclosed⟩

/-- A completed read tells an OK only at the end of the stream, and after the half-close. -/
theorem read_tells (h : Inv given s) (hread : 0 < s.reading) (success : Bool) (tag : CodRecvMsg)
    (onMsg : Bytes → React) :
    wp (Step.exec (.read success tag onMsg cb))
      (fun _ => Tells (Step.ends (.read success tag onMsg cb)) s)
      (fun _ => Tells (Step.ends (.read success tag onMsg cb)) s) s := by
  have hk : ∀ st, Follows Steady (cb st).prog := fun st => prog_steady (cb st)
  have h₁ : Steady s (readDone s) := { Steady.refl s with }
  have hstarted := h.reading_started hread
  by_cases hs : s.status.ok = true
  case neg =>
    rw [wp_read_inError hstarted (by simpa using hs)]
    split <;> exact h₁.tells _
  cases success with
  | false =>
      rw [wp_read_failure hstarted hs]
      exact h₁.wp_tells (setInternalError_steady hk _) _
  | true =>
      obtain ⟨_ | ⟨_ | bytes⟩⟩ := tag
      · -- The end of the stream; where the writing has ended, its half-close was sent.
        have h₂ : Tells true s { readDone s with readingEnded := true } :=
          { h₁.tells true with ok := fun hok => ⟨hok, fun _ => .inr rfl⟩ }
        rw [wp_read_end hstarted hs]
        split
        case isFalse => exact h₂
        case isTrue hw =>
          exact callStatusCb_ends hk h₂ rfl fun _ =>
            ⟨.inr rfl, h.queue.trace_closed.trans (h.ended_close hs hw)⟩
      · rw [wp_read_unreadable hstarted hs]
        exact h₁.wp_tells (endOnErrorStatus_steady hk _) _
      · rw [wp_read_message hstarted hs]
        split
        case isFalse => exact h₁.wp_tells (readNext_steady hk) _
        case isTrue =>
          have h₂ : Steady s { readDone s with trace := s.trace ++ [.called (.msgCb bytes)] } :=
            { Steady.event (s := s) (e := .called (.msgCb bytes)) rfl s.starts with }
          refine (prog_steady (onMsg bytes)).wp h₂ (fun status s₃ h₃ => ?_)
            fun _ _ h' => h'.tells _
          split
          · exact h₃.wp_tells (endOnErrorStatus_steady hk _) _
          · exact h₃.wp_tells (readNext_steady hk) _

end steps

/-- **Telling.**  What a step tells. -/
theorem step_tells (h : Inv given s) (l : Step) (hl : Step.Enabled s l) :
    wp l.exec (fun _ => Tells l.ends s) (fun _ => Tells l.ends s) s := by
  cases l with
  | call c cb =>
      exact (Steady.refl s).wp_tells (call_steady (fun st => prog_steady (cb st)) c) _
  | sent success cb => exact sent_tells h hl success
  | read success tag onMsg cb => exact read_tells h hl success tag onMsg

end GrpcLua.ReaderWriter
