import GrpcLua.Client.Writer.Closing
import GrpcLua.Core.Appends

/-!
# Client — Writer — Completions

A `ClientAsyncWriterImpl` waits for one completion for each message in its queue, and one for its
close batch: `pending` counts them, and every completion makes it smaller, whatever the callback
does that it invokes.  When nothing is in flight the object has nothing left to do
(`Inv.finished`).
-/

namespace GrpcLua.Writer
open Prog Trace

variable {final : Status} {s s' : Writer}

instance : LawfulEnv Writer := ⟨fun _ _ => rfl⟩

/-- The completions that are to come: of the messages, and of the close batch. -/
def pending (s : Writer) : Nat :=
  s.msgQueue.length + s.closing + if s.hasSentClose then 0 else 1

/-- No completion has been added to those to come, and no message accepted. -/
structure Settles (s s' : Writer) : Prop where
  pending : pending s' ≤ pending s
  accepted : accepted s'.trace = accepted s.trace
  closing : s'.isClosing = s.isClosing

theorem Settles.refl (s : Writer) : Settles s s := ⟨Nat.le_refl _, rfl, rfl⟩

theorem Settles.trans {s₁ s₂ s₃ : Writer} (h : Settles s₁ s₂) (h' : Settles s₂ s₃) :
    Settles s₁ s₃ :=
  ⟨Nat.le_trans h'.pending h.pending, h'.accepted.trans h.accepted, h'.closing.trans h.closing⟩

/-- An event that accepts nothing. -/
theorem Settles.event {e : Event Cb} (he : GrpcLua.accepted [e] = []) (h : Settles s s') :
    Settles s { s' with trace := s'.trace ++ [e] } := by
  refine ⟨h.pending, ?_, h.closing⟩
  rw [accepted_append, he, List.append_nil, h.accepted]

/-- From a state in which fewer are to come. -/
theorem Settles.less {s₁ : Writer} (h : Settles s₁ s') (hp : Writer.pending s₁ < Writer.pending s)
    (ha : GrpcLua.accepted s₁.trace = GrpcLua.accepted s.trace) :
    Writer.pending s' < Writer.pending s ∧
      GrpcLua.accepted s'.trace = GrpcLua.accepted s.trace :=
  ⟨Nat.lt_of_le_of_lt h.pending hp, h.accepted.trans ha⟩

/-! ### The functions -/

/-- A call of the object that is closing returns at once. -/
theorem call_settles (c : Call) (k : Status → M Unit) :
    Keeps (fun s => s.isClosing = true) Settles (c.exec k) := by
  intro s hc
  cases c with
  | write request =>
      have h : Settles s { s with trace := s.trace ++ [.wrote request false] } :=
        (Settles.refl s).event rfl
      simp only [Call.exec, Writer.write, wp_bind, wp_get, wp_ite, wp_pure, wp_emit, env_eq,
        setEnv_eq]
      by_cases hs : (!s.status.ok) = true
      · rw [if_pos hs]
        exact ⟨hc, h⟩
      · rw [if_neg hs, if_pos hc]
        exact ⟨hc, h⟩
  | close given =>
      simp only [Call.exec, Writer.close, wp_bind, wp_get, wp_ite, wp_pure, wp_emit, env_eq,
        setEnv_eq]
      rw [if_pos hc]
      exact ⟨hc, (Settles.refl s).event rfl⟩

/-- What the callback of an object that is closing does. -/
theorem prog_settles (r : React) : Keeps (fun s => s.isClosing = true) Settles r.prog :=
  Reaction.keeps Settles.refl (fun _ _ _ => Settles.trans) (fun op _ _ _ => call_settles op _) r
    (Reaction.every_of_forall (p := fun _ _ => True) (fun _ _ => trivial) r)

section
variable {cb : Status → React}

theorem wp_callCloseCb_settles (hc : s.isClosing = true) (sMsg : Bytes) :
    wp (callCloseCb (fun st => (cb st).prog) sMsg) (fun _ => Settles s) (fun _ => Settles s) s := by
  simp only [callCloseCb, wp_bind, wp_get]
  cases s.closeCb with
  | none => exact .refl s
  | some n =>
      have h := (Settles.refl s).event (e := .called (.closeCb n s.status sMsg)) rfl
      simp only [wp_bind, wp_emit, wp_modify, env_eq, setEnv_eq]
      refine (prog_settles (cb s.status)).wp (by exact hc) (fun _ s₁ _ h₁ => ?_)
        fun _ _ _ h₁ => h.trans h₁
      obtain ⟨hp, ha, hcl⟩ := h.trans h₁
      exact ⟨hp, ha, hcl⟩

theorem wp_tryToCallCloseCb_settles (s : Writer) :
    wp (tryToCallCloseCb fun st => (cb st).prog) (fun _ => Settles s) (fun _ => Settles s) s := by
  simp only [tryToCallCloseCb, wp_bind, wp_check, wp_get, wp_ite, wp_pure]
  split
  · split
    case isTrue hc => exact wp_callCloseCb_settles hc []
    case isFalse => exact .refl s
  · exact .refl s

/-- The queue keeps the message that is sent. -/
theorem wp_sendNext_settles (s : Writer) :
    wp (sendNext fun st => (cb st).prog) (fun _ => Settles s) (fun _ => Settles s) s := by
  simp only [sendNext, wp_bind, wp_check, wp_get, wp_submit, wp_ite, wp_modify, wp_pure]
  have haccepted : ∀ b started, accepted (submitted s b started).trace = accepted s.trace := by
    intro b started
    rw [accepted_append]
    exact List.append_nil _
  split
  · split
    · split
      · exact ⟨Nat.le_refl _, haccepted _ _, rfl⟩
      · refine wp_mono (wp_tryToCallCloseCb_settles _) (fun _ s₁ h₁ => ?_) fun _ s₁ h₁ => ?_
        all_goals exact ⟨h₁.pending, h₁.accepted.trans (haccepted _ _), h₁.closing⟩
    · exact .refl s
  · exact .refl s

/-- The close batch was to come, and is in flight or was refused. -/
theorem wp_sendClose_settles (s : Writer) :
    wp (sendClose fun st => (cb st).prog) (fun _ => Settles s) (fun _ => Settles s) s := by
  simp only [sendClose, wp_bind, wp_check, wp_modify, wp_submit, wp_ite]
  have haccepted : ∀ b started, accepted (submitted s b started).trace = accepted s.trace := by
    intro b started
    rw [accepted_append]
    exact List.append_nil _
  split
  case isFalse => exact .refl s
  case isTrue hc =>
  split
  case isFalse => exact .refl s
  case isTrue hclose =>
  have hpending : pending s = s.msgQueue.length + s.closing + 1 := by
    rw [pending, if_neg (by simpa using hclose)]
  split
  case isFalse =>
    refine ⟨?_, rfl, rfl⟩
    rw [hpending]
    exact Nat.le_succ _
  case isTrue =>
    split
    · refine ⟨?_, haccepted _ _, rfl⟩
      rw [hpending]
      exact Nat.le_refl _
    · refine wp_mono (wp_callCloseCb_settles (s := { submitted s _ _ with
        hasSentClose := true, status := .internalError _ }) hc []) (fun _ s₁ h₁ => ?_)
        fun _ s₁ h₁ => ?_
      all_goals
        refine ⟨Nat.le_trans h₁.pending ?_, h₁.accepted.trans (haccepted _ _), h₁.closing⟩
        rw [hpending]
        exact Nat.le_succ _

end

/-! ### The completions -/

/-- The step is the completion of a tag. -/
def Step.completes : Step → Bool
  | call _ _ => false
  | sent _ _ => true
  | closed _ _ _ => true

/-- A completion leaves fewer to come. -/
theorem step_pending (h : Inv final s) (l : Step) (hl : Step.Enabled s l)
    (hcompletes : l.completes = true) :
    wp l.exec (fun _ s' => pending s' < pending s ∧ accepted s'.trace = accepted s.trace)
      (fun _ s' => pending s' < pending s ∧ accepted s'.trace = accepted s.trace) s := by
  cases l with
  | call c cb => cases hcompletes
  | sent success cb =>
      obtain ⟨m, q, hf, hq⟩ := h.queue.flying_cases.resolve_left hl
      have hs := h.flight_ok (.inl hl)
      -- The front of the queue is gone, whatever follows.
      have hless : ∀ s₁ : Writer, s₁.msgQueue = q → s₁.closing = s.closing →
          s₁.hasSentClose = s.hasSentClose → pending s₁ < pending s := by
        intro s₁ hq₁ hclosing hclose
        rw [pending, pending, hq₁, hclosing, hclose, hq, List.length_cons]
        omega
      have htr : accepted (s.trace ++ [.sent m success]) = accepted s.trace := by
        rw [accepted_append]
        exact List.append_nil _
      simp only [Step.exec, onSent, wp_bind, wp_get, wp_modify, wp_emit, env_eq, setEnv_eq,
        wp_check, wp_ite, wp_pure]
      rw [hf, hq, if_pos (by simp), if_neg (by simp [hs])]
      split
      · exact wp_mono (wp_tryToCallCloseCb_settles _)
          (fun _ s' h' => h'.less (hless _ rfl rfl rfl) htr)
          fun _ s' h' => h'.less (hless _ rfl rfl rfl) htr
      · split
        · exact wp_mono (wp_sendNext_settles _)
            (fun _ s' h' => h'.less (hless _ rfl rfl rfl) htr)
            fun _ s' h' => h'.less (hless _ rfl rfl rfl) htr
        · split
          · exact wp_mono (wp_sendClose_settles _)
              (fun _ s' h' => h'.less (hless _ rfl rfl rfl) htr)
              fun _ s' h' => h'.less (hless _ rfl rfl rfl) htr
          · exact ⟨hless _ rfl rfl rfl, htr⟩
  | closed success tag cb =>
      have hclosing : 0 < s.closing := hl
      have hs := h.flight_ok (.inr hclosing)
      have hc := h.close_closing (h.closing_close hclosing)
      have hless : ∀ s₁ : Writer, s₁.msgQueue = s.msgQueue → s₁.closing = s.closing - 1 →
          s₁.hasSentClose = s.hasSentClose → pending s₁ < pending s := by
        intro s₁ hq₁ hclosing₁ hclose
        rw [pending, pending, hq₁, hclosing₁, hclose]
        omega
      have htr : accepted (s.trace ++ [.called (.closed tag)]) = accepted s.trace := by
        rw [accepted_append]
        exact List.append_nil _
      simp only [Step.exec, onClosed, wp_bind, wp_get, wp_modify, wp_emit, env_eq, setEnv_eq,
        wp_check, wp_ite]
      rw [if_neg (by simp [hs])]
      split
      · exact wp_mono (wp_callCloseCb_settles (by exact hc) [])
          (fun _ s' h' => h'.less (hless _ rfl rfl rfl) htr)
          fun _ s' h' => h'.less (hless _ rfl rfl rfl) htr
      · refine wp_mono CodRecvMsg.getResultMsg_reads ?_ ?_
        · rintro ⟨st, msg⟩ _ rfl
          exact wp_mono (wp_callCloseCb_settles (by exact hc) msg)
            (fun _ s' h' => h'.less (hless _ rfl rfl rfl) htr)
            fun _ s' h' => h'.less (hless _ rfl rfl rfl) htr
        · rintro _ _ ⟨-, rfl⟩
          exact ⟨hless _ rfl rfl rfl, htr⟩

/-! ### Nothing in flight -/

/-- What the callback was told, it was told at some point of the trace. -/
theorem exists_of_told {tr : List (Event Cb)} {st : Status} {msg : Bytes}
    (h : (st, msg) ∈ told tr) : ∃ pre n post, tr = pre ++ .called (.closeCb n st msg) :: post := by
  obtain ⟨e, he, htold⟩ := List.mem_filterMap.mp h
  obtain ⟨pre, post, rfl⟩ := List.append_of_mem he
  cases e with
  | called cb =>
      cases cb with
      | closeCb n st' msg' =>
          obtain ⟨rfl, rfl⟩ := Prod.mk.inj (Option.some.inj htold)
          exact ⟨pre, n, post, rfl⟩
      | _ => cases htold
  | _ => cases htold

/-- What is left of a closed writer with nothing in flight, where nothing went wrong: all messages
and the half-close are handed to gRPC, and the callback has the result of the call. -/
structure Finished (final : Status) (tr : List (Event Cb)) : Prop where
  handed : handed tr = accepted tr
  halfClosed : halfClosed tr = some ()
  told : (closes tr).head? = some true →
    ∃ tag st msg, told tr = [(st, msg)] ∧ Result final tag st msg

theorem Inv.finished (h : Inv final s) (hsend : s.sending = []) (hclosing : s.closing = 0)
    (hcloses : closes s.trace ≠ []) (hclean : clean s.trace = true) :
    Finished final s.trace := by
  have hc := h.closing_closes.mpr hcloses
  -- Without an error, what waits for the messages in flight has been done.
  have hclose : s.hasSentClose = true := by
    by_contra hclose
    rw [Bool.not_eq_true] at hclose
    cases hs : s.status.ok with
    | false => exact absurd ((h.dirty hs hclose).symm.trans hclean) (by simp)
    | true =>
        have hq : s.msgQueue = [] := by
          by_contra hq
          exact h.busy hs hq hsend
        exact absurd (hclose.symm.trans (h.sent_close hs hc hq)) (by simp)
  have hqueue := h.queue
  rw [hclose] at hqueue
  refine ⟨hqueue.handed_of_closing, halfClosed_eq.mpr ?_, fun hgiven => ?_⟩
  · obtain ⟨e, he, hb⟩ := List.any_eq_true.mp hqueue.trace_closed
    have hstarted := List.all_eq_true.mp hclean e he
    cases e with
    | batch b started =>
        exact List.any_eq_true.mpr ⟨_, he, (Bool.and_eq_true _ _).mpr ⟨hstarted, hb⟩⟩
    | _ => cases hb
  · obtain ⟨⟨st, msg⟩, htold⟩ :=
      List.length_eq_one_iff.mp (h.orderly.owed hgiven hsend hclosing)
    have hmem : (st, msg) ∈ told s.trace := by
      rw [htold]
      exact List.mem_cons_self
    obtain ⟨pre, n, post, htr⟩ := exists_of_told hmem
    have hpre : clean pre = true := by
      rw [htr, clean, List.all_append, Bool.and_eq_true] at hclean
      exact hclean.1
    obtain ⟨tag, -, hresult⟩ := (h.fair pre _ post htr).2.2 hpre
    exact ⟨tag, st, msg, htold, hresult⟩

end GrpcLua.Writer
