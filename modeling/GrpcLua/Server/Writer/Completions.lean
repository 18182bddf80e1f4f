import GrpcLua.Server.Writer.Runs

/-!
# Server — Writer — Completions

A `ServerWriterImpl` waits for one completion for each message in flight and one for each in its
queue; each completion makes their number smaller (`complete_pending`).  A close call whose status
waits finds a message in flight, whose completion will send it (`Awaits`); so that a writer with
nothing in flight that has been closed has sent everything (`Inv.ended_of_idle`).
-/

namespace GrpcLua.ServerWriter
open Prog Trace

variable {s : ServerWriter}

/-! ### The status that waits -/

/-- A status that was left for later waits for a message in flight. -/
def Awaits (s : ServerWriter) : Prop :=
  s.closed = false → s.closeStatus.isSome = true → s.isSending = true

/-- Whether a message was taken or refused. -/
theorem wp_sendMsg_awaits (m : Bytes) :
    wp (sendMsg m) (fun _ => Awaits) (Process.Leaves Awaits fun _ _ => True) s := by
  simp only [sendMsg, wp_bind, wp_check, wp_get, wp_modify, wp_startBatch, wp_ite, wp_pure, env_eq,
    setEnv_eq]
  split
  · split
    · split
      · intro _ _
        rfl
      · intro hc
        cases hc
    · trivial
  · trivial

/-- The status is submitted with a tag of its own. -/
theorem wp_sendStatus_awaits :
    wp sendStatus (fun _ => Awaits) (Process.Leaves Awaits fun _ _ => True) s := by
  simp only [sendStatus, wp_bind, wp_check, wp_get, wp_modify, wp_startBatch, wp_pure,
    env_eq, setEnv_eq]
  split
  · split
    · split
      · intro hc
        cases hc
      · trivial
    · trivial
  · trivial

/-- The next message is submitted, or the status. -/
theorem wp_tryToWriteNext_awaits (h : Awaits s) :
    wp tryToWriteNext (fun _ => Awaits) (Process.Leaves Awaits fun _ _ => True) s := by
  simp only [tryToWriteNext, popQueue, wp_bind, wp_get, wp_ite, wp_pure, wp_modify, wp_check,
    wp_throw]
  split
  case isTrue => exact h
  case isFalse =>
    split
    case isTrue =>
      refine wp_mono (wp_sendMsg_awaits _) (fun _ s' h' => ?_) fun _ _ h' => h'
      split
      · trivial
      · split
        · exact h'
        · trivial
    case isFalse =>
      split
      case isTrue => exact wp_sendStatus_awaits
      case isFalse hst =>
        split
        · intro _ hst'
          exact absurd hst' hst
        · trivial

/-- A write is queued behind the message in flight, or submitted. -/
theorem wp_asyncWrite_awaits (h : Awaits s) (m : Bytes) :
    wp (asyncWrite m) (fun _ => Awaits) (Process.Leaves Awaits fun _ _ => True) s := by
  simp only [asyncWrite, wp_bind, wp_get, wp_ite, wp_pure, wp_modify, wp_check]
  split
  · exact h
  · split
    · exact h
    · split
      · exact wp_sendMsg_awaits m
      · trivial

/-- The status is sent at once, unless a message is in flight. -/
theorem wp_asyncClose_awaits (h : Awaits s) (status : Status) :
    wp (asyncClose status) (fun _ => Awaits) (Process.Leaves Awaits fun _ _ => True) s := by
  simp only [asyncClose, wp_bind, wp_get, wp_ite, wp_pure, wp_modify, wp_check]
  split
  case isTrue => exact h
  case isFalse =>
    split
    case isTrue hs =>
      intro _ _
      exact hs
    case isFalse =>
      split
      · exact wp_sendStatus_awaits
      · trivial

/-- Every critical section leaves a completion to come while messages are queued. -/
theorem wp_pc_awaits (h : Awaits s) (pc : Pc) :
    wp pc.exec (fun _ => Awaits) (Process.Leaves Awaits fun _ _ => True) s := by
  cases pc with
  | idle => exact h
  | write response => exact h
  | asyncWrite response =>
      simp only [Pc.exec, wp_bind, wp_emit, wp_pure, env_eq, setEnv_eq]
      exact wp_asyncWrite_awaits h response
  | syncWrite response =>
      simp only [Pc.exec, wp_bind, wp_emit, wp_ite, wp_pure, env_eq, setEnv_eq]
      refine wp_mono (wp_asyncWrite_awaits h response) (fun _ s' h' => ?_) fun _ _ h' => h'
      split <;> exact h'
  | waitWrite response => exact h
  | endWrite response => exact h
  | asyncClose status =>
      simp only [Pc.exec, wp_bind, wp_emit, wp_pure, env_eq, setEnv_eq]
      exact wp_asyncClose_awaits (by exact h) status
  | syncClose status =>
      simp only [Pc.exec, wp_bind, wp_emit, wp_pure, env_eq, setEnv_eq]
      exact wp_asyncClose_awaits (by exact h) status
  | waitClose => exact h
  | setHighQueueSize size => exact h

/-- So does every step. -/
theorem step_awaits (h : Awaits s) (l : Step) :
    wp l.exec (fun _ => Awaits) (Process.Leaves Awaits fun _ _ => True) s := by
  cases l with
  | call i c => exact h
  | resume i =>
      simp only [Step.exec, wp_bind, wp_get, wp_modify]
      exact wp_mono (wp_pc_awaits h _) (fun _ _ h' => h') fun _ _ h' => h'
  | complete success =>
      simp only [Step.exec, wp_bind, wp_get, wp_modify, wp_emit, env_eq, setEnv_eq]
      exact wp_tryToWriteNext_awaits (by exact h)
  | destroy =>
      simp only [Step.exec, wp_bind, wp_modify, wp_check, wp_emit, env_eq, setEnv_eq]
      split
      · exact wp_asyncClose_awaits (by exact h) .OK
      · trivial

/-! ### The destructor -/

/-- The program neither destroys the object nor takes or completes a message. -/
abbrev SparesTags {α : Type} (x : M α) : Prop :=
  Spares (fun s : ServerWriter => (s.destroyed, s.sending)) x

/-- The program does not destroy the object. -/
abbrev SparesObject {α : Type} (x : M α) : Prop := Spares (fun s : ServerWriter => s.destroyed) x

/-- A batch adds its own tag only. -/
theorem startBatch_spares (b : Batch) : SparesTags (startBatch b) := by
  intro s
  rw [wp_startBatch]
  rfl

/-- The status leaves the messages in flight alone. -/
theorem sendStatus_spares : SparesTags sendStatus :=
  .bind .check fun _ => .bind .check fun _ => .bind .check fun _ => .bind (.modify fun _ => rfl)
    fun _ => .bind .get fun _ => .bind (startBatch_spares _) fun _ => .pure

theorem asyncClose_spares (status : Status) : SparesTags (asyncClose status) :=
  .bind .get fun _ => .ite .pure <| .bind (.modify fun _ => rfl) fun _ => .ite .pure <|
    .bind .check fun _ => sendStatus_spares

/-- A message leaves the object alone. -/
theorem sendMsg_spares (m : Bytes) : SparesObject (sendMsg m) :=
  .bind .check fun _ => .bind .check fun _ => .bind (.modify fun _ => rfl) fun _ =>
    .bind .get fun _ => .bind ((startBatch_spares _).map Prod.fst) fun _ =>
      .ite (.bind (.modify fun _ => rfl) fun _ => .pure)
        (.bind (.modify fun _ => rfl) fun _ => .pure)

theorem asyncWrite_spares (m : Bytes) : SparesObject (asyncWrite m) :=
  .bind .get fun _ => .ite .pure <| .ite (.bind (.modify fun _ => rfl) fun _ => .pure) <|
    .bind .check fun _ => sendMsg_spares m

theorem tryToWriteNext_spares : SparesObject tryToWriteNext := by
  have hpop : SparesObject popQueue := by
    refine .bind .get fun _ => .ite ?_ (.modify fun _ => rfl)
    exact fun _ => rfl
  exact .bind .get fun _ => .ite .pure <| .bind (.modify fun _ => rfl) fun _ => .ite
    (.bind (sendMsg_spares _) fun _ => .bind hpop fun _ => .check) <|
    .ite (sendStatus_spares.map Prod.fst) .check

theorem emit_spares (e : Event Cb) : SparesTags (emit e) := fun _ => rfl

/-- No critical section destroys the writer. -/
theorem pc_spares (pc : Pc) : SparesObject pc.exec := by
  have hemit : ∀ e : Event Cb, SparesObject (emit e) := fun e => (emit_spares e).map Prod.fst
  have hclose : ∀ status, SparesObject (ServerWriter.asyncClose status) :=
    fun status => (asyncClose_spares status).map Prod.fst
  cases pc with
  | idle => exact .pure
  | write response => exact .bind .get fun _ => .pure
  | asyncWrite response =>
      exact .bind (asyncWrite_spares response) fun _ => .bind (hemit _) fun _ => .pure
  | syncWrite response =>
      exact .bind (asyncWrite_spares response) fun _ => .bind (hemit _) fun _ =>
        .ite .pure (.bind (hemit _) fun _ => .pure)
  | waitWrite response => exact .bind .get fun _ => .pure
  | endWrite response => exact .bind .get fun _ => .bind (hemit _) fun _ => .pure
  | asyncClose status => exact .bind (hemit _) fun _ => .bind (hclose _) fun _ => .pure
  | syncClose status => exact .bind (hemit _) fun _ => .bind (hclose _) fun _ => .pure
  | waitClose => exact .bind .get fun _ => .pure
  | setHighQueueSize size => exact .bind (.modify fun _ => rfl) fun _ => .pure

/-- Between two steps: a status waits for a message in flight, and nothing is in flight of an object
that is destroyed. -/
structure Serving (s : ServerWriter) : Prop where
  awaits : Awaits s
  destroyed : s.destroyed = true → s.sending = []

/-- A new writer serves. -/
theorem Serving.new (starts : List Bool) (n : Nat) : Serving (new starts n) :=
  ⟨fun _ hst => absurd hst (by simp [ServerWriter.new]), fun _ => rfl⟩

/-- Every step leaves the writer serving, unless it stops the process. -/
theorem step_serving (h : Serving s) (l : Step) (hl : Step.Enabled s l) :
    wp l.exec (fun _ => Serving) (Process.Leaves Serving fun _ _ => True) s := by
  -- Any other step leaves the object undestroyed.
  have halive : ∀ {s' : ServerWriter}, s'.destroyed = s.destroyed → s'.destroyed = true →
      s'.sending = [] := fun hs hd => absurd ((hl.1.symm.trans hs.symm).trans hd) (by simp)
  have hmono : SparesObject l.exec →
      wp l.exec (fun _ => Serving) (Process.Leaves Serving fun _ _ => True) s := fun hx =>
    wp_mono (wp_and (step_awaits h.awaits l) (hx s)) (fun _ _ h' => ⟨h'.1, halive h'.2⟩)
      fun e _ h' => by
        cases e with
        | exception => exact ⟨h'.1, halive h'.2⟩
        | _ => trivial
  cases l with
  | call i c => exact hmono (.modify fun _ => rfl)
  | resume i =>
      exact hmono (.bind .get fun _ => .bind (pc_spares _) fun _ => .modify fun _ => rfl)
  | complete success =>
      exact hmono (.bind .get fun _ => .bind (.modify fun _ => rfl) fun _ =>
        .bind ((emit_spares _).map Prod.fst) fun _ => tryToWriteNext_spares)
  | destroy =>
      -- The destructor finds nothing in flight.
      have hx : Spares (fun s : ServerWriter => s.sending) (Step.exec .destroy) :=
        .bind (.modify fun _ => rfl) fun _ => .bind .check fun _ =>
          .bind ((emit_spares _).map Prod.snd) fun _ => (asyncClose_spares _).map Prod.snd
      refine wp_mono (wp_and (step_awaits h.awaits .destroy) (hx s))
        (fun _ _ h' => ⟨h'.1, fun _ => h'.2.trans hl.2.1⟩) fun e _ h' => ?_
      cases e with
      | exception => exact ⟨h'.1, fun _ => h'.2.trans hl.2.1⟩
      | _ => trivial

/-! ### The completions -/

/-- The completions that are to come. -/
def pending (s : ServerWriter) : Nat := s.sending.length + s.queue.length

/-- The step is the completion of a message. -/
def Step.completes : Step → Bool
  | complete _ => true
  | _ => false

/-- A message goes from the queue into flight, or all of the queue is lost. -/
theorem wp_tryToWriteNext_pending (s : ServerWriter) :
    wp tryToWriteNext
      (fun _ s' => pending s' ≤ pending s ∧ accepted s'.trace = accepted s.trace)
      (fun _ s' => pending s' ≤ pending s ∧ accepted s'.trace = accepted s.trace) s := by
  have htr : ∀ b started, accepted (s.trace ++ [.batch b started]) = accepted s.trace := by
    intro b started
    rw [accepted_append]
    exact List.append_nil _
  simp only [tryToWriteNext, popQueue, wp_bind, wp_get, wp_ite, wp_pure, wp_modify, wp_check,
    wp_throw]
  split
  case isTrue => exact ⟨Nat.le_refl _, trivial⟩
  case isFalse hc =>
    rw [Bool.not_eq_true] at hc
    by_cases hq : s.queue = []
    · rw [if_neg (by simp [hq])]
      split
      case isTrue hst =>
        obtain ⟨status, hst⟩ := Option.isSome_iff_exists.mp hst
        refine (wp_sendStatus (by exact hc) (by exact hst) (by exact hq)).mpr ?_
        exact ⟨Nat.le_refl (pending s), htr _ _⟩
      case isFalse =>
        rw [if_pos (by rfl)]
        exact ⟨Nat.le_refl (pending s), trivial⟩
    · obtain ⟨m, q, hq⟩ := List.exists_cons_of_ne_nil hq
      rw [if_pos (by simp [hq])]
      refine (wp_sendMsg (by exact hc) (by rfl)).mpr ?_
      split
      · rw [if_neg (by simp [hq]), if_pos (by rfl)]
        refine ⟨?_, htr _ _⟩
        show (s.sending ++ [_]).length + s.queue.tail.length ≤ s.sending.length + s.queue.length
        rw [hq, List.length_append, List.length_singleton, List.tail_cons, List.length_cons]
        omega
      · rw [if_pos (by rfl)]
        exact ⟨Nat.add_le_add_left (Nat.zero_le _) _, htr _ _⟩

/-- A completion leaves fewer to come. -/
theorem complete_pending (success : Bool) (hl : Step.Enabled s (.complete success)) :
    wp (Step.exec (.complete success))
      (fun _ s' => pending s' < pending s ∧ accepted s'.trace = accepted s.trace)
      (fun _ s' => pending s' < pending s ∧ accepted s'.trace = accepted s.trace) s := by
  obtain ⟨-, hsend⟩ := hl
  obtain ⟨m, rest, hm⟩ := List.exists_cons_of_ne_nil hsend
  simp only [Step.exec, wp_bind, wp_get, wp_modify, wp_emit, env_eq, setEnv_eq, hm]
  have hless : pending { s with sending := rest, trace := s.trace ++ [.sent m success] } <
      pending s := by
    show rest.length + s.queue.length < s.sending.length + s.queue.length
    rw [hm, List.length_cons]
    omega
  have htr : accepted (s.trace ++ [.sent m success]) = accepted s.trace := by
    rw [accepted_append]
    exact List.append_nil _
  refine wp_mono (wp_tryToWriteNext_pending _) (fun _ s' h' => ?_) fun _ s' h' => ?_
  all_goals exact ⟨Nat.lt_of_le_of_lt h'.1 hless, h'.2.trans htr⟩

/-! ### Nothing in flight -/

/-- Where no `StartBatch` has failed, no message was refused. -/
theorem refused_of_unfailed {tr : List (Event Cb)} (hu : unfailed tr = true) :
    refused tr = false := by
  by_contra hr
  rw [Bool.not_eq_false] at hr
  obtain ⟨e, he, hm⟩ := List.any_eq_true.mp hr
  have hstarted := List.all_eq_true.mp hu e he
  cases e with
  | batch b r =>
      cases r with
      | true => simp at hm
      | false => simp at hstarted
  | _ => simp at hm

/-- A closed writer with nothing in flight has submitted its status, unless gRPC has refused
something. -/
theorem Inv.ended_of_idle (h : Inv s) (ha : Awaits s) (hsend : s.sending = [])
    (hcloses : closes s.trace ≠ []) (hu : unfailed s.trace = true) :
    ended s.trace = true := by
  have hr := refused_of_unfailed hu
  by_contra he
  have hc : s.closed = false := by
    by_contra hc
    rw [Bool.not_eq_false] at hc
    exact (h.closed_cases hc).elim (fun hr' => absurd (hr.symm.trans hr') (by simp)) he
  cases hst : s.closeStatus with
  | none => exact hcloses (h.close_none hc hst)
  | some status =>
      have hs := ha hc (by rw [hst]; rfl)
      exact (h.flag_sending hs).elim (fun hf => hf hsend)
        fun hr' => absurd (hr.symm.trans hr') (by simp)

end GrpcLua.ServerWriter
