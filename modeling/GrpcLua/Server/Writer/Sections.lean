import GrpcLua.Server.Writer.Invariant

/-!
# Server — Writer — Sections

Every critical section keeps the invariant, and no assertion fails in one: with a single exception.
When `TryToWriteNext()` hands the front of the queue to gRPC and gRPC refuses it, `SendMsg()` resets
the queue, and the `pop()` that follows finds it empty (`step_loses`).
-/

namespace GrpcLua.ServerWriter
open Prog Trace

variable {s : ServerWriter}

/-! ### The status that is submitted -/

/-- The status that a close call with `status` submits in `s`. -/
def endsBy (s : ServerWriter) (status : Status) : Option Status :=
  if s.closed || s.closeStatus.isSome || s.isSending then none else some status

/-- The status that the next section of a thread submits. -/
def Pc.ends (s : ServerWriter) : Pc → Option Status
  | asyncClose status => s.endsBy status
  | syncClose status => s.endsBy status
  | _ => none

/-- The status that a step submits. -/
def ends (s : ServerWriter) : Step → Option Status
  | .call _ _ => none
  | .resume i => (s.threads.getD i .idle).ends s
  | .complete _ => if s.closed || !s.queue.isEmpty then none else s.closeStatus
  | .destroy => s.endsBy .OK

/-- What a section that submits `status` leaves of the object. -/
structure Leads (s : ServerWriter) (status : Option Status) (s' : ServerWriter) : Prop where
  inv : Inv s'
  trace_prefix : s.trace <+: s'.trace
  ended_by : ended s'.trace = true → ended s.trace = true ∨ status.isSome = true
  submits : ∀ st, status = some st → ended s'.trace = true ∧
    (closes s'.trace).head? = some st ∧ unfailed s'.trace = s.starts.headD true

/-- A section that submits no status. -/
theorem Leads.quiet {s' : ServerWriter} {status : Option Status} (hst : status = none)
    (h : Inv s') (htr : s.trace <+: s'.trace) (he : ended s'.trace = ended s.trace) :
    Leads s status s' where
  inv := h
  trace_prefix := htr
  ended_by := fun h' => .inl (he.symm.trans h')
  submits := fun _ h' => absurd (hst.symm.trans h') (by simp)

/-! ### The private functions -/

theorem wp_sendMsg {Q : Bool → ServerWriter → Prop} {E : Exit → ServerWriter → Prop} {m : Bytes}
    (hc : s.closed = false) (hs : s.isSending = false) :
    wp (sendMsg m) Q E s ↔
      if s.starts.headD true then Q true (started s m) else Q false (failed s m) := by
  simp only [sendMsg, wp_bind, wp_check, wp_get, wp_modify, wp_startBatch, wp_ite, wp_pure, env_eq,
    setEnv_eq]
  rw [if_pos (by simp [hc]), if_pos (by simp [hs])]
  cases s.starts.headD true <;> rfl

theorem wp_sendStatus {Q : Unit → ServerWriter → Prop} {E : Exit → ServerWriter → Prop}
    {status : Status} (hc : s.closed = false) (hstatus : s.closeStatus = some status)
    (hq : s.queue = []) :
    wp sendStatus Q E s ↔ Q () (closing s status (s.starts.headD true)) := by
  simp only [sendStatus, wp_bind, wp_check, wp_get, wp_modify, wp_startBatch, wp_pure, env_eq,
    setEnv_eq]
  rw [if_pos (by simp [hc]), if_pos (by simp [hstatus]), if_pos (by simp [hq])]
  have hget : s.closeStatus.getD .OK = status := by
    rw [hstatus]
    rfl
  rw [hget]

/-! ### The sections of the user's threads -/

/-- `AsyncWrite(response)` returns true exactly when it has queued or started the message. -/
theorem wp_asyncWrite (h : Inv s) (m : Bytes) :
    wp (asyncWrite m) (fun r s' => Leads s none { s' with trace := s'.trace ++ [.wrote m r] })
      (fun _ _ => False) s := by
  simp only [asyncWrite, wp_bind, wp_get, wp_ite, wp_pure, wp_modify, wp_check]
  by_cases hopen : (s.closed || s.closeStatus.isSome) = true
  · rw [if_pos hopen]
    exact .quiet rfl (h.returned (.inl ⟨m, rfl⟩) trivial) (by simp) (by simp)
  rw [if_neg hopen]
  rw [Bool.or_eq_true, not_or, Bool.not_eq_true] at hopen
  by_cases hs : s.isSending = true
  · rw [if_pos hs]
    exact .quiet rfl (h.push hs hopen.1 m) (by simp) (by simp)
  rw [Bool.not_eq_true] at hs
  rw [if_neg (by simp [hs]), if_pos (by simp [(h.idle hs).2]), wp_sendMsg hopen.1 hs]
  split
  · exact .quiet rfl (h.start hs hopen.1 m) (by simp) (by simp)
  · exact .quiet rfl ((h.fail hs hopen.1 m).returned (.inl ⟨m, rfl⟩) trivial) (by simp) (by simp)

/-- `AsyncClose(status)` leaves its status, and submits it if nothing is in flight. -/
theorem wp_asyncClose (h : Inv s) (status : Status) :
    wp (asyncClose status) (fun _ => Leads s (s.endsBy status)) (fun _ _ => False)
      { s with trace := s.trace ++ [.called (.close status)] } := by
  simp only [asyncClose, endsBy, wp_bind, wp_get, wp_ite, wp_pure, wp_modify, wp_check]
  by_cases hopen : (s.closed || s.closeStatus.isSome) = true
  · rw [if_pos hopen, if_pos (by rw [hopen]; rfl)]
    exact .quiet rfl (h.close_late hopen status) (by simp) (by simp)
  rw [if_neg hopen]
  rw [Bool.or_eq_true, not_or, Bool.not_eq_true, Option.not_isSome_iff_eq_none] at hopen
  have h₁ := h.close hopen.1 hopen.2 status
  by_cases hs : s.isSending = true
  · rw [if_pos hs, if_pos (by simp [hs])]
    exact .quiet rfl h₁ (by simp) (by simp)
  rw [Bool.not_eq_true] at hs
  have hq := (h.idle hs).2
  rw [if_neg (by simp [hs]), if_pos (by simp [hq]), if_neg (by simp [hopen, hs])]
  refine (wp_sendStatus (by exact hopen.1) (by rfl) (by exact hq)).mpr ?_
  have hend := h₁.end hs hopen.1 rfl (s.starts.headD true)
  refine ⟨hend, by simp, fun _ => .inr rfl, fun st hst => ⟨by simp, ?_, ?_⟩⟩
  · rw [← hst]
    exact hend.close_first status rfl
  · simp [h.open_unfailed hopen.1]

theorem wp_pc (h : Inv s) (pc : Pc) :
    wp pc.exec (fun _ => Leads s (pc.ends s)) (fun _ _ => False) s := by
  have hself : Leads s none s := .quiet rfl h List.prefix_rfl rfl
  cases pc with
  | idle => exact hself
  | write response => exact hself
  | asyncWrite response =>
      simp only [Pc.exec, wp_bind, wp_emit, wp_pure, env_eq, setEnv_eq]
      exact wp_asyncWrite h response
  | syncWrite response =>
      simp only [Pc.exec, wp_bind, wp_emit, wp_ite, wp_pure, env_eq, setEnv_eq]
      refine wp_mono (wp_asyncWrite h response) (fun r s' h' => ?_) fun _ _ hf => hf
      show if r = true then Leads s none _ else Leads s none _
      split
      · exact h'
      · exact
          { h' with
            inv := h'.inv.returned (.inr ⟨response, false, rfl⟩) trivial
            trace_prefix := h'.trace_prefix.trans (List.prefix_append _ _)
            ended_by := by simpa using h'.ended_by
            submits := fun _ h'' => absurd h'' (by simp) }
  | waitWrite response => exact hself
  | endWrite response =>
      refine Leads.quiet rfl (h.returned (.inr ⟨response, !s.closed, rfl⟩) ?_) (by simp) (by simp)
      cases hc : s.closed with
      | true => trivial
      | false => exact (h.of_open hc).1
  | asyncClose status =>
      simp only [Pc.exec, wp_bind, wp_emit, wp_pure, env_eq, setEnv_eq]
      exact wp_asyncClose h status
  | syncClose status =>
      simp only [Pc.exec, wp_bind, wp_emit, wp_pure, env_eq, setEnv_eq]
      exact wp_asyncClose h status
  | waitClose => exact hself
  | setHighQueueSize size => exact Leads.quiet rfl { h with } List.prefix_rfl rfl

/-! ### Completions and steps -/

/-- The step hands a queued message to gRPC, which refuses it. -/
def Loses (s : ServerWriter) : Step → Prop
  | .complete _ => s.closed = false ∧ s.queue ≠ [] ∧ s.starts.headD true = false
  | _ => False

instance Loses.decidable (s : ServerWriter) : (l : Step) → Decidable (Loses s l)
  | .complete _ => inferInstanceAs
      (Decidable (s.closed = false ∧ s.queue ≠ [] ∧ s.starts.headD true = false))
  | .call _ _ => isFalse id
  | .resume _ => isFalse id
  | .destroy => isFalse id

/-- The message in flight belongs to an open writer. -/
theorem Inv.in_flight (h : Inv s) (hsend : s.sending ≠ []) :
    s.closed = false ∧ ∃ m, s.sending = [m] := by
  constructor
  · by_contra hc
    exact hsend (h.closed_sending (by simpa using hc))
  · have := h.one_sending
    match hs : s.sending, this with
    | [], _ => exact absurd hs hsend
    | [m], _ => exact ⟨m, rfl⟩

/-- A completion that finds the queue empty submits the status that waits, if one does. -/
theorem wp_complete (h : Inv s) (hsend : s.sending ≠ []) (success : Bool)
    (hl : ¬ Loses s (.complete success)) :
    wp (Step.exec (.complete success)) (fun _ => Leads s (ends s (.complete success)))
      (fun _ _ => False) s := by
  obtain ⟨hc, m, hm⟩ := h.in_flight hsend
  simp only [Step.exec, tryToWriteNext, wp_bind, wp_get, wp_modify, wp_emit, wp_ite, wp_pure,
    wp_check, env_eq, setEnv_eq, hm]
  rw [if_neg (by simp [hc])]
  by_cases hq : s.queue = []
  · have h₁ := h.complete hm hq success
    have hends : ends s (.complete success) = s.closeStatus := by simp [ends, hc, hq]
    rw [if_neg (by simp [hq]), hends]
    by_cases hst : s.closeStatus.isSome = true
    · rw [if_pos hst]
      obtain ⟨status, hstatus⟩ := Option.isSome_iff_exists.mp hst
      refine (wp_sendStatus (by exact hc) (by exact hstatus) (by exact hq)).mpr ?_
      have hend := h₁.end rfl hc hstatus (s.starts.headD true)
      refine ⟨hend, by simp, fun _ => .inr hst, fun st hst => ⟨by simp, ?_, ?_⟩⟩
      · exact hend.close_first st hst
      · simp [h.open_unfailed hc]
    · rw [if_neg hst, if_pos (by rfl)]
      exact .quiet (Option.not_isSome_iff_eq_none.mp hst) h₁ (by simp) (by simp)
  · have hstart : s.starts.headD true = true := by
      by_contra hf
      exact hl ⟨hc, hq, by simpa using hf⟩
    have hends : ends s (.complete success) = none := by simp [ends, hq]
    rw [hends]
    obtain ⟨m', q, hq⟩ := List.exists_cons_of_ne_nil hq
    simp only [popQueue, wp_bind, wp_get, wp_ite, wp_throw, wp_modify, hq]
    rw [if_pos (by rfl)]
    refine (wp_sendMsg (by exact hc) (by rfl)).mpr ?_
    rw [if_pos hstart, if_neg (by simp), if_pos (by rfl)]
    exact .quiet rfl (h.next hc hm hq success) (by simp) (by simp)

/-- A step keeps the invariant, unless it loses a queued message. -/
theorem step_leads (h : Inv s) (l : Step) (hl : Step.Enabled s l) (hlose : ¬ Loses s l) :
    wp l.exec (fun _ => Leads s (ends s l)) (fun _ _ => False) s := by
  obtain ⟨-, hl⟩ := hl
  cases l with
  | call i c => exact Leads.quiet rfl { h with } List.prefix_rfl rfl
  | resume i =>
      simp only [Step.exec, wp_bind, wp_get, wp_modify]
      exact wp_mono (wp_pc h _) (fun _ _ h' => { h' with inv := { h'.inv with } }) fun _ _ hf => hf
  | complete success => exact wp_complete h hl success hlose
  | destroy =>
      have hq : s.queue = [] := by
        by_contra hq
        exact h.queue_sending hq hl.1
      simp only [Step.exec, wp_bind, wp_modify, wp_check, wp_emit, env_eq, setEnv_eq]
      rw [if_pos (by simp [hq])]
      exact wp_mono (wp_asyncClose (s := { s with destroyed := true }) { h with } .OK)
        (fun _ _ h' => { h' with }) fun _ _ hf => hf

/-- Losing a queued message is undefined. -/
theorem step_loses (h : Inv s) (l : Step) (hl : Step.Enabled s l) (hlose : Loses s l) :
    wp l.exec (fun _ _ => False) (fun e s' => e = .undefined ∧ unfailed s'.trace = false) s := by
  obtain ⟨-, hl⟩ := hl
  cases l with
  | call i c => exact hlose.elim
  | resume i => exact hlose.elim
  | destroy => exact hlose.elim
  | complete success =>
      obtain ⟨hc, hq, hstart⟩ := hlose
      obtain ⟨-, m, hm⟩ := h.in_flight hl
      obtain ⟨m', q, hq⟩ := List.exists_cons_of_ne_nil hq
      simp only [Step.exec, tryToWriteNext, popQueue, wp_bind, wp_get, wp_modify, wp_emit, wp_ite,
        wp_throw, env_eq, setEnv_eq, hm]
      rw [if_neg (by simp [hc]), if_pos (by simp [hq])]
      refine (wp_sendMsg (by exact hc) (by rfl)).mpr ?_
      rw [if_neg (by simpa using hstart), if_pos (by rfl)]
      exact ⟨trivial, by simp⟩

end GrpcLua.ServerWriter
