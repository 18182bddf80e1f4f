import GrpcLua.Client.Raising
import GrpcLua.Client.Reader.Telling

/-!
# Client — Reader — Completions

The completions of a `ClientAsyncReaderImpl`.  Each brings a message, or leads the object on to a
later stage (`step_stage`): from reading to receiving the status, and from there to nothing.  Where
nothing goes wrong, the object reads on until the stream has ended (`succeeds_reads`).
-/

namespace GrpcLua.Reader
open Prog Trace

variable {s : Reader} {final : Status}

/-- How far the object is from its end, apart from the messages that come. -/
def stage (s : Reader) : Nat := 2 * s.reading + s.receiving.length

/-! ### The functions -/

section
variable {cb : Status → React}

/-- A callback of a started object leaves it as it is. -/
theorem wp_prog_idle (hs : s.isStarted = true) (r : React) :
    wp r.prog (fun _ s' => s' = s) (fun _ s' => s' = s) s := by
  rw [wp_prog hs]
  cases r.answer <;> rfl

theorem wp_callStatusCb_stage (hs : s.isStarted = true) :
    wp (callStatusCb fun st => (cb st).prog) (fun _ s' => stage s' = stage s)
      (fun _ s' => stage s' = stage s) s := by
  rw [wp_callStatusCb hs]
  split
  · cases (cb s.status).answer <;> rfl
  · rfl

/-- `ReadNext()` starts a read at most. -/
theorem wp_readNext_stage (hs : s.isStarted = true) :
    wp (readNext fun st => (cb st).prog) (fun _ s' => stage s' ≤ stage s + 2)
      (fun _ s' => stage s' ≤ stage s + 2) s := by
  simp only [readNext, wp_bind, wp_check, wp_startBatch, wp_ite, wp_modify, env_eq, setEnv_eq]
  split
  · split
    · show 2 * (s.reading + 1) + s.receiving.length ≤ 2 * s.reading + s.receiving.length + 2
      omega
    · refine wp_mono (wp_callStatusCb_stage (by exact hs)) (fun _ s' h' => ?_) fun _ s' h' => ?_
      all_goals exact Nat.le_trans (Nat.le_of_eq h') (Nat.le_add_right (stage s) 2)
  · exact Nat.le_add_right _ _

/-- `RecvStatus()` starts to receive a status at most. -/
theorem wp_recvStatus_stage (hs : s.isStarted = true) (statusCb : Bool) :
    wp (recvStatus (fun st => (cb st).prog) statusCb) (fun _ s' => stage s' ≤ stage s + 1)
      (fun _ s' => stage s' ≤ stage s + 1) s := by
  simp only [recvStatus, wp_bind, wp_startBatch, wp_ite, wp_modify, wp_emit, wp_pure, env_eq,
    setEnv_eq]
  split
  · show 2 * s.reading + (s.receiving ++ [statusCb]).length ≤ _
    rw [List.length_append, List.length_singleton]
    exact Nat.le_refl _
  · split
    · refine wp_mono (wp_prog_idle (by exact hs) _) (fun _ s' h' => ?_) fun _ s' h' => ?_
      all_goals
        rw [h']
        exact Nat.le_add_right (stage s) 1
    · exact Nat.le_add_right (stage s) 1

end

/-! ### The completions -/

theorem Stands.started {received : List Bytes} (h : Stands final s received)
    (hs : 0 < s.reading ∨ s.receiving ≠ []) : s.isStarted = true := by
  obtain ⟨args?, error, h | ⟨args, rfl, h⟩⟩ := h
  · cases h with
    | fresh _ _ hreading hrecv _ _ =>
        exact hs.elim (fun h => absurd hreading (Nat.ne_of_gt h)) fun h => absurd hrecv h
    | reading h => exact h.started
    | receiving h => exact h.started
    | ended h => exact h.started
  · exact h.started

/-- A completion brings a message, or leads the object on. -/
theorem step_stage {received : List Bytes} (h : Stands final s received) (l : Step)
    (hl : Step.Enabled s l) (hcompletes : l.completes = true) :
    wp l.exec (fun _ s' => stage s' < stage s + l.received.length)
      (fun _ s' => stage s' < stage s + l.received.length) s := by
  cases l with
  | call c cb => cases hcompletes
  | recvStatus success cb =>
      have hs := h.started (.inr hl)
      obtain ⟨statusCb, rest, hrecv⟩ := List.exists_cons_of_ne_nil hl
      have hless : ∀ tr, stage { s with receiving := rest, trace := tr } < stage s := by
        intro tr
        show 2 * s.reading + rest.length < 2 * s.reading + s.receiving.length
        rw [hrecv, List.length_cons]
        omega
      simp only [Step.exec, onRecvStatus, wp_bind, wp_get, wp_modify, wp_ite, wp_pure, wp_emit,
        env_eq, setEnv_eq, hrecv, List.headD_cons, List.tail_cons]
      split
      · exact hless _
      · refine wp_mono (wp_prog_idle (by exact hs) _) (fun _ s' h' => ?_) fun _ s' h' => ?_
        all_goals
          rw [h']
          exact hless _
  | read success tag onMsg cb =>
      have hreading : 0 < s.reading := hl
      have hs := h.started (.inl hl)
      have hstage : stage (readDone s) + 2 = stage s := by
        show 2 * (s.reading - 1) + s.receiving.length + 2 = 2 * s.reading + s.receiving.length
        omega
      have hless : ∀ {n : ℕ}, n ≤ stage (readDone s) + 1 → n < stage s := fun h => by omega
      by_cases hok : s.status.ok = true
      case neg =>
        rw [wp_read_inError hs (by simpa using hok)]
        exact Nat.lt_add_right _ (hless (Nat.le_succ _))
      have hcall : ∀ {s₁ : Reader} {n : ℕ}, s₁.isStarted = true → stage s₁ = stage (readDone s) →
          wp (callStatusCb fun st => (cb st).prog) (fun _ s' => stage s' < stage s + n)
            (fun _ s' => stage s' < stage s + n) s₁ := by
        intro s₁ n hs₁ hstage₁
        have hn : stage s₁ < stage s + n := Nat.lt_add_right n (hless (by omega))
        exact wp_mono (wp_callStatusCb_stage hs₁) (fun _ _ h' => h' ▸ hn) fun _ _ h' => h' ▸ hn
      have hnext : ∀ {s₁ : Reader}, s₁.isStarted = true → stage s₁ = stage (readDone s) →
          wp (readNext fun st => (cb st).prog) (fun _ s' => stage s' < stage s + 1)
            (fun _ s' => stage s' < stage s + 1) s₁ := by
        intro s₁ hs₁ hstage₁
        have hle : stage s₁ + 2 < stage s + 1 := by omega
        exact wp_mono (wp_readNext_stage hs₁) (fun _ _ h' => Nat.lt_of_le_of_lt h' hle)
          fun _ _ h' => Nat.lt_of_le_of_lt h' hle
      cases success with
      | false =>
          rw [wp_read_failure hs hok]
          exact hcall hs rfl
      | true =>
          obtain ⟨_ | ⟨_ | bytes⟩⟩ := tag
          · rw [wp_read_end hs hok]
            exact wp_mono (wp_recvStatus_stage (by exact hs) _)
              (fun _ _ h' => Nat.lt_add_right _ (hless h'))
              fun _ _ h' => Nat.lt_add_right _ (hless h')
          · rw [wp_read_unreadable hs hok]
            exact hcall hs rfl
          · rw [wp_read_message hs hok]
            split
            · cases (onMsg bytes).answer with
              | none => exact Nat.lt_succ_of_lt (hless (Nat.le_succ _))
              | some status =>
                  rw [Option.elim_some]
                  split
                  · exact hcall hs rfl
                  · exact hnext hs rfl
            · exact hnext hs rfl

/-! ### Where nothing goes wrong -/

/-- The step meets with no error of the object, and no callback raises. -/
def Succeeds (s : Reader) (l : Step) : Prop := localError s l = none ∧ Raises s l = false

/-- The next read is started, if gRPC takes it. -/
theorem wp_readNext_succeeds {cb : Status → React} (hstart : s.starts.headD true = true) :
    wp (readNext fun st => (cb st).prog) (fun _ s' => s'.reading ≠ 0) (fun _ _ => True) s := by
  simp only [readNext, wp_bind, wp_check, wp_startBatch, wp_ite, wp_modify, env_eq, setEnv_eq,
    if_pos hstart]
  split
  · exact Nat.succ_ne_zero _
  · trivial

/-- After a message the object reads on. -/
theorem message_succeeds {msg : Bytes} {onMsg : Bytes → React} {cb : Status → React}
    (hs : s.isStarted = true) (h : Succeeds s (.read true ⟨some ⟨some msg⟩⟩ onMsg cb)) :
    wp (Step.exec (.read true ⟨some ⟨some msg⟩⟩ onMsg cb)) (fun _ s' => s'.reading ≠ 0)
      (fun _ _ => True) s := by
  obtain ⟨hlocal, hraises⟩ := h
  simp only [localError] at hlocal
  by_cases hok : s.status.ok = true
  case neg =>
    rw [wp_read_inError hs (by simpa using hok)]
    trivial
  rw [wp_read_message hs hok]
  by_cases hset : s.msgCb = true
  · rw [if_pos hset] at hlocal ⊢
    cases ha : (onMsg msg).answer with
    | none => exact absurd hraises (by simp [Raises, hset, Step.received, ha])
    | some status =>
        simp only [ha] at hlocal
        have hok : status.ok = true := by
          by_contra hok
          rw [if_pos (by simpa using hok)] at hlocal
          cases hlocal
        have hstart : s.starts.headD true = true := by simpa [hok] using hlocal
        rw [Option.elim_some, if_neg (by simp [hok])]
        exact wp_readNext_succeeds hstart
  · rw [if_neg hset] at hlocal ⊢
    have hstart : s.starts.headD true = true := by simpa using hlocal
    exact wp_readNext_succeeds hstart

theorem start_succeeds {msgCb statusCb : Bool} {cb : Status → React} (hs : s.isStarted = false)
    (h : Succeeds s (.call (.start msgCb statusCb) cb)) :
    wp (Step.exec (.call (.start msgCb statusCb) cb)) (fun _ s' => s'.reading ≠ 0)
      (fun _ _ => True) s := by
  have hlocal := h.1
  simp only [localError, hs, Bool.false_eq_true, if_false] at hlocal
  have hstart : s.starts.headD true = true := by
    by_contra hstart
    rw [if_pos (by simpa using hstart)] at hlocal
    cases hlocal
  have hstart' : s.starts.tail.headD true = true := by
    by_contra hstart'
    rw [hstart, if_neg (by simp), if_pos (by simpa using hstart')] at hlocal
    cases hlocal
  simp only [Step.exec, Call.exec, start, init, wp_bind, wp_get, wp_ite, wp_check, wp_modify,
    wp_pure, wp_startBatch, env_eq, setEnv_eq]
  rw [if_neg (by simp [hs]), if_pos hstart]
  split
  case isFalse => trivial
  case isTrue =>
    rw [if_pos trivial]
    exact wp_readNext_succeeds hstart'

/-- A step that succeeds keeps the object in its phases. -/
theorem succeeds_phase {args? : Option (Bool × Bool)} {received : List Bytes} {l : Step}
    (h : Phase final s args? received none) (hl : Step.Enabled s l) (hsucceeds : Succeeds s l) :
    wp l.exec (fun _ s' => Phase final s' (args?.or l.args) (received ++ l.received) none)
      (fun _ _ => False) s := by
  obtain ⟨hlocal, hno⟩ := hsucceeds
  cases l with
  | call c cb =>
      have hw := call_phase h c cb
      rw [hlocal, hno] at hw
      rw [show (Step.call c cb).received = [] from rfl, List.append_nil]
      exact wp_mono hw (fun _ _ h' => h'.2) fun _ _ h' => absurd h'.2.1 (by simp)
  | read success tag onMsg cb =>
      have hw := read_phase h success tag onMsg cb hl
      rw [hlocal, hno] at hw
      rw [show (Step.read success tag onMsg cb).args = none from rfl, Option.or_none]
      exact wp_mono hw (fun _ _ h' => h'.2) fun _ _ h' => absurd h'.2.1 (by simp)
  | recvStatus success cb =>
      have hw := recvStatus_phase h success cb hl
      rw [hlocal, hno] at hw
      rw [show (Step.recvStatus success cb).args = none from rfl, Option.or_none,
        show (Step.recvStatus success cb).received = [] from rfl, List.append_nil]
      exact wp_mono hw (fun _ _ h' => h'.2) fun _ _ h' => absurd h'.2.1 (by simp)

/-- The object was told that the stream has ended. -/
def Step.isEnd : Step → Bool
  | read true ⟨none⟩ _ _ => true
  | _ => false

/-- A started object reads on, until the stream has ended. -/
theorem succeeds_reads {args? : Option (Bool × Bool)} {received : List Bytes} {l : Step}
    (h : Phase final s args? received none) (hl : Step.Enabled s l) (hsucceeds : Succeeds s l) :
    wp l.exec (fun _ s' => s'.isStarted = true → s'.reading = 0 →
      l.isEnd = true ∨ s.isStarted = true ∧ s.reading = 0) (fun _ _ => True) s := by
  have hstands : Stands final s received := ⟨_, _, .inl h⟩
  cases l with
  | call c cb =>
      obtain ⟨msgCb, statusCb⟩ := c
      cases hs : s.isStarted with
      | false =>
          exact wp_mono (start_succeeds hs hsucceeds) (fun _ _ h' _ hzero => absurd hzero h')
            fun _ _ h' => h'
      | true =>
          have hself : s.isStarted = true → s.reading = 0 →
              (Step.call (.start msgCb statusCb) cb).isEnd = true ∨ true = true ∧ s.reading = 0 :=
            fun _ hzero => .inr ⟨rfl, hzero⟩
          exact wp_mono (comes_started (P := fun s' => s' = s) hs (.start msgCb statusCb) cb rfl)
            (fun _ _ h' => h'.2 ▸ hself) fun _ _ _ => trivial
  | read success tag onMsg cb =>
      have hs := hstands.started (.inl hl)
      cases success with
      | false => exact absurd hsucceeds.1 (by simp [localError])
      | true =>
          obtain ⟨_ | ⟨_ | msg⟩⟩ := tag
          · exact wp_mono (wp_true _ _) (fun _ _ _ _ _ => .inl rfl) fun _ _ _ => trivial
          · exact absurd hsucceeds.1 (by simp [localError])
          · exact wp_mono (message_succeeds hs hsucceeds) (fun _ _ h' _ hzero => absurd hzero h')
              fun _ _ h' => h'
  | recvStatus success cb =>
      have hs := hstands.started (.inr hl)
      have hzero : s.reading = 0 := by
        cases h with
        | fresh _ _ _ hrecv _ _ => exact absurd hrecv hl
        | reading _ _ _ _ hrecv _ => exact absurd hrecv hl
        | ended _ _ hrecv _ => exact absurd hrecv hl
        | receiving _ hreading _ _ => exact hreading
      exact wp_mono (wp_true _ _) (fun _ _ _ _ _ => .inr ⟨hs, hzero⟩) fun _ _ _ => trivial

/-- A started object with nothing in flight has told the status. -/
theorem Phase.finished {args? : Option (Bool × Bool)} {received : List Bytes}
    (h : Phase final s args? received none) (hs : s.isStarted = true) (hreading : s.reading = 0)
    (hrecv : s.receiving = []) : s.statusCb = true → statuses s.trace = [final] := by
  cases h with
  | fresh hs' => exact absurd (hs.symm.trans hs') (by simp)
  | reading _ _ _ hreading' => exact absurd (hreading.symm.trans hreading') (by simp)
  | receiving _ _ hrecv' => exact absurd (hrecv.symm.trans hrecv') (by simp)
  | ended h _ _ hst =>
      intro hset
      rw [hst, if_pos (h.statusCb hset)]
      rfl

end GrpcLua.Reader
