import GrpcLua.Client.ReaderWriter.Settling
import GrpcLua.Client.ReaderWriter.StatusCb
import GrpcLua.Client.ReaderWriter.Telling

/-!
# Client — ReaderWriter — Pending

The completions that a `ClientAsyncReaderWriterImpl` waits for: one for each message, and one for
the read that is in flight or can still be started.  A completion makes them fewer, but for the
messages that its callbacks write, and but for the next read where it has received a message
(`step_pending`).

While the status is OK, gRPC has refused nothing (`Paced.ok`).
-/

namespace GrpcLua.ReaderWriter
open Prog Trace

variable {given r : Bool} {s s₁ s' : ReaderWriter} {l : Step}

/-- gRPC has taken every batch. -/
def unrefused (tr : List (Event Cb)) : Bool :=
  tr.all fun | .batch _ started => started | _ => true

@[simp] theorem unrefused_append (tr tr' : List (Event Cb)) :
    unrefused (tr ++ tr') = (unrefused tr && unrefused tr') := List.all_append

/-- What a program does at most: a message that it hands to gRPC is in flight, and a batch that is
refused makes the status an error.  With `r`, a reading that was started is left to the
completions. -/
structure Paces (r : Bool) (s s' : ReaderWriter) : Prop where
  flight : s'.sending.length + (handed s.trace).length =
    s.sending.length + (handed s'.trace).length
  reading : r = true → s.readingStarted = true →
    s'.readingStarted = true ∧ s'.reading = s.reading
  ok : s'.status.ok = true → s.status.ok = true ∧
    (unrefused s.trace = true → unrefused s'.trace = true)

instance : IsPreorder ReaderWriter (Paces r) where
  refl _ := ⟨rfl, fun _ h => ⟨h, rfl⟩, fun h => ⟨h, id⟩⟩
  trans _ _ _ h h' :=
    { flight := by
        have := h.flight
        have := h'.flight
        omega
      reading := fun hr hs => ⟨(h'.reading hr (h.reading hr hs).1).1,
        (h'.reading hr (h.reading hr hs).1).2.trans (h.reading hr hs).2⟩
      ok := fun hs => ⟨(h.ok (h'.ok hs).1).1, fun hu => (h'.ok hs).2 ((h.ok (h'.ok hs).1).2 hu)⟩ }

theorem Paces.refl (s : ReaderWriter) : Paces r s s := refl_of (Paces r) s

/-- What is shown of a started reading may be forgotten. -/
theorem Paces.weaken (h : Paces true s s') : Paces r s s' :=
  { h with reading := fun _ => h.reading rfl }

/-- An event that hands on no message and is no refusal. -/
theorem Paces.event {e : Event Cb} (hh : handed [e] = []) (hu : unrefused [e] = true)
    (starts : List Bool) : Paces r s { s with starts := starts, trace := s.trace ++ [e] } where
  flight := by rw [handed_append, hh, List.append_nil]
  reading := fun _ h => ⟨h, rfl⟩
  ok := fun h => ⟨h, fun hs => by rw [unrefused_append, hs, hu]; rfl⟩

/-- A batch that is refused, when the status has been made an error. -/
theorem Paces.refused (b : Batch) (starts : List Bool) {st : Status} (hst : st.ok = false) :
    Paces r s { s with
      starts := starts, trace := s.trace ++ [.batch b false], status := st } where
  flight := by rw [handed_append, handed_batch (.inl rfl), List.append_nil]
  reading := fun _ h => ⟨h, rfl⟩
  ok := fun h => absurd (hst.symm.trans h) (by simp)

/-- An event that hands nothing to gRPC. -/
theorem emit_paces {e : Event Cb} (hh : handed [e] = []) (hu : unrefused [e] = true) :
    Follows (Paces r) (emit e : M Unit) := fun s => .event hh hu s.starts

/-- A member that `Paces` does not look at. -/
theorem modify_paces {g : ReaderWriter → ReaderWriter}
    (h : ∀ s, (g s).trace = s.trace ∧ (g s).sending = s.sending ∧ (g s).reading = s.reading ∧
      (g s).status = s.status ∧ (s.readingStarted = true → (g s).readingStarted = true)) :
    Follows (Paces r) (modify g : M PUnit) := by
  intro s
  obtain ⟨htr, hsend, hread, hst, hstart⟩ := h s
  rw [wp_modify]
  refine ⟨by rw [htr, hsend], fun _ hs => ⟨hstart hs, hread⟩, fun hs => ⟨hst ▸ hs, ?_⟩⟩
  rw [htr]
  exact id

section functions
variable {k : Status → M Status} (hk : ∀ st, Follows (Paces true) (k st))
include hk

/-- `CallStatusCb` runs the callback, which paces itself. -/
theorem callStatusCb_paces : Follows (Paces true) (callStatusCb k) :=
  .bind .get fun _ => .ite
    (.bind (emit_paces rfl rfl) fun _ => .bind (hk _) fun _ =>
      modify_paces fun _ => ⟨rfl, rfl, rfl, rfl, id⟩) .pure

/-- Ending on an error; `h` says how the object has come to it. -/
theorem wp_endOnErrorStatus_paces {e : Status} (he : e.ok = false)
    (h : ∀ st : Status, st.ok = false → Paces r s { s₁ with status := st }) :
    wp (endOnErrorStatus k e) (fun _ => Paces r s) (fun _ => Paces r s) s₁ := by
  simp only [endOnErrorStatus, wp_bind, wp_check, wp_modify]
  rw [if_pos (by simp [he])]
  split
  case isFalse hs => exact h s₁.status (by simpa using hs)
  case isTrue =>
    refine (callStatusCb_paces hk).wp (.refl _) (fun _ s' h' => ?_) fun _ s' h' => ?_
    · have := trans_of (Paces r) (h e he) h'.weaken
      exact { this with }
    · exact trans_of (Paces r) (h e he) h'.weaken

/-- `SetInternalError` sets the status, and then calls back. -/
theorem wp_setInternalError_paces {sError : Bytes}
    (h : ∀ st : Status, st.ok = false → Paces r s { s₁ with status := st }) :
    wp (setInternalError k sError) (fun _ => Paces r s) (fun _ => Paces r s) s₁ := by
  simp only [setInternalError, wp_bind, wp_check]
  split
  case isFalse hs => exact h s₁.status (by simpa using hs)
  case isTrue => exact wp_endOnErrorStatus_paces hk rfl h

omit hk in
/-- A status that is made an error. -/
theorem Paces.failed {st : Status} (hst : st.ok = false) : Paces r s { s with status := st } :=
  ⟨rfl, fun _ h => ⟨h, rfl⟩, fun h => absurd (hst.symm.trans h) (by simp)⟩

/-- Ending with an error starts nothing. -/
theorem endOnErrorStatus_paces (e : Status) : Follows (Paces true) (endOnErrorStatus k e) := by
  intro s
  by_cases he : e.ok = true
  · simp only [endOnErrorStatus, wp_bind, wp_check]
    rw [if_neg (by simp [he])]
    exact .refl s
  · exact wp_endOnErrorStatus_paces hk (by simpa using he) fun _ => .failed

theorem setInternalError_paces (sError : Bytes) :
    Follows (Paces true) (setInternalError k sError) :=
  .bind .check fun _ => endOnErrorStatus_paces hk _

omit hk in
/-- A batch without a message, which is followed up where gRPC has taken it. -/
theorem startBatch_paces {α : Type} {b : Batch} (hb : b.msg? = none) {x : Bool → M α}
    (htaken : Follows (Paces r) (x true))
    (hrefused : ∀ s s₁ : ReaderWriter,
      (∀ st : Status, st.ok = false → Paces r s { s₁ with status := st }) →
      wp (x false) (fun _ => Paces r s) (fun _ => Paces r s) s₁) :
    Follows (Paces r) (startBatch b >>= x) := by
  intro s
  simp only [wp_bind, wp_startBatch, env_eq, setEnv_eq]
  cases s.starts.headD true with
  | true =>
      exact htaken.wp (.event (handed_batch (.inr hb)) rfl s.starts.tail) (fun _ _ h' => h')
        fun _ _ h' => h'
  | false => exact hrefused s _ fun _ => .refused b s.starts.tail

theorem initIfNot_paces : Follows (Paces true) (initIfNot k) :=
  .bind .get fun _ => .ite .pure <|
    .bind (modify_paces fun _ => ⟨rfl, rfl, rfl, rfl, id⟩) fun _ => .ite .pure <|
    startBatch_paces rfl
      (startBatch_paces rfl .pure fun _ _ h => wp_setInternalError_paces hk h)
      fun _ _ h => wp_setInternalError_paces hk h

/-- The message that gRPC has taken is in flight. -/
theorem sendNext_paces : Follows (Paces true) (sendNext k) := by
  refine .bind .check fun _ => .bind .check fun _ => ?_
  intro s
  simp only [wp_bind, wp_get, wp_startBatch, wp_ite, wp_modify, wp_pure, env_eq, setEnv_eq]
  split
  case isTrue hstart =>
    rw [hstart]
    refine ⟨?_, fun _ h => ⟨h, rfl⟩, fun h => ⟨h, fun hs => ?_⟩⟩
    · rw [handed_append]
      show (s.sending ++ [s.msgQueue.headD []]).length + _ =
        s.sending.length + (handed s.trace ++ [s.msgQueue.headD []]).length
      simp only [List.length_append, List.length_singleton]
      omega
    · rw [unrefused_append, hs]
      rfl
  case isFalse hstart =>
    rw [Bool.not_eq_true] at hstart
    rw [hstart]
    exact wp_setInternalError_paces hk fun _ => .refused _ _

/-- A read is started. -/
theorem readNext_paces : Follows (Paces false) (readNext k) := by
  refine .bind .check fun _ => startBatch_paces rfl ?_ fun _ _ h => wp_setInternalError_paces hk h
  exact fun s => ⟨rfl, fun h => absurd h (by simp), fun h => ⟨h, id⟩⟩

theorem sendClose_paces : Follows (Paces true) (sendClose k) :=
  .bind .check fun _ => .bind .check fun _ =>
    .bind (modify_paces fun _ => ⟨rfl, rfl, rfl, rfl, id⟩) fun _ => .bind .check fun _ =>
    .bind (modify_paces fun _ => ⟨rfl, rfl, rfl, rfl, id⟩) fun _ =>
    startBatch_paces rfl .pure fun _ _ h => wp_setInternalError_paces hk h

/-- What is written is queued, or handed over with its batch. -/
theorem write_paces (msg : Bytes) : Follows (Paces true) (write k msg) :=
  .bind (initIfNot_paces hk) fun _ => .bind .get fun _ => .ite
    (.bind .check fun _ => .pure) <| .ite .pure <|
    .bind (modify_paces fun _ => ⟨rfl, rfl, rfl, rfl, id⟩) fun _ =>
    .ite .pure (sendNext_paces hk)

theorem closeWriting_paces : Follows (Paces true) (closeWriting k) :=
  .bind .get fun _ => .ite .pure <|
    .bind (modify_paces fun _ => ⟨rfl, rfl, rfl, rfl, id⟩) fun _ => .ite .pure <|
    .ite .pure <| .bind .check fun _ => .bind (sendClose_paces hk) fun _ => .check

/-- A reading that was started is not started again. -/
theorem readEach_paces (msgCb : Bool) : Follows (Paces true) (readEach k msgCb) := by
  intro s
  simp only [readEach, wp_bind, wp_get, wp_ite, wp_pure, wp_modify]
  split
  case isTrue => exact .refl s
  case isFalse hs =>
    have hstart : ∀ {s'}, Paces false s s' → Paces true s s' :=
      fun h => { h with reading := fun _ h' => absurd h' hs }
    have h₁ : Paces false s { s with readingStarted := true } :=
      ⟨rfl, fun h => absurd h (by simp), fun h => ⟨h, id⟩⟩
    refine (initIfNot_paces hk).wp (.refl _) (fun _ s₁ h₂ => ?_)
      fun _ _ h₂ => hstart (trans_of (Paces false) h₁ h₂.weaken)
    have h₂ := trans_of (Paces false) h₁ h₂.weaken
    split
    · exact hstart h₂
    · have h₃ : Paces false s { s₁ with msgCb := msgCb } := { h₂ with }
      exact (readNext_paces hk).wp h₃ (fun _ _ h' => hstart h') fun _ _ h' => hstart h'

/-- `SetErrorStatus` starts nothing. -/
theorem setErrorStatus_paces (e : Status) : Follows (Paces true) (setErrorStatus k e) := by
  intro s
  simp only [setErrorStatus, wp_bind, wp_check, wp_get, wp_ite, wp_modify]
  split
  case isFalse => exact .refl s
  case isTrue he =>
    split
    · exact endOnErrorStatus_paces hk e s
    · exact .failed (by simpa using he)

/-- Every call paces the object. -/
theorem call_paces (c : Call) : Follows (Paces true) (c.exec k) := by
  cases c with
  | write msg => exact .bind (write_paces hk msg) fun _ => emit_paces rfl rfl
  | closeWriting => exact closeWriting_paces hk
  | readEach msgCb => exact readEach_paces hk msgCb
  | setErrorStatus e => exact setErrorStatus_paces hk e
  | destroyWrapper =>
      exact .bind (closeWriting_paces hk) fun _ =>
        modify_paces fun _ => ⟨rfl, rfl, rfl, rfl, id⟩

end functions

/-- Whatever a callback calls paces the object. -/
theorem prog_paces (x : React) : Follows (Paces true) x.prog :=
  Follows.reaction (fun c _ hk => call_paces hk c) x

/-! ### Steps -/

/-- The message that a completed read has received. -/
def Step.received : Step → List Bytes
  | read true ⟨some ⟨some msg⟩⟩ _ _ => [msg]
  | _ => []

/-- The sends that complete with the step. -/
def Step.sends : Step → Nat
  | sent _ _ => 1
  | _ => 0

/-- The reads that complete with the step. -/
def Step.reads : Step → Nat
  | read _ _ _ _ => 1
  | _ => 0

/-- What a step does at most: beside what its functions do, it takes its tag from those in flight.
The next read is started where it has received a message. -/
structure Paced (l : Step) (s s' : ReaderWriter) : Prop where
  flight : s'.sending.length + l.sends + (handed s.trace).length =
    s.sending.length + (handed s'.trace).length
  reading : l.received = [] → s.readingStarted = true →
    s'.readingStarted = true ∧ s'.reading + l.reads = s.reading
  ok : s'.status.ok = true → s.status.ok = true ∧
    (unrefused s.trace = true → unrefused s'.trace = true)

section steps
variable {cb : Status → React} {onMsg : Bytes → React} {success : Bool}

/-- One message is no longer in flight; what follows keeps the pace. -/
theorem Paces.of_sent {m : Bytes} {ms : List Bytes} (hsend : s.sending = m :: ms)
    (h : Paces true { s with sending := ms, trace := s.trace ++ [.sent m success] } s') :
    Paced (.sent success cb) s s' := by
  have hh : handed (s.trace ++ [.sent m success]) = handed s.trace := by
    rw [handed_append]
    exact List.append_nil _
  have hu : unrefused (s.trace ++ [.sent m success]) = unrefused s.trace := by
    rw [unrefused_append]
    exact Bool.and_true _
  have hflight : s'.sending.length + (handed (s.trace ++ [.sent m success])).length =
    ms.length + (handed s'.trace).length := h.flight
  refine ⟨?_, fun _ => h.reading rfl, fun hok => ⟨(h.ok hok).1, hu ▸ (h.ok hok).2⟩⟩
  rw [hsend, List.length_cons, ← hh]
  show s'.sending.length + 1 + _ = _
  omega

/-- The read is no longer in flight; what follows keeps the pace. -/
theorem Paces.of_read {tag : CodRecvMsg} (hread : 0 < s.reading) (h : Paces true (readDone s) s') :
    Paced (.read success tag onMsg cb) s s' := by
  refine ⟨h.flight, fun _ hs => ⟨(h.reading rfl hs).1, ?_⟩, h.ok⟩
  rw [(h.reading rfl hs).2]
  exact Nat.sub_add_cancel hread

/-- Where a message was received, another read may be in flight. -/
theorem Paces.of_message {bytes : Bytes} (h : Paces false (readDone s) s') :
    Paced (.read true ⟨some ⟨some bytes⟩⟩ onMsg cb) s s' :=
  ⟨h.flight, fun h' => absurd h' (by simp [Step.received]), h.ok⟩

/-- A completed send takes its message from those in flight. -/
theorem sent_paced (hsend : s.sending ≠ []) :
    wp (Step.exec (.sent success cb)) (fun _ => Paced (.sent success cb) s)
      (fun _ => Paced (.sent success cb) s) s := by
  have hk : ∀ st, Follows (Paces true) (cb st).prog := fun st => prog_paces (cb st)
  obtain ⟨m, ms, hsend⟩ := List.exists_cons_of_ne_nil hsend
  have hx : Follows (Paces true) (onSent (fun st => (cb st).prog) success) :=
    .bind .check fun _ => .bind (modify_paces fun _ => ⟨rfl, rfl, rfl, rfl, id⟩) fun _ =>
    .bind .get fun _ => .ite .check <| .ite (setInternalError_paces hk _) <|
    .ite (.bind (sendNext_paces hk) fun _ => .pure) <| .ite .pure <|
    .bind (sendClose_paces hk) fun _ => .bind .check fun _ => .bind .get fun _ =>
    .ite (callStatusCb_paces hk) .pure
  simp only [Step.exec, wp_bind, wp_get, wp_modify, wp_emit, env_eq, setEnv_eq, hsend]
  exact hx.wp (.refl _) (fun _ _ h' => h'.of_sent hsend) fun _ _ h' => h'.of_sent hsend

/-- A completed read takes the one in flight, and starts another where it received a message. -/
theorem read_paced (hread : 0 < s.reading) (success : Bool) (tag : CodRecvMsg) :
    wp (Step.exec (.read success tag onMsg cb)) (fun _ => Paced (.read success tag onMsg cb) s)
      (fun _ => Paced (.read success tag onMsg cb) s) s := by
  have hk : ∀ st, Follows (Paces true) (cb st).prog := fun st => prog_paces (cb st)
  by_cases hstarted : s.readingStarted = true
  case neg =>
    rw [wp_read_unstarted (by simpa using hstarted)]
    exact (Paces.refl _).of_read hread
  by_cases hs : s.status.ok = true
  case neg =>
    rw [wp_read_inError hstarted (by simpa using hs)]
    split <;> exact (Paces.refl _).of_read hread
  cases success with
  | false =>
      rw [wp_read_failure hstarted hs]
      exact (setInternalError_paces hk _).wp (.refl _) (fun _ _ h' => h'.of_read hread)
        fun _ _ h' => h'.of_read hread
  | true =>
      obtain ⟨_ | ⟨_ | bytes⟩⟩ := tag
      · rw [wp_read_end hstarted hs]
        have hend : Paces true (readDone s) { readDone s with readingEnded := true } :=
          ⟨rfl, fun _ h => ⟨h, rfl⟩, fun h => ⟨h, id⟩⟩
        split
        · exact (callStatusCb_paces hk).wp hend (fun _ _ h' => h'.of_read hread)
            fun _ _ h' => h'.of_read hread
        · exact hend.of_read hread
      · rw [wp_read_unreadable hstarted hs]
        exact (endOnErrorStatus_paces hk _).wp (.refl _) (fun _ _ h' => h'.of_read hread)
          fun _ _ h' => h'.of_read hread
      · rw [wp_read_message hstarted hs]
        have hnext : ∀ {s₁}, Paces false (readDone s) s₁ →
            wp (readNext fun st => (cb st).prog)
              (fun _ => Paced (.read true ⟨some ⟨some bytes⟩⟩ onMsg cb) s)
              (fun _ => Paced (.read true ⟨some ⟨some bytes⟩⟩ onMsg cb) s) s₁ :=
          fun h => (readNext_paces hk).wp h (fun _ _ h' => h'.of_message)
            fun _ _ h' => h'.of_message
        split
        case isFalse => exact hnext (.refl _)
        case isTrue =>
          refine (prog_paces (onMsg bytes)).wp (.event rfl rfl s.starts)
            (fun status s₁ h₁ => ?_) fun _ _ h' => h'.of_read hread
          split
          · exact (endOnErrorStatus_paces hk _).wp h₁ (fun _ _ h' => h'.of_read hread)
              fun _ _ h' => h'.of_read hread
          · exact hnext h₁.weaken

end steps

/-- Every step takes one tag at most from those in flight. -/
theorem step_paced (l : Step) (hl : Step.Enabled s l) :
    wp l.exec (fun _ => Paced l s) (fun _ => Paced l s) s := by
  cases l with
  | call c cb =>
      have hcall : ∀ {s'}, Paces true s s' → Paced (.call c cb) s s' :=
        fun h => ⟨h.flight, fun _ => h.reading rfl, h.ok⟩
      exact (call_paces (fun st => prog_paces (cb st)) c).wp (.refl s) (fun _ _ => hcall)
        fun _ _ => hcall
  | sent success cb => exact sent_paced hl
  | read success tag onMsg cb => exact read_paced hl success tag

/-! ### The completions to come -/

/-- The reads that are to complete before another message is received: the one in flight, or the
first one if none has been started. -/
def unread (s : ReaderWriter) : Nat := if s.readingStarted then s.reading else 1

/-- The completions that are to come. -/
def pending (s : ReaderWriter) : Nat :=
  (accepted s.trace).length - (handed s.trace).length + s.sending.length + unread s

/-- One read at most is to complete. -/
theorem Base.unread_le (h : Base given s) : unread s ≤ 1 := by
  unfold unread
  split
  · exact h.one_reading
  · exact Nat.le_refl 1

/-- After a read there is another one only where a message was received. -/
theorem Paced.unread (hp : Paced l s s') (h : Inv given s) (hI' : Inv given s')
    (hl : Step.Enabled s l) :
    ReaderWriter.unread s' + l.reads ≤ ReaderWriter.unread s + l.received.length := by
  have hle := hI'.unread_le
  by_cases hr : l.received = []
  · by_cases hs : s.readingStarted = true
    · obtain ⟨hs', hsame⟩ := hp.reading hr hs
      rw [ReaderWriter.unread, ReaderWriter.unread, if_pos hs, if_pos hs']
      exact Nat.le_trans (Nat.le_of_eq hsame) (Nat.le_add_right _ _)
    · -- Without a reading no read completes.
      have hreads : l.reads = 0 := by
        cases l with
        | read _ _ _ _ => exact absurd (h.reading_started hl) hs
        | _ => rfl
      have hone : ReaderWriter.unread s = 1 := if_neg hs
      omega
  · have hlength := List.length_pos_iff.mpr hr
    obtain ⟨hreads, hone⟩ : l.reads = 1 ∧ 1 ≤ ReaderWriter.unread s := by
      cases l with
      | call _ _ => exact absurd rfl hr
      | sent _ _ => exact absurd rfl hr
      | read _ _ _ _ =>
          have hpos : 0 < s.reading := hl
          refine ⟨rfl, ?_⟩
          rw [ReaderWriter.unread, if_pos (h.reading_started hpos)]
          exact hpos
    omega

/-- A completion leaves fewer to come; but what is written meanwhile is to be sent, and after a
message the next one is read. -/
structure Settles (l : Step) (s s' : ReaderWriter) : Prop where
  pending : pending s' + 1 + (accepted s.trace).length ≤
    pending s + (accepted s'.trace).length + l.received.length
  accepted : (accepted s.trace).length ≤ (accepted s'.trace).length

/-- A completion leaves one fewer to come, but for what it starts itself. -/
theorem step_pending (h : Inv given s) (l : Step) (hl : Step.Enabled s l)
    (hcompletes : l.completes = true) :
    wp l.exec (fun _ => Settles l s) (fun _ => Settles l s) s := by
  have hcount : l.sends + l.reads = 1 := by
    cases l with
    | call c cb => cases hcompletes
    | sent _ _ => rfl
    | read _ _ _ _ => rfl
  have hpaced : ∀ {s'}, Inv given s' ∧ Paced l s s' ∧ Tells l.ends s s' → Settles l s s' := by
    rintro s' ⟨hI', hp, ht⟩
    have hmore : (accepted s.trace).length ≤ (accepted s'.trace).length := by
      obtain ⟨rest, hrest⟩ := ht.trace
      rw [← hrest, accepted_append, List.length_append]
      exact Nat.le_add_right _ _
    refine ⟨?_, hmore⟩
    have hflight := hp.flight
    have hunread := hp.unread h hI' hl
    have hhanded := h.queue.handed_prefix.length_le
    have hhanded' := hI'.queue.handed_prefix.length_le
    rw [ReaderWriter.pending, ReaderWriter.pending]
    omega
  exact wp_mono (wp_and (step_keeps h l hl) (wp_and (step_paced l hl) (step_tells h l hl)))
    (fun _ _ => hpaced) fun _ _ => hpaced

/-! ### What is left -/

/-- A step that returns leaves a whole object whole. -/
theorem step_whole (h : Whole true s) (l : Step) :
    wp l.exec (fun _ => Whole true) (fun _ _ => True) s := by
  cases l with
  | call c cb => exact (call_whole (fun st => prog_minds (cb st)) h c).whole
  | sent success cb => exact sent_whole h success
  | read success tag onMsg cb => exact read_whole h success tag onMsg

/-- No callback of the step raises, and it does not lose the status. -/
def Undisturbed (s : ReaderWriter) (l : Step) : Prop :=
  raises l.exec s = false ∧ Loses s l = false

instance decidableUndisturbed (s : ReaderWriter) (l : Step) : Decidable (Undisturbed s l) :=
  inferInstanceAs (Decidable (_ ∧ _))

/-- What undisturbed steps keep: every reading goes on or ends, every batch is taken as long as the
status is OK, and the end of both directions is told. -/
structure Flowing (given : Bool) (s : ReaderWriter) : Prop extends Inv given s where
  whole : Whole true s
  unrefused : s.status.ok = true → unrefused s.trace = true
  heard : given = true → Heard s

/-- A new object flows. -/
theorem Flowing.new (given : Bool) (starts : List Bool) (final : Status) :
    Flowing given (new given starts final) :=
  { Inv.new given starts final with
    whole := .new given starts final
    unrefused := fun _ => rfl
    heard := fun _ h => absurd h (by simp [ReaderWriter.new]) }

/-- An undisturbed step keeps the object flowing, however it ends. -/
theorem step_flowing (h : Flowing given s) (l : Step) (hl : Step.Enabled s l)
    (hu : Undisturbed s l) :
    wp l.exec (fun _ => Flowing given) (Process.Leaves (Flowing given) fun _ _ => True) s := by
  have hheard : wp l.exec (fun _ s' => given = true → Heard s')
      (fun _ s' => given = true → Heard s') s := by
    cases given with
    | false =>
        have hnone : false = true → False := by simp
        exact wp_mono (wp_true l.exec s) (fun _ _ _ h' => (hnone h').elim)
          fun _ _ _ h' => (hnone h').elim
    | true =>
        exact wp_mono (step_heard h.toInv (h.heard rfl) l hl hu.2) (fun _ _ h' _ => h')
          fun _ _ h' _ => h'
  have hsteps := wp_and (step_keeps h.toInv l hl) (wp_and (step_paced l hl)
    (wp_and (step_whole h.whole l) hheard))
  refine wp_mono (wp_not_raises hsteps hu.1) ?_ ?_
  · rintro _ s' ⟨hI, hp, hw, hh⟩
    exact { hI with
      whole := hw
      unrefused := fun hok => (hp.ok hok).2 (h.unrefused (hp.ok hok).1)
      heard := hh }
  · rintro e s' ⟨hraise, -⟩
    cases e with
    | exception => exact absurd rfl hraise
    | _ => trivial

/-- What is left of an object without an error that has been closed, where nothing is in flight. -/
theorem Flowing.finished (h : Flowing given s) (hok : s.status.ok = true)
    (hclosing : s.writingClosing = true) (hsend : s.sending = []) :
    s.writingEnded = true ∧ halfClosed s.trace = some () := by
  have hq : s.msgQueue = [] := by
    by_contra hq
    exact h.busy hok hq hsend
  have hended := h.whole.closes hok hclosing hq
  refine ⟨hended, halfClosed_eq.mpr ?_⟩
  -- The half-close was handed to gRPC, which has taken it.
  have hclosed := h.queue.trace_closed.trans (h.ended_close hok hended)
  obtain ⟨e, he, hcloses⟩ := List.any_eq_true.mp hclosed
  have htaken := List.all_eq_true.mp (h.unrefused hok) e he
  cases e with
  | batch b started =>
      exact List.any_eq_true.mpr ⟨_, he, (Bool.and_eq_true _ _).mpr ⟨htaken, hcloses⟩⟩
  | _ => cases hcloses

end GrpcLua.ReaderWriter
