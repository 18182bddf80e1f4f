import GrpcLua.Client.ReaderWriter.Traffic
import GrpcLua.Client.SyncReaderWriter
import GrpcLua.Client.SyncWriter
import GrpcLua.Client.Writer.Closing
import GrpcLua.Support.History

/-!
# Client — WriteResults

What `Write` returns on the synchronous streams, against what became of its batch: gRPC refuses the
batch, or it completes, with success or without.  `ClientSyncWriterHelper::SyncWrite` waits for the
completion and does not look at its success; `written_iff` says in which runs that does not show.

`BlockingWriter` is what the two synchronous streams have in common.  The asynchronous writers hear
of the same completions in `OnSent`, which puts an end to the writing (`Over`).
-/

namespace GrpcLua
open Prog Trace

/-- A `Write` that has returned: the answer of `StartBatch`, if a batch was submitted, the success
of the event that `Pluck` waits for, and what `Write` has returned. -/
structure Wrote where
  started : Option Bool
  success : Bool
  returned : Bool
  deriving DecidableEq, Repr

namespace Wrote

/-- The batch was started and completed successfully. -/
def delivered (w : Wrote) : Bool := w.started == some true && w.success

/-- The events of a `Write` whose batch completes with `success`. -/
def ofEvents {κ : Type} (evs : List (Event κ)) (success : Bool) : Wrote where
  started := evs.findSome? fun | .batch _ started => some started | _ => none
  success := success
  returned := evs.any fun | .wrote _ r => r | _ => false

end Wrote

/-- After a `Write` whose message was not delivered, a `Write` submits nothing and returns false. -/
def StaysBroken (pre : List Wrote) (w : Wrote) : Prop :=
  (∃ w' ∈ pre, w'.delivered = false) → w.started = none ∧ w.returned = false

instance (pre : List Wrote) (w : Wrote) : Decidable (StaysBroken pre w) :=
  inferInstanceAs (Decidable (_ → _))

/-- What is asked of the `Write`s of a stream: each returns whether its message was delivered, and
the first that was not breaks the stream, whose status is OK if `ok`. -/
structure Written (ok : Bool) (ws : List Wrote) : Prop where
  returned : ∀ w ∈ ws, w.returned = w.delivered
  broken : Whenever StaysBroken ws
  status : (∃ w ∈ ws, w.delivered = false) → ok = false

instance (ok : Bool) (ws : List Wrote) : Decidable (Written ok ws) :=
  decidable_of_iff ((∀ w ∈ ws, w.returned = w.delivered) ∧ Whenever StaysBroken ws ∧
      ((∃ w ∈ ws, w.delivered = false) → ok = false))
    ⟨fun ⟨hr, hb, hs⟩ => ⟨hr, hb, hs⟩, fun ⟨hr, hb, hs⟩ => ⟨hr, hb, hs⟩⟩

/-- Nothing has been written yet. -/
theorem Written.nil (ok : Bool) : Written ok [] where
  returned := by simp
  broken := whenever_nil
  status := by simp

/-- Without another `Write`, an error stays. -/
theorem Written.other {ok ok' : Bool} {ws : List Wrote} (h : Written ok ws)
    (hok : ok = false → ok' = false) : Written ok' ws :=
  { h with status := fun hw => hok (h.status hw) }

/-- A `Write` on a stream in error. -/
theorem Written.refuse {ws : List Wrote} (h : Written false ws) (success : Bool) :
    Written false (ws ++ [⟨none, success, false⟩]) where
  returned := by
    intro w hw
    rcases List.mem_append.mp hw with hw | hw
    · exact h.returned w hw
    · obtain rfl := List.mem_singleton.mp hw
      rfl
  broken := (whenever_concat _).mpr ⟨h.broken, fun _ => ⟨rfl, rfl⟩⟩
  status _ := rfl

/-- A `Write` whose batch is refused, or completes with success. -/
theorem Written.submit {ws : List Wrote} (h : Written true ws) {started success : Bool}
    (hs : started = true → success = true) :
    Written started (ws ++ [⟨some started, success, started⟩]) := by
  have hall : ∀ w ∈ ws, w.delivered = true := by
    intro w hw
    by_contra hd
    exact absurd (h.status ⟨w, hw, by simpa using hd⟩) (by simp)
  have hd : Wrote.delivered ⟨some started, success, started⟩ = started := by
    cases started with
    | true => exact hs rfl
    | false => rfl
  refine ⟨?_, (whenever_concat _).mpr ⟨h.broken, ?_⟩, ?_⟩
  · intro w hw
    rcases List.mem_append.mp hw with hw | hw
    · exact h.returned w hw
    · obtain rfl := List.mem_singleton.mp hw
      exact hd.symm
  · rintro ⟨w, hw, hf⟩
    exact absurd ((hall w hw).symm.trans hf) (by simp)
  · rintro ⟨w, hw, hf⟩
    rcases List.mem_append.mp hw with hw | hw
    · exact absurd ((hall w hw).symm.trans hf) (by simp)
    · obtain rfl := List.mem_singleton.mp hw
      exact hd.symm.trans hf

/-! ### Streams that block -/

/-- A stream whose `Write` waits for its batch.  In error, a `Write` submits nothing and returns
false, and the error stays; else it returns what `StartBatch` answers, and is in error if that is
false. -/
structure BlockingWriter (σ ℓ κ : Type) where
  exec : ℓ → EStateM Exit σ Unit
  /-- The call is a `Write`. -/
  writes : ℓ → Bool
  ok : σ → Bool
  trace : σ → List (Event κ)
  /-- What `StartBatch` will answer. -/
  start : σ → Bool
  write_ok : ∀ s l, writes l = true → ok s = true → wp (exec l)
    (fun _ s' => ok s' = start s ∧
      ∃ m, trace s' = trace s ++ [.batch [.sendMsg m] (start s), .wrote m (start s)])
    (fun _ _ => False) s
  write_error : ∀ s l, writes l = true → ok s = false → wp (exec l)
    (fun _ s' => ok s' = false ∧ ∃ m, trace s' = trace s ++ [.wrote m false])
    (fun _ _ => False) s
  error_stays : ∀ s l, ok s = false →
    wp (exec l) (fun _ s' => ok s' = false) (fun _ s' => ok s' = false) s

namespace BlockingWriter
variable {σ ℓ κ : Type} (W : BlockingWriter σ ℓ κ)

/-- The steps of a run: a call, and the success with which the batch completes that it submits. -/
abbrev step (l : ℓ × Bool) : EStateM Exit σ Unit := W.exec l.1

/-- The observer notes every `Write`. -/
def observe (s : σ) (l : ℓ × Bool) (s' : σ) (ws : List Wrote) : List Wrote :=
  if W.writes l.1 then ws ++ [.ofEvents ((W.trace s').drop (W.trace s).length) l.2] else ws

/-- The run, observed. -/
abbrev noted (l : ℓ × Bool) : EStateM Exit (σ × List Wrote) Unit :=
  Process.observed W.step W.observe l

/-- The batch of a `Write` is started, and completes without success. -/
def Drops (s : σ) (l : ℓ × Bool) : Prop :=
  W.writes l.1 = true ∧ W.ok s = true ∧ W.start s = true ∧ l.2 = false

/-- What the `Write`s of a run have come to. -/
def Tells (c : σ × List Wrote) : Prop := Written (W.ok c.1) c.2

variable {W} {s : σ} {ws : List Wrote} {l : ℓ × Bool}

/-- A step that drops nothing keeps what the results tell. -/
theorem tells_step (h : W.Tells (s, ws)) (hl : ¬ W.Drops s l) :
    wp (W.noted l) (fun _ => W.Tells) (fun _ => W.Tells) (s, ws) := by
  rw [Process.wp_observed]
  -- The note of a write is made of what the step has added to the trace.
  by_cases hw : W.writes l.1 = true
  · have hnote : ∀ s', W.observe s l s' ws =
        ws ++ [.ofEvents ((W.trace s').drop (W.trace s).length) l.2] := fun s' => if_pos hw
    cases hs : W.ok s with
    | true =>
        -- Gone well so far: a write is told of truly unless its completion is dropped.
        refine wp_mono (W.write_ok s l.1 hw hs) ?_ fun _ _ hf => hf.elim
        rintro _ s' ⟨hok, m, htrace⟩
        show Written (W.ok s') (W.observe s l s' ws)
        rw [hnote, htrace, List.drop_left, hok]
        have h' : Written true ws := hs ▸ h
        cases hstart : W.start s with
        | true =>
            have hsuccess : true = true → l.2 = true := by
              intro _
              by_contra hl₂
              exact hl ⟨hw, hs, hstart, by simpa using hl₂⟩
            exact h'.submit hsuccess
        | false =>
            have hsuccess : false = true → l.2 = true := fun hf => by cases hf
            exact h'.submit hsuccess
    | false =>
        -- In error, nothing is started and the write says so.
        refine wp_mono (W.write_error s l.1 hw hs) ?_ fun _ _ hf => hf.elim
        rintro _ s' ⟨hok, m, htrace⟩
        show Written (W.ok s') (W.observe s l s' ws)
        rw [hnote, htrace, List.drop_left, hok]
        exact (hs ▸ h : Written false ws).refuse l.2
  · -- A step that does not write makes no note.
    have hnote : ∀ s', W.observe s l s' ws = ws := fun s' => if_neg hw
    have hother : ∀ s', (W.ok s = false → W.ok s' = false) → W.Tells (s', W.observe s l s' ws) := by
      intro s' hok
      rw [hnote]
      exact h.other hok
    cases hs : W.ok s with
    | true =>
        have hopen : ∀ s', W.ok s = false → W.ok s' = false := fun s' h' =>
          absurd (hs.symm.trans h') (by simp)
        exact wp_mono (wp_true _ s) (fun _ s' _ => hother s' (hopen s'))
          (fun _ s' _ => hother s' (hopen s'))
    | false =>
        exact wp_mono (W.error_stays s l.1 hs) (fun _ s' hok => hother s' fun _ => hok)
          (fun _ s' hok => hother s' fun _ => hok)

/-- A `Write` whose batch is dropped returns true. -/
theorem not_tells_step (hl : W.Drops s l) :
    wp (W.noted l) (fun _ c => ¬ W.Tells c) (fun _ c => ¬ W.Tells c) (s, ws) := by
  rw [Process.wp_observed]
  obtain ⟨hw, hs, hstart, hsuccess⟩ := hl
  refine wp_mono (W.write_ok s l.1 hw hs) ?_ fun _ _ hf => hf.elim
  rintro _ s' ⟨-, m, htrace⟩ htells
  have hreturned := htells.returned (.ofEvents ((W.trace s').drop (W.trace s).length) l.2) (by
    show _ ∈ W.observe s l s' ws
    rw [observe, if_pos hw]
    exact List.mem_append_right _ (List.mem_singleton.mpr rfl))
  rw [htrace, List.drop_left, hstart, hsuccess] at hreturned
  exact absurd hreturned (by simp [Wrote.ofEvents, Wrote.delivered])

/-- The `Write`s of a run tell of their batches exactly if no batch is dropped. -/
theorem run_tells (s : σ) (ls : List (ℓ × Bool)) :
    (∀ pre, pre <+: ls → W.Tells (Process.after W.noted (.running (s, [])) pre).state) ↔
      Process.Along W.step (fun s l => ¬ W.Drops s l) (.running s) ls := by
  have hdrops : Process.Along W.noted (fun c l => ¬ W.Drops c.1 l) (.running (s, [])) ls ↔
      Process.Along W.step (fun s l => ¬ W.Drops s l) (.running s) ls :=
    Process.along_observed (P := fun s l => ¬ W.Drops s l) _ ls
  rw [← hdrops]
  refine Process.along_iff (I := W.Tells) (A := fun _ _ => True) (Q := W.Tells) (fun _ h => h)
    ?_ ?_ (Written.nil _) (.of_forall fun _ _ => trivial)
  · rintro ⟨s, ws⟩ l h - hl
    exact tells_step h hl
  · rintro ⟨s, ws⟩ l - - hl
    exact not_tells_step (not_not.mp hl)

end BlockingWriter

/-! ### The two synchronous streams -/

namespace SyncWriter

/-- `ClientSyncWriter` blocks. -/
def blocking : BlockingWriter SyncWriter Step Report where
  exec := Step.exec
  writes | .write _ => true | .close _ _ _ => false
  ok s := s.status.ok
  trace s := s.trace
  start s := s.starts.headD true
  write_ok := by
    rintro s (request | ⟨response, tag, cod⟩) hw hs
    · simp only [Step.exec, write, wp_bind, wp_get, wp_ite, wp_pure, wp_startBatch, wp_modify,
        wp_emit, env_eq, setEnv_eq, hs, Bool.not_true, Bool.false_eq_true, if_false]
      split
      case isTrue hstart =>
        rw [hstart]
        exact ⟨rfl, request, List.append_assoc _ _ _⟩
      case isFalse hstart =>
        rw [Bool.not_eq_true] at hstart
        rw [hstart]
        exact ⟨rfl, request, List.append_assoc _ _ _⟩
    · cases hw
  write_error := by
    rintro s (request | ⟨response, tag, cod⟩) hw hs
    · simp only [Step.exec, write, wp_bind, wp_get, wp_ite, wp_pure, wp_emit, env_eq, setEnv_eq, hs,
        Bool.not_false, if_true]
      exact ⟨trivial, request, rfl⟩
    · cases hw
  error_stays := by
    rintro s (request | ⟨response, tag, cod⟩) hs
    all_goals
      simp only [Step.exec, write, close, wp_bind, wp_get, wp_ite, wp_pure, wp_emit, env_eq,
        setEnv_eq, hs, Bool.not_false, if_true]

end SyncWriter

namespace SyncReaderWriter

/-- `ClientSyncReaderWriter` blocks. -/
def blocking : BlockingWriter SyncReaderWriter Step Ret where
  exec := Step.exec
  writes | .write _ => true | _ => false
  ok s := s.status.ok
  trace s := s.trace
  start s := s.starts.headD true
  write_ok := by
    intro s l hw hs
    cases l with
    | write request =>
        simp only [Step.exec, write, wp_bind, wp_get, wp_ite, wp_pure, wp_startBatch, wp_modify,
          wp_emit, env_eq, setEnv_eq, hs, Bool.not_true, Bool.false_eq_true, if_false]
        split
        case isTrue hstart =>
          rw [hstart]
          exact ⟨rfl, request, List.append_assoc _ _ _⟩
        case isFalse hstart =>
          rw [Bool.not_eq_true] at hstart
          rw [hstart]
          exact ⟨rfl, request, List.append_assoc _ _ _⟩
    | _ => cases hw
  write_error := by
    intro s l hw hs
    cases l with
    | write request =>
        simp only [Step.exec, write, wp_bind, wp_get, wp_ite, wp_pure, wp_emit, env_eq, setEnv_eq,
          hs, Bool.not_false, if_true]
        exact ⟨trivial, request, rfl⟩
    | _ => cases hw
  error_stays := by
    intro s l hs
    have hclose : wp closeWriting (fun _ s' => s'.status.ok = false)
        (fun _ s' => s'.status.ok = false) s := by
      simp only [closeWriting, wp_bind, wp_get, wp_ite, wp_pure, wp_modify, hs, Bool.not_false,
        if_true, ite_self]
    cases l with
    | setErrorStatus e =>
        simp only [Step.exec, setErrorStatus, wp_bind, wp_check, wp_modify]
        split
        case isTrue he => simpa using he
        case isFalse => exact hs
    | closeWriting => exact hclose
    | destroy => exact hclose
    | _ =>
        simp only [Step.exec, write, readOne, recvStatus, wp_bind, wp_get, wp_ite, wp_pure, wp_emit,
          env_eq, setEnv_eq, hs, Bool.not_false, if_true]

end SyncReaderWriter

/-! ### Streams with a queue -/

section noneSent
variable {κ : Type}

/-- From the one trace to the other, no batch is submitted and no message accepted. -/
def NoneSent (tr tr' : List (Event κ)) : Prop :=
  batches tr' = batches tr ∧ accepted tr' = accepted tr

theorem NoneSent.refl (tr : List (Event κ)) : NoneSent tr tr := ⟨rfl, rfl⟩

theorem NoneSent.trans {tr tr₁ tr₂ : List (Event κ)} (h : NoneSent tr tr₁) (h' : NoneSent tr₁ tr₂) :
    NoneSent tr tr₂ := ⟨h'.1.trans h.1, h'.2.trans h.2⟩

/-- An event that neither submits nor accepts a message. -/
theorem NoneSent.concat {tr tr' : List (Event κ)} (h : NoneSent tr tr') {e : Event κ}
    (hb : batches [e] = []) (ha : accepted [e] = []) : NoneSent tr (tr' ++ [e]) := by
  refine h.trans ⟨?_, ?_⟩
  · rw [batches_append, hb, List.append_nil]
  · rw [accepted_append, ha, List.append_nil]

end noneSent

namespace Writer

/-- The status is an error. -/
abbrev InError (s : Writer) : Prop := s.status.ok = false

abbrev SendsNone (s s' : Writer) : Prop := NoneSent s.trace s'.trace

/-- In error, the callback is called and nothing is sent. -/
theorem callCloseCb_sendsNone {k : Status → M Unit} (hk : ∀ st, Keeps InError SendsNone (k st))
    (msg : Bytes) : Keeps InError SendsNone (callCloseCb k msg) := by
  intro s hs
  simp only [callCloseCb, wp_bind, wp_get]
  cases s.closeCb with
  | none => exact ⟨hs, .refl _⟩
  | some n =>
      simp only [wp_bind, wp_emit, wp_modify, env_eq, setEnv_eq]
      have hcb : NoneSent s.trace (s.trace ++ [.called (.closeCb n s.status msg)]) :=
        (NoneSent.refl _).concat rfl rfl
      exact (hk s.status).wp
        (s := { s with trace := s.trace ++ [.called (.closeCb n s.status msg)] })
        hs (fun _ _ hs₁ h₁ => ⟨hs₁, hcb.trans h₁⟩) fun _ _ hs₁ h₁ => ⟨hs₁, hcb.trans h₁⟩

/-- In error, no call sends anything. -/
theorem call_sendsNone {k : Status → M Unit} (hk : ∀ st, Keeps InError SendsNone (k st))
    (c : Call) :
    Keeps InError SendsNone (c.exec k) := by
  intro s hs
  cases c with
  | write request =>
      simp only [Call.exec, Writer.write, wp_bind, wp_get, wp_ite, wp_pure, wp_emit, env_eq,
        setEnv_eq]
      rw [if_pos (by simp [show s.status.ok = false from hs])]
      exact ⟨hs, (NoneSent.refl _).concat rfl rfl⟩
  | close given =>
      have hclose : NoneSent s.trace (s.trace ++ [.called (.close given)]) :=
        (NoneSent.refl _).concat rfl rfl
      simp only [Call.exec, Writer.close, wp_bind, wp_get, wp_ite, wp_pure, wp_emit, wp_modify,
        env_eq, setEnv_eq]
      split
      · exact ⟨hs, hclose⟩
      rw [if_pos (by simp [show s.status.ok = false from hs])]
      exact (callCloseCb_sendsNone hk []).wp hs (fun _ _ hs₁ h₁ => ⟨hs₁, hclose.trans h₁⟩)
        fun _ _ hs₁ h₁ => ⟨hs₁, hclose.trans h₁⟩

/-- Nor does a callback, whatever it calls. -/
theorem prog_sendsNone (r : React) : Keeps InError SendsNone r.prog :=
  Reaction.keeps (R := SendsNone) (fun s => .refl s.trace) (fun _ _ _ => NoneSent.trans)
    (fun op _ _ hk => call_sendsNone hk op) r (Reaction.every_of_forall (fun _ _ => trivial) r)

/-- An error is for ever, and stops the batches. -/
theorem step_sendsNone (l : Step) : Keeps InError SendsNone l.exec := by
  intro s hs
  cases l with
  | call c cb => exact call_sendsNone (fun st => prog_sendsNone (cb st)) c s hs
  | sent success cb =>
      have hsent : ∀ m, NoneSent s.trace (s.trace ++ [.sent m success]) := fun m =>
        (NoneSent.refl _).concat rfl rfl
      simp only [Step.exec, onSent, wp_bind, wp_get, wp_modify, wp_emit, wp_check, wp_ite, env_eq,
        setEnv_eq]
      split
      · rw [if_pos (by simp [show s.status.ok = false from hs])]
        split <;> exact ⟨hs, hsent _⟩
      · exact ⟨hs, hsent _⟩
  | closed success tag cb =>
      have hclosed : NoneSent s.trace (s.trace ++ [.called (.closed tag)]) :=
        (NoneSent.refl _).concat rfl rfl
      simp only [Step.exec, onClosed, wp_bind, wp_get, wp_modify, wp_emit, wp_check, wp_ite, env_eq,
        setEnv_eq]
      rw [if_pos (by simp [show s.status.ok = false from hs])]
      split <;> exact ⟨hs, hclosed⟩

/-- `OnSent(false)` leaves an error. -/
theorem sent_fails {final : Status} {s : Writer} (h : Inv final s) (hsend : s.sending ≠ [])
    (cb : Status → React) :
    wp (Step.exec (.sent false cb)) (fun _ => InError) (fun _ => InError) s := by
  obtain ⟨m, q, -, hq⟩ := h.queue.flying_cases.resolve_left hsend
  have hcb : Keeps InError SendsNone (callCloseCb (fun st => (cb st).prog) []) :=
    callCloseCb_sendsNone (fun st => prog_sendsNone (cb st)) []
  simp only [Step.exec, onSent, tryToCallCloseCb, wp_bind, wp_get, wp_modify, wp_emit, wp_check,
    wp_ite, wp_pure, env_eq, setEnv_eq]
  rw [if_pos (by simp [hq])]
  split
  case isTrue hs =>
    have hs : InError s := by simpa using hs
    split <;> exact hs
  case isFalse =>
    rw [if_pos (by rfl), if_pos (by rfl)]
    split
    · exact hcb.wp (by rfl) (fun _ _ hs₁ _ => hs₁) fun _ _ hs₁ _ => hs₁
    · rfl

/-- Wherever a run comes to `OnSent(false)`, it leaves an error, and nothing is submitted or
accepted any more. -/
def EndsOnSent (starts : List Bool) (final : Status) : Prop :=
  ∀ pre cb post s, Legal (new starts final) (pre ++ .sent false cb :: post) →
    after (new starts final) pre = .running s →
    InError (after (new starts final) (pre ++ [.sent false cb])).state ∧
    InError (after (new starts final) (pre ++ .sent false cb :: post)).state ∧
    SendsNone (after (new starts final) (pre ++ [.sent false cb])).state
      (after (new starts final) (pre ++ .sent false cb :: post)).state

/-- A completion that fails makes the status an error, for good. -/
theorem ends_on_sent (starts : List Bool) (final : Status) : EndsOnSent starts final := by
  intro pre cb post s h hs
  obtain ⟨hpre, hpost⟩ := Process.along_append.mp h
  obtain ⟨s', hs', hI⟩ := run_keeps hpre
  rw [after] at hs hs'
  rw [hs] at hs' hpost
  cases hs'
  have hfails := Process.state_next (sent_fails hI hpost.1.1 cb)
  have hrun := Process.run_keeps (R := SendsNone) (fun s => .refl s.trace)
    (fun _ _ _ => NoneSent.trans) step_sendsNone hfails post
  simp only [after, Process.after_append, hs]
  exact ⟨hfails, hrun⟩

end Writer

namespace ReaderWriter

/-- The status is an error. -/
abbrev InError (s : ReaderWriter) : Prop := s.status.ok = false

abbrev SendsNone (s s' : ReaderWriter) : Prop := NoneSent s.trace s'.trace

/-- In error no callback is invoked, but the assertions of `write` and `OnSent` may fail. -/
theorem call_sendsNone (k : Status → M Status) (c : Call) : Keeps InError SendsNone (c.exec k) := by
  -- Each call looks at the status before it starts anything, if only in `InitIfNot`.
  intro s hs
  have hok : s.status.ok = false := hs
  have hclose : wp (ReaderWriter.closeWriting k) (fun _ s' => InError s' ∧ SendsNone s s')
      (fun _ s' => InError s' ∧ SendsNone s s') s := by
    simp only [ReaderWriter.closeWriting, wp_bind, wp_get, wp_ite, wp_pure, wp_modify]
    split
    · exact ⟨hs, .refl _⟩
    · rw [if_pos (by simp [hok])]
      exact ⟨hs, .refl _⟩
  have hinit : ∀ s₁ : ReaderWriter, InError s₁ →
      wp (initIfNot k) (fun _ s' => InError s' ∧ s'.trace = s₁.trace) (fun _ _ => False) s₁ := by
    intro s₁ hs₁
    simp only [initIfNot, wp_bind, wp_get, wp_ite, wp_pure, wp_modify]
    split
    · exact ⟨hs₁, trivial⟩
    · rw [if_pos (by simp [show s₁.status.ok = false from hs₁])]
      exact ⟨hs₁, trivial⟩
  cases c with
  | write msg =>
      simp only [Call.exec, ReaderWriter.write, wp_bind, wp_get, wp_ite, wp_pure, wp_check, wp_emit,
        env_eq, setEnv_eq]
      refine wp_mono (hinit s hs) ?_ fun _ _ hf => hf.elim
      rintro _ s₁ ⟨hs₁, htrace⟩
      rw [if_pos (by simp [show s₁.status.ok = false from hs₁])]
      split
      · refine ⟨hs₁, ?_⟩
        show NoneSent s.trace (s₁.trace ++ [.wrote msg false])
        rw [htrace]
        exact (NoneSent.refl _).concat rfl rfl
      · refine ⟨hs₁, ?_⟩
        rw [SendsNone, htrace]
        exact .refl _
  | closeWriting => exact hclose
  | readEach msgCb =>
      simp only [Call.exec, ReaderWriter.readEach, wp_bind, wp_get, wp_ite, wp_pure, wp_modify]
      split
      · exact ⟨hs, .refl _⟩
      · refine wp_mono (hinit _ (by exact hs)) ?_ fun _ _ hf => hf.elim
        rintro _ s₁ ⟨hs₁, htrace⟩
        rw [if_pos (by simp [show s₁.status.ok = false from hs₁]), SendsNone, htrace]
        exact ⟨hs₁, .refl _⟩
  | setErrorStatus e =>
      simp only [Call.exec, ReaderWriter.setErrorStatus, wp_bind, wp_get, wp_ite, wp_check,
        wp_modify]
      split
      case isTrue he =>
        rw [if_neg (by simp [hok])]
        exact ⟨by simpa using he, .refl _⟩
      case isFalse => exact ⟨hs, .refl _⟩
  | destroyWrapper =>
      simp only [Call.exec, wp_bind, wp_modify]
      exact wp_mono hclose (fun _ _ h => h) fun _ _ h => h

/-- An error is for ever, and stops the batches. -/
theorem step_sendsNone (l : Step) : Keeps InError SendsNone l.exec := by
  intro s hs
  have hok : s.status.ok = false := hs
  cases l with
  | call c cb => exact call_sendsNone _ c s hs
  | sent success cb =>
      have hsent : ∀ m, NoneSent s.trace (s.trace ++ [.sent m success]) := fun m =>
        (NoneSent.refl _).concat rfl rfl
      simp only [Step.exec, onSent, wp_bind, wp_get, wp_modify, wp_emit, wp_check, wp_ite, env_eq,
        setEnv_eq]
      split
      · rw [if_pos (by simp [hok])]
        split <;> exact ⟨hs, hsent _⟩
      · exact ⟨hs, hsent _⟩
  | read success tag onMsg cb =>
      simp only [Step.exec, onRead, wp_bind, wp_get, wp_modify, wp_check, wp_ite]
      split
      · rw [if_pos (by simp [hok])]
        split <;> exact ⟨hs, .refl _⟩
      · exact ⟨hs, .refl _⟩

/-- `OnSent(false)` leaves an error. -/
theorem sent_fails {given : Bool} {s : ReaderWriter} (h : Inv given s) (hsend : s.sending ≠ [])
    (cb : Status → React) :
    wp (Step.exec (.sent false cb)) (fun _ => InError) (fun _ => InError) s := by
  obtain ⟨m, q, hf, hq⟩ := h.queue.flying_cases.resolve_left hsend
  have hcb : ∀ st, Keeps InError SendsNone ((cb st).prog) := fun st =>
    Reaction.keeps (R := SendsNone) (fun s => .refl s.trace) (fun _ _ _ => NoneSent.trans)
      (fun op _ _ _ => call_sendsNone _ op) (cb st)
      (Reaction.every_of_forall (fun _ _ => trivial) _)
  by_cases hs : s.status.ok = true
  case neg =>
    have hs : s.status.ok = false := by simpa using hs
    rw [wp_sent_inError hf hq hs]
    split <;> exact hs
  rw [wp_sent_failure hf hq hs]
  simp only [setInternalError, endOnErrorStatus, callStatusCb, wp_bind, wp_get, wp_modify, wp_emit,
    wp_check, wp_ite, wp_pure, env_eq, setEnv_eq]
  rw [if_pos hs, if_pos (by rfl), if_pos hs]
  split
  · exact (hcb _).wp (by rfl) (fun _ _ hs₁ _ => hs₁) fun _ _ hs₁ _ => hs₁
  · rfl

/-- Wherever a run comes to `OnSent(false)`, it leaves an error, and nothing is submitted or
accepted any more. -/
def EndsOnSent (statusCb : Bool) (starts : List Bool) (final : Status) : Prop :=
  ∀ pre cb post s, Legal (new statusCb starts final) (pre ++ .sent false cb :: post) →
    after (new statusCb starts final) pre = .running s →
    InError (after (new statusCb starts final) (pre ++ [.sent false cb])).state ∧
    InError (after (new statusCb starts final) (pre ++ .sent false cb :: post)).state ∧
    SendsNone (after (new statusCb starts final) (pre ++ [.sent false cb])).state
      (after (new statusCb starts final) (pre ++ .sent false cb :: post)).state

/-- A completion that fails makes the status an error, for good. -/
theorem ends_on_sent (statusCb : Bool) (starts : List Bool) (final : Status) :
    EndsOnSent statusCb starts final := by
  intro pre cb post s h hs
  obtain ⟨hpre, hpost⟩ := Process.along_append.mp h
  have hI := run_keeps hpre
  rw [after] at hs
  rw [after, hs] at hI
  rw [hs] at hpost
  have hfails := Process.state_next (sent_fails hI hpost.1 cb)
  have hrun := Process.run_keeps (R := SendsNone) (fun s => .refl s.trace)
    (fun _ _ _ => NoneSent.trans) step_sendsNone hfails post
  simp only [after, Process.after_append, hs]
  exact ⟨hfails, hrun⟩

end ReaderWriter

/-! ### The four streams -/

/-- **`Write`.**  Whatever is called besides, whichever batches gRPC refuses and whichever complete
without success: the `Write`s of a synchronous stream tell what became of their batches exactly if
no batch that was started completes without success.  The asynchronous writers are told of such a
completion, and submit and accept nothing after it. -/
theorem written_iff (starts : List Bool) (final : Status) :
    (∀ ls : List (SyncWriter.Step × Bool),
      (∀ pre, pre <+: ls → SyncWriter.blocking.Tells
        (Process.after SyncWriter.blocking.noted (.running (.new starts final, [])) pre).state) ↔
      Process.Along SyncWriter.blocking.step (fun s l => ¬ SyncWriter.blocking.Drops s l)
        (.running (.new starts final)) ls) ∧
    (∀ ls : List (SyncReaderWriter.Step × Bool),
      (∀ pre, pre <+: ls → SyncReaderWriter.blocking.Tells
        (Process.after SyncReaderWriter.blocking.noted (.running (.new starts final, []))
          pre).state) ↔
      Process.Along SyncReaderWriter.blocking.step
        (fun s l => ¬ SyncReaderWriter.blocking.Drops s l)
        (.running (.new starts final)) ls) ∧
    Writer.EndsOnSent starts final ∧
    ∀ statusCb, ReaderWriter.EndsOnSent statusCb starts final :=
  ⟨fun ls => BlockingWriter.run_tells _ ls, fun ls => BlockingWriter.run_tells _ ls,
    Writer.ends_on_sent starts final,
    fun statusCb => ReaderWriter.ends_on_sent statusCb starts final⟩

/-- The second message is refused by gRPC, the third one is not submitted. -/
theorem written_iff_refused :
    let ls : List (SyncWriter.Step × Bool) :=
      [(.write [1], true), (.write [2], true), (.write [3], true)]
    (∀ pre, pre <+: ls → SyncWriter.blocking.Tells
      (Process.after SyncWriter.blocking.noted (.running (.new [true, true, false] .OK, []))
        pre).state) ↔
    Process.Along SyncWriter.blocking.step (fun s l => ¬ SyncWriter.blocking.Drops s l)
      (.running (.new [true, true, false] .OK)) ls :=
  (written_iff [true, true, false] .OK).1 _

/-- The connection is lost under the first message: `Write` returns true, the status stays OK and
the next `Write` submits its batch. -/
theorem not_written :
    (Process.after SyncWriter.blocking.noted (.running (.new [] .OK, []))
      [(.write [1], false), (.write [2], false)]).state.2 =
        [⟨some true, false, true⟩, ⟨some true, false, true⟩] ∧
    ¬ Written true [⟨some true, false, true⟩, ⟨some true, false, true⟩] ∧
    ¬ SyncWriter.blocking.Tells (Process.after SyncWriter.blocking.noted
      (.running (.new [] .OK, [])) [(.write [1], false)]).state ∧
    ¬ SyncReaderWriter.blocking.Tells (Process.after SyncReaderWriter.blocking.noted
      (.running (.new [] .OK, [])) [(.write [1], false)]).state := by
  refine ⟨by rfl, by decide, fun h => ?_, fun h => ?_⟩
  · exact absurd (h.returned ⟨some true, false, true⟩ (List.mem_singleton.mpr rfl)) (by decide)
  · exact absurd (h.returned ⟨some true, false, true⟩ (List.mem_singleton.mpr rfl)) (by decide)

end GrpcLua
