import GrpcLua.Client.ReaderWriter.Traffic

/-!
# Client — ReaderWriter — StatusCb

How often `status_cb_` is invoked.  Two steps go wrong.  `CloseWriting()` with nothing left to
send ends the writing without looking whether the reading has ended, as `OnSent` does, and the
status is lost (`Loses`).  And `CallStatusCb` resets `status_cb_` only after it has returned, so
that a `SetErrorStatus` that finds the status still OK hands on a second one (`Repeats`): from
inside the callback, or after the callback has raised an exception.
-/

namespace GrpcLua.ReaderWriter
open Prog Trace

variable {given : Bool} {s s' : ReaderWriter}

/-- The step closes the writing at once, after the reading has ended. -/
def Loses (s : ReaderWriter) : Step → Bool
  | .call c _ =>
      c.closesWriting && s.status.ok && !s.writingClosing && s.msgQueue.isEmpty &&
        s.starts.headD true && s.readingEnded
  | _ => false

/-- The reaction comes to set an error status.  An OK status fails the assertion. -/
def SetsError : React → Bool
  | .ret _ => false
  | .raise => false
  | .call (.setErrorStatus e) _ _ => !e.ok
  | .call _ _ rest => SetsError rest

/-- The step sets an error status when an OK status has been handed to a `status_cb_` that is not
reset yet. -/
def Repeats (s : ReaderWriter) : Step → Bool
  | .call (.setErrorStatus e) _ =>
      !e.ok && s.status.ok && s.statusCb && !(statuses s.trace).isEmpty
  | .call _ _ => false
  | .sent success cb => EndsBoth s (.sent success cb) && s.statusCb && SetsError (cb .OK)
  | .read success tag onMsg cb =>
      EndsBoth s (.read success tag onMsg cb) && s.statusCb && SetsError (cb .OK)

/-! ### After both directions have ended -/

/-- Both directions have ended without error, and the status has been handed on. -/
structure Settled (given : Bool) (s : ReaderWriter) : Prop where
  inv : Inv given s
  ok : s.status.ok = true
  readingEnded : s.readingEnded = true
  writingEnded : s.writingEnded = true

theorem Inv.settled (h : Inv given s) (hs : s.status.ok = true) (ht : statuses s.trace ≠ []) :
    Settled given s := by
  rcases h.said ht with hf | ⟨hr, hw⟩
  · exact absurd (hf.symm.trans hs) (by simp)
  · exact ⟨h, hs, hr, hw⟩

/-- A call that sets no error finds nothing left to do. -/
theorem Settled.call (h : Settled given s) {k : Status → M Status} (c : Call)
    (hc : ∀ e, c ≠ .setErrorStatus e) :
    wp (c.exec k) (fun _ s' => Settled given s' ∧ statuses s'.trace = statuses s.trace)
      (fun _ _ => False) s := by
  obtain ⟨hinited, hstarted, -⟩ := h.inv.ended_reading h.ok h.readingEnded
  have hclosing := h.inv.close_closing (h.inv.ended_close h.ok h.writingEnded)
  cases c with
  | write msg =>
      simp only [Call.exec, ReaderWriter.write, initIfNot, wp_bind, wp_get, wp_ite, wp_pure,
        wp_emit, env_eq, setEnv_eq]
      rw [if_pos hinited, if_neg (by simp [h.ok]), if_pos (by simp [hclosing])]
      refine ⟨{ h with inv := ?_ }, by simp [statuses]⟩
      exact h.inv.event rfl rfl rfl rfl trivial rfl trivial
  | closeWriting =>
      simp only [Call.exec, ReaderWriter.closeWriting, wp_bind, wp_get, wp_ite, wp_pure]
      rw [if_pos hclosing]
      exact ⟨h, trivial⟩
  | readEach msgCb =>
      simp only [Call.exec, ReaderWriter.readEach, wp_bind, wp_get, wp_ite, wp_pure]
      rw [if_pos hstarted]
      exact ⟨h, trivial⟩
  | setErrorStatus e => exact absurd rfl (hc e)
  | destroyWrapper =>
      simp only [Call.exec, ReaderWriter.closeWriting, wp_bind, wp_get, wp_ite, wp_pure, wp_modify]
      rw [if_pos hclosing]
      exact ⟨{ h with inv := { h.inv with unwrapped := fun _ => hclosing } }, trivial⟩

/-- `SetErrorStatus(error_status)` asserts that it is given an error. -/
theorem wp_setErrorStatus_OK {k : Status → M Status} {Q : Unit → ReaderWriter → Prop}
    {E : Exit → ReaderWriter → Prop} {e : Status} (he : e.ok = true) :
    wp (setErrorStatus k e) Q E s ↔ E .assertion s := by
  simp only [setErrorStatus, wp_bind, wp_check]
  rw [if_neg (by simp [he])]

/-- A reaction that sets no error status hands on no further status. -/
theorem Settled.prog : ∀ (r : React) {s : ReaderWriter}, Settled given s → SetsError r = false →
    wp r.prog (fun _ s' => statuses s'.trace = statuses s.trace)
      (fun _ s' => statuses s'.trace = statuses s.trace) s
  | .ret _, _, _, _ => rfl
  | .raise, _, _, _ => rfl
  | .call c inner rest, s, h, hr => by
      simp only [React.prog, Reaction.run, wp_bind]
      by_cases hc : ∃ e, c = .setErrorStatus e
      · obtain ⟨e, rfl⟩ := hc
        exact (wp_setErrorStatus_OK (by simpa [SetsError] using hr)).mpr rfl
      · have hrest : SetsError rest = false := by
          cases c with
          | setErrorStatus e => exact absurd ⟨e, rfl⟩ hc
          | _ => exact hr
        refine wp_mono (h.call c fun e he => hc ⟨e, he⟩) ?_ fun _ _ h' => h'.elim
        rintro _ s₁ ⟨h₁, ht₁⟩
        exact wp_mono (Settled.prog rest h₁ hrest) (fun _ _ h' => h'.trans ht₁)
          fun _ _ h' => h'.trans ht₁

/-! ### At most once -/

/-- `status_cb_` is invoked at most once, and `msg_cb_` not after it. -/
structure Once (s : ReaderWriter) : Prop where
  once : (statuses s.trace).length ≤ 1
  msgs_first : Whenever MsgsFirst s.trace

/-- An operation that finds nothing to repeat. -/
theorem Moves.at_most_one (h : Moves s s') (hone : (ReaderWriter.statuses s.trace).length ≤ 1)
    (hu : s.status.ok = true → s.statusCb = true → ReaderWriter.statuses s.trace = []) :
    (ReaderWriter.statuses s'.trace).length ≤ 1 := by
  rcases h.statuses with ht | ⟨hs, -, hset, st, ht⟩
  · rw [ht]
    exact hone
  · rw [ht, hu hs hset]
    exact Nat.le_refl 1

/-- A completion finds an error, or that no status has been handed on. -/
theorem Inv.completes (h : Inv given s) (hl : s.sending ≠ [] ∨ 0 < s.reading)
    (hs : s.status.ok = true) : statuses s.trace = [] := by
  refine h.untold hs ?_
  rcases hl with hl | hl
  · refine .inr (Bool.eq_false_iff.mpr fun hw => ?_)
    exact absurd ((h.queue.open_of_flying hl).symm.trans (h.ended_close hs hw)) (by simp)
  · refine .inl (Bool.eq_false_iff.mpr fun hr => ?_)
    have := (h.ended_reading hs hr).2.2
    omega

/-- The last callback, under a reaction that sets no error status. -/
theorem last_once {l : Step} {cb : Status → React} (h : Last given l s s')
    (hone : (statuses s'.trace).length ≤ 1)
    (hr : EndsBoth s l = true → s.statusCb = true → SetsError (cb .OK) = false) :
    wp (callStatusCb fun st => (cb st).prog)
      (fun _ s₁ => Inv given s₁ ∧ (statuses s₁.trace).length ≤ 1)
      (fun _ s₁ => Inv given s₁ ∧ (statuses s₁.trace).length ≤ 1) s' := by
  have hends : s'.status.ok = false ∨ s'.readingEnded = true ∧ s'.writingEnded = true :=
    .inr ⟨h.readingEnded, h.writingEnded⟩
  have hI := wp_callStatusCb (fun st => prog_keeps (cb st)) h.inv.toBase hends
  -- Told once, the callback can only be told again if it sets an error itself.
  have hcount : wp (callStatusCb fun st => (cb st).prog)
      (fun _ s₁ => (statuses s₁.trace).length ≤ 1) (fun _ s₁ => (statuses s₁.trace).length ≤ 1)
      s' := by
    simp only [callStatusCb, wp_bind, wp_get, wp_ite, wp_emit, env_eq, setEnv_eq, wp_modify,
      wp_pure]
    by_cases hset : s'.statusCb = true
    · rw [if_pos hset]
      obtain ⟨⟨hl, hs⟩, ht⟩ := h.untold.resolve_right (by simp [hset])
      have hsettled : Settled given
          { s' with trace := s'.trace ++ [.called (.statusCb s'.status)] } :=
        ⟨{ h.inv.toBase.notify hends with told := fun _ _ => by simp [statuses] }, hs,
          h.readingEnded, h.writingEnded⟩
      have hr' : SetsError (cb s'.status) = false := by
        rw [h.inv.status_OK hs]
        exact hr hl (h.moves.unset hset)
      have hlen : (statuses (s'.trace ++ [.called (.statusCb s'.status)])).length ≤ 1 := by
        rw [statuses_append, ht]
        exact Nat.le_refl 1
      refine wp_mono (hsettled.prog _ hr') ?_ ?_
      · rintro _ s₁ ht₁
        rw [← ht₁] at hlen
        exact hlen
      · rintro _ s₁ ht₁
        rw [← ht₁] at hlen
        exact hlen
    · rw [if_neg hset]
      exact hone
  exact wp_mono (wp_and hI hcount) (fun _ _ h' => ⟨h'.1.1.1, h'.2⟩) fun _ _ h' => ⟨h'.1.1, h'.2⟩

/-- A step that repeats no status keeps the count. -/
theorem step_once (h : Inv given s) (hone : (statuses s.trace).length ≤ 1) (l : Step)
    (hl : Step.Enabled s l) (hr : Repeats s l = false) :
    wp l.exec (fun _ s' => Inv given s' ∧ (statuses s'.trace).length ≤ 1)
      (fun _ s' => Inv given s' ∧ (statuses s'.trace).length ≤ 1) s := by
  -- A call or the quiet part of a completion.
  have hmoves : ∀ {s'}, Inv given s' → Moves s s' →
      (s.status.ok = true → s.statusCb = true → statuses s.trace = []) →
      Inv given s' ∧ (statuses s'.trace).length ≤ 1 :=
    fun hI hm hu => ⟨hI, hm.at_most_one hone hu⟩
  cases l with
  | call c cb =>
      have hk : ∀ st, Keeps (Inv given) Grows (cb st).prog := fun st => prog_keeps (cb st)
      by_cases hu : s.status.ok = true → s.statusCb = true → statuses s.trace = []
      · -- Whatever the call tells is the first thing told, or the object is in error already.
        exact wp_mono (wp_call hk h c) (fun _ _ h' => hmoves h'.1.1 h'.1.2.toMoves hu)
          fun _ _ h' => hmoves h'.1.1 h'.1.2.toMoves hu
      obtain ⟨hs, hset, ht⟩ : s.status.ok = true ∧ s.statusCb = true ∧ statuses s.trace ≠ [] := by
        simpa using hu
      by_cases hc : ∃ e, c = .setErrorStatus e
      · -- A callback that raised was told OK and is still set: an error would be told to it too.
        obtain ⟨e, rfl⟩ := hc
        have he : e.ok = true := by simpa [Repeats, hs, hset, ht] using hr
        exact (wp_setErrorStatus_OK he).mpr ⟨h, hone⟩
      · refine wp_mono ((h.settled hs ht).call c fun e he => hc ⟨e, he⟩) ?_ fun _ _ h' => h'.elim
        rintro _ s' ⟨h', ht'⟩
        exact ⟨h'.inv, by rw [ht']; exact hone⟩
  | sent success cb =>
      have hu := fun hs (_ : s.statusCb = true) => h.completes (.inl hl) hs
      refine wp_sent h hl success cb (fun _ h' => hmoves h'.inv h'.moves hu)
        (fun _ _ h' => hmoves h'.inv h'.moves hu) fun s' h' => ?_
      refine last_once h' (h'.moves.at_most_one hone hu) fun hends hset => ?_
      simpa [Repeats, hends, hset] using hr
  | read success tag onMsg cb =>
      have hu := fun hs (_ : s.statusCb = true) => h.completes (.inr hl) hs
      refine wp_read h hl success tag onMsg cb (fun _ h' => hmoves h'.inv h'.moves hu)
        (fun _ _ h' => hmoves h'.inv h'.moves hu) fun s' h' => ?_
      refine last_once h' (h'.moves.at_most_one hone hu) fun hends hset => ?_
      simpa [Repeats, hends, hset] using hr

/-- **At most once.**  Where no step repeats it, the status is handed on at most once, and no
message after it; what the callbacks do is arbitrary. -/
theorem told_at_most_once (statusCb : Bool) (starts : List Bool) (final : Status) (ls : List Step)
    (h : Legal (new statusCb starts final) ls)
    (hr : Process.Along Step.exec (fun s l => Repeats s l = false)
      (.running (new statusCb starts final)) ls) :
    Once (after (new statusCb starts final) ls).state := by
  have hI := Process.invariant_state
    (I := fun s => Inv statusCb s ∧ (statuses s.trace).length ≤ 1)
    (P := fun s l => Step.Enabled s l ∧ Repeats s l = false)
    (fun s l hI hl => step_once hI.1 hI.2 l hl.1 hl.2)
    (c := .running (new statusCb starts final)) ⟨Inv.new _ _ _, Nat.zero_le 1⟩ (h.and hr)
  exact ⟨hI.2, hI.1.msgs_first⟩

/-- One message, a half-close and a read; the callback that is told of the end sets an error. -/
def settingRun : List Step :=
  [.call (.write [1]) idle, .call .closeWriting idle, .call (.readEach false) idle,
    .sent true idle,
    .read true ⟨none⟩ (fun _ => .ret .OK)
      fun _ => .call (.setErrorStatus (.internalError [])) idle (.ret .OK)]

/-- The callback is invoked with the OK status, and again with the error it sets. -/
theorem told_twice :
    Legal (new true [] .OK) settingRun ∧ ¬ Once (after (new true [] .OK) settingRun).state :=
  ⟨by decide, fun h => absurd h.once (by decide)⟩

theorem told_at_most_once_settingLater :
    Once (after (new true [] .OK) (settingRun.take 4 ++
      [.read true ⟨none⟩ (fun _ => .ret .OK) idle,
        .call (.setErrorStatus (.internalError [])) idle])).state :=
  told_at_most_once true [] .OK _ (by decide) (by decide)

/-! ### Exactly once -/

/-- The reaction calls nothing. -/
def Plain : React → Prop
  | .call _ _ _ => False
  | _ => True

theorem Plain.setsError : ∀ {r : React}, Plain r → SetsError r = false
  | .ret _, _ => rfl
  | .raise, _ => rfl

/-- The callbacks of the step do not call the object. -/
def Step.Plain : Step → Prop
  | .call _ cb => ∀ st, ReaderWriter.Plain (cb st)
  | .sent _ cb => ∀ st, ReaderWriter.Plain (cb st)
  | .read _ _ onMsg cb =>
      (∀ msg, ReaderWriter.Plain (onMsg msg)) ∧ ∀ st, ReaderWriter.Plain (cb st)

/-- Once both directions have ended, `status_cb_` has been invoked exactly once. -/
def Told (s : ReaderWriter) : Prop :=
  s.readingEnded = true → s.writingEnded = true → (statuses s.trace).length = 1

/-- Once both directions have ended, `status_cb_` has been invoked. -/
def Heard (s : ReaderWriter) : Prop :=
  s.readingEnded = true → s.writingEnded = true → statuses s.trace ≠ []

/-- A step that does not lose the status has it told when the second direction ends. -/
theorem step_heard (h : Inv true s) (hh : Heard s) (l : Step) (hl : Step.Enabled s l)
    (hlose : Loses s l = false) : wp l.exec (fun _ => Heard) (fun _ => Heard) s := by
  -- A step that does not end both directions leaves the promise as it was.
  have hquiet : ∀ {s'}, Quiet true s s' → Heard s' := by
    intro s' q hr hw
    by_cases hs : s'.status.ok = true
    · obtain ⟨hr₀, hw₀⟩ := q.ended hs hr hw
      exact q.moves.told (hh hr₀ hw₀)
    · exact q.inv.told rfl (by simpa using hs)
  -- One that does calls the callback at its end.
  have hlast : ∀ {s'} {cb : Status → React}, Last true l s s' →
      wp (callStatusCb fun st => (cb st).prog) (fun _ => Heard) (fun _ => Heard) s' := by
    intro s' cb q
    have hn : statuses (notified s').trace ≠ [] := by
      unfold notified
      split
      case isTrue => simp [statuses]
      case isFalse hset => exact q.inv.unset rfl (by simpa using hset)
    exact wp_mono (wp_callStatusCb (fun st => prog_keeps (cb st)) q.inv.toBase
      (.inr ⟨q.readingEnded, q.writingEnded⟩)) (fun _ _ k _ _ => k.1.2.told hn)
      fun _ _ k _ _ => k.2.told hn
  cases l with
  | call c cb =>
      refine wp_mono (wp_call (fun st => prog_keeps (cb st)) h c) ?_ ?_
      · rintro _ s' ⟨⟨hI, g⟩, hclose⟩ hr hw
        by_cases hs : s'.status.ok = true
        · -- The close was refused, and this is where the status is lost.
          rcases hclose hs hw with hw₀ | ⟨hc, hclosing, hq, hstart⟩
          · exact g.told (hh ((g.ended hs).symm.trans hr) hw₀)
          · have hr₀ := (g.ended hs).symm.trans hr
            have hlost : Loses s (.call c cb) = true := by
              simp only [Loses, hc, g.ok hs, hclosing, hq, hstart, hr₀]
              rfl
            exact absurd (hlose.symm.trans hlost) (by simp)
        · exact hI.told rfl (by simpa using hs)
      · rintro _ s' ⟨⟨hI, g⟩, hsame⟩
        by_cases hs : s'.status.ok = true
        · rw [hsame hs]
          exact hh
        · exact fun _ _ => hI.told rfl (by simpa using hs)
  | sent success cb =>
      exact wp_sent h hl success cb (fun _ => hquiet) (fun _ _ => hquiet) fun _ => hlast
  | read success tag onMsg cb =>
      exact wp_read h hl success tag onMsg cb (fun _ => hquiet) (fun _ _ => hquiet) fun _ => hlast

/-- Closing the writing after the reading has ended ends the call without a word to `status_cb_`. -/
theorem close_ends (h : Inv given s) (c : Call) (cb : Status → React)
    (hlose : Loses s (.call c cb) = true) :
    wp (Step.exec (.call c cb))
      (fun _ s' => (s'.readingEnded = true ∧ s'.writingEnded = true ∧ statuses s'.trace = []) ∧
        s'.statusCb = s.statusCb ∧ s'.readingStarted = s.readingStarted ∧ s'.reading = s.reading)
      (fun _ _ => False) s := by
  simp only [Loses, Bool.and_eq_true, Bool.not_eq_true', List.isEmpty_iff] at hlose
  obtain ⟨⟨⟨⟨⟨hc, hs⟩, hclosing⟩, hq⟩, hstart⟩, hr⟩ := hlose
  have hclose := (h.not_closed (by simp [hclosing])).1
  have hw : s.writingEnded = false := by
    by_contra hw
    exact absurd (hclose.symm.trans (h.ended_close hs (by simpa using hw))) (by simp)
  have ht := h.untold hs (.inr hw)
  have hends : wp (closeWriting fun st => (cb st).prog)
      (fun _ s' => (s'.readingEnded = true ∧ s'.writingEnded = true ∧ statuses s'.trace = []) ∧
        s'.statusCb = s.statusCb ∧ s'.readingStarted = s.readingStarted ∧ s'.reading = s.reading)
      (fun _ _ => False) s := by
    simp only [closeWriting, sendClose, wp_bind, wp_get, wp_ite, wp_pure, wp_modify, wp_check,
      wp_submit]
    rw [if_neg (by simp [hclosing]), if_neg (by simp [hs]), if_neg (by simp [hq])]
    rw [if_pos (by simp [hclose]), if_pos trivial, if_pos (by simp [hclose]), if_pos hs,
      if_pos hstart, if_pos trivial]
    have ht' :
        statuses (submitted s [.clientSendClose] (s.starts.headD true)).trace = [] := by
      rw [statuses_append, ht]
      rfl
    exact ⟨⟨hr, trivial, ht'⟩, trivial, trivial, trivial⟩
  cases c with
  | closeWriting => exact hends
  | destroyWrapper =>
      simp only [Step.exec, Call.exec, wp_bind, wp_modify]
      exact hends
  | _ => simp [Call.closesWriting] at hc

theorem close_loses (h : Inv given s) (c : Call) (cb : Status → React)
    (hlose : Loses s (.call c cb) = true) :
    wp (Step.exec (.call c cb)) (fun _ s' => ¬ Told s') (fun _ s' => ¬ Told s') s := by
  refine wp_mono (close_ends h c cb hlose) ?_ fun _ _ hf => hf.elim
  rintro _ s' ⟨⟨hr, hw, ht⟩, -⟩ hT
  exact absurd ((congrArg List.length ht).symm.trans (hT hr hw)) (by simp)

/-- Setting an error where the callback is not reset hands on a second status. -/
theorem setErrorStatus_repeats (h : Inv given s) (e : Status) (cb : Status → React)
    (hp : ∀ st, Plain (cb st)) (hr : Repeats s (.call (.setErrorStatus e) cb) = true) :
    wp (Step.exec (.call (.setErrorStatus e) cb)) (fun _ s' => ¬ Told s')
      (fun _ s' => ¬ Told s') s := by
  simp only [Repeats, Bool.and_eq_true, Bool.not_eq_true', List.isEmpty_eq_false_iff] at hr
  obtain ⟨⟨⟨he, hs⟩, hset⟩, ht⟩ := hr
  obtain ⟨-, -, hre, hwe⟩ := h.settled hs ht
  have hlen : (statuses (s.trace ++ [.called (.statusCb e)])).length ≠ 1 := by
    have := List.length_pos_iff.mpr ht
    rw [statuses_append, List.length_append,
      show (statuses [.called (.statusCb e)]).length = 1 from rfl]
    omega
  have hplain := hp e
  simp only [Step.exec, Call.exec, ReaderWriter.setErrorStatus, endOnErrorStatus, callStatusCb,
    wp_bind, wp_get, wp_ite, wp_pure, wp_modify, wp_check, wp_emit, env_eq, setEnv_eq]
  rw [if_pos (by simp [he]), if_pos hs, if_pos (by simp [he]), if_pos hs, if_pos hset]
  cases hcb : cb e with
  | ret a => exact fun hT => hlen (hT rfl rfl)
  | raise => exact fun hT => hlen (hT hre hwe)
  | call op inner rest => rw [hcb] at hplain; exact hplain.elim

/-- **Exactly once.**  Where the callbacks do not call the object, `status_cb_` has been invoked
exactly once in every state in which both directions have ended, exactly when no step loses the
status or repeats it. -/
theorem told_iff (starts : List Bool) (final : Status) (ls : List Step)
    (h : Legal (new true starts final) ls) (hp : ∀ l ∈ ls, l.Plain) :
    (∀ pre, pre <+: ls → Told (after (new true starts final) pre).state) ↔
      Process.Along Step.exec (fun s l => Loses s l = false ∧ Repeats s l = false)
        (.running (new true starts final)) ls := by
  refine Process.along_iff
    (I := fun s => (Inv true s ∧ (statuses s.trace).length ≤ 1) ∧ Heard s)
    (A := fun s l => Step.Enabled s l ∧ l.Plain) ?_ ?_ ?_ ?_ (h.and (.of_forall hp))
  · rintro s ⟨⟨-, hone⟩, hh⟩ hr hw
    have := List.length_pos_iff.mpr (hh hr hw)
    omega
  · rintro s l ⟨⟨hI, hone⟩, hh⟩ ⟨hl, -⟩ ⟨hlose, hrep⟩
    exact wp_and (step_once hI hone l hl hrep) (step_heard hI hh l hl hlose)
  · rintro s l ⟨⟨hI, -⟩, -⟩ ⟨hl, hplain⟩ hbad
    by_cases hlose : Loses s l = true
    · cases l with
      | call c cb => exact close_loses hI c cb hlose
      | sent success cb => simp [Loses] at hlose
      | read success tag onMsg cb => simp [Loses] at hlose
    have hrep : Repeats s l = true := by
      by_contra hrep
      exact hbad ⟨by simpa using hlose, by simpa using hrep⟩
    cases l with
    | call c cb =>
        cases c with
        | setErrorStatus e => exact setErrorStatus_repeats hI e cb hplain hrep
        | _ => simp [Repeats] at hrep
    | sent success cb =>
        rw [Repeats, (hplain .OK).setsError] at hrep
        simp at hrep
    | read success tag onMsg cb =>
        rw [Repeats, (hplain.2 .OK).setsError] at hrep
        simp at hrep
  · exact ⟨⟨Inv.new _ _ _, Nat.zero_le 1⟩, fun h' => absurd h' (by simp [new])⟩

/-- The stream ends, and then the writing is closed. -/
def closingRun : List Step :=
  [.call (.readEach false) idle, .read true ⟨none⟩ (fun _ => .ret .OK) idle,
    .call .closeWriting idle]

theorem closingRun_plain : ∀ l ∈ closingRun, l.Plain := by
  simp [closingRun, Step.Plain, idle, Plain]

/-- Both directions have ended, and the callback has not been invoked. -/
theorem told_never :
    Legal (new true [] .OK) closingRun ∧ (∀ l ∈ closingRun, l.Plain) ∧
      ¬ Told (after (new true [] .OK) closingRun).state :=
  ⟨by decide, closingRun_plain, fun h => absurd (h (by decide) (by decide)) (by decide)⟩

theorem told_iff_closingRun :
    (∀ pre, pre <+: closingRun → Told (after (new true [] .OK) pre).state) ↔
      Process.Along Step.exec (fun s l => Loses s l = false ∧ Repeats s l = false)
        (.running (new true [] .OK)) closingRun :=
  told_iff [] .OK closingRun (by decide) closingRun_plain

end GrpcLua.ReaderWriter
