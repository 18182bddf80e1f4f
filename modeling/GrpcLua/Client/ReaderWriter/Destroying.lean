import GrpcLua.Client.ReaderWriter.Settling
import GrpcLua.Client.ReaderWriter.Traffic
import GrpcLua.Core.Dispatch

/-!
# Client — ReaderWriter — Destroying

The destructor of `ClientAsyncReaderWriterImpl` asserts that both directions have ended.  It is run
when nothing shares the object any more: the wrapper has been destroyed, and every tag that was
taken from the completion queue has been deleted.  By then the writing has ended, because the
wrapper's destructor closes it.  But nothing ends a reading that was never started, and an
exception of `status_cb_` that leaves a call of the user leaves both directions open
(`destructs_iff`).
-/

namespace GrpcLua.ReaderWriter
open Prog

variable {given : Bool} {s : ReaderWriter}

/-- `~ClientAsyncReaderWriterImpl()`. -/
def destruct : M Unit := do
  check fun s => s.readingEnded
  check fun s => s.writingEnded

/-- The destructor's assertions hold. -/
def Destructs (s : ReaderWriter) : Prop := wp destruct (fun _ _ => True) (fun _ _ => False) s

theorem destructs_iff_ended :
    Destructs s ↔ s.readingEnded = true ∧ s.writingEnded = true := by
  simp only [Destructs, destruct, wp_bind, wp_check]
  split
  case isFalse hr => exact ⟨False.elim, fun h => hr h.1⟩
  case isTrue hr =>
  split
  case isFalse hw => exact ⟨False.elim, fun h => hw h.2⟩
  case isTrue hw => exact ⟨fun _ => ⟨hr, hw⟩, fun _ => trivial⟩

/-! ### Turns -/

namespace Step

/-- A run of the user and of `DoNextCompletion` that starts with the constructor. -/
abbrev turns (s : ReaderWriter) (ts : List (Turn Step)) : Process (Dispatched ReaderWriter) :=
  Turn.after exec s ts

abbrev LegalTurns (s : ReaderWriter) (ts : List (Turn Step)) : Prop :=
  Turn.Legal exec completes Enabled s ts

end Step

/-- Nothing shares the object: neither the wrapper, nor a tag in flight, nor a tag that was taken
and not deleted. -/
structure Destroyable (d : Dispatched ReaderWriter) : Prop where
  wrapper : d.obj.wrapper = false
  sending : d.obj.sending = []
  reading : d.obj.reading = 0
  deleted : d.AllDeleted

/-- A call that an exception of `status_cb_` leaves while a direction is open. -/
def Breaks (s : ReaderWriter) : Step → Bool
  | .call c cb =>
      raises (c.exec fun st => (cb st).prog) s &&
        !(s.readingEnded && (c.closesWriting || s.writingEnded))
  | _ => false

/-- Where nothing shares a whole object, the writing has ended, and the reading if it was
started. -/
theorem Whole.ended (h : Whole true s) (hI : Inv given s) (hx : s.wrapper = false)
    (hsend : s.sending = []) (hread : s.reading = 0) :
    s.readingEnded = true ∧ s.writingEnded = true ↔
      (s.status.ok = true → s.readingStarted = true) := by
  constructor
  · rintro ⟨hr, -⟩ hs
    exact (hI.ended_reading hs hr).2.1
  intro hstarted
  by_cases hs : s.status.ok = true
  case neg => exact h.failed (by simpa using hs)
  have hq : s.msgQueue = [] := by
    by_contra hq
    exact hI.busy hs hq hsend
  have hr := (h.reads rfl hs (hstarted hs)).resolve_right (by simp [hread])
  exact ⟨hr, h.closes hs (hI.unwrapped hx) hq⟩

/-- What a call or a completion that returns leaves of the object, unless a call breaks it. -/
abbrev Sound (s : ReaderWriter) : Prop := Whole true s ∨ Broken true true s

/-- The object is in error, and a direction is open for ever. -/
def Lost (s : ReaderWriter) : Prop := ∃ r w, (r && w) = false ∧ Broken r w s

theorem call_sound (h : Sound s) (c : Call) (cb : Status → React)
    (hb : Breaks s (.call c cb) = false) :
    wp (Step.exec (.call c cb)) (fun _ => Sound) (fun e s' => e = .exception → Sound s') s := by
  rcases h with h | h
  · have hw := call_whole (fun st => prog_minds (cb st)) h c
    by_cases hx : raises (c.exec fun st => (cb st).prog) s = true
    · simp only [Breaks, hx, Bool.true_and, Bool.not_eq_false', Bool.and_eq_true] at hb
      rw [hb.1, hb.2] at hw
      exact wp_mono hw (fun _ _ h' => .inl h') fun _ _ h' he => .inr (h' he)
    · rw [Bool.not_eq_true] at hx
      exact wp_mono (wp_not_raises hw hx) (fun _ _ h' => .inl h') fun _ _ h' he => absurd he h'.1
  · refine wp_mono (call_broken h c) (fun _ _ h' => .inr h') ?_
    rintro _ s' ⟨rfl, -⟩ he
    exact absurd he (by simp)

theorem call_breaks (h : Sound s) (c : Call) (cb : Status → React)
    (hb : Breaks s (.call c cb) = true) :
    wp (Step.exec (.call c cb)) (fun _ => Lost) (fun e s' => e = .exception → Lost s') s := by
  obtain ⟨hx, hopen⟩ : raises (c.exec fun st => (cb st).prog) s = true ∧
      (s.readingEnded && (c.closesWriting || s.writingEnded)) = false := by
    simpa only [Breaks, Bool.and_eq_true, Bool.not_eq_true'] using hb
  rcases h with h | h
  · have hw := call_whole (fun st => prog_minds (cb st)) h c
    exact wp_mono (wp_raises hw hx) (fun _ _ hf => hf.elim) fun _ _ h' he => ⟨_, _, hopen, h'.2 he⟩
  · refine wp_mono (wp_raises (call_broken h c) hx) (fun _ _ hf => hf.elim) ?_
    rintro _ s' ⟨rfl, h', -⟩
    exact absurd h' (by simp)

theorem call_lost (h : Lost s) (c : Call) (cb : Status → React) :
    wp (Step.exec (.call c cb)) (fun _ => Lost) (fun e s' => e = .exception → Lost s') s := by
  obtain ⟨r, w, hopen, h⟩ := h
  exact wp_mono (call_broken h c) (fun _ _ h' => ⟨r, w, hopen, h'⟩)
    fun _ _ h' _ => ⟨r, w, hopen, h'.2⟩

theorem completion_sound (h : Sound s) (l : Step) (hl : l.completes = true) :
    wp l.exec (fun _ => Sound) (fun _ _ => True) s := by
  rcases h with h | h
  · exact wp_mono (completion_whole h l hl) (fun _ _ h' => .inl h') fun _ _ _ => trivial
  · exact wp_mono (completion_broken h l hl) (fun _ _ hf => hf.elim) fun _ _ _ => trivial

theorem completion_lost (h : Lost s) (l : Step) (hl : l.completes = true) :
    wp l.exec (fun _ => Lost) (fun _ _ => True) s := by
  obtain ⟨r, w, -, h⟩ := h
  exact wp_mono (completion_broken h l hl) (fun _ _ hf => hf.elim) fun _ _ _ => trivial

/-- A run keeps the object sound, or has lost it by a call that breaks it. -/
theorem turns_sound {ts : List (Turn Step)} (hs : Sound s) (h : Step.LegalTurns s ts) :
    let unbroken := Process.Along (Turn.exec Step.exec)
      (fun d t => t.Takes (fun s l => Breaks s l = false) d) (.running ⟨s, 0, []⟩) ts
    unbroken ∧ Process.Holds (Dispatched.Intact Sound) (fun _ _ => True) (Step.turns s ts) ∨
      ¬ unbroken ∧ Process.Holds (Dispatched.Intact Lost) (fun _ _ => True) (Step.turns s ts) := by
  refine Process.along_or (A := fun d t => t.Enabled Step.completes Step.Enabled d) ?_ ?_ ?_
    ⟨Nat.le_refl 0, fun _ => hs⟩ h
  · intro d t hI hen hP
    refine Turn.exec_intact ?_ (fun s l hl hW _ _ => completion_sound hW l hl) hI hen hP
    rintro s (⟨c, cb⟩ | _ | _) hl hW hb
    · exact call_sound hW c cb hb
    · exact absurd hl (by simp [Step.completes])
    · exact absurd hl (by simp [Step.completes])
  · rintro d t hI hen hP
    -- Only a call of the user breaks it.
    rcases t with (⟨c, cb⟩ | _ | _) | (_ | ⟨_, _⟩ | _ | _) | _ | _
    · exact Turn.call_intact hI fun hW => call_breaks hW c cb (by simpa [Turn.Takes] using hP)
    · exact absurd rfl hP
    · exact absurd rfl hP
    · exact absurd trivial hP
    · exact absurd hen.1 (by simp [Step.completes])
    · exact absurd rfl hP
    · exact absurd rfl hP
    · exact absurd trivial hP
    · exact absurd trivial hP
  · intro d t hI hen
    refine Turn.exec_intact (P := fun _ _ => True) ?_
      (fun s l hl hW _ _ => completion_lost hW l hl) hI hen ?_
    · rintro s (⟨c, cb⟩ | _ | _) hl hW -
      · exact call_lost hW c cb
      · exact absurd hl (by simp [Step.completes])
      · exact absurd hl (by simp [Step.completes])
    · rcases t with l | (_ | _) | _ | _ <;> trivial

theorem turns_inv {ts : List (Turn Step)} (hs : Inv given s) (h : Step.LegalTurns s ts) :
    Inv given (Step.turns s ts).state.obj := by
  refine Turn.keeps_obj ?_ (fun s l _ hl hI => step_keeps hI l hl) hs h
  rintro s (⟨c, cb⟩ | _ | _) hl hI
  · exact step_keeps hI _ trivial
  · exact absurd hl (by simp [Step.completes])
  · exact absurd hl (by simp [Step.completes])

/-- **Destroying.**  When nothing shares the object any more, the destructor's assertions hold
exactly when the reading was started or the call has ended on an error, and no exception of
`status_cb_` has left a call while a direction was open. -/
theorem destructs_iff (statusCb : Bool) (starts : List Bool) (final : Status)
    (ts : List (Turn Step)) (h : Step.LegalTurns (new statusCb starts final) ts)
    {d : Dispatched ReaderWriter} (hd : Step.turns (new statusCb starts final) ts = .running d)
    (hx : Destroyable d) :
    Destructs d.obj ↔
      (d.obj.status.ok = true → d.obj.readingStarted = true) ∧
        Process.Along (Turn.exec Step.exec) (fun d t => t.Takes (fun s l => Breaks s l = false) d)
          (.running ⟨new statusCb starts final, 0, []⟩) ts := by
  have hI : Inv statusCb d.obj := by
    have := turns_inv (Inv.new statusCb starts final) h
    rwa [hd] at this
  rw [destructs_iff_ended]
  rcases turns_sound (.inl (.new statusCb starts final)) h with ⟨hP, hsound⟩ | ⟨hP, hlost⟩
  · rw [hd] at hsound
    rcases hsound.obj hx.deleted with hw | hb
    · rw [hw.ended hI hx.wrapper hx.sending hx.reading]
      exact ⟨fun h' => ⟨h', hP⟩, fun h' => h'.1⟩
    · refine ⟨fun _ => ⟨fun hs => ?_, hP⟩, fun _ => ⟨hb.reading, hb.writing⟩⟩
      exact absurd (hb.failed.symm.trans hs) (by simp)
  · rw [hd] at hlost
    obtain ⟨r, w, hopen, hb⟩ := hlost.obj hx.deleted
    refine ⟨fun h' => ?_, fun h' => absurd h'.2 hP⟩
    rw [← hb.reading, ← hb.writing, h'.1, h'.2] at hopen
    exact absurd hopen (by simp)

/-- One message is sent, nothing is read, and the stream is collected. -/
def unreadTurns : List (Turn Step) :=
  [.call (.call (.write [1]) idle), .call (.call .destroyWrapper idle),
    .next (.opComplete (some (.sent true idle)))]

/-- The first assertion of the destructor fails. -/
theorem not_destructs :
    Step.LegalTurns (new true [] .OK) unreadTurns ∧
      ∃ d, Step.turns (new true [] .OK) unreadTurns = .running d ∧ Destroyable d ∧
        ¬ Destructs d.obj := by
  refine ⟨by decide, _, rfl, ⟨rfl, rfl, rfl, by decide⟩, ?_⟩
  rw [destructs_iff_ended]
  decide

/-- The same with a read, which finds the end of the stream. -/
def readTurns : List (Turn Step) :=
  .call (.call (.readEach false) idle) :: unreadTurns ++
    [.next (.opComplete (some (.read true ⟨none⟩ (fun _ => .ret .OK) idle)))]

theorem destructs_iff_readTurns :
    Destructs (Step.turns (new true [] .OK) readTurns).state.obj :=
  (destructs_iff true [] .OK readTurns (by decide) rfl ⟨rfl, rfl, rfl, by decide⟩).mpr
    ⟨fun _ => rfl, by decide⟩

end GrpcLua.ReaderWriter
