import GrpcLua.Client.Reader.Runs
import GrpcLua.Client.ReaderWriter.Destroying
import GrpcLua.Client.ReaderWriter.StatusCb

/-!
# Client — Raising

What becomes of the asynchronous streams when a callback raises a Lua error, which
`CbWrapper.cpp` lets escape as a C++ exception.  From a call of the user it escapes to the user.
From a completion it escapes through `DoNextCompletion`, which does not come to delete the tag
(`fine_iff`), so that the tag and with it the stream are never freed.
-/

namespace GrpcLua
open Prog Trace

/-! ### The reader -/

namespace Reader

variable {s : Reader}

namespace Step

def completes : Step → Bool
  | .call _ _ => false
  | _ => true

/-- A run of the user and of `DoNextCompletion` that starts with the constructor. -/
abbrev turns (s : Reader) (ts : List (Turn Step)) : Process (Dispatched Reader) :=
  Turn.after exec s ts

abbrev LegalTurns (s : Reader) (ts : List (Turn Step)) : Prop :=
  Turn.Legal exec completes Enabled s ts

end Step

/-- A started stream that has not told its status has a read or the status batch in flight. -/
def Unstuck (s : Reader) : Prop :=
  s.isStarted = true → s.statusCb = true → statuses s.trace = [] → 0 < s.reading ∨ s.receiving ≠ []

/-- A completion in which a callback raises. -/
def Escapes (s : Reader) (l : Step) : Bool := l.completes && Raises s l

theorem Phase.unstuck {final : Status} {args? : Option (Bool × Bool)} {received : List Bytes}
    {error : Option Status} (h : Phase final s args? received error) : Unstuck s := by
  intro hs hcb ht
  cases h with
  | fresh hs' => exact absurd (hs'.symm.trans hs) (by simp)
  | reading _ _ _ hreading => exact .inl (by omega)
  | receiving _ _ hrecv => exact .inr (by simp [hrecv])
  | ended h _ _ hst =>
      rw [h.statusCb hcb, if_pos rfl] at hst
      exact absurd (hst.symm.trans ht) (by simp)

/-- The object is in one of the phases of its life. -/
def Live (s : Reader) : Prop := ∃ final args? received error, Phase final s args? received error

theorem call_live (h : Live s) (c : Call) (cb : Status → React) :
    wp (Step.exec (.call c cb)) (fun _ => Live) (fun _ => Live) s := by
  obtain ⟨final, args?, received, error, h⟩ := h
  exact wp_mono (call_phase h c cb) (fun _ _ h' => ⟨_, _, _, _, h'.2⟩)
    fun _ _ h' => ⟨_, _, _, _, h'.2.2⟩

/-- A completion returns, or a callback has raised. -/
theorem completion_live (h : Live s) (l : Step) (hl : l.completes = true)
    (hen : Step.Enabled s l) :
    wp l.exec (fun _ s' => Escapes s l = false ∧ Live s')
      (fun e _ => e = .exception ∧ Escapes s l = true) s := by
  obtain ⟨final, args?, received, error, h⟩ := h
  simp only [Escapes, hl, Bool.true_and]
  cases l with
  | call c cb => exact absurd hl (by simp [Step.completes])
  | read success tag onMsg cb =>
      exact wp_mono (read_phase h success tag onMsg cb hen)
        (fun _ _ h' => ⟨h'.1, _, _, _, _, h'.2⟩) fun _ _ h' => ⟨h'.1, h'.2.1⟩
  | recvStatus success cb =>
      exact wp_mono (recvStatus_phase h success cb hen)
        (fun _ _ h' => ⟨h'.1, _, _, _, _, h'.2⟩) fun _ _ h' => ⟨h'.1, h'.2.1⟩

/-- All is fine with a reader exactly as long as no callback raises in a completion. -/
theorem turns_fine {ts : List (Turn Step)} (hs : Live s) (h : Step.LegalTurns s ts) :
    (∀ pre, pre <+: ts → Turn.Fine Unstuck (Step.turns s pre)) ↔
      Process.Along (Turn.exec Step.exec)
        (fun d t => t.Takes (fun s l => Escapes s l = false) d) (.running ⟨s, 0, []⟩) ts := by
  have hcalls : ∀ {s l}, Step.completes l = false → ∃ c cb, l = .call c cb ∧
      Escapes s l = false := by
    rintro s (⟨c, cb⟩ | _ | _) hl
    · exact ⟨c, cb, rfl, rfl⟩
    · exact absurd hl (by simp [Step.completes])
    · exact absurd hl (by simp [Step.completes])
  refine Turn.fine_iff (I := Live) (fun s ⟨_, _, _, _, h⟩ => h.unstuck) ?_ ?_ ?_ ?_ hs h
  · intro s l hl hI _
    obtain ⟨c, cb, rfl, -⟩ := hcalls (s := s) hl
    exact wp_mono (call_live hI c cb) (fun _ _ h' => h') fun _ _ h' _ => h'
  · intro s l hl _ hP
    obtain ⟨-, -, -, hno⟩ := hcalls (s := s) hl
    exact absurd hno hP
  · intro s l hl hI hen hP
    refine wp_mono (completion_live hI l hl hen) (fun _ _ h' => h'.2) ?_
    rintro e s' ⟨-, h'⟩
    exact absurd (hP.symm.trans h') (by simp)
  · intro s l hl hI hen hP
    exact wp_mono (completion_live hI l hl hen) (fun _ _ h' => hP h'.1) fun _ _ h' => h'.1

end Reader

/-! ### The reader-writer -/

namespace ReaderWriter

variable {given : Bool} {s : ReaderWriter}

/-- A stream that reads and has not told its status has a read in flight, or waits for the
writing to end. -/
def Unstuck (s : ReaderWriter) : Prop :=
  s.readingStarted = true → s.statusCb = true → statuses s.trace = [] →
    0 < s.reading ∨ s.readingEnded = true ∧ s.writingEnded = false

/-- A completion that an exception of a callback leaves. -/
def Escapes (s : ReaderWriter) (l : Step) : Bool := l.completes && raises l.exec s

/-- A call that ends the stream without a word to a `status_cb_` that is set. -/
def Forgets (s : ReaderWriter) (l : Step) : Bool := Loses s l && s.statusCb

/-- What holds of the object between two turns. -/
structure Live (given : Bool) (s : ReaderWriter) : Prop where
  inv : Inv given s
  heard : s.statusCb = true → given = true ∧ Heard s
  whole : Whole true s ∨ ∃ r w, Broken r w s

theorem Live.unstuck (h : Live given s) : Unstuck s := by
  intro hstarted hcb ht
  obtain ⟨hgiven, hheard⟩ := h.heard hcb
  have hs : s.status.ok = true := by
    by_contra hs
    exact h.inv.told hgiven (by simpa using hs) ht
  have hw : Whole true s := by
    rcases h.whole with hw | ⟨_, _, hb⟩
    · exact hw
    · exact absurd (hb.failed.symm.trans hs) (by simp)
  rcases hw.reads rfl hs hstarted with hr | hread
  · refine .inr ⟨hr, ?_⟩
    by_contra hwe
    exact hheard hr (by simpa using hwe) ht
  · exact .inl hread

/-- No step sets `status_cb_`. -/
theorem step_unset (h : Inv given s) (l : Step) (hl : Step.Enabled s l) :
    wp l.exec (fun _ s' => s'.statusCb = true → s.statusCb = true)
      (fun _ s' => s'.statusCb = true → s.statusCb = true) s := by
  have hnotified : ∀ s₁ : ReaderWriter, (notified s₁).statusCb = s₁.statusCb := by
    intro s₁
    unfold notified
    split <;> rfl
  have hlast : ∀ {s'} {cb : Status → React}, Last given l s s' →
      wp (callStatusCb fun st => (cb st).prog) (fun _ s₁ => s₁.statusCb = true → s.statusCb = true)
        (fun _ s₁ => s₁.statusCb = true → s.statusCb = true) s' := by
    intro s' cb q
    refine wp_mono (wp_callStatusCb (fun st => prog_keeps (cb st)) q.inv.toBase
      (.inr ⟨q.readingEnded, q.writingEnded⟩)) ?_ ?_
    · rintro _ s₁ ⟨-, hset⟩ h'
      exact absurd (hset.symm.trans h') (by simp)
    · rintro _ s₁ ⟨-, g⟩ h'
      exact q.moves.unset (hnotified s' ▸ g.unset h')
  cases l with
  | call c cb =>
      exact wp_mono (wp_call (fun st => prog_keeps (cb st)) h c) (fun _ _ h' => h'.1.2.unset)
        fun _ _ h' => h'.1.2.unset
  | sent success cb =>
      exact wp_sent h hl success cb (fun _ q => q.moves.unset) (fun _ _ q => q.moves.unset)
        fun _ => hlast
  | read success tag onMsg cb =>
      exact wp_read h hl success tag onMsg cb (fun _ q => q.moves.unset)
        (fun _ _ q => q.moves.unset) fun _ => hlast

/-- A step that does not forget the status tells it when the second direction ends. -/
theorem step_live (h : Live given s) (l : Step) (hl : Step.Enabled s l)
    (hf : Forgets s l = false) :
    wp l.exec (fun _ s' => Inv given s' ∧ (s'.statusCb = true → given = true ∧ Heard s'))
      (fun _ s' => Inv given s' ∧ (s'.statusCb = true → given = true ∧ Heard s')) s := by
  refine wp_and (step_keeps h.inv l hl) ?_
  by_cases hcb : s.statusCb = true
  · obtain ⟨rfl, hheard⟩ := h.heard hcb
    have hlose : Loses s l = false := by simpa [Forgets, hcb] using hf
    exact wp_mono (step_heard h.inv hheard l hl hlose) (fun _ _ h' _ => ⟨rfl, h'⟩)
      fun _ _ h' _ => ⟨rfl, h'⟩
  · exact wp_mono (step_unset h.inv l hl) (fun _ _ h' h'' => absurd (h' h'') hcb)
      fun _ _ h' h'' => absurd (h' h'') hcb

theorem call_live (h : Live given s) (c : Call) (cb : Status → React)
    (hf : Forgets s (.call c cb) = false) :
    wp (Step.exec (.call c cb)) (fun _ => Live given) (fun e s' => e = .exception → Live given s')
      s := by
  have hwhole : wp (Step.exec (.call c cb)) (fun _ s' => Whole true s' ∨ ∃ r w, Broken r w s')
      (fun e s' => e = .exception → Whole true s' ∨ ∃ r w, Broken r w s') s := by
    rcases h.whole with hw | ⟨r, w, hb⟩
    · exact wp_mono (call_whole (fun st => prog_minds (cb st)) hw c) (fun _ _ h' => .inl h')
        fun _ _ h' he => .inr ⟨_, _, h' he⟩
    · exact wp_mono (call_broken hb c) (fun _ _ h' => .inr ⟨r, w, h'⟩)
        fun _ _ h' _ => .inr ⟨r, w, h'.2⟩
  exact wp_mono (wp_and (step_live h (.call c cb) trivial hf) hwhole)
    (fun _ _ h' => ⟨h'.1.1, h'.1.2, h'.2⟩) fun _ _ h' he => ⟨h'.1.1, h'.1.2, h'.2 he⟩

theorem completion_live (h : Live given s) (l : Step) (hl : l.completes = true)
    (hen : Step.Enabled s l) : wp l.exec (fun _ => Live given) (fun _ _ => True) s := by
  have hf : Forgets s l = false := by
    cases l with
    | call c cb => exact absurd hl (by simp [Step.completes])
    | _ => rfl
  have hwhole : wp l.exec (fun _ => Whole true) (fun _ _ => True) s := by
    rcases h.whole with hw | ⟨r, w, hb⟩
    · exact completion_whole hw l hl
    · exact wp_mono (completion_broken hb l hl) (fun _ _ hf => hf.elim) fun _ _ _ => trivial
  exact wp_mono (wp_and (step_live h l hen hf) hwhole) (fun _ _ h' => ⟨h'.1.1, h'.1.2, .inl h'.2⟩)
    fun _ _ _ => trivial

/-- A stream that forgets its status is stuck. -/
theorem call_forgets (h : Live given s) (c : Call) (cb : Status → React)
    (hf : Forgets s (.call c cb) = true) :
    wp (Step.exec (.call c cb)) (fun _ s' => ¬ Unstuck s')
      (fun e s' => e = .exception ∧ ¬ Unstuck s') s := by
  obtain ⟨hlose, hcb⟩ : Loses s (.call c cb) = true ∧ s.statusCb = true := by
    simpa [Forgets] using hf
  obtain ⟨hs, hr⟩ : s.status.ok = true ∧ s.readingEnded = true := by
    simp only [Loses, Bool.and_eq_true] at hlose
    exact ⟨hlose.1.1.1.1.2, hlose.2⟩
  obtain ⟨-, hstarted, hread⟩ := h.inv.ended_reading hs hr
  refine wp_mono (close_ends h.inv c cb hlose) ?_ fun _ _ hf => hf.elim
  rintro _ s' ⟨⟨-, hw', ht'⟩, hcb', hstarted', hread'⟩ hU
  rcases hU (hstarted'.trans hstarted) (hcb'.trans hcb) ht' with h' | h'
  · omega
  · exact absurd (h'.2.symm.trans hw') (by simp)

/-- All is fine with a reader-writer exactly as long as no call forgets the status and no exception
leaves a completion. -/
theorem turns_fine {ts : List (Turn Step)} (hs : Live given s) (h : Step.LegalTurns s ts) :
    (∀ pre, pre <+: ts → Turn.Fine Unstuck (Step.turns s pre)) ↔
      Process.Along (Turn.exec Step.exec)
        (fun d t => t.Takes (fun s l => Forgets s l = false ∧ Escapes s l = false) d)
        (.running ⟨s, 0, []⟩) ts := by
  have hcalls : ∀ {s l}, Step.completes l = false → ∃ c cb, l = .call c cb ∧
      Escapes s l = false := by
    rintro s (⟨c, cb⟩ | _ | _) hl
    · exact ⟨c, cb, rfl, rfl⟩
    · exact absurd hl (by simp [Step.completes])
    · exact absurd hl (by simp [Step.completes])
  refine Turn.fine_iff (I := Live given) (fun _ => Live.unstuck) ?_ ?_ ?_ ?_ hs h
  · intro s l hl hI hP
    obtain ⟨c, cb, rfl, -⟩ := hcalls (s := s) hl
    exact call_live hI c cb hP.1
  · intro s l hl hI hP
    obtain ⟨c, cb, rfl, hno⟩ := hcalls (s := s) hl
    exact call_forgets hI c cb (by simpa [hno] using hP)
  · intro s l hl hI hen hP
    have hno : raises l.exec s = false := by simpa [Escapes, hl] using hP.2
    exact wp_mono (wp_not_raises (completion_live hI l hl hen) hno) (fun _ _ h' => h')
      fun _ _ h' => h'.1
  · intro s l hl _ _ hP
    have hyes : raises l.exec s = true := by
      have hf : Forgets s l = false := by
        cases l with
        | call c cb => exact absurd hl (by simp [Step.completes])
        | _ => rfl
      simpa [Escapes, hl, hf] using hP
    exact wp_mono (wp_raises (wp_true _ s) hyes) (fun _ _ hf => hf) fun _ _ h' => h'.1

end ReaderWriter

/-! ### Both -/

theorem Reader.Live.new (request : Bytes) (starts : List Bool) (final : Status) :
    Reader.Live (Reader.new request starts final) :=
  ⟨final, none, [], none, .fresh rfl rfl rfl rfl rfl rfl⟩

theorem ReaderWriter.Live.new (statusCb : Bool) (starts : List Bool) (final : Status) :
    ReaderWriter.Live statusCb (ReaderWriter.new statusCb starts final) where
  inv := .new statusCb starts final
  heard := fun h => ⟨h, fun h' => absurd h' (by simp [ReaderWriter.new])⟩
  whole := .inl (.new statusCb starts final)

/-- **Raising.**  Whatever the callbacks do: in every run of a reader, and in every run of a
reader-writer, the tags are deleted and the stream is not stuck whenever a turn has ended, exactly
when no callback raises in a completion and, of the reader-writer, no call closes the writing at
once after the reading has ended, with a `status_cb_` to tell.  What a callback raises in a call of
the user does no harm. -/
theorem streams_fine_iff (request : Bytes) (starts : List Bool) (final : Status)
    (ts : List (Turn Reader.Step))
    (h : Reader.Step.LegalTurns (Reader.new request starts final) ts)
    (statusCb : Bool) (starts' : List Bool) (final' : Status) (ts' : List (Turn ReaderWriter.Step))
    (h' : ReaderWriter.Step.LegalTurns (ReaderWriter.new statusCb starts' final') ts') :
    ((∀ pre, pre <+: ts → Turn.Fine Reader.Unstuck
        (Reader.Step.turns (Reader.new request starts final) pre)) ↔
      Process.Along (Turn.exec Reader.Step.exec)
        (fun d t => t.Takes (fun s l => Reader.Escapes s l = false) d)
        (.running ⟨Reader.new request starts final, 0, []⟩) ts) ∧
    ((∀ pre, pre <+: ts' → Turn.Fine ReaderWriter.Unstuck
        (ReaderWriter.Step.turns (ReaderWriter.new statusCb starts' final') pre)) ↔
      Process.Along (Turn.exec ReaderWriter.Step.exec)
        (fun d t => t.Takes
          (fun s l => ReaderWriter.Forgets s l = false ∧ ReaderWriter.Escapes s l = false) d)
        (.running ⟨ReaderWriter.new statusCb starts' final', 0, []⟩) ts') :=
  ⟨Reader.turns_fine (.new request starts final) h,
    ReaderWriter.turns_fine (.new statusCb starts' final') h'⟩

/-- The message callback raises at the first message. -/
def Reader.raisingTurns : List (Turn Reader.Step) :=
  [.call (.call (.start true true) fun _ => .ret .OK),
    .next (.opComplete (some (.read true ⟨some ⟨some [1]⟩⟩ (fun _ => .raise) fun _ => .ret .OK)))]

/-- The tag of the read is never deleted, no read follows, and the status is never told. -/
theorem raised_stuck :
    Reader.Step.LegalTurns (Reader.new [] [] .OK) Reader.raisingTurns ∧
      ∃ d, Reader.Step.turns (Reader.new [] [] .OK) Reader.raisingTurns = .running d ∧
        ¬ d.AllDeleted ∧ ¬ Reader.Unstuck d.obj := by
  refine ⟨by decide, _, rfl, by decide, fun h => ?_⟩
  have := h rfl rfl rfl
  revert this
  decide

/-- The first read of a reader-writer, whose callback writes an answer. -/
def ReaderWriter.answeringTurns : List (Turn ReaderWriter.Step) :=
  [.call (.call (.readEach true) ReaderWriter.idle),
    .next (.opComplete (some (.read true ⟨some ⟨some [1]⟩⟩
      (fun msg => .call (.write msg) ReaderWriter.idle (.ret .OK)) ReaderWriter.idle)))]

theorem streams_fine_iff_answeringTurns :
    (¬ ∀ pre, pre <+: Reader.raisingTurns → Turn.Fine Reader.Unstuck
        (Reader.Step.turns (Reader.new [] [] .OK) pre)) ∧
      ∀ pre, pre <+: ReaderWriter.answeringTurns → Turn.Fine ReaderWriter.Unstuck
        (ReaderWriter.Step.turns (ReaderWriter.new true [] .OK) pre) := by
  have h := streams_fine_iff [] [] .OK Reader.raisingTurns (by decide) true [] .OK
    ReaderWriter.answeringTurns (by decide)
  exact ⟨fun hfine => absurd (h.1.mp hfine) (by decide), h.2.mpr (by decide)⟩

end GrpcLua
