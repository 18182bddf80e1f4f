import GrpcLua.Client.ReaderWriter.Traffic

/-!
# Client — ReaderWriter — FirstBatch

Which batch comes first on the call.  `Write` and `ReadEach` begin with `InitIfNot`, and a
completion has a batch before it; `CloseWriting` does not initialise the call (`Early`).
-/

namespace GrpcLua.ReaderWriter
open Prog Trace

variable {given : Bool} {s s' : ReaderWriter}

/-- The first batch, if any, sends the initial metadata. -/
def InitFirst (tr : List (Event Cb)) : Prop :=
  ∀ b, (batches tr).head? = some b → Op.sendInitMd ∈ b

/-- The step half-closes a call that is not initialised. -/
def Early (s : ReaderWriter) : Step → Bool
  | .call c _ => c.closesWriting && s.status.ok && !s.inited && !s.writingClosing
  | _ => false

theorem InitFirst.of_prefix {tr tr' : List (Event Cb)} (h : InitFirst tr) (hp : tr <+: tr')
    (hb : batches tr ≠ []) : InitFirst tr' := by
  obtain ⟨rest, rfl⟩ := hp
  intro b hb'
  obtain ⟨b₀, bs, hb₀⟩ := List.exists_cons_of_ne_nil hb
  rw [batches_append, hb₀] at hb'
  exact h b (by rw [hb₀]; exact hb')

/-- The first batch of a trace is the first of every longer one. -/
theorem initFirst_iff {tr tr' : List (Event Cb)} {b : Batch} {started : Bool}
    (hnone : batches tr = []) (hp : tr ++ [.batch b started] <+: tr') :
    InitFirst tr' ↔ Op.sendInitMd ∈ b := by
  obtain ⟨rest, rfl⟩ := hp
  have hhead : (batches (tr ++ [.batch b started] ++ rest)).head? = some b := by
    rw [batches_append, batches_append, hnone]
    rfl
  constructor
  · exact fun h => h b hhead
  · intro h b' hb'
    cases hhead.symm.trans hb'
    exact h

/-- A call that is not initialised has had no batch, and the first batch initialises it. -/
structure Started (given : Bool) (s : ReaderWriter) : Prop where
  inv : Inv given s
  first : InitFirst s.trace
  none : s.inited = false → batches s.trace = []

/-- In error, or once initialised, every operation keeps what came first. -/
theorem Started.moves (h : Started given s) (hs : s.status.ok = true → s.inited = true)
    (hI : Inv given s') (hm : Moves s s') : Started given s' := by
  by_cases hok : s.status.ok = true
  · have hi := hs hok
    refine ⟨hI, h.first.of_prefix hm.trace (h.inv.inited_batch hok hi), fun h' => ?_⟩
    exact absurd (h'.symm.trans (hm.inited hi)) (by simp)
  · have hb := hm.batches (by simpa using hok)
    refine ⟨hI, fun b hb' => h.first b (by rw [← hb]; exact hb'), fun h' => ?_⟩
    rw [hb]
    refine h.none (Bool.eq_false_iff.mpr fun hi => ?_)
    exact absurd (h'.symm.trans (hm.inited hi)) (by simp)

theorem Started.of_first (h : Started given s) (hi : s.inited = false) {started : Bool}
    (hI : Inv given s') (hi' : s'.inited = true)
    (hp : s.trace ++ [.batch [.sendInitMd] started] <+: s'.trace) : Started given s' where
  inv := hI
  first := (initFirst_iff (h.none hi) hp).mpr (by simp)
  none := fun h' => absurd (h'.symm.trans hi') (by simp)

section functions
variable {k : Status → M Status} (hk : ∀ st, Keeps (Inv given) Grows (k st))
include hk

omit hk in
theorem wp_initIfNot_inited {Q : Unit → ReaderWriter → Prop} {E : Exit → ReaderWriter → Prop}
    (hi : s.inited = true) : wp (initIfNot k) Q E s ↔ Q () s := by
  simp only [initIfNot, wp_bind, wp_get, wp_ite, wp_pure]
  rw [if_pos hi]

/-- `InitIfNot()` submits the first batch. -/
theorem initIfNot_first (h : Started given s) (hs : s.status.ok = true) (hi : s.inited = false) :
    wp (initIfNot k) (fun _ s' => Started given s' ∧ s'.inited = true)
      (fun _ s' => Started given s') s := by
  have hfirst : ∀ {s₁ s'}, Kept given s₁ s' → s₁.inited = true →
      s.trace ++ [.batch [.sendInitMd] (s.starts.headD true)] <+: s₁.trace →
      Started given s' ∧ s'.inited = true := by
    rintro s₁ s' ⟨hI, g⟩ hi₁ hp
    exact ⟨h.of_first hi hI (g.inited hi₁) (hp.trans g.trace), g.inited hi₁⟩
  have h₁ := (h.inv.batch [.sendInitMd] (s.starts.headD true) (.inr rfl) rfl
    (by simp [Batch.msg?])).init (by simp [batches])
  have h₂ := h₁.batch [.recvInitMd] (s.starts.tail.headD true) (.inr rfl) rfl
    (by simp [Batch.msg?])
  simp only [initIfNot, wp_bind, wp_get, wp_ite, wp_pure, wp_modify, wp_submit, Bool.not_eq_true']
  rw [if_neg (by simp [hi]), if_neg (by simp [hs])]
  split
  case isTrue =>
    refine wp_mono (wp_setInternalError hk (.refl _) hs (h₁.fail rfl)) ?_ ?_
    · exact fun _ s' h' => hfirst h'.1 rfl List.prefix_rfl
    · exact fun _ s' h' => (hfirst h'.1 rfl List.prefix_rfl).1
  split
  case isTrue =>
    refine wp_mono (wp_setInternalError hk (.refl _) hs (h₂.fail rfl)) ?_ ?_
    · exact fun _ s' h' => hfirst h'.1 rfl (List.prefix_append _ _)
    · exact fun _ s' h' => (hfirst h'.1 rfl (List.prefix_append _ _)).1
  case isFalse =>
    have hI : Inv given (submitted { submitted s [.sendInitMd] (s.starts.headD true) with
        inited := true } [.recvInitMd] (s.starts.tail.headD true)) :=
      { h₂ with told := fun _ h' => absurd (h'.symm.trans hs) (by simp) }
    exact ⟨(hfirst ⟨hI, .refl _⟩ rfl (List.prefix_append _ _)).1, trivial⟩

/-- A call that does not half-close too early keeps what came first. -/
theorem call_started (h : Started given s) (c : Call) (cb : Status → React)
    (hl : Early s (.call c cb) = false) :
    wp (c.exec k) (fun _ => Started given) (fun _ => Started given) s := by
  -- An object that is initialised, or in error, starts its first batch no more.
  have hcall : ∀ {s₁} (c : Call), Started given s₁ →
      (s₁.status.ok = true → s₁.inited = true) →
      wp (c.exec k) (fun _ => Started given) (fun _ => Started given) s₁ := by
    intro s₁ c h₁ hs₁
    exact wp_mono (wp_call hk h₁.inv c) (fun _ _ h' => h₁.moves hs₁ h'.1.1 h'.1.2.toMoves)
      fun _ _ h' => h₁.moves hs₁ h'.1.1 h'.1.2.toMoves
  by_cases hs : s.status.ok = true → s.inited = true
  · exact hcall c h hs
  obtain ⟨hs, hi⟩ : s.status.ok = true ∧ s.inited = false := by simpa using hs
  -- What is left is the call that initialises it.
  have hclosing : c.closesWriting = true → s.writingClosing = true := by
    intro hc
    simpa [Early, hc, hs, hi] using hl
  cases c with
  | write msg =>
      simp only [Call.exec, ReaderWriter.write, wp_bind]
      refine wp_mono (initIfNot_first hk h hs hi) ?_ fun _ _ h' => h'
      rintro _ s₁ ⟨h₁, hi₁⟩
      have hrest := hcall (.write msg) h₁ fun _ => hi₁
      simp only [Call.exec, ReaderWriter.write, wp_bind] at hrest
      exact (wp_initIfNot_inited hi₁).mp hrest
  | closeWriting =>
      simp only [Call.exec, ReaderWriter.closeWriting, wp_bind, wp_get, wp_ite, wp_pure]
      rw [if_pos (hclosing rfl)]
      exact h
  | readEach msgCb =>
      simp only [Call.exec, ReaderWriter.readEach, wp_bind, wp_get, wp_ite, wp_pure, wp_modify]
      split
      case isTrue => exact h
      case isFalse hr =>
        obtain ⟨⟨hI₁, g₁⟩, hread⟩ := h.inv.startReading hr
        have hended : s.readingEnded = false :=
          Bool.eq_false_iff.mpr fun he => hr (h.inv.ended_reading hs he).2.1
        have h₁ : Started given { s with readingStarted := true } := ⟨hI₁, h.first, h.none⟩
        refine wp_mono (wp_and (initIfNot_first hk h₁ hs hi) (wp_initIfNot hk hI₁)) ?_
          fun _ _ h' => h'.1
        rintro _ s₂ ⟨⟨h₂, hi₂⟩, ⟨hI₂, g₂⟩, -⟩
        split
        case isTrue => exact h₂
        case isFalse hs₂ =>
          obtain ⟨hstarted, hzero⟩ := g₂.started rfl
          have hs₂' : s₂.status.ok = true := by simpa using hs₂
          have hI₃ : Inv given { s₂ with msgCb := msgCb } := { hI₂ with }
          have hm₃ : Moves s₂ { s₂ with msgCb := msgCb } := { Moves.refl s₂ with }
          exact wp_mono (wp_readNext hk hm₃ hs₂' hI₃ hi₂ (hzero.trans hread) hstarted
            ((g₂.ended hs₂').trans hended)) (fun _ _ h' => h₂.moves (fun _ => hi₂) h'.1.1 h'.1.2)
            fun _ _ h' => h₂.moves (fun _ => hi₂) h'.1.1 h'.1.2
  | setErrorStatus e =>
      by_cases he : e.ok = true
      · simp only [Call.exec, ReaderWriter.setErrorStatus, wp_bind, wp_check]
        rw [if_neg (by simp [he])]
        exact h
      · have he' : e.ok = false := by simpa using he
        have hnone : ∀ {s'}, Inv given s' → batches s'.trace = batches s.trace →
            Started given s' := by
          intro s' hI hb
          rw [h.none hi] at hb
          exact ⟨hI, fun b hb' => by simp [hb] at hb', fun _ => hb⟩
        simp only [Call.exec, ReaderWriter.setErrorStatus, wp_bind, wp_check, wp_get, wp_ite]
        rw [if_pos (by simp [he]), if_pos hs]
        exact wp_mono (wp_and (wp_endOnErrorStatus hk hs he' (h.inv.fail he'))
          (endOnErrorStatus_batches hk hs he' (h.inv.fail he')))
          (fun _ _ h' => hnone h'.1.1.1 h'.2) fun _ _ h' => hnone h'.1.1.1 h'.2
  | destroyWrapper =>
      simp only [Call.exec, ReaderWriter.closeWriting, wp_bind, wp_get, wp_ite, wp_pure, wp_modify]
      rw [if_pos (hclosing rfl)]
      exact ⟨{ h.inv with unwrapped := fun _ => hclosing rfl }, h.first, h.none⟩

end functions

/-- A step that does not half-close too early keeps what came first. -/
theorem step_started (h : Started given s) (l : Step) (hen : Step.Enabled s l)
    (hl : Early s l = false) : wp l.exec (fun _ => Started given) (fun _ => Started given) s := by
  -- A batch is in flight, so that the call is initialised.
  have hinited : s.sending ≠ [] ∨ 0 < s.reading → s.inited = true := by
    intro hc
    by_contra hi
    rcases hc with hc | hc
    · exact h.inv.sending_batch hc (h.none (by simpa using hi))
    · exact hi (h.inv.reading_inited hc)
  have hlast : ∀ {s'} {cb : Status → React}, s.inited = true → Last given l s s' →
      wp (callStatusCb fun st => (cb st).prog) (fun _ => Started given)
        (fun _ => Started given) s' := by
    intro s' cb hi q
    have hn : s'.trace <+: (notified s').trace ∧ (notified s').inited = s'.inited := by
      unfold notified
      split
      · exact ⟨List.prefix_append _ _, rfl⟩
      · exact ⟨List.prefix_rfl, rfl⟩
    have hafter : ∀ {s₁}, Kept given (notified s') s₁ → Started given s₁ := by
      rintro s₁ ⟨hI, g⟩
      have hi₁ : s₁.inited = true := g.inited (hn.2.trans (q.moves.inited hi))
      refine ⟨hI, ?_, fun h' => absurd (h'.symm.trans hi₁) (by simp)⟩
      exact h.first.of_prefix ((q.moves.trace.trans hn.1).trans g.trace)
        (h.inv.inited_batch q.ok hi)
    exact wp_mono (wp_callStatusCb (fun st => prog_keeps (cb st)) q.inv.toBase
      (.inr ⟨q.readingEnded, q.writingEnded⟩)) (fun _ _ k => hafter k.1) fun _ _ k => hafter k
  cases l with
  | call c cb => exact call_started (fun st => prog_keeps (cb st)) h c cb hl
  | sent success cb =>
      have hi := hinited (.inl hen)
      exact wp_sent h.inv hen success cb (fun _ q => h.moves (fun _ => hi) q.inv q.moves)
        (fun _ _ q => h.moves (fun _ => hi) q.inv q.moves) fun _ => hlast hi
  | read success tag onMsg cb =>
      have hi := hinited (.inr hen)
      exact wp_read h.inv hen success tag onMsg cb (fun _ q => h.moves (fun _ => hi) q.inv q.moves)
        (fun _ _ q => h.moves (fun _ => hi) q.inv q.moves) fun _ => hlast hi

/-- Half-closing a call that is not initialised submits the wrong batch first. -/
theorem early_wrong (h : Started given s) (c : Call) (cb : Status → React)
    (hl : Early s (.call c cb) = true) :
    wp (Step.exec (.call c cb)) (fun _ s' => ¬ InitFirst s'.trace)
      (fun _ s' => ¬ InitFirst s'.trace) s := by
  simp only [Early, Bool.and_eq_true, Bool.not_eq_true'] at hl
  obtain ⟨⟨⟨hc, hs⟩, hi⟩, hclosing⟩ := hl
  -- Nothing can be queued before the first batch, so closing goes straight to the half-close.
  have hnone := h.none hi
  have hclose := (h.inv.not_closed (by simp [hclosing])).1
  have hq : s.msgQueue = [] := by
    by_contra hq
    exact h.inv.sending_batch (h.inv.busy hs hq) hnone
  -- The half-close is the first batch, in the place of the initial metadata.
  have hwrong : ∀ {tr}, s.trace ++ [.batch [.clientSendClose] (s.starts.headD true)] <+: tr →
      ¬ InitFirst tr := fun hp hf => absurd ((initFirst_iff hnone hp).mp hf) (by simp)
  have hearly : wp (closeWriting fun st => (cb st).prog) (fun _ s' => ¬ InitFirst s'.trace)
      (fun _ s' => ¬ InitFirst s'.trace) s := by
    have hb : Base given { s with writingClosing := true } :=
      { h.inv.toBase with
        close_closing := fun _ => rfl
        unwrapped := fun _ => rfl }
    have hb := hb.close hs rfl hclose hq (h.inv.sending_nil hq) (s.starts.headD true)
    simp only [closeWriting, sendClose, wp_bind, wp_get, wp_ite, wp_pure, wp_modify, wp_check,
      wp_submit]
    rw [if_neg (by simp [hclosing]), if_neg (by simp [hs]), if_neg (by simp [hq])]
    rw [if_pos (by simp [hclose]), if_pos trivial, if_pos (by simp [hclose]), if_pos hs]
    split
    · rw [if_pos trivial]
      exact hwrong List.prefix_rfl
    · refine wp_mono (wp_setInternalError (fun st => prog_keeps (cb st)) (.refl _) hs
        (hb.fail rfl)) ?_ fun _ _ h' => hwrong h'.1.2.trace
      rintro _ s' ⟨⟨-, g⟩, -⟩
      have := hwrong g.trace
      split <;> exact this
  cases c with
  | closeWriting => exact hearly
  | destroyWrapper =>
      simp only [Step.exec, Call.exec, wp_bind, wp_modify]
      exact hearly
  | _ => simp [Call.closesWriting] at hc

/-- **The first batch.**  The first batch sends the initial metadata in every state a run reaches
exactly when no step half-closes a call that is not initialised. -/
theorem initFirst_along_iff (statusCb : Bool) (starts : List Bool) (final : Status)
    (ls : List Step) (h : Legal (new statusCb starts final) ls) :
    (∀ pre, pre <+: ls → InitFirst (after (new statusCb starts final) pre).state.trace) ↔
      Process.Along Step.exec (fun s l => Early s l = false)
        (.running (new statusCb starts final)) ls := by
  refine Process.along_iff (I := Started statusCb) (A := Step.Enabled) (fun _ hI => hI.first)
    (fun s l hI hen hl => step_started hI l hen hl) ?_ ?_ h
  · intro s l hI hen hbad
    cases l with
    | call c cb => exact early_wrong hI c cb (by simpa using hbad)
    | sent success cb => exact absurd rfl hbad
    | read success tag onMsg cb => exact absurd rfl hbad
  · exact ⟨Inv.new _ _ _, fun b hb => by simp [new, batches] at hb, fun _ => rfl⟩

/-- The wrapper of a stream that was never used is destroyed: the half-close comes first. -/
theorem closed_first :
    Legal (new true [] .OK) [.call .destroyWrapper idle] ∧
      ¬ InitFirst (after (new true [] .OK) [.call .destroyWrapper idle]).state.trace :=
  ⟨by decide, fun h => absurd (h [.clientSendClose] rfl) (by decide)⟩

theorem initFirst_along_iff_destroyWrapper :
    (∀ pre, pre <+: [.call .destroyWrapper idle] →
        InitFirst (after (new true [] .OK) pre).state.trace) ↔
      Process.Along Step.exec (fun s l => Early s l = false)
        (.running (new true [] .OK)) [.call .destroyWrapper idle] :=
  initFirst_along_iff true [] .OK _ (by decide)

end GrpcLua.ReaderWriter
