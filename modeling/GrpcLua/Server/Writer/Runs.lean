import GrpcLua.Server.Writer.Sections

/-!
# Server — Writer — Runs

`ServerWriterImpl` over every interleaving of its threads' critical sections and its completions.

* `server_orderly_iff`: as long as no `StartBatch` has failed, messages and batches are in order;
  and the status is that of the first close call, unless its details are cut at a NUL.
* `refused_iff`: once `StartBatch` has refused a message, the writer is closed and silent; unless
  the message came from the queue, where `pop()` is undefined.
-/

namespace GrpcLua.ServerWriter
open Prog Trace

variable {s : ServerWriter}

/-- The invariant of the process: it runs in a state of `Inv`, or a queued message was lost. -/
def Sane : Process ServerWriter → Prop :=
  Process.Holds Inv fun e s => e = .undefined ∧ unfailed s.trace = false

/-- A step that loses no message leaves the process running. -/
theorem next_leads (h : Inv s) (l : Step) (hl : Step.Enabled s l) (hlose : ¬ Loses s l) :
    ∃ s', Process.next Step.exec (.running s) l = .running s' ∧ Leads s (ends s l) s' := by
  have hh := Process.holds_next (J := fun _ _ => False)
    (wp_mono (step_leads h l hl hlose) (fun _ _ h' => h') fun _ _ hf => hf.elim)
  cases hs : Process.next Step.exec (.running s) l with
  | running s' =>
      rw [hs] at hh
      exact ⟨s', rfl, hh⟩
  | stopped e s' =>
      rw [hs] at hh
      exact hh.elim

/-- A step that loses a message stops the process. -/
theorem next_loses (h : Inv s) (l : Step) (hl : Step.Enabled s l) (hlose : Loses s l) :
    ∃ s', Process.next Step.exec (.running s) l = .stopped .undefined s' ∧
      unfailed s'.trace = false := by
  have hh := Process.holds_next (I := fun _ => False)
    (J := fun e s' => e = .undefined ∧ unfailed s'.trace = false)
    (wp_mono (step_loses h l hl hlose) (fun _ _ hf => hf) fun e _ h' => by
      obtain ⟨rfl, h'⟩ := h'
      exact ⟨rfl, h'⟩)
  cases hs : Process.next Step.exec (.running s) l with
  | running s' =>
      rw [hs] at hh
      exact hh.elim
  | stopped e s' =>
      rw [hs] at hh
      obtain ⟨rfl, h'⟩ := hh
      exact ⟨s', rfl, h'⟩

theorem next_sane (h : Inv s) (l : Step) (hl : Step.Enabled s l) :
    Sane (Process.next Step.exec (.running s) l) := by
  by_cases hlose : Loses s l
  · obtain ⟨s', hs, h'⟩ := next_loses h l hl hlose
    rw [hs]
    exact ⟨rfl, h'⟩
  · obtain ⟨s', hs, h'⟩ := next_leads h l hl hlose
    rw [hs]
    exact h'.inv

/-! ### Order -/

/-- The initial metadata is part of the first batch, and of no other. -/
def FirstMd (pre : List (Event Cb)) : Event Cb → Prop
  | .batch b _ => .sendInitMd ∈ b ↔ batches pre = []
  | _ => True

/-- A status batch comes when every accepted message has completed, and nothing follows it. -/
def StatusLast (pre : List (Event Cb)) : Event Cb → Prop
  | .batch b _ => ended pre = false ∧
      (b.status? ≠ none → completed pre = handed pre ∧ handed pre = accepted pre)
  | _ => True

/-- Messages and batches are in order. -/
structure Orderly (s : ServerWriter) : Prop where
  /-- At most one message is in flight, and the flag says so. -/
  one_sending : s.sending.length ≤ 1
  flag : s.isSending = true ↔ s.sending ≠ []
  /-- What was handed to gRPC and what is queued is what was accepted. -/
  messages : handed s.trace ++ s.queue = accepted s.trace
  first_md : Whenever FirstMd s.trace
  status_last : Whenever StatusLast s.trace
  /-- The status batch carries the status of the first close call. -/
  carries : ∀ b r st, .batch b r ∈ s.trace → b.status? = some st →
    (closes s.trace).head? = some st

/-- The status that was submitted, if one was, is free of NULs. -/
def Uncut (tr : List (Event Cb)) : Prop :=
  ended tr = true → unfailed tr = true → ∀ first, (closes tr).head? = some first →
    (0 : UInt8) ∉ first.details

/-- A status batch of the trace carries the first close call's status as far as the first NUL. -/
theorem Inv.carried (h : Inv s) {b : Batch} {r : Bool} {st : Status}
    (hb : .batch b r ∈ s.trace) (hst : b.status? = some st) :
    ∃ first, (closes s.trace).head? = some first ∧ st = ⟨first.code, cString first.details⟩ := by
  obtain ⟨pre, post, htr⟩ := List.append_of_mem hb
  obtain ⟨-, -, hs⟩ := h.sound pre (.batch b r) post htr
  obtain ⟨-, first, hfirst, hcut⟩ := hs st hst
  obtain ⟨rest, hrest⟩ := List.head?_eq_some_iff.mp hfirst
  refine ⟨first, ?_, hcut⟩
  rw [htr, closes_append, hrest]
  rfl

/-- A status batch of the trace. -/
theorem exists_status {tr : List (Event Cb)} (h : ended tr = true) :
    ∃ b r st, .batch b r ∈ tr ∧ b.status? = some st := by
  obtain ⟨e, he, hst⟩ := List.any_eq_true.mp h
  cases e with
  | batch b r =>
      obtain ⟨st, hst⟩ := Option.isSome_iff_exists.mp hst
      exact ⟨b, r, st, he, hst⟩
  | sent m r => simp at hst
  | wrote m r => simp at hst
  | called k => simp at hst

/-- As long as no `StartBatch` has failed, the object is orderly exactly when no status was cut. -/
theorem Inv.orderly_iff (h : Inv s) (hu : unfailed s.trace = true) :
    Orderly s ↔ Uncut s.trace := by
  -- Where no batch was refused, `refused` is false.
  have hr : refused s.trace = false := by
    by_contra hr
    rw [Bool.not_eq_false] at hr
    obtain ⟨e, he, hm⟩ := List.any_eq_true.mp hr
    have hstarted := List.all_eq_true.mp hu e he
    cases e with
    | batch b r =>
        cases r with
        | true => simp at hm
        | false => simp at hstarted
    | sent m r => simp at hm
    | wrote m r => simp at hm
    | called k => simp at hm
  constructor
  · -- `Orderly` has the status as it was closed with, so the cut took nothing away.
    intro ho he _ first hfirst
    obtain ⟨b, r, st, hb, hst⟩ := exists_status he
    obtain ⟨first', hfirst', hcut⟩ := h.carried hb hst
    have hcarry := ho.carries b r st hb hst
    rw [hfirst] at hfirst' hcarry
    cases hfirst'
    cases hcarry
    exact cString_eq_self.mp (congrArg Status.details hcut).symm
  · -- The other parts of `Orderly` hold of all unfailed runs.
    intro hcut
    refine
      { one_sending := h.one_sending
        flag := ⟨fun hs => (h.flag_sending hs).resolve_right (by simp [hr]), h.sending_flag⟩
        messages := h.queued
        first_md := h.sound.mono ?_
        status_last := h.sound.mono ?_
        carries := ?_ }
    · intro pre e hs
      cases e with
      | batch b r => exact hs.1
      | _ => trivial
    · intro pre e hs
      cases e with
      | batch b r =>
          refine ⟨hs.2.1, fun hne => ?_⟩
          obtain ⟨st, hst⟩ := Option.ne_none_iff_exists'.mp hne
          exact (hs.2.2 st hst).1
      | _ => trivial
    · intro b r st hb hst
      have he : ended s.trace = true :=
        List.any_eq_true.mpr ⟨_, hb, by simp [hst]⟩
      obtain ⟨first, hfirst, hcarry⟩ := h.carried hb hst
      rw [hfirst, hcarry, cString_eq_self.mpr (hcut he hu first hfirst)]

/-- The step submits a status with a NUL in its details. -/
def Cuts (s : ServerWriter) (l : Step) : Prop :=
  s.starts.headD true = true ∧ ∃ st ∈ ends s l, (0 : UInt8) ∈ st.details

/-- As long as no `StartBatch` has failed, a step leaves a cut status exactly if it cuts it. -/
theorem Leads.uncut_iff {l : Step} {s' : ServerWriter} (h : Leads s (ends s l) s') (hI : Inv s)
    (hcut : Uncut s.trace) (hu : unfailed s'.trace = true) : Uncut s'.trace ↔ ¬ Cuts s l := by
  constructor
  · rintro h' ⟨-, st, hst, hnul⟩
    obtain ⟨he, hfirst, -⟩ := h.submits st hst
    exact h' he hu st hfirst hnul
  · intro hl he _ first hfirst
    rcases h.ended_by he with he | hst
    · -- The status was submitted before, and it is still that of the first close call.
      obtain ⟨rest, hrest⟩ := h.trace_prefix
      obtain ⟨b, r, st, hb, hst⟩ := exists_status he
      obtain ⟨first', hfirst', -⟩ := hI.carried hb hst
      rw [← hrest] at hu hfirst
      obtain ⟨tail, htail⟩ := List.head?_eq_some_iff.mp hfirst'
      rw [closes_append, htail, List.cons_append, List.head?_cons] at hfirst
      cases hfirst
      rw [unfailed_append, Bool.and_eq_true] at hu
      exact hcut he hu.1 first hfirst'
    · obtain ⟨st, hst⟩ := Option.isSome_iff_exists.mp hst
      obtain ⟨-, hfirst', hstart⟩ := h.submits st hst
      rw [hfirst] at hfirst'
      cases hfirst'
      exact fun hnul => hl ⟨hstart.symm.trans hu, first, hst, hnul⟩

/-- Once a `StartBatch` has failed, it has. -/
theorem Leads.unfailed {st : Option Status} {s' : ServerWriter} (h : Leads s st s')
    (hu : unfailed s'.trace = true) : ServerWriter.unfailed s.trace = true := by
  obtain ⟨rest, hrest⟩ := h.trace_prefix
  rw [← hrest, unfailed_append, Bool.and_eq_true] at hu
  exact hu.1

/-- **Order.**  In every run, as long as no `StartBatch` has failed, the process is running and
messages and batches are in order, exactly if no step submits a status with a NUL in its
details. -/
theorem server_orderly_iff (starts : List Bool) (n : Nat) (ls : List Step)
    (h : Legal (new starts n) ls) :
    (∀ pre, pre <+: ls → unfailed (after (new starts n) pre).state.trace = true →
      ∃ s, after (new starts n) pre = .running s ∧ Orderly s) ↔
    Process.Along Step.exec (fun s l => ¬ Cuts s l) (.running (new starts n)) ls := by
  refine Process.along_iff_next (A := Step.Enabled)
    (I := fun c => Sane c ∧ (unfailed c.state.trace = true → Uncut c.state.trace))
    (Q := fun c => unfailed c.state.trace = true → ∃ s, c = .running s ∧ Orderly s)
    ?_ ?_ ?_ ⟨Inv.new starts n, fun _ he => absurd he (by simp [new])⟩ h
  · rintro (s | ⟨e, s⟩) ⟨hc, hcut⟩ hu
    · exact ⟨s, rfl, ((show Inv s from hc).orderly_iff hu).mpr (hcut hu)⟩
    · exact absurd (hc.2.symm.trans hu) (by simp)
  · rintro s l ⟨hI, hcut⟩ hl hP
    refine ⟨next_sane hI l hl, fun hu => ?_⟩
    by_cases hlose : Loses s l
    · obtain ⟨s', hs, hu'⟩ := next_loses hI l hl hlose
      rw [hs] at hu
      exact absurd (hu'.symm.trans hu) (by simp)
    · obtain ⟨s', hs, h'⟩ := next_leads hI l hl hlose
      rw [hs] at hu ⊢
      exact (h'.uncut_iff hI (hcut (h'.unfailed hu)) hu).mpr hP
  · -- A step that cuts hands gRPC a status, which gRPC takes, so it loses no message.
    rintro s l ⟨hI, hcut⟩ hl hP hQ
    have hcuts : Cuts s l := by
      by_contra hn
      exact hP hn
    obtain ⟨hstart, st, hst, hnul⟩ := hcuts
    have hlose : ¬ Loses s l := by
      intro hlose
      cases l with
      | complete success => exact absurd (hlose.2.2.symm.trans hstart) (by simp)
      | call i c => exact hlose
      | resume i => exact hlose
      | destroy => exact hlose
    obtain ⟨s', hs, h'⟩ := next_leads hI l hl hlose
    rw [hs] at hQ
    have hu : unfailed s'.trace = true := (h'.submits st hst).2.2.trans hstart
    obtain ⟨s₁, hs₁, ho⟩ := hQ hu
    cases hs₁
    exact (h'.uncut_iff hI (hcut (h'.unfailed hu)) hu).mp ((h'.inv.orderly_iff hu).mp ho)
      ⟨hstart, st, hst, hnul⟩

/-- Two threads: a message is queued behind the one in flight and the status waits for both. -/
theorem server_orderly_iff_waiting :
    let ls : List Step := [.call 0 (.syncWrite [1]), .resume 0, .call 1 (.asyncWrite [2]),
      .resume 1, .call 1 (.asyncClose ⟨.internal, [120]⟩), .resume 1, .complete true, .resume 0,
      .complete false, .resume 0, .destroy]
    (∀ pre, pre <+: ls → unfailed (after (new [] 2) pre).state.trace = true →
      ∃ s, after (new [] 2) pre = .running s ∧ Orderly s) ↔
    Process.Along Step.exec (fun s l => ¬ Cuts s l) (.running (new [] 2)) ls :=
  server_orderly_iff [] 2 _ (by decide)

/-- The details of a status are cut at their first NUL. -/
theorem status_cut :
    let ls : List Step := [.call 0 (.asyncClose ⟨.internal, [97, 0, 98]⟩), .resume 0]
    let s := (after (new [] 1) ls).state
    Legal (new [] 1) ls ∧ unfailed s.trace = true ∧
      (closes s.trace).head? = some ⟨.internal, [97, 0, 98]⟩ ∧
      batches s.trace = [[.sendInitMd, .serverSendStatus ⟨.internal, [97]⟩]] := by
  decide

/-! ### Refused messages -/

/-- Once a message was refused, the writer is closed and silent, and nobody waits for it. -/
structure Handled (s : ServerWriter) : Prop where
  closed : refused s.trace = true → s.closed = true ∧ s.queue = []
  waits : refused s.trace = true → getQueueSize s = 0
  quiet : Whenever Quiet s.trace

theorem Inv.handled (h : Inv s) : Handled s := by
  have hq : refused s.trace = true → s.queue = [] := by
    intro hr
    by_contra hq
    exact h.queue_sending hq (h.closed_sending (h.refused_closed hr))
  refine ⟨fun hr => ⟨h.refused_closed hr, hq hr⟩, fun hr => ?_, h.quiet⟩
  rw [getQueueSize, hq hr]
  rfl

/-- **Refusal.**  In every run, the process is running and a refused message leaves the writer
closed and silent, exactly if no step loses a queued message. -/
theorem refused_iff (starts : List Bool) (n : Nat) (ls : List Step)
    (h : Legal (new starts n) ls) :
    (∀ pre, pre <+: ls → ∃ s, after (new starts n) pre = .running s ∧ Handled s) ↔
    Process.Along Step.exec (fun s l => ¬ Loses s l) (.running (new starts n)) ls := by
  refine Process.along_iff_next (A := Step.Enabled)
    (I := fun c => ∃ s, c = .running s ∧ Inv s)
    (Q := fun c => ∃ s, c = .running s ∧ Handled s) ?_ ?_ ?_ ⟨_, rfl, Inv.new starts n⟩ h
  · rintro c ⟨s, rfl, hI⟩
    exact ⟨s, rfl, hI.handled⟩
  · rintro s l ⟨s₀, hs₀, hI⟩ hl hP
    cases hs₀
    obtain ⟨s', hs, h'⟩ := next_leads hI l hl hP
    exact ⟨s', hs, h'.inv⟩
  · rintro s l ⟨s₀, hs₀, hI⟩ hl hP ⟨s₁, hs₁, -⟩
    cases hs₀
    have hlose : Loses s l := by
      by_contra hn
      exact hP hn
    obtain ⟨s', hs, -⟩ := next_loses hI l hl hlose
    rw [hs] at hs₁
    cases hs₁

/-- The first message is refused at once. -/
theorem refused_iff_direct :
    let ls : List Step := [.call 0 (.syncWrite [1]), .resume 0, .call 0 (.asyncWrite [2]),
      .resume 0, .call 0 (.syncClose .OK), .resume 0, .resume 0, .destroy]
    (∀ pre, pre <+: ls → ∃ s, after (new [false] 1) pre = .running s ∧ Handled s) ↔
    Process.Along Step.exec (fun s l => ¬ Loses s l) (.running (new [false] 1)) ls :=
  refused_iff [false] 1 _ (by decide)

/-- The second message waits behind the first, and is refused when the first has completed. -/
theorem popped_empty :
    let ls : List Step := [.call 0 (.asyncWrite [1]), .resume 0, .call 0 (.asyncWrite [2]),
      .resume 0, .complete true]
    Legal (new [true, false] 1) ls ∧ ∃ s, after (new [true, false] 1) ls = .stopped .undefined s :=
  ⟨by decide, _, rfl⟩

end GrpcLua.ServerWriter
