import GrpcLua.Server.Writer.Definitions

/-!
# Server — Writer — Invariant

What holds of a `ServerWriterImpl` between two critical sections, with one lemma for each way in
which a section changes it.  A message whose `StartBatch` fails closes the writer for good; the
invariant covers the states after such a failure as well, as long as the process runs.
-/

namespace GrpcLua.ServerWriter
open Prog Trace

/-! ### What the trace shows -/

/-- The messages whose batch has completed. -/
def completed (tr : List (Event Cb)) : List Bytes :=
  tr.filterMap fun | .sent m _ => some m | _ => none

/-- The statuses of the close calls. -/
def closes (tr : List (Event Cb)) : List Status :=
  tr.filterMap fun | .called (.close status) => some status | _ => none

/-- A status batch was handed to `StartBatch`. -/
def ended (tr : List (Event Cb)) : Bool :=
  tr.any fun | .batch b _ => b.status?.isSome | _ => false

/-- A message was handed to `StartBatch`, which failed. -/
def refused (tr : List (Event Cb)) : Bool :=
  tr.any fun | .batch b false => b.msg?.isSome | _ => false

/-- No `StartBatch` has failed. -/
def unfailed (tr : List (Event Cb)) : Bool :=
  tr.all fun | .batch _ started => started | _ => true

section append
variable (tr tr' : List (Event Cb))

@[simp] theorem completed_append : completed (tr ++ tr') = completed tr ++ completed tr' :=
  List.filterMap_append

@[simp] theorem closes_append : closes (tr ++ tr') = closes tr ++ closes tr' :=
  List.filterMap_append

@[simp] theorem ended_append : ended (tr ++ tr') = (ended tr || ended tr') := List.any_append

@[simp] theorem refused_append : refused (tr ++ tr') = (refused tr || refused tr') :=
  List.any_append

@[simp] theorem unfailed_append : unfailed (tr ++ tr') = (unfailed tr && unfailed tr') :=
  List.all_append

end append

/-! Each event, in each list and flag. -/

section events
variable (b : Batch) (m : Bytes) (r : Bool) (tr : List (Event Cb))

/-- Nothing has happened yet. -/
@[simp] theorem lists_nil : completed [] = [] ∧ handed ([] : List (Event Cb)) = [] ∧
    accepted ([] : List (Event Cb)) = [] ∧ GrpcLua.batches ([] : List (Event Cb)) = [] ∧
    closes [] = [] :=
  ⟨rfl, rfl, rfl, rfl, rfl⟩

@[simp] theorem flags_nil : refused [] = false ∧ ended [] = false ∧ unfailed [] = true :=
  ⟨rfl, rfl, rfl⟩

/-- What a batch adds to the lists. -/
@[simp] theorem lists_batch : completed (.batch b r :: tr) = completed tr ∧
    accepted (.batch b r :: tr) = accepted tr ∧
    GrpcLua.batches (.batch b r :: tr) = b :: GrpcLua.batches tr ∧
    closes (.batch b r :: tr) = closes tr :=
  ⟨rfl, rfl, rfl, rfl⟩

/-- What a batch does to the flags. -/
@[simp] theorem flags_batch :
    refused (.batch b r :: tr) = ((!r && b.msg?.isSome) || refused tr) ∧
    ended (.batch b r :: tr) = (b.status?.isSome || ended tr) ∧
    unfailed (.batch b r :: tr) = (r && unfailed tr) := by
  cases r <;> exact ⟨rfl, rfl, rfl⟩

/-- A batch that gRPC took hands over its message. -/
@[simp] theorem handed_true : handed (.batch b true :: tr) = b.msg?.toList ++ handed tr := by
  cases h : b.msg? <;> simp [handed, h]

@[simp] theorem handed_false : handed (.batch b false :: tr) = handed tr := rfl

/-- What the completion of a message adds to the lists. -/
@[simp] theorem lists_sent : completed (.sent m r :: tr) = m :: completed tr ∧
    handed (.sent m r :: tr) = handed tr ∧ accepted (.sent m r :: tr) = accepted tr ∧
    GrpcLua.batches (.sent m r :: tr) = GrpcLua.batches tr ∧
    closes (.sent m r :: tr) = closes tr :=
  ⟨rfl, rfl, rfl, rfl, rfl⟩

@[simp] theorem flags_sent : refused (.sent m r :: tr) = refused tr ∧
    ended (.sent m r :: tr) = ended tr ∧ unfailed (.sent m r :: tr) = unfailed tr :=
  ⟨rfl, rfl, rfl⟩

/-- What a call of `Write` adds to the lists. -/
@[simp] theorem lists_wrote : completed (.wrote m r :: tr) = completed tr ∧
    handed (.wrote m r :: tr) = handed tr ∧
    accepted (.wrote m r :: tr) = (if r then [m] else []) ++ accepted tr ∧
    GrpcLua.batches (.wrote m r :: tr) = GrpcLua.batches tr ∧
    closes (.wrote m r :: tr) = closes tr := by
  cases r <;> exact ⟨rfl, rfl, rfl, rfl, rfl⟩

@[simp] theorem flags_wrote : refused (.wrote m r :: tr) = refused tr ∧
    ended (.wrote m r :: tr) = ended tr ∧ unfailed (.wrote m r :: tr) = unfailed tr :=
  ⟨rfl, rfl, rfl⟩

/-- What any other call adds to the lists. -/
@[simp] theorem lists_called (k : Cb) : completed (.called k :: tr) = completed tr ∧
    handed (.called k :: tr) = handed tr ∧ accepted (.called k :: tr) = accepted tr ∧
    GrpcLua.batches (.called k :: tr) = GrpcLua.batches tr :=
  ⟨rfl, rfl, rfl, rfl⟩

@[simp] theorem flags_called (k : Cb) : refused (.called k :: tr) = refused tr ∧
    ended (.called k :: tr) = ended tr ∧ unfailed (.called k :: tr) = unfailed tr :=
  ⟨rfl, rfl, rfl⟩

@[simp] theorem closes_close (status : Status) :
    closes (.called (.close status) :: tr) = status :: closes tr := rfl

@[simp] theorem closes_syncWrote : closes (.called (.syncWrote m r) :: tr) = closes tr := rfl

end events

section batches
variable (msg : Bytes) (status : Status) (init : Bool)

@[simp] theorem msg?_msgBatch : (msgBatch msg init).msg? = some msg := by cases init <;> rfl
@[simp] theorem status?_msgBatch : (msgBatch msg init).status? = none := by cases init <;> rfl
@[simp] theorem msg?_statusBatch : (statusBatch status init).msg? = none := by cases init <;> rfl

@[simp] theorem status?_statusBatch :
    (statusBatch status init).status? = some ⟨status.code, cString status.details⟩ := by
  cases init <;> rfl

/-- The initial metadata go with the first batch. -/
@[simp] theorem mem_msgBatch : Op.sendInitMd ∈ msgBatch msg init ↔ init = true := by
  cases init <;> simp [msgBatch, initMd]

@[simp] theorem mem_statusBatch : Op.sendInitMd ∈ statusBatch status init ↔ init = true := by
  cases init <;> simp [statusBatch, initMd, Op.ofStatus]

end batches

/-- What holds of a batch that is handed to `StartBatch`: the initial metadata is part of the first
batch, and of no other; a status batch comes when every accepted message has completed, with the
status of the first close call, its details cut at the first NUL; and nothing follows it. -/
def Sound (pre : List (Event Cb)) : Event Cb → Prop
  | .batch b _ =>
      (.sendInitMd ∈ b ↔ batches pre = []) ∧ ended pre = false ∧
      ∀ st, b.status? = some st → (completed pre = handed pre ∧ handed pre = accepted pre) ∧
        ∃ first, (closes pre).head? = some first ∧ st = ⟨first.code, cString first.details⟩
  | _ => True

/-- After a message was refused by gRPC, no batch is submitted and no write returns true. -/
def Quiet (pre : List (Event Cb)) : Event Cb → Prop
  | .batch _ _ => refused pre = false
  | .wrote _ true => refused pre = false
  | .called (.syncWrote _ true) => refused pre = false
  | _ => True

/-! ### The invariant -/

structure Inv (s : ServerWriter) : Prop where
  sent : completed s.trace ++ s.sending = handed s.trace
  queued : handed s.trace ++ s.queue = accepted s.trace
  one_sending : s.sending.length ≤ 1
  queue_sending : s.queue ≠ [] → s.sending ≠ []
  sending_flag : s.sending ≠ [] → s.isSending = true
  flag_sending : s.isSending = true → s.sending ≠ [] ∨ refused s.trace = true
  closed_sending : s.closed = true → s.sending = []
  refused_closed : refused s.trace = true → s.closed = true
  ended_closed : ended s.trace = true → s.closed = true
  closed_cases : s.closed = true → refused s.trace = true ∨ ended s.trace = true
  open_unfailed : s.closed = false → unfailed s.trace = true
  init : s.closed = false → (s.sendInitMd = true ↔ batches s.trace = [])
  close_first : ∀ st, s.closeStatus = some st → (closes s.trace).head? = some st
  close_none : s.closed = false → s.closeStatus = none → closes s.trace = []
  sound : Whenever Sound s.trace
  quiet : Whenever Quiet s.trace

/-- A new writer keeps the invariant. -/
theorem Inv.new (starts : List Bool) (n : Nat) : Inv (new starts n) where
  sent := rfl
  queued := rfl
  one_sending := Nat.zero_le 1
  queue_sending := fun h => absurd rfl h
  sending_flag := fun h => absurd rfl h
  flag_sending := fun h => absurd h (by simp [ServerWriter.new])
  closed_sending := fun _ => rfl
  refused_closed := fun h => absurd h (by simp [ServerWriter.new, refused])
  ended_closed := fun h => absurd h (by simp [ServerWriter.new, ended])
  closed_cases := fun h => absurd h (by simp [ServerWriter.new])
  open_unfailed := fun _ => rfl
  init := fun _ => by simp [ServerWriter.new, batches]
  close_first := fun st h => absurd h (by simp [ServerWriter.new])
  close_none := fun _ _ => rfl
  sound := whenever_nil
  quiet := whenever_nil

variable {s : ServerWriter}

/-- While the writer is open, no message was refused and no status was sent. -/
theorem Inv.of_open (h : Inv s) (hc : s.closed = false) :
    refused s.trace = false ∧ ended s.trace = false := by
  constructor
  · by_contra hr
    exact absurd (hc.symm.trans (h.refused_closed (by simpa using hr))) (by simp)
  · by_contra he
    exact absurd (hc.symm.trans (h.ended_closed (by simpa using he))) (by simp)

/-- With the queue empty and nothing in flight, every accepted message has completed. -/
theorem Inv.drained (h : Inv s) (hq : s.queue = []) (hs : s.sending = []) :
    completed s.trace = handed s.trace ∧ handed s.trace = accepted s.trace := by
  have h₁ := h.sent
  have h₂ := h.queued
  rw [hs, List.append_nil] at h₁
  rw [hq, List.append_nil] at h₂
  exact ⟨h₁, h₂⟩

/-- An open writer that is not sending has nothing in flight and nothing queued. -/
theorem Inv.idle (h : Inv s) (hs : s.isSending = false) : s.sending = [] ∧ s.queue = [] := by
  have hsend : s.sending = [] := by
    by_contra hf
    exact absurd (hs.symm.trans (h.sending_flag hf)) (by simp)
  refine ⟨hsend, ?_⟩
  by_contra hq
  exact h.queue_sending hq hsend

/-! ### The moves -/

/-- A call has returned, with nothing sent or accepted. -/
theorem Inv.returned (h : Inv s) {e : Event Cb}
    (he : (∃ m, e = .wrote m false) ∨ ∃ m r, e = .called (.syncWrote m r))
    (hq : Quiet s.trace e) : Inv { s with trace := s.trace ++ [e] } := by
  have hs : Sound s.trace e := by
    rcases he with ⟨m, rfl⟩ | ⟨m, r, rfl⟩ <;> trivial
  refine
    { h with
      sent := ?_
      queued := ?_
      flag_sending := ?_
      refused_closed := ?_
      ended_closed := ?_
      closed_cases := ?_
      open_unfailed := ?_
      init := ?_
      close_first := ?_
      close_none := ?_
      sound := (whenever_concat _).mpr ⟨h.sound, hs⟩
      quiet := (whenever_concat _).mpr ⟨h.quiet, hq⟩ }
  all_goals
    rcases he with ⟨m, rfl⟩ | ⟨m, r, rfl⟩ <;> simp
  all_goals first
    | exact h.sent
    | exact h.queued
    | exact h.flag_sending
    | exact h.refused_closed
    | exact h.ended_closed
    | exact h.closed_cases
    | exact h.open_unfailed
    | exact h.init
    | exact h.close_first
    | exact h.close_none

/-- A message is accepted behind the one in flight. -/
theorem Inv.push (h : Inv s) (hs : s.isSending = true) (hc : s.closed = false) (m : Bytes) :
    Inv { s with queue := s.queue ++ [m], trace := s.trace ++ [.wrote m true] } := by
  have hr := (h.of_open hc).1
  have hsend : s.sending ≠ [] := (h.flag_sending hs).resolve_right (by simp [hr])
  exact
    { h with
      sent := by simpa using h.sent
      queued := by simp [← h.queued]
      queue_sending := fun _ => hsend
      flag_sending := fun _ => .inl hsend
      refused_closed := by simpa using h.refused_closed
      ended_closed := by simpa using h.ended_closed
      closed_cases := by simpa using h.closed_cases
      open_unfailed := by simpa using h.open_unfailed
      init := by simpa using h.init
      close_first := by simpa using h.close_first
      close_none := by simpa using h.close_none
      sound := (whenever_concat _).mpr ⟨h.sound, trivial⟩
      quiet := (whenever_concat _).mpr ⟨h.quiet, hr⟩ }

/-- A message batch of an open writer is sound. -/
theorem Inv.sound_msg (h : Inv s) (hc : s.closed = false) (m : Bytes) (b : Bool) :
    Whenever Sound (s.trace ++ [.batch (msgBatch m s.sendInitMd) b]) ∧
      Whenever Quiet (s.trace ++ [.batch (msgBatch m s.sendInitMd) b]) := by
  obtain ⟨hr, he⟩ := h.of_open hc
  refine ⟨(whenever_concat _).mpr ⟨h.sound, ?_, he, ?_⟩, (whenever_concat _).mpr ⟨h.quiet, hr⟩⟩
  · rw [mem_msgBatch]
    exact h.init hc
  · intro st hst
    simp at hst

/-- The object after `StartBatch` has taken a message. -/
abbrev started (s : ServerWriter) (m : Bytes) : ServerWriter :=
  { s with
    isSending := true
    sendInitMd := false
    starts := s.starts.tail
    trace := s.trace ++ [.batch (msgBatch m s.sendInitMd) true]
    sending := s.sending ++ [m] }

/-- The object after `StartBatch` has refused a message. -/
abbrev failed (s : ServerWriter) (m : Bytes) : ServerWriter :=
  { s with
    closed := true
    isSending := true
    queue := []
    starts := s.starts.tail
    trace := s.trace ++ [.batch (msgBatch m s.sendInitMd) false] }

/-- A message is accepted and started at once. -/
theorem Inv.start (h : Inv s) (hs : s.isSending = false) (hc : s.closed = false) (m : Bytes) :
    Inv { started s m with
      trace := s.trace ++ [.batch (msgBatch m s.sendInitMd) true] ++ [.wrote m true] } := by
  obtain ⟨hr, he⟩ := h.of_open hc
  obtain ⟨hsend, hq⟩ := h.idle hs
  obtain ⟨hcompleted, hhanded⟩ := h.drained hq hsend
  obtain ⟨hsound, hquiet⟩ := h.sound_msg hc m true
  have hne : ¬ s.closed = true := by simp [hc]
  exact
    { h with
      sent := by simp [hsend, hcompleted]
      queued := by simp [hq, hhanded]
      one_sending := by simp [hsend]
      queue_sending := fun _ => by simp
      sending_flag := fun _ => rfl
      flag_sending := fun _ => .inl (by simp)
      closed_sending := fun h' => absurd h' hne
      refused_closed := by simp [hr]
      ended_closed := by simp [he]
      closed_cases := fun h' => absurd h' hne
      open_unfailed := by simpa using h.open_unfailed
      init := by simp
      close_first := by simpa using h.close_first
      close_none := by simpa using h.close_none
      sound := (whenever_concat _).mpr ⟨hsound, trivial⟩
      quiet := (whenever_concat _).mpr ⟨hquiet, by simp [Quiet, hr]⟩ }

/-- A message is refused at once: the writer is closed. -/
theorem Inv.fail (h : Inv s) (hs : s.isSending = false) (hc : s.closed = false) (m : Bytes) :
    Inv (failed s m) := by
  obtain ⟨-, he⟩ := h.of_open hc
  obtain ⟨hsend, hq⟩ := h.idle hs
  obtain ⟨hsound, hquiet⟩ := h.sound_msg hc m false
  exact
    { h with
      sent := by simpa using h.sent
      queued := by
        have := h.queued
        rw [hq] at this
        simpa using this
      queue_sending := fun h' => absurd rfl h'
      sending_flag := fun _ => rfl
      flag_sending := fun _ => .inr (by simp)
      closed_sending := fun _ => hsend
      refused_closed := fun _ => rfl
      ended_closed := fun _ => rfl
      closed_cases := fun _ => .inl (by simp)
      open_unfailed := fun h' => absurd h' (by simp)
      init := fun h' => absurd h' (by simp)
      close_first := by simpa using h.close_first
      close_none := fun h' => absurd h' (by simp)
      sound := hsound
      quiet := hquiet }

/-- A close call that comes too late. -/
theorem Inv.close_late (h : Inv s) (hs : (s.closed || s.closeStatus.isSome) = true)
    (status : Status) : Inv { s with trace := s.trace ++ [.called (.close status)] } := by
  refine
    { h with
      sent := by simpa using h.sent
      queued := by simpa using h.queued
      flag_sending := by simpa using h.flag_sending
      refused_closed := by simpa using h.refused_closed
      ended_closed := by simpa using h.ended_closed
      closed_cases := by simpa using h.closed_cases
      open_unfailed := by simpa using h.open_unfailed
      init := by simpa using h.init
      close_first := fun st hst => ?_
      close_none := fun hc hn => ?_
      sound := (whenever_concat _).mpr ⟨h.sound, trivial⟩
      quiet := (whenever_concat _).mpr ⟨h.quiet, trivial⟩ }
  · obtain ⟨rest, hrest⟩ := List.head?_eq_some_iff.mp (h.close_first st hst)
    simp [hrest]
  · simp [show s.closed = false from hc, show s.closeStatus = none from hn] at hs

/-- The first close call leaves its status. -/
theorem Inv.close (h : Inv s) (hc : s.closed = false) (hn : s.closeStatus = none)
    (status : Status) :
    Inv { s with closeStatus := some status, trace := s.trace ++ [.called (.close status)] } :=
  { h with
    sent := by simpa using h.sent
    queued := by simpa using h.queued
    flag_sending := by simpa using h.flag_sending
    refused_closed := by simpa using h.refused_closed
    ended_closed := by simpa using h.ended_closed
    closed_cases := by simpa using h.closed_cases
    open_unfailed := by simpa using h.open_unfailed
    init := by simpa using h.init
    close_first := by simp [h.close_none hc hn]
    close_none := fun _ h' => absurd h' (by simp)
    sound := (whenever_concat _).mpr ⟨h.sound, trivial⟩
    quiet := (whenever_concat _).mpr ⟨h.quiet, trivial⟩ }

/-- The object after the status batch was handed to `StartBatch`. -/
abbrev closing (s : ServerWriter) (status : Status) (b : Bool) : ServerWriter :=
  { s with
    closed := true
    starts := s.starts.tail
    trace := s.trace ++ [.batch (statusBatch status s.sendInitMd) b] }

/-- An idle writer that is to be closed submits its status. -/
theorem Inv.end (h : Inv s) (hs : s.isSending = false) (hc : s.closed = false) {status : Status}
    (hstatus : s.closeStatus = some status) (b : Bool) : Inv (closing s status b) := by
  obtain ⟨hr, he⟩ := h.of_open hc
  obtain ⟨hsend, hq⟩ := h.idle hs
  have hdrained := h.drained hq hsend
  have hsound : Sound s.trace (.batch (statusBatch status s.sendInitMd) b) := by
    refine ⟨?_, he, fun st hst => ⟨hdrained, status, h.close_first status hstatus, ?_⟩⟩
    · rw [mem_statusBatch]
      exact h.init hc
    · rw [status?_statusBatch] at hst
      exact (Option.some.inj hst).symm
  exact
    { h with
      sent := by cases b <;> simpa using h.sent
      queued := by cases b <;> simpa using h.queued
      flag_sending := fun h' => absurd (hs.symm.trans h') (by simp)
      closed_sending := fun _ => hsend
      refused_closed := fun _ => rfl
      ended_closed := fun _ => rfl
      closed_cases := fun _ => .inr (by simp)
      open_unfailed := fun h' => absurd h' (by simp)
      init := fun h' => absurd h' (by simp)
      close_first := by simpa using h.close_first
      close_none := fun h' => absurd h' (by simp)
      sound := (whenever_concat _).mpr ⟨h.sound, hsound⟩
      quiet := (whenever_concat _).mpr ⟨h.quiet, hr⟩ }

/-- The object when the message `m` in flight has completed. -/
abbrev popped (s : ServerWriter) (m : Bytes) (success : Bool) : ServerWriter :=
  { s with isSending := false, sending := [], trace := s.trace ++ [.sent m success] }

/-- The last message has completed. -/
theorem Inv.complete (h : Inv s) {m : Bytes} (hm : s.sending = [m]) (hq : s.queue = [])
    (success : Bool) : Inv (popped s m success) := by
  have hsent := h.sent
  rw [hm] at hsent
  exact
    { h with
      sent := by simpa using hsent
      queued := by simpa using h.queued
      one_sending := Nat.zero_le 1
      queue_sending := fun h' => absurd hq h'
      sending_flag := fun h' => absurd rfl h'
      flag_sending := fun h' => absurd h' (by simp)
      closed_sending := fun _ => rfl
      refused_closed := by simpa using h.refused_closed
      ended_closed := by simpa using h.ended_closed
      closed_cases := by simpa using h.closed_cases
      open_unfailed := by simpa using h.open_unfailed
      init := by simpa using h.init
      close_first := by simpa using h.close_first
      close_none := by simpa using h.close_none
      sound := (whenever_concat _).mpr ⟨h.sound, trivial⟩
      quiet := (whenever_concat _).mpr ⟨h.quiet, trivial⟩ }

/-- A message has completed, and the next one is started. -/
theorem Inv.next (h : Inv s) (hc : s.closed = false) {m m' : Bytes} {q : List Bytes}
    (hm : s.sending = [m]) (hq : s.queue = m' :: q) (success : Bool) :
    Inv { started (popped s m success) m' with queue := q } := by
  obtain ⟨hr, he⟩ := h.of_open hc
  have hsent := h.sent
  have hqueued := h.queued
  rw [hm] at hsent
  rw [hq] at hqueued
  have hne : ¬ s.closed = true := by simp [hc]
  have hsound : Sound (s.trace ++ [.sent m success])
      (.batch (msgBatch m' s.sendInitMd) true) := by
    refine ⟨?_, by simp [he], fun st hst => absurd hst (by simp)⟩
    rw [mem_msgBatch]
    simpa using h.init hc
  exact
    { h with
      sent := by simp [hsent]
      queued := by simp [← hqueued]
      one_sending := by simp
      queue_sending := fun _ => by simp
      sending_flag := fun _ => rfl
      flag_sending := fun _ => .inl (by simp)
      closed_sending := fun h' => absurd h' hne
      refused_closed := by simp [hr]
      ended_closed := by simp [he]
      closed_cases := fun h' => absurd h' hne
      open_unfailed := by simpa using h.open_unfailed
      init := by simp
      close_first := by simpa using h.close_first
      close_none := by simpa using h.close_none
      sound := (whenever_concat _).mpr ⟨(whenever_concat _).mpr ⟨h.sound, trivial⟩, hsound⟩
      quiet := (whenever_concat _).mpr
        ⟨(whenever_concat _).mpr ⟨h.quiet, trivial⟩, by simp [Quiet, hr]⟩ }

end GrpcLua.ServerWriter
