import GrpcLua.Server.Writer.Frames
import GrpcLua.Server.Writer.Runs
import GrpcLua.Support.History
import Mathlib.Logic.Function.Basic

/-!
# Server — Writer — SyncWrites

What `SyncWrite()` returns, and what becomes of its response.  An observer notes the place of each
response among the messages that are handed to gRPC and queued, and what the calls return.

A call that has its response accepted waits until the queue is empty, and then every message has
been handed to gRPC.  But it returns `!closed_`, and other threads may have closed the writer
meanwhile (`honest_iff`).
-/

namespace GrpcLua.ServerWriter
open Prog Trace

/-! ### The observer -/

/-- The messages that were handed to gRPC, and behind them those in the queue. -/
def taken (s : ServerWriter) : List Bytes := handed s.trace ++ s.queue

/-- The number of a response among the messages taken, and the response. -/
abbrev Place := Nat × Bytes

/-- The place that a critical section has given to the response, if it has taken it. -/
def placed (s s' : ServerWriter) (response : Bytes) : Option Place :=
  if (taken s).length < (taken s').length then some ((taken s).length, response) else none

/-- What a `SyncWrite()` has returned among the events. -/
def returned? (tr : List (Event Cb)) : Option Bool :=
  tr.findSome? fun | .called (.syncWrote _ r) => some r | _ => none

/-- The notes: for each thread the place of its response, and the places and results of the
`SyncWrite()`s that have returned. -/
structure SyncWrites where
  place : Nat → Option Place := fun _ => none
  returns : List (Option Place × Bool) := []

namespace SyncWrites

/-- The place of the response of thread `i`, once its critical section has led to `s'`. -/
def placeOf (h : SyncWrites) (s s' : ServerWriter) (i : Nat) : Option Place :=
  match s.threads.getD i .idle with
  | .syncWrite response => placed s s' response
  | _ => h.place i

def observe (s : ServerWriter) (l : Step) (s' : ServerWriter) (h : SyncWrites) : SyncWrites :=
  match l with
  | .resume i =>
      { place := Function.update h.place i (h.placeOf s s' i)
        returns := h.returns ++
          (returned? (s'.trace.drop s.trace.length)).toList.map (h.placeOf s s' i, ·) }
  | _ => h

end SyncWrites

/-- The response at the place was handed to gRPC, in a batch that `StartBatch` took. -/
def Sent (tr : List (Event Cb)) : Option Place → Prop
  | some (n, response) => (handed tr)[n]? = some response
  | none => False

instance Sent.decidable (tr : List (Event Cb)) : (place : Option Place) → Decidable (Sent tr place)
  | some (n, response) => inferInstanceAs (Decidable ((handed tr)[n]? = some response))
  | none => isFalse id

/-- Every `SyncWrite()` that has returned has returned true exactly if its response was sent. -/
def Honest (c : ServerWriter × SyncWrites) : Prop :=
  ∀ ret ∈ c.2.returns, ret.2 = true ↔ Sent c.1.trace ret.1

instance Honest.decidable (c : ServerWriter × SyncWrites) : Decidable (Honest c) :=
  inferInstanceAs (Decidable (∀ ret ∈ c.2.returns, ret.2 = true ↔ Sent c.1.trace ret.1))

/-- A `SyncWrite()` comes to its last critical section, and the writer has been closed. -/
def Misleads (s : ServerWriter) : Step → Prop
  | .resume i => s.closed = true ∧ ∃ response, s.threads[i]? = some (.endWrite response)
  | _ => False

/-- A thread that stands at `pc response` has its response among the messages `ms`, where its place
says. -/
def Noted (pc : Bytes → Pc) (ms : List Bytes) (threads : List Pc) (place : Nat → Option Place) :
    Prop :=
  ∀ (i : Nat) (m : Bytes), threads[i]? = some (pc m) → ∃ n, place i = some (n, m) ∧ ms[n]? = some m

/-- The invariant: the response of a `SyncWrite()` that waits was accepted at its place, that of one
that has seen the queue empty was sent, and those that returned false were never taken. -/
structure Known (c : ServerWriter × SyncWrites) : Prop where
  inv : Inv c.1
  waits : Noted .waitWrite (accepted c.1.trace) c.1.threads c.2.place
  ends : Noted .endWrite (handed c.1.trace) c.1.threads c.2.place
  returns : ∀ ret ∈ c.2.returns, if ret.2 then Sent c.1.trace ret.1 else ret.1 = none

variable {s s' : ServerWriter} {notes : SyncWrites}

/-- Where each place is known, no write returns true for a message that was not sent. -/
theorem Known.honest {c : ServerWriter × SyncWrites} (h : Known c) : Honest c := by
  rintro ⟨place, r⟩ hret
  have hr := h.returns _ hret
  cases r with
  | true => exact iff_of_true rfl hr
  | false =>
      obtain rfl : place = none := hr
      exact iff_of_false (by simp) id

/-! ### Places, as the trace grows -/

/-- A message keeps its place. -/
theorem place_mono {ms ms' : List Bytes} (h : ms <+: ms') {n : Nat} {m : Bytes}
    (hm : ms[n]? = some m) : ms'[n]? = some m := by
  obtain ⟨hlt, rfl⟩ := List.getElem?_eq_some_iff.mp hm
  exact List.prefix_iff_getElem?.mp h n hlt

/-- A place that is noted stays so while its thread goes on. -/
theorem Noted.mono {pc : Bytes → Pc} {ms ms' : List Bytes} {threads threads' : List Pc}
    {place : Nat → Option Place} (h : Noted pc ms threads place) (hms : ms <+: ms')
    (hthreads : ∀ (i : Nat) (m : Bytes), threads'[i]? = some (pc m) → threads[i]? = some (pc m)) :
    Noted pc ms' threads' place := by
  intro i m hi
  obtain ⟨n, hplace, hm⟩ := h i m (hthreads i m hi)
  exact ⟨n, hplace, place_mono hms hm⟩

/-- Thread `i` goes on to `pc'`; the other threads' responses stay where they are. -/
theorem Noted.set {pc : Bytes → Pc} {ms ms' : List Bytes} {threads : List Pc}
    {place : Nat → Option Place} (h : Noted pc ms threads place) (hms : ms <+: ms') {i : Nat}
    {pc' : Pc} {p : Option Place}
    (hpc : ∀ m, pc' = pc m → ∃ n, p = some (n, m) ∧ ms'[n]? = some m) :
    Noted pc ms' (threads.set i pc') (Function.update place i p) := by
  intro j m hj
  by_cases hij : j = i
  · subst hij
    rw [List.getElem?_set_self'] at hj
    obtain ⟨_, -, hpc'⟩ := Option.map_eq_some_iff.mp hj
    rw [Function.update_self]
    exact hpc m hpc'
  · rw [List.getElem?_set_ne (Ne.symm hij)] at hj
    rw [Function.update_of_ne hij]
    obtain ⟨n, hplace, hm⟩ := h j m hj
    exact ⟨n, hplace, place_mono hms hm⟩

/-- What was handed over stays handed over. -/
theorem handed_mono {tr tr' : List (Event Cb)} (h : tr <+: tr') : handed tr <+: handed tr' := by
  obtain ⟨t, rfl⟩ := h
  rw [handed_append]
  exact List.prefix_append _ _

/-- What was accepted stays accepted. -/
theorem accepted_mono {tr tr' : List (Event Cb)} (h : tr <+: tr') :
    accepted tr <+: accepted tr' := by
  obtain ⟨t, rfl⟩ := h
  rw [accepted_append]
  exact List.prefix_append _ _

/-- What was sent stays sent. -/
theorem Sent.mono {tr tr' : List (Event Cb)} (h : tr <+: tr') {p : Option Place}
    (hs : Sent tr p) : Sent tr' p := by
  obtain _ | ⟨n, m⟩ := p
  · exact hs
  · exact place_mono (handed_mono h) hs

/-- The messages taken are those accepted. -/
theorem Inv.taken (h : Inv s) : taken s = accepted s.trace := h.queued

/-- What has been returned stays right. -/
theorem Known.returns_mono {c : ServerWriter × SyncWrites} (h : Known c) {tr : List (Event Cb)}
    (htr : c.1.trace <+: tr) :
    ∀ ret ∈ c.2.returns, if ret.2 then Sent tr ret.1 else ret.1 = none := by
  rintro ⟨place, r⟩ hret
  have hr := h.returns _ hret
  cases r with
  | true => exact Sent.mono htr hr
  | false => exact hr

/-! ### The critical sections of a thread -/

/-- Where a critical section takes a thread, as far as `SyncWrite()` goes. -/
inductive Goes (s : ServerWriter) : Pc → Pc → ServerWriter → Prop
  | accepts {m : Bytes} {s' : ServerWriter}
      (haccepted : accepted s'.trace = accepted s.trace ++ [m])
      (hreturned : returned? (s'.trace.drop s.trace.length) = none) :
      Goes s (.syncWrite m) (.waitWrite m) s'
  | refuses {m : Bytes} {s' : ServerWriter} (haccepted : accepted s'.trace = accepted s.trace)
      (hreturned : returned? (s'.trace.drop s.trace.length) = some false) :
      Goes s (.syncWrite m) .idle s'
  | waits (m : Bytes) : Goes s (.waitWrite m) (.waitWrite m) s
  | emptied (m : Bytes) (hqueue : s.queue = []) : Goes s (.waitWrite m) (.endWrite m) s
  | returns (m : Bytes) : Goes s (.endWrite m) .idle
      { s with trace := s.trace ++ [.called (.syncWrote m (!s.closed))] }
  | other {pc pc' : Pc} {s' : ServerWriter} (hsync : ∀ m, pc ≠ .syncWrite m)
      (hwaits : ∀ m, pc' ≠ .waitWrite m) (hends : ∀ m, pc' ≠ .endWrite m)
      (hreturned : returned? (s'.trace.drop s.trace.length) = none) : Goes s pc pc' s'

/-- The events of the step. -/
theorem drop_trace {t : List (Event Cb)} (h : s'.trace = s.trace ++ t) :
    s'.trace.drop s.trace.length = t := by
  rw [h, List.drop_left]

/-- Batches accept no message. -/
theorem OnlyBatches.accepted {evs : List (Event Cb)} (h : OnlyBatches evs) : accepted evs = [] := by
  refine List.filterMap_eq_nil_iff.mpr fun e he => ?_
  obtain ⟨b, r, rfl⟩ := h e he
  rfl

/-- Batches return from no call. -/
theorem OnlyBatches.returned {evs : List (Event Cb)} (h : OnlyBatches evs) :
    returned? evs = none := by
  refine List.findSome?_eq_none_iff.mpr fun e he => ?_
  obtain ⟨b, r, rfl⟩ := h e he
  rfl

theorem returned?_append (tr tr' : List (Event Cb)) :
    returned? (tr ++ tr') = (returned? tr).or (returned? tr') := List.findSome?_append

/-- A step of a thread moves this thread only. -/
theorem pc_goes (h : Inv s) (pc : Pc) :
    wp pc.exec (fun pc' s' => s'.threads = s.threads ∧ Goes s pc pc' s') (fun _ _ => False) s := by
  have hidle : returned? (s.trace.drop s.trace.length) = none := by
    rw [List.drop_length]
    rfl
  have hwrite : ∀ m, wp (ServerWriter.asyncWrite m) (fun _ s' => s'.threads = s.threads ∧
      ∃ evs, s'.trace = s.trace ++ evs ∧ OnlyBatches evs) (fun _ _ => False) s := fun m =>
    wp_mono (wp_and (wp_asyncWrite h m) (asyncWrite_frame m))
      (fun _ _ h' => ⟨h'.2.threads, h'.2.trace⟩) fun _ _ h' => h'.1
  have hclose : ∀ status, wp (ServerWriter.asyncClose status) (fun _ s' => s'.threads = s.threads ∧
      returned? (s'.trace.drop s.trace.length) = none) (fun _ _ => False)
      { s with trace := s.trace ++ [.called (.close status)] } := by
    intro status
    refine wp_mono (wp_and (wp_asyncClose h status) (asyncClose_frame status)) ?_ fun _ _ h' => h'.1
    rintro _ s' ⟨-, hframe⟩
    obtain ⟨evs, htrace, hevs⟩ := hframe.trace
    refine ⟨hframe.threads, ?_⟩
    rw [drop_trace (htrace.trans (List.append_assoc _ _ _)), returned?_append, hevs.returned]
    rfl
  -- A synchronous write is accepted or refused, waits, and returns; the rest is none of its steps.
  cases pc with
  | idle => exact ⟨rfl, .other (by simp) (by simp) (by simp) hidle⟩
  | write response =>
      simp only [Pc.exec, wp_bind, wp_get, wp_pure]
      refine ⟨trivial, ?_⟩
      split
      · exact .other (by simp) (by simp) (by simp) hidle
      · exact .other (by simp) (by simp) (by simp) hidle
  | asyncWrite response =>
      simp only [Pc.exec, wp_bind, wp_emit, wp_pure, env_eq, setEnv_eq]
      refine wp_mono (hwrite response) ?_ fun _ _ hf => hf
      rintro r s' ⟨hthreads, evs, htrace, hevs⟩
      refine ⟨hthreads, .other (by simp) (by simp) (by simp) ?_⟩
      rw [drop_trace (t := evs ++ [.wrote response r]) (by simp [htrace]), returned?_append,
        hevs.returned]
      rfl
  | syncWrite response =>
      simp only [Pc.exec, wp_bind, wp_emit, wp_ite, wp_pure, env_eq, setEnv_eq]
      refine wp_mono (hwrite response) ?_ fun _ _ hf => hf
      rintro r s' ⟨hthreads, evs, htrace, hevs⟩
      cases r with
      | true =>
          rw [if_pos rfl]
          refine ⟨hthreads, .accepts ?_ ?_⟩
          · simp [htrace, hevs.accepted]
          · rw [drop_trace (t := evs ++ [.wrote response true]) (by simp [htrace]),
              returned?_append, hevs.returned]
            rfl
      | false =>
          rw [if_neg (by simp)]
          refine ⟨hthreads, .refuses ?_ ?_⟩
          · simp [htrace, hevs.accepted]
          · rw [drop_trace
              (t := evs ++ [.wrote response false, .called (.syncWrote response false)])
              (by simp [htrace]), returned?_append, hevs.returned]
            rfl
  | waitWrite response =>
      simp only [Pc.exec, wp_bind, wp_get, wp_pure]
      refine ⟨trivial, ?_⟩
      by_cases hq : getQueueSize s = 0
      · rw [if_neg (by simp [hq])]
        exact .emptied response (List.length_eq_zero_iff.mp hq)
      · rw [if_pos hq]
        exact .waits response
  | endWrite response =>
      simp only [Pc.exec, wp_bind, wp_get, wp_emit, wp_pure, env_eq, setEnv_eq]
      exact ⟨trivial, .returns response⟩
  | asyncClose status =>
      simp only [Pc.exec, wp_bind, wp_emit, wp_pure, env_eq, setEnv_eq]
      exact wp_mono (hclose status)
        (fun _ _ h' => ⟨h'.1, .other (by simp) (by simp) (by simp) h'.2⟩) fun _ _ hf => hf
  | syncClose status =>
      simp only [Pc.exec, wp_bind, wp_emit, wp_pure, env_eq, setEnv_eq]
      exact wp_mono (hclose status)
        (fun _ _ h' => ⟨h'.1, .other (by simp) (by simp) (by simp) h'.2⟩) fun _ _ hf => hf
  | waitClose =>
      simp only [Pc.exec, wp_bind, wp_get, wp_pure]
      refine ⟨trivial, ?_⟩
      split
      · exact .other (by simp) (by simp) (by simp) hidle
      · exact .other (by simp) (by simp) (by simp) hidle
  | setHighQueueSize size => exact ⟨rfl, .other (by simp) (by simp) (by simp) hidle⟩

/-! ### Steps -/

/-- A step that is no critical section of a thread is not noted. -/
theorem Known.mono (h : Known (s, notes)) (hinv : Inv s') (htrace : s.trace <+: s'.trace)
    (hwaits : ∀ (i : Nat) (m : Bytes), s'.threads[i]? = some (.waitWrite m) →
      s.threads[i]? = some (.waitWrite m))
    (hends : ∀ (i : Nat) (m : Bytes), s'.threads[i]? = some (.endWrite m) →
      s.threads[i]? = some (.endWrite m)) : Known (s', notes) where
  inv := hinv
  waits := h.waits.mono (accepted_mono htrace) hwaits
  ends := h.ends.mono (handed_mono htrace) hends
  returns := h.returns_mono htrace

/-- Thread `i` goes from `pc` to `pc'`. -/
theorem Known.set (h : Known (s, notes)) {i : Nat} {q : Pc} {place : Option Place}
    {returns : List (Option Place × Bool)} (hinv : Inv s') (htrace : s.trace <+: s'.trace)
    (hthreads : s'.threads = s.threads.set i q)
    (hwaits : ∀ m, q = .waitWrite m → ∃ n, place = some (n, m) ∧ (accepted s'.trace)[n]? = some m)
    (hends : ∀ m, q = .endWrite m → ∃ n, place = some (n, m) ∧ (handed s'.trace)[n]? = some m)
    (hreturns : ∀ ret ∈ returns, if ret.2 then Sent s'.trace ret.1 else ret.1 = none) :
    Known (s', { place := Function.update notes.place i place
                 returns := notes.returns ++ returns }) where
  inv := hinv
  waits := by
    rw [hthreads]
    exact h.waits.set (accepted_mono htrace) hwaits
  ends := by
    rw [hthreads]
    exact h.ends.set (handed_mono htrace) hends
  returns := by
    intro ret hret
    rcases List.mem_append.mp hret with hret | hret
    · exact h.returns_mono htrace ret hret
    · exact hreturns ret hret

/-- The place of the message is noted where the thread queues it. -/
theorem placeOf_syncWrite {i : Nat} {m : Bytes} (hi : s.threads[i]? = some (.syncWrite m)) :
    notes.placeOf s s' i = placed s s' m := by
  rw [SyncWrites.placeOf, List.getD_eq_getElem?_getD, hi]
  rfl

/-- Elsewhere the places stay as they are. -/
theorem placeOf_other {i : Nat} {pc : Pc} (hi : s.threads[i]? = some pc)
    (hpc : ∀ m, pc ≠ .syncWrite m) : notes.placeOf s s' i = notes.place i := by
  rw [SyncWrites.placeOf, List.getD_eq_getElem?_getD, hi]
  cases pc with
  | syncWrite m => exact absurd rfl (hpc m)
  | _ => rfl

/-- A critical section that is not misled. -/
theorem Known.goes (h : Known (s, notes)) {i : Nat} {pc pc' : Pc} {s₁ : ServerWriter}
    (hi : s.threads[i]? = some pc) (hgoes : Goes s pc pc' s₁) (hthreads : s₁.threads = s.threads)
    (hinv : Inv s₁) (htrace : s.trace <+: s₁.trace) (hmisled : ¬ Misleads s (.resume i)) :
    Known ({ s₁ with threads := s₁.threads.set i pc' },
      notes.observe s (.resume i) { s₁ with threads := s₁.threads.set i pc' }) := by
  have hset : ∀ {p : Option Place} {r : Option Bool},
      notes.placeOf s { s₁ with threads := s₁.threads.set i pc' } i = p →
      returned? (s₁.trace.drop s.trace.length) = r →
      (∀ m, pc' = .waitWrite m → ∃ n, p = some (n, m) ∧ (accepted s₁.trace)[n]? = some m) →
      (∀ m, pc' = .endWrite m → ∃ n, p = some (n, m) ∧ (handed s₁.trace)[n]? = some m) →
      (∀ ret ∈ r.toList.map (p, ·), if ret.2 then Sent s₁.trace ret.1 else ret.1 = none) →
      Known ({ s₁ with threads := s₁.threads.set i pc' },
        notes.observe s (.resume i) { s₁ with threads := s₁.threads.set i pc' }) := by
    intro p r hplace hreturned hwaits hends hreturns
    simp only [SyncWrites.observe, hplace, hreturned]
    exact h.set (q := pc') { hinv with } htrace (by rw [hthreads]) hwaits hends hreturns
  have hidle : returned? (s.trace.drop s.trace.length) = none := by
    rw [List.drop_length]
    rfl
  have htaken : taken { s₁ with threads := s₁.threads.set i pc' } = accepted s₁.trace := hinv.taken
  cases hgoes with
  | @accepts m _ haccepted hreturned =>
      refine hset (p := some ((accepted s.trace).length, m)) ?_ hreturned ?_ (by simp) (by simp)
      · rw [placeOf_syncWrite hi, placed, h.inv.taken, htaken, haccepted, if_pos (by simp)]
      · intro m' hm'
        cases hm'
        exact ⟨_, rfl, by simp [haccepted]⟩
  | @refuses m _ haccepted hreturned =>
      refine hset (p := none) ?_ hreturned (by simp) (by simp) (by simp)
      rw [placeOf_syncWrite hi, placed, h.inv.taken, htaken, haccepted, if_neg (Nat.lt_irrefl _)]
  | waits m =>
      refine hset (placeOf_other hi (by simp)) hidle ?_ (by simp) (by simp)
      intro m' hm'
      cases hm'
      exact h.waits i m hi
  | emptied m hqueue =>
      refine hset (placeOf_other hi (by simp)) hidle (by simp) ?_ (by simp)
      intro m' hm'
      cases hm'
      -- With the queue empty, what was accepted was handed to gRPC.
      have hqueued := h.inv.queued
      rw [hqueue, List.append_nil] at hqueued
      obtain ⟨n, hplace, haccepted⟩ := h.waits i m hi
      exact ⟨n, hplace, by rw [hqueued]; exact haccepted⟩
  | returns m =>
      have hopen : s.closed = false := by
        by_contra hc
        exact hmisled ⟨by simpa using hc, m, hi⟩
      obtain ⟨n, hplace, hhanded⟩ := h.ends i m hi
      refine hset (p := some (n, m)) (r := some true) ?_ ?_ (by simp) (by simp) ?_
      · rw [placeOf_other hi (by simp)]
        exact hplace
      · rw [List.drop_left, hopen]
        rfl
      · intro ret hret
        obtain rfl : ret = (some (n, m), true) := by simpa using hret
        exact Sent.mono htrace (p := some (n, m)) hhanded
  | other hsync hwaits hends hreturned =>
      exact hset (placeOf_other hi hsync) hreturned (fun m hm => absurd hm (hwaits m))
        (fun m hm => absurd hm (hends m)) (by simp)

/-- A call that is misled returns false, though its response was sent. -/
theorem Known.misled (h : Known (s, notes)) {i : Nat} {m : Bytes}
    (hi : s.threads[i]? = some (.endWrite m)) (hclosed : s.closed = true) {s' : ServerWriter}
    (htrace : s'.trace = s.trace ++ [.called (.syncWrote m (!s.closed))]) :
    ¬ Honest (s', notes.observe s (.resume i) s') := by
  intro hhonest
  obtain ⟨n, hplace, hhanded⟩ := h.ends i m hi
  have hnoted : (some (n, m), false) ∈ (notes.observe s (.resume i) s').returns := by
    simp only [SyncWrites.observe, placeOf_other hi (by simp), htrace, List.drop_left, hclosed]
    rw [show notes.place i = some (n, m) from hplace]
    exact List.mem_append_right _ (List.mem_singleton.mpr rfl)
  have hsent : Sent s'.trace (some (n, m)) :=
    Sent.mono (htrace ▸ List.prefix_append _ _) (p := some (n, m)) hhanded
  have hfalse := (hhonest _ hnoted).mpr hsent
  cases hfalse

/-- A call puts no thread where it was not. -/
theorem getElem?_of_enter {threads : List Pc} {i j : Nat} {c : Call} {pc : Pc} (hpc : pc ≠ c.enter)
    (hj : (threads.set i c.enter)[j]? = some pc) : threads[j]? = some pc := by
  by_cases hij : i = j
  · subst hij
    rw [List.getElem?_set_self'] at hj
    obtain ⟨_, -, hpc'⟩ := Option.map_eq_some_iff.mp hj
    exact absurd hpc'.symm hpc
  · rwa [List.getElem?_set_ne hij] at hj

/-- A completion moves no thread. -/
theorem complete_keeps (success : Bool) :
    wp (Step.exec (.complete success))
      (fun _ s' => s'.threads = s.threads ∧ s.trace <+: s'.trace)
      (fun _ s' => s'.threads = s.threads ∧ s.trace <+: s'.trace) s := by
  simp only [Step.exec, wp_bind, wp_get, wp_modify, wp_emit, env_eq, setEnv_eq]
  have hkeeps : ∀ s' : ServerWriter, Frame 0 { s with
      sending := s.sending.tail
      trace := s.trace ++ [.sent (s.sending.headD []) success] } s' →
      s'.threads = s.threads ∧ s.trace <+: s'.trace := by
    intro s' hf
    obtain ⟨evs, htrace, -⟩ := hf.trace
    exact ⟨hf.threads, htrace ▸ (List.prefix_append _ _).trans (List.prefix_append _ _)⟩
  exact wp_mono tryToWriteNext_frame (fun _ => hkeeps) fun _ => hkeeps

/-- Nor does the destructor. -/
theorem destroy_keeps :
    wp (Step.exec .destroy) (fun _ s' => s'.threads = s.threads ∧ s.trace <+: s'.trace)
      (fun _ _ => True) s := by
  simp only [Step.exec, wp_bind, wp_modify, wp_check, wp_emit, env_eq, setEnv_eq]
  split
  · refine wp_mono (asyncClose_frame .OK) (fun _ s' hf => ?_) fun _ _ _ => trivial
    obtain ⟨evs, htrace, -⟩ := hf.trace
    exact ⟨hf.threads, htrace ▸ (List.prefix_append _ _).trans (List.prefix_append _ _)⟩
  · trivial

/-- The steps of the writer, with the observer. -/
abbrev Step.noted : Step → EStateM Exit (ServerWriter × SyncWrites) Unit :=
  Process.observed Step.exec SyncWrites.observe

/-- A step that loses no message and is not misled. -/
theorem step_known (h : Known (s, notes)) (l : Step) (hl : Step.Enabled s l) (hlose : ¬ Loses s l)
    (hmisled : ¬ Misleads s l) :
    wp (Step.noted l) (fun _ => Known) (fun _ _ => False) (s, notes) := by
  rw [Process.wp_observed]
  have hleads := step_leads h.inv l hl hlose
  cases l with
  | call i c =>
      refine h.mono { h.inv with } List.prefix_rfl ?_ ?_
      · exact fun j m hj => getElem?_of_enter (by cases c <;> simp [Call.enter]) hj
      · exact fun j m hj => getElem?_of_enter (by cases c <;> simp [Call.enter]) hj
  | resume i =>
      obtain ⟨pc, hi⟩ := Option.isSome_iff_exists.mp hl.2
      simp only [Step.exec, wp_bind, wp_get, wp_modify]
      rw [List.getD_eq_getElem?_getD, hi]
      refine wp_mono (wp_and (wp_pc h.inv pc) (pc_goes h.inv pc)) ?_ fun _ _ hf => hf.1
      rintro pc' s₁ ⟨hlead, hthreads, hgoes⟩
      exact h.goes hi hgoes hthreads hlead.inv hlead.trace_prefix hmisled
  | complete success =>
      refine wp_mono (wp_and hleads (complete_keeps success)) ?_ fun _ _ hf => hf.1
      rintro _ s' ⟨hlead, hthreads, htrace⟩
      exact h.mono hlead.inv htrace (fun _ _ hi => hthreads ▸ hi) fun _ _ hi => hthreads ▸ hi
  | destroy =>
      refine wp_mono (wp_and hleads destroy_keeps) ?_ fun _ _ hf => hf.1
      rintro _ s' ⟨hlead, hthreads, htrace⟩
      exact h.mono hlead.inv htrace (fun _ _ hi => hthreads ▸ hi) fun _ _ hi => hthreads ▸ hi

/-- Losing a message is undefined, and leaves the notes as they are. -/
theorem step_lost (h : Known (s, notes)) (l : Step) (hl : Step.Enabled s l) (hlose : Loses s l) :
    wp (Step.noted l) (fun _ _ => False) (fun e c => e = .undefined ∧ Honest c) (s, notes) := by
  rw [Process.wp_observed]
  have hlost := step_loses h.inv l hl hlose
  cases l with
  | complete success =>
      refine wp_mono (wp_and hlost (complete_keeps success)) (fun _ _ hf => hf.1) ?_
      rintro e s' ⟨⟨he, -⟩, -, htrace⟩
      refine ⟨he, ?_⟩
      rintro ⟨place, r⟩ hret
      have hr := h.returns_mono htrace _ hret
      cases r with
      | true => exact iff_of_true rfl hr
      | false =>
          obtain rfl : place = none := hr
          exact iff_of_false (by simp) id
  | call i c => exact hlose.elim
  | resume i => exact hlose.elim
  | destroy => exact hlose.elim

/-- **`SyncWrite()`.**  In every run, whatever `StartBatch` answers: every `SyncWrite()` that
returns returns true exactly if its own response was handed to gRPC, if and only if none comes to
its last critical section after the writer has been closed. -/
theorem honest_iff (starts : List Bool) (n : Nat) (ls : List Step) (h : Legal (new starts n) ls) :
    (∀ pre, pre <+: ls →
      Honest (Process.after Step.noted (.running (new starts n, {})) pre).state) ↔
    Process.Along Step.exec (fun s l => ¬ Misleads s l) (.running (new starts n)) ls := by
  have hnew : Known (new starts n, {}) := by
    refine ⟨Inv.new starts n, ?_, ?_, by simp⟩
    all_goals
      intro i m hi
      have hmem := List.mem_of_getElem? hi
      rw [new, List.mem_replicate] at hmem
      exact absurd hmem.2 (by simp)
  -- The notes do not interfere with the runs.
  have hlegal : Process.Along Step.noted (fun c l => Step.Enabled c.1 l)
      (.running (new starts n, {})) ls := (Process.along_observed _ ls).mpr h
  have hmisled : Process.Along Step.noted (fun c l => ¬ Misleads c.1 l)
      (.running (new starts n, {})) ls ↔
        Process.Along Step.exec (fun s l => ¬ Misleads s l) (.running (new starts n)) ls :=
    Process.along_observed (P := fun s l => ¬ Misleads s l) _ ls
  rw [← hmisled]
  -- A run stops only where a refused send loses a message, and that breaks no promise.
  refine Process.along_iff_next (I := Process.Holds Known fun _ => Honest)
    (Q := fun c => Honest c.state) ?_ ?_ ?_ hnew hlegal
  · rintro (c | ⟨e, c⟩) hc
    · exact hc.honest
    · exact hc
  · rintro ⟨s, notes⟩ l hI hl hP
    refine Process.holds_next ?_
    by_cases hlose : Loses s l
    · refine wp_mono (step_lost hI l hl hlose) (fun _ _ hf => hf.elim) ?_
      rintro e c ⟨rfl, hc⟩
      exact hc
    · exact wp_mono (step_known hI l hl hlose hP) (fun _ _ hc => hc) fun _ _ hf => hf.elim
  · rintro ⟨s, notes⟩ l hI hl hP
    -- Only a thread that wakes up can mislead.
    cases l with
    | resume i =>
        obtain ⟨hclosed, m, hi⟩ := not_not.mp hP
        have hw : wp (Step.noted (.resume i)) (fun _ c => ¬ Honest c) (fun _ _ => False)
            (s, notes) := by
          rw [Process.wp_observed]
          simp only [Step.exec, wp_bind, wp_get, wp_modify]
          rw [List.getD_eq_getElem?_getD, hi]
          exact Known.misled hI hi hclosed rfl
        exact Process.state_next (J := fun c => ¬ Honest c)
          (wp_mono hw (fun _ _ h' => h') fun _ _ hf => hf.elim)
    | call i c => exact absurd id hP
    | complete success => exact absurd id hP
    | destroy => exact absurd id hP

/-- Two responses are queued behind one another, and their calls return before the close. -/
theorem honest_iff_closedLater :
    let ls : List Step := [.call 0 (.syncWrite [1]), .resume 0, .call 1 (.syncWrite [2]), .resume 1,
      .resume 0, .complete true, .resume 0, .resume 0, .resume 1, .resume 1,
      .call 0 (.asyncClose .OK), .resume 0]
    (∀ pre, pre <+: ls → Honest (Process.after Step.noted (.running (new [] 2, {})) pre).state) ↔
    Process.Along Step.exec (fun s l => ¬ Misleads s l) (.running (new [] 2)) ls :=
  honest_iff [] 2 _ (by decide)

/-- The response is sent, and the call has seen the queue empty; then another thread closes the
writer, and the call returns false. -/
theorem not_honest :
    let ls : List Step := [.call 0 (.syncWrite [1]), .resume 0, .resume 0,
      .call 1 (.asyncClose .OK), .resume 1, .complete true, .resume 0]
    Legal (new [] 2) ls ∧
      (Process.after Step.noted (.running (new [] 2, {})) ls).state.2.returns =
        [(some (0, [1]), false)] ∧
      ¬ Honest (Process.after Step.noted (.running (new [] 2, {})) ls).state := by
  decide

end GrpcLua.ServerWriter
