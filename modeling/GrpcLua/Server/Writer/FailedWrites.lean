import GrpcLua.Server.Writer.SyncWrites

/-!
# Server — Writer — FailedWrites

Write batches that complete without success.  An observer notes which calls were made after the
first of them, and what those that write have returned.

`TryToWriteNext()` does not look at the success of the batch whose completion has called it: it goes
on with the queue, and a writer that nobody has closed goes on taking responses.  `heeded_iff` says
in which runs that does not show.
-/

namespace GrpcLua.ServerWriter
open Prog Trace

/-- A message batch has completed without success. -/
def broken (tr : List (Event Cb)) : Bool :=
  tr.any fun | .sent _ false => true | _ => false

@[simp] theorem broken_append (tr tr' : List (Event Cb)) :
    broken (tr ++ tr') = (broken tr || broken tr') := List.any_append

/-- Once a batch has failed, no message is submitted and no response accepted. -/
def Heeds (pre : List (Event Cb)) : Event Cb → Prop
  | .batch b _ => broken pre = true → b.msg? = none
  | .wrote _ r => broken pre = true → r = false
  | _ => True

instance Heeds.decidable (pre : List (Event Cb)) : (e : Event Cb) → Decidable (Heeds pre e)
  | .batch b _ => inferInstanceAs (Decidable (broken pre = true → b.msg? = none))
  | .wrote _ r => inferInstanceAs (Decidable (broken pre = true → r = false))
  | .sent _ _ => isTrue trivial
  | .called _ => isTrue trivial

/-! ### The observer -/

/-- What a call that writes has returned among the events, from where its thread stood. -/
def Pc.result? (evs : List (Event Cb)) : Pc → Option Bool
  | asyncWrite _ => evs.findSome? fun | .wrote _ r => some r | _ => none
  | syncWrite _ => returned? evs
  | endWrite _ => returned? evs
  | _ => none

/-- The notes: whether the call a thread is in was made after a batch had failed, and the results of
the writes that were. -/
structure LateWrites where
  late : Nat → Bool := fun _ => false
  results : List Bool := []

namespace LateWrites

def observe (s : ServerWriter) (l : Step) (s' : ServerWriter) (h : LateWrites) : LateWrites :=
  match l with
  | .call i _ => { h with late := Function.update h.late i (broken s.trace) }
  | .resume i =>
      if h.late i then
        { h with results := h.results ++
            ((s.threads.getD i .idle).result? (s'.trace.drop s.trace.length)).toList }
      else h
  | _ => h

end LateWrites

/-- A failed batch has ended the writing: no message is submitted or accepted any more, the queue is
empty, and every write that is called later returns false. -/
structure Heeded (c : ServerWriter × LateWrites) : Prop where
  silent : Whenever Heeds c.1.trace
  emptied : broken c.1.trace = true → c.1.queue = []
  refused : ∀ r ∈ c.2.results, r = false

/-- The thread is to run `AsyncWrite()`. -/
def Writes (s : ServerWriter) (i : Nat) : Prop :=
  ∃ m, s.threads[i]? = some (.asyncWrite m) ∨ s.threads[i]? = some (.syncWrite m)

/-- A batch fails while messages are queued; or a batch has failed, and a response is written to a
writer that is neither closed nor about to be. -/
def Misses (s : ServerWriter) : Step → Prop
  | .complete success => success = false ∧ s.queue ≠ []
  | .resume i =>
      broken s.trace = true ∧ (s.closed || s.closeStatus.isSome) = false ∧ Writes s i
  | _ => False

variable {s s' : ServerWriter} {notes : LateWrites}

/-! ### Before a batch fails -/

/-- A failed write is never forgotten. -/
theorem broken_mono {tr tr' : List (Event Cb)} (h : tr <+: tr') (hb : broken tr = true) :
    broken tr' = true := by
  obtain ⟨rest, rfl⟩ := h
  rw [broken_append, hb, Bool.true_or]

/-- Where no write has failed, there is nothing to heed. -/
theorem heeds_of_unbroken {tr : List (Event Cb)} (h : broken tr = false) : Whenever Heeds tr := by
  rintro pre e post rfl
  have hpre : broken pre = false := by
    by_contra hb
    rw [Bool.not_eq_false] at hb
    exact absurd (h.symm.trans (broken_mono (List.prefix_append _ _) hb)) (by simp)
  cases e with
  | batch b r => exact fun hb => absurd (hpre.symm.trans hb) (by simp)
  | wrote m r => exact fun hb => absurd (hpre.symm.trans hb) (by simp)
  | _ => trivial

/-- Batches are no completions. -/
theorem OnlyBatches.broken {evs : List (Event Cb)} (h : OnlyBatches evs) :
    ServerWriter.broken evs = false := by
  refine List.any_eq_false.mpr fun e he => ?_
  obtain ⟨b, r, rfl⟩ := h e he
  simp

/-- Nor does a function complete any. -/
theorem Frame.broken {k : Nat} {s s' : ServerWriter} (h : Frame k s s') :
    ServerWriter.broken s'.trace = ServerWriter.broken s.trace := by
  obtain ⟨evs, htrace, hevs⟩ := h.trace
  rw [htrace, broken_append, hevs.broken, Bool.or_false]

/-! ### After a batch has failed -/

/-- The event neither submits a message nor accepts one. -/
def NoMessage : Event Cb → Prop
  | .batch b _ => b.msg? = none
  | .wrote _ r => r = false
  | _ => True

/-- A failed write forbids messages only. -/
theorem NoMessage.heeds {e : Event Cb} (h : NoMessage e) (pre : List (Event Cb)) : Heeds pre e := by
  cases e with
  | batch b r => exact fun _ => h
  | wrote m r => exact fun _ => h
  | _ => trivial

/-- The threads stand where they stood, the queue is still empty, and no message was submitted or
accepted. -/
structure Hushed (s s' : ServerWriter) : Prop where
  threads : s'.threads = s.threads
  queue : s'.queue = []
  trace : ∃ evs, s'.trace = s.trace ++ evs ∧ ∀ e ∈ evs, NoMessage e

/-- Nothing has been done yet. -/
theorem Hushed.refl (hq : s.queue = []) : Hushed s s :=
  ⟨rfl, hq, [], (List.append_nil _).symm, by simp⟩

/-- An event that is no message, and what follows it. -/
theorem Hushed.cons {s₁ : ServerWriter} {e : Event Cb} (h : Hushed s₁ s')
    (hthreads : s₁.threads = s.threads) (htrace : s₁.trace = s.trace ++ [e]) (he : NoMessage e) :
    Hushed s s' := by
  obtain ⟨evs, htrace', hevs⟩ := h.trace
  refine ⟨h.threads.trans hthreads, h.queue, e :: evs, ?_, ?_⟩
  · rw [htrace', htrace, List.append_assoc, List.singleton_append]
  · intro e' he'
    rcases List.mem_cons.mp he' with rfl | he'
    · exact he
    · exact hevs e' he'

/-- What is no message may always follow. -/
theorem whenever_append {tr evs : List (Event Cb)} (h : Whenever Heeds tr)
    (hevs : ∀ e ∈ evs, NoMessage e) : Whenever Heeds (tr ++ evs) := by
  induction evs generalizing tr with
  | nil => rwa [List.append_nil]
  | cons e evs ih =>
      rw [List.append_cons]
      refine ih ((whenever_concat e).mpr ⟨h, (hevs e List.mem_cons_self).heeds tr⟩) ?_
      exact fun e' he' => hevs e' (List.mem_cons_of_mem e he')

/-- The status is no message. -/
theorem sendStatus_hushed (hq : s.queue = []) :
    wp sendStatus (fun _ => Hushed s) (fun _ => Hushed s) s := by
  simp only [sendStatus, wp_bind, wp_check, wp_get, wp_modify, wp_startBatch, wp_pure, env_eq,
    setEnv_eq]
  split
  · split
    · split
      · refine ⟨rfl, hq, _, rfl, fun e he => ?_⟩
        rw [List.mem_singleton.mp he]
        exact msg?_statusBatch _ _
      · exact .refl hq
    · exact .refl hq
  · exact .refl hq

/-- `AsyncClose` sends no message where none is queued. -/
theorem asyncClose_hushed (hq : s.queue = []) (status : Status) :
    wp (asyncClose status) (fun _ => Hushed s) (fun _ => Hushed s) s := by
  simp only [asyncClose, wp_bind, wp_get, wp_ite, wp_pure, wp_modify, wp_check]
  split
  · exact .refl hq
  · split
    · exact { Hushed.refl hq with }
    · split
      · exact wp_mono (sendStatus_hushed (by exact hq)) (fun _ _ h => { h with })
          fun _ _ h => { h with }
      · exact { Hushed.refl hq with }

/-- A completion that finds the queue empty starts no message. -/
theorem tryToWriteNext_hushed (hq : s.queue = []) :
    wp tryToWriteNext (fun _ => Hushed s) (fun _ => Hushed s) s := by
  simp only [tryToWriteNext, wp_bind, wp_get, wp_ite, wp_pure, wp_modify, wp_check]
  split
  · exact .refl hq
  · rw [if_neg (by simp [hq])]
    split
    · exact wp_mono (sendStatus_hushed (by exact hq)) (fun _ _ h => { h with })
        fun _ _ h => { h with }
    · rw [ite_self]
      exact { Hushed.refl hq with }

/-- A writer that is closed, or about to be, refuses the response and stays as it is. -/
theorem wp_asyncWrite_shut {Q : Bool → ServerWriter → Prop} {E : Exit → ServerWriter → Prop}
    (hshut : (s.closed || s.closeStatus.isSome) = true) (m : Bytes) :
    wp (asyncWrite m) Q E s ↔ Q false s := by
  simp only [asyncWrite, wp_bind, wp_get, wp_ite, wp_pure]
  rw [if_pos hshut]

/-- `SyncWrite()` has had its response accepted. -/
def Pc.Waits : Pc → Prop
  | waitWrite _ => True
  | endWrite _ => True
  | _ => False

/-- The response that is about to be written is refused. -/
abbrev Refuses (s : ServerWriter) (pc : Pc) : Prop :=
  ∀ m, pc = .asyncWrite m ∨ pc = .syncWrite m → (s.closed || s.closeStatus.isSome) = true

/-- With the queue empty and writes refused, a critical section leaves the writer hushed, and a call
that has had nothing accepted returns false. -/
theorem pc_hushed (hq : s.queue = []) {pc : Pc} (hpc : Refuses s pc) :
    wp pc.exec (fun pc' s' => Hushed s s' ∧ (pc'.Waits → pc.Waits) ∧
      (¬ pc.Waits → ∀ r ∈ pc.result? (s'.trace.drop s.trace.length), r = false))
      (fun _ _ => True) s := by
  have hclose : ∀ status, wp (ServerWriter.asyncClose status) (fun _ => Hushed s) (fun _ _ => True)
      { s with trace := s.trace ++ [.called (.close status)] } := by
    intro status
    refine wp_mono (asyncClose_hushed (by exact hq) status) ?_ fun _ _ _ => trivial
    intro _ s' h
    exact h.cons rfl rfl trivial
  cases pc with
  | idle => exact ⟨.refl hq, id, fun _ => by simp [Pc.result?]⟩
  | write response =>
      simp only [Pc.exec, wp_bind, wp_get, wp_pure]
      refine ⟨.refl hq, ?_, fun _ => by simp [Pc.result?]⟩
      split <;> exact id
  | asyncWrite response =>
      simp only [Pc.exec, wp_bind, wp_emit, wp_pure, env_eq, setEnv_eq]
      refine (wp_asyncWrite_shut (hpc response (.inl rfl)) response).mpr ?_
      refine ⟨⟨rfl, hq, _, rfl, ?_⟩, id, fun _ r hr => ?_⟩
      · -- The writer is told that its message was refused.
        intro e he
        obtain rfl := List.mem_singleton.mp he
        rfl
      · rw [List.drop_left] at hr
        exact (Option.some.inj hr).symm
  | syncWrite response =>
      simp only [Pc.exec, wp_bind, wp_emit, wp_ite, wp_pure, env_eq, setEnv_eq]
      refine (wp_asyncWrite_shut (hpc response (.inr rfl)) response).mpr ?_
      rw [if_neg (by simp)]
      refine ⟨⟨rfl, hq, [_, _], List.append_assoc _ _ _, ?_⟩, id, fun _ r hr => ?_⟩
      · intro e he
        rcases List.mem_cons.mp he with rfl | he
        · rfl
        · obtain rfl := List.mem_singleton.mp he
          trivial
      · rw [List.append_assoc, List.drop_left] at hr
        exact (Option.some.inj hr).symm
  | waitWrite response =>
      simp only [Pc.exec, wp_bind, wp_get, wp_pure]
      exact ⟨.refl hq, fun _ => trivial, fun _ => by simp [Pc.result?]⟩
  | endWrite response =>
      simp only [Pc.exec, wp_bind, wp_get, wp_emit, wp_pure, env_eq, setEnv_eq]
      refine ⟨⟨rfl, hq, _, rfl, ?_⟩, fun _ => trivial, fun h => absurd trivial h⟩
      intro e he
      obtain rfl := List.mem_singleton.mp he
      trivial
  | asyncClose status =>
      simp only [Pc.exec, wp_bind, wp_emit, wp_pure, env_eq, setEnv_eq]
      exact wp_mono (hclose status) (fun _ _ h => ⟨h, id, fun _ => by simp [Pc.result?]⟩)
        fun _ _ h => h
  | syncClose status =>
      simp only [Pc.exec, wp_bind, wp_emit, wp_pure, env_eq, setEnv_eq]
      exact wp_mono (hclose status) (fun _ _ h => ⟨h, id, fun _ => by simp [Pc.result?]⟩)
        fun _ _ h => h
  | waitClose =>
      simp only [Pc.exec, wp_bind, wp_get, wp_pure]
      refine ⟨.refl hq, ?_, fun _ => by simp [Pc.result?]⟩
      split <;> exact id
  | setHighQueueSize size => exact ⟨{ Hushed.refl hq with }, id, fun _ => by simp [Pc.result?]⟩

/-- No critical section is told that a batch has failed. -/
theorem pc_unbroken (pc : Pc) :
    wp pc.exec (fun _ s' => s'.threads = s.threads ∧ broken s'.trace = broken s.trace)
      (fun _ s' => broken s'.trace = broken s.trace) s := by
  have hwrite : ∀ m, wp (ServerWriter.asyncWrite m)
      (fun _ s' => s'.threads = s.threads ∧ broken s'.trace = broken s.trace)
      (fun _ s' => broken s'.trace = broken s.trace) s := fun m =>
    wp_mono (asyncWrite_frame m) (fun _ _ h => ⟨h.threads, h.broken⟩) fun _ _ h => h.broken
  have hcalled : ∀ (tr : List (Event Cb)) k, broken (tr ++ [.called k]) = broken tr := by
    intro tr k
    rw [broken_append]
    exact Bool.or_false _
  have hclose : ∀ status, wp (ServerWriter.asyncClose status)
      (fun _ s' => s'.threads = s.threads ∧ broken s'.trace = broken s.trace)
      (fun _ s' => broken s'.trace = broken s.trace)
      { s with trace := s.trace ++ [.called (.close status)] } := fun status =>
    wp_mono (asyncClose_frame status)
      (fun _ _ h => ⟨h.threads, h.broken.trans (hcalled _ _)⟩)
      fun _ _ h => h.broken.trans (hcalled _ _)
  cases pc with
  | asyncWrite response =>
      simp only [Pc.exec, wp_bind, wp_emit, wp_pure, env_eq, setEnv_eq]
      refine wp_mono (hwrite response) (fun _ s' h => ⟨h.1, ?_⟩) fun _ _ h => h
      rw [broken_append, h.2]
      exact Bool.or_false _
  | syncWrite response =>
      simp only [Pc.exec, wp_bind, wp_emit, wp_ite, wp_pure, env_eq, setEnv_eq]
      refine wp_mono (hwrite response) (fun r s' h => ?_) fun _ _ h => h
      have hwrote : broken (s'.trace ++ [.wrote response r]) = broken s.trace := by
        rw [broken_append, h.2]
        exact Bool.or_false _
      split
      · exact ⟨h.1, hwrote⟩
      · exact ⟨h.1, (hcalled _ _).trans hwrote⟩
  | endWrite response => exact ⟨rfl, hcalled _ _⟩
  | asyncClose status =>
      simp only [Pc.exec, wp_bind, wp_emit, wp_pure, env_eq, setEnv_eq]
      exact hclose status
  | syncClose status =>
      simp only [Pc.exec, wp_bind, wp_emit, wp_pure, env_eq, setEnv_eq]
      exact hclose status
  | _ => exact ⟨rfl, rfl⟩

/-! ### Steps -/

/-- The invariant: a failed batch has ended the writing, and the calls made since have had nothing
accepted. -/
structure Guarded (c : ServerWriter × LateWrites) : Prop where
  inv : Inv c.1
  heeded : Heeded c
  late : ∀ i, c.2.late i = true → broken c.1.trace = true
  waits : ∀ i, c.2.late i = true → ∀ pc, c.1.threads[i]? = some pc → ¬ pc.Waits

/-- A step without messages heeds the failed writes, if no write returns true. -/
theorem Heeded.hushed (h : Heeded (s, notes)) {notes' : LateWrites} {evs : List (Event Cb)}
    (htrace : s'.trace = s.trace ++ evs) (hevs : ∀ e ∈ evs, NoMessage e) (hq : s'.queue = [])
    (hresults : ∀ r ∈ notes'.results, r = false) : Heeded (s', notes') where
  silent := by
    rw [show (s', notes').1.trace = _ from htrace]
    exact whenever_append h.silent hevs
  emptied _ := hq
  refused := hresults

/-- So does any step before the first failed write. -/
theorem Heeded.unbroken {notes' : LateWrites} (hb : broken s'.trace = false)
    (hresults : ∀ r ∈ notes'.results, r = false) : Heeded (s', notes') where
  silent := heeds_of_unbroken hb
  emptied h := absurd (hb.symm.trans h) (by simp)
  refused := hresults

/-- The steps of the writer, with the observer. -/
abbrev Step.watched : Step → EStateM Exit (ServerWriter × LateWrites) Unit :=
  Process.observed Step.exec LateWrites.observe

/-- A thread after a step: the one that took it, or another. -/
theorem getElem?_set_cases {threads : List Pc} {i j : Nat} {pc pc' : Pc}
    (hj : (threads.set i pc')[j]? = some pc) :
    j = i ∧ pc = pc' ∨ j ≠ i ∧ threads[j]? = some pc := by
  by_cases hij : i = j
  · subst hij
    rw [List.getElem?_set_self'] at hj
    obtain ⟨_, -, hpc⟩ := Option.map_eq_some_iff.mp hj
    exact .inl ⟨rfl, hpc.symm⟩
  · rw [List.getElem?_set_ne hij] at hj
    exact .inr ⟨Ne.symm hij, hj⟩

/-- A call is late if it is made after a batch has failed, and has had nothing accepted yet. -/
theorem Guarded.call (h : Guarded (s, notes)) (i : Nat) (c : Call) :
    Guarded ({ s with threads := s.threads.set i c.enter },
      notes.observe s (.call i c) { s with threads := s.threads.set i c.enter }) where
  inv := { h.inv with }
  heeded := ⟨h.heeded.silent, h.heeded.emptied, h.heeded.refused⟩
  late j hj := by
    by_cases hij : j = i
    · subst hij
      simpa [LateWrites.observe] using hj
    · refine h.late j ?_
      simpa [LateWrites.observe, Function.update_of_ne hij] using hj
  waits j hj pc hpc := by
    rcases getElem?_set_cases hpc with ⟨rfl, rfl⟩ | ⟨hij, hold⟩
    · cases c <;> exact id
    · refine h.waits j ?_ pc hold
      simpa [LateWrites.observe, Function.update_of_ne hij] using hj

/-- A critical section, once a batch has failed. -/
theorem Guarded.resume_hushed (h : Guarded (s, notes)) {i : Nat} {pc pc' : Pc} {s₁ : ServerWriter}
    (hi : s.threads[i]? = some pc) (hinv : Inv s₁) (hhushed : Hushed s s₁)
    (hwaits : pc'.Waits → pc.Waits)
    (hresults : ¬ pc.Waits → ∀ r ∈ pc.result? (s₁.trace.drop s.trace.length), r = false) :
    Guarded ({ s₁ with threads := s₁.threads.set i pc' },
      notes.observe s (.resume i) { s₁ with threads := s₁.threads.set i pc' }) := by
  obtain ⟨hthreads, hqueue, evs, htrace, hevs⟩ := hhushed
  have hget : s.threads.getD i .idle = pc := by
    rw [List.getD_eq_getElem?_getD, hi]
    rfl
  have hlate : (notes.observe s (.resume i) { s₁ with threads := s₁.threads.set i pc' }).late =
      notes.late := by
    simp only [LateWrites.observe]
    split <;> rfl
  refine ⟨{ hinv with }, h.heeded.hushed htrace hevs hqueue ?_, ?_, ?_⟩
  · simp only [LateWrites.observe, hget]
    split
    case isTrue hnoted =>
      intro r hr
      rcases List.mem_append.mp hr with hr | hr
      · exact h.heeded.refused r hr
      · exact hresults (h.waits i hnoted pc hi) r (Option.mem_toList.mp hr)
    case isFalse => exact h.heeded.refused
  · intro j hj
    rw [hlate] at hj
    exact broken_mono (htrace ▸ List.prefix_append _ _) (h.late j hj)
  · intro j hj pc₁ hpc₁
    rw [hlate] at hj
    replace hpc₁ : (s.threads.set i pc')[j]? = some pc₁ := by rw [← hthreads]; exact hpc₁
    rcases getElem?_set_cases hpc₁ with ⟨rfl, rfl⟩ | ⟨-, hold⟩
    · exact fun hw => h.waits j hj pc hi (hwaits hw)
    · exact h.waits j hj pc₁ hold

/-- A step after which no batch has failed yet. -/
theorem Guarded.unbroken (h : Guarded (s, notes)) {l : Step} (hinv : Inv s')
    (hlate : ∀ i c, l ≠ .call i c) (hs : broken s.trace = false) (hs' : broken s'.trace = false) :
    Guarded (s', notes.observe s l s') := by
  have hnone : ∀ i, notes.late i = false := by
    intro i
    by_contra hi
    rw [Bool.not_eq_false] at hi
    exact absurd (hs.symm.trans (h.late i hi)) (by simp)
  have hnotes : notes.observe s l s' = notes := by
    cases l with
    | call i c => exact absurd rfl (hlate i c)
    | resume i =>
        simp only [LateWrites.observe, hnone i]
        rfl
    | _ => rfl
  rw [hnotes]
  refine ⟨hinv, .unbroken hs' h.heeded.refused, ?_, ?_⟩
  · exact fun i hi => absurd ((hnone i).symm.trans hi) (by simp)
  · exact fun i hi => absurd ((hnone i).symm.trans hi) (by simp)

/-- A completion, once a batch has failed or with it. -/
theorem complete_hushed (hq : s.queue = []) (success : Bool) :
    wp (Step.exec (.complete success)) (fun _ => Hushed s) (fun _ _ => True) s := by
  simp only [Step.exec, wp_bind, wp_get, wp_modify, wp_emit, env_eq, setEnv_eq]
  refine wp_mono (tryToWriteNext_hushed (by exact hq)) ?_ fun _ _ _ => trivial
  intro _ s' h
  exact h.cons rfl rfl trivial

/-- The destructor sends no message where none is queued. -/
theorem destroy_hushed (hq : s.queue = []) :
    wp (Step.exec .destroy) (fun _ => Hushed s) (fun _ _ => True) s := by
  simp only [Step.exec, wp_bind, wp_modify, wp_check, wp_emit, env_eq, setEnv_eq]
  rw [if_pos (by simp [hq])]
  refine wp_mono (asyncClose_hushed (by exact hq) .OK) ?_ fun _ _ _ => trivial
  intro _ s' h
  exact h.cons rfl rfl trivial

/-- A completion that succeeds is no failed write. -/
theorem complete_unbroken :
    wp (Step.exec (.complete true)) (fun _ s' => broken s'.trace = broken s.trace)
      (fun _ s' => broken s'.trace = broken s.trace) s := by
  simp only [Step.exec, wp_bind, wp_get, wp_modify, wp_emit, env_eq, setEnv_eq]
  have hsent : broken (s.trace ++ [.sent (s.sending.headD []) true]) = broken s.trace := by
    rw [broken_append]
    exact Bool.or_false _
  exact wp_mono tryToWriteNext_frame (fun _ _ h => h.broken.trans hsent)
    fun _ _ h => h.broken.trans hsent

/-- Nor is the destructor. -/
theorem destroy_unbroken :
    wp (Step.exec .destroy) (fun _ s' => broken s'.trace = broken s.trace)
      (fun _ _ => True) s := by
  simp only [Step.exec, wp_bind, wp_modify, wp_check, wp_emit, env_eq, setEnv_eq]
  split
  · refine wp_mono (asyncClose_frame .OK) (fun _ s' h => h.broken.trans ?_) fun _ _ _ => trivial
    rw [broken_append]
    exact Bool.or_false _
  · trivial

/-- A step of no thread, once a batch has failed. -/
theorem Guarded.hushed (h : Guarded (s, notes)) (hinv : Inv s') (hhushed : Hushed s s') :
    Guarded (s', notes) := by
  obtain ⟨hthreads, hqueue, evs, htrace, hevs⟩ := hhushed
  refine ⟨hinv, h.heeded.hushed htrace hevs hqueue h.heeded.refused, ?_, ?_⟩
  · exact fun i hi => broken_mono (htrace ▸ List.prefix_append _ _) (h.late i hi)
  · exact fun i hi pc hpc => h.waits i hi pc (hthreads ▸ hpc)

/-- A step that misses no failure. -/
theorem step_guarded (h : Guarded (s, notes)) (l : Step) (hl : Step.Enabled s l)
    (hlose : ¬ Loses s l) (hmiss : ¬ Misses s l) :
    wp (Step.watched l) (fun _ => Guarded) (fun _ _ => False) (s, notes) := by
  rw [Process.wp_observed]
  have hleads := step_leads h.inv l hl hlose
  cases l with
  | call i c => exact h.call i c
  | resume i =>
      obtain ⟨pc, hi⟩ := Option.isSome_iff_exists.mp hl.2
      have hget : s.threads.getD i .idle = pc := by
        rw [List.getD_eq_getElem?_getD, hi]
        rfl
      simp only [Step.exec, wp_bind, wp_get, wp_modify, hget]
      by_cases hb : broken s.trace = true
      · have hpc : Refuses s pc := by
          intro m hm
          by_contra hopen
          -- A thread about to write into an open writer would be a step that misses.
          refine hmiss ⟨hb, by simpa using hopen, m, ?_⟩
          rcases hm with rfl | rfl
          · exact .inl hi
          · exact .inr hi
        refine wp_mono (wp_and (wp_pc h.inv pc) (pc_hushed (h.heeded.emptied hb) hpc)) ?_
          fun _ _ hf => hf.1
        rintro pc' s₁ ⟨hlead, hhushed, hwaits, hresults⟩
        exact h.resume_hushed hi hlead.inv hhushed hwaits hresults
      · -- The client has not gone yet, and nothing that was promised can be broken.
        rw [Bool.not_eq_true] at hb
        refine wp_mono (wp_and (wp_pc h.inv pc) (pc_unbroken pc)) ?_ fun _ _ hf => hf.1
        rintro pc' s₁ ⟨hlead, -, hbroken⟩
        exact h.unbroken { hlead.inv with } (by simp) hb (hbroken.trans hb)
  | complete success =>
      by_cases hfails : broken s.trace = true ∨ success = false
      · -- Nothing is queued, so only the status can be submitted.
        have hq : s.queue = [] := by
          rcases hfails with hb | rfl
          · exact h.heeded.emptied hb
          · by_contra hq
            exact hmiss ⟨rfl, hq⟩
        refine wp_mono (wp_and hleads (complete_hushed hq success)) ?_ fun _ _ hf => hf.1
        rintro _ s' ⟨hlead, hhushed⟩
        exact h.hushed hlead.inv hhushed
      · obtain ⟨hb, hsuccess⟩ := not_or.mp hfails
        rw [Bool.not_eq_true] at hb
        obtain rfl : success = true := by simpa using hsuccess
        refine wp_mono (wp_and hleads complete_unbroken) ?_ fun _ _ hf => hf.1
        rintro _ s' ⟨hlead, hbroken⟩
        exact h.unbroken hlead.inv (by simp) hb (hbroken.trans hb)
  | destroy =>
      by_cases hb : broken s.trace = true
      · refine wp_mono (wp_and hleads (destroy_hushed (h.heeded.emptied hb))) ?_
          fun _ _ hf => hf.1
        rintro _ s' ⟨hlead, hhushed⟩
        exact h.hushed hlead.inv hhushed
      · rw [Bool.not_eq_true] at hb
        refine wp_mono (wp_and hleads destroy_unbroken) ?_ fun _ _ hf => hf.1
        rintro _ s' ⟨hlead, hbroken⟩
        exact h.unbroken hlead.inv (by simp) hb (hbroken.trans hb)

/-- Losing a queued message is undefined; no batch has failed before it. -/
theorem step_lost_unbroken (h : Guarded (s, notes)) (l : Step) (hl : Step.Enabled s l)
    (hlose : Loses s l) (hmiss : ¬ Misses s l) :
    wp (Step.watched l) (fun _ _ => False) (fun e c => e = .undefined ∧ Heeded c) (s, notes) := by
  rw [Process.wp_observed]
  have hlost := step_loses h.inv l hl hlose
  cases l with
  | complete success =>
      have hb : broken s.trace = false := by
        by_contra hb
        exact hlose.2.1 (h.heeded.emptied (by simpa using hb))
      obtain rfl : success = true := by
        by_contra hsuccess
        exact hmiss ⟨by simpa using hsuccess, hlose.2.1⟩
      refine wp_mono (wp_and hlost complete_unbroken) (fun _ _ hf => hf.1) ?_
      rintro e s' ⟨⟨he, -⟩, hbroken⟩
      exact ⟨he, .unbroken (hbroken.trans hb) h.heeded.refused⟩
  | call i c => exact hlose.elim
  | resume i => exact hlose.elim
  | destroy => exact hlose.elim

/-! ### Failures that are missed -/

/-- A message is submitted, or a response accepted, after a batch has failed. -/
theorem not_heeded_of_trace {tr : List (Event Cb)} {e : Event Cb} {rest : List (Event Cb)}
    (htrace : s'.trace = tr ++ e :: rest) (he : ¬ Heeds tr e) : ¬ Heeded (s', notes) :=
  fun h => he (h.silent tr e rest htrace)

/-- An open writer submits the response, or queues it and returns true. -/
theorem asyncWrite_missed (h : Inv s) (hb : broken s.trace = true)
    (hopen : (s.closed || s.closeStatus.isSome) = false) (m : Bytes) :
    wp (asyncWrite m) (fun r s' => ∃ e rest, s'.trace ++ [.wrote m r] = s.trace ++ e :: rest ∧
      ¬ Heeds s.trace e) (fun _ _ => False) s := by
  simp only [asyncWrite, wp_bind, wp_get, wp_ite, wp_pure, wp_modify, wp_check]
  rw [if_neg (by simp [hopen])]
  by_cases hs : s.isSending = true
  · rw [if_pos hs]
    exact ⟨.wrote m true, [], rfl, fun he => absurd (he hb) (by simp)⟩
  · rw [Bool.not_eq_true] at hs
    rw [if_neg (by simp [hs]), if_pos (by simp [(h.idle hs).2]),
      wp_sendMsg (Bool.or_eq_false_iff.mp hopen).1 hs]
    have hsubmits : ∀ r, ¬ Heeds s.trace (.batch (msgBatch m s.sendInitMd) r) :=
      fun r he => absurd (he hb) (by simp)
    split
    · exact ⟨_, [.wrote m true], List.append_assoc _ _ _, hsubmits true⟩
    · exact ⟨_, [.wrote m false], List.append_assoc _ _ _, hsubmits false⟩

/-- A step outside the condition sends a message, or returns true, after a failed write. -/
theorem step_missed (h : Inv s) (l : Step) (hl : Step.Enabled s l) (hmiss : Misses s l) :
    wp (Step.watched l) (fun _ c => ¬ Heeded c) (fun _ c => ¬ Heeded c) (s, notes) := by
  rw [Process.wp_observed]
  cases l with
  | call i c => exact hmiss.elim
  | destroy => exact hmiss.elim
  | complete success =>
      obtain ⟨rfl, hq⟩ := hmiss
      obtain ⟨hc, m, hm⟩ := h.in_flight hl.2
      obtain ⟨m', q, hq⟩ := List.exists_cons_of_ne_nil hq
      -- The batch of the next message comes right after the failed one.
      have hbad : ∀ (tr : List (Event Cb)) r,
          ¬ Heeds (tr ++ [.sent m false]) (.batch (msgBatch m' s.sendInitMd) r) := by
        intro tr r he
        refine absurd (he ?_) (by simp)
        rw [broken_append]
        exact Bool.or_true _
      simp only [Step.exec, tryToWriteNext, popQueue, wp_bind, wp_get, wp_modify, wp_emit, wp_ite,
        wp_throw, wp_check, env_eq, setEnv_eq, hm]
      rw [if_neg (by simp [hc]), if_pos (by simp [hq])]
      refine (wp_sendMsg (by exact hc) (by rfl)).mpr ?_
      rw [hq]
      split
      · rw [if_neg (by simp), if_pos (by rfl)]
        exact not_heeded_of_trace rfl (hbad s.trace true)
      · rw [if_pos (by rfl)]
        exact not_heeded_of_trace rfl (hbad s.trace false)
  | resume i =>
      obtain ⟨hb, hopen, m, hi⟩ := hmiss
      simp only [Step.exec, wp_bind, wp_get, wp_modify]
      rw [List.getD_eq_getElem?_getD]
      have hwrite := asyncWrite_missed h hb hopen m
      rcases hi with hi | hi
      · rw [hi]
        simp only [Option.getD_some, Pc.exec, wp_bind, wp_emit, wp_pure, env_eq, setEnv_eq]
        refine wp_mono hwrite ?_ fun _ _ hf => hf.elim
        rintro r s' ⟨e, rest, htrace, he⟩
        exact not_heeded_of_trace htrace he
      · rw [hi]
        simp only [Option.getD_some, Pc.exec, wp_bind, wp_emit, wp_ite, wp_pure, env_eq, setEnv_eq]
        refine wp_mono hwrite ?_ fun _ _ hf => hf.elim
        rintro r s' ⟨e, rest, htrace, he⟩
        split
        · exact not_heeded_of_trace htrace he
        · have hcalled : s'.trace ++ [.wrote m r] ++ [.called (.syncWrote m false)] =
              s.trace ++ e :: (rest ++ [.called (.syncWrote m false)]) := by
            rw [htrace, List.append_assoc, List.cons_append]
          exact not_heeded_of_trace hcalled he

/-! ### Runs -/

/-- **Failed batches.**  In every run, whatever `StartBatch` answers and whichever batches fail: a
batch that fails ends the writing, if and only if no batch fails while messages are queued and,
once one has failed, no response is written before the writer is closed. -/
theorem heeded_iff (starts : List Bool) (n : Nat) (ls : List Step) (h : Legal (new starts n) ls) :
    (∀ pre, pre <+: ls →
      Heeded (Process.after Step.watched (.running (new starts n, {})) pre).state) ↔
    Process.Along Step.exec (fun s l => ¬ Misses s l) (.running (new starts n)) ls := by
  have hnew : Guarded (new starts n, {}) :=
    ⟨Inv.new starts n, .unbroken rfl (by simp), by simp, by simp⟩
  have hlegal : Process.Along Step.watched (fun c l => Step.Enabled c.1 l)
      (.running (new starts n, {})) ls := (Process.along_observed _ ls).mpr h
  have hmiss : Process.Along Step.watched (fun c l => ¬ Misses c.1 l)
      (.running (new starts n, {})) ls ↔
        Process.Along Step.exec (fun s l => ¬ Misses s l) (.running (new starts n)) ls :=
    Process.along_observed (P := fun s l => ¬ Misses s l) _ ls
  rw [← hmiss]
  refine Process.along_iff_next (I := Process.Holds Guarded fun _ => Heeded)
    (Q := fun c => Heeded c.state) ?_ ?_ ?_ hnew hlegal
  · -- Once the process has stopped, what was heard of stays so.
    rintro (c | ⟨e, c⟩) hc
    · exact hc.heeded
    · exact hc
  · rintro ⟨s, notes⟩ l hI hl hP
    refine Process.holds_next ?_
    by_cases hlose : Loses s l
    · refine wp_mono (step_lost_unbroken hI l hl hlose hP) (fun _ _ hf => hf.elim) ?_
      rintro e c ⟨rfl, hc⟩
      exact hc
    · exact wp_mono (step_guarded hI l hl hlose hP) (fun _ _ hc => hc) fun _ _ hf => hf.elim
  · rintro ⟨s, notes⟩ l hI hl hP
    have hmissed : wp (Step.watched l) (fun _ c => ¬ Heeded c) (fun _ c => ¬ Heeded c) (s, notes) :=
      step_missed hI.inv l hl (not_not.mp hP)
    exact Process.state_next hmissed

instance Heeded.decidable (c : ServerWriter × LateWrites) : Decidable (Heeded c) :=
  decidable_of_iff (Whenever Heeds c.1.trace ∧ (broken c.1.trace = true → c.1.queue = []) ∧
      ∀ r ∈ c.2.results, r = false)
    ⟨fun ⟨hs, he, hr⟩ => ⟨hs, he, hr⟩, fun ⟨hs, he, hr⟩ => ⟨hs, he, hr⟩⟩

/-- The only message fails with the status already waiting, and the next write is refused. -/
theorem heeded_iff_closing :
    let ls : List Step := [.call 0 (.asyncWrite [1]), .resume 0, .call 1 (.asyncClose .OK),
      .resume 1, .complete false, .call 0 (.syncWrite [2]), .resume 0]
    (∀ pre, pre <+: ls →
      Heeded (Process.after Step.watched (.running (new [] 2, {})) pre).state) ↔
    Process.Along Step.exec (fun s l => ¬ Misses s l) (.running (new [] 2)) ls :=
  heeded_iff [] 2 _ (by decide)

/-- The first batch fails, and `TryToWriteNext()` submits the message behind it; or nothing is
queued, and a later write is accepted, and returns true. -/
theorem not_heeded :
    let queued : List Step := [.call 0 (.asyncWrite [1]), .resume 0, .call 0 (.asyncWrite [2]),
      .resume 0, .complete false]
    let later : List Step := [.call 0 (.asyncWrite [1]), .resume 0, .complete false,
      .call 0 (.asyncWrite [2]), .resume 0]
    Legal (new [] 1) queued ∧ Legal (new [] 1) later ∧
      ¬ Heeded (Process.after Step.watched (.running (new [] 1, {})) queued).state ∧
      (Process.after Step.watched (.running (new [] 1, {})) later).state.2.results = [true] ∧
      ¬ Heeded (Process.after Step.watched (.running (new [] 1, {})) later).state := by
  decide

end GrpcLua.ServerWriter
