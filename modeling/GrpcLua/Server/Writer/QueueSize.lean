import GrpcLua.Server.Writer.Frames

/-!
# Server — Writer — QueueSize

How long the queue gets where every thread writes through `Write()`.  The size is looked at in one
critical section and the message is pushed in another, and a thread that has found the queue full
still pushes its message before it waits: the queue may exceed its high size by one message for each
thread that is about to push, and by one for each that waits.
-/

namespace GrpcLua.ServerWriter
open Prog

variable {s : ServerWriter} {H n : Nat}

/-- The thread is in `Write()`, or in nothing. -/
def Pc.ofWrite : Pc → Bool
  | idle => true
  | write _ => true
  | asyncWrite _ => true
  | syncWrite _ => true
  | waitWrite _ => true
  | endWrite _ => true
  | _ => false

/-- The thread has found the queue short, and is about to push. -/
def Pc.pushing : Pc → Bool
  | asyncWrite _ => true
  | _ => false

/-- The thread has found the queue full and has pushed, and waits. -/
def Pc.waiting : Pc → Bool
  | waitWrite _ => true
  | _ => false

/-- The step calls nothing but `Write()`. -/
def Step.ofWrite : Step → Prop
  | call _ c => ∃ response, c = .write response
  | _ => True

/-- The invariant.  The threads that are about to push are at most those that do not wait, and they
have found the queue shorter than `H`. -/
structure Bounded (H n : Nat) (s : ServerWriter) : Prop where
  high : s.highQueueSize = H
  threads : s.threads.length = n
  ofWrite : ∀ pc ∈ s.threads, pc.ofWrite = true
  bound : s.queue.length + s.threads.countP Pc.pushing ≤ s.threads.countP Pc.waiting + H + n

/-! ### Steps -/

theorem Bounded.frame (h : Bounded H n s) {s' : ServerWriter}
    (hhigh : s'.highQueueSize = s.highQueueSize) (hthreads : s'.threads = s.threads)
    (hqueue : s'.queue.length ≤ s.queue.length) : Bounded H n s' where
  high := hhigh.trans h.high
  threads := by rw [hthreads, h.threads]
  ofWrite := by rw [hthreads]; exact h.ofWrite
  bound := by
    have hbound := h.bound
    rw [hthreads]
    omega

theorem ofWrite_set {threads : List Pc} (h : ∀ pc ∈ threads, pc.ofWrite = true) {pc' : Pc}
    (hpc : pc'.ofWrite = true) (i : Nat) : ∀ pc ∈ threads.set i pc', pc.ofWrite = true := by
  intro pc hmem
  rcases List.mem_or_eq_of_mem_set hmem with hmem | rfl
  · exact h pc hmem
  · exact hpc

/-- Thread `i` goes from `pc` to `q`.  Either the queue is not longer than `H`, or it grows by no
more than the thread makes up for: it was about to push, or it waits from now on. -/
theorem Bounded.set (h : Bounded H n s) {k i : Nat} {pc q : Pc} {s' : ServerWriter}
    (hi : s.threads[i]? = some pc) (hhigh : s'.highQueueSize = s.highQueueSize)
    (hthreads : s'.threads = s.threads.set i q) (hqueue : s'.queue.length ≤ s.queue.length + k)
    (hpc : q.ofWrite = true)
    (hk : s'.queue.length ≤ H ∨
      k + (if q.pushing then 1 else 0) + (if pc.waiting then 1 else 0) ≤
        (if pc.pushing then 1 else 0) + if q.waiting then 1 else 0) : Bounded H n s' := by
  obtain ⟨hlt, hget⟩ := List.getElem?_eq_some_iff.mp hi
  refine ⟨hhigh.trans h.high, ?_, ?_, ?_⟩
  · rw [hthreads, List.length_set, h.threads]
  · rw [hthreads]
    exact ofWrite_set h.ofWrite hpc i
  · rw [hthreads]
    rcases hk with hk | hk
    · -- No more threads push than there are.
      have hle : (s.threads.set i q).countP Pc.pushing ≤ n := by
        have hlength : (s.threads.set i q).length = s.threads.length := List.length_set
        rw [← h.threads, ← hlength]
        exact List.countP_le_length
      omega
    · have hbound := h.bound
      have hpushing : (if pc.pushing then 1 else 0) ≤ s.threads.countP Pc.pushing := by
        rw [← hget]
        exact List.boole_getElem_le_countP hlt
      have hwaiting : (if pc.waiting then 1 else 0) ≤ s.threads.countP Pc.waiting := by
        rw [← hget]
        exact List.boole_getElem_le_countP hlt
      rw [List.countP_set hlt, List.countP_set hlt, hget]
      omega

/-- The thread goes on without touching the queue. -/
theorem Bounded.goesOn (h : Bounded H n s) {i : Nat} {pc q : Pc} {s' : ServerWriter}
    (hi : s.threads[i]? = some pc) (hs : s' = { s with threads := s.threads.set i q })
    (hpc : q.ofWrite = true)
    (hk : s.queue.length ≤ H ∨
      (if q.pushing then 1 else 0) + (if pc.waiting then 1 else 0) ≤
        (if pc.pushing then 1 else 0) + if q.waiting then 1 else 0) : Bounded H n s' := by
  subst hs
  exact h.set (k := 0) hi rfl rfl (Nat.le_refl _) hpc (by rwa [Nat.zero_add])

/-- The next critical section of a thread. -/
theorem resume_bounded (h : Bounded H n s) {i : Nat} {pc : Pc} (hi : s.threads[i]? = some pc) :
    wp pc.exec (fun pc' s' => Bounded H n { s' with threads := s'.threads.set i pc' })
      (fun _ => Bounded H n) s := by
  have hof := h.ofWrite pc (List.mem_of_getElem? hi)
  cases pc with
  | idle => exact h.goesOn hi rfl rfl (.inr (Nat.le_refl _))
  | write response =>
      -- `Write` has looked at the queue: this thread may push one message below the limit.
      simp only [Pc.exec, wp_bind, wp_get, wp_pure]
      split
      case isTrue hhigh => exact h.goesOn hi rfl rfl (.inr (Nat.le_refl _))
      case isFalse hlow =>
        rw [h.high] at hlow
        exact h.goesOn hi rfl rfl (.inl (Nat.le_of_not_le hlow))
  | asyncWrite response =>
      simp only [Pc.exec, wp_bind, wp_emit, wp_pure, env_eq, setEnv_eq]
      refine wp_mono (asyncWrite_frame response) (fun r s' hp => ?_)
        fun _ _ hp => h.frame hp.high hp.threads hp.queue
      refine h.set (q := .idle) hi hp.high (by rw [hp.threads]) hp.queue rfl (.inr ?_)
      cases r <;> simp [Pc.pushing, Pc.waiting]
  | syncWrite response =>
      simp only [Pc.exec, wp_bind, wp_emit, wp_ite, wp_pure, env_eq, setEnv_eq]
      refine wp_mono (asyncWrite_frame response) (fun r s' hp => ?_)
        fun _ _ hp => h.frame hp.high hp.threads hp.queue
      cases r with
      | true =>
          rw [if_pos rfl]
          exact h.set (q := .waitWrite response) hi hp.high (by rw [hp.threads]) hp.queue rfl
            (.inr (Nat.le_refl _))
      | false =>
          -- A message that is refused is not pushed.
          rw [if_neg (by simp)]
          exact h.set (q := .idle) hi hp.high (by rw [hp.threads]) hp.queue rfl
            (.inr (Nat.le_refl _))
  | waitWrite response =>
      simp only [Pc.exec, wp_bind, wp_get, wp_pure]
      -- The wait ends with an empty queue, which leaves room for the next message.
      by_cases hq : getQueueSize s = 0
      · rw [if_neg (by simp [hq])]
        refine h.goesOn hi rfl rfl (.inl ?_)
        rw [show s.queue.length = 0 from hq]
        exact Nat.zero_le H
      · rw [if_pos hq]
        exact h.goesOn hi rfl rfl (.inr (Nat.le_refl _))
  | endWrite response =>
      simp only [Pc.exec, wp_bind, wp_get, wp_emit, wp_pure, env_eq, setEnv_eq]
      exact h.set (k := 0) (q := .idle) hi rfl rfl (Nat.le_refl _) rfl (.inr (Nat.le_refl _))
  | asyncClose status => cases hof
  | syncClose status => cases hof
  | waitClose => cases hof
  | setHighQueueSize size => cases hof

theorem step_bounded (h : Bounded H n s) (l : Step) (hl : Step.Enabled s l) (hw : l.ofWrite) :
    wp l.exec (fun _ => Bounded H n) (fun _ => Bounded H n) s := by
  obtain ⟨-, hl⟩ := hl
  cases l with
  | call i c =>
      obtain ⟨response, rfl⟩ := hw
      exact h.goesOn (q := .write response) hl rfl rfl (.inr (Nat.le_refl _))
  | resume i =>
      obtain ⟨pc, hi⟩ := Option.isSome_iff_exists.mp hl
      simp only [Step.exec, wp_bind, wp_get, wp_modify]
      rw [List.getD_eq_getElem?_getD, hi]
      exact resume_bounded h hi
  | complete success =>
      simp only [Step.exec, wp_bind, wp_get, wp_modify, wp_emit, env_eq, setEnv_eq]
      exact wp_mono tryToWriteNext_frame (fun _ _ hp => h.frame hp.high hp.threads hp.queue)
        fun _ _ hp => h.frame hp.high hp.threads hp.queue
  | destroy =>
      simp only [Step.exec, wp_bind, wp_modify, wp_check, wp_emit, env_eq, setEnv_eq]
      split
      · exact wp_mono (asyncClose_frame .OK) (fun _ _ hp => h.frame hp.high hp.threads hp.queue)
          fun _ _ hp => h.frame hp.high hp.threads hp.queue
      · exact { h with }

/-- The object with the high size `H`, which nobody changes. -/
def newHigh (starts : List Bool) (H n : Nat) : ServerWriter :=
  { new starts n with highQueueSize := H }

theorem Bounded.newHigh (starts : List Bool) (H n : Nat) : Bounded H n (newHigh starts H n) where
  high := rfl
  threads := List.length_replicate
  ofWrite := by
    intro pc hpc
    rw [List.eq_of_mem_replicate hpc]
    rfl
  bound := by
    have hpushing : (List.replicate n Pc.idle).countP Pc.pushing = 0 := by
      simp [List.countP_replicate, Pc.pushing]
    show 0 + (List.replicate n Pc.idle).countP Pc.pushing ≤ _
    omega

/-- **The queue.**  Whatever the interleaving of `n` threads that write through `Write()`, and
whatever `StartBatch` answers: the queue never holds more than `H + 2 * n` messages. -/
theorem queue_bounded (starts : List Bool) (H n : Nat) {ls : List Step}
    (h : Legal (newHigh starts H n) ls) (hw : ∀ l ∈ ls, l.ofWrite) :
    (after (newHigh starts H n) ls).state.queue.length ≤ H + 2 * n := by
  have hb : Bounded H n (after (newHigh starts H n) ls).state :=
    Process.invariant_state (fun s l hI hP => step_bounded hI l hP.1 hP.2)
      (c := .running _) (.newHigh starts H n) (h.and (.of_forall hw))
  have hbound := hb.bound
  have hle := List.countP_le_length (p := Pc.waiting)
    (l := (after (newHigh starts H n) ls).state.threads)
  rw [hb.threads] at hle
  omega

/-- A thread finds the queue full and pushes its message behind the one that it finds there. -/
theorem queue_bounded_full :
    (after (newHigh [] 1 2) [.call 0 (.write [1]), .resume 0, .resume 0, .call 0 (.write [2]),
      .resume 0, .resume 0, .call 1 (.write [3]), .resume 1, .resume 1]).state.queue.length ≤
        1 + 2 * 2 :=
  queue_bounded [] 1 2 (by decide) (by simp [Step.ofWrite])

end GrpcLua.ServerWriter
