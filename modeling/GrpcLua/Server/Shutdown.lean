import GrpcLua.Server.Registration

/-!
# Server — Shutdown

The requests for calls against the end of the server.  `DoComplete()` requests the next call
whenever a handler has come back, and does not look at `shutdown_`; `Run()` looks at nothing else,
and once it is set takes no tag from the queue any more.

* `quiet_iff`: a request is made after the shutdown, and refused, exactly where a handler comes back
  then.
* `Pending`: a started server keeps a tag for each of its methods, for ever.
-/

namespace GrpcLua
open Prog

namespace Server
variable {s : Server}

/-- How many of the tags that are allocated request a call. -/
def pending (s : Server) : Nat := (requests s.heap).length

/-- `Server::~Server()`, up to its `pthread_join`.  Nobody polls the queue any more after it. -/
def destroy : M Unit := shutdownInternal

/-- What a step that leads from `s` to `c` may do.  A request that is made leaves its tag allocated,
also where gRPC refuses it and the constructor's assertion fails. -/
structure Quiet (s : Server) (c : Process Server) : Prop where
  /-- Once `shutdown_` is set, no request is made. -/
  not_made : s.shutdown = true → c.state.pending ≤ s.pending
  /-- The assertion that a request succeeds does not fail. -/
  not_refused : ∀ s', c = .stopped .assertion s' → s'.shutdown = true → s'.pending ≤ s.pending

/-- With the answer of Lua, `DoComplete()` comes to its end. -/
def ComesBack (s : Server) (f : Frame) (answer : LuaValue) : Prop :=
  match f.waiting with
  | .callSimpleMethod _ _ _ | .callS2cStreamingMethod _ _ _ | .onEnd _ => True
  | .callC2sStreamingMethod _ _ | .callBidiStreamingMethod _ _ =>
      answer ≠ .nil ∧ s.starts.headD true = true
  | .onMsgStr _ _ => answer = .nil ∧ s.starts.headD true = true
  | .onError _ _ => False

instance (s : Server) : ∀ (f : Frame) (answer : LuaValue), Decidable (ComesBack s f answer)
  | ⟨_, .callSimpleMethod _ _ _⟩, _ => isTrue trivial
  | ⟨_, .callS2cStreamingMethod _ _ _⟩, _ => isTrue trivial
  | ⟨_, .onEnd _⟩, _ => isTrue trivial
  | ⟨_, .callC2sStreamingMethod _ _⟩, answer =>
      inferInstanceAs (Decidable (answer ≠ .nil ∧ s.starts.headD true = true))
  | ⟨_, .callBidiStreamingMethod _ _⟩, answer =>
      inferInstanceAs (Decidable (answer ≠ .nil ∧ s.starts.headD true = true))
  | ⟨_, .onMsgStr _ _⟩, answer =>
      inferInstanceAs (Decidable (answer = .nil ∧ s.starts.headD true = true))
  | ⟨_, .onError _ _⟩, _ => isFalse id

/-- After the shutdown, a method call's `DoComplete()` that waits for Lua comes to its end. -/
def ComesBackLate (s : Server) : Step → Prop
  | .ret answer => s.shutdown = true ∧
      ∃ f ∈ s.stack.head?, f.tag.method? ≠ none ∧ ComesBack s f answer
  | _ => False

instance (s : Server) : ∀ l, Decidable (ComesBackLate s l)
  | .ret answer => inferInstanceAs (Decidable (s.shutdown = true ∧
      ∃ f ∈ s.stack.head?, f.tag.method? ≠ none ∧ ComesBack s f answer))
  | .registerService _ _ | .run _ | .raise | .start _ | .shutdown => isFalse id

/-! ### Requests after the shutdown -/

section late
variable {n : Nat} {tag : CqTag} {f : Frame}

/-- A tag that is taken out is one request at most. -/
theorem length_requests_erase {tags : List CqTag} (tag : CqTag) :
    (requests tags).length ≤ (requests (tags.erase tag)).length + (requests [tag]).length := by
  by_cases hmem : tag ∈ tags
  · have hperm := ((List.perm_cons_erase hmem).filterMap CqTag.method?).length_eq
    rw [show tag :: tags.erase tag = [tag] ++ tags.erase tag from rfl, List.filterMap_append,
      List.length_append] at hperm
    exact Nat.le_of_eq (hperm.trans (Nat.add_comm _ _))
  · rw [List.erase_of_not_mem hmem]
    exact Nat.le_add_right _ _

/-- A tag that is no request leaves the requests as they are. -/
theorem requests_erase {tags : List CqTag} {tag : CqTag} (ht : tag.method? = none) :
    (requests (tags.erase tag)).length = (requests tags).length := by
  refine Nat.le_antisymm (List.erase_sublist.filterMap _).length_le ?_
  have hle : (requests tags).length ≤
      (requests (tags.erase tag)).length + (requests [tag]).length := length_requests_erase tag
  rwa [requests_of_none ht] at hle

/-- `StartBatch` returns what it is to return. -/
theorem wp_startTag_headD {Q : Bool → Server → Prop} {E : Exit → Server → Prop}
    (ht : tag.method? = none)
    (hQ : ∀ s', s'.pending = s.pending → s'.shutdown = s.shutdown → Q (s.starts.headD true) s') :
    wp (startTag tag) Q E s := by
  simp only [startTag, newTag, submit, deleteTag, wp_bind, wp_get, wp_modify, wp_ite, wp_pure]
  cases hb : s.starts.headD true with
  | true =>
      rw [hb] at hQ
      rw [if_pos rfl]
      refine hQ _ ?_ rfl
      simp [pending, requests_of_none ht]
  | false =>
      rw [hb] at hQ
      rw [if_neg Bool.false_ne_true]
      refine hQ _ ?_ rfl
      rw [pending, requests_erase ht, requests_append, requests_of_none ht, List.append_nil]
      rfl

/-- gRPC refuses the request. -/
theorem wp_newMethodCall_late (hd : s.shutdown = true) (service : Service) (i : Nat)
    (handle : Handle) : wp (newMethodCall service i handle) (fun _ _ => False)
      (fun e s' => e = .assertion ∧ s'.shutdown = true ∧ s'.pending = s.pending + 1) s := by
  have hnew : pending { s with heap := s.heap ++ [.methodCall service i handle] } =
      s.pending + 1 := by
    rw [pending, requests_append, List.length_append]
    rfl
  simp only [newMethodCall, newTag, wp_bind, wp_modify, wp_check]
  split
  · rw [if_neg (by simp [hd])]
    exact ⟨trivial, hd, hnew⟩
  · exact ⟨trivial, hd, hnew⟩

/-- After the shutdown gRPC refuses the next request, and the assertion fails. -/
theorem wp_requestNext_late (hd : s.shutdown = true) (ht : tag.method? ≠ none) :
    wp (requestNext tag) (fun _ _ => False)
      (fun e s' => e = .assertion ∧ s'.shutdown = true ∧ s'.pending = s.pending + 1) s := by
  cases tag with
  | methodCall service i handle =>
      rw [requestNext, wp_bind]
      exact wp_mono (wp_newMethodCall_late hd service i handle) (fun _ _ hf => hf.elim)
        fun _ _ he => he
  | _ => exact absurd rfl ht

/-- Shutdown, and with `n` requests. -/
abbrev Late (n : Nat) (s : Server) : Prop := s.shutdown = true ∧ s.pending = n

/-- These parts keep the shutdown and the number of requests. -/
theorem idle_late : Idle (Late n) fun _ => Late n where
  start _ _ ht h := wp_startTag_headD ht fun _ hn hd => ⟨hd.trans h.1, hn.trans h.2⟩
  exit _ _ _ h := h

/-- A tag without method requests nothing. -/
theorem wp_requestNext_none {Q : Option LuaCall → Server → Prop} {E : Exit → Server → Prop}
    (ht : tag.method? = none) : wp (requestNext tag) Q E s ↔ Q none s := by
  cases tag with
  | methodCall service i handle => cases ht
  | _ => exact Iff.rfl

/-- The other tags go on as before. -/
theorem resume_of_none (ht : f.tag.method? = none) (h : Late n s) (answer : LuaValue) :
    wp (resume f answer) (fun _ => Late n) (fun _ => Late n) s :=
  wp_resume idle_late (fun _ h' => (wp_requestNext_none ht).mpr h') (fun _ _ h' => h') h answer

/-- A request is refused: the assertion fails, with its tag allocated. -/
abbrev Refused (n : Nat) (e : Exit) (s' : Server) : Prop :=
  e = .assertion ∧ s'.shutdown = true ∧ s'.pending = n + 1

/-- A tag whose call is done requests the next one, which is refused. -/
theorem Late.wp_orRequestNext_none (h : Late n s) (ht : tag.method? ≠ none) :
    wp (orRequestNext tag none) (fun _ _ => False) (Refused n) s := by
  obtain ⟨hd, rfl⟩ := h
  exact wp_requestNext_late hd ht

/-- A method call's `DoComplete()` comes to its end. -/
theorem resume_comesBack (h : Late n s) (ht : f.tag.method? ≠ none) {answer : LuaValue}
    (hback : ComesBack s f answer) :
    wp (resume f answer) (fun _ _ => False) (Refused n) s := by
  obtain ⟨tag, waiting⟩ := f
  have hstarted : ∀ call, s.starts.headD true = true →
      wp (startTag (.reader call)) (fun started s' => started = true ∧ Late n s')
        (Refused n) s := fun call hstart =>
    wp_startTag_headD rfl fun s' hn hd => ⟨hstart, hd.trans h.1, hn.trans h.2⟩
  have hcalled : ∀ call, answer ≠ .nil → s.starts.headD true = true →
      wp (resume.startCalled ⟨tag, waiting⟩ answer call) (fun _ _ => False) (Refused n) s := by
    intro call hanswer hstart
    simp only [resume.startCalled, startReader, wp_bind, wp_check]
    rw [if_pos (decide_eq_true hanswer)]
    refine wp_mono (hstarted call hstart) ?_ fun _ _ he => he
    rintro _ s₁ ⟨rfl, h₁⟩
    exact h₁.wp_orRequestNext_none ht
  cases waiting with
  | callSimpleMethod index request call => exact h.wp_orRequestNext_none ht
  | callS2cStreamingMethod index request call => exact h.wp_orRequestNext_none ht
  | callC2sStreamingMethod index call => exact hcalled call hback.1 hback.2
  | callBidiStreamingMethod index call => exact hcalled call hback.1 hback.2
  | onMsgStr call msg =>
      obtain ⟨rfl, hstart⟩ := hback
      simp only [resume, onMsgStrStatus, readNext, wp_bind, wp_pure]
      rw [if_neg (by decide)]
      rw [wp_bind]
      refine wp_mono (hstarted call hstart) ?_ fun _ _ he => he
      rintro _ s₁ ⟨rfl, h₁⟩
      exact h₁.wp_orRequestNext_none ht
  | onError call status => exact hback.elim
  | onEnd call => exact h.wp_orRequestNext_none ht

/-- It waits for Lua once more. -/
theorem resume_waits (h : Late n s) {answer : LuaValue} (hback : ¬ ComesBack s f answer) :
    wp (resume f answer) (fun r s' => r ≠ none ∧ Late n s') (fun _ => Late n) s := by
  obtain ⟨tag, waiting⟩ := f
  -- An error is handed to the reader of Lua, which is called next.
  have hwaits : ∀ {call status s₁}, Late n s₁ → status.ok = false →
      wp (endOnError call status) (fun r s' => r ≠ none ∧ Late n s') (fun _ => Late n) s₁ := by
    intro call status s₁ h₁ hok
    simp only [endOnError, wp_bind, wp_check, wp_pure, hok]
    exact ⟨Option.some_ne_none _, h₁⟩
  -- A read that is refused is no request for a call.
  have hrefused : ∀ call, s.starts.headD true ≠ true →
      wp (startTag (.reader call)) (fun started s' => started = false ∧ Late n s')
        (fun _ => Late n) s := fun call hstart =>
    wp_startTag_headD rfl fun s' hn hd =>
      ⟨Bool.not_eq_true _ ▸ hstart, hd.trans h.1, hn.trans h.2⟩
  have hcalled : ∀ call, ¬ (answer ≠ .nil ∧ s.starts.headD true = true) →
      wp (resume.startCalled ⟨tag, waiting⟩ answer call) (fun r s' => r ≠ none ∧ Late n s')
        (fun _ => Late n) s := by
    intro call hno
    simp only [resume.startCalled, startReader, wp_bind, wp_check]
    split
    · rename_i hanswer
      have hstart : s.starts.headD true ≠ true := fun hb => hno ⟨of_decide_eq_true hanswer, hb⟩
      refine wp_mono (hrefused call hstart) ?_ fun _ _ he => he
      rintro _ s₁ ⟨rfl, h₁⟩
      exact ⟨Option.some_ne_none _, h₁⟩
    · exact h
  cases waiting with
  | callSimpleMethod index request call => exact absurd trivial hback
  | callS2cStreamingMethod index request call => exact absurd trivial hback
  | callC2sStreamingMethod index call => exact hcalled call hback
  | callBidiStreamingMethod index call => exact hcalled call hback
  | onMsgStr call msg =>
      have horNext : ∀ {r s₁}, r ≠ none ∧ Late n s₁ →
          wp (orRequestNext tag r) (fun r s' => r ≠ none ∧ Late n s') (fun _ => Late n) s₁ := by
        rintro (- | waiting) s₁ ⟨hne, h₁⟩
        · exact absurd rfl hne
        · exact ⟨hne, h₁⟩
      simp only [resume, wp_bind]
      cases answer with
      | nil =>
          have hstart : s.starts.headD true ≠ true := fun hb => hback ⟨rfl, hb⟩
          simp only [onMsgStrStatus, readNext, wp_pure]
          rw [if_neg (by decide), wp_bind]
          refine wp_mono (hrefused call hstart) ?_ fun _ _ he => he
          rintro _ s₁ ⟨rfl, h₁⟩
          exact wp_mono (hwaits h₁ rfl) (fun _ _ h₂ => horNext h₂) fun _ _ he => he
      | string m =>
          simp only [onMsgStrStatus, readNext, wp_pure]
          rw [if_pos (by simp)]
          exact wp_mono (hwaits h rfl) (fun _ _ h₂ => horNext h₂) fun _ _ he => he
      | other => exact h
  | onError call status => exact ⟨Option.some_ne_none _, h⟩
  | onEnd call => exact absurd trivial hback

/-- Shutting down leaves the queue as it is. -/
theorem shutdownInternal_pending : Spares pending shutdownInternal :=
  .bind .get fun _ => .ite .pure (.ite .pure (.modify fun _ => rfl))

/-- A step after the shutdown requests nothing, unless a handler comes back. -/
theorem late_step (hd : s.shutdown = true) {l : Step} (hl : l.Enabled s)
    (hback : ¬ ComesBackLate s l) :
    wp l.exec (fun _ s' => s'.pending ≤ s.pending) (fun _ s' => s'.pending ≤ s.pending) s := by
  cases l with
  | registerService service answers => exact Nat.le_refl _
  | run ev =>
      simp only [Step.exec, run, wp_bind, wp_get, wp_ite, wp_pure]
      exact (if_pos hd).mpr (Nat.le_refl _)
  | ret answer =>
      obtain ⟨f, stack, hf⟩ := List.exists_cons_of_ne_nil hl
      simp only [Step.exec, wp_bind, wp_get, hf, wp_modify]
      have hlate : Late s.pending { s with stack := stack } := ⟨hd, rfl⟩
      by_cases ht : f.tag.method? = none
      · refine wp_mono (resume_of_none ht hlate answer) ?_ fun _ _ he => Nat.le_of_eq he.2
        rintro (- | waiting) s₁ ⟨-, hn⟩
        · exact Nat.le_of_eq ((requests_erase ht).trans hn)
        · exact Nat.le_of_eq hn
      · have hno : ¬ ComesBack { s with stack := stack } f answer :=
          fun hb => hback ⟨hd, f, by rw [hf]; rfl, ht, hb⟩
        refine wp_mono (resume_waits hlate hno) ?_ fun _ _ he => Nat.le_of_eq he.2
        rintro (- | waiting) s₁ ⟨hne, -, hn⟩
        · exact absurd rfl hne
        · exact Nat.le_of_eq hn
  | raise => exact Nat.le_refl _
  | start tag =>
      rw [Step.exec, wp_bind]
      exact wp_startTag_headD hl fun s' hn _ => Nat.le_of_eq hn
  | shutdown =>
      exact shutdownInternal_pending.wp (fun _ _ hn => Nat.le_of_eq hn)
        fun _ _ hn => Nat.le_of_eq hn

/-- The first requests are neither held nor made again. -/
theorem requestMethodsCalls_keeps : Keeps requestMethodsCalls :=
  .bind .get fun s => .forM (fun rs => .forM (fun x => by
    obtain ⟨_ | handle, i⟩ := x
    · exact .pure
    · exact newMethodCall_keeps) _) _

/-- A handler that is resumed requests nothing. -/
theorem resume_keeps (f : Frame) (answer : LuaValue) : Keeps (resume f answer) := fun s =>
  wp_resume (idle_keeps s)
    (fun _ h => requestNext_keeps.wp (fun _ _ h' => h'.trans h) fun _ _ h' => h'.trans h)
    (fun _ _ h => h) rfl answer

/-- Only `Shutdown` sets `shutdown_`. -/
theorem step_shutdown {l : Step} (hl : l ≠ .shutdown) : Spares Server.shutdown l.exec := by
  have hkeeps : ∀ {α : Type} {x : M α}, Keeps x → Spares Server.shutdown x :=
    fun hx => hx.map fun kept => kept.2.2.2
  cases l with
  | registerService service answers => exact .modify fun _ => rfl
  | run ev =>
      exact .bind .get fun s => .ite .pure <|
        .ite (.bind (.modify fun _ => rfl) fun _ =>
          .bind (hkeeps requestMethodsCalls_keeps) fun _ => hkeeps (doTryNextCompletion_keeps ev))
        (hkeeps (doTryNextCompletion_keeps ev))
  | ret answer =>
      refine .bind .get fun s => ?_
      cases s.stack with
      | nil => exact .pure
      | cons f stack =>
          refine .bind (.modify fun _ => rfl) fun _ =>
            .bind (hkeeps (resume_keeps f answer)) fun r => ?_
          cases r with
          | none => exact .modify fun _ => rfl
          | some waiting => exact .modify fun _ => rfl
  | raise => exact .modify fun _ => rfl
  | start tag => exact .bind (hkeeps startTag_keeps) fun _ => .pure
  | shutdown => exact absurd rfl hl

end late

/-- **No step is late but the return of a handler.** -/
theorem quiet_iff {l : Step} (hl : l.Enabled s) :
    Quiet s (Process.next Step.exec (.running s) l) ↔ ¬ ComesBackLate s l := by
  constructor
  · intro hquiet hback
    -- A handler that comes back requests the next call, which is refused.
    cases l with
    | ret answer =>
        obtain ⟨hd, f, hf, ht, hback⟩ := hback
        obtain ⟨f', stack, hstack⟩ := List.exists_cons_of_ne_nil hl
        obtain rfl : f' = f := by
          rw [hstack] at hf
          exact Option.some.inj hf
        have hrefused : wp (Step.exec (.ret answer)) (fun _ _ => False) (Refused s.pending) s := by
          simp only [Step.exec, wp_bind, wp_get, hstack, wp_modify]
          have hlate : Late s.pending { s with stack := stack } := ⟨hd, rfl⟩
          exact wp_mono (resume_comesBack hlate ht hback) (fun _ _ hf => hf.elim) fun _ _ he => he
        have hstep : wp (Step.exec (.ret answer)) (fun _ _ => False)
            (Process.Leaves (fun _ => False) (Refused s.pending)) s := by
          refine wp_mono hrefused (fun _ _ hf => hf) ?_
          rintro _ s' ⟨rfl, hs'⟩
          exact ⟨rfl, hs'⟩
        obtain ⟨e, s', hc, rfl, hd', hn⟩ := Process.stops_next hstep
        have hle := hquiet.not_refused s' hc hd'
        rw [hn] at hle
        exact Nat.not_succ_le_self _ hle
    | _ => exact hback
  · intro hback
    cases hd : s.shutdown with
    | true =>
        -- After the shutdown no other step requests anything.
        have hle := Process.state_next (late_step hd hl hback)
        refine { not_made := fun _ => hle, not_refused := fun s' hc _ => ?_ }
        rw [hc] at hle
        exact hle
    | false =>
        refine { not_made := fun hd' => ?_, not_refused := fun s' hc hd' => ?_ }
        · rw [hd] at hd'
          cases hd'
        · -- Before it, only the step of `Shutdown()` itself matters, and it requests nothing.
          by_cases hl' : l = .shutdown
          · subst hl'
            have hn : (Process.next Step.exec (.running s) .shutdown).state.pending = s.pending :=
              Process.state_next (shutdownInternal_pending s)
            rw [hc] at hn
            exact Nat.le_of_eq hn
          · have hspared := Process.state_next (step_shutdown hl' s)
            rw [hc] at hspared
            rw [Process.state_stopped, hd, hd'] at hspared
            cases hspared

/-! ### Tags that are left -/

/-- The tags request the calls of registered methods, and there is at least one for each of these.
The tags `held` have been taken from the queue, and those of `made` are the requests that have been
made in the place of tags that are still to be deleted. -/
structure Kept (held made : List CqTag) (s : Server) : Prop where
  within : ∀ t, t ∈ s.heap ∨ t ∈ s.outstanding ∨ t ∈ s.completing ∨ t ∈ held →
    ∀ m ∈ t.method?, m ∈ s.wanted
  enough : s.wanted.length + (requests made).length ≤ s.pending

section kept
variable {held made : List CqTag} {tag : CqTag}

/-- Nothing is requested at first. -/
theorem new_kept (starts : List Bool) : Kept [] [] (new starts) where
  within t ht := by
    rcases ht with ht | ht | ht | ht
    all_goals cases ht
  enough := Nat.le_refl _

/-- What is left of the requests is what is wanted. -/
theorem Kept.pending_eq_zero (h : Kept [] [] s) : s.pending = 0 ↔ s.wanted = [] := by
  constructor
  · intro hn
    have hle := h.enough
    rw [hn] at hle
    exact List.eq_nil_of_length_eq_zero (Nat.eq_zero_of_add_eq_zero_right (Nat.le_zero.mp hle))
  · intro hw
    rw [pending, List.length_eq_zero_iff, List.eq_nil_iff_forall_not_mem]
    intro m hm
    obtain ⟨t, ht, htm⟩ := List.mem_filterMap.mp hm
    have hmem := h.within t (.inl ht) m htm
    rw [hw] at hmem
    cases hmem

/-- A tag without method submits its batch. -/
theorem wp_startTag_kept (h : Kept held made s) (ht : tag.method? = none) :
    wp (startTag tag) (fun _ => Kept held made) (fun _ _ => False) s := by
  have hnew : ∀ {t}, t ∈ s.heap ++ [tag] → ∀ m ∈ t.method?, m ∈ s.wanted := by
    intro t hmem
    rcases List.mem_append.mp hmem with hmem | hmem
    · exact h.within t (.inl hmem)
    · obtain rfl := List.mem_singleton.mp hmem
      rw [ht]
      rintro m ⟨⟩
  simp only [startTag, newTag, submit, deleteTag, wp_bind, wp_get, wp_modify, wp_ite, wp_pure]
  split
  · refine ⟨fun t hmem => ?_, ?_⟩
    · rcases hmem with hmem | hmem | hmem
      · exact hnew hmem
      · rcases List.mem_append.mp hmem with hmem | hmem
        · exact h.within t (.inr (.inl hmem))
        · exact hnew (List.mem_append_right _ hmem)
      · exact h.within t (.inr (.inr hmem))
    · have hle := h.enough
      simp only [pending, requests_append, requests_of_none ht, List.append_nil] at hle ⊢
      exact hle
  · refine ⟨fun t hmem => ?_, ?_⟩
    · rcases hmem with hmem | hmem
      · exact hnew (List.mem_of_mem_erase hmem)
      · exact h.within t (.inr hmem)
    · have hle := h.enough
      simp only [pending, requests_erase ht, requests_append, requests_of_none ht,
        List.append_nil] at hle ⊢
      exact hle

/-- These parts keep every request where it is. -/
theorem idle_kept : Idle (Kept held made) Stops where
  start _ _ ht h := wp_mono (wp_startTag_kept h ht) (fun _ _ h' => h') fun _ _ hf => hf.elim
  exit _ _ he _ := he

/-- The tags whose requests are made again when `DoComplete()` has come to its end. -/
def madeAgain (tag : CqTag) : Option LuaCall → List CqTag
  | some _ => []
  | none => [tag]

/-- The request that completed is made again, unless the process stops. -/
theorem wp_requestNext_kept (h : Kept [tag] [] s) :
    wp (requestNext tag) (fun r => Kept [tag] (madeAgain tag r)) Stops s := by
  by_cases ht : tag.method? = none
  · rw [wp_requestNext_none ht]
    refine { within := h.within, enough := ?_ }
    rw [madeAgain, requests_of_none ht]
    exact h.enough
  · cases tag with
    | methodCall service i handle =>
        simp only [requestNext, newMethodCall, newTag, submit, wp_bind, wp_modify, wp_check,
          wp_pure]
        split
        · split
          · have htag := h.within (.methodCall service i handle) (by simp)
            refine ⟨fun t hmem => ?_, ?_⟩
            · simp only [List.mem_append, List.mem_singleton] at hmem
              rcases hmem with (hmem | rfl) | (hmem | rfl) | hmem | rfl
              · exact h.within t (.inl hmem)
              · exact htag
              · exact h.within t (.inr (.inl hmem))
              · exact htag
              · exact h.within t (.inr (.inr (.inl hmem)))
              · exact htag
            · have hle := h.enough
              simp only [pending, requests_append, List.length_append, requests_nil,
                List.length_nil, madeAgain] at hle ⊢
              exact Nat.add_le_add_right hle _
          · exact Exit.noConfusion
        · exact Exit.noConfusion
    | _ => exact absurd rfl ht

/-- The tag's poll waits, or the tag is deleted. -/
theorem wp_waitOrDelete_kept {r : Option LuaCall} (h : Kept [tag] (madeAgain tag r) s) :
    wp (waitOrDelete tag r) (fun _ => Kept [] []) Stops s := by
  cases r with
  | some f =>
      refine { within := fun t hmem => ?_, enough := h.enough }
      rcases hmem with hmem | hmem | hmem | hmem
      · exact h.within t (.inl hmem)
      · exact h.within t (.inr (.inl hmem))
      · rcases List.mem_cons.mp hmem with rfl | hmem
        · exact h.within _ (.inr (.inr (.inr (List.mem_singleton.mpr rfl))))
        · exact h.within t (.inr (.inr (.inl hmem)))
      · cases hmem
  | none =>
      refine ⟨fun t hmem => ?_, ?_⟩
      · rcases hmem with hmem | hmem | hmem | hmem
        · exact h.within t (.inl (List.mem_of_mem_erase hmem))
        · exact h.within t (.inr (.inl hmem))
        · exact h.within t (.inr (.inr (.inl hmem)))
        · cases hmem
      · -- The request that was made makes up for the tag.
        have hle := Nat.le_trans h.enough (length_requests_erase tag)
        exact Nat.le_of_add_le_add_right hle

/-- A completion leaves each method with its request. -/
theorem wp_doTryNextCompletion_kept (h : Kept [] [] s) (ev : GrpcEvent) :
    wp (doTryNextCompletion ev) (fun _ => Kept [] []) Stops s := by
  refine wp_poll ev h fun tag success filled htag hfilled => ?_
  have hheld : Kept [tag] [] { s with outstanding := s.outstanding.erase tag } := by
    refine { within := fun t hmem => ?_, enough := h.enough }
    rcases hmem with hmem | hmem | hmem | hmem
    · exact h.within t (.inl hmem)
    · exact h.within t (.inr (.inl (List.mem_of_mem_erase hmem)))
    · exact h.within t (.inr (.inr (.inl hmem)))
    · obtain rfl := List.mem_singleton.mp hmem
      exact h.within t (.inr (.inl htag))
  exact wp_mono (wp_doComplete (Q := fun r => Kept [tag] (madeAgain tag r)) idle_kept
    (fun _ h₁ => wp_requestNext_kept h₁) (fun _ _ h₁ => h₁) hheld success hfilled)
    (fun r s₁ h₁ => wp_waitOrDelete_kept h₁) fun _ _ he => he

/-- So does a `Run`, which takes one completion at most. -/
theorem run_kept (h : Kept [] [] s) (ev : GrpcEvent) :
    wp (run ev) (fun _ => Kept [] []) Stops s := by
  simp only [run, wp_bind, wp_get, wp_ite, wp_pure, wp_modify]
  split_ifs with hd hs
  · exact h
  · -- The first poll makes the requests of all methods, where there was none.
    refine wp_mono (wp_requestMethodsCalls (Bool.not_eq_true _ ▸ hd)) (fun _ s₁ hs₁ => ?_)
      fun _ _ he => he
    rw [hs₁]
    have hnone : s.wanted = [] := by simpa [wanted] using fun hs' => absurd hs' (by simpa using hs)
    refine wp_doTryNextCompletion_kept ⟨fun t hmem m hm => ?_, ?_⟩ ev
    · have hold : ¬ (t ∈ s.heap ∨ t ∈ s.outstanding ∨ t ∈ s.completing ∨ t ∈ []) := by
        intro hmem
        have hm := h.within t hmem m hm
        rw [hnone] at hm
        cases hm
      have hnew : t ∈ s.serviceMap.flatMap RegisteredService.tags := by
        simp only [requesting, List.mem_append] at hmem
        rcases hmem with (hmem | hmem) | (hmem | hmem) | hmem | hmem
        · exact absurd (.inl hmem) hold
        · exact hmem
        · exact absurd (.inr (.inl hmem)) hold
        · exact hmem
        · exact absurd (.inr (.inr (.inl hmem))) hold
        · cases hmem
      show m ∈ s.methods
      rw [← requests_tags]
      exact List.mem_filterMap.mpr ⟨t, hnew, hm⟩
    · show s.methods.length ≤
        (requests (s.heap ++ s.serviceMap.flatMap RegisteredService.tags)).length
      rw [requests_append, List.length_append, requests_tags]
      exact Nat.le_add_left _ _
  · exact wp_doTryNextCompletion_kept h ev

/-- Every step leaves each method with its request, or stops the process. -/
theorem step_kept (h : Kept [] [] s) {l : Step} (hl : l.Enabled s) :
    wp l.exec (fun _ => Kept [] []) Stops s := by
  cases l with
  | registerService service answers =>
      have hs : s.started = false := hl
      have hnone : s.wanted = [] := by simp [wanted, hs]
      have hw : wanted { s with
          serviceMap := s.serviceMap.filter (fun r => r.service.fullName ≠ service.fullName) ++
            [⟨service, (registrationsOf service answers).map Registration.handle⟩]
          registrations := s.registrations ++ registrationsOf service answers } = s.wanted := by
        simp [wanted, hs]
      exact ⟨fun t hmem => hw ▸ h.within t hmem, hw ▸ h.enough⟩
  | run ev => exact run_kept h ev
  | ret answer =>
      obtain ⟨f, stack, hf⟩ := List.exists_cons_of_ne_nil hl
      simp only [Step.exec, wp_bind, wp_get, hf, wp_modify]
      -- The tag of the frame is held by this thread while its handler is completed.
      have hheld : Kept [f.tag] [] { s with stack := stack } := by
        refine { within := fun t hmem => h.within t ?_, enough := h.enough }
        have hcompleting : s.completing = f.tag :: stack.map Frame.tag := by
          rw [completing, hf, List.map_cons]
        rw [hcompleting]
        rcases hmem with hmem | hmem | hmem | hmem
        · exact .inl hmem
        · exact .inr (.inl hmem)
        · exact .inr (.inr (.inl (List.mem_cons_of_mem _ hmem)))
        · obtain rfl := List.mem_singleton.mp hmem
          exact .inr (.inr (.inl List.mem_cons_self))
      exact wp_mono (wp_resume (Q := fun r => Kept [f.tag] (madeAgain f.tag r)) idle_kept
        (fun _ h₁ => wp_requestNext_kept h₁) (fun _ _ h₁ => h₁) hheld answer)
        (fun r s₁ h₁ => wp_waitOrDelete_kept h₁) fun _ _ he => he
  | raise =>
      -- The tag of the popped frame is lost, and nothing is requested in its place.
      refine { within := fun t hmem => h.within t ?_, enough := h.enough }
      refine hmem.imp_right (.imp_right (.imp_left fun hmem => ?_))
      obtain ⟨f, hf, rfl⟩ := List.mem_map.mp hmem
      exact List.mem_map.mpr ⟨f, List.mem_of_mem_tail hf, rfl⟩
  | start tag =>
      rw [Step.exec, wp_bind]
      exact wp_mono (wp_startTag_kept h hl) (fun _ _ h' => h') fun _ _ hf => hf.elim
  | shutdown =>
      simp only [Step.exec, shutdownInternal, wp_bind, wp_get, wp_ite, wp_pure, wp_modify]
      split_ifs
      · exact h
      · exact h
      · exact ⟨h.within, h.enough⟩

end kept

/-! ### Runs -/

/-- **The end of the server.**  In every run, no request is made after the shutdown and the
assertion does not fail, exactly if no handler of a method call comes back after the shutdown; and
when the server is destroyed, every request's tag has been deleted exactly if the server was never
started or has no method with a handle. -/
theorem winds_down_iff (starts : List Bool) (ls : List Step) (h : Legal (new starts) ls) :
    (Process.Along Step.exec (fun s l => Quiet s (Process.next Step.exec (.running s) l))
        (.running (new starts)) ls ↔
      Process.Along Step.exec (fun s l => ¬ ComesBackLate s l) (.running (new starts)) ls) ∧
    ∀ s, after (new starts) ls = .running s →
      (requests (endState destroy s).heap = [] ↔ s.started = false ∨ s.methods = []) := by
  refine ⟨⟨fun hquiet => ?_, fun hback => ?_⟩, fun s hs => ?_⟩
  · exact (h.and hquiet).imp fun s l hl => (quiet_iff hl.1).mp hl.2
  · exact (h.and hback).imp fun s l hl => (quiet_iff hl.1).mpr hl.2
  · have hkept : Process.Holds (Kept [] []) (fun _ _ => True) (after (new starts) ls) := by
      refine Process.invariant (fun s l hkept hl => ?_) (new_kept starts) h
      exact wp_mono (step_kept hkept hl) (fun _ _ h' => h') fun e _ he => by
        cases e with
        | exception => exact absurd rfl he
        | _ => trivial
    rw [hs] at hkept
    have hpending : (endState destroy s).pending = s.pending :=
      endState_of_wp (P := fun s' : Server => s'.pending = s.pending) (shutdownInternal_pending s)
    rw [← List.length_eq_zero_iff, show (requests (endState destroy s).heap).length = s.pending
      from hpending, hkept.pending_eq_zero, wanted]
    cases hstarted : s.started with
    | true => simp
    | false => simp

/-- The server is shut down between two polls, after both methods have been called. -/
theorem winds_down_iff_betweenPolls :
    Process.Along Step.exec (fun s l => Quiet s (Process.next Step.exec (.running s) l))
      (.running (new [])) (bothCalled ++ [.shutdown, .run .queueShutdown]) ∧
    requests (endState destroy
      (after (new []) [.registerService greeter [some 0, some 1], .shutdown]).state).heap = [] := by
  refine ⟨(winds_down_iff [] _ (by decide)).1.mpr (by decide), ?_⟩
  exact ((winds_down_iff [] [.registerService greeter [some 0, some 1], .shutdown]
    (by decide)).2 _ rfl).mpr (.inl rfl)

/-- The server is shut down by a handler, and the request that follows is refused; and a server that
has polled once is destroyed with both its tags. -/
theorem not_winds_down :
    ¬ Process.Along Step.exec (fun s l => Quiet s (Process.next Step.exec (.running s) l))
      (.running (new [])) [.registerService greeter [some 0, some 1], .run .queueTimeout,
        .run (.opComplete (.methodCall greeter 0 0) true
          { callPtr := some 0, payload := some ⟨some [7]⟩ }), .shutdown, .ret .nil] ∧
    requests (endState destroy (after (new [])
      [.registerService greeter [some 0, some 1], .run .queueTimeout]).state).heap =
      [⟨greeter, 0⟩, ⟨greeter, 1⟩] := by
  refine ⟨?_, by decide⟩
  rintro ⟨-, -, -, -, hquiet, -⟩
  exact absurd (hquiet.not_refused _ rfl rfl) (by decide)

end Server

end GrpcLua
