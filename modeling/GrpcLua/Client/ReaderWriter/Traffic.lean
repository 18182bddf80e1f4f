import GrpcLua.Client.ReaderWriter.Completions

/-!
# Client — ReaderWriter — Traffic

The messages and batches of a `ClientAsyncReaderWriterImpl`, over every run: the order in which
the user calls it and gRPC completes its batches, the batches gRPC refuses, and what the
callbacks do in between are arbitrary.
-/

namespace GrpcLua.ReaderWriter
open Prog Trace

variable {given : Bool} {s : ReaderWriter}

/-- A step keeps the invariant, and sets no `status_cb_`. -/
theorem step_keeps_unset (h : Inv given s) (l : Step) (hl : Step.Enabled s l) :
    wp l.exec (fun _ s' => Inv given s' ∧ (s'.statusCb = true → s.statusCb = true))
      (fun _ s' => Inv given s' ∧ (s'.statusCb = true → s.statusCb = true)) s := by
  -- The last callback of a completion, when both directions have ended.
  have hlast : ∀ {l : Step} (cb : Status → React) (s₁ : ReaderWriter), Last given l s s₁ →
      wp (callStatusCb fun st => (cb st).prog)
        (fun _ s' => Inv given s' ∧ (s'.statusCb = true → s.statusCb = true))
        (fun _ s' => Inv given s' ∧ (s'.statusCb = true → s.statusCb = true)) s₁ := by
    intro l cb s₁ h₁
    have hset : ∀ s', Grows (notified s₁) s' → s'.statusCb = true → s.statusCb = true := by
      intro s' g hs'
      have hs₁ := g.unset hs'
      unfold notified at hs₁
      split at hs₁ <;> exact h₁.moves.unset hs₁
    exact wp_mono (wp_callStatusCb (fun st => prog_keeps (cb st)) h₁.inv.toBase
      (.inr ⟨h₁.readingEnded, h₁.writingEnded⟩)) (fun _ s' k => ⟨k.1.1, hset s' k.1.2⟩)
      fun _ s' k => ⟨k.1, hset s' k.2⟩
  cases l with
  | call c cb =>
      exact wp_mono (wp_call (fun st => prog_keeps (cb st)) h c)
        (fun _ _ h' => ⟨h'.1.1, h'.1.2.unset⟩) fun _ _ h' => ⟨h'.1.1, h'.1.2.unset⟩
  | sent success cb =>
      exact wp_sent h hl success cb (fun _ h' => ⟨h'.inv, h'.moves.unset⟩)
        (fun _ _ h' => ⟨h'.inv, h'.moves.unset⟩) (hlast cb)
  | read success tag onMsg cb =>
      exact wp_read h hl success tag onMsg cb (fun _ h' => ⟨h'.inv, h'.moves.unset⟩)
        (fun _ _ h' => ⟨h'.inv, h'.moves.unset⟩) (hlast cb)

/-- A step keeps the invariant. -/
theorem step_keeps (h : Inv given s) (l : Step) (hl : Step.Enabled s l) :
    wp l.exec (fun _ => Inv given) (fun _ => Inv given) s :=
  wp_mono (step_keeps_unset h l hl) (fun _ _ h' => h'.1) fun _ _ h' => h'.1

/-- The invariant holds wherever a run leads. -/
theorem run_keeps {starts : List Bool} {final : Status} {ls : List Step}
    (h : Legal (new given starts final) ls) :
    Inv given (after (new given starts final) ls).state :=
  Process.invariant_state (I := Inv given) (P := Step.Enabled)
    (fun _ l hI hl => step_keeps hI l hl) (Inv.new given starts final) h

/-- Messages and batches are in order. -/
structure Orderly (s : ReaderWriter) : Prop where
  /-- At most one `SEND_MESSAGE` batch is in flight, and at most one `RECV_MESSAGE` batch. -/
  one_sending : s.sending.length ≤ 1
  one_reading : s.reading ≤ 1
  /-- The messages handed to gRPC are a prefix of the accepted ones. -/
  handed : handed s.trace <+: accepted s.trace
  /-- The half-close comes once, after every accepted message was sent, and no message follows. -/
  half_close : Whenever ClosesLast s.trace
  /-- While the status is OK, the queue is busy exactly when a send is in flight. -/
  busy : s.status.ok = true → (s.msgQueue ≠ [] ↔ s.sending ≠ [])
  /-- The front of the queue is the message in flight, so `OnSent` pops no empty queue. -/
  front : ∀ m ∈ s.sending, s.msgQueue.head? = some m

theorem Inv.orderly (h : Inv given s) : Orderly s := by
  have hfront : s.sending ≠ [] → s.msgQueue ≠ [] := fun hs hq => hs (h.sending_nil hq)
  refine ⟨?_, h.one_reading, h.queue.handed_prefix, h.queue.order, ?_, ?_⟩
  · rcases h.queue.flying_cases with hf | ⟨m, q, hf, -⟩ <;> simp [hf]
  · exact fun hs => ⟨h.busy hs, hfront⟩
  · intro m hm
    rcases h.queue.flying_cases with hf | ⟨m', q, hf, hq⟩
    · simp [hf] at hm
    · rw [hf, List.mem_singleton] at hm
      rw [hq, hm]
      rfl

/-- **Traffic.**  In every run the messages and batches are in order. -/
theorem runs_orderly (statusCb : Bool) (starts : List Bool) (final : Status) (ls : List Step)
    (h : Legal (new statusCb starts final) ls) :
    Orderly (after (new statusCb starts final) ls).state :=
  (run_keeps h).orderly

/-- A callback that does nothing. -/
def idle : Status → React := fun _ => .ret .OK

/-- A message that is answered from inside its callback, with a half-close that waits for the
answer, which gRPC refuses to send. -/
theorem runs_orderly_refusedAnswer :
    Orderly (after (new true [true, true, true, true, true, false] .OK)
      [.call (.write [1]) idle, .call (.readEach true) idle,
        .read true ⟨some ⟨some [7]⟩⟩ (fun _ => .call (.write [2]) idle (.ret .OK)) idle,
        .call .closeWriting idle, .sent true idle]).state :=
  runs_orderly true _ .OK _ (by decide)

end GrpcLua.ReaderWriter
