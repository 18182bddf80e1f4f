import GrpcLua.Client.ReaderWriter.Definitions
import GrpcLua.Core.SendQueue

/-!
# Client — ReaderWriter — Invariant

What holds of a `ClientAsyncReaderWriterImpl` whenever it is between two operations, and whenever
it runs a callback.  `Inv` is that invariant and `Grows` relates the states before and after a
call of the user; a callback may call the object, so each function is verified under callbacks
that keep `Inv` and `Grows`, and `call_keeps` closes the circle.

`Base` is `Inv` without its last clause, which the object breaks between assigning an error
status and handing it to `status_cb_`.
-/

namespace GrpcLua.ReaderWriter
open Prog Trace

/-- The statuses handed to `status_cb_`, call after call. -/
def statuses (tr : List (Event Cb)) : List Status :=
  tr.filterMap fun | .called (.statusCb st) => some st | _ => none

@[simp] theorem statuses_append (tr tr' : List (Event Cb)) :
    statuses (tr ++ tr') = statuses tr ++ statuses tr' := List.filterMap_append

/-- `msg_cb_` is invoked only while `status_cb_` has not been. -/
def MsgsFirst (pre : List (Event Cb)) : Event Cb → Prop
  | .called (.msgCb _) => statuses pre = []
  | _ => True

/-- The invariant but for its last clause.  `given` says whether a `status_cb` was supplied. -/
structure Base (given : Bool) (s : ReaderWriter) : Prop where
  queue : SendQueue s.status.ok s.msgQueue s.sending s.hasSentClose s.trace
  busy : s.status.ok = true → s.msgQueue ≠ [] → s.sending ≠ []
  status_OK : s.status.ok = true → s.status = .OK
  one_reading : s.reading ≤ 1
  reading_started : 0 < s.reading → s.readingStarted = true
  reading_inited : 0 < s.reading → s.inited = true
  sending_batch : s.sending ≠ [] → batches s.trace ≠ []
  inited_batch : s.status.ok = true → s.inited = true → batches s.trace ≠ []
  close_closing : s.hasSentClose = true → s.writingClosing = true
  unwrapped : s.wrapper = false → s.writingClosing = true
  close_ended : s.hasSentClose = true → s.writingEnded = true
  ended_close : s.status.ok = true → s.writingEnded = true → s.hasSentClose = true
  ended_reading : s.status.ok = true → s.readingEnded = true →
    s.inited = true ∧ s.readingStarted = true ∧ s.reading = 0
  said : statuses s.trace ≠ [] →
    s.status.ok = false ∨ s.readingEnded = true ∧ s.writingEnded = true
  msgs_first : Whenever MsgsFirst s.trace
  unset : given = true → s.statusCb = false → statuses s.trace ≠ []

/-- The invariant: an error has been told to `status_cb_`. -/
structure Inv (given : Bool) (s : ReaderWriter) : Prop extends Base given s where
  told : given = true → s.status.ok = false → statuses s.trace ≠ []

/-- What every operation does at most: an error is for ever and stops the batches, and a status is
handed on only by the operation that makes it an error. -/
structure Moves (s s' : ReaderWriter) : Prop where
  trace : s.trace <+: s'.trace
  ok : s'.status.ok = true → s.status.ok = true
  batches : s.status.ok = false → batches s'.trace = batches s.trace
  inited : s.inited = true → s'.inited = true
  closing : s.writingClosing = true → s'.writingClosing = true
  unset : s'.statusCb = true → s.statusCb = true
  statuses : statuses s'.trace = statuses s.trace ∨
    s.status.ok = true ∧ s'.status.ok = false ∧ s.statusCb = true ∧
      ∃ st, statuses s'.trace = statuses s.trace ++ [st]

/-- What a call of the user does at most: it leaves the reading to the completions. -/
structure Grows (s s' : ReaderWriter) : Prop extends Moves s s' where
  started : s.readingStarted = true → s'.readingStarted = true ∧ s'.reading = s.reading
  ended : s'.status.ok = true → s'.readingEnded = s.readingEnded

theorem Moves.refl (s : ReaderWriter) : Moves s s :=
  ⟨List.prefix_rfl, id, fun _ => rfl, id, id, id, .inl rfl⟩

theorem Moves.failed {s s' : ReaderWriter} (h : Moves s s') (hs : s.status.ok = false) :
    s'.status.ok = false := by
  by_contra hc
  rw [Bool.not_eq_false] at hc
  exact absurd (hs.symm.trans (h.ok hc)) (by simp)

theorem Moves.trans {s s₁ s₂ : ReaderWriter} (h : Moves s s₁) (h' : Moves s₁ s₂) :
    Moves s s₂ where
  trace := h.trace.trans h'.trace
  ok := fun hs => h.ok (h'.ok hs)
  batches := fun hs => (h'.batches (h.failed hs)).trans (h.batches hs)
  inited := fun hs => h'.inited (h.inited hs)
  closing := fun hs => h'.closing (h.closing hs)
  unset := fun hs => h.unset (h'.unset hs)
  statuses := by
    rcases h'.statuses with h₂ | ⟨ho, hf, hset, st, h₂⟩
    · rcases h.statuses with h₁ | ⟨ho, hf, hset, st, h₁⟩
      · exact .inl (h₂.trans h₁)
      · exact .inr ⟨ho, h'.failed hf, hset, st, h₂.trans h₁⟩
    · rcases h.statuses with h₁ | ⟨-, hf', -⟩
      · exact .inr ⟨h.ok ho, hf, h.unset hset, st, by rw [h₂, h₁]⟩
      · exact absurd (hf'.symm.trans ho) (by simp)

theorem Grows.refl (s : ReaderWriter) : Grows s s :=
  { Moves.refl s with started := fun h => ⟨h, rfl⟩, ended := fun _ => rfl }

theorem Grows.trans {s s₁ s₂ : ReaderWriter} (h : Grows s s₁) (h' : Grows s₁ s₂) :
    Grows s s₂ :=
  { h.toMoves.trans h'.toMoves with
    started := fun hs => by
      obtain ⟨h₁, h₂⟩ := h.started hs
      obtain ⟨h₃, h₄⟩ := h'.started h₁
      exact ⟨h₃, h₄.trans h₂⟩
    ended := fun hs => (h'.ended hs).trans (h.ended (h'.ok hs)) }

theorem Moves.told {s s' : ReaderWriter} (h : Moves s s')
    (hs : ReaderWriter.statuses s.trace ≠ []) : ReaderWriter.statuses s'.trace ≠ [] := by
  obtain ⟨rest, hr⟩ := h.trace
  rw [← hr, statuses_append]
  exact fun h' => hs (List.append_eq_nil_iff.mp h').1

/-- An operation after which the status is still OK has handed on none. -/
theorem Moves.quiet {s s' : ReaderWriter} (h : Moves s s') (hs : s'.status.ok = true) :
    ReaderWriter.statuses s'.trace = ReaderWriter.statuses s.trace := by
  rcases h.statuses with hst | ⟨-, hf, -⟩
  · exact hst
  · exact absurd (hf.symm.trans hs) (by simp)

/-! ### The constructor -/

theorem Inv.new (given : Bool) (starts : List Bool) (final : Status) :
    Inv given (new given starts final) where
  queue := .nil
  busy := by simp [ReaderWriter.new]
  status_OK := fun _ => rfl
  one_reading := by simp [ReaderWriter.new]
  reading_started := by simp [ReaderWriter.new]
  reading_inited := by simp [ReaderWriter.new]
  sending_batch := by simp [ReaderWriter.new]
  inited_batch := by simp [ReaderWriter.new]
  close_closing := by simp [ReaderWriter.new]
  unwrapped := by simp [ReaderWriter.new]
  close_ended := by simp [ReaderWriter.new]
  ended_close := by simp [ReaderWriter.new]
  ended_reading := by simp [ReaderWriter.new]
  said := by simp [ReaderWriter.new, statuses]
  msgs_first := whenever_nil
  unset := by
    intro h h'
    exact absurd (h.symm.trans h') (by simp)
  told := by simp [ReaderWriter.new]

end GrpcLua.ReaderWriter
