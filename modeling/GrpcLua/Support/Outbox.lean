import Mathlib.Tactic.Common

/-!
# Support — Outbox

An ordered sender that has one message on its way at a time.  Messages are accepted, started,
and finished, in that order and each in the order of acceptance; the outbox is closed once every
accepted message is finished, and then accepts no more.

The conditions are fields of `Outbox`, so that every value of it meets them: what was started is
a prefix of what was accepted, what was finished a prefix of what was started, at most one
message is on its way, and a closed outbox has finished everything.
-/

/-- The three lists of an ordered sender, oldest first, and whether it is closed. -/
structure Outbox (α : Type) where
  accepted : List α
  started : List α
  finished : List α
  closed : Bool
  started_prefix : started <+: accepted
  finished_prefix : finished <+: started
  one_started : started.length ≤ finished.length + 1
  closed_finished : closed = true → finished = accepted

namespace Outbox
variable {α : Type}

/-- Nothing accepted yet. -/
def empty : Outbox α := ⟨[], [], [], false, by simp, by simp, by simp, by simp⟩

/-- The message on its way, if any. -/
def flight (o : Outbox α) : List α := o.started.drop o.finished.length

/-- The messages that are accepted and not started. -/
def waiting (o : Outbox α) : List α := o.accepted.drop o.started.length

/-- The messages that are accepted and not finished. -/
def unsent (o : Outbox α) : List α := o.accepted.drop o.finished.length

/-- What was started is finished or in flight. -/
theorem started_eq (o : Outbox α) : o.finished ++ o.flight = o.started :=
  (List.prefix_iff_eq_append.mp o.finished_prefix)

/-- What was accepted is started or waiting. -/
theorem accepted_eq (o : Outbox α) : o.started ++ o.waiting = o.accepted :=
  (List.prefix_iff_eq_append.mp o.started_prefix)

/-- What is unsent is in flight or waiting. -/
theorem unsent_eq (o : Outbox α) : o.unsent = o.flight ++ o.waiting := by
  have h := o.accepted_eq
  rw [← o.started_eq, List.append_assoc] at h
  rw [unsent, ← h, List.drop_left]

/-- One item at most is in flight. -/
theorem flight_length (o : Outbox α) : o.flight.length ≤ 1 := by
  have := o.one_started
  rw [flight, List.length_drop]
  omega

/-- Nothing is in flight, or one item. -/
theorem flight_cases (o : Outbox α) : o.flight = [] ∨ ∃ m, o.flight = [m] := by
  have h := o.flight_length
  match hf : o.flight, h with
  | [], _ => exact .inl rfl
  | [m], _ => exact .inr ⟨m, rfl⟩

/-- The finished items are the first that were accepted. -/
theorem finished_accepted (o : Outbox α) : o.finished <+: o.accepted :=
  o.finished_prefix.trans o.started_prefix

/-- Nothing is unsent exactly when everything accepted is finished. -/
theorem unsent_eq_nil (o : Outbox α) : o.unsent = [] ↔ o.finished = o.accepted := by
  have h := List.prefix_iff_eq_append.mp o.finished_accepted
  constructor
  · intro h'
    rw [← h, show o.accepted.drop o.finished.length = [] from h', List.append_nil]
  · intro h'
    rw [unsent, h', List.drop_length]

/-- A closed box has sent everything. -/
theorem unsent_of_closed (o : Outbox α) (h : o.closed = true) : o.unsent = [] :=
  o.unsent_eq_nil.mpr (o.closed_finished h)

/-! ### The moves -/

/-- Another message is accepted; it waits. -/
def accept (o : Outbox α) (m : α) (h : o.closed = false) : Outbox α where
  accepted := o.accepted ++ [m]
  started := o.started
  finished := o.finished
  closed := o.closed
  started_prefix := o.started_prefix.trans (List.prefix_append _ _)
  finished_prefix := o.finished_prefix
  one_started := o.one_started
  closed_finished := fun h' => absurd (h.symm.trans h') (by simp)

/-- With nothing on its way, the first message that waits is started. -/
def start (o : Outbox α) (m : α) (h : o.flight = []) (hm : o.waiting.head? = some m) :
    Outbox α where
  accepted := o.accepted
  started := o.started ++ [m]
  finished := o.finished
  closed := o.closed
  started_prefix := by
    obtain ⟨rest, hr⟩ := List.head?_eq_some_iff.mp hm
    exact ⟨rest, by rw [List.append_assoc, List.singleton_append, ← hr, o.accepted_eq]⟩
  finished_prefix := o.finished_prefix.trans (List.prefix_append _ _)
  one_started := by
    have := o.started_eq
    rw [h, List.append_nil] at this
    simp [this]
  closed_finished := o.closed_finished

/-- The message on its way is finished. -/
def finish (o : Outbox α) (m : α) (h : o.flight = [m]) : Outbox α where
  accepted := o.accepted
  started := o.started
  finished := o.finished ++ [m]
  closed := o.closed
  started_prefix := o.started_prefix
  finished_prefix := ⟨[], by rw [List.append_nil, ← h, o.started_eq]⟩
  one_started := by
    rw [← o.started_eq, h]
    simp
  closed_finished := fun h' => by
    have := o.unsent_of_closed h'
    rw [o.unsent_eq, h] at this
    simp at this

/-- With everything finished, the outbox is closed. -/
def close (o : Outbox α) (h : o.unsent = []) : Outbox α where
  accepted := o.accepted
  started := o.started
  finished := o.finished
  closed := true
  started_prefix := o.started_prefix
  finished_prefix := o.finished_prefix
  one_started := o.one_started
  closed_finished := fun _ => o.unsent_eq_nil.mp h

section moves
variable (o : Outbox α) (m : α)

@[simp] theorem flight_accept (h) : (o.accept m h).flight = o.flight := rfl

@[simp] theorem unsent_accept (h) : (o.accept m h).unsent = o.unsent ++ [m] :=
  List.drop_append_of_le_length o.finished_accepted.length_le

@[simp] theorem waiting_accept (h) : (o.accept m h).waiting = o.waiting ++ [m] :=
  List.drop_append_of_le_length o.started_prefix.length_le

@[simp] theorem flight_start (h) (hm) : (o.start m h hm).flight = [m] := by
  have := o.started_eq
  rw [h, List.append_nil] at this
  simp [flight, start, this]

@[simp] theorem unsent_start (h) (hm) : (o.start m h hm).unsent = o.unsent := rfl

@[simp] theorem flight_finish (h) : (o.finish m h).flight = [] := by
  have := o.started_eq
  rw [h] at this
  simp [flight, finish, ← this]

@[simp] theorem unsent_finish (h) : (o.finish m h).unsent = o.unsent.tail := by
  simp only [unsent, finish, List.length_append, List.length_singleton, List.tail_drop]

end moves

end Outbox
