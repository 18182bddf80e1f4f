import GrpcLua.Core.Call

/-!
# Core — SendQueue

The queue of a client's asynchronous writer.  `ClientAsyncWriterImpl` and
`ClientAsyncReaderWriterImpl` both keep their messages in a `std::queue` whose front is the
message in flight, and send the half-close when it runs empty.  `SendQueue` is the relation of
such a queue, and of the messages in flight, to an `Outbox` that has the same trace: while the
status is OK the queue holds the unsent messages and its front is in flight.  The lemmas are the
moves of the two classes, each a move of the outbox.
-/

namespace GrpcLua
open Trace

/-- The batch half-closes the call. -/
def Batch.closes (b : Batch) : Bool := b.contains .clientSendClose

section
variable {κ : Type}

/-- A half-close was handed to `StartBatch`. -/
def closed (tr : List (Event κ)) : Bool :=
  tr.any fun | .batch b _ => b.closes | _ => false

@[simp] theorem closed_append (tr tr' : List (Event κ)) :
    closed (tr ++ tr') = (closed tr || closed tr') := List.any_append

/-- The half-close comes once, after every accepted message was sent, and no message follows. -/
def ClosesLast (pre : List (Event κ)) : Event κ → Prop
  | .batch b _ =>
      (b.closes = true → closed pre = false ∧ delivered pre = accepted pre) ∧
      (b.msg? ≠ none → closed pre = false)
  | _ => True

/-- The queue and the messages in flight of a writer, against its trace.  `ok` says whether its
status is OK and `closing` whether it has sent the half-close. -/
structure SendQueue (ok : Bool) (queue flying : List Bytes) (closing : Bool)
    (tr : List (Event κ)) : Prop where
  outbox : ∃ o : Outbox Bytes, Sends tr o ∧ o.closed = closing ∧
    (ok = true → queue = o.unsent ∧ flying = o.flight) ∧
    (flying = [] ∨ flying = o.flight ∧ flying.head? = queue.head?)
  trace_closed : closed tr = closing
  order : Whenever ClosesLast tr

namespace SendQueue
variable {ok : Bool} {queue flying : List Bytes} {closing : Bool} {tr : List (Event κ)}
  {m : Bytes}

theorem nil : SendQueue true [] [] false ([] : List (Event κ)) where
  outbox := ⟨.empty, ⟨rfl, rfl, rfl⟩, rfl, fun _ => ⟨rfl, rfl⟩, .inl rfl⟩
  trace_closed := rfl
  order := whenever_nil

theorem handed_prefix (h : SendQueue ok queue flying closing tr) : handed tr <+: accepted tr := by
  obtain ⟨⟨o, ho, -⟩, -, -⟩ := h
  rw [ho.handed, ho.accepted]
  exact o.started_prefix

/-- At most one message is in flight, and it is the front of the queue. -/
theorem flying_cases (h : SendQueue ok queue flying closing tr) :
    flying = [] ∨ ∃ m q, flying = [m] ∧ queue = m :: q := by
  obtain ⟨⟨o, -, -, -, hf⟩, -, -⟩ := h
  rcases hf with hf | ⟨hf, hq⟩
  · exact .inl hf
  · rcases o.flight_cases with ho | ⟨m, ho⟩
    · exact .inl (hf.trans ho)
    · rw [hf, ho] at hq
      obtain ⟨q, hq⟩ := List.head?_eq_some_iff.mp hq.symm
      exact .inr ⟨m, q, hf.trans ho, hq⟩

/-- Once the half-close is sent, nothing is in flight. -/
theorem flying_of_closing (h : SendQueue ok queue flying true tr) : flying = [] := by
  obtain ⟨⟨o, -, hc, -, hf⟩, -, -⟩ := h
  rcases hf with hf | ⟨hf, -⟩
  · exact hf
  · have := o.unsent_of_closed hc
    rw [o.unsent_eq] at this
    rw [hf, (List.append_eq_nil_iff.mp this).1]

/-- While a message is in flight, the half-close is not sent. -/
theorem open_of_flying (h : SendQueue ok queue flying closing tr) (hf : flying ≠ []) :
    closing = false := by
  cases closing with
  | false => rfl
  | true => exact absurd h.flying_of_closing hf

/-- Once the half-close is sent, the queue of a writer without error is empty. -/
theorem queue_of_closing (h : SendQueue true queue flying true tr) : queue = [] := by
  obtain ⟨⟨o, -, hc, hq, -⟩, -, -⟩ := h
  rw [(hq rfl).1, o.unsent_of_closed hc]

/-- Once the half-close is sent, every accepted message has been handed to gRPC. -/
theorem handed_of_closing (h : SendQueue ok queue flying true tr) : handed tr = accepted tr := by
  obtain ⟨⟨o, ho, hc, -⟩, -, -⟩ := h
  have hlength : o.accepted.length ≤ o.started.length := by
    have := o.finished_prefix.length_le
    rwa [o.closed_finished hc] at this
  rw [ho.handed, ho.accepted, o.started_prefix.eq_of_length_le hlength]

/-- An event that is neither a message nor a half-close. -/
theorem other (h : SendQueue ok queue flying closing tr) {e : Event κ} (ha : accepted [e] = [])
    (hh : handed [e] = []) (hd : delivered [e] = []) (hc : closed [e] = false)
    (he : ClosesLast tr e) : SendQueue ok queue flying closing (tr ++ [e]) := by
  obtain ⟨⟨o, ⟨h₁, h₂, h₃⟩, ho⟩, htr, hord⟩ := h
  refine ⟨⟨o, ⟨?_, ?_, ?_⟩, ho⟩, ?_, (whenever_concat e).mpr ⟨hord, he⟩⟩
  · rw [accepted_append, ha, List.append_nil, h₁]
  · rw [handed_append, hh, List.append_nil, h₂]
  · rw [delivered_append, hd, List.append_nil, h₃]
  · rw [closed_append, hc, Bool.or_false, htr]

/-- An error: from here on the queue only has to keep the message in flight at its front. -/
theorem fail (h : SendQueue ok queue flying closing tr) :
    SendQueue false queue flying closing tr := by
  obtain ⟨⟨o, ho, hc, -, hf⟩, htr, hord⟩ := h
  exact ⟨⟨o, ho, hc, fun h' => absurd h' (by simp), hf⟩, htr, hord⟩

/-- With nothing in flight, the queue of a writer in error may hold anything. -/
theorem fail_queue (h : SendQueue ok queue [] closing tr) (queue' : List Bytes) :
    SendQueue false queue' [] closing tr := by
  obtain ⟨⟨o, ho, hc, -, -⟩, htr, hord⟩ := h
  exact ⟨⟨o, ho, hc, fun h' => absurd h' (by simp), .inl rfl⟩, htr, hord⟩

/-- A message is accepted behind the one in flight. -/
theorem push (h : SendQueue true queue flying false tr) (hq : queue ≠ []) :
    SendQueue true (queue ++ [m]) flying false (tr ++ [.wrote m true]) := by
  obtain ⟨⟨o, ⟨h₁, h₂, h₃⟩, hc, hu, hf⟩, htr, hord⟩ := h
  obtain ⟨hu, hfl⟩ := hu rfl
  refine ⟨⟨o.accept m hc, ⟨?_, ?_, ?_⟩, hc, fun _ => ⟨?_, ?_⟩, ?_⟩, ?_, ?_⟩
  · rw [accepted_append, h₁]; rfl
  · rw [handed_append, h₂]; exact List.append_nil _
  · rw [delivered_append, h₃]; exact List.append_nil _
  · rw [Outbox.unsent_accept, hu]
  · rw [Outbox.flight_accept, hfl]
  · rcases hf with hf | ⟨hf, hh⟩
    · exact .inl hf
    · refine .inr ⟨hf, ?_⟩
      cases queue with
      | nil => exact absurd rfl hq
      | cons a q => exact hh
  · rw [closed_append, htr]; rfl
  · exact (whenever_concat _).mpr ⟨hord, trivial⟩

/-- The front message is started. -/
theorem start {q : List Bytes} (h : SendQueue true (m :: q) [] false tr) {b : Batch}
    (hb : b.msg? = some m) (hbc : b.closes = false) :
    SendQueue true (m :: q) [m] false (tr ++ [.batch b true]) := by
  obtain ⟨⟨o, ⟨h₁, h₂, h₃⟩, hc, hu, -⟩, htr, hord⟩ := h
  obtain ⟨hu, hfl⟩ := hu rfl
  have hw : o.waiting = m :: q := by
    have := o.unsent_eq
    rw [← hu, ← hfl] at this
    exact this.symm
  have hhanded : handed [(.batch b true : Event κ)] = [m] := by
    simp only [handed, List.filterMap_cons, hb, List.filterMap_nil]
  refine ⟨⟨o.start m hfl.symm (by rw [hw]; rfl), ⟨?_, ?_, ?_⟩, hc, fun _ => ⟨?_, ?_⟩, ?_⟩, ?_, ?_⟩
  · rw [accepted_append, h₁]; exact List.append_nil _
  · rw [handed_append, h₂, hhanded]; rfl
  · rw [delivered_append, h₃]; exact List.append_nil _
  · rw [Outbox.unsent_start, hu]
  · rw [Outbox.flight_start]
  · exact .inr ⟨(Outbox.flight_start o m _ _).symm, rfl⟩
  · rw [closed_append, htr]
    simp [closed, hbc]
  · refine (whenever_concat _).mpr ⟨hord, fun h' => absurd (hbc.symm.trans h') (by simp), ?_⟩
    exact fun _ => htr

/-- A message is accepted by an idle writer, which starts it at once: the trace has the batch
before the return of `Write`. -/
theorem push_start (h : SendQueue true [] [] false tr) {b : Batch} (hb : b.msg? = some m)
    (hbc : b.closes = false) :
    SendQueue true [m] [m] false (tr ++ [.batch b true] ++ [.wrote m true]) := by
  obtain ⟨⟨o, ⟨h₁, h₂, h₃⟩, hc, hu, -⟩, htr, hord⟩ := h
  obtain ⟨hu, hfl⟩ := hu rfl
  have hw : o.waiting = [] := by
    have := o.unsent_eq
    rw [← hu, ← hfl] at this
    exact this.symm
  have hhanded : handed [(.batch b true : Event κ)] = [m] := by
    simp only [handed, List.filterMap_cons, hb, List.filterMap_nil]
  have hf' : (o.accept m hc).flight = [] := hfl.symm
  have hw' : (o.accept m hc).waiting.head? = some m := by
    rw [Outbox.waiting_accept, hw]; rfl
  refine ⟨⟨(o.accept m hc).start m hf' hw', ⟨?_, ?_, ?_⟩, hc, fun _ => ⟨?_, ?_⟩, ?_⟩, ?_, ?_⟩
  · rw [accepted_append, accepted_append, h₁]
    exact congrArg (· ++ [m]) (List.append_nil _)
  · rw [handed_append, handed_append, h₂, hhanded]
    exact List.append_nil _
  · rw [delivered_append, delivered_append, h₃]
    exact (List.append_nil _).trans (List.append_nil _)
  · rw [Outbox.unsent_start, Outbox.unsent_accept, ← hu]; rfl
  · rw [Outbox.flight_start]
  · exact .inr ⟨(Outbox.flight_start _ m _ _).symm, rfl⟩
  · rw [closed_append, closed_append, htr]
    simp [closed, hbc]
  · refine (whenever_concat _).mpr ⟨(whenever_concat _).mpr ⟨hord, ?_, ?_⟩, trivial⟩
    · exact fun h' => absurd (hbc.symm.trans h') (by simp)
    · exact fun _ => htr

/-- The message in flight completes with success. -/
theorem complete {fs : List Bytes} (h : SendQueue ok queue (m :: fs) closing tr) :
    SendQueue ok queue.tail [] closing (tr ++ [.sent m true]) := by
  obtain ⟨⟨o, ⟨h₁, h₂, h₃⟩, hc, hu, hf⟩, htr, hord⟩ := h
  obtain ⟨hf, -⟩ := hf.resolve_left (by simp)
  have hfl : o.flight = [m] := by
    rcases o.flight_cases with h' | ⟨m', h'⟩
    · rw [h'] at hf; simp at hf
    · rw [h'] at hf ⊢; rw [(List.cons.inj hf).1]
  refine ⟨⟨o.finish m hfl, ⟨?_, ?_, ?_⟩, hc, fun hok => ⟨?_, ?_⟩, .inl rfl⟩, ?_, ?_⟩
  · rw [accepted_append, h₁]; exact List.append_nil _
  · rw [handed_append, h₂]; exact List.append_nil _
  · rw [delivered_append, h₃]; rfl
  · rw [Outbox.unsent_finish, (hu hok).1]
  · rw [Outbox.flight_finish]
  · rw [closed_append, htr]; exact Bool.or_false _
  · exact (whenever_concat _).mpr ⟨hord, trivial⟩

/-- The message in flight completes without success, which is an error. -/
theorem complete_fail {fs : List Bytes} (h : SendQueue ok queue (m :: fs) closing tr)
    (queue' : List Bytes) : SendQueue false queue' [] closing (tr ++ [.sent m false]) := by
  have hs : SendQueue false queue (m :: fs) closing (tr ++ [.sent m false]) :=
    h.fail.other rfl rfl rfl rfl trivial
  obtain ⟨⟨o, ho, hc, -, -⟩, htr, hord⟩ := hs
  exact ⟨⟨o, ho, hc, fun h' => absurd h' (by simp), .inl rfl⟩, htr, hord⟩

/-- With the queue empty, the half-close is handed to `StartBatch`. -/
theorem close (h : SendQueue true [] [] false tr) {b : Batch} (hb : b.msg? = none)
    (hbc : b.closes = true) (started : Bool) :
    SendQueue true [] [] true (tr ++ [.batch b started]) := by
  obtain ⟨⟨o, ⟨h₁, h₂, h₃⟩, hc, hu, -⟩, htr, hord⟩ := h
  obtain ⟨hu, hfl⟩ := hu rfl
  have hhanded : handed [(.batch b started : Event κ)] = [] := handed_batch (.inr hb)
  refine ⟨⟨o.close hu.symm, ⟨?_, ?_, ?_⟩, rfl, fun _ => ⟨hu, hfl⟩, .inl rfl⟩, ?_, ?_⟩
  · rw [accepted_append, h₁]; exact List.append_nil _
  · rw [handed_append, h₂, hhanded]; exact List.append_nil _
  · rw [delivered_append, h₃]; exact List.append_nil _
  · rw [closed_append, htr]
    simp [closed, hbc]
  · refine (whenever_concat _).mpr ⟨hord, fun _ => ⟨htr, ?_⟩, fun h' => absurd hb h'⟩
    rw [h₁, h₃, ← o.unsent_eq_nil.mp hu.symm]

end SendQueue

end

end GrpcLua
