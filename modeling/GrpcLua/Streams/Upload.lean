import GrpcLua.Client.Writer.Completions
import GrpcLua.Streams.ServerEnds

/-!
# Streams — Upload

A client-streaming call as a whole.  At one end `ClientAsyncWriterImpl` is written to and closed, at
the other a `ServerReader` is read for, and gRPC carries the messages of the batches it has taken
from one to the other.  The steps of the two, and the loss of the connection, come in any order.

gRPC delivers messages in the order they were handed to it, and reports the end of the stream once
it has delivered them all and the client has half-closed; or once the connection is lost.
-/

namespace GrpcLua
open Prog Trace

/-! ### The client's end -/

namespace Writer

section functions
variable {k : Status → M Unit} (hk : ∀ st, Appends (k st))
include hk

/-- `CallCloseCb` writes nothing back. -/
theorem callCloseCb_appends (sMsg : Bytes) : Appends (callCloseCb k sMsg) := by
  refine .bind .get fun s => ?_
  cases s.closeCb with
  | none => exact .pure
  | some n =>
      exact .bind (emit_appends _) fun _ => .bind (hk _) fun _ => .modify fun _ => List.prefix_rfl

theorem tryToCallCloseCb_appends : Appends (tryToCallCloseCb k) :=
  .bind .check fun _ => .bind .get fun _ => .ite (callCloseCb_appends hk _) .pure

/-- `SendNext` adds the batch of a message. -/
theorem sendNext_appends : Appends (sendNext k) :=
  .bind .check fun _ => .bind .check fun _ => .bind .get fun _ =>
    .bind (startBatch_appends _) fun _ => .ite
      (.bind (.modify fun _ => List.prefix_rfl) fun _ => .pure)
      (.bind (.modify fun _ => List.prefix_rfl) fun _ =>
        .bind (tryToCallCloseCb_appends hk) fun _ => .pure)

/-- `SendClose` adds the close batch. -/
theorem sendClose_appends : Appends (sendClose k) :=
  .bind .check fun _ => .bind .check fun _ => .bind (.modify fun _ => List.prefix_rfl) fun _ =>
    .bind .check fun _ => .bind (startBatch_appends _) fun _ => .ite
      (.modify fun _ => List.prefix_rfl)
      (.bind (.modify fun _ => List.prefix_rfl) fun _ => callCloseCb_appends hk _)

theorem write_appends (request : Bytes) : Appends (write k request) :=
  .bind .get fun _ => .ite .pure <| .ite .pure <|
    .bind (.modify fun _ => List.prefix_rfl) fun _ => .ite .pure (sendNext_appends hk)

theorem close_appends (closeCb : Option Nat) : Appends (close k closeCb) :=
  .bind .get fun _ => .ite .pure <| .bind (.modify fun _ => List.prefix_rfl) fun _ =>
    .ite (callCloseCb_appends hk _) <| .ite (sendClose_appends hk) .pure

/-- A call only adds to the trace. -/
theorem call_appends (c : Call) : Appends (c.exec k) := by
  cases c with
  | write request => exact .bind (write_appends hk request) fun _ => emit_appends _
  | close given => exact .bind .get fun _ => .bind (emit_appends _) fun _ => close_appends hk _

theorem onSent_appends (success : Bool) : Appends (onSent k success) :=
  .bind .check fun _ => .bind (.modify fun _ => List.prefix_rfl) fun _ => .bind .get fun _ =>
    .ite .check <| .ite
      (.bind (.modify fun _ => List.prefix_rfl) fun _ => tryToCallCloseCb_appends hk) <|
    .ite (.bind (sendNext_appends hk) fun _ => .pure) <| .ite (sendClose_appends hk) .pure

theorem onClosed_appends (success : Bool) (tag : CodRecvMsg) (cod : CodClientRecvStatus) :
    Appends (onClosed k success tag cod) := by
  have hget : Appends (tag.getResultMsg [] : M (Status × Bytes)) := by
    intro s
    refine wp_mono CodRecvMsg.getResultMsg_reads ?_ ?_
    · rintro _ _ rfl
      exact List.prefix_rfl
    · rintro _ _ ⟨-, rfl⟩
      exact List.prefix_rfl
  exact .bind .get fun _ => .ite .check <| .ite
    (.bind (.modify fun _ => List.prefix_rfl) fun _ => callCloseCb_appends hk _) <|
    .bind hget fun _ => .bind (.modify fun _ => List.prefix_rfl) fun _ => callCloseCb_appends hk _

end functions

/-- So does every step. -/
theorem step_appends (l : Step) : Appends l.exec := by
  have hprog : ∀ r : React, Appends r.prog := Follows.reaction fun c _ hk => call_appends hk c
  cases l with
  | call c cb => exact call_appends (fun st => hprog (cb st)) c
  | sent success cb =>
      exact .bind .get fun _ => .bind (.modify fun _ => List.prefix_rfl) fun _ =>
        .bind (emit_appends _) fun _ => onSent_appends (fun st => hprog (cb st)) success
  | closed success tag cb =>
      exact .bind .get fun _ => .bind (.modify fun _ => List.prefix_rfl) fun _ =>
        .bind (emit_appends _) fun _ => onClosed_appends (fun st => hprog (cb st)) success tag _

end Writer

/-! ### The call -/

namespace Upload

/-- The reads of the server complete with what the client has handed to gRPC. -/
def link : Link Writer Writer.Step ServerReader ServerReader.Read Bytes Unit :=
  ServerReader.linkTo Writer.Step.exec (fun s => handed s.trace) fun s => halfClosed s.trace

abbrev Call := Pipe Writer ServerReader Bytes
abbrev Move := Pipe.Move Writer.Step ServerReader.Read

/-- A step of the client, whose close batch is answered. -/
abbrev Sends (s : Writer) (l : Writer.Step) : Prop :=
  Writer.Step.Enabled s l ∧ Writer.Step.Answered s.final l

/-- The call at its start: the client's object is constructed, and the server's reader started, with
or without success. -/
def new (starts : List Bool) (final : Status) (started : Bool) : Call where
  sender := .running (Writer.new starts final)
  receiver := ServerReader.new started

abbrev after (c : Call) (ms : List Move) : Call := Pipe.after link c ms

/-- Every move of the run can be made. -/
abbrev Legal (c : Call) (ms : List Move) : Prop :=
  Pipe.Along link (fun c m => c.Allowed link Sends ServerReader.Reads m) c ms

/-- What the client has written and what the server has read. -/
structure Orderly (broken : Bool) (w : Writer) (r : ServerReader) : Prop where
  /-- The server's reader is handed what the client has written, in order, as far as it came. -/
  heard_prefix : ServerReader.heard r.trace <+: accepted w.trace
  /-- An end without an error, on a connection that is not lost, comes after the client has closed,
  and then everything written has been read. -/
  complete : .onEnd ∈ r.trace → (∀ st, .onError st ∉ r.trace) → broken = false →
    Writer.closes w.trace ≠ [] ∧ ServerReader.heard r.trace = accepted w.trace

/-! ### What holds of the call -/

/-- The client keeps its invariant, and takes back nothing. -/
theorem sends (final : Status) :
    Pipe.Sends link Sends (Writer.Inv final) (fun _ _ => False) := by
  rintro s l hI ⟨hl, ha⟩
  have hextends : ∀ s', Writer.Inv final s' → s.trace <+: s'.trace →
      Pipe.Extends link s s' := by
    intro s' hI' htr
    exact ⟨handed_grows htr, fun _ hshut =>
      halfClosed_stays htr (ClosesLast.msgsBefore hI'.queue.order) hshut⟩
  refine wp_mono (wp_and (Writer.step_keeps hI l hl ha) (Writer.step_appends l s)) ?_ ?_
  · rintro _ s' ⟨hI', htr⟩
    exact ⟨hI', hextends s' hI' htr⟩
  · rintro e s' ⟨⟨rfl, hI'⟩, htr⟩
    exact ⟨hI', hextends s' hI' htr⟩

/-- The invariant of the call. -/
structure Inv (final : Status) (c : Call) : Prop where
  sound : Pipe.Sound link c
  sender : Process.Holds (Writer.Inv final) (fun _ _ => False) c.sender
  hears : ServerReader.Hears c

/-- The invariant holds wherever a run leads. -/
theorem step_keeps {final : Status} {c : Call} {m : Move} (h : Inv final c)
    (hm : c.Allowed link Sends ServerReader.Reads m) : Inv final (Pipe.step link c m) := by
  obtain ⟨hsound, hI, hhears⟩ := h
  have hstep := hsound.step (sends final) hI hm
  exact ⟨hstep.sound, hstep.sender, ServerReader.hears_step hhears hm⟩

/-- Every run over the two programs keeps the invariant. -/
theorem run_keeps {starts : List Bool} {final : Status} {started : Bool} {ms : List Move}
    (h : Legal (new starts final started) ms) :
    Inv final (after (new starts final started) ms) := by
  have hstart : Pipe.Sound link (new starts final started) := by
    refine ⟨?_, fun he => absurd he (by simp [new])⟩
    rcases starts with _ | ⟨_ | _, starts⟩ <;> rfl
  exact Pipe.run_keeps (fun c m hc hm => step_keeps hc hm)
    ⟨hstart, Writer.Inv.new starts final, ServerReader.hears_new rfl rfl⟩ h

/-- What the invariant says of the two ends. -/
theorem Inv.orderly {final : Status} {c : Call} (h : Inv final c) :
    ∃ w r, c.sender = .running w ∧ c.receiver = .running r ∧ Orderly c.broken w r := by
  obtain ⟨hsound, hI, hhears⟩ := h
  obtain ⟨r, hr, hheard, hend⟩ := hhears.heard hsound
  have hprefix := hsound.taken_prefix
  cases hw : c.sender with
  | stopped e w =>
      rw [hw] at hI
      exact hI.elim
  | running w =>
      rw [hw] at hI hend hprefix
      have hI : Writer.Inv final w := hI
      refine ⟨w, r, rfl, hr, ?_, fun honEnd hnoError hbroken => ?_⟩
      · rw [hheard]
        exact hprefix.trans hI.queue.handed_prefix
      · -- The half-close was taken by gRPC, so that the queue is empty and stays so.
        obtain ⟨htaken, u, hshut⟩ := hend honEnd hnoError hbroken
        obtain ⟨hclose, hhanded⟩ := hI.queue.handed_of_halfClosed hshut
        refine ⟨hI.closing_closes.mp (hI.close_closing hclose), ?_⟩
        rw [hheard, htaken]
        exact hhanded

/-- **Client streaming.**  In every interleaving of the two ends, whatever gRPC refuses and
whatever fails: neither end aborts, the server's reader is handed the messages that were written, in
order, as far as they came; and where its stream ends without an error or a lost connection, all of
them. -/
theorem upload_orderly (starts : List Bool) (final : Status) (started : Bool) (ms : List Move)
    (h : Legal (new starts final started) ms) :
    ∃ w r, (after (new starts final started) ms).sender = .running w ∧
      (after (new starts final started) ms).receiver = .running r ∧
      Orderly (after (new starts final started) ms).broken w r :=
  (run_keeps h).orderly

/-- Two messages, of which the second is read while the first is being sent, and the end. -/
def twoMessages : List Move :=
  let read (tag : CodRecvMsg) : Move := .recv ⟨true, tag, .OK, true⟩
  [.send (.call (.write [1]) Writer.idle), .send (.call (.write [2]) Writer.idle),
    read ⟨some ⟨some [1]⟩⟩, .send (.call (.close true) Writer.idle),
    .send (.sent true Writer.idle), .send (.sent true Writer.idle), read ⟨some ⟨some [2]⟩⟩,
    read ⟨none⟩]

theorem upload_orderly_twoMessages :
    ∃ w r, (after (new [] .OK true) twoMessages).sender = .running w ∧
      (after (new [] .OK true) twoMessages).receiver = .running r ∧
      Orderly (after (new [] .OK true) twoMessages).broken w r :=
  upload_orderly [] .OK true twoMessages (by decide)

/-! ### Completion -/

/-- The move is a completion, of a batch of the client or of a read of the server. -/
def completes : Move → Bool
  | .send l => l.completes
  | .recv _ => true
  | .cut => false

/-- The completions that are to come. -/
def remaining (c : Call) : Nat :=
  c.sender.state.pending +
    (c.receiver.state.reading + ((accepted c.sender.state.trace).length - c.taken.length))

/-- A run of completions. -/
abbrev Completes (c : Call) (ms : List Move) : Prop :=
  Pipe.Along link (fun c m => c.Allowed link Sends ServerReader.Reads m ∧ completes m = true) c ms

/-- The completions with which gRPC reports a success. -/
def succeeds : Move → Bool
  | .send (.sent success _) => success
  | .send (.closed success _ _) => success
  | .recv r => r.success
  | _ => false

/-- There is no success left that gRPC could report. -/
def Quiet (c : Call) : Prop :=
  ∀ m, succeeds m = true → ¬ c.Allowed link Sends ServerReader.Reads m

/-- The client has closed, and nothing has gone wrong: gRPC has taken every batch and sent every
message, the server has met with no error, and the connection is not lost. -/
structure Smooth (c : Call) : Prop where
  closed : Writer.closes c.sender.state.trace ≠ []
  clean : Writer.clean c.sender.state.trace = true
  noError : ∀ st, .onError st ∉ c.receiver.state.trace
  connected : c.broken = false

/-- The server has read all that was written and the end, and the client has the result. -/
structure Done (final : Status) (w : Writer) (r : ServerReader) : Prop where
  heard : ServerReader.heard r.trace = accepted w.trace
  ended : .onEnd ∈ r.trace
  told : (Writer.closes w.trace).head? = some true →
    ∃ tag st msg, Writer.told w.trace = [(st, msg)] ∧ Writer.Result final tag st msg

/-- No more messages are taken than were written. -/
theorem Inv.taken_le {final : Status} {c : Call} (h : Inv final c) :
    c.taken.length ≤ (accepted c.sender.state.trace).length := by
  obtain ⟨hsound, hI, -⟩ := h
  cases hc : c.sender with
  | stopped e w =>
      rw [hc] at hI
      exact hI.elim
  | running w =>
      rw [hc] at hI
      have hI : Writer.Inv final w := hI
      have htaken := hsound.taken_prefix
      rw [hc] at htaken
      exact (htaken.trans hI.queue.handed_prefix).length_le

/-- A completion leaves fewer to come. -/
theorem step_remaining {final : Status} {c : Call} {m : Move} (h : Inv final c)
    (hm : c.Allowed link Sends ServerReader.Reads m) (hcompletes : completes m = true) :
    remaining (Pipe.step link c m) < remaining c := by
  have htaken := (step_keeps h hm).taken_le
  cases m with
  | cut => cases hcompletes
  | recv r =>
      have hsender : (Pipe.step link c (.recv r)).sender = c.sender :=
        (Pipe.took_ends c r.take).2.1
      have hless := ServerReader.hears_less h.hears hm htaken
      rw [remaining, remaining, hsender]
      rw [hsender] at hless
      exact Nat.add_lt_add_left hless _
  | send l =>
      cases hc : c.sender with
      | stopped e w =>
          have hcan : Pipe.CanTake Sends c.sender l := hm
          rw [hc] at hcan
          exact hcan.elim
      | running w =>
          have hcan : Pipe.CanTake Sends c.sender l := hm
          have hI := h.sender
          rw [hc] at hcan hI
          have hnext := Process.state_next (Writer.step_pending hI l hcan.1 hcompletes)
          have hsender : (Pipe.step link c (.send l)).sender.state =
              (Process.next Writer.Step.exec (.running w) l).state := by
            show (Process.next Writer.Step.exec c.sender l).state = _
            rw [hc]
          rw [remaining, remaining, hsender, hc, hnext.2]
          exact Nat.add_lt_add_right hnext.1 _

/-- A smooth call that comes to rest is done. -/
theorem Inv.done {final : Status} {c : Call} (h : Inv final c) (hquiet : Quiet c)
    (hsmooth : Smooth c) : Done final c.sender.state c.receiver.state := by
  obtain ⟨hcloses, hclean, hnoError, hconnected⟩ := hsmooth
  obtain ⟨r, hr, hheard, hend⟩ := h.hears.heard h.sound
  obtain ⟨w, hw, hI⟩ : ∃ w, c.sender = .running w ∧ Writer.Inv final w := by
    have hI := h.sender
    cases hc : c.sender with
    | running w => exact ⟨w, rfl, by rwa [hc] at hI⟩
    | stopped e w =>
        rw [hc] at hI
        exact hI.elim
  have hcan : ∀ l, Sends w l → Pipe.CanTake Sends c.sender l := fun l hl => hw ▸ hl
  rw [hw] at hcloses hclean
  have hfinished := hI.finished ?_ ?_ hcloses hclean
  · have honEnd : .onEnd ∈ c.receiver.state.trace :=
      h.hears.ended (fun r hr => hquiet (.recv r) hr)
        (by rw [hw]; exact Option.isSome_iff_exists.mpr ⟨(), hfinished.halfClosed⟩) hnoError
    rw [hr] at honEnd hnoError ⊢
    rw [hw] at hend ⊢
    exact ⟨hheard.trans ((hend honEnd hnoError hconnected).1.trans hfinished.handed), honEnd,
      hfinished.told⟩
  · by_contra hsend
    exact hquiet (.send (.sent true Writer.idle)) rfl (hcan _ ⟨hsend, trivial⟩)
  · by_contra hclosing
    exact hquiet (.send (.closed true ⟨some ⟨some []⟩⟩ Writer.idle)) rfl
      (hcan _ ⟨Nat.pos_of_ne_zero hclosing, rfl, fun _ => rfl⟩)

/-- **Client streaming comes to its end.**  Wherever the call is, only so many completions are to
come, whatever they bring and whatever the callbacks do; and when none is left with which gRPC could
report a success, and nothing has gone wrong, the server has read everything that was written, and
the client has the result. -/
theorem upload_completes (starts : List Bool) (final : Status) (started : Bool) (ms : List Move)
    (h : Legal (new starts final started) ms) :
    (∀ ms', Completes (after (new starts final started) ms) ms' →
      ms'.length ≤ remaining (after (new starts final started) ms)) ∧
    (Quiet (after (new starts final started) ms) → Smooth (after (new starts final started) ms) →
      Done final (after (new starts final started) ms).sender.state
        (after (new starts final started) ms).receiver.state) := by
  have hI := run_keeps h
  refine ⟨fun ms' h' => ?_, hI.done⟩
  exact Pipe.length_le (fun c m hc hm => ⟨step_keeps hc hm.1, step_remaining hc hm.1 hm.2⟩) hI h'

/-- With nothing in flight the call is at rest. -/
theorem quiet_of_idle {c : Call} {w : Writer} {r : ServerReader} (hw : c.sender = .running w)
    (hr : c.receiver = .running r) (hsend : w.sending = []) (hclosing : w.closing = 0)
    (hreading : r.reading = 0) : Quiet c := by
  rintro (l | r' | _) hsucceeds hm
  · have hcan : Pipe.CanTake Sends c.sender l := hm
    rw [hw] at hcan
    cases l with
    | call _ _ => cases hsucceeds
    | sent _ _ => exact hcan.1 hsend
    | closed _ _ _ => exact absurd hclosing (Nat.ne_of_gt hcan.1)
  · have hcan : Pipe.CanTake ServerReader.Reads c.receiver r' := hm.1
    rw [hr] at hcan
    exact absurd hreading (Nat.ne_of_gt hcan)
  · cases hsucceeds

/-- The two messages, and the close batch. -/
theorem upload_completes_twoMessages :
    let c := after (new [] .OK true)
      (twoMessages ++ [.send (.closed true ⟨some ⟨some [3]⟩⟩ Writer.idle)])
    Done .OK c.sender.state c.receiver.state := by
  refine (upload_completes [] .OK true _ (by decide)).2 ?_
    ⟨by decide, by decide, fun st h => ?_, rfl⟩
  · exact quiet_of_idle rfl rfl rfl rfl rfl
  · have htrace : (after (new [] .OK true) (twoMessages ++
        [.send (.closed true ⟨some ⟨some [3]⟩⟩ Writer.idle)])).receiver.state.trace =
        [.onMsgStr [1], .onMsgStr [2], .onEnd] := by decide
    rw [htrace] at h
    simp at h

end Upload

end GrpcLua
