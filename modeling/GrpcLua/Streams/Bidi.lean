import GrpcLua.Client.ReaderWriter.Pending
import GrpcLua.Streams.ServerEnds
import GrpcLua.Support.Duplex

/-!
# Streams — Bidi

A bidirectional call as a whole.  `ClientAsyncReaderWriterImpl` is at one end of two streams: what
it writes is read for a `ServerReader`, and what the threads of the server write to a
`ServerWriterImpl` it reads itself.  All of them take their steps in any order, the calls that the
client's callbacks make on their own object included.

The client receives no status of the server's: it tells OK when both of its directions have ended.
-/

namespace GrpcLua
open Prog Trace

namespace ReaderWriter

/-- What a step takes from the stream. -/
def Step.take : Step → Take Bytes
  | read true ⟨some ⟨some msg⟩⟩ _ _ => .msg msg
  | read true ⟨none⟩ _ _ => .ending
  | _ => .nothing

/-- What a step takes from the pipe is the message that it has received. -/
theorem Step.took_taken {σ τ : Type} (c : Pipe σ τ Bytes) (l : Step) :
    (c.took l.take).taken = c.taken ++ l.received := by
  rcases l with _ | _ | ⟨_ | _, ⟨_ | ⟨_ | msg⟩⟩, _, _⟩ <;>
    first | rfl | exact (List.append_nil _).symm

/-- A step that learns of the end has taken it from the pipe. -/
theorem Step.took_ended {σ τ : Type} (c : Pipe σ τ Bytes) {l : Step} (h : l.ends = true) :
    (c.took l.take).ended = true := by
  unfold ends at h
  split at h
  · rfl
  · cases h

/-- A message that is received is handed on, if there is a `msg_cb_` and no error. -/
theorem Step.hands_eq (s : ReaderWriter) (l : Step) :
    (l.hands s).toList = if s.status.ok && s.msgCb then l.received else [] := by
  rcases l with _ | _ | ⟨_ | _, ⟨_ | ⟨_ | msg⟩⟩, _, _⟩ <;>
    cases h : s.status.ok && s.msgCb <;> simp [Step.hands, Step.received, h]

/-! ### Sending -/

/-- The client keeps its invariant, however a step ends, and takes back nothing. -/
theorem sends {given : Bool} {τ ρ : Type} {recv : ρ → EStateM Exit τ Unit}
    {take : ρ → Take Bytes} :
    Pipe.Sends ⟨Step.exec, recv, fun s => handed s.trace, fun s => halfClosed s.trace, take⟩
      Step.Enabled (Inv given) fun _ => Inv given := by
  intro s l hI hl
  have hextends : ∀ s', Inv given s' → Tells l.ends s s' →
      handed s.trace <+: handed s'.trace ∧ ∀ u, halfClosed s.trace = some u →
        halfClosed s'.trace = some u ∧ handed s'.trace = handed s.trace := by
    intro s' hI' h'
    exact ⟨handed_grows h'.trace, fun _ hc =>
      halfClosed_stays h'.trace (ClosesLast.msgsBefore hI'.queue.order) hc⟩
  refine wp_mono (wp_and (step_keeps hI l hl) (step_tells hI l hl)) ?_ ?_
  · rintro _ s' ⟨hI', h'⟩
    exact ⟨hI', hextends s' hI' h'⟩
  · rintro (_ | _ | _) s' ⟨hI', h'⟩
    all_goals exact ⟨hI', hextends s' hI' h'⟩

/-! ### Receiving -/

/-- The stream from the server, as the client receives it. -/
abbrev fromServer : Link ServerWriter ServerWriter.Step ReaderWriter Step Bytes Status :=
  ServerWriter.linkFrom Step.exec Step.take

abbrev Down := Pipe ServerWriter ReaderWriter Bytes

/-- What the client has handed on of what it has received. -/
structure Hears (given : Bool) (c : Down) : Prop where
  inv : Inv given c.receiver.state
  started : c.taken ≠ [] → c.receiver.state.readingStarted = true
  msgs_prefix : msgs c.receiver.state.trace <+: c.taken
  /-- As long as there is no error, nothing that was received is kept back. -/
  msgs : c.receiver.state.status.ok = true →
    msgs c.receiver.state.trace = if c.receiver.state.msgCb then c.taken else []
  ended : c.receiver.state.status.ok = true → c.receiver.state.readingEnded = true →
    c.ended = true
  /-- OK is told when both directions have ended. -/
  told : oks c.receiver.state.trace ≠ [] → closed c.receiver.state.trace = true ∧
    c.receiver.state.readingStarted = true ∧ (c.broken = true ∨
      (∃ st, Pipe.Drained fromServer c st) ∧
        (c.receiver.state.msgCb = true → ReaderWriter.msgs c.receiver.state.trace = c.taken))

/-- The receiver is as it was, and so is what it has taken. -/
theorem Hears.sent {given : Bool} {c c' : Down} (h : Hears given c)
    (hr : c'.receiver = c.receiver) (ht : c'.taken = c.taken) (he : c'.ended = c.ended)
    (hb : c.broken = true → c'.broken = true)
    (hd : ∀ st, Pipe.Drained fromServer c st → c'.broken = true ∨ Pipe.Drained fromServer c' st) :
    Hears given c' where
  inv := hr ▸ h.inv
  started := by rw [hr, ht]; exact h.started
  msgs_prefix := by rw [hr, ht]; exact h.msgs_prefix
  msgs := by rw [hr, ht]; exact h.msgs
  ended := by rw [hr, he]; exact h.ended
  told := by
    rw [hr, ht]
    intro hoks
    obtain ⟨hclosed, hstarted, hbroken | ⟨⟨st, hst⟩, hmsgs⟩⟩ := h.told hoks
    · exact ⟨hclosed, hstarted, .inl (hb hbroken)⟩
    · refine ⟨hclosed, hstarted, ?_⟩
      rcases hd st hst with hbroken | hst'
      · exact .inl hbroken
      · exact .inr ⟨⟨st, hst'⟩, hmsgs⟩

section step
variable {given : Bool} {c : Down} {s : ReaderWriter} {l : Step}

/-- A read is in flight only when the reading was started. -/
theorem Inv.started_of_take (h : Inv given s) (hl : Step.Enabled s l)
    (ht : l.received ≠ [] ∨ l.ends = true) : s.readingStarted = true := by
  cases l with
  | call _ _ => exact absurd ht (by simp [Step.received, Step.ends])
  | sent _ _ => exact absurd ht (by simp [Step.received, Step.ends])
  | read _ _ _ _ => exact h.reading_started hl

/-- After everything has been received, no message is. -/
theorem Step.received_of_drained (hgives : c.Gives fromServer l.take) {st : Status}
    (h : Pipe.Drained fromServer c st) : l.received = [] := by
  by_contra hr
  unfold Step.received at hr
  split at hr
  · have hhead : c.wire.head? = some _ := hgives
    rw [h.2] at hhead
    cases hhead
  · exact hr rfl

/-- The client after the step, of what `Hears` says before it. -/
theorem Hears.running (h : Hears given c) (hc : c.receiver = .running s) : Inv given s ∧
    (c.taken ≠ [] → s.readingStarted = true) ∧ ReaderWriter.msgs s.trace <+: c.taken ∧
    (s.status.ok = true → ReaderWriter.msgs s.trace = if s.msgCb then c.taken else []) := by
  obtain ⟨hI, hstarted, hprefix, hmsgs, -, -⟩ := h
  rw [hc, Process.state_running] at hI hstarted hprefix hmsgs
  exact ⟨hI, hstarted, hprefix, hmsgs⟩

/-- Where anything is received by then, the reading was started before the step. -/
theorem Hears.started_of_taken (h : Hears given c) (hc : c.receiver = .running s)
    (hl : Step.Enabled s l) (hne : c.taken ++ l.received ≠ []) : s.readingStarted = true := by
  obtain ⟨hI, hstarted, -⟩ := h.running hc
  by_cases hr : l.received = []
  · rw [hr, List.append_nil] at hne
    exact hstarted hne
  · exact hI.started_of_take hl (.inl hr)

/-- The messages that the client has handed on after the step. -/
theorem Hears.msgs_next (h : Hears given c) (hc : c.receiver = .running s)
    (hl : Step.Enabled s l) :
    ReaderWriter.msgs (Process.next Step.exec (.running s) l).state.trace =
      if s.status.ok = true then if s.msgCb then c.taken ++ l.received else []
      else ReaderWriter.msgs s.trace := by
  obtain ⟨hI, -, -, hmsgs⟩ := h.running hc
  have hm := Process.state_next (J := fun s' : ReaderWriter => ReaderWriter.msgs s'.trace =
    ReaderWriter.msgs s.trace ++ (l.hands s).toList) (step_msgs hI l hl)
  rw [hm, Step.hands_eq]
  cases hok : s.status.ok with
  | false => simp
  | true =>
      rw [hmsgs hok]
      cases s.msgCb <;> simp

/-- What has been told of OK after the step. -/
theorem Hears.told_next (h : Hears given c) (hc : c.receiver = .running s)
    (hl : Step.Enabled s l) (hgives : c.Gives fromServer l.take)
    (hsound : Pipe.Sound fromServer (Pipe.step fromServer c (.recv l)))
    (hdrained : ∀ st, Pipe.Drained fromServer c st →
      Pipe.Drained fromServer (Pipe.step fromServer c (.recv l)) st)
    (hended : c.ended = true ∨ l.ends = true →
      (Pipe.step fromServer c (.recv l)).ended = true)
    (hoks : oks (Process.next Step.exec (.running s) l).state.trace ≠ []) :
    closed (Process.next Step.exec (.running s) l).state.trace = true ∧
      (Process.next Step.exec (.running s) l).state.readingStarted = true ∧ (c.broken = true ∨
        (∃ st, Pipe.Drained fromServer (Pipe.step fromServer c (.recv l)) st) ∧
          ((Process.next Step.exec (.running s) l).state.msgCb = true →
            ReaderWriter.msgs (Process.next Step.exec (.running s) l).state.trace =
              c.taken ++ l.received)) := by
  have hm := h.msgs_next hc hl
  obtain ⟨hI, -⟩ := h.running hc
  have ht := Process.state_next (step_tells hI l hl)
  obtain ⟨-, -, -, -, hend, htold⟩ := h
  rw [hc, Process.state_running] at hend htold
  rcases ht.oks with hsame | ⟨hok, hboth, hclosed⟩
  · -- What was told stays so.
    rw [hsame] at hoks
    obtain ⟨hclosed, hrs, hcases⟩ := htold hoks
    refine ⟨closed_mono ht.trace hclosed, (ht.kept hrs).1, hcases.imp_right ?_⟩
    rintro ⟨⟨st, hst⟩, hall⟩
    refine ⟨⟨st, hdrained st hst⟩, fun hset => ?_⟩
    have hset' : s.msgCb = true := (ht.kept hrs).2 ▸ hset
    rw [hm, Step.received_of_drained hgives hst, List.append_nil, hset', hall hset', if_pos rfl,
      ite_self]
  · -- Both directions have ended, and the reading by now.
    have hrs : s.readingStarted = true := hboth.elim
      (fun he => (hI.ended_reading hok he).2.1) fun he => hI.started_of_take hl (.inr he)
    refine ⟨hclosed, (ht.kept hrs).1, ?_⟩
    rcases hsound.ended (hended (hboth.imp_left (hend hok))) with hb | ⟨hwire, hshut⟩
    · exact .inl ((Pipe.took_ends c l.take).2.2 ▸ hb)
    · obtain ⟨st, hst⟩ := Option.isSome_iff_exists.mp hshut
      refine .inr ⟨⟨st, hst, hwire⟩, fun hset => ?_⟩
      rw [hm, if_pos hok, if_pos ((ht.kept hrs).2 ▸ hset)]

/-- A step of the client. -/
theorem Hears.step (h : Hears given c) (hc : c.receiver = .running s) (hl : Step.Enabled s l)
    (hgives : c.Gives fromServer l.take)
    (hsound : Pipe.Sound fromServer (Pipe.step fromServer c (.recv l)))
    (hdrained : ∀ st, Pipe.Drained fromServer c st →
      Pipe.Drained fromServer (Pipe.step fromServer c (.recv l)) st) :
    Hears given (Pipe.step fromServer c (.recv l)) := by
  have htaken : (Pipe.step fromServer c (.recv l)).taken = c.taken ++ l.received :=
    Step.took_taken c l
  have hreceiver : (Pipe.step fromServer c (.recv l)).receiver =
      Process.next Step.exec (.running s) l := by
    show Process.next Step.exec c.receiver l = _
    rw [hc]
  have hbroken : (Pipe.step fromServer c (.recv l)).broken = c.broken :=
    (Pipe.took_ends c l.take).2.2
  have hended : c.ended = true ∨ l.ends = true →
      (Pipe.step fromServer c (.recv l)).ended = true :=
    fun he => he.elim Pipe.took_ended (Step.took_ended c)
  have hm := h.msgs_next hc hl
  have hstart := h.started_of_taken hc hl
  obtain ⟨hI, -, hprefix, -⟩ := h.running hc
  have ht := Process.state_next (step_tells hI l hl)
  constructor
  · rw [hreceiver]
    exact Process.state_next (step_keeps hI l hl)
  · rw [hreceiver, htaken]
    exact fun hne => (ht.kept (hstart hne)).1
  · rw [hreceiver, htaken, hm]
    split
    · split
      · exact List.prefix_rfl
      · exact List.nil_prefix
    · exact hprefix.trans (List.prefix_append _ _)
  · rw [hreceiver, htaken, hm]
    intro hok'
    rw [if_pos (ht.ok hok').1]
    by_cases hne : c.taken ++ l.received = []
    · rw [hne, ite_self, ite_self]
    · rw [(ht.kept (hstart hne)).2]
  · rw [hreceiver]
    intro hok' hended'
    obtain ⟨hok, hcases⟩ := ht.ok hok'
    have hend := h.ended
    rw [hc, Process.state_running] at hend
    exact hended ((hcases hended').imp_left (hend hok))
  · rw [hreceiver, hbroken, htaken]
    exact h.told_next hc hl hgives hsound hdrained hended

end step

end ReaderWriter

/-! ### The call -/

namespace Bidi

/-- The reads of the server complete with what the client has handed to gRPC. -/
def toServer : Link ReaderWriter ReaderWriter.Step ServerReader ServerReader.Read Bytes Unit :=
  ServerReader.linkTo ReaderWriter.Step.exec (fun s => handed s.trace) fun s => halfClosed s.trace

abbrev Call := Duplex ReaderWriter ServerReader ServerWriter Bytes Bytes
abbrev Move := Duplex.Move ReaderWriter.Step ServerReader.Read ServerWriter.Step

/-- The call at its start: the client's object is constructed, with or without a `status_cb`; the
server's reader is started, with or without success; and `n` threads of the server may write. -/
def new (given : Bool) (clientStarts : List Bool) (final : Status) (started : Bool)
    (serverStarts : List Bool) (n : Nat) : Call where
  up := ⟨.running (ReaderWriter.new given clientStarts final), ServerReader.new started, [], [],
    false, false⟩
  down := ⟨.running (ServerWriter.new serverStarts n),
    .running (ReaderWriter.new given clientStarts final), [], [], false, false⟩

abbrev after (c : Call) (ms : List Move) : Call :=
  Duplex.after toServer ReaderWriter.fromServer c ms

/-- Every move of the run can be made. -/
abbrev Legal (c : Call) (ms : List Move) : Prop :=
  Duplex.Along toServer ReaderWriter.fromServer
    (fun c m => c.Allowed toServer ReaderWriter.Step.Enabled ServerReader.Reads m)
    (fun c m => c.Allowed ReaderWriter.fromServer ServerWriter.Step.Enabled
      ReaderWriter.Step.Enabled m) c ms

/-- What each side has written and the other has read. -/
structure Orderly (broken : Bool) (s : ReaderWriter) (r : ServerReader) (w : ServerWriter) :
    Prop where
  /-- The server's reader is handed what the client has written, in order, as far as it came. -/
  heard_prefix : ServerReader.heard r.trace <+: accepted s.trace
  /-- An end without an error comes after the client's half-close, and then it is all of it. -/
  heard_all : .onEnd ∈ r.trace → (∀ st, .onError st ∉ r.trace) → broken = false →
    closed s.trace = true ∧ ServerReader.heard r.trace = accepted s.trace
  /-- The client hands on what the server has written, in order, as far as it came. -/
  msgs_prefix : ReaderWriter.msgs s.trace <+: accepted w.trace
  /-- Once the client has told OK, the server has submitted a status and everything that it wrote
  has been handed on; and everything that the client wrote has been handed to gRPC. -/
  msgs_all : (∃ st ∈ ReaderWriter.statuses s.trace, st.ok = true) → broken = false →
    (∃ st, ServerWriter.statusOf w.trace = some st) ∧
    (s.msgCb = true → ReaderWriter.msgs s.trace = accepted w.trace) ∧
    handed s.trace = accepted s.trace

/-- The invariant of the call. -/
structure Inv (given : Bool) (c : Call) : Prop where
  shared : Duplex.Shared c
  up_sound : Pipe.Sound toServer c.up
  up_hears : ServerReader.Hears c.up
  down_sound : Pipe.Sound ReaderWriter.fromServer c.down
  down_sender : Process.Holds ServerWriter.Inv (fun _ => ServerWriter.Lost) c.down.sender
  down_hears : ReaderWriter.Hears given c.down

/-- Each direction is a run of its own pipe, and keeps what the pipe keeps. -/
theorem run_keeps {given : Bool} {clientStarts : List Bool} {final : Status} {started : Bool}
    {serverStarts : List Bool} {n : Nat} {ms : List Move}
    (h : Legal (new given clientStarts final started serverStarts n) ms) :
    Inv given (after (new given clientStarts final started serverStarts n) ms) := by
  obtain ⟨hup, hup_eq⟩ := Duplex.along_up h
  obtain ⟨hdown, hdown_eq⟩ := Duplex.along_down h
  have hI := ReaderWriter.Inv.new given clientStarts final
  obtain ⟨hsound, -, hhears⟩ := Pipe.invariant (L := toServer) (K := ServerReader.Hears)
    (c := (new given clientStarts final started serverStarts n).up)
    (I := ReaderWriter.Inv given) (J := fun _ => ReaderWriter.Inv given) (fun _ _ hm => hm)
    ReaderWriter.sends (fun c m _ _ hc hm _ => ServerReader.hears_step hc hm)
    ⟨rfl, fun he => absurd he (by simp [new])⟩ hI (ServerReader.hears_new rfl rfl) hup
  have hstart : ReaderWriter.Hears given
      (new given clientStarts final started serverStarts n).down :=
    ⟨hI, fun h => absurd rfl h, List.prefix_rfl, fun _ => rfl,
      fun _ h => absurd h (by simp [new, ReaderWriter.new]), fun h => absurd rfl h⟩
  obtain ⟨hsound', hsender', hhears'⟩ := Pipe.invariant (L := ReaderWriter.fromServer)
    (K := ReaderWriter.Hears given)
    (c := (new given clientStarts final started serverStarts n).down) (fun _ _ hm => hm)
    ServerWriter.sends
    (fun c m hs _ hc hm ha => by
      cases m with
      | send l =>
          exact hc.sent rfl rfl rfl id fun st hst => .inr (ha.drained hs hst)
      | cut => exact hc.sent rfl rfl rfl (fun _ => rfl) fun _ _ => .inl rfl
      | recv l =>
          cases hr : c.receiver with
          | stopped e s =>
              have hcan : Pipe.CanTake ReaderWriter.Step.Enabled c.receiver l := hm.1
              rw [hr] at hcan
              exact hcan.elim
          | running s =>
              have hcan : Pipe.CanTake ReaderWriter.Step.Enabled c.receiver l := hm.1
              rw [hr] at hcan
              exact hc.step hr hcan hm.2 ha.sound fun st hst => ha.drained hs hst)
    ⟨rfl, fun he => absurd he (by simp [new])⟩ (ServerWriter.Inv.new serverStarts n) hstart hdown
  exact
    { shared := Duplex.shared rfl ⟨rfl, rfl⟩ ms
      up_sound := hup_eq ▸ hsound
      up_hears := hup_eq ▸ hhears
      down_sound := hdown_eq ▸ hsound'
      down_sender := hdown_eq ▸ hsender'
      down_hears := hdown_eq ▸ hhears' }

/-- What the invariant says of the two ends. -/
theorem Inv.orderly {given : Bool} {c : Call} (h : Inv given c) :
    ∃ r, c.up.receiver = .running r ∧
      Orderly c.up.broken c.up.sender.state r c.down.sender.state := by
  obtain ⟨hshared, hsound, hhears, hsound', hsender', hhears'⟩ := h
  obtain ⟨r, hr, hheard, hend⟩ := hhears.heard hsound
  obtain ⟨hI, -, hprefix, -, -, htold⟩ := hhears'
  rw [← hshared.process] at hI hprefix htold
  rw [← hshared.broken] at htold
  have hwriter := ServerWriter.holds_handed hsender'
  refine ⟨r, hr, ?_, fun honEnd hnoError hbroken => ?_, ?_, ?_⟩
  · rw [hheard]
    exact hsound.taken_prefix.trans hI.queue.handed_prefix
  · obtain ⟨htaken, u, hshut⟩ := hend honEnd hnoError hbroken
    obtain ⟨-, hhanded⟩ := hI.queue.handed_of_halfClosed hshut
    refine ⟨closed_of_startedOp (halfClosed_eq.mp hshut), ?_⟩
    rw [hheard, htaken]
    exact hhanded
  · exact hprefix.trans (hsound'.taken_prefix.trans hwriter.1)
  · rintro ⟨st, hst, hok⟩ hbroken
    have hoks : ReaderWriter.oks c.up.sender.state.trace ≠ [] :=
      List.ne_nil_of_mem (List.mem_filter.mpr ⟨hst, hok⟩)
    obtain ⟨hclosed, -, hcases⟩ := htold hoks
    obtain ⟨⟨st', hdrained⟩, hall⟩ := hcases.resolve_left (by simp [hbroken])
    refine ⟨⟨st', hdrained.1⟩, fun hset => ?_, ?_⟩
    · -- The server's status comes last, and the wire is empty.
      have hended := ServerWriter.ended_of_statusOf hdrained.1
      rw [hall hset, hsound'.taken_eq hdrained.2]
      exact (hwriter.2 hended).handed_all hended
    · have hqueue := hI.queue
      rw [hI.queue.trace_closed.symm.trans hclosed] at hqueue
      exact hqueue.handed_of_closing

/-- **Bidirectional streaming.**  In every interleaving of the client, the server's reader and the
server's threads, whatever gRPC refuses, whatever the callbacks do and whatever fails: each side
hands on what the other has written, in order, as far as it came; and where it tells a clean end on
a connection that is not lost, all of it. -/
theorem bidi_orderly (given : Bool) (clientStarts : List Bool) (final : Status) (started : Bool)
    (serverStarts : List Bool) (n : Nat) (ms : List Move)
    (h : Legal (new given clientStarts final started serverStarts n) ms) :
    ∃ r, (after (new given clientStarts final started serverStarts n) ms).up.receiver =
        .running r ∧
      Orderly (after (new given clientStarts final started serverStarts n) ms).up.broken
        (after (new given clientStarts final started serverStarts n) ms).up.sender.state r
        (after (new given clientStarts final started serverStarts n) ms).down.sender.state :=
  (run_keeps h).orderly

/-- A question and its answer: the client writes and closes, the server reads, writes and closes. -/
def oneAnswer : List Move :=
  let read (tag : CodRecvMsg) : Move :=
    .near (.read true tag (fun _ => .ret .OK) ReaderWriter.idle)
  [.near (.call (.readEach true) ReaderWriter.idle),
    .near (.call (.write [1]) ReaderWriter.idle), .near (.call .closeWriting ReaderWriter.idle),
    .recv ⟨true, ⟨some ⟨some [1]⟩⟩, .OK, true⟩, .near (.sent true ReaderWriter.idle),
    .recv ⟨true, ⟨none⟩, .OK, true⟩, .send (.call 0 (.asyncWrite [2])), .send (.resume 0),
    .send (.call 0 (.asyncClose .OK)), .send (.resume 0), read ⟨some ⟨some [2]⟩⟩,
    .send (.complete true), read ⟨none⟩]

theorem bidi_orderly_oneAnswer :
    ∃ r, (after (new true [] .OK true [] 1) oneAnswer).up.receiver = .running r ∧
      Orderly (after (new true [] .OK true [] 1) oneAnswer).up.broken
        (after (new true [] .OK true [] 1) oneAnswer).up.sender.state r
        (after (new true [] .OK true [] 1) oneAnswer).down.sender.state :=
  bidi_orderly true [] .OK true [] 1 oneAnswer (by decide)

/-! ### Completion -/

/-- The move is a completion, of a tag of the client or of a read or a message of the server. -/
def completes : Move → Bool
  | .near l => l.completes
  | .recv _ => true
  | .send l => l.completes
  | .cut => false

/-- A run of completions. -/
abbrev Completes (c : Call) (ms : List Move) : Prop :=
  Legal c ms ∧ ∀ m ∈ ms, completes m = true

/-- The messages that the client has written. -/
def written (c : Call) : Nat := (accepted c.up.sender.state.trace).length

/-- The completions that are to come: the client's own, the reads of what it has written, the
server's own, and the reads of what that has written. -/
def remaining (c : Call) : Nat :=
  c.up.sender.state.pending + (c.up.receiver.state.reading + (written c - c.up.taken.length)) +
    (c.down.sender.state.pending +
      ((accepted c.down.sender.state.trace).length - c.down.taken.length))

abbrev step (c : Call) (m : Move) : Call := Duplex.step toServer ReaderWriter.fromServer c m

/-- The server takes no more than the client has written. -/
theorem Inv.up_taken_le {given : Bool} {c : Call} (h : Inv given c) :
    c.up.taken.length ≤ written c := by
  have hI := h.down_hears.inv
  rw [← h.shared.process] at hI
  exact (h.up_sound.taken_prefix.trans hI.queue.handed_prefix).length_le

/-- The client takes no more than the server has written. -/
theorem Inv.down_taken_le {given : Bool} {c : Call} (h : Inv given c) :
    c.down.taken.length ≤ (accepted c.down.sender.state.trace).length :=
  (h.down_sound.taken_prefix.trans (ServerWriter.holds_handed h.down_sender).1).length_le

/-- A completion leaves fewer to come; but what a callback writes meanwhile is to be sent, and to be
read. -/
theorem step_remaining {given : Bool} {c : Call} {m : Move} (h : Inv given c)
    (h' : Inv given (step c m))
    (hm : c.Allowed (fun c m => c.Allowed toServer ReaderWriter.Step.Enabled ServerReader.Reads m)
      (fun c m => c.Allowed ReaderWriter.fromServer ServerWriter.Step.Enabled
        ReaderWriter.Step.Enabled m) m)
    (hcompletes : completes m = true) :
    remaining (step c m) + 1 + 2 * written c ≤ remaining c + 2 * written (step c m) := by
  have hup := h.up_taken_le
  have hup' := h'.up_taken_le
  have hdown' := h'.down_taken_le
  cases m with
  | cut => cases hcompletes
  | recv r =>
      have hsender : (step c (.recv r)).up.sender = c.up.sender := (Pipe.took_ends c.up r.take).2.1
      have hw : written (step c (.recv r)) = written c := by rw [written, written, hsender]
      have hless := ServerReader.hears_less h.up_hears (hm.1 _ rfl) (hw ▸ hup')
      have hreads : (step c (.recv r)).up.receiver.state.reading +
          (written c - (step c (.recv r)).up.taken.length) <
          c.up.receiver.state.reading + (written c - c.up.taken.length) := hless
      have hrest : (step c (.recv r)).down = c.down := rfl
      rw [remaining, remaining, hw, hsender, hrest]
      omega
  | send l =>
      have hcan : Pipe.CanTake ServerWriter.Step.Enabled c.down.sender l := hm.2 _ rfl
      have hsame : (step c (.send l)).up = c.up := rfl
      have hw : written (step c (.send l)) = written c := rfl
      have htaken : (step c (.send l)).down.taken = c.down.taken := rfl
      have hsender : (step c (.send l)).down.sender =
          Process.next ServerWriter.Step.exec c.down.sender l := rfl
      cases hc : c.down.sender with
      | stopped e w =>
          rw [hc] at hcan
          exact hcan.elim
      | running w =>
          rw [hc] at hcan
          cases l with
          | complete success =>
              have hnext := Process.state_next (ServerWriter.complete_pending success hcan)
              rw [remaining, remaining, hw, hsame, htaken, hsender, hc, hnext.2]
              have hpending := hnext.1
              rw [Process.state_running]
              omega
          | _ => cases hcompletes
  | near l =>
      have hcan : Pipe.CanTake ReaderWriter.Step.Enabled c.up.sender l := hm.1 _ rfl
      have hI := h.down_hears.inv
      rw [← h.shared.process] at hI
      have hreader : (step c (.near l)).up.receiver = c.up.receiver := rfl
      have hnear : (step c (.near l)).up.sender =
          Process.next ReaderWriter.Step.exec c.up.sender l := rfl
      have hserver : (step c (.near l)).down.sender = c.down.sender :=
        (Pipe.took_ends c.down l.take).2.1
      have htaken : (step c (.near l)).down.taken = c.down.taken ++ l.received :=
        ReaderWriter.Step.took_taken c.down l
      have hkept : (step c (.near l)).up.taken = c.up.taken := rfl
      cases hc : c.up.sender with
      | stopped e s =>
          rw [hc] at hcan
          exact hcan.elim
      | running s =>
          rw [hc] at hcan
          rw [hc, Process.state_running] at hI
          have hsettles := Process.state_next (J := ReaderWriter.Settles l s)
            (ReaderWriter.step_pending hI l hcan hcompletes)
          have hw : written c = (accepted s.trace).length := by rw [written, hc]; rfl
          have hw' : written (step c (.near l)) =
              (accepted
                (Process.next ReaderWriter.Step.exec (.running s) l).state.trace).length := by
            rw [written, hnear, hc]
          have hpending := hsettles.pending
          have hmore := hsettles.accepted
          rw [← hw, ← hw'] at hpending hmore
          rw [hserver, htaken, List.length_append] at hdown'
          rw [remaining, remaining, hreader, hnear, hserver, htaken, hkept, hc,
            List.length_append, Process.state_running]
          omega

/-- The completions with which gRPC reports a success. -/
def succeeds : Move → Bool
  | .near (.sent success _) => success
  | .near (.read success _ _ _) => success
  | .recv r => r.success
  | .send (.complete success) => success
  | _ => false

/-- There is no success left that gRPC could report. -/
def Quiet (c : Call) : Prop :=
  ∀ m, succeeds m = true →
    ¬ c.Allowed (fun c m => c.Allowed toServer ReaderWriter.Step.Enabled ServerReader.Reads m)
      (fun c m => c.Allowed ReaderWriter.fromServer ServerWriter.Step.Enabled
        ReaderWriter.Step.Enabled m) m

/-- The client's callbacks do not raise, and it is not closed as the last thing in the call, which
`status_cb_` would not be told of. -/
def Undisturbed (c : Pipe ReaderWriter ServerReader Bytes) :
    Pipe.Move ReaderWriter.Step ServerReader.Read → Prop
  | .send l => c.sender.state.Undisturbed l
  | _ => True

instance decidableUndisturbed (c : Pipe ReaderWriter ServerReader Bytes) :
    (m : Pipe.Move ReaderWriter.Step ServerReader.Read) → Decidable (Undisturbed c m)
  | .send l => ReaderWriter.decidableUndisturbed c.sender.state l
  | .recv _ => isTrue trivial
  | .cut => isTrue trivial

/-- Both ends have been used to the end, and nothing has gone wrong: the client reads and has closed
its writing, neither side has met with an error, the server has closed and gRPC has taken all that
it handed over, and the connection is not lost. -/
structure Closed (c : Call) : Prop where
  running : ∃ s, c.up.sender = .running s
  ok : c.up.sender.state.status.ok = true
  started : c.up.sender.state.readingStarted = true
  closing : c.up.sender.state.writingClosing = true
  noError : ∀ st, .onError st ∉ c.up.receiver.state.trace
  closed : ServerWriter.closes c.down.sender.state.trace ≠ []
  unfailed : ServerWriter.unfailed c.down.sender.state.trace = true
  connected : c.up.broken = false

/-- Each side has been handed all that the other has written, and the end. -/
structure Done (given : Bool) (s : ReaderWriter) (r : ServerReader) (w : ServerWriter) : Prop where
  heard : ServerReader.heard r.trace = accepted s.trace
  onEnd : .onEnd ∈ r.trace
  msgs : s.msgCb = true → ReaderWriter.msgs s.trace = accepted w.trace
  ended : s.readingEnded = true ∧ s.writingEnded = true
  told : given = true → ReaderWriter.statuses s.trace ≠ []

/-- What holds of an undisturbed call. -/
structure Flows (given : Bool) (c : Call) : Prop extends Inv given c where
  serving : Process.Holds ServerWriter.Serving (fun _ _ => True) c.down.sender
  flowing : Process.Holds (ReaderWriter.Flowing given) (fun _ _ => True) c.up.sender

/-- An undisturbed run flows to its end. -/
theorem run_flows {given : Bool} {clientStarts : List Bool} {final : Status} {started : Bool}
    {serverStarts : List Bool} {n : Nat} {ms : List Move}
    (h : Legal (new given clientStarts final started serverStarts n) ms)
    (hu : Duplex.Along toServer ReaderWriter.fromServer Undisturbed (fun _ _ => True)
      (new given clientStarts final started serverStarts n) ms) :
    Flows given (after (new given clientStarts final started serverStarts n) ms) := by
  obtain ⟨hup, hup_eq⟩ := Duplex.along_up h
  obtain ⟨hdown, hdown_eq⟩ := Duplex.along_down h
  refine { run_keeps h with serving := ?_, flowing := ?_ }
  · rw [after, hdown_eq]
    exact ServerWriter.run_serving
      (c := (new given clientStarts final started serverStarts n).down) (fun _ _ hm => hm)
      (ServerWriter.Serving.new serverStarts n) hdown
  · rw [after, hup_eq]
    refine Pipe.run_keeps (J := fun c => Process.Holds (ReaderWriter.Flowing given) _ c.sender)
      (fun c m hc hm => ?_) (.new given clientStarts final) (hup.and (Duplex.along_up hu).1)
    cases m with
    | send l =>
        have hcan : Pipe.CanTake ReaderWriter.Step.Enabled c.sender l := hm.1
        have hl : c.sender.state.Undisturbed l := hm.2
        show Process.Holds _ _ (Process.next ReaderWriter.Step.exec c.sender l)
        cases hs : c.sender with
        | stopped e s =>
            rw [hs] at hcan
            exact hcan.elim
        | running s =>
            rw [hs] at hc hcan hl
            exact Process.holds_next (ReaderWriter.step_flowing hc l hcan hl)
    | recv r =>
        show Process.Holds _ _ (c.took r.take).sender
        rw [(Pipe.took_ends c r.take).2.1]
        exact hc
    | cut => exact hc

/-- A step of the client that both pipes let it take. -/
theorem Inv.allowed_near {given : Bool} {c : Call} (h : Inv given c) {s : ReaderWriter}
    (hs : c.up.sender = .running s) {l : ReaderWriter.Step} (hl : ReaderWriter.Step.Enabled s l)
    (hgives : c.down.Gives ReaderWriter.fromServer l.take) :
    c.Allowed (fun c m => c.Allowed toServer ReaderWriter.Step.Enabled ServerReader.Reads m)
      (fun c m => c.Allowed ReaderWriter.fromServer ServerWriter.Step.Enabled
        ReaderWriter.Step.Enabled m) (.near l) := by
  have hcan : Pipe.CanTake ReaderWriter.Step.Enabled c.up.sender l := hs ▸ hl
  refine ⟨fun m hm => ?_, fun m hm => ?_⟩
  · obtain rfl := Option.some.inj hm
    exact hcan
  · obtain rfl := Option.some.inj hm
    exact ⟨h.shared.process ▸ hcan, hgives⟩

/-- A closed call that flows and comes to rest is done. -/
theorem Flows.done {given : Bool} {c : Call} (h : Flows given c) (hquiet : Quiet c)
    (hclosed : Closed c) :
    Done given c.up.sender.state c.up.receiver.state c.down.sender.state := by
  obtain ⟨⟨s, hs⟩, hok, hstarted, hclosing, hnoError, hcloses, hu, hconnected⟩ := hclosed
  have hflowing := h.flowing
  obtain ⟨-, -, -, hmsgs, hend, -⟩ := h.down_hears
  rw [← h.shared.process, hs, Process.state_running] at hmsgs hend
  rw [hs, Process.state_running] at hok hstarted hclosing
  rw [hs] at hflowing
  obtain ⟨r, hr, horderly⟩ := h.orderly
  -- The client has nothing in flight, so that it has half-closed the call, and the server has read
  -- it all.
  have hsend : s.sending = [] := by
    by_contra hsend
    exact hquiet (.near (.sent true ReaderWriter.idle)) rfl (h.allowed_near hs hsend trivial)
  obtain ⟨hended, hshut⟩ := ReaderWriter.Flowing.finished hflowing hok hclosing hsend
  have hreads : ∀ r : ServerReader.Read, r.success = true →
      ¬ c.up.Allowed toServer ReaderWriter.Step.Enabled ServerReader.Reads (.recv r) := by
    refine fun r hr ha => hquiet (.recv r) hr ⟨fun m hm => ?_, fun m hm => ?_⟩
    · obtain rfl := Option.some.inj hm
      exact ha
    · cases hm
  have honEnd : .onEnd ∈ c.up.receiver.state.trace :=
    h.up_hears.ended hreads (by rw [hs]; exact Option.isSome_iff_exists.mpr ⟨(), hshut⟩) hnoError
  -- Nor has the server, so that it has sent its status.
  have hcompletes :
      ¬ Pipe.CanTake ServerWriter.Step.Enabled c.down.sender (.complete true) := by
    refine fun hcan => hquiet (.send (.complete true)) rfl ⟨fun m hm => ?_, fun m hm => ?_⟩
    · cases hm
    · obtain rfl := Option.some.inj hm
      exact hcan
  obtain ⟨hhanded, first, -, hstatus⟩ := ServerWriter.finished_of_quiet h.down_sender h.serving
    hcompletes hcloses hu
  -- No read is in flight: it could complete with a message, or with the end.
  have hreading : s.reading = 0 := by
    by_contra hreading
    have hpos : 0 < s.reading := Nat.pos_of_ne_zero hreading
    cases hwire : c.down.wire with
    | nil =>
        exact hquiet (.near (.read true ⟨none⟩ (fun _ => .ret .OK) ReaderWriter.idle)) rfl
          (h.allowed_near hs hpos (.inr ⟨hwire, Option.isSome_iff_exists.mpr ⟨_, hstatus⟩⟩))
    | cons msg wire =>
        exact hquiet (.near (.read true ⟨some ⟨some msg⟩⟩ (fun _ => .ret .OK) ReaderWriter.idle))
          rfl (h.allowed_near hs hpos (congrArg List.head? hwire))
  have hreadingEnded : s.readingEnded = true :=
    ((ReaderWriter.Flowing.whole hflowing).reads rfl hok hstarted).resolve_right
      (by simp [hreading])
  have hdown : c.down.broken = false := h.shared.broken ▸ hconnected
  obtain ⟨hwire, -⟩ := (h.down_sound.ended (hend hok hreadingEnded)).resolve_left
    (by simp [hdown])
  rw [hr] at honEnd hnoError ⊢
  rw [hs] at horderly ⊢
  refine ⟨(horderly.heard_all honEnd hnoError hconnected).2, honEnd, fun hset => ?_,
    ⟨hreadingEnded, hended⟩, fun hgiven => ?_⟩
  · have hset : s.msgCb = true := hset
    rw [Process.state_running, hmsgs hok, if_pos hset]
    exact (h.down_sound.taken_eq hwire).trans hhanded
  · exact ReaderWriter.Flowing.heard hflowing hgiven hreadingEnded hended

/-- **Bidirectional streaming comes to its end.**  Wherever the call is, only so many completions
are to come, whatever they bring: but for two with every message that the callbacks write meanwhile.
And when none is left with which gRPC could report a success, and nothing has gone wrong, each side
has been handed everything that the other has written, and the end. -/
theorem bidi_completes (given : Bool) (clientStarts : List Bool) (final : Status) (started : Bool)
    (serverStarts : List Bool) (n : Nat) (ms : List Move)
    (h : Legal (new given clientStarts final started serverStarts n) ms) :
    let c := after (new given clientStarts final started serverStarts n) ms
    (∀ ms', Completes c ms' →
      ms'.length + 2 * written c ≤ remaining c + 2 * written (after c ms')) ∧
    (Duplex.Along toServer ReaderWriter.fromServer Undisturbed (fun _ _ => True)
        (new given clientStarts final started serverStarts n) ms →
      Quiet c → Closed c →
      Done given c.up.sender.state c.up.receiver.state c.down.sender.state) := by
  intro c
  refine ⟨fun ms' h' => ?_, fun hu hquiet hclosed => (run_flows h hu).done hquiet hclosed⟩
  -- The completions go on from a state that a run has led to.
  refine Duplex.length_amortized (J := fun c => ∃ ms,
      Legal (new given clientStarts final started serverStarts n) ms ∧
      c = after (new given clientStarts final started serverStarts n) ms)
    (ν := fun c => 2 * written c) ?_ ⟨ms, h, rfl⟩ h'.1 h'.2
  rintro _ m ⟨ms, hms, rfl⟩ hm hcompletes
  have hnext : Legal (new given clientStarts final started serverStarts n) (ms ++ [m]) :=
    Duplex.along_append.mpr ⟨hms, hm, trivial⟩
  have hafter : step (after (new given clientStarts final started serverStarts n) ms) m =
      after (new given clientStarts final started serverStarts n) (ms ++ [m]) :=
    (Duplex.after_append [m]).symm
  refine ⟨⟨ms ++ [m], hnext, hafter⟩, ?_⟩
  exact step_remaining (run_keeps hms) (hafter ▸ run_keeps hnext) hm hcompletes

/-- With nothing in flight the call is at rest. -/
theorem quiet_of_idle {c : Call} {s : ReaderWriter} {r : ServerReader} {w : ServerWriter}
    (hs : c.up.sender = .running s) (hr : c.up.receiver = .running r)
    (hw : c.down.sender = .running w) (hsend : s.sending = []) (hread : s.reading = 0)
    (hreading : r.reading = 0) (hsending : w.sending = []) : Quiet c := by
  rintro (l | r' | l | _) hsucceeds ⟨hup, hdown⟩
  · have hcan : Pipe.CanTake ReaderWriter.Step.Enabled c.up.sender l := hup _ rfl
    rw [hs] at hcan
    cases l with
    | call _ _ => cases hsucceeds
    | sent _ _ => exact hcan hsend
    | read _ _ _ _ => exact absurd hread (Nat.ne_of_gt hcan)
  · have hcan : Pipe.CanTake ServerReader.Reads c.up.receiver r' := (hup _ rfl).1
    rw [hr] at hcan
    exact absurd hreading (Nat.ne_of_gt hcan)
  · have hcan : Pipe.CanTake ServerWriter.Step.Enabled c.down.sender l := hdown _ rfl
    rw [hw] at hcan
    cases l with
    | complete success => exact hcan.2 hsending
    | _ => cases hsucceeds
  · cases hsucceeds

theorem bidi_completes_oneAnswer :
    let c := after (new true [] .OK true [] 1) oneAnswer
    Done true c.up.sender.state c.up.receiver.state c.down.sender.state := by
  refine (bidi_completes true [] .OK true [] 1 oneAnswer (by decide)).2 (by decide) ?_
    ⟨⟨_, rfl⟩, by decide, by decide, by decide, fun st hst => ?_, by decide, by decide, rfl⟩
  · exact quiet_of_idle rfl rfl rfl rfl rfl rfl rfl
  · have htrace : (after (new true [] .OK true [] 1) oneAnswer).up.receiver.state.trace =
        [.onMsgStr [1], .onEnd] := by decide
    rw [htrace] at hst
    simp at hst

end Bidi

end GrpcLua
