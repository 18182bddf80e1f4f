import GrpcLua.Client.Reader.Completions
import GrpcLua.Streams.ServerEnds

/-!
# Streams — Download

A server-streaming call as a whole.  At one end the threads of the server write to a
`ServerWriterImpl` and close it, at the other `ClientAsyncReaderImpl` hands on what it reads and
then the status.

Beside what it does for the messages, gRPC hands the client the status that the server has
submitted, when all messages have been read; and when the connection is lost, an error.
-/

namespace GrpcLua
open Prog Trace

/-! ### The client's end -/

namespace Reader

/-- What a step takes from the stream. -/
def Step.take : Step → Take Bytes
  | read true ⟨some ⟨some msg⟩⟩ _ _ => .msg msg
  | read true ⟨none⟩ _ _ => .ending
  | _ => .nothing

/-- A message that is taken is received. -/
theorem Step.took_taken {σ τ : Type} (c : Pipe σ τ Bytes) (l : Step) :
    (c.took l.take).taken = c.taken ++ l.received := by
  rcases l with _ | ⟨_ | _, ⟨_ | ⟨_ | msg⟩⟩, _, _⟩ | _ <;>
    first | rfl | exact (List.append_nil _).symm

/-- Where the stream ends, the client is told of it. -/
theorem Step.took_ended {σ τ : Type} (c : Pipe σ τ Bytes) {l : Step} (h : l.isEnd = true) :
    (c.took l.take).ended = true := by
  unfold isEnd at h
  split at h
  · rfl
  · cases h

end Reader

/-! ### The call -/

namespace Download

def link : Link ServerWriter ServerWriter.Step Reader Reader.Step Bytes Status :=
  ServerWriter.linkFrom Reader.Step.exec Reader.Step.take

abbrev Call := Pipe ServerWriter Reader Bytes
abbrev Move := Pipe.Move ServerWriter.Step Reader.Step

/-- The call at its start, with `n` threads of the server that may write.  `final` is the status
that the client will receive. -/
def new (serverStarts : List Bool) (n : Nat) (request : Bytes) (clientStarts : List Bool)
    (final : Status) : Call where
  sender := .running (ServerWriter.new serverStarts n)
  receiver := .running (Reader.new request clientStarts final)

abbrev after (c : Call) (ms : List Move) : Call := Pipe.after link c ms

/-- A status that the client receives is the one that the server has submitted, and then all
messages have been read; or the connection is lost, and it is an error. -/
def Final (c : Call) : Move → Prop
  | .recv (.recvStatus true _) =>
      ServerWriter.statusOf c.sender.state.trace = some c.receiver.state.final ∧ c.wire = [] ∨
      c.broken = true ∧ c.receiver.state.final.ok = false
  | _ => True

instance decidableFinal (c : Call) : (m : Move) → Decidable (Final c m)
  | .recv (.recvStatus true _) => inferInstanceAs (Decidable
      (ServerWriter.statusOf c.sender.state.trace = some c.receiver.state.final ∧ c.wire = [] ∨
        c.broken = true ∧ c.receiver.state.final.ok = false))
  | .recv (.recvStatus false _) => isTrue trivial
  | .recv (.call _ _) => isTrue trivial
  | .recv (.read _ _ _ _) => isTrue trivial
  | .send _ => isTrue trivial
  | .cut => isTrue trivial

abbrev Allowed (c : Call) (m : Move) : Prop :=
  c.Allowed link ServerWriter.Step.Enabled Reader.Step.Enabled m ∧ Final c m

/-- Every move of the run can be made. -/
abbrev Legal (c : Call) (ms : List Move) : Prop := Pipe.Along link Allowed c ms

/-- What the server has written and what the client has been told. -/
structure Orderly (w : ServerWriter) (r : Reader) : Prop where
  /-- The client hands on what the server has written, in order, as far as it came. -/
  msgs_prefix : Reader.msgs r.trace <+: accepted w.trace
  /-- An OK status is that of the server's first close call, its details cut at the first NUL; and
  then everything that was written has been handed on. -/
  complete : ∀ st ∈ Reader.statuses r.trace, st.ok = true →
    (∃ first, (ServerWriter.closes w.trace).head? = some first ∧
      st = ⟨first.code, cString first.details⟩) ∧
    (r.msgCb = true → Reader.msgs r.trace = accepted w.trace)

/-! ### What holds of the call -/

/-- The client's object has received what was taken, and an OK status that it has told is the one
that the server has submitted. -/
structure Hears (final : Status) (c : Call) : Prop where
  stands : ∃ r, c.receiver = .running r ∧ Reader.Stands final r c.taken
  told : ∀ st ∈ Reader.oks c.receiver.state.trace, Pipe.Drained link c st

/-- The client hears what the pipe brings, in order. -/
theorem hears_step {final : Status} {c : Call} {m : Move} (hsound : Pipe.Sound link c)
    (h : Hears final c) (hm : Allowed c m)
    (hstep : Pipe.Advances link ServerWriter.Inv (fun _ => ServerWriter.Lost) c
      (Pipe.step link c m)) : Hears final (Pipe.step link c m) := by
  obtain ⟨r, hr, hstands⟩ := h.stands
  cases m with
  | send l => exact ⟨⟨r, hr, hstands⟩, fun st hst => hstep.drained hsound (h.told st hst)⟩
  | cut => exact ⟨⟨r, hr, hstands⟩, fun st hst => hstep.drained hsound (h.told st hst)⟩
  | recv l =>
      have hl : Reader.Step.Enabled r l := by
        have hcan : Pipe.CanTake Reader.Step.Enabled c.receiver l := hm.1.1
        rwa [hr] at hcan
      have htold : ∀ st ∈ Reader.oks r.trace, Pipe.Drained link c st := by
        have := h.told
        rwa [hr] at this
      have hfinal : r.final = final := hstands.msgs.1
      -- The step goes on, and a new OK status is the final one.
      have hnext : ∃ r', Process.next Reader.Step.exec (.running r) l = .running r' ∧
          Reader.Stands final r' (c.taken ++ l.received) ∧
          (Reader.oks r'.trace = Reader.oks r.trace ∨ (∃ cb, l = .recvStatus true cb) ∧
            Reader.oks r'.trace = Reader.oks r.trace ++ [final].filter Status.ok) := by
        have hw := wp_and (Reader.step_goes hstands l hl) (Reader.step_oks l r)
        rw [hfinal] at hw
        refine Process.runs_next (wp_mono hw (fun _ _ h' => h') ?_)
        rintro e s' ⟨⟨rfl, hgoes⟩, hoks⟩
        exact ⟨hgoes, hoks⟩
      obtain ⟨r', hr', hstands', hoks⟩ := hnext
      have hreceiver : (Pipe.step link c (.recv l)).receiver = .running r' := by
        show Process.next Reader.Step.exec c.receiver l = _
        rw [hr, hr']
      refine ⟨⟨r', hreceiver, ?_⟩, ?_⟩
      · have htaken : (Pipe.step link c (.recv l)).taken = c.taken ++ l.received :=
          Reader.Step.took_taken c l
        rw [htaken]
        exact hstands'
      · rw [hreceiver]
        intro st hst
        refine hstep.drained hsound ?_
        rcases hoks with hoks | ⟨⟨cb, rfl⟩, hoks⟩
        · exact htold st (hoks ▸ hst)
        · rw [Process.state_running, hoks, List.mem_append] at hst
          rcases hst with hst | hst
          · exact htold st hst
          · obtain ⟨hst, hok⟩ := List.mem_filter.mp hst
            obtain rfl := List.mem_singleton.mp hst
            have hsubmitted : Final c (.recv (.recvStatus true cb)) := hm.2
            rw [Final, hr, Process.state_running, hfinal] at hsubmitted
            rcases hsubmitted with hdrained | ⟨-, herror⟩
            · exact hdrained
            · exact absurd (herror.symm.trans hok) (by simp)

/-- The invariant of the call. -/
structure Inv (final : Status) (c : Call) : Prop where
  sound : Pipe.Sound link c
  sender : Process.Holds ServerWriter.Inv (fun _ => ServerWriter.Lost) c.sender
  hears : Hears final c

/-- Every move keeps the invariant. -/
theorem step_keeps {final : Status} {c : Call} {m : Move} (h : Inv final c) (hm : Allowed c m) :
    Inv final (Pipe.step link c m) := by
  have hstep := h.sound.step ServerWriter.sends h.sender hm.1
  exact ⟨hstep.sound, hstep.sender, hears_step h.sound h.hears hm hstep⟩

/-- Nothing is in the pipe at first. -/
theorem Inv.new (serverStarts : List Bool) (n : Nat) (request : Bytes) (clientStarts : List Bool)
    (final : Status) : Inv final (new serverStarts n request clientStarts final) where
  sound := ⟨rfl, fun he => absurd he (by simp [Download.new])⟩
  sender := ServerWriter.Inv.new serverStarts n
  hears := ⟨⟨_, rfl, Reader.Stands.new request clientStarts final⟩, by simp [Download.new,
    Reader.new, Reader.oks, Reader.statuses]⟩

/-- The invariant holds wherever a run leads. -/
theorem run_keeps {serverStarts clientStarts : List Bool} {n : Nat} {request : Bytes}
    {final : Status} {ms : List Move}
    (h : Legal (new serverStarts n request clientStarts final) ms) :
    Inv final (after (new serverStarts n request clientStarts final) ms) :=
  Pipe.run_keeps (fun _ _ hc hm => step_keeps hc hm) (Inv.new ..) h

/-- What the invariant says of the two ends. -/
theorem Inv.orderly {final : Status} {c : Call} (h : Inv final c) :
    ∃ r, c.receiver = .running r ∧ Orderly c.sender.state r := by
  obtain ⟨r, hr, hstands⟩ := h.hears.stands
  obtain ⟨-, hmsgs, hset⟩ := hstands.msgs
  have hsender := ServerWriter.holds_handed h.sender
  refine ⟨r, hr, ?_, ?_⟩
  · rcases hmsgs with hmsgs | hmsgs
    · rw [hmsgs]
      exact List.nil_prefix
    · rw [hmsgs]
      exact h.sound.taken_prefix.trans hsender.1
  · intro st hst hok
    have hdrained : Pipe.Drained link c st := by
      refine h.hears.told st ?_
      rw [hr]
      exact List.mem_filter.mpr ⟨hst, hok⟩
    -- The status was submitted last, so that all that was accepted had been handed to gRPC.
    have hended := ServerWriter.ended_of_statusOf hdrained.1
    have hI := hsender.2 hended
    obtain ⟨b, hb, hstatus⟩ := ServerWriter.exists_of_statusOf hdrained.1
    refine ⟨hI.carried hb hstatus, fun hmsgCb => ?_⟩
    rw [hset hmsgCb, h.sound.taken_eq hdrained.2]
    exact hI.handed_all hended

/-- **Server streaming.**  In every interleaving of the server's threads and the client, whatever
gRPC refuses, whatever the callbacks do and whatever fails: the client hands on the messages that
were written, in order, as far as they came; and if it tells an OK status, that is the one the
server has closed with, and everything written has been handed on. -/
theorem download_orderly (serverStarts : List Bool) (n : Nat) (request : Bytes)
    (clientStarts : List Bool) (final : Status) (ms : List Move)
    (h : Legal (new serverStarts n request clientStarts final) ms) :
    ∃ r, (after (new serverStarts n request clientStarts final) ms).receiver = .running r ∧
      Orderly (after (new serverStarts n request clientStarts final) ms).sender.state r :=
  (run_keeps h).orderly

/-- A message is written and read, and the status follows when both are done. -/
def oneMessage : List Move :=
  let idle : Status → Reader.React := fun _ => .ret .OK
  let read (tag : CodRecvMsg) : Move := .recv (.read true tag (fun _ => .ret .OK) idle)
  [.recv (.call (.start true true) idle), .send (.call 0 (.syncWrite [1])), .send (.resume 0),
    .send (.call 1 (.asyncClose ⟨.ok, [7]⟩)), read ⟨some ⟨some [1]⟩⟩, .send (.resume 1),
    .send (.complete true), read ⟨none⟩, .recv (.recvStatus true idle)]

theorem download_orderly_oneMessage :
    ∃ r, (after (new [] 2 [] [] ⟨.ok, [7]⟩) oneMessage).receiver = .running r ∧
      Orderly (after (new [] 2 [] [] ⟨.ok, [7]⟩) oneMessage).sender.state r :=
  download_orderly [] 2 [] [] ⟨.ok, [7]⟩ oneMessage (by decide)

/-! ### Completion -/

/-- The move is a completion, of a message of the server or of a tag of the client. -/
def completes : Move → Bool
  | .send l => l.completes
  | .recv l => l.completes
  | .cut => false

/-- The completions that are to come. -/
def remaining (c : Call) : Nat :=
  c.sender.state.pending +
    (c.receiver.state.stage + ((accepted c.sender.state.trace).length - c.taken.length))

/-- A run of completions. -/
abbrev Completes (c : Call) (ms : List Move) : Prop :=
  Pipe.Along link (fun c m => Allowed c m ∧ completes m = true) c ms

/-- The completions with which gRPC reports a success. -/
def succeeds : Move → Bool
  | .send (.complete success) => success
  | .recv (.read success _ _ _) => success
  | .recv (.recvStatus success _) => success
  | _ => false

/-- There is no success left that gRPC could report. -/
def Quiet (c : Call) : Prop := ∀ m, succeeds m = true → ¬ Allowed c m

/-- The client's steps meet with no error, and its callbacks do not raise. -/
def Undisturbed (c : Call) : Move → Prop
  | .recv l => Reader.Succeeds c.receiver.state l
  | _ => True

instance decidableUndisturbed (c : Call) : (m : Move) → Decidable (Undisturbed c m)
  | .recv l => inferInstanceAs (Decidable (Reader.localError c.receiver.state l = none ∧
      Reader.Raises c.receiver.state l = false))
  | .send _ => isTrue trivial
  | .cut => isTrue trivial

/-- Both ends have been used to the end, and nothing has gone wrong: the client has started, the
server has closed, gRPC has taken all that the server handed it and keeps the status as it was
submitted, and the connection is not lost. -/
structure Closed (final : Status) (c : Call) : Prop where
  started : c.receiver.state.isStarted = true
  closed : ServerWriter.closes c.sender.state.trace ≠ []
  unfailed : ServerWriter.unfailed c.sender.state.trace = true
  connected : c.broken = false
  final : ∀ st, ServerWriter.statusOf c.sender.state.trace = some st → st = final

/-- The client has been told all that was written, and the status that the server closed with. -/
structure Done (w : ServerWriter) (r : Reader) : Prop where
  msgs : r.msgCb = true → Reader.msgs r.trace = accepted w.trace
  status : r.statusCb = true → ∃ first, (ServerWriter.closes w.trace).head? = some first ∧
    Reader.statuses r.trace = [⟨first.code, cString first.details⟩]

/-- The client takes no more than the server has written. -/
theorem Inv.taken_le {final : Status} {c : Call} (h : Inv final c) :
    c.taken.length ≤ (accepted c.sender.state.trace).length :=
  (h.sound.taken_prefix.trans (ServerWriter.holds_handed h.sender).1).length_le

/-- A completion leaves fewer to come. -/
theorem step_remaining {final : Status} {c : Call} {m : Move} (h : Inv final c)
    (hm : Allowed c m) (hcompletes : completes m = true) :
    remaining (Pipe.step link c m) < remaining c := by
  have hle := (step_keeps h hm).taken_le
  cases m with
  | cut => cases hcompletes
  | send l =>
      cases hc : c.sender with
      | stopped e w =>
          have hcan : Pipe.CanTake ServerWriter.Step.Enabled c.sender l := hm.1
          rw [hc] at hcan
          exact hcan.elim
      | running w =>
          have hcan : Pipe.CanTake ServerWriter.Step.Enabled c.sender l := hm.1
          rw [hc] at hcan
          have hsender : (Pipe.step link c (.send l)).sender.state =
              (Process.next ServerWriter.Step.exec (.running w) l).state := by
            show (Process.next ServerWriter.Step.exec c.sender l).state = _
            rw [hc]
          cases l with
          | complete success =>
              have hnext := Process.state_next (ServerWriter.complete_pending success hcan)
              rw [remaining, remaining, hsender, hc, hnext.2]
              exact Nat.add_lt_add_right hnext.1 _
          | _ => cases hcompletes
  | recv l =>
      have hsender : (Pipe.step link c (.recv l)).sender = c.sender :=
        (Pipe.took_ends c l.take).2.1
      obtain ⟨r, hr, hstands⟩ := h.hears.stands
      have hcan : Pipe.CanTake Reader.Step.Enabled c.receiver l := hm.1.1
      rw [hr] at hcan
      have htaken : (Pipe.step link c (.recv l)).taken = c.taken ++ l.received :=
        Reader.Step.took_taken c l
      have hstage := Process.state_next (J := fun r' : Reader => r'.stage < _)
        (Reader.step_stage hstands l hcan hcompletes)
      have hreceiver : (Pipe.step link c (.recv l)).receiver =
          Process.next Reader.Step.exec (.running r) l := by
        show Process.next Reader.Step.exec c.receiver l = _
        rw [hr]
      rw [hsender, htaken, List.length_append] at hle
      rw [remaining, remaining, hsender, hreceiver, htaken, hr, Process.state_running,
        List.length_append]
      omega

/-- What holds of an undisturbed call. -/
structure Flows (final : Status) (c : Call) : Prop extends Inv final c where
  serving : Process.Holds ServerWriter.Serving (fun _ _ => True) c.sender
  /-- The client is in a phase of its life without an error, and reads until the stream ends. -/
  phase : ∃ r args?, c.receiver = .running r ∧ Reader.Phase final r args? c.taken none ∧
    (r.isStarted = true → r.reading = 0 → c.ended = true)

/-- An undisturbed move keeps the call flowing. -/
theorem step_flows {final : Status} {c : Call} {m : Move} (h : Flows final c)
    (hm : Allowed c m ∧ Undisturbed c m) : Flows final (Pipe.step link c m) := by
  obtain ⟨hm, hundisturbed⟩ := hm
  refine ⟨step_keeps h.toInv hm, ?_, ?_⟩
  · exact Pipe.sender_step (fun _ l hs hl => ServerWriter.step_serving hs l hl) h.serving hm.1
  · obtain ⟨r, args?, hr, hphase, hends⟩ := h.phase
    cases m with
    | send l => exact ⟨r, args?, hr, hphase, hends⟩
    | cut => exact ⟨r, args?, hr, hphase, hends⟩
    | recv l =>
        have hl : Pipe.CanTake Reader.Step.Enabled c.receiver l := hm.1.1
        have hsucceeds : Reader.Succeeds c.receiver.state l := hundisturbed
        rw [hr] at hl hsucceeds
        obtain ⟨r', hr', hphase', hends'⟩ := Process.runs_next (wp_mono
          (wp_and (Reader.succeeds_phase hphase hl hsucceeds)
            (Reader.succeeds_reads hphase hl hsucceeds))
          (fun _ _ h' => h') fun _ _ h' => h'.1.elim)
        refine ⟨r', args?.or l.args, ?_, ?_, fun hs hzero => ?_⟩
        · show Process.next Reader.Step.exec c.receiver l = _
          rw [hr, hr']
        · show Reader.Phase final r' _ (c.took l.take).taken none
          rw [Reader.Step.took_taken]
          exact hphase'
        · rcases hends' hs hzero with hend | ⟨hs, hzero⟩
          · exact Reader.Step.took_ended c hend
          · exact Pipe.took_ended (hends hs hzero)

/-- An idle callback. -/
abbrev idle : Status → Reader.React := fun _ => .ret .OK

/-- A closed call that flows and comes to rest is done. -/
theorem Flows.done {final : Status} {c : Call} (h : Flows final c) (hquiet : Quiet c)
    (hclosed : Closed final c) : Done c.sender.state c.receiver.state := by
  obtain ⟨hstarted, hcloses, hu, hconnected, hfinal⟩ := hclosed
  obtain ⟨r, args?, hr, hphase, hends⟩ := h.phase
  have hstands : Reader.Stands final r c.taken := ⟨_, _, .inl hphase⟩
  obtain ⟨hrfinal, -, hmsgs⟩ := hstands.msgs
  rw [hr] at hstarted
  -- The server has nothing in flight, so that it has sent its status.
  obtain ⟨hhanded, first, hfirst, hshut⟩ := ServerWriter.finished_of_quiet h.sender h.serving
    (fun hcan => hquiet (.send (.complete true)) rfl ⟨hcan, trivial⟩) hcloses hu
  have hcan : ∀ l, Reader.Step.Enabled r l → Pipe.CanTake Reader.Step.Enabled c.receiver l :=
    fun l hl => hr ▸ hl
  -- The client has no read in flight: it could complete with a message, or with the end.
  have hreading : r.reading = 0 := by
    by_contra hreading
    have hpos : 0 < r.reading := Nat.pos_of_ne_zero hreading
    cases hwire : c.wire with
    | nil =>
        exact hquiet (.recv (.read true ⟨none⟩ (fun _ => .ret .OK) idle)) rfl
          ⟨⟨hcan _ hpos, .inr ⟨hwire, Option.isSome_iff_exists.mpr ⟨_, hshut⟩⟩⟩, trivial⟩
    | cons msg wire =>
        exact hquiet (.recv (.read true ⟨some ⟨some msg⟩⟩ (fun _ => .ret .OK) idle)) rfl
          ⟨⟨hcan _ hpos, congrArg List.head? hwire⟩, trivial⟩
  obtain ⟨hwire, -⟩ := (h.sound.ended (hends hstarted hreading)).resolve_left (by simp [hconnected])
  -- Nor does it wait for the status, which could be received.
  have hrecv : r.receiving = [] := by
    by_contra hrecv
    refine hquiet (.recv (.recvStatus true idle)) rfl ⟨⟨hcan _ hrecv, trivial⟩, .inl ⟨?_, hwire⟩⟩
    rw [hshut, hfinal _ hshut, hr, Process.state_running, hrfinal]
  rw [hr]
  refine ⟨fun hset => ?_, fun hset => ⟨first, hfirst, ?_⟩⟩
  · exact (hmsgs hset).trans ((h.sound.taken_eq hwire).trans hhanded)
  · rw [hfinal _ hshut]
    exact hphase.finished hstarted hreading hrecv hset

/-- **Server streaming comes to its end.**  Wherever the call is, only so many completions are to
come, whatever they bring and whatever the callbacks do; and when none is left with which gRPC could
report a success, an undisturbed client has been told everything that was written, and the
status. -/
theorem download_completes (serverStarts : List Bool) (n : Nat) (request : Bytes)
    (clientStarts : List Bool) (final : Status) (ms : List Move)
    (h : Legal (new serverStarts n request clientStarts final) ms) :
    (∀ ms', Completes (after (new serverStarts n request clientStarts final) ms) ms' →
      ms'.length ≤ remaining (after (new serverStarts n request clientStarts final) ms)) ∧
    (Pipe.Along link Undisturbed (new serverStarts n request clientStarts final) ms →
      Quiet (after (new serverStarts n request clientStarts final) ms) →
      Closed final (after (new serverStarts n request clientStarts final) ms) →
      Done (after (new serverStarts n request clientStarts final) ms).sender.state
        (after (new serverStarts n request clientStarts final) ms).receiver.state) := by
  constructor
  · intro ms' h'
    exact Pipe.length_le (fun c m hc hm => ⟨step_keeps hc hm.1, step_remaining hc hm.1 hm.2⟩)
      (run_keeps h) h'
  · intro hundisturbed hquiet hclosed
    have hnew : Flows final (new serverStarts n request clientStarts final) :=
      { Inv.new serverStarts n request clientStarts final with
        serving := .new serverStarts n
        phase := ⟨_, none, rfl, .fresh rfl rfl rfl rfl rfl rfl, fun hs => absurd hs (by
          simp [Reader.new])⟩ }
    have hflows : Flows final (after (new serverStarts n request clientStarts final) ms) :=
      Pipe.run_keeps (fun _ _ hc hm => step_flows hc hm) hnew (h.and hundisturbed)
    exact hflows.done hquiet hclosed

/-- With nothing in flight the call is at rest. -/
theorem quiet_of_idle {c : Call} {w : ServerWriter} {r : Reader} (hw : c.sender = .running w)
    (hr : c.receiver = .running r) (hsend : w.sending = []) (hreading : r.reading = 0)
    (hrecv : r.receiving = []) : Quiet c := by
  rintro (l | l | _) hsucceeds ⟨hm, -⟩
  · have hcan : Pipe.CanTake ServerWriter.Step.Enabled c.sender l := hm
    rw [hw] at hcan
    cases l with
    | complete success => exact hcan.2 hsend
    | _ => cases hsucceeds
  · have hcan : Pipe.CanTake Reader.Step.Enabled c.receiver l := hm.1
    rw [hr] at hcan
    cases l with
    | call _ _ => cases hsucceeds
    | read _ _ _ _ => exact absurd hreading (Nat.ne_of_gt hcan)
    | recvStatus _ _ => exact hcan hrecv
  · cases hsucceeds

theorem download_completes_oneMessage :
    Done (after (new [] 2 [] [] ⟨.ok, [7]⟩) oneMessage).sender.state
      (after (new [] 2 [] [] ⟨.ok, [7]⟩) oneMessage).receiver.state := by
  refine (download_completes [] 2 [] [] ⟨.ok, [7]⟩ oneMessage (by decide)).2 (by decide) ?_
    ⟨by decide, by decide, by decide, rfl, fun st hst => ?_⟩
  · exact quiet_of_idle rfl rfl rfl rfl rfl
  · have hstatus : ServerWriter.statusOf
        (after (new [] 2 [] [] ⟨.ok, [7]⟩) oneMessage).sender.state.trace = some ⟨.ok, [7]⟩ := by
      decide
    exact (Option.some.inj (hstatus.symm.trans hst)).symm

end Download

end GrpcLua
