import GrpcLua.Client.Reader.Runs
import GrpcLua.Client.ReaderWriter.Messages
import GrpcLua.Client.Responses

/-!
# Client — Decoding

The strings that a Lua client receives through `async_request`, `async_request_read` and the
`read_each` of a bidirectional stream, and the messages that the user is called with.  On all three
paths the wrapped callback of `MsgCbWrapper` stands between, and what it does not return no status
can tell (`reported_iff`).
-/

namespace GrpcLua
open Prog MsgCbWrapper

variable {Msg : Type} {decode : Bytes → Bytes → Option Msg} {msgType : Bytes} {given : Bool}

/-! ### The asynchronous request -/

namespace AsyncCall

/-- The strings handed to the response callback. -/
def strings (tr : List (Event Cb)) : List Bytes :=
  tr.filterMap fun | .called (.responseCb resp) => some resp | _ => none

/-- The errors told to the error callback. -/
def errors (tr : List (Event Cb)) : List Status :=
  tr.filterMap fun | .called (.errorCb status) => some status | _ => none

@[simp] theorem strings_append (tr tr' : List (Event Cb)) :
    strings (tr ++ tr') = strings tr ++ strings tr' := List.filterMap_append

@[simp] theorem errors_append (tr tr' : List (Event Cb)) :
    errors (tr ++ tr') = errors tr ++ errors tr' := List.filterMap_append

/-- `async_request(method_name, request, response_cb)` with a response callback: the tag of the
wrapped callback. -/
def new {ω : Type} (decode : Bytes → Bytes → Option Msg) (msgType : Bytes)
    (responseCb : Msg → Reaction ω Status Status) (errorCb : Option (Status → Option Unit))
    (starts : List Bool) : AsyncCall where
  responseCb := some fun resp => (wrapLuaMsgCb decode msgType responseCb resp).answer
  errorCb := errorCb
  starts := starts
  final := .OK
  trace := []

/-- The request, and the completion of its batch where gRPC takes it. -/
def call (request : Bytes) (o : Outcome) : M Unit := do
  let s ← get
  asyncRequest request
  if s.starts.headD true then doComplete o.success o.tag o.cod else pure ()

/-- The status that `DoComplete()` ends with once there is a response: that of `response_cb_`,
unless it raises. -/
def status (s : AsyncCall) : Status :=
  (((strings s.trace).getLast?.bind fun resp => s.responseCb.bind fun k => k resp)).getD .OK

/-- The string that is received. -/
def received (starts : List Bool) (o : Outcome) : Option Bytes :=
  if starts.headD true then o.response else none

/-- What the request comes to: its strings, and the callback that they are handed to. -/
abbrev handing (s : AsyncCall) : List Bytes × Option (Bytes → Option Status) :=
  (strings s.trace, s.responseCb)

/-- An error hands on no string. -/
theorem callErrorCb_silent (st : Status) : Spares handing (callErrorCb st) := by
  refine .bind .get fun s => ?_
  cases s.errorCb with
  | none => exact .pure
  | some k =>
      refine .bind (fun s' => ?_) fun _ => ?_
      · rw [wp_emit, env_eq, setEnv_eq, handing, strings_append]
        exact congrArg (·, s'.responseCb) (List.append_nil _)
      · cases k st with
        | none => exact fun _ => rfl
        | some _ => exact .pure

section call
variable {ω : Type} (responseCb : Msg → Reaction ω Status Status)
  (errorCb : Option (Status → Option Unit)) (starts : List Bool) (request : Bytes) (o : Outcome)

/-- The string that is received is handed on to the callback. -/
theorem call_hands :
    wp (call request o)
      (fun _ s' => handing s' = ((received starts o).toList,
        some fun resp => (wrapLuaMsgCb decode msgType responseCb resp).answer))
      (fun _ s' => handing s' = ((received starts o).toList,
        some fun resp => (wrapLuaMsgCb decode msgType responseCb resp).answer))
      (new decode msgType responseCb errorCb starts) := by
  -- Without a response there is nothing to decode, and what goes wrong is told by a status.
  have hnone : ∀ {s : AsyncCall} {st : Status}, handing s = ([],
      some fun resp => (wrapLuaMsgCb decode msgType responseCb resp).answer) →
      received starts o = none →
      wp (callErrorCb st)
        (fun _ s' => handing s' = ((received starts o).toList,
          some fun resp => (wrapLuaMsgCb decode msgType responseCb resp).answer))
        (fun _ s' => handing s' = ((received starts o).toList,
          some fun resp => (wrapLuaMsgCb decode msgType responseCb resp).answer)) s := by
    intro s st hs hr
    rw [hr]
    exact (callErrorCb_silent st).wp (fun _ _ h => h.trans hs) fun _ _ h => h.trans hs
  simp only [call, asyncRequest, new, wp_bind, wp_get, wp_startBatch, wp_ite, wp_pure, env_eq,
    setEnv_eq, List.nil_append]
  by_cases hstart : starts.headD true = true
  case neg =>
    have hr : received starts o = none := if_neg hstart
    simp only [if_neg hstart]
    exact hnone rfl hr
  have hr : received starts o = o.response := if_pos hstart
  rw [if_pos hstart, if_pos hstart]
  simp only [doComplete, wp_bind, wp_ite]
  cases hs : o.success with
  | false =>
      rw [if_pos (by simp)]
      exact hnone rfl (by simp [hr, Outcome.response, hs])
  | true =>
      rw [if_neg (by simp)]
      refine wp_getResponse (fun hb => ?_) fun st msg hb hm => ?_
      · have hr' : received starts o = none := by simp [hr, Outcome.response, hs, hb.1, hb.2]
        rw [hr']
        rfl
      have hresponse := hr.trans (hm.response hs)
      by_cases hst : st.ok = true
      case neg =>
        rw [if_pos (by simp [hst])]
        exact hnone rfl (by rw [hresponse, if_neg hst])
      rw [if_neg (by simp [hst])]
      rw [if_pos hst] at hresponse
      simp only [wp_get, wp_bind, wp_emit, env_eq, setEnv_eq, hresponse]
      -- The wrapped callback answers nil or with no string, and either is no error.
      rcases wrapLuaMsgCb_answer decode msgType responseCb msg with ha | ha
      all_goals
        rw [ha]
        rfl

/-- The wrapped callback makes no error of the response. -/
theorem status_of_handing {s : AsyncCall} {resps : List Bytes} (h : handing s = (resps,
    some fun resp => (wrapLuaMsgCb decode msgType responseCb resp).answer)) : s.status = .OK := by
  obtain ⟨hstrings, hcb⟩ := Prod.mk.inj h
  rw [status, hstrings, hcb]
  cases resps.getLast? with
  | none => rfl
  | some resp =>
      rw [Option.bind_some, Option.bind_some]
      show (wrapLuaMsgCb decode msgType responseCb resp).answer.getD .OK = .OK
      rcases wrapLuaMsgCb_answer decode msgType responseCb resp with ha | ha <;> rw [ha] <;> rfl

/-- The string of a request is reported exactly if it can be decoded. -/
theorem call_reports :
    let s := endState (call request o) (new decode msgType responseCb errorCb starts)
    MsgCbWrapper.Reports decode msgType errorCb.isSome (strings s.trace) s.status
        (errors s.trace) ↔
      ∀ b ∈ received starts o, Decodes decode msgType b := by
  have hhands : wp (call request o) _ _ (new decode msgType responseCb errorCb starts) :=
    call_hands responseCb errorCb starts request o
  have hend := endState_of_wp hhands
  intro s
  rw [status_of_handing responseCb hend, show strings s.trace = _ from congrArg Prod.fst hend]
  constructor
  · intro h b hb
    by_contra hnot
    have hstatus := (h.error ⟨b, by simpa using hb, hnot⟩).status
    exact absurd (congrArg Status.ok hstatus) (by simp [Status.internalError, Status.OK, Status.ok])
  · exact fun h => .of_decodes (by simpa using h) _ _

end call

end AsyncCall

/-! ### The readers of server-side streams -/

namespace Reader

variable {s : Reader} {final : Status}

/-- The string that the step hands to `msg_cb_`, if any. -/
def Step.hands (l : Step) : Option Bytes := l.received.head?

theorem Step.hands_toList (l : Step) : l.hands.toList = l.received := by
  unfold hands received
  split <;> rfl

theorem Step.hands_eq_some {l : Step} {msg : Bytes} (h : l.hands = some msg) :
    ∃ onMsg cb, l = read true ⟨some ⟨some msg⟩⟩ onMsg cb := by
  unfold hands received at h
  split at h
  · cases h
    exact ⟨_, _, rfl⟩
  · exact absurd h (by simp)

/-- The step calls `Start()` with a message callback, and with a status callback if one is `given`;
its message callback is a wrapped one. -/
def Step.Wrapped (decode : Bytes → Bytes → Option Msg) (msgType : Bytes) (given : Bool) :
    Step → Prop
  | call c _ => c = .start true given
  | read _ _ onMsg _ => ∃ msgCb : Msg → React, onMsg = wrapLuaMsgCb decode msgType msgCb
  | recvStatus _ _ => True

/-- The string that the step hands on can be decoded. -/
def Step.Decodes (decode : Bytes → Bytes → Option Msg) (msgType : Bytes) (l : Step) : Prop :=
  ∀ b ∈ l.hands, MsgCbWrapper.Decodes decode msgType b

instance Step.Decodes.decidable (decode : Bytes → Bytes → Option Msg) (msgType : Bytes) (l : Step) :
    Decidable (Step.Decodes decode msgType l) :=
  inferInstanceAs (Decidable (∀ b ∈ l.hands, MsgCbWrapper.Decodes decode msgType b))

/-- What has come of the strings so far. -/
abbrev Reports (decode : Bytes → Bytes → Option Msg) (msgType : Bytes) (given : Bool) (s : Reader) :
    Prop :=
  MsgCbWrapper.Reports decode msgType given (msgs s.trace) s.status (statuses s.trace)

/-- The object is in one of its phases, with the callbacks of `Step.Wrapped`, or a callback has
raised. -/
def Opened (given : Bool) (final : Status) (s : Reader) : Prop :=
  ∃ args? received error, (∀ args, args? = some args → args = (true, given)) ∧
    (Phase final s args? received error ∨
      ∃ args, args? = some args ∧ Halted args received error final s)

theorem Phase.msgs {args? : Option (Bool × Bool)} {received : List Bytes} {error : Option Status}
    (h : Phase final s args? received error)
    (hargs : ∀ args, args? = some args → args = (true, given)) : msgs s.trace = received := by
  cases h with
  | fresh hs hok hreading hrecv hfinal htr => rw [htr]; rfl
  | reading h hok hcb hreading hrecv hst => rw [h.msgs, hargs _ rfl]; rfl
  | receiving h hreading hrecv hst => rw [h.msgs, hargs _ rfl]; rfl
  | ended h hreading hrecv hst => rw [h.msgs, hargs _ rfl]; rfl

/-- A step hands on its own string and no other. -/
theorem step_opened (h : Opened given final s) (l : Step) (hl : Step.Enabled s l)
    (hw : l.Wrapped decode msgType given) :
    wp l.exec
      (fun _ s' => Opened given final s' ∧ msgs s'.trace = msgs s.trace ++ l.hands.toList)
      (fun _ s' => Opened given final s' ∧ msgs s'.trace = msgs s.trace ++ l.hands.toList) s := by
  obtain ⟨args?, received, error, hargs, hphase | ⟨args, rfl, hhalted⟩⟩ := h
  · -- The reader is in one of its phases, or a callback has raised and it will do nothing more.
    rw [hphase.msgs hargs, Step.hands_toList]
    have hnext : ∀ {args?' : Option (Bool × Bool)} {received' : List Bytes}
        {error' : Option Status} {s' : Reader},
        (∀ args, args?' = some args → args = (true, given)) →
        Phase final s' args?' received' error' →
        Opened given final s' ∧ Reader.msgs s'.trace = received' :=
      fun hargs' h' => ⟨⟨_, _, _, hargs', .inl h'⟩, h'.msgs hargs'⟩
    cases l with
    | call c cb =>
        have hnone : (Step.call c cb).received = [] := rfl
        have hargs' : ∀ args, args?.or (Step.call c cb).args = some args →
            args = (true, given) := by
          intro args h'
          rcases Option.or_eq_some_iff.mp h' with h' | ⟨-, h'⟩
          · exact hargs args h'
          · rw [show c = .start true given from hw] at h'
            cases h'
            rfl
        rw [hnone, List.append_nil]
        exact wp_mono (call_phase hphase c cb) (fun _ _ h' => hnext hargs' h'.2)
          fun _ _ h' => hnext hargs' h'.2.2
    | read success tag onMsg cb =>
        refine wp_mono (read_phase hphase success tag onMsg cb hl)
          (fun _ _ h' => hnext hargs h'.2) ?_
        rintro _ s' ⟨-, -, args, rfl, h'⟩
        refine ⟨⟨_, _, _, hargs, .inr ⟨args, rfl, h'⟩⟩, ?_⟩
        rw [h'.msgs, hargs args rfl]
        rfl
    | recvStatus success cb =>
        have hnone : (Step.recvStatus success cb).received = [] := rfl
        rw [hnone, List.append_nil]
        exact wp_mono (recvStatus_phase hphase success cb hl) (fun _ _ h' => hnext hargs h'.2)
          fun _ _ h' => hnext hargs h'.2.2
  · cases l with
    | read success tag onMsg cb =>
        exact absurd hl (by simp [Step.Enabled, hhalted.reading])
    | recvStatus success cb => exact absurd hhalted.receiving hl
    | call c cb =>
        have hopen : Opened given final s := ⟨_, _, _, hargs, .inr ⟨args, rfl, hhalted⟩⟩
        have hidle := comes_started hhalted.started c cb (P := fun s' => s' = s) rfl
        refine wp_mono hidle ?_ ?_
        · rintro _ s' ⟨-, rfl⟩
          exact ⟨hopen, (List.append_nil _).symm⟩
        · rintro _ s' ⟨-, -, rfl⟩
          exact ⟨hopen, (List.append_nil _).symm⟩

/-- The status of a stream whose next read is refused. -/
def readError : Status := .internalError (str "Failed to async read server-side streaming.")

/-- After a string that is answered OK, the only error is that of the next read. -/
theorem read_status (h : Opened given final s) {bytes : Bytes} {onMsg : Bytes → React}
    {cb : Status → React} (hl : 0 < s.reading) (hok : onMsg bytes = .ret .OK) :
    wp (Step.exec (.read true ⟨some ⟨some bytes⟩⟩ onMsg cb))
      (fun _ s' => s'.status.ok = true ∨ s'.status = readError)
      (fun _ s' => s'.status.ok = true ∨ s'.status = readError) s := by
  obtain ⟨args?, received, error, hargs, hphase | ⟨args, -, hhalted⟩⟩ := h
  case inr => exact absurd hl (by simp [hhalted.reading])
  -- Only a reader with a read in flight completes one.
  cases hphase with
  | fresh _ _ hreading _ _ _ => exact absurd hl (by simp [hreading])
  | receiving _ hreading _ _ => exact absurd hl (by simp [hreading])
  | ended _ hreading _ _ => exact absurd hl (by simp [hreading])
  | @reading args received h hs hcb hreading hrecv hst =>
      have hset : s.msgCb = true := by rw [h.msgCb, hargs _ rfl]
      rw [wp_read_message h.started hs, if_pos hset, hok]
      show wp (ite _ _ _) _ _ _
      rw [if_neg (by simp)]
      simp only [readNext, wp_bind, wp_check, wp_startBatch, wp_ite, wp_modify, env_eq, setEnv_eq]
      rw [if_pos (by simp)]
      split
      · exact .inl rfl
      · -- The next read may be refused.
        refine (wp_callStatusCb (by exact h.started)).mpr ?_
        split
        · cases (cb (.internalError (str "Failed to async read server-side streaming."))).answer
            with
          | none => exact .inr rfl
          | some a => exact .inr rfl
        · exact .inr rfl

/-- The strings of a stream are reported exactly as long as each of them can be decoded. -/
theorem run_reports (request : Bytes) (starts : List Bool) (final : Status) {ls : List Step}
    (h : Legal (new request starts final) ls) (hw : ∀ l ∈ ls, l.Wrapped decode msgType given) :
    (∀ pre, pre <+: ls → Reports decode msgType given
        (after (new request starts final) pre).state) ↔
      Process.Along Step.exec (fun _ l => l.Decodes decode msgType)
        (.running (new request starts final)) ls := by
  refine reports_along_iff (fun s : Reader => msgs s.trace) (fun s => s.status)
    (fun s => statuses s.trace) (I := Opened given final)
    (A := fun s l => Step.Enabled s l ∧ l.Wrapped decode msgType given)
    (fun s l hI hl => step_opened hI l hl.1 hl.2) ?_ ?_ rfl (h.and (.of_forall hw))
  · rintro s l b hI ⟨hl, hwrap⟩ hb hdec
    -- The wrapped callback answers OK, and only the next read can fail.
    obtain ⟨onMsg, cb, rfl⟩ := Step.hands_eq_some hb
    obtain ⟨msgCb, rfl⟩ := hwrap
    have hother : ∀ s' : Reader, s'.status.ok = true ∨ s'.status = readError →
        ¬ EndsInError msgType given s'.status (statuses s'.trace) := by
      rintro s' (hok | he) ⟨hstatus, -⟩
      · rw [hstatus] at hok
        exact absurd hok (by simp [Status.internalError, Status.ok])
      · exact errStr_ne msgType (by decide) (congrArg Status.details (hstatus.symm.trans he))
    exact wp_mono (read_status hI hl (wrapLuaMsgCb_undecoded decode msgType msgCb hdec))
      (fun _ => hother) fun _ => hother
  · exact ⟨none, [], none, by simp, .inl (.fresh rfl rfl rfl rfl rfl rfl)⟩

end Reader

/-! ### The three paths -/

/-- **Decoding.**  On all three paths the user hears the messages before the first string that
cannot be decoded and the call ends with its error, whatever comes and whatever gRPC refuses,
exactly if there is no such string. -/
theorem reported_iff (decode : Bytes → Bytes → Option Msg) (msgType : Bytes) :
    (∀ (ω : Type) (responseCb : Msg → Reaction ω Status Status)
        (errorCb : Option (Status → Option Unit)) (starts : List Bool) (request : Bytes)
        (o : Outcome),
      let s := endState (AsyncCall.call request o)
        (AsyncCall.new decode msgType responseCb errorCb starts)
      Reports decode msgType errorCb.isSome (AsyncCall.strings s.trace) s.status
          (AsyncCall.errors s.trace) ↔
        ∀ b ∈ AsyncCall.received starts o, Decodes decode msgType b) ∧
    (∀ (given : Bool) (request : Bytes) (starts : List Bool) (final : Status)
        (ls : List Reader.Step), Reader.Legal (.new request starts final) ls →
      (∀ l ∈ ls, l.Wrapped decode msgType given) →
      ((∀ pre, pre <+: ls →
          Reader.Reports decode msgType given
            (Reader.after (.new request starts final) pre).state) ↔
        Process.Along Reader.Step.exec (fun _ l => l.Decodes decode msgType)
          (.running (.new request starts final)) ls)) ∧
    ∀ (given : Bool) (starts : List Bool) (final : Status) (ls : List ReaderWriter.Step),
      ReaderWriter.Legal (.new given starts final) ls → (∀ l ∈ ls, l.Wrapped decode msgType) →
      ((∀ pre, pre <+: ls → ReaderWriter.Reports decode msgType given
          (ReaderWriter.after (.new given starts final) pre).state) ↔
        Process.Along ReaderWriter.Step.exec (ReaderWriter.Step.Decodes decode msgType)
          (.running (.new given starts final)) ls) :=
  ⟨fun _ responseCb errorCb starts request o =>
      AsyncCall.call_reports responseCb errorCb starts request o,
    fun _ request starts final _ h hw => Reader.run_reports request starts final h hw,
    fun _ starts final _ h hw => ReaderWriter.run_reports starts final h hw⟩

/-- A decoder that takes every string but one. -/
def decodeMost (_msgType : Bytes) (b : Bytes) : Option Bytes := if b = [255] then none else some b

/-- Two messages, then the end of the stream and the final status. -/
def Reader.messagesRun (first second : Bytes) : List Reader.Step :=
  [.call (.start true true) fun _ => .ret .OK,
    .read true ⟨some ⟨some first⟩⟩ (wrapLuaMsgCb decodeMost [77] fun _ => .ret .OK)
      fun _ => .ret .OK,
    .read true ⟨some ⟨some second⟩⟩ (wrapLuaMsgCb decodeMost [77] fun _ => .ret .OK)
      fun _ => .ret .OK,
    .read true ⟨none⟩ (wrapLuaMsgCb decodeMost [77] fun _ => .ret .OK) fun _ => .ret .OK,
    .recvStatus true fun _ => .ret .OK]

/-- The same on a bidirectional stream whose writing is closed. -/
def ReaderWriter.messagesRun (first second : Bytes) : List ReaderWriter.Step :=
  [.call (.readEach true) fun _ => .ret .OK, .call .closeWriting fun _ => .ret .OK,
    .read true ⟨some ⟨some first⟩⟩ (wrapLuaMsgCb decodeMost [77] fun _ => .ret .OK)
      fun _ => .ret .OK,
    .read true ⟨some ⟨some second⟩⟩ (wrapLuaMsgCb decodeMost [77] fun _ => .ret .OK)
      fun _ => .ret .OK,
    .read true ⟨none⟩ (wrapLuaMsgCb decodeMost [77] fun _ => .ret .OK) fun _ => .ret .OK]

/-- A request whose response is `resp`, with an error callback. -/
def AsyncCall.responseRun (resp : Bytes) : AsyncCall :=
  endState (AsyncCall.call [] ⟨true, ⟨some ⟨some resp⟩⟩, {}⟩)
    (AsyncCall.new decodeMost [77] (fun _ => (.ret .OK : Reaction Unit Status Status))
      (some fun _ => some ()) [])

/-- A string that cannot be decoded is skipped: the message after it is heard, and the status is
OK.  Of a response that cannot be decoded nobody is told. -/
theorem not_reported :
    ¬ Reports decodeMost [77] true (AsyncCall.strings (AsyncCall.responseRun [255]).trace)
      (AsyncCall.responseRun [255]).status (AsyncCall.errors (AsyncCall.responseRun [255]).trace) ∧
    ¬ Reader.Reports decodeMost [77] true
      (Reader.after (.new [] [] .OK) (Reader.messagesRun [255] [8, 1])).state ∧
    ¬ ReaderWriter.Reports decodeMost [77] true
      (ReaderWriter.after (.new true [] .OK) (ReaderWriter.messagesRun [255] [8, 1])).state ∧
    Reader.statuses (Reader.after (.new [] [] .OK)
      (Reader.messagesRun [255] [8, 1])).state.trace = [.OK] := by
  refine ⟨fun h => ?_, fun h => ?_, fun h => ?_, rfl⟩
  · exact absurd (h.error ⟨[255], by decide, by decide⟩).status (by decide)
  · exact absurd h.heard (by decide)
  · exact absurd h.heard (by decide)

theorem reported_iff_messagesRun :
    Reports decodeMost [77] true (AsyncCall.strings (AsyncCall.responseRun [8, 1]).trace)
      (AsyncCall.responseRun [8, 1]).status
      (AsyncCall.errors (AsyncCall.responseRun [8, 1]).trace) ∧
    (∀ pre, pre <+: Reader.messagesRun [8, 1] [8, 2] → Reader.Reports decodeMost [77] true
      (Reader.after (.new [] [] .OK) pre).state) ∧
    ∀ pre, pre <+: ReaderWriter.messagesRun [8, 1] [8, 2] →
      ReaderWriter.Reports decodeMost [77] true
      (ReaderWriter.after (.new true [] .OK) pre).state := by
  obtain ⟨hcall, hreader, hreaderWriter⟩ := reported_iff decodeMost [77]
  refine ⟨(hcall Unit (fun _ => .ret .OK) (some fun _ => some ()) [] [] _).mpr (by decide),
    (hreader true [] [] .OK _ (by decide) ?_).mpr (by decide),
    (hreaderWriter true [] .OK _ (by decide) ?_).mpr (by decide)⟩
  · simp [Reader.messagesRun, Reader.Step.Wrapped]
  · simp [ReaderWriter.messagesRun, ReaderWriter.Step.Wrapped]

end GrpcLua
