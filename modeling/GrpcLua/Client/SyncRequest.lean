import GrpcLua.Client.Decoding
import GrpcLua.Pb.Lossless

/-!
# Client — SyncRequest

What Lua gets of a unary call: `ServiceStub:sync_request` of `ServiceStub.lua`, over `SyncRequest`
of `BindServiceStub.cpp`, and beside it the callbacks of `ServiceStub:async_request`.

The C++ function returns three strings, where its comments say nil; an empty string is a value to
Lua, and it is decoded like a response (`documented_iff`).
-/

namespace GrpcLua
open Prog MsgCbWrapper

/-! ### Numbers as strings -/

/-- The value of a `grpc_status_code`. -/
def StatusCode.number (c : StatusCode) : Nat := c.ctorIdx

/-- `std::to_string(n)`. -/
def toDecimal (n : Nat) : Bytes := (Nat.toDigits 10 n).map fun c => c.toUInt8

/-- `tonumber(s)` of a string of digits. -/
def toNumber (s : Bytes) : Option Nat :=
  if s ≠ [] ∧ s.all (fun b => 48 ≤ b && b ≤ 57) = true then
    some (s.foldl (fun n b => 10 * n + (b.toNat - 48)) 0)
  else none

@[simp] theorem toNumber_toDecimal (c : StatusCode) :
    toNumber (toDecimal c.number) = some c.number := by
  cases c <;> rfl

theorem StatusCode.number_eq_zero {c : StatusCode} : c.number = 0 ↔ c = .ok := by
  cases c <;> decide

/-! ### The synchronous request -/

namespace SyncRequest
variable {Msg : Type} (decode : Bytes → Bytes → Option Msg) (responseType : Bytes)

/-- What `sync_request` returns: `response`, `error_str` and `tonumber(status_code)`. -/
structure Results (Msg : Type) where
  response : Option Msg
  errorStr : Option Bytes
  statusCode : Option Nat
  deriving DecidableEq, Repr

/-- The tuple of `SyncRequest()`, made of the status and the response of the call.  The elements are
strings; none is nil. -/
def makeTuple (status : Status) (sResponse : Bytes) : Bytes × Bytes × Bytes :=
  if status.ok then (sResponse, str "", toDecimal status.code.number)
  else (str "", status.details, toDecimal status.code.number)

/-- `decode_response(response_type, response_str)`. -/
def decodeResponse (responseStr : Option Bytes) : Option Msg :=
  match responseStr with
  | none => none
  | some responseStr => decode responseType responseStr

/-- `ServiceStub:sync_request(method_name, request)`, from the encoded request on. -/
def syncRequest (request : Bytes) (tag : CodRecvMsg) (cod : CodClientRecvStatus) :
    EStateM Exit ServiceStub (Results Msg) := do
  ServiceStub.syncRequest request [] tag cod
  let s ← get
  let (status, sResponse) := (returned s.trace).getLastD (.OK, [])
  let (responseStr, errorStr, statusCode) := makeTuple status sResponse
  let response := decodeResponse decode responseType (some responseStr)
  pure ⟨response, some errorStr, toNumber statusCode⟩

/-- The results as they are documented, where `msg` is what was received and decoded. -/
structure Documented (msg : Option Msg) (r : Results Msg) : Prop where
  response : r.response = msg
  failure : msg = none → r.errorStr.isSome ∧ ∃ n, r.statusCode = some n ∧ n ≠ 0

/-- The results say what `async_request` has told the callbacks: one message, or one error.  The
texts differ where gRPC does not take the batch. -/
structure Agrees (starts : List Bool) (r : Results Msg) (heard : List Msg) (errors : List Status) :
    Prop where
  heard : heard = r.response.toList
  codes : errors.map (fun st => some st.code.number) =
    if r.response.isSome then [] else [r.statusCode]
  details : starts.headD true = true → errors.map (fun st => some st.details) =
    if r.response.isSome then [] else [r.errorStr]

/-! ### The outcome of a call -/

variable {decode responseType}

/-- What the tag makes of a batch that has succeeded. -/
theorem getResponse_eq {tag : CodRecvMsg} {cod : CodClientRecvStatus}
    (hbare : ¬ (⟨true, tag, cod⟩ : Outcome).Bare) :
    ∃ st msg, (∀ {σ : Type} (s : σ), getResponse tag cod [] s = .ok (st, msg) s) ∧
      (⟨true, tag, cod⟩ : Outcome).response = (if st.ok then some msg else none) ∧
      (st.ok = true → st = .OK) := by
  by_cases hok : cod.isStatusOk = true
  · obtain ⟨_ | ⟨_ | bytes⟩⟩ := tag
    · exact absurd ⟨hok, rfl⟩ hbare
    · refine ⟨.internalError (str "Failed to read recv byte buffer."), [], fun s => ?_, ?_, nofun⟩
      · simp only [getResponse, hok]
        rfl
      · simp [Outcome.response, byteBufferToString, hok]
    · refine ⟨.OK, bytes, fun s => ?_, ?_, fun _ => rfl⟩
      · simp only [getResponse, hok]
        rfl
      · simp [Outcome.response, byteBufferToString, hok]
  · refine ⟨cod.getStatus, [], fun s => ?_, ?_, fun h => absurd h (by simpa using hok)⟩
    · rw [getResponse, if_pos (by simpa using hok)]
      rfl
    · simp [Outcome.response, hok]

/-- The results that are made of the status and the response of the call. -/
def results (decode : Bytes → Bytes → Option Msg) (responseType : Bytes) (status : Status)
    (sResponse : Bytes) : Results Msg :=
  ⟨decode responseType (if status.ok then sResponse else []),
    some (if status.ok then [] else status.details), some status.code.number⟩

variable {starts : List Bool} {tag : CodRecvMsg} {cod : CodClientRecvStatus}

theorem wp_syncRequest {Q : Results Msg → ServiceStub → Prop} {E : Exit → ServiceStub → Prop}
    {s : ServiceStub} {request : Bytes} {st : Status} {msg : Bytes}
    (h : wp (ServiceStub.syncRequest request [] tag cod)
      (fun _ s' => returned s'.trace = returned s.trace ++ [(st, msg)] ∧
        Q (results decode responseType st msg) s') E s) :
    wp (syncRequest decode responseType request tag cod) Q E s := by
  simp only [syncRequest, wp_bind, wp_get, wp_pure]
  refine wp_mono h ?_ fun _ _ h' => h'
  rintro _ s' ⟨hreturned, hQ⟩
  rw [hreturned, List.getLastD_concat]
  simp only [results] at hQ
  unfold makeTuple
  cases hok : st.ok with
  | true =>
      rw [hok] at hQ
      rw [if_pos rfl]
      simp only [decodeResponse, toNumber_toDecimal]
      exact hQ
  | false =>
      rw [hok] at hQ
      rw [if_neg (by simp)]
      simp only [decodeResponse, toNumber_toDecimal]
      exact hQ

/-- The results that are made of `st` and `msg`, and what the callbacks were told of them: they are
as documented, and agree, if the message decodes, or else if nothing does not decode. -/
theorem documented_results (decode : Bytes → Bytes → Option Msg)
    (responseType msg : Bytes) {st st' : Status}
    (hcode : st'.code = st.code) (hdetails : starts.headD true = true → st' = st) :
    (Documented ((if st.ok then some msg else none).bind (decode responseType))
        (results decode responseType st msg) ∧
      Agrees starts (results decode responseType st msg)
        ((if st.ok then some msg else none).bind (decode responseType)).toList
        (if st.ok then [] else [st'])) ↔
      if st.ok then Decodes decode responseType msg else decode responseType [] = none := by
  cases hok : st.ok with
  | true =>
      have hzero : st.code.number = 0 :=
        StatusCode.number_eq_zero.mpr (by simpa [Status.ok] using hok)
      simp only [if_true, Option.bind_some]
      -- Of an OK status, the results are right if the response can be decoded.
      constructor
      · rintro ⟨hdoc, -⟩
        rw [Decodes, Option.isSome_iff_ne_none]
        intro hnone
        obtain ⟨-, n, hn, hne⟩ := hdoc.failure hnone
        simp only [results, Option.some.injEq] at hn
        exact hne (hn.symm.trans hzero)
      · intro hdec
        have hres : (results decode responseType st msg).response = decode responseType msg := by
          simp [results, hok]
        refine ⟨⟨hres, fun hnone => ?_⟩, ⟨by rw [hres], ?_, fun _ => ?_⟩⟩
        · exact absurd hnone (Option.isSome_iff_ne_none.mp hdec)
        · rw [hres, if_pos hdec]
          rfl
        · rw [hres, if_pos hdec]
          rfl
  | false =>
      have hne : st.code.number ≠ 0 := fun h =>
        absurd (StatusCode.number_eq_zero.mp h) (by simpa [Status.ok] using hok)
      have hres : (results decode responseType st msg).response = decode responseType [] := by
        simp [results, hok]
      simp only [Bool.false_eq_true, if_false, Option.bind_none]
      -- Of an error, they are right if the empty string cannot be decoded.
      constructor
      · rintro ⟨hdoc, -⟩
        rw [← hres]
        exact hdoc.response
      · intro hnone
        refine ⟨⟨hres.trans hnone, fun _ => ⟨rfl, _, rfl, hne⟩⟩,
          ⟨by rw [hres, hnone], ?_, fun hstart => ?_⟩⟩
        · rw [hres, hnone]
          simp [results, hcode]
        · rw [hres, hnone, hdetails hstart]
          simp [results, hok]

end SyncRequest

/-! ### The asynchronous request -/

namespace AsyncCall

/-- The error callback is told an error, whether it returns or raises. -/
theorem callErrorCb_told {s : AsyncCall} {k : Status → Option Unit} (hk : s.errorCb = some k)
    (st : Status) :
    wp (callErrorCb st) (fun _ s' => errors s'.trace = errors s.trace ++ [st])
      (fun _ s' => errors s'.trace = errors s.trace ++ [st]) s := by
  simp only [callErrorCb, wp_bind, wp_get, hk, wp_emit, env_eq, setEnv_eq]
  have htold : errors (s.trace ++ [.called (.errorCb st)]) = errors s.trace ++ [st] :=
    errors_append _ _
  cases k st with
  | none => exact htold
  | some _ => exact htold

/-- What the error callback is told of a request, whatever the callbacks do. -/
theorem call_errors {Msg ω : Type} {decode : Bytes → Bytes → Option Msg} {msgType : Bytes}
    (responseCb : Msg → Reaction ω Status Status) (errorCb : Status → Option Unit)
    {starts : List Bool} (request : Bytes) {tag : CodRecvMsg} {cod : CodClientRecvStatus}
    (st : Status) (msg : Bytes)
    (hmade : starts.headD true = true →
      ∀ {σ : Type} (s : σ), getResponse tag cod [] s = .ok (st, msg) s) :
    wp (call request ⟨true, tag, cod⟩)
      (fun _ s' => errors s'.trace = if starts.headD true then (if st.ok then [] else [st])
        else [.internalError (str "Failed to async request.")])
      (fun _ s' => errors s'.trace = if starts.headD true then (if st.ok then [] else [st])
        else [.internalError (str "Failed to async request.")])
      (new decode msgType responseCb (some errorCb) starts) := by
  simp only [call, asyncRequest, wp_bind, wp_get, wp_startBatch, wp_ite, wp_pure, env_eq, setEnv_eq]
  by_cases hstart : starts.headD true = true
  case neg =>
    simp only [new, if_neg hstart]
    exact callErrorCb_told rfl _
  have hwp : ∀ {s : AsyncCall} {Q : Report → AsyncCall → Prop} {E : Exit → AsyncCall → Prop},
      wp (getResponse tag cod []) Q E s ↔ Q (st, msg) s := by
    intro s Q E
    unfold wp
    rw [hmade hstart]
  simp only [new, if_pos hstart, doComplete, wp_bind, wp_ite, hwp]
  rw [if_neg (by simp)]
  by_cases hst : st.ok = true
  case neg =>
    rw [if_pos (by simp [hst]), if_neg hst]
    exact callErrorCb_told rfl _
  rw [if_neg (by simp [hst]), if_pos hst]
  simp only [wp_get, wp_bind, wp_emit, env_eq, setEnv_eq]
  -- The wrapped callback answers OK, unless the user's callback raises.
  rcases wrapLuaMsgCb_answer decode msgType responseCb msg with ha | ha
  · rw [ha]
    rfl
  · rw [ha]
    rfl

end AsyncCall

/-! ### Both paths -/

namespace SyncRequest
variable {Msg ω : Type} (decode : Bytes → Bytes → Option Msg) (responseType : Bytes)
  (responseCb : Msg → Reaction ω Status Status) (errorCb : Status → Option Unit)
  (starts : List Bool) (request : Bytes) (tag : CodRecvMsg) (cod : CodClientRecvStatus)

/-- `sync_request` returns results as they are documented, and they agree with what `async_request`
tells its callbacks of the same outcome. -/
def Tells : Prop :=
  let o : Outcome := ⟨true, tag, cod⟩
  let told := (endState (AsyncCall.call request o)
    (AsyncCall.new decode responseType responseCb (some errorCb) starts)).trace
  wp (syncRequest decode responseType request tag cod)
    (fun r _ => Documented ((AsyncCall.received starts o).bind (decode responseType)) r ∧
      Agrees starts r (heard decode responseType (AsyncCall.strings told)) (AsyncCall.errors told))
    (fun _ _ => False) ⟨starts, .OK, []⟩

/-- A response was received that decodes; or an error was, and nothing does not decode. -/
def Discernible : Prop :=
  (∃ bytes ∈ AsyncCall.received starts ⟨true, tag, cod⟩, Decodes decode responseType bytes) ∨
    (AsyncCall.received starts ⟨true, tag, cod⟩ = none ∧
      (starts.headD true = true → ¬ (⟨true, tag, cod⟩ : Outcome).Bare) ∧
      decode responseType [] = none)

variable {decode responseType starts tag cod}

variable (decode responseType) in
/-- What the two paths report of a call that does not abort. -/
theorem reports_of_call (hbare : starts.headD true = true → ¬ (⟨true, tag, cod⟩ : Outcome).Bare) :
    ∃ st msg st', wp (ServiceStub.syncRequest request [] tag cod)
        (fun _ s' => returned s'.trace = [(st, msg)]) (fun _ _ => False) ⟨starts, .OK, []⟩ ∧
      AsyncCall.received starts ⟨true, tag, cod⟩ = (if st.ok then some msg else none) ∧
      AsyncCall.errors (endState (AsyncCall.call request ⟨true, tag, cod⟩)
        (AsyncCall.new decode responseType responseCb (some errorCb) starts)).trace =
          (if st.ok then [] else [st']) ∧
      st'.code = st.code ∧ (starts.headD true = true → st' = st) := by
  by_cases hstart : starts.headD true = true
  · obtain ⟨st, msg, hmade, hresponse, -⟩ := getResponse_eq (hbare hstart)
    refine ⟨st, msg, st, ?_, (if_pos hstart).trans hresponse, ?_, rfl, fun _ => rfl⟩
    · simp only [ServiceStub.syncRequest, wp_bind, wp_startBatch, wp_ite]
      rw [if_neg (by simpa [HasEnv.env] using hstart)]
      unfold wp
      rw [hmade]
      rfl
    · rw [endState_of_wp (AsyncCall.call_errors responseCb errorCb request st msg fun _ => hmade),
        if_pos hstart]
  · refine ⟨.internalError (str "Failed to request."), [],
      .internalError (str "Failed to async request."), ?_, if_neg hstart, ?_, rfl,
      fun h => absurd h hstart⟩
    · simp only [ServiceStub.syncRequest, wp_bind, wp_startBatch, wp_ite]
      rw [if_pos (by simpa [HasEnv.env] using hstart)]
      rfl
    · rw [endState_of_wp (AsyncCall.call_errors responseCb errorCb request .OK [] fun h =>
        absurd h hstart), if_neg hstart]
      rfl

/-- A bare outcome aborts the process. -/
theorem not_tells_of_bare (hstart : starts.headD true = true)
    (hbare : (⟨true, tag, cod⟩ : Outcome).Bare) :
    ¬ Tells decode responseType responseCb errorCb starts request tag cod := by
  intro h
  simp only [Tells, syncRequest, ServiceStub.syncRequest, wp_bind, wp_startBatch, wp_ite] at h
  rw [if_neg (by simpa [HasEnv.env] using hstart)] at h
  obtain ⟨hok, hbuf⟩ := hbare
  simp only [getResponse, CodRecvMsg.getResultMsg] at h hok hbuf
  rw [hok, hbuf] at h
  exact h

/-- `sync_request` agrees with `async_request` exactly where success can be told from failure. -/
theorem tells_iff_discernible :
    Tells decode responseType responseCb errorCb starts request tag cod ↔
      Discernible decode responseType starts tag cod := by
  -- A bare outcome aborts; in all other cases both report one status, and the message with it.
  by_cases hbare : starts.headD true = true → ¬ (⟨true, tag, cod⟩ : Outcome).Bare
  case neg =>
    obtain ⟨hstart, hb⟩ := Classical.not_imp.mp hbare
    rw [not_not] at hb
    have hnone : AsyncCall.received starts ⟨true, tag, cod⟩ = none := by
      obtain ⟨-, hbuf⟩ := hb
      replace hbuf : tag.recvBuf = none := hbuf
      rw [AsyncCall.received, if_pos hstart, Outcome.response]
      simp [hbuf]
    refine iff_of_false (not_tells_of_bare responseCb errorCb request hstart hb) ?_
    rintro (⟨bytes, hbytes, -⟩ | ⟨-, hnot, -⟩)
    · rw [hnone] at hbytes
      cases hbytes
    · exact hnot hstart hb
  obtain ⟨st, msg, st', hsync, hreceived, herrors, hcode, hdetails⟩ :=
    reports_of_call decode responseType responseCb errorCb request hbare
  have hhands : wp (AsyncCall.call request ⟨true, tag, cod⟩) _ _
      (AsyncCall.new decode responseType responseCb (some errorCb) starts) :=
    AsyncCall.call_hands responseCb (some errorCb) starts request ⟨true, tag, cod⟩
  have hend := endState_of_wp hhands
  have hstrings : AsyncCall.strings (endState (AsyncCall.call request ⟨true, tag, cod⟩)
      (AsyncCall.new decode responseType responseCb (some errorCb) starts)).trace =
        (AsyncCall.received starts ⟨true, tag, cod⟩).toList := congrArg Prod.fst hend
  have hheard : heard decode responseType (if st.ok then some msg else none).toList =
      ((if st.ok then some msg else none).bind (decode responseType)).toList := by
    rw [heard_eq]
    cases st.ok with
    | false => rfl
    | true => cases hd : decode responseType msg <;> simp [hd]
  have hiff := documented_results decode responseType msg hcode hdetails
  rw [← hheard] at hiff
  have hreturns : wp (syncRequest decode responseType request tag cod)
      (fun r _ => r = results decode responseType st msg) (fun _ _ => False) ⟨starts, .OK, []⟩ :=
    wp_syncRequest (wp_mono hsync (fun _ _ h => ⟨h, rfl⟩) fun _ _ => False.elim)
  simp only [Tells, Discernible, hstrings, herrors, hreceived]
  refine (wp_of_returns hreturns).trans (hiff.trans ?_)
  cases st.ok with
  | true => simp
  | false => simpa using fun _ => hbare

end SyncRequest

/-! ### Messages -/

section messages
open Pb
variable {Num Float ω : Type} [DecidableEq Num] (R : Runtime Num Float) (pool : Pool Num Float)
  (codec : Codec Num Float)

/-- `c.decode(message_type, message_str)`: nothing where it is nil. -/
def luaDecode (messageType messageStr : Bytes) : Option (Pb.LuaValue Num) :=
  match decode R pool codec messageType messageStr with
  | .ok .nil => none
  | .ok msg => some msg
  | .error _ => none

theorem luaDecode_eq {messageType : Bytes} {type : Nat}
    (htype : pool.findMessageTypeByName messageType = some type) (messageStr : Bytes) :
    luaDecode R pool codec messageType messageStr =
      (codec.parseFromString type messageStr).map
        (MsgToTbl.toTbl R pool (pool.descriptor type)) := by
  unfold luaDecode
  cases hparse : codec.parseFromString type messageStr with
  | none =>
      have hnil : decode R pool codec messageType messageStr = .ok .nil := by
        simp only [decode, makeSharedMessage, htype, bind, Except.bind, hparse]
      rw [hnil]
      rfl
  | some slots =>
      rw [decode_of_parse htype hparse]
      rfl

theorem decodes_luaDecode {messageType : Bytes} {type : Nat}
    (htype : pool.findMessageTypeByName messageType = some type) (messageStr : Bytes) :
    Decodes (luaDecode R pool codec) messageType messageStr ↔
      (codec.parseFromString type messageStr).isSome = true := by
  rw [Decodes, luaDecode_eq R pool codec htype, Option.isSome_map]

/-- **Unary calls.**  `sync_request` tells success and failure apart as it documents, and agrees
with the callbacks of `async_request`, exactly if a response of the type was received, or the call
failed and no response is not a response of the type. -/
theorem documented_iff {responseType : Bytes} {type : Nat}
    (htype : pool.findMessageTypeByName responseType = some type)
    (responseCb : Pb.LuaValue Num → Reaction ω Status Status) (errorCb : Status → Option Unit)
    (starts : List Bool) (request : Bytes) (tag : CodRecvMsg) (cod : CodClientRecvStatus) :
    SyncRequest.Tells (luaDecode R pool codec) responseType responseCb errorCb starts request tag
        cod ↔
      (∃ bytes ∈ AsyncCall.received starts ⟨true, tag, cod⟩,
        (codec.parseFromString type bytes).isSome = true) ∨
      (AsyncCall.received starts ⟨true, tag, cod⟩ = none ∧
        (starts.headD true = true → ¬ (⟨true, tag, cod⟩ : Outcome).Bare) ∧
        codec.parseFromString type [] = none) := by
  rw [SyncRequest.tells_iff_discernible, SyncRequest.Discernible]
  refine or_congr (exists_congr fun bytes => and_congr_right fun _ =>
    decodes_luaDecode R pool codec htype bytes)
    (and_congr_right fun _ => and_congr_right fun _ => ?_)
  rw [luaDecode_eq R pool codec htype, Option.map_eq_none_iff]

/-- A response of type `Choice`. -/
theorem documented_iff_received :
    SyncRequest.Tells (luaDecode Runtime.integers choicePool choiceCodec) (str "Choice")
        (fun _ => (.ret .OK : Reaction Unit Status Status)) (fun _ => some ()) [] []
        ⟨some ⟨some [8, 5]⟩⟩ {} ↔
      (∃ bytes ∈ AsyncCall.received [] ⟨true, ⟨some ⟨some [8, 5]⟩⟩, {}⟩,
        (choiceCodec.parseFromString 0 bytes).isSome = true) ∨
      (AsyncCall.received [] ⟨true, ⟨some ⟨some [8, 5]⟩⟩, {}⟩ = none ∧
        (([] : List Bool).headD true = true →
          ¬ (⟨true, ⟨some ⟨some [8, 5]⟩⟩, {}⟩ : Outcome).Bare) ∧
        choiceCodec.parseFromString 0 [] = none) :=
  documented_iff Runtime.integers choicePool choiceCodec rfl _ _ [] [] _ _

/-- A call that ends with INTERNAL comes with a response, the empty message; and one that ends with
a response that does not decode comes with no error. -/
theorem not_documented :
    (¬ SyncRequest.Tells (luaDecode Runtime.integers choicePool choiceCodec) (str "Choice")
        (fun _ => (.ret .OK : Reaction Unit Status Status)) (fun _ => some ()) [] []
        ⟨none⟩ ⟨.internal, [120]⟩) ∧
      ¬ SyncRequest.Tells (luaDecode Runtime.integers choicePool choiceCodec) (str "Choice")
        (fun _ => (.ret .OK : Reaction Unit Status Status)) (fun _ => some ()) [] []
        ⟨some ⟨some [255]⟩⟩ {} := by
  constructor
  · intro h
    have hresponse : some _ = none := h.1.response
    cases hresponse
  · intro h
    obtain ⟨-, n, hn, hne⟩ := h.1.failure rfl
    have hzero : some 0 = some n := hn
    exact hne (Option.some.inj hzero).symm

end messages

end GrpcLua
