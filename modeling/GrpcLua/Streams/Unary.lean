import GrpcLua.Core.SendStatus
import GrpcLua.Server.Calls
import GrpcLua.Server.Replier
import GrpcLua.Streams.Tables

/-!
# Streams — Unary

A unary call as a whole, from Lua to Lua.  The client's `sync_request` encodes a table; the service
dispatches the call to the function of its method, with the decoded request and a `Replier`; the
threads of the server reply with tables or with errors; and the client decodes what the first batch
that gRPC has taken brings it, unless the call fails on its way.
-/

namespace GrpcLua
open Prog Trace Pb

variable {Num Float : Type} [DecidableEq Num]

/-! ### The replier of Lua -/

/-- What is called on a `Replier`. -/
inductive LuaReply (Num : Type) where
  | reply (response : Pb.LuaValue Num)
  | replyError (errorStr : Bytes) (statusCode : StatusCode)

section
variable (R : Runtime Num Float) (pool : Pool Num Float) (codec : Codec Num Float)

/-- `Replier:reply(response)` and `Replier:reply_error(error_str, status_code)`, up to the function
of the C++ replier that they call; an error of `c.encode` is raised before the call. -/
def Replier.forward (replier : Replier) : LuaReply Num → Except Pb.Error ServerReplier.Reply
  | .reply response => do
      let respStr ← encode R pool codec replier.responseType response
      .ok (.str respStr)
  | .replyError errorStr statusCode => .ok (.error ⟨statusCode, errorStr⟩)

/-- The C++ replier is called through `replier` only. -/
def Replier.Calls (replier : Replier) (replies : List (LuaReply Num))
    (ls : List ServerReplier.Step) : Prop :=
  ∀ i r, .call i r ∈ ls → ∃ reply ∈ replies, replier.forward R pool codec reply = .ok r

/-- What `sync_request` returns for a reply.  Of an error it is the string and the code. -/
def LuaReply.Gives (type : Nat) (r : SyncRequest.Results (Pb.LuaValue Num)) : LuaReply Num → Prop
  | reply response => ∃ response', readBack R pool type response = .ok response' ∧
      r = ⟨some response', some [], some 0⟩
  | replyError errorStr statusCode => statusCode ≠ .ok ∧ r.errorStr = some (cString errorStr) ∧
      r.statusCode = some statusCode.number

end

/-! ### Where the batches of a replier come from -/

namespace ServerReplier

/-- The reply that the thread is about to make. -/
def Pc.reply? : Pc → Option Reply
  | idle => none
  | load r => some r
  | store r => some r
  | start r => some r

/-- The replies that threads are about to make, and those that were handed to gRPC, are in `P`. -/
structure Comes (P : Reply → Prop) (s : ServerReplier) : Prop where
  threads : ∀ pc ∈ s.threads, ∀ r ∈ pc.reply?, P r
  sendInitMd : s.sendInitMd = true
  batches : ∀ b started, .batch b started ∈ s.trace → ∃ r, P r ∧ b = r.batch true

variable {P : Reply → Prop} {s : ServerReplier}

theorem Comes.set (h : Comes P s) (i : Nat) {pc : Pc} (hpc : ∀ r ∈ pc.reply?, P r) :
    Comes P { s with threads := s.threads.set i pc } where
  threads := by
    intro pc' hpc'
    rcases List.mem_or_eq_of_mem_set hpc' with hpc' | rfl
    · exact h.threads pc' hpc'
    · exact hpc
  sendInitMd := h.sendInitMd
  batches := h.batches

/-- A thread goes on with its reply, or hands its batch to gRPC. -/
theorem wp_pc_comes (h : Comes P s) {pc : Pc} (hpc : ∀ r ∈ pc.reply?, P r) :
    wp pc.exec (fun pc' s' => Comes P s' ∧ ∀ r ∈ pc'.reply?, P r) (fun _ _ => False) s := by
  cases pc with
  | idle => exact ⟨h, hpc⟩
  | load r =>
      refine ⟨h, ?_⟩
      split
      · simp [Pc.reply?]
      · exact hpc
  | store r => exact ⟨{ h with }, hpc⟩
  | start r =>
      refine ⟨{ h with batches := fun b started hb => ?_ }, by simp [Pc.reply?]⟩
      rcases List.mem_append.mp hb with hb | hb
      · exact h.batches b started hb
      · obtain ⟨rfl, -⟩ := Event.batch.inj (List.mem_singleton.mp hb)
        exact ⟨r, hpc r rfl, by rw [h.sendInitMd]⟩

/-- Every batch comes from a call. -/
theorem step_comes (h : Comes P s) (l : Step) (hl : ∀ i r, l = .call i r → P r) :
    wp l.exec (fun _ => Comes P) (fun _ _ => False) s := by
  cases l with
  | call i r =>
      refine h.set i fun r' hr' => ?_
      obtain rfl : r = r' := Option.some.inj hr'
      exact hl i r rfl
  | resume i =>
      have hpc : ∀ r ∈ (s.threads.getD i .idle).reply?, P r := by
        rw [List.getD_eq_getElem?_getD]
        cases hi : s.threads[i]? with
        | none => simp [Pc.reply?]
        | some pc => exact h.threads pc (List.mem_of_getElem? hi)
      simp only [Step.exec, wp_bind, wp_get, wp_modify]
      exact wp_mono (wp_pc_comes h hpc) (fun pc' s' h' => h'.1.set i h'.2) fun _ _ h' => h'

/-- In a run, the batches are those of the calls that it makes. -/
theorem after_comes (starts : List Bool) (n : Nat) {ls : List Step}
    (hls : ∀ i r, .call i r ∈ ls → P r) : Comes P (after (new starts n) ls).state := by
  have hnew : Comes P (new starts n) := by
    refine ⟨fun pc hpc => ?_, rfl, fun b started hb => absurd hb (by simp [new])⟩
    rw [List.eq_of_mem_replicate hpc]
    simp [Pc.reply?]
  exact Process.invariant_state (P := fun _ l => ∀ i r, l = .call i r → P r)
    (fun s l hs hl => wp_mono (step_comes hs l hl) (fun _ _ h => h) fun _ _ h => h.elim) hnew
    (Process.Along.of_forall (P := fun l : Step => ∀ i r, l = .call i r → P r)
      fun l hl i r hcall => hls i r (hcall ▸ hl))

end ServerReplier

/-! ### What the client gets -/

/-- The first batch that gRPC has taken.  A call has one status, so that no other is sent. -/
def firstTaken {κ : Type} (tr : List (Event κ)) : Option Batch :=
  tr.findSome? fun | .batch b true => some b | _ => none

theorem mem_of_firstTaken {κ : Type} {tr : List (Event κ)} {b : Batch}
    (h : firstTaken tr = some b) : .batch b true ∈ tr := by
  obtain ⟨e, he, hb⟩ := List.exists_of_findSome?_eq_some h
  split at hb
  · obtain rfl := Option.some.inj hb
    exact he
  · cases hb

/-- What the batch of the client receives: the message and the status of the server's batch, or an
error where the call fails on its way. -/
inductive Delivers (b? : Option Batch) : CodRecvMsg → CodClientRecvStatus → Prop
  | reply {b : Batch} {cod : CodClientRecvStatus} (hb : b? = some b)
      (hcod : Batch.received b = some cod) : Delivers b? ⟨b.msg?.map fun m => ⟨some m⟩⟩ cod
  | failed {tag : CodRecvMsg} {cod : CodClientRecvStatus} (h : cod.isStatusOk = false) :
      Delivers b? tag cod

namespace SyncRequest
variable {Msg : Type} {decode : Bytes → Bytes → Option Msg} {responseType request : Bytes}
  {starts : List Bool} {tag : CodRecvMsg} {cod : CodClientRecvStatus}
  {Q : Results Msg → ServiceStub → Prop} {E : Exit → ServiceStub → Prop}

/-- An OK status and a message. -/
theorem wp_syncRequest_str (hstart : starts.headD true = true) (msg : Bytes)
    (hQ : ∀ s', Q (results decode responseType .OK msg) s') :
    wp (syncRequest decode responseType request ⟨some ⟨some msg⟩⟩ ⟨.ok, []⟩) Q E
      ⟨starts, .OK, []⟩ := by
  refine @wp_syncRequest Msg decode responseType _ _ Q E _ request .OK msg ?_
  simp only [ServiceStub.syncRequest, wp_bind, wp_startBatch, wp_ite]
  rw [if_neg (by simpa [HasEnv.env] using hstart)]
  exact ⟨rfl, hQ _⟩

/-- Any other status. -/
theorem wp_syncRequest_error (hstart : starts.headD true = true) (hcod : cod.isStatusOk = false)
    (hQ : ∀ s', Q (results decode responseType cod.getStatus []) s') :
    wp (syncRequest decode responseType request tag cod) Q E ⟨starts, .OK, []⟩ := by
  refine @wp_syncRequest Msg decode responseType _ _ Q E _ request cod.getStatus [] ?_
  simp only [ServiceStub.syncRequest, wp_bind, wp_startBatch, wp_ite, getResponse]
  rw [if_neg (by simpa [HasEnv.env] using hstart), if_pos (by simp [hcod])]
  exact ⟨rfl, hQ _⟩

/-- An OK status without a message. -/
theorem wp_syncRequest_bare (hstart : starts.headD true = true) (hcod : cod.isStatusOk = true)
    (hE : ∀ s', E .assertion s') :
    wp (syncRequest decode responseType request ⟨none⟩ cod) Q E ⟨starts, .OK, []⟩ := by
  simp only [syncRequest, ServiceStub.syncRequest, wp_bind, wp_startBatch, wp_ite, getResponse]
  rw [if_neg (by simpa [HasEnv.env] using hstart), if_neg (by simp [hcod])]
  exact hE _

end SyncRequest

/-- What `sync_request` returns for the delivered outcome: what the reply gives that gRPC has taken
first, or the error with which the call has failed on its way.  It does not return where an error
reply has the code of OK. -/
theorem wp_syncRequest_delivered {R : Runtime Num Float} {pool : Pool Num Float}
    {codec : Codec Num Float} (replier : Replier) {replies : List (LuaReply Num)} {type : Nat}
    (htype : pool.findMessageTypeByName replier.responseType = some type)
    (hcarries : ∀ response, .reply response ∈ replies → ∀ slots, MessageSetter.setMsg R pool
      (pool.descriptor type) (pool.descriptor type).empty response = .ok slots →
      codec.Carries type slots)
    {starts : List Bool} {n : Nat} {ls : List ServerReplier.Step}
    (hcalls : replier.Calls R pool codec replies ls) {clientStarts : List Bool}
    (hstart : clientStarts.headD true = true) {tag : CodRecvMsg} {cod : CodClientRecvStatus}
    (h : Delivers (firstTaken (ServerReplier.after (.new starts n) ls).state.trace) tag cod)
    (request : Bytes) :
    wp (SyncRequest.syncRequest (luaDecode R pool codec) replier.responseType request tag cod)
      (fun r _ =>
        (∃ reply ∈ replies, ∃ r', replier.forward R pool codec reply = .ok r' ∧
          firstTaken (ServerReplier.after (.new starts n) ls).state.trace = some (r'.batch true) ∧
          reply.Gives R pool type r) ∨
        (cod.isStatusOk = false ∧ r.errorStr = some cod.statusDetails ∧
          r.statusCode = some cod.statusCode.number))
      (fun e _ => e = .assertion ∧ ∃ errorStr, .replyError errorStr .ok ∈ replies)
      ⟨clientStarts, .OK, []⟩ := by
  cases h with
  | failed hcod =>
      refine SyncRequest.wp_syncRequest_error hstart hcod fun s' => .inr ⟨hcod, ?_, rfl⟩
      have hok : cod.getStatus.ok = false := hcod
      simp only [SyncRequest.results, hok]
      rfl
  | @reply b cod hb hcod =>
      have hcomes : ServerReplier.Comes
          (fun r => ∃ reply ∈ replies, replier.forward R pool codec reply = .ok r)
          (ServerReplier.after (.new starts n) ls).state :=
        ServerReplier.after_comes starts n hcalls
      obtain ⟨r', ⟨reply, hreply, hforward⟩, rfl⟩ := hcomes.batches b true (mem_of_firstTaken hb)
      cases reply with
      | reply response =>
          simp only [Replier.forward, bind, Except.bind] at hforward
          cases hencode : encode R pool codec replier.responseType response with
          | error e =>
              rw [hencode] at hforward
              cases hforward
          | ok respStr =>
              rw [hencode] at hforward
              obtain rfl := Except.ok.inj hforward
              obtain rfl : ⟨.ok, []⟩ = cod := Option.some.inj hcod
              obtain ⟨response', hdecode, hread⟩ :=
                luaDecode_encode htype (hcarries response hreply) hencode
              refine SyncRequest.wp_syncRequest_str hstart respStr fun s' => .inl
                ⟨_, hreply, _, ?_, hb, response', hread, ?_⟩
              · simp only [Replier.forward, bind, Except.bind, hencode]
              · simp only [SyncRequest.results]
                exact congrArg (fun m => SyncRequest.Results.mk m _ _) hdecode
      | replyError errorStr statusCode =>
          obtain rfl := Except.ok.inj hforward
          obtain rfl : ⟨statusCode, cString errorStr⟩ = cod := Option.some.inj hcod
          by_cases hok : statusCode = .ok
          · subst hok
            exact SyncRequest.wp_syncRequest_bare hstart rfl fun s' => ⟨rfl, errorStr, hreply⟩
          · have hcod' : (⟨statusCode, cString errorStr⟩ : CodClientRecvStatus).isStatusOk =
                false := by simpa [CodClientRecvStatus.isStatusOk] using hok
            refine SyncRequest.wp_syncRequest_error hstart hcod' fun s' => .inl
              ⟨_, hreply, _, rfl, hb, hok, ?_, rfl⟩
            have hst : CodClientRecvStatus.getStatus ⟨statusCode, cString errorStr⟩ =
                ⟨statusCode, cString errorStr⟩ := rfl
            have hfail : (⟨statusCode, cString errorStr⟩ : Status).ok = false := hcod'
            simp only [SyncRequest.results, hst, hfail]
            rfl

/-- **A unary call.**  A stub calls a method that streams neither way, with a table that can be
encoded, and gRPC takes the batch.  The function of the method, if the implementation has one, is
invoked once, and no other, with what is left of the table and with a replier of the method's output
type.  However many threads call that replier, in whatever order: `sync_request` returns what is
left of the first reply that gRPC has taken, or its error, or the error with which the call has
failed on its way; but for an error with the code of OK, on which the process aborts. -/
theorem unary_tables {R : Runtime Num Float} {pool : Pool Num Float} {codec : Codec Num Float}
    (impl : Impl (Pb.LuaValue Num)) (d : ServiceDescriptor) {name : Bytes}
    {info : Stub.MethodInfo} (hinfo : Stub.MethodInfo.new d name () = .ok info ())
    (hunary : info.isClientStreaming = false ∧ info.isServerStreaming = false)
    (himpl : (impl name).isSome = true) {requestType responseType : Nat}
    (hrequest : pool.findMessageTypeByName info.requestType = some requestType)
    (hresponse : pool.findMessageTypeByName info.responseType = some responseType)
    (table : Pb.LuaValue Num) {request : Bytes}
    (hencode : encode R pool codec info.requestType table = .ok request)
    (hcarriesRequest : ∀ slots, MessageSetter.setMsg R pool (pool.descriptor requestType)
      (pool.descriptor requestType).empty table = .ok slots → codec.Carries requestType slots)
    (server : Server) {i : Nat}
    (hi : (Service.ofDescriptor d).methods[i]?.map MethodInfo.requestName = some info.requestName)
    (call : Nat) (replies : List (LuaReply Num))
    (hcarries : ∀ response, .reply response ∈ replies → ∀ slots, MessageSetter.setMsg R pool
      (pool.descriptor responseType) (pool.descriptor responseType).empty response = .ok slots →
      codec.Carries responseType slots)
    (starts : List Bool) (n : Nat) {ls : List ServerReplier.Step}
    (hcalls : (Replier.mk call info.responseType).Calls R pool codec replies ls)
    (clientStarts : List Bool) (hstart : clientStarts.headD true = true) {tag : CodRecvMsg}
    {cod : CodClientRecvStatus}
    (hdelivers : Delivers (firstTaken (ServerReplier.after (.new starts n) ls).state.trace)
      tag cod) :
    (∃ table', readBack R pool requestType table = .ok table' ∧
      (endState (LuaService.callMethod (luaDecode R pool codec) impl d server i
        (some ⟨some request⟩) call) {}).invoked =
          [(name, [.request table', .replier ⟨call, info.responseType⟩])]) ∧
    wp (SyncRequest.syncRequest (luaDecode R pool codec) info.responseType request tag cod)
      (fun r _ =>
        (∃ reply ∈ replies, ∃ r', (Replier.mk call info.responseType).forward R pool codec reply =
            .ok r' ∧
          firstTaken (ServerReplier.after (.new starts n) ls).state.trace =
            some (r'.batch true) ∧
          reply.Gives R pool responseType r) ∨
        (cod.isStatusOk = false ∧ r.errorStr = some cod.statusDetails ∧
          r.statusCode = some cod.statusCode.number))
      (fun e _ => e = .assertion ∧ ∃ errorStr, .replyError errorStr .ok ∈ replies)
      ⟨clientStarts, .OK, []⟩ := by
  refine ⟨?_, wp_syncRequest_delivered ⟨call, info.responseType⟩ hresponse hcarries
    hcalls hstart hdelivers request⟩
  obtain ⟨m, hm, rfl, rfl⟩ := Stub.MethodInfo.mem_of_new hinfo
  have hm' := Service.method_of_requestName hm hi
  obtain ⟨table', hdecode, hread⟩ := luaDecode_encode hrequest hcarriesRequest hencode
  refine ⟨table', hread, ?_⟩
  rw [endState_of_wp (P := fun s => s = LuaService.called impl m.name
    (LuaService.actualArgs (luaDecode R pool codec) m (some ⟨some request⟩) call))
    (LuaService.wp_callMethod hm' _)]
  have hclient : m.clientStreaming = false := hunary.1
  have hserver : m.serverStreaming = false := hunary.2
  have hdecoded : LuaService.decoded (luaDecode R pool codec) m.inputType request =
      .request table' := by
    have hsome : luaDecode R pool codec m.inputType request = some table' := hdecode
    rw [LuaService.decoded, hsome]
  have hargs : LuaService.actualArgs (luaDecode R pool codec) m (some ⟨some request⟩) call =
      some [.request table', .replier ⟨call, m.outputType⟩] := by
    simp only [LuaService.actualArgs, hclient, hserver, Option.map_some, hdecoded]
    rfl
  rw [LuaService.called, himpl, hargs]
  rfl

/-- A service with one method, which is asked with a `Choice` and answers with one. -/
def picker : ServiceDescriptor :=
  ⟨str "Picker", [⟨str "Pick", str "Choice", str "Choice", false, false⟩], by simp⟩

/-- The method is asked with a table, and replies with it. -/
theorem unary_tables_picker :
    let table : Pb.LuaValue Int := .table 0 [(.string (str "a"), .integer 5)]
    let decode := luaDecode Runtime.integers choicePool choiceCodec
    (∃ table', readBack Runtime.integers choicePool 0 table = .ok table' ∧
      (endState (LuaService.callMethod decode (fun _ => some fun _ => some .nil) picker
        (Server.new []) 0 (some ⟨some [8, 5]⟩) 7) {}).invoked =
          [(str "Pick", [.request table', .replier ⟨7, str "Choice"⟩])]) ∧
    wp (SyncRequest.syncRequest decode (str "Choice") [8, 5] ⟨some ⟨some [8, 5]⟩⟩ {})
      (fun r _ =>
        (∃ reply ∈ [LuaReply.reply table], ∃ r', (Replier.mk 7 (str "Choice")).forward
            Runtime.integers choicePool choiceCodec reply = .ok r' ∧
          firstTaken (ServerReplier.after (.new [] 1) [.call 0 (.str [8, 5]), .resume 0, .resume 0,
            .resume 0]).state.trace = some (r'.batch true) ∧
          reply.Gives Runtime.integers choicePool 0 r) ∨
        ((({} : CodClientRecvStatus)).isStatusOk = false ∧ r.errorStr = some [] ∧
          r.statusCode = some 0))
      (fun e _ => e = .assertion ∧ ∃ errorStr, .replyError errorStr .ok ∈ [LuaReply.reply table])
      ⟨[], .OK, []⟩ := by
  intro table decode
  have hcarries : ∀ slots, MessageSetter.setMsg Runtime.integers choicePool
      (choicePool.descriptor 0) (choicePool.descriptor 0).empty table = .ok slots →
      choiceCodec.Carries 0 slots := by
    intro slots hset
    obtain rfl : [.scalar (.ofKey (.int32 5)), .absent] = slots := Except.ok.inj hset
    exact ⟨5, by decide, .inl rfl⟩
  have htype : choicePool.findMessageTypeByName (str "Choice") = some 0 := rfl
  have hencode : encode Runtime.integers choicePool choiceCodec (str "Choice") table =
      .ok [8, 5] := rfl
  refine unary_tables (fun _ => some fun _ => some .nil) picker
    (show Stub.MethodInfo.new picker (str "Pick") () = .ok _ () from rfl) ⟨rfl, rfl⟩ rfl htype
    htype table hencode hcarries (Server.new []) (i := 0) (by decide) 7 [.reply table] ?_ [] 1 ?_ []
    rfl (.reply rfl rfl)
  · intro response hmem
    obtain rfl : response = table := LuaReply.reply.inj (List.mem_singleton.mp hmem)
    exact hcarries
  · intro i r hmem
    refine ⟨.reply table, List.mem_singleton_self _, ?_⟩
    obtain ⟨-, rfl⟩ : i = 0 ∧ r = .str [8, 5] := by simpa using hmem
    rfl

end GrpcLua
