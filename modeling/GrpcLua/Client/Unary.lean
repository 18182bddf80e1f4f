import GrpcLua.Core.Call
import GrpcLua.Core.CallOpData
import GrpcLua.Support.Runs

/-!
# Client — Unary

A call of one request and one response: `ServiceStub::SyncRequest` and `ServiceStub::AsyncRequest`
of `core/client/service_stub.cpp`, with `ClientCallCqTag` and `ClientAsyncCallCqTag`.

`tag` and `cod` are what the batch of the call has received.  A callback that raises answers
`none`; it cannot reach the tag that calls it.
-/

namespace GrpcLua
open Prog

/-- What the user gets for a request: a status, and the response that goes with it. -/
abbrev Report := Status × Bytes

/-- `ClientCallCqTag::Start(request)`: the operations of its batch. -/
def clientCall (request : Bytes) : Batch :=
  [.sendMsg request, .sendInitMd, .recvInitMd, .recvMsg, .clientSendClose, .clientRecvStatus]

/-- `ClientCallCqTag::GetResponse(response)`: its status, and what it leaves in `response`. -/
def getResponse {σ : Type} (tag : CodRecvMsg) (cod : CodClientRecvStatus) (response : Bytes) :
    EStateM Exit σ Report :=
  if !cod.isStatusOk then pure (cod.getStatus, response) else tag.getResultMsg response

/-! ### The synchronous request -/

/-- A `ServiceStub` seen by one request. -/
abbrev ServiceStub := Env Report

namespace ServiceStub

instance : HasEnv ServiceStub Report where
  env s := s
  setEnv _ e := e

/-- `SyncRequest(method, request, response)`; what it returns is in the trace. -/
def syncRequest (request response : Bytes) (tag : CodRecvMsg) (cod : CodClientRecvStatus) :
    EStateM Exit ServiceStub Unit := do
  let started ← startBatch (clientCall request)
  if !started then
    emit (.called (.internalError (str "Failed to request."), response))
  else
  let r ← getResponse tag cod response
  emit (.called r)

end ServiceStub

/-! ### The asynchronous request -/

/-- The callbacks of a `ClientAsyncCallCqTag`. -/
structure ClientAsyncCallCqTag where
  responseCb : Option (Bytes → Option Status)
  errorCb : Option (Status → Option Unit)

namespace AsyncCall

/-- The calls of the callbacks. -/
inductive Cb where
  | responseCb (resp : Bytes)
  | errorCb (status : Status)
  deriving DecidableEq, Repr

end AsyncCall

/-- The tag and its surroundings. -/
structure AsyncCall extends ClientAsyncCallCqTag, Env AsyncCall.Cb

namespace AsyncCall

instance : HasEnv AsyncCall Cb where
  env s := s.toEnv
  setEnv s e := { s with toEnv := e }

@[simp] theorem env_eq (s : AsyncCall) : HasEnv.env s = s.toEnv := rfl

@[simp] theorem setEnv_eq (s : AsyncCall) (e : Env Cb) :
    HasEnv.setEnv s e = { s with toEnv := e } := rfl

abbrev M := EStateM Exit AsyncCall

/-- What a callback answers; where it raises, the exception escapes. -/
def answer {α : Type} : Option α → M α
  | some a => pure a
  | none => throw .exception

def callErrorCb (status : Status) : M Unit := do
  let s ← get
  match s.errorCb with
  | none => pure ()
  | some k =>
      emit (.called (.errorCb status))
      answer (k status)

/-- `AsyncRequest(method, request, response_cb, error_cb)`, with the callbacks of the tag. -/
def asyncRequest (request : Bytes) : M Unit := do
  let started ← startBatch (clientCall request)
  if started then pure ()
  else callErrorCb (.internalError (str "Failed to async request."))

/-- `DoComplete(success)`. -/
def doComplete (success : Bool) (tag : CodRecvMsg) (cod : CodClientRecvStatus) : M Unit := do
  if !success then callErrorCb (.internalError (str "ClientAsyncCallCqTag failed."))
  else
  let (status, resp) ← getResponse tag cod []
  if !status.ok then callErrorCb status
  else
  let s ← get
  match s.responseCb with
  | none => pure ()
  | some k =>
      emit (.called (.responseCb resp))
      let status ← answer (k resp)
      if !status.ok then callErrorCb status else pure ()

/-- What the callbacks were handed. -/
def told (tr : List (Event Cb)) : List Report :=
  tr.filterMap fun
    | .called (.responseCb resp) => some (.OK, resp)
    | .called (.errorCb status) => some (status, [])
    | _ => none

end AsyncCall

end GrpcLua
