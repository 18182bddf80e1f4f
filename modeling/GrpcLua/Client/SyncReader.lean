import GrpcLua.Core.Call
import GrpcLua.Core.CallOpData
import GrpcLua.Support.Runs

/-!
# Client — SyncReader

`ClientSyncReader` of `core/client/client_sync_reader.cpp`, with `ClientSyncReaderHelper`.  Its
constructor sends the request and half-closes the call; like every synchronous object it plucks
its batches one by one, so a call is one step.
-/

namespace GrpcLua
open Prog

/-- `ClientSyncReaderData`. -/
structure ClientSyncReaderData where
  status : Status := .OK
  deriving DecidableEq, Repr

namespace SyncReader

/-- What the calls of the user return. -/
inductive Ret where
  | readOne (response : Option Bytes)
  | recvStatus (status : Status)
  deriving DecidableEq, Repr

end SyncReader

/-- The object and its surroundings. -/
structure SyncReader extends ClientSyncReaderData, Env SyncReader.Ret where
  deriving DecidableEq, Repr

namespace SyncReader

instance : HasEnv SyncReader Ret where
  env s := s.toEnv
  setEnv s e := { s with toEnv := e }

@[simp] theorem env_eq (s : SyncReader) : HasEnv.env s = s.toEnv := rfl

@[simp] theorem setEnv_eq (s : SyncReader) (e : Env Ret) :
    HasEnv.setEnv s e = { s with toEnv := e } := rfl

abbrev M := EStateM Exit SyncReader

/-- The constructor, with `ClientReaderInitCqTag::Start(request)`. -/
def construct (request : Bytes) : M Unit := do
  let started ← startBatch [.sendMsg request, .sendInitMd, .recvInitMd, .clientSendClose]
  if started then pure ()
  else
  modify fun s => { s with status := .internalError (str "Failed to start client sync reader.") }

/-- The object as its constructor leaves it; `MakeSharedCall` has made the call. -/
def new (request : Bytes) (starts : List Bool) (final : Status) : SyncReader :=
  endState (construct request) { starts := starts, final := final, trace := [] }

/-- `ReadOne(response)`, which is `SyncReadOne` of a batch that receives `tag`: the response where
it returns true. -/
def readOne (tag : CodRecvMsg) : M (Option Bytes) := do
  let s ← get
  if !s.status.ok then pure none
  else
  let started ← startBatch [.recvMsg]
  if !started then
    modify fun s =>
      { s with status := .internalError (str "Failed to read server-side streaming.") }
    pure none
  else if !tag.hasGotMsg then pure none
  else
  let (status, response) ← tag.getResultMsg []
  modify fun s => { s with status := status }
  pure (if status.ok then some response else none)

/-- `RecvStatus()`, with `SyncRecvStatus`: the batch receives the status the server ends the call
with. -/
def recvStatus : M Status := do
  let s ← get
  if !s.status.ok then pure s.status
  else
  let started ← startBatch [.clientRecvStatus]
  if !started then pure (.internalError (str "Failed to receive status."))
  else
  let s ← get
  let cod : CodClientRecvStatus := { statusCode := s.final.code, statusDetails := s.final.details }
  pure cod.getStatus

def setErrorStatus (errorStatus : Status) : M Unit := do
  check fun _ => !errorStatus.ok
  modify fun s => { s with status := errorStatus }

/-- What the user does. -/
inductive Step where
  | readOne (tag : CodRecvMsg)
  | recvStatus
  | setErrorStatus (errorStatus : Status)
  deriving DecidableEq, Repr

def Step.exec : Step → M Unit
  | readOne tag => do
      let r ← SyncReader.readOne tag
      emit (.called (.readOne r))
  | recvStatus => do
      let st ← SyncReader.recvStatus
      emit (.called (.recvStatus st))
  | setErrorStatus e => SyncReader.setErrorStatus e

/-- The run that starts with the constructor and takes the steps `ls`. -/
abbrev after (s : SyncReader) (ls : List Step) : Process SyncReader :=
  Process.after Step.exec (.running s) ls

end SyncReader

end GrpcLua
