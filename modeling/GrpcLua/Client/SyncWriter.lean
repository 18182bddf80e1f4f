import GrpcLua.Client.Unary

/-!
# Client — SyncWriter

`ClientSyncWriter` of `core/client/client_sync_writer.cpp`, with `ClientSyncWriterHelper`.  Like
every synchronous object it plucks its batches one by one, so a call is one step.
-/

namespace GrpcLua
open Prog

/-- `ClientSyncWriterData`. -/
structure ClientSyncWriterData where
  status : Status := .OK
  deriving DecidableEq, Repr

/-- The object and its surroundings; what `Close` returns is in the trace. -/
structure SyncWriter extends ClientSyncWriterData, Env Report where
  deriving DecidableEq, Repr

namespace SyncWriter

instance : HasEnv SyncWriter Report where
  env s := s.toEnv
  setEnv s e := { s with toEnv := e }

@[simp] theorem env_eq (s : SyncWriter) : HasEnv.env s = s.toEnv := rfl

@[simp] theorem setEnv_eq (s : SyncWriter) (e : Env Report) :
    HasEnv.setEnv s e = { s with toEnv := e } := rfl

abbrev M := EStateM Exit SyncWriter

/-- The constructor. -/
def construct : M Unit := do
  let started ← startBatch [.sendInitMd]
  if started then pure ()
  else
  modify fun s => { s with status := .internalError (str "Failed to start client sync writer.") }

/-- The object as its constructor leaves it; `MakeSharedCall` has made the call. -/
def new (starts : List Bool) (final : Status) : SyncWriter :=
  endState construct { starts := starts, final := final, trace := [] }

/-- `Write(request)`, with `ClientSyncWriterHelper::SyncWrite`. -/
def write (request : Bytes) : M Bool := do
  let s ← get
  if !s.status.ok then pure false
  else
  let started ← startBatch [.sendMsg request]
  if started then pure true
  else
  modify fun s => { s with status := .internalError (str "Failed to write client-side streaming.") }
  pure false

/-- `Close(response)`: its status, and what it leaves in `response`. -/
def close (response : Bytes) (tag : CodRecvMsg) (cod : CodClientRecvStatus) : M Report := do
  let s ← get
  if !s.status.ok then pure (s.status, response)
  else
  let started ← startBatch [.clientSendClose, .recvInitMd, .recvMsg, .clientRecvStatus]
  if !started then
    modify fun s =>
      { s with status := .internalError (str "Failed to finish client-side streaming.") }
    let s ← get
    pure (s.status, response)
  else
  let (status, response) ←
    if cod.isStatusOk then tag.getResultMsg response else pure (cod.getStatus, response)
  modify fun s => { s with status := status }
  pure (status, response)

/-- What the user does; a batch of `close` receives `tag` and `cod`. -/
inductive Step where
  | write (request : Bytes)
  | close (response : Bytes) (tag : CodRecvMsg) (cod : CodClientRecvStatus)

def Step.exec : Step → M Unit
  | write request => do
      let r ← SyncWriter.write request
      emit (.wrote request r)
  | close response tag cod => do
      let r ← SyncWriter.close response tag cod
      emit (.called r)

/-- The run that starts with the constructor and takes the steps `ls`. -/
abbrev after (s : SyncWriter) (ls : List Step) : Process SyncWriter :=
  Process.after Step.exec (.running s) ls

end SyncWriter

end GrpcLua
