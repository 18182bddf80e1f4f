import GrpcLua.Core.Call
import GrpcLua.Core.CallOpData
import GrpcLua.Support.Runs

/-!
# Client — SyncReaderWriter

`ClientSyncReaderWriterImpl` of `core/client/impl/client_sync_reader_writer_impl.h`, with the
helpers of `client_sync_reader_helper.h` and `client_sync_writer_helper.h`.

Every call waits in `Pluck` until its own batch has completed, and looks at what the batch left
behind and not at the event; so a call is one step, and what the batch received is given to it.
-/

namespace GrpcLua
open Prog

/-- `ClientSyncReaderData`, and the members of `ClientSyncReaderWriterImpl`. -/
structure ClientSyncReaderWriterImpl where
  status : Status := .OK
  writingClosed : Bool := false
  initMdReceived : Bool := false
  deriving DecidableEq, Repr

namespace SyncReaderWriter

/-- What the calls of the user return. -/
inductive Ret where
  | readOne (response : Option Bytes)
  | recvStatus (status : Status)
  deriving DecidableEq, Repr

end SyncReaderWriter

/-- The object and its surroundings. -/
structure SyncReaderWriter extends ClientSyncReaderWriterImpl, Env SyncReaderWriter.Ret where
  deriving DecidableEq, Repr

namespace SyncReaderWriter

instance : HasEnv SyncReaderWriter Ret where
  env s := s.toEnv
  setEnv s e := { s with toEnv := e }

@[simp] theorem env_eq (s : SyncReaderWriter) : HasEnv.env s = s.toEnv := rfl

@[simp] theorem setEnv_eq (s : SyncReaderWriter) (e : Env Ret) :
    HasEnv.setEnv s e = { s with toEnv := e } := rfl

abbrev M := EStateM Exit SyncReaderWriter

/-- The object before its constructor has run; `MakeSharedCall` has made the call. -/
def empty (starts : List Bool) (final : Status) : SyncReaderWriter where
  starts := starts
  final := final
  trace := []

/-- The constructor. -/
def construct : M Unit := do
  let started ← startBatch [.sendInitMd]
  if started then pure ()
  else
  modify fun s =>
    { s with status := .internalError (str "Failed to start client sync reader writer.") }

/-- The object as its constructor leaves it. -/
def new (starts : List Bool) (final : Status) : SyncReaderWriter :=
  endState construct (empty starts final)

/-- `Write(request)`, with `ClientSyncWriterHelper::SyncWrite`. -/
def write (request : Bytes) : M Bool := do
  let s ← get
  if !s.status.ok then pure false
  else
  let started ← startBatch [.sendMsg request]
  if started then pure true
  else
  modify fun s => { s with status := .internalError (str "Failed to write client-side streaming.") }
  pure false

def closeWriting : M Unit := do
  let s ← get
  if s.writingClosed then pure () else
  modify fun s => { s with writingClosed := true }
  if !s.status.ok then pure ()
  else
  let started ← startBatch [.clientSendClose]
  if started then pure ()
  else modify fun s => { s with status := .internalError (str "Failed to close writing.") }

def recvInitMdIfNot : M Unit := do
  let s ← get
  if s.initMdReceived then pure () else
  modify fun s => { s with initMdReceived := true }
  check fun s => s.status.ok
  let started ← startBatch [.recvInitMd]
  if started then pure ()
  else modify fun s => { s with status := .internalError (str "Failed to receive init metadata.") }

/-- `ClientSyncReaderHelper::SyncReadOne`, of a batch that receives `tag`. -/
def syncReadOne (tag : CodRecvMsg) : M (Option Bytes) := do
  let s ← get
  if !s.status.ok then pure none
  else
  let started ← startBatch [.recvMsg]
  if !started then
    modify fun s =>
      { s with status := .internalError (str "Failed to read server-side streaming.") }
    pure none
  else if !tag.hasGotMsg then pure none
  else
  let (status, response) ← tag.getResultMsg []
  modify fun s => { s with status := status }
  pure (if status.ok then some response else none)

/-- `ReadOne(response)`: the response where it returns true. -/
def readOne (tag : CodRecvMsg) : M (Option Bytes) := do
  let s ← get
  if !s.status.ok then pure none
  else
  recvInitMdIfNot
  let s ← get
  if !s.status.ok then pure none else syncReadOne tag

/-- `ClientSyncReaderHelper::SyncRecvStatus`: the batch receives the status the server ends the
call with. -/
def syncRecvStatus : M Status := do
  let started ← startBatch [.clientRecvStatus]
  if !started then pure (.internalError (str "Failed to receive status."))
  else
  let s ← get
  let cod : CodClientRecvStatus := { statusCode := s.final.code, statusDetails := s.final.details }
  pure cod.getStatus

def recvStatus : M Status := do
  let s ← get
  if !s.status.ok then pure s.status else syncRecvStatus

def setErrorStatus (errorStatus : Status) : M Unit := do
  check fun _ => !errorStatus.ok
  modify fun s => { s with status := errorStatus }

/-! ### Steps -/

/-- What the user does; `destroy` is the destructor. -/
inductive Step where
  | write (request : Bytes)
  | closeWriting
  | readOne (tag : CodRecvMsg)
  | recvStatus
  | setErrorStatus (errorStatus : Status)
  | destroy
  deriving DecidableEq, Repr

def Step.exec : Step → M Unit
  | write request => do
      let r ← SyncReaderWriter.write request
      emit (.wrote request r)
  | closeWriting => SyncReaderWriter.closeWriting
  | readOne tag => do
      let r ← SyncReaderWriter.readOne tag
      emit (.called (.readOne r))
  | recvStatus => do
      let st ← SyncReaderWriter.recvStatus
      emit (.called (.recvStatus st))
  | setErrorStatus e => SyncReaderWriter.setErrorStatus e
  | destroy => SyncReaderWriter.closeWriting

/-- The run that starts with the constructor and takes the steps `ls`. -/
abbrev after (s : SyncReaderWriter) (ls : List Step) : Process SyncReaderWriter :=
  Process.after Step.exec (.running s) ls

end SyncReaderWriter

end GrpcLua
