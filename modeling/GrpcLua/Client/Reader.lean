import GrpcLua.Core.Call
import GrpcLua.Core.CallOpData
import GrpcLua.Support.Runs

/-!
# Client — Reader

`ClientAsyncReaderImpl` of `core/client/impl/client_async_reader_impl.cpp`, the asynchronous
reader of a server-side stream, and the statuses it hands to its callback.

The status of the call is received by a batch of its own, whose tag
`ClientReaderAsyncRecvStatusCqTag` has a copy of `status_cb_`; so the object hands on either a
status of its own or the server's.
-/

namespace GrpcLua
open Prog

/-- The members of `ClientAsyncReaderImpl`.  Of a callback, whether it is set. -/
structure ClientAsyncReaderImpl where
  request : Bytes
  status : Status := .OK
  msgCb : Bool := false
  statusCb : Bool := false
  isStarted : Bool := false
  deriving DecidableEq, Repr

namespace Reader

/-- The callbacks of the object. -/
inductive Cb where
  | msgCb (msg : Bytes)
  | statusCb (status : Status)
  deriving DecidableEq, Repr

end Reader

/-- The object, its surroundings, and the tags in flight that share it or its callback: the number
of `ClientReaderReadCqTag`s, and for each `ClientReaderAsyncRecvStatusCqTag` whether it has a
callback. -/
structure Reader extends ClientAsyncReaderImpl, Env Reader.Cb where
  reading : Nat := 0
  receiving : List Bool := []
  deriving DecidableEq, Repr

namespace Reader

instance : HasEnv Reader Cb where
  env s := s.toEnv
  setEnv s e := { s with toEnv := e }

@[simp] theorem env_eq (s : Reader) : HasEnv.env s = s.toEnv := rfl

@[simp] theorem setEnv_eq (s : Reader) (e : Env Cb) : HasEnv.setEnv s e = { s with toEnv := e } :=
  rfl

abbrev M := EStateM Exit Reader

/-- The constructor; `MakeSharedCall` has made the call. -/
def new (request : Bytes) (starts : List Bool) (final : Status) : Reader where
  request := request
  starts := starts
  final := final
  trace := []

section functions
variable (k : Status → M Status)

def callStatusCb : M Unit := do
  let s ← get
  if s.statusCb then
    emit (.called (.statusCb s.status))
    let _ ← k s.status
    modify fun s => { s with statusCb := false }
  else pure ()

/-- `Init()`; its tag has nothing to do on completion. -/
def init : M Bool := do
  check fun s => s.status.ok
  let s ← get
  let started ← startBatch [.sendMsg s.request, .sendInitMd, .recvInitMd, .clientSendClose]
  if started then pure true
  else
  modify fun s => { s with status := .internalError (str "Failed to start async client reader.") }
  callStatusCb k
  pure false

def readNext : M Unit := do
  check fun s => s.status.ok
  let started ← startBatch [.recvMsg]
  if started then
    modify fun s => { s with reading := s.reading + 1 }
  else
    modify fun s =>
      { s with status := .internalError (str "Failed to async read server-side streaming.") }
    callStatusCb k

/-- `Start(msg_cb, status_cb)`; the arguments say which callbacks are given. -/
def start (msgCb statusCb : Bool) : M Unit := do
  let s ← get
  if s.isStarted then pure () else
  modify fun s => { s with isStarted := true, msgCb := msgCb, statusCb := statusCb }
  check fun s => s.status.ok
  let inited ← init k
  if inited then readNext k else pure ()

/-- `RecvStatus(call_sptr, status_cb)`, on the call of the object. -/
def recvStatus (statusCb : Bool) : M Unit := do
  let started ← startBatch [.clientRecvStatus]
  if started then
    modify fun s => { s with receiving := s.receiving ++ [statusCb] }
  else if statusCb then
    let error := Status.internalError (str "Failed to receive status.")
    emit (.called (.statusCb error))
    let _ ← k error
    pure ()
  else pure ()

/-- `OnRead(success, tag)`; `tag` is what the tag received and `onMsg` what `msg_cb_` does. -/
def onRead (onMsg : Bytes → M Status) (success : Bool) (tag : CodRecvMsg) : M Unit := do
  check fun s => s.isStarted
  check fun s => s.status.ok
  if !success then
    modify fun s => { s with status := .internalError (str "ClientReaderReadCqTag failed.") }
    callStatusCb k
  else if !tag.hasGotMsg then
    let s ← get
    recvStatus k s.statusCb
  else
  let (status, sMsg) ← tag.getResultMsg []
  modify fun s => { s with status := status }
  if !status.ok then callStatusCb k
  else
  let s ← get
  if s.msgCb then
    emit (.called (.msgCb sMsg))
    let status ← onMsg sMsg
    modify fun s => { s with status := status }
    if !status.ok then callStatusCb k else readNext k
  else readNext k

/-- `ClientReaderAsyncRecvStatusCqTag::DoComplete(success)`, of a tag that received `cod`. -/
def onRecvStatus (statusCb success : Bool) (cod : CodClientRecvStatus) : M Unit := do
  if !statusCb then pure ()
  else
  let status := if success then cod.getStatus else .internalError (str "Failed to receive status.")
  emit (.called (.statusCb status))
  let _ ← k status
  pure ()

end functions

/-! ### Steps -/

/-- What the user calls. -/
inductive Call where
  | start (msgCb statusCb : Bool)

def Call.exec : Call → (Status → M Status) → M Unit
  | start msgCb statusCb, k => Reader.start k msgCb statusCb

/-- What one invocation of a callback does. -/
abbrev React := Reaction Call Status Status

/-- The invocation as a program; an exception of the callback escapes. -/
def React.prog (r : React) : M Status := r.run Call.exec .exception

/-- A step: a call of the user, or the completion of a tag.  A status that is received is the one
the server ends the call with. -/
inductive Step where
  | call (c : Call) (cb : Status → React)
  | read (success : Bool) (tag : CodRecvMsg) (onMsg : Bytes → React) (cb : Status → React)
  | recvStatus (success : Bool) (cb : Status → React)

def Step.exec : Step → M Unit
  | call c cb => c.exec fun st => (cb st).prog
  | read success tag onMsg cb => do
      modify fun s => { s with reading := s.reading - 1 }
      onRead (fun st => (cb st).prog) (fun msg => (onMsg msg).prog) success tag
  | recvStatus success cb => do
      let s ← get
      modify fun s => { s with receiving := s.receiving.tail }
      onRecvStatus (fun st => (cb st).prog) (s.receiving.headD false) success
        { statusCode := s.final.code, statusDetails := s.final.details }

/-- A tag completes only while it is in flight. -/
def Step.Enabled (s : Reader) : Step → Prop
  | call _ _ => True
  | read _ _ _ _ => 0 < s.reading
  | recvStatus _ _ => s.receiving ≠ []

instance Step.decidableEnabled (s : Reader) : (l : Step) → Decidable (Step.Enabled s l)
  | .call _ _ => isTrue trivial
  | .read _ _ _ _ => inferInstanceAs (Decidable (0 < s.reading))
  | .recvStatus _ _ => inferInstanceAs (Decidable (s.receiving ≠ []))

/-- The run that starts with the constructor and takes the steps `ls`. -/
abbrev after (s : Reader) (ls : List Step) : Process Reader :=
  Process.after Step.exec (.running s) ls

/-- Every completion of the run is one of a tag in flight. -/
abbrev Legal (s : Reader) (ls : List Step) : Prop :=
  Process.Along Step.exec Step.Enabled (.running s) ls

/-- The statuses handed to `status_cb_`, call after call. -/
def statuses (tr : List (Event Cb)) : List Status :=
  tr.filterMap fun | .called (.statusCb st) => some st | _ => none

@[simp] theorem statuses_append (tr tr' : List (Event Cb)) :
    statuses (tr ++ tr') = statuses tr ++ statuses tr' := List.filterMap_append

end Reader

end GrpcLua
