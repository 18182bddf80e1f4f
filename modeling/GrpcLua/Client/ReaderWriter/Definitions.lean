import GrpcLua.Core.Call
import GrpcLua.Core.CallOpData
import GrpcLua.Support.Runs

/-!
# Client — ReaderWriter — Definitions

`ClientAsyncReaderWriterImpl` of `core/client/impl/client_async_reader_writer_impl.cpp`, function
by function, and the steps it takes.

`ReaderWriter` is the object with its surroundings: the environment, and the tags that share the
object while their batches are in flight.  A function runs under the object's recursive mutex, so
a call of another thread waits until it ends; a callback runs on the same thread and may call the
object again.  `k` is what `status_cb_` does with the status it is handed; it answers nothing,
and what a `Reaction` answers for it is ignored.
-/

namespace GrpcLua
open Prog

/-- The members of `ClientAsyncReaderWriterImpl`.  Of a callback, whether it is set. -/
structure ClientAsyncReaderWriterImpl where
  status : Status := .OK
  msgCb : Bool := false
  statusCb : Bool
  inited : Bool := false
  readingStarted : Bool := false
  writingClosing : Bool := false
  readingEnded : Bool := false
  writingEnded : Bool := false
  msgQueue : List Bytes := []
  hasSentClose : Bool := false
  deriving DecidableEq, Repr

namespace ReaderWriter

/-- The callbacks of the object. -/
inductive Cb where
  | msgCb (msg : Bytes)
  | statusCb (status : Status)
  deriving DecidableEq, Repr

end ReaderWriter

/-- The object, its surroundings, and what shares it: the `ClientAsyncReaderWriterImplWrapper`,
until it is destroyed, and the tags in flight, which are the messages of the `ClientSendMsgCqTag`s
and the number of `ClientReaderReadCqTag`s. -/
structure ReaderWriter extends ClientAsyncReaderWriterImpl, Env ReaderWriter.Cb where
  wrapper : Bool := true
  sending : List Bytes := []
  reading : Nat := 0
  deriving DecidableEq, Repr

namespace ReaderWriter

instance : HasEnv ReaderWriter Cb where
  env s := s.toEnv
  setEnv s e := { s with toEnv := e }

@[simp] theorem env_eq (s : ReaderWriter) : HasEnv.env s = s.toEnv := rfl

@[simp] theorem setEnv_eq (s : ReaderWriter) (e : Env Cb) :
    HasEnv.setEnv s e = { s with toEnv := e } := rfl

abbrev M := EStateM Exit ReaderWriter

/-- The constructor; `MakeSharedCall` has made the call. -/
def new (statusCb : Bool) (starts : List Bool) (final : Status) : ReaderWriter where
  statusCb := statusCb
  starts := starts
  final := final
  trace := []

/-! ### The private functions -/

section functions
variable (k : Status → M Status)

def callStatusCb : M Unit := do
  let s ← get
  if s.statusCb then
    emit (.called (.statusCb s.status))
    let _ ← k s.status
    modify fun s => { s with statusCb := false }
  else pure ()

def endOnErrorStatus (errorStatus : Status) : M Unit := do
  check fun _ => !errorStatus.ok
  check fun s => s.status.ok
  modify fun s => { s with status := errorStatus }
  callStatusCb k
  -- Set ended on error.
  modify fun s => { s with readingEnded := true, writingEnded := true }

def setInternalError (sError : Bytes) : M Unit := do
  check fun s => s.status.ok
  endOnErrorStatus k (.internalError sError)

def initIfNot : M Unit := do
  let s ← get
  if s.inited then pure () else
  modify fun s => { s with inited := true }
  if !s.status.ok then pure () else
  let started ← startBatch [.sendInitMd]
  if !started then
    setInternalError k (str "Failed to send init metadata to init bi-directional streaming.")
  else
  let started ← startBatch [.recvInitMd]
  if !started then
    setInternalError k (str "Failed to receive init metadata to init bi-directional streaming.")
  else pure ()

/-- `SendNext()`; the tag of the front message shares the object until it completes. -/
def sendNext : M Bool := do
  check fun s => !s.msgQueue.isEmpty
  check fun s => s.status.ok
  let s ← get
  let started ← startBatch [.sendMsg (s.msgQueue.headD [])]
  if started then
    modify fun s => { s with sending := s.sending ++ [s.msgQueue.headD []] }
    pure true
  else
    setInternalError k (str "Failed to write bi-directional streaming.")
    pure false

def readNext : M Unit := do
  check fun s => s.status.ok
  let started ← startBatch [.recvMsg]
  if started then
    modify fun s => { s with reading := s.reading + 1 }
  else
    setInternalError k (str "Failed to async read bi-directional streaming.")

def sendClose : M Unit := do
  check fun s => s.writingClosing
  check fun s => !s.hasSentClose
  -- Set within an assertion.
  modify fun s => { s with hasSentClose := true }
  check fun s => s.status.ok
  modify fun s => { s with writingEnded := true }
  let started ← startBatch [.clientSendClose]
  if started then pure ()
  else setInternalError k (str "Failed to close writing.")

/-! ### The public functions -/

def write (msg : Bytes) : M Bool := do
  initIfNot k
  let s ← get
  if !s.status.ok then
    check fun s => s.readingEnded && s.writingEnded
    pure false
  else if s.writingClosing || s.writingEnded then pure false
  else
  let isSending := !s.msgQueue.isEmpty
  modify fun s => { s with msgQueue := s.msgQueue ++ [msg] }
  if isSending then pure true else sendNext k

def closeWriting : M Unit := do
  let s ← get
  if s.writingClosing then pure () else
  modify fun s => { s with writingClosing := true }
  if !s.status.ok then pure ()
  -- Where a message is in flight, `OnSent` sends the close.
  else if !s.msgQueue.isEmpty then pure ()
  else
  check fun s => !s.hasSentClose
  sendClose k
  check fun s => s.writingEnded

/-- `ReadEach(msg_cb)`; `msgCb` says whether a callback is given. -/
def readEach (msgCb : Bool) : M Unit := do
  let s ← get
  if s.readingStarted then pure () else
  modify fun s => { s with readingStarted := true }
  initIfNot k
  let s ← get
  if !s.status.ok then pure () else
  modify fun s => { s with msgCb := msgCb }
  readNext k

def setErrorStatus (errorStatus : Status) : M Unit := do
  check fun _ => !errorStatus.ok
  let s ← get
  if s.status.ok then endOnErrorStatus k errorStatus
  -- Only the status is replaced.
  else modify fun s => { s with status := errorStatus }

/-! ### The completions -/

def onSent (success : Bool) : M Unit := do
  check fun s => !s.msgQueue.isEmpty
  modify fun s => { s with msgQueue := s.msgQueue.tail }
  let s ← get
  -- In error, the callback should have been called and reset.
  if !s.status.ok then check fun s => !s.statusCb
  else if !success then setInternalError k (str "Failed to send message.")
  else if !s.msgQueue.isEmpty then
    let _ ← sendNext k
    pure ()
  else if !s.writingClosing then pure ()
  else
  sendClose k
  check fun s => s.writingEnded
  let s ← get
  if s.readingEnded then callStatusCb k else pure ()

/-- `OnRead(success, tag)`; `tag` is what the tag received and `onMsg` what `msg_cb_` does. -/
def onRead (onMsg : Bytes → M Status) (success : Bool) (tag : CodRecvMsg) : M Unit := do
  check fun s => s.readingStarted
  let s ← get
  if !s.status.ok then check fun s => !s.statusCb
  else if !success then setInternalError k (str "ClientReaderReadCqTag failed.")
  else if !tag.hasGotMsg then
    -- The normal end of the reading.
    modify fun s => { s with readingEnded := true }
    if s.writingEnded then callStatusCb k else pure ()
  else
  let (status, sMsg) ← tag.getResultMsg []
  if !status.ok then endOnErrorStatus k status
  else if s.msgCb then
    emit (.called (.msgCb sMsg))
    let status ← onMsg sMsg
    if !status.ok then endOnErrorStatus k status else readNext k
  else readNext k

end functions

/-! ### Steps -/

/-- What the user calls.  `destroyWrapper` is the destructor of
`ClientAsyncReaderWriterImplWrapper`, which closes the writing of the object it owns. -/
inductive Call where
  | write (msg : Bytes)
  | closeWriting
  | readEach (msgCb : Bool)
  | setErrorStatus (errorStatus : Status)
  | destroyWrapper

def Call.exec : Call → (Status → M Status) → M Unit
  | write msg, k => do
      let r ← ReaderWriter.write k msg
      emit (.wrote msg r)
  | closeWriting, k => ReaderWriter.closeWriting k
  | readEach msgCb, k => ReaderWriter.readEach k msgCb
  | setErrorStatus errorStatus, k => ReaderWriter.setErrorStatus k errorStatus
  | destroyWrapper, k => do
      ReaderWriter.closeWriting k
      modify fun s => { s with wrapper := false }

/-- What one invocation of a callback does. -/
abbrev React := Reaction Call Status Status

/-- The invocation as a program; an exception of the callback escapes. -/
def React.prog (r : React) : M Status := r.run Call.exec .exception

/-- A step: a call of the user, or the completion of a tag.  It says how the callbacks react that
it invokes. -/
inductive Step where
  | call (c : Call) (cb : Status → React)
  | sent (success : Bool) (cb : Status → React)
  | read (success : Bool) (tag : CodRecvMsg) (onMsg : Bytes → React) (cb : Status → React)

def Step.exec : Step → M Unit
  | call c cb => c.exec fun st => (cb st).prog
  | sent success cb => do
      let s ← get
      modify fun s => { s with sending := s.sending.tail }
      emit (.sent (s.sending.headD []) success)
      onSent (fun st => (cb st).prog) success
  | read success tag onMsg cb => do
      modify fun s => { s with reading := s.reading - 1 }
      onRead (fun st => (cb st).prog) (fun msg => (onMsg msg).prog) success tag

/-- A tag completes only while it is in flight. -/
def Step.Enabled (s : ReaderWriter) : Step → Prop
  | call _ _ => True
  | sent _ _ => s.sending ≠ []
  | read _ _ _ _ => 0 < s.reading

instance Step.decidableEnabled (s : ReaderWriter) : (l : Step) → Decidable (Step.Enabled s l)
  | .call _ _ => isTrue trivial
  | .sent _ _ => inferInstanceAs (Decidable (s.sending ≠ []))
  | .read _ _ _ _ => inferInstanceAs (Decidable (0 < s.reading))

/-- The run that starts with the constructor and takes the steps `ls`. -/
abbrev after (s : ReaderWriter) (ls : List Step) : Process ReaderWriter :=
  Process.after Step.exec (.running s) ls

/-- Every completion of the run is one of a tag in flight. -/
abbrev Legal (s : ReaderWriter) (ls : List Step) : Prop :=
  Process.Along Step.exec Step.Enabled (.running s) ls

end ReaderWriter

end GrpcLua
