import GrpcLua.Core.Call
import GrpcLua.Core.CallOpData
import GrpcLua.Support.Runs

/-!
# Client — Writer — Definitions

`ClientAsyncWriterImpl` of `core/client/impl/client_async_writer_impl.cpp`, function by function,
and the steps it takes.

A `close_cb` is known by the number of the `Close` call it was given to, counted from 0.  The
trace has the `Close` calls, the callbacks, and what the close batch received.
-/

namespace GrpcLua
open Prog

/-- The members of `ClientAsyncWriterImpl`. -/
structure ClientAsyncWriterImpl where
  status : Status := .OK
  hasSentClose : Bool := false
  closeCb : Option Nat := none
  isClosing : Bool := false
  msgQueue : List Bytes := []
  deriving DecidableEq, Repr

namespace Writer

/-- What passes between the object, the user and the close batch. -/
inductive Cb where
  /-- `Close` is called; `given` says whether with a callback. -/
  | close (given : Bool)
  /-- The close batch has completed. -/
  | closed (tag : CodRecvMsg)
  /-- The callback of the `n`-th `Close` is invoked. -/
  | closeCb (n : Nat) (status : Status) (msg : Bytes)
  deriving DecidableEq, Repr

/-- The `Close` calls, and whether they had a callback. -/
def closes (tr : List (Event Cb)) : List Bool :=
  tr.filterMap fun | .called (.close given) => some given | _ => none

end Writer

/-- The object, its surroundings, and the tags in flight that share it: the messages of the
`ClientSendMsgCqTag`s, and the number of `ClientWriterCloseCqTag`s. -/
structure Writer extends ClientAsyncWriterImpl, Env Writer.Cb where
  sending : List Bytes := []
  closing : Nat := 0
  deriving DecidableEq, Repr

namespace Writer

instance : HasEnv Writer Cb where
  env s := s.toEnv
  setEnv s e := { s with toEnv := e }

@[simp] theorem env_eq (s : Writer) : HasEnv.env s = s.toEnv := rfl

@[simp] theorem setEnv_eq (s : Writer) (e : Env Cb) : HasEnv.setEnv s e = { s with toEnv := e } :=
  rfl

abbrev M := EStateM Exit Writer

/-- The object before its constructor has run; `MakeSharedCall` has made the call. -/
def empty (starts : List Bool) (final : Status) : Writer where
  starts := starts
  final := final
  trace := []

/-- The constructor. -/
def construct : M Unit := do
  let started ← startBatch [.sendInitMd]
  if started then pure ()
  else
  modify fun s => { s with status := .internalError (str "Failed to init client-side streaming.") }
  check fun s => !s.isClosing

/-- The object as its constructor leaves it. -/
def new (starts : List Bool) (final : Status) : Writer := endState construct (empty starts final)

section functions
variable (k : Status → M Unit)

/-- `CallCloseCb(sMsg)`. -/
def callCloseCb (sMsg : Bytes) : M Unit := do
  let s ← get
  match s.closeCb with
  | none => pure ()
  | some n =>
      emit (.called (.closeCb n s.status sMsg))
      k s.status
      modify fun s => { s with closeCb := none }

def tryToCallCloseCb : M Unit := do
  check fun s => !s.status.ok
  let s ← get
  if s.isClosing then callCloseCb k [] else pure ()

/-- `SendNext()`; the tag of the front message shares the object until it completes. -/
def sendNext : M Bool := do
  check fun s => !s.msgQueue.isEmpty
  check fun s => s.status.ok
  let s ← get
  let started ← startBatch [.sendMsg (s.msgQueue.headD [])]
  if started then
    modify fun s => { s with sending := s.sending ++ [s.msgQueue.headD []] }
    pure true
  else
    modify fun s =>
      { s with status := .internalError (str "Failed to write client-side streaming.") }
    tryToCallCloseCb k
    pure false

def sendClose : M Unit := do
  check fun s => s.isClosing
  check fun s => !s.hasSentClose
  -- Set within an assertion.
  modify fun s => { s with hasSentClose := true }
  check fun s => s.status.ok
  let started ← startBatch [.clientSendClose, .recvInitMd, .recvMsg, .clientRecvStatus]
  if started then
    modify fun s => { s with closing := s.closing + 1 }
  else
    modify fun s =>
      { s with status := .internalError (str "Failed to close client-side streaming.") }
    callCloseCb k []

def write (request : Bytes) : M Bool := do
  let s ← get
  if !s.status.ok then pure false
  else if s.isClosing then pure false
  else
  let isSending := !s.msgQueue.isEmpty
  modify fun s => { s with msgQueue := s.msgQueue ++ [request] }
  if isSending then pure true else sendNext k

/-- `Close(close_cb)`; the wrapper's destructor gives no callback. -/
def close (closeCb : Option Nat) : M Unit := do
  let s ← get
  if s.isClosing then pure () else
  modify fun s => { s with isClosing := true, closeCb := closeCb }
  if !s.status.ok then callCloseCb k []
  -- Where a message is in flight, `OnSent` sends the close.
  else if s.msgQueue.isEmpty then sendClose k
  else pure ()

def onSent (success : Bool) : M Unit := do
  check fun s => !s.msgQueue.isEmpty
  modify fun s => { s with msgQueue := s.msgQueue.tail }
  let s ← get
  -- In error, the callback should have been called and reset, or not have been set yet.
  if !s.status.ok then check fun s => s.closeCb.isNone
  else if !success then
    modify fun s => { s with status := .internalError (str "Failed to send message.") }
    tryToCallCloseCb k
  else if !s.msgQueue.isEmpty then
    let _ ← sendNext k
    pure ()
  else if s.isClosing then sendClose k
  else pure ()

/-- `OnClosed(success, tag)`; `tag` and `cod` are what the tag received. -/
def onClosed (_success : Bool) (tag : CodRecvMsg) (cod : CodClientRecvStatus) : M Unit := do
  let s ← get
  if !s.status.ok then check fun s => s.closeCb.isNone
  else if !cod.isStatusOk then
    modify fun s => { s with status := cod.getStatus }
    callCloseCb k []
  else
  let (status, sMsg) ← tag.getResultMsg []
  modify fun s => { s with status := status }
  callCloseCb k sMsg

end functions

/-! ### Steps -/

/-- What the user calls; `given` says whether `Close` is given a callback. -/
inductive Call where
  | write (request : Bytes)
  | close (given : Bool)

def Call.exec : Call → (Status → M Unit) → M Unit
  | write request, k => do
      let r ← Writer.write k request
      emit (.wrote request r)
  | close given, k => do
      let s ← get
      emit (.called (.close given))
      Writer.close k (if given then some (closes s.trace).length else none)

/-- What one invocation of `close_cb_` does. -/
abbrev React := Reaction Call Status Unit

/-- The invocation as a program; an exception of the callback escapes. -/
def React.prog (r : React) : M Unit := r.run Call.exec .exception

/-- A step: a call of the user, or the completion of a tag.  The status a close batch receives is
the one the server ends the call with. -/
inductive Step where
  | call (c : Call) (cb : Status → React)
  | sent (success : Bool) (cb : Status → React)
  | closed (success : Bool) (tag : CodRecvMsg) (cb : Status → React)

/-- What the close batch receives of the final status. -/
def recvStatus (final : Status) : CodClientRecvStatus :=
  { statusCode := final.code, statusDetails := final.details }

def Step.exec : Step → M Unit
  | call c cb => c.exec fun st => (cb st).prog
  | sent success cb => do
      let s ← get
      modify fun s => { s with sending := s.sending.tail }
      emit (.sent (s.sending.headD []) success)
      onSent (fun st => (cb st).prog) success
  | closed success tag cb => do
      let s ← get
      modify fun s => { s with closing := s.closing - 1 }
      emit (.called (.closed tag))
      onClosed (fun st => (cb st).prog) success tag (recvStatus s.final)

/-- A tag completes only while it is in flight. -/
def Step.Enabled (s : Writer) : Step → Prop
  | call _ _ => True
  | sent _ _ => s.sending ≠ []
  | closed _ _ _ => 0 < s.closing

instance Step.decidableEnabled (s : Writer) : (l : Step) → Decidable (Step.Enabled s l)
  | .call _ _ => isTrue trivial
  | .sent _ _ => inferInstanceAs (Decidable (s.sending ≠ []))
  | .closed _ _ _ => inferInstanceAs (Decidable (0 < s.closing))

/-- The close batch completes with success, and with a message whenever the status is OK. -/
def Step.Answered (final : Status) : Step → Prop
  | closed success tag _ => success = true ∧ (final.ok = true → tag.hasGotMsg = true)
  | _ => True

instance Step.decidableAnswered (final : Status) :
    (l : Step) → Decidable (Step.Answered final l)
  | .call _ _ => isTrue trivial
  | .sent _ _ => isTrue trivial
  | .closed success tag _ => inferInstanceAs
      (Decidable (success = true ∧ (final.ok = true → tag.hasGotMsg = true)))

/-- The run that starts with the constructor and takes the steps `ls`. -/
abbrev after (s : Writer) (ls : List Step) : Process Writer :=
  Process.after Step.exec (.running s) ls

/-- Every completion of the run is one of a tag in flight, and the close batch is answered. -/
abbrev Legal (s : Writer) (ls : List Step) : Prop :=
  Process.Along Step.exec (fun s l => Step.Enabled s l ∧ Step.Answered s.final l) (.running s) ls

end Writer

end GrpcLua
