import GrpcLua.Core.Call
import GrpcLua.Support.Runs

/-!
# Server — Writer — Definitions

`ServerWriterImpl` of `core/server/impl/server_writer_impl.cpp`, function by function, and the
threads that share it.

The mutex is taken for one critical section at a time, so a thread's step is one critical section:
`Pc` is where it stands in the call it is in, and `Pc.exec` is its next section.  A completion
runs `TryToWriteNext()` on the thread of the completion queue.
-/

namespace GrpcLua
open Prog

/-- The members of `ServerWriterImpl`. -/
structure ServerWriterImpl where
  closed : Bool := false
  sendInitMd : Bool := true
  isSending : Bool := false
  highQueueSize : Nat := UInt64.size - 1
  queue : List Bytes := []
  closeStatus : Option Status := none
  deriving DecidableEq, Repr

namespace ServerWriter

/-- What the user does besides writing. -/
inductive Cb where
  /-- `AsyncClose(status)` is called, by `SyncClose` or the destructor too. -/
  | close (status : Status)
  /-- `SyncWrite(response)` has returned `accepted`. -/
  | syncWrote (response : Bytes) (accepted : Bool)
  deriving DecidableEq, Repr

/-- Where a thread stands: the critical section it is about to enter. -/
inductive Pc where
  | idle
  /-- `Write`: the size of the queue is looked at. -/
  | write (response : Bytes)
  | asyncWrite (response : Bytes)
  /-- `SyncWrite`: its `AsyncWrite`, a turn of its loop, and its last section. -/
  | syncWrite (response : Bytes)
  | waitWrite (response : Bytes)
  | endWrite (response : Bytes)
  | asyncClose (status : Status)
  /-- `SyncClose`: its `AsyncClose`, and a turn of its loop. -/
  | syncClose (status : Status)
  | waitClose
  | setHighQueueSize (size : Nat)
  deriving DecidableEq, Repr

end ServerWriter

/-- The object, its surroundings, the `ServerWriterWriteCqTag`s in flight that share it, and the
threads that use it. -/
structure ServerWriter extends ServerWriterImpl, Env ServerWriter.Cb where
  sending : List Bytes := []
  threads : List ServerWriter.Pc
  destroyed : Bool := false
  deriving DecidableEq, Repr

namespace ServerWriter

instance : HasEnv ServerWriter Cb where
  env s := s.toEnv
  setEnv s e := { s with toEnv := e }

@[simp] theorem env_eq (s : ServerWriter) : HasEnv.env s = s.toEnv := rfl

@[simp] theorem setEnv_eq (s : ServerWriter) (e : Env Cb) :
    HasEnv.setEnv s e = { s with toEnv := e } := rfl

abbrev M := EStateM Exit ServerWriter

/-- The object as its constructor leaves it, with `n` threads that may use it. -/
def new (starts : List Bool) (n : Nat) : ServerWriter where
  starts := starts
  final := .OK
  trace := []
  threads := List.replicate n .idle

/-! ### The private functions -/

/-- The operation that a write or status tag puts first. -/
def initMd (sendInitMd : Bool) : Batch := if sendInitMd then [.sendInitMd] else []

/-- The operations of `ServerWriterSendStatusCqTag::StartSend(status, send_init_md)`. -/
def statusBatch (status : Status) (sendInitMd : Bool) : Batch :=
  initMd sendInitMd ++ [.ofStatus status]

/-- The operations of `ServerWriterWriteCqTag::Start(message, send_init_md)`. -/
def msgBatch (message : Bytes) (sendInitMd : Bool) : Batch :=
  initMd sendInitMd ++ [.sendMsg message]

def sendStatus : M Unit := do
  check fun s => !s.closed
  check fun s => s.closeStatus.isSome
  check fun s => s.queue.isEmpty
  modify fun s => { s with closed := true }
  let s ← get
  -- A tag that is refused is deleted, and nothing more comes of it.
  let _started ← startBatch (statusBatch (s.closeStatus.getD .OK) s.sendInitMd)
  pure ()

/-- `SendMsg(msg)`; the tag shares the object until it completes. -/
def sendMsg (msg : Bytes) : M Bool := do
  check fun s => !s.closed
  check fun s => !s.isSending
  modify fun s => { s with isSending := true }
  let s ← get
  let started ← startBatch (msgBatch msg s.sendInitMd)
  if started then
    modify fun s => { s with sendInitMd := false, sending := s.sending ++ [msg] }
    pure true
  else
    -- The queue is reset to break `SyncWrite()`.
    modify fun s => { s with closed := true, queue := [] }
    pure false

/-- `queue_.pop()`, which is undefined on an empty queue. -/
def popQueue : M Unit := do
  let s ← get
  if s.queue.isEmpty then throw .undefined else modify fun s => { s with queue := s.queue.tail }

def tryToWriteNext : M Unit := do
  let s ← get
  if s.closed then pure () else
  modify fun s => { s with isSending := false }
  if !s.queue.isEmpty then
    let _started ← sendMsg (s.queue.headD [])
    -- Refused, the message has been taken from the queue with all others.
    popQueue
    check fun s => s.isSending
  else if s.closeStatus.isSome then sendStatus
  else check fun s => !s.isSending

/-! ### The critical sections of the public functions -/

def asyncWrite (response : Bytes) : M Bool := do
  let s ← get
  if s.closed || s.closeStatus.isSome then pure false
  else if s.isSending then
    modify fun s => { s with queue := s.queue ++ [response] }
    pure true
  else
  check fun s => s.queue.isEmpty
  sendMsg response

def asyncClose (status : Status) : M Unit := do
  let s ← get
  if s.closed || s.closeStatus.isSome then pure () else
  modify fun s => { s with closeStatus := some status }
  -- The completion of the message in flight sends the status, when the queue is empty.
  if s.isSending then pure () else
  check fun s => s.queue.isEmpty
  sendStatus

def getQueueSize (s : ServerWriter) : Nat := s.queue.length

/-- The next critical section of a thread, and where the thread stands after it. -/
def Pc.exec : Pc → M Pc
  | idle => pure idle
  | write response => do
      let s ← get
      pure (if s.highQueueSize ≤ s.queue.length then syncWrite response else asyncWrite response)
  | asyncWrite response => do
      let r ← ServerWriter.asyncWrite response
      emit (.wrote response r)
      pure idle
  | syncWrite response => do
      let r ← ServerWriter.asyncWrite response
      emit (.wrote response r)
      if r then pure (waitWrite response)
      else
        emit (.called (.syncWrote response false))
        pure idle
  | waitWrite response => do
      let s ← get
      pure (if getQueueSize s ≠ 0 then waitWrite response else endWrite response)
  | endWrite response => do
      let s ← get
      emit (.called (.syncWrote response (!s.closed)))
      pure idle
  | asyncClose status => do
      emit (.called (.close status))
      ServerWriter.asyncClose status
      pure idle
  | syncClose status => do
      emit (.called (.close status))
      ServerWriter.asyncClose status
      pure waitClose
  | waitClose => do
      let s ← get
      pure (if getQueueSize s ≠ 0 then waitClose else idle)
  | setHighQueueSize size => do
      modify fun s => { s with highQueueSize := size }
      pure idle

/-! ### Steps -/

/-- What a thread calls. -/
inductive Call where
  | write (response : Bytes)
  | syncWrite (response : Bytes)
  | asyncWrite (response : Bytes)
  | syncClose (status : Status)
  | asyncClose (status : Status)
  | setHighQueueSize (size : Nat)
  deriving DecidableEq, Repr

/-- Where a thread stands when it has made the call. -/
def Call.enter : Call → Pc
  | write response => .write response
  | syncWrite response => .syncWrite response
  | asyncWrite response => .asyncWrite response
  | syncClose status => .syncClose status
  | asyncClose status => .asyncClose status
  | setHighQueueSize size => .setHighQueueSize size

/-- A step of the system. -/
inductive Step where
  /-- Thread `i` makes the call. -/
  | call (i : Nat) (c : Call)
  /-- Thread `i` runs its next critical section. -/
  | resume (i : Nat)
  /-- The message in flight completes; `TryToWriteNext()` does not look at `success`. -/
  | complete (success : Bool)
  /-- The destructor.  Its wait ends at once, as the queue is empty. -/
  | destroy
  deriving DecidableEq, Repr

def Step.exec : Step → M Unit
  | call i c => modify fun s => { s with threads := s.threads.set i c.enter }
  | resume i => do
      let s ← get
      let pc ← (s.threads.getD i .idle).exec
      modify fun s => { s with threads := s.threads.set i pc }
  | complete success => do
      let s ← get
      modify fun s => { s with sending := s.sending.tail }
      emit (.sent (s.sending.headD []) success)
      tryToWriteNext
  | destroy => do
      modify fun s => { s with destroyed := true }
      check fun s => s.queue.isEmpty
      emit (.called (.close .OK))
      ServerWriter.asyncClose .OK

/-- A thread makes one call at a time, a message completes while it is in flight, and the object
is destroyed when neither a thread nor a tag uses it. -/
def Step.Enabled (s : ServerWriter) (l : Step) : Prop :=
  s.destroyed = false ∧
    match l with
    | .call i _ => s.threads[i]? = some .idle
    | .resume i => s.threads[i]?.isSome
    | .complete _ => s.sending ≠ []
    | .destroy => s.sending = [] ∧ ∀ pc ∈ s.threads, pc = .idle

instance Step.decidableEnabled (s : ServerWriter) : (l : Step) → Decidable (Step.Enabled s l)
  | .call i _ => inferInstanceAs (Decidable (s.destroyed = false ∧ s.threads[i]? = some .idle))
  | .resume i => inferInstanceAs (Decidable (s.destroyed = false ∧ s.threads[i]?.isSome = true))
  | .complete _ => inferInstanceAs (Decidable (s.destroyed = false ∧ s.sending ≠ []))
  | .destroy => inferInstanceAs
      (Decidable (s.destroyed = false ∧ s.sending = [] ∧ ∀ pc ∈ s.threads, pc = .idle))

/-- The run that takes the steps `ls`. -/
abbrev after (s : ServerWriter) (ls : List Step) : Process ServerWriter :=
  Process.after Step.exec (.running s) ls

/-- Every step of the run can be taken. -/
abbrev Legal (s : ServerWriter) (ls : List Step) : Prop :=
  Process.Along Step.exec Step.Enabled (.running s) ls

end ServerWriter

end GrpcLua
