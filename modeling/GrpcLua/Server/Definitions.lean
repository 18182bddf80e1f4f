import GrpcLua.Core.CallOpData
import GrpcLua.Support.Runs

/-!
# Server — Definitions

The polled server: `Server` of `core/server/server.cpp`, the Lua `Service` of
`lua/server/impl/Service.cpp`, and the tags that its completion queue hands back, function by
function.

The C++ code is entered from Lua and calls Lua in its turn, and a handler that is being called may
poll the server again.  `LuaCall` is a function of Lua that the C++ code has called and waits for,
and a `Frame` is a poll that waits, together with the tag it completes.  A step of the system goes
from one such call to the next: `Server::Run` up to the first of them, and `resume` from the
return of one to the next one or to the end of the poll.  An error that a handler raises leaves
its frame as an exception, through `DoComplete()`, `DoTryNextCompletion()` and `Run()`.
-/

namespace GrpcLua
open Prog

/-! ### Services -/

/-- `Service::MethodInfo`. -/
structure MethodInfo where
  requestName : Bytes
  isClientStreaming : Bool
  isServerStreaming : Bool
  deriving DecidableEq, Repr

/-- `impl::Service`, a Lua service as the server sees it. -/
structure Service where
  fullName : Bytes
  methods : List MethodInfo
  deriving DecidableEq, Repr

/-- `grpc_server_register_method_payload_handling`. -/
inductive PayloadHandling where
  | none
  | readInitialByteBuffer
  deriving DecidableEq, Repr

/-- `GetMethodPayloadHandling()`. -/
def MethodInfo.payloadHandling (mi : MethodInfo) : PayloadHandling :=
  if mi.isClientStreaming then .none else .readInitialByteBuffer

/-- A handle that `grpc_server_register_method()` returns, unless it is null. -/
abbrev Handle := Nat

/-- `Server::RegisteredService`. -/
structure RegisteredService where
  service : Service
  registeredMethods : List (Option Handle)
  deriving DecidableEq, Repr

/-- A call of `grpc_server_register_method()`. -/
structure Registration where
  name : Bytes
  payload : PayloadHandling
  handle : Option Handle
  deriving DecidableEq, Repr

/-! ### Tags -/

/-- The tags of the server's completion queue.  All but the first belong to a `grpc_call`. -/
inductive CqTag where
  /-- `ServerMethodCallCqTag`, the request for the next call of a method. -/
  | methodCall (service : Service) (methodIndex : Nat) (registeredMethod : Handle)
  /-- `ServerReaderCqTag` -/
  | reader (call : Nat)
  /-- `ServerReplierCqTag` -/
  | replier (call : Nat)
  /-- `ServerWriterWriteCqTag` -/
  | write (call : Nat)
  /-- `ServerWriterSendStatusCqTag` -/
  | sendStatus (call : Nat)
  deriving DecidableEq, Repr

/-- A method of a service. -/
structure Method where
  service : Service
  index : Nat
  deriving DecidableEq, Repr

/-- The method whose next call the tag requests. -/
def CqTag.method? : CqTag → Option Method
  | methodCall service methodIndex _ => some ⟨service, methodIndex⟩
  | _ => none

/-- What is in the fields of a completed tag, each of them for one kind of tag. -/
structure Filled where
  /-- `call_ptr_` and `payload_ptr_` of a method call. -/
  callPtr : Option Nat := none
  payload : Option ByteBuffer := none
  /-- `cod_recv_msg_` of a read. -/
  recvMsg : CodRecvMsg := ⟨none⟩
  /-- What `TryToWriteNext()` starts when a write has completed. -/
  next : Option CqTag := none
  deriving DecidableEq, Repr

/-- `grpc_event`. -/
inductive GrpcEvent where
  | opComplete (tag : CqTag) (success : Bool) (filled : Filled)
  | queueShutdown
  | queueTimeout
  deriving DecidableEq, Repr

/-! ### Lua -/

/-- What a function of Lua returns, as far as it is looked at. -/
inductive LuaValue where
  | nil
  | string (s : Bytes)
  | other
  deriving DecidableEq, Repr

/-- A function of Lua that is called: a method of the service, counted from 1, or a callback of
the reader of `call`. -/
inductive LuaCall where
  | callSimpleMethod (index : Nat) (request : Bytes) (call : Nat)
  | callS2cStreamingMethod (index : Nat) (request : Bytes) (call : Nat)
  | callC2sStreamingMethod (index : Nat) (call : Nat)
  | callBidiStreamingMethod (index : Nat) (call : Nat)
  | onMsgStr (call : Nat) (msg : Bytes)
  | onError (call : Nat) (status : Status)
  | onEnd (call : Nat)
  deriving DecidableEq, Repr

/-- A poll that has called a function of Lua while it completes `tag`. -/
structure Frame where
  tag : CqTag
  waiting : LuaCall
  deriving DecidableEq, Repr

/-! ### The server -/

/-- The server, its tags and the polls that are under way, the innermost first. -/
structure Server where
  started : Bool := false
  shutdown : Bool := false
  /-- `service_map_`, keyed by the services' names, in any order. -/
  serviceMap : List RegisteredService := []
  /-- What was registered with gRPC. -/
  registrations : List Registration := []
  /-- The tags that are allocated. -/
  heap : List CqTag := []
  /-- The tags that gRPC holds and has not handed back. -/
  outstanding : List CqTag := []
  stack : List Frame := []
  /-- What `StartBatch` will return, call after call; true when the list runs out. -/
  starts : List Bool
  deriving DecidableEq, Repr

namespace Server

abbrev M := EStateM Exit Server

/-- The tags being completed by the polls under way. -/
def completing (s : Server) : List CqTag := s.stack.map Frame.tag

/-! ### Allocation -/

def newTag (tag : CqTag) : M Unit := modify fun s => { s with heap := s.heap ++ [tag] }

def deleteTag (tag : CqTag) : M Unit := modify fun s => { s with heap := s.heap.erase tag }

/-- gRPC takes the tag, to hand it back when it is complete. -/
def submit (tag : CqTag) : M Unit :=
  modify fun s => { s with outstanding := s.outstanding ++ [tag] }

/-- `new ServerMethodCallCqTag`, whose constructor requests the call.  gRPC refuses a request when
the completion queue has been shut down. -/
def newMethodCall (service : Service) (methodIndex : Nat) (registeredMethod : Handle) : M Unit := do
  newTag (.methodCall service methodIndex registeredMethod)
  check fun _ => methodIndex < service.methods.length
  check fun s => !s.shutdown
  submit (.methodCall service methodIndex registeredMethod)

/-- A tag of a call is allocated and its batch is started; where `StartBatch` refuses it, the tag
is deleted. -/
def startTag (tag : CqTag) : M Bool := do
  newTag tag
  let s ← get
  modify fun s => { s with starts := s.starts.tail }
  if s.starts.headD true then
    submit tag
    pure true
  else
    deleteTag tag
    pure false

/-! ### Registration -/

/-- The loop of `RegisterService()`; `answers` are the handles that gRPC returns. -/
def registrationsOf (service : Service) (answers : List (Option Handle)) : List Registration :=
  service.methods.zipIdx.map fun (mi, i) =>
    ⟨mi.requestName, mi.payloadHandling, answers.getD i none⟩

def registerService (service : Service) (answers : List (Option Handle)) : M Unit :=
  let rs := registrationsOf service answers
  modify fun s =>
    { s with
      serviceMap := s.serviceMap.filter (fun r => r.service.fullName ≠ service.fullName) ++
        [⟨service, rs.map Registration.handle⟩]
      registrations := s.registrations ++ rs }

def requestServiceMethodsCalls (rs : RegisteredService) : M Unit :=
  rs.registeredMethods.zipIdx.forM fun (handle, i) =>
    match handle with
    | none => pure ()
    | some handle => newMethodCall rs.service i handle

def requestMethodsCalls : M Unit := do
  let s ← get
  s.serviceMap.forM requestServiceMethodsCalls

/-! ### Completion

Each of these functions returns the function of Lua that it has called, or nothing when it is
done. -/

/-- `BufToSlice(buf)`, which does not look at the result of `grpc_byte_buffer_reader_init()`. -/
def bufToSlice (buf : ByteBuffer) : M Bytes :=
  match buf.contents with
  | some bytes => pure bytes
  | none => throw .undefined

def callClientStreamingMethod (service : Service) (i : Nat) (call : Nat) : M (Option LuaCall) :=
  match service.methods[i]? with
  | none => throw .assertion
  | some mi =>
      if !mi.isClientStreaming then pure none
      else if mi.isServerStreaming then pure (some (.callBidiStreamingMethod (i + 1) call))
      else pure (some (.callC2sStreamingMethod (i + 1) call))

def callNonClientStreamingMethod (service : Service) (i : Nat) (request : Bytes) (call : Nat) :
    M (Option LuaCall) :=
  match service.methods[i]? with
  | none => throw .assertion
  | some mi =>
      if mi.isClientStreaming then pure none
      else if mi.isServerStreaming then pure (some (.callS2cStreamingMethod (i + 1) request call))
      else pure (some (.callSimpleMethod (i + 1) request call))

/-- `Service::CallMethod()`. -/
def callMethod (service : Service) (i : Nat) (reqBuf : Option ByteBuffer) (call : Nat) :
    M (Option LuaCall) := do
  check fun _ => i < service.methods.length
  match reqBuf with
  | none => callClientStreamingMethod service i call
  | some buf =>
      let request ← bufToSlice buf
      -- The method may still be one that the client streams, and then nothing is called.
      callNonClientStreamingMethod service i request call

/-- `ServerReader::Start()`. -/
def startReader (call : Nat) : M (Option LuaCall) := do
  if ← startTag (.reader call) then pure none
  else pure (some (.onError call (.internalError (str "Failed to init client streaming."))))

/-- `ServerReaderCqTag::EndOnError()`, which goes on with `OnEnd()`. -/
def endOnError (call : Nat) (status : Status) : M (Option LuaCall) := do
  check fun _ => !status.ok
  pure (some (.onError call status))

/-- `ServerReaderCqTag::DoComplete()`, up to the reader's callback. -/
def completeRead (call : Nat) (success : Bool) (recvMsg : CodRecvMsg) : M (Option LuaCall) := do
  if !success then endOnError call (.internalError (str "ServerReaderCqTag failed."))
  else if !recvMsg.hasGotMsg then pure (some (.onEnd call))
  else
    let (status, msg) ← recvMsg.getResultMsg []
    if !status.ok then endOnError call status else pure (some (.onMsgStr call msg))

/-- `ServerReader::OnMsgStr()`: the status of what `on_msg_str` has returned. -/
def onMsgStrStatus (answer : LuaValue) : M Status :=
  match answer with
  | .nil => pure .OK
  | .string s => pure (.internalError s)
  | .other => throw .assertion

/-- The rest of `ServerReaderCqTag::DoComplete()`, after `OnMsgStr()`. -/
def readNext (call : Nat) (status : Status) : M (Option LuaCall) := do
  if !status.ok then endOnError call status
  else if ← startTag (.reader call) then pure none
  else endOnError call (.internalError (str "Failed to read client-side streaming."))

/-- The end of `ServerMethodCallCqTag::DoComplete()`, which requests the next method call; the
other tags have nothing left to do. -/
def requestNext (tag : CqTag) : M (Option LuaCall) := do
  match tag with
  | .methodCall service i handle => newMethodCall service i handle
  | _ => pure ()
  pure none

/-- `waiting`, or the end of `DoComplete()` where the user's code is done. -/
def orRequestNext (tag : CqTag) (waiting : Option LuaCall) : M (Option LuaCall) :=
  match waiting with
  | some f => pure (some f)
  | none => requestNext tag

/-- `ServerMethodCallCqTag::DoComplete()`. -/
def completeMethodCall (service : Service) (i : Nat) (handle : Handle) (success : Bool)
    (filled : Filled) : M (Option LuaCall) :=
  match success, filled.callPtr with
  -- Without a call, the next one is requested all the same.
  | false, _ => requestNext (.methodCall service i handle)
  | true, none => throw .assertion
  | true, some call => do
      let waiting ← callMethod service i filled.payload call
      orRequestNext (.methodCall service i handle) waiting

/-- `CompletionQueueTag::DoComplete()`, by the kind of tag. -/
def doComplete (success : Bool) (filled : Filled) : CqTag → M (Option LuaCall)
  | .methodCall service i handle => completeMethodCall service i handle success filled
  | .reader call => completeRead call success filled.recvMsg
  | .write _ =>
      match filled.next with
      | none => pure none
      | some tag => do
          let _started ← startTag tag
          pure none
  | .replier _ => pure none
  | .sendStatus _ => pure none

/-- `DoComplete()` goes on when the function of Lua it waits for has returned `answer`. -/
def resume (f : Frame) (answer : LuaValue) : M (Option LuaCall) :=
  match f.waiting with
  | .callSimpleMethod _ _ _ => requestNext f.tag
  | .callS2cStreamingMethod _ _ _ => requestNext f.tag
  | .callC2sStreamingMethod _ call => startCalled call
  | .callBidiStreamingMethod _ call => startCalled call
  | .onMsgStr call _ => do
      let status ← onMsgStrStatus answer
      let waiting ← readNext call status
      orRequestNext f.tag waiting
  | .onError call _ => pure (some (.onEnd call))
  | .onEnd _ => requestNext f.tag
where
  /-- `std::make_shared<ServerReader>(luaReader)->Start(pCall)` -/
  startCalled (call : Nat) : M (Option LuaCall) := do
    check fun _ => answer ≠ .nil
    let waiting ← startReader call
    orRequestNext f.tag waiting

/-! ### Polls -/

/-- The tag's poll waits for Lua, or it deletes the tag and ends. -/
def waitOrDelete (tag : CqTag) (waiting : Option LuaCall) : M Unit :=
  match waiting with
  | some f => modify fun s => { s with stack := ⟨tag, f⟩ :: s.stack }
  | none => deleteTag tag

/-- What gRPC can hand back: a tag it holds, with its fields filled in as the kind of tag asks
for. -/
def Deliverable (s : Server) : GrpcEvent → Prop
  | .opComplete tag success filled => tag ∈ s.outstanding ∧
      match tag with
      | .methodCall service i _ => success = true → filled.callPtr.isSome ∧
          ∀ mi ∈ service.methods[i]?, mi.payloadHandling = .none → filled.payload = none
      | .write _ => ∀ t ∈ filled.next, t.method? = none
      | _ => True
  | .queueShutdown => s.shutdown = true
  | .queueTimeout => True

instance decidableDeliverable (s : Server) : (ev : GrpcEvent) → Decidable (s.Deliverable ev)
  | .opComplete (.methodCall service i handle) success filled => inferInstanceAs (Decidable
      (.methodCall service i handle ∈ s.outstanding ∧ (success = true → filled.callPtr.isSome ∧
        ∀ mi ∈ service.methods[i]?, mi.payloadHandling = .none → filled.payload = none)))
  | .opComplete (.write call) _ filled => inferInstanceAs (Decidable
      (.write call ∈ s.outstanding ∧ ∀ t ∈ filled.next, t.method? = none))
  | .opComplete (.reader _) _ _ => inferInstanceAs (Decidable (_ ∧ True))
  | .opComplete (.replier _) _ _ => inferInstanceAs (Decidable (_ ∧ True))
  | .opComplete (.sendStatus _) _ _ => inferInstanceAs (Decidable (_ ∧ True))
  | .queueShutdown => inferInstanceAs (Decidable (s.shutdown = true))
  | .queueTimeout => inferInstanceAs (Decidable True)

/-- `CompletionQueueForNext::TryNext()`: the event `ev`, if it can be handed back now. -/
def tryNext (ev : GrpcEvent) : M GrpcEvent := do
  let s ← get
  if s.Deliverable ev then
    match ev with
    | .opComplete tag _ _ =>
        modify fun s => { s with outstanding := s.outstanding.erase tag }
        pure ev
    | _ => pure ev
  else pure .queueTimeout

/-- `DoTryNextCompletion()`, whose result nobody looks at. -/
def doTryNextCompletion (ev : GrpcEvent) : M Unit := do
  match ← tryNext ev with
  | .opComplete tag success filled =>
      let waiting ← doComplete success filled tag
      waitOrDelete tag waiting
  | .queueShutdown => pure ()
  | .queueTimeout => pure ()

/-- `Server::Run()`, one poll. -/
def run (ev : GrpcEvent) : M Unit := do
  let s ← get
  if s.shutdown then pure () else
  if !s.started then
    modify fun s => { s with started := true }
    requestMethodsCalls
  doTryNextCompletion ev

def shutdownInternal : M Unit := do
  let s ← get
  if !s.started then pure ()
  else if s.shutdown then pure ()
  else modify fun s => { s with shutdown := true }

/-! ### Steps -/

/-- A step of the system. -/
inductive Step where
  | registerService (service : Service) (answers : List (Option Handle))
  /-- `Run()` is called, by a handler too.  The completion queue has `ev` for it. -/
  | run (ev : GrpcEvent)
  /-- The function of Lua that the innermost poll waits for returns. -/
  | ret (answer : LuaValue)
  /-- It raises an error. -/
  | raise
  /-- Lua code replies, writes or closes a writer, which starts a tag of a call. -/
  | start (tag : CqTag)
  | shutdown
  deriving DecidableEq, Repr

def Step.exec : Step → M Unit
  | registerService service answers => Server.registerService service answers
  | run ev => Server.run ev
  | ret answer => do
      let s ← get
      match s.stack with
      | [] => pure ()
      | f :: stack =>
          modify fun s => { s with stack := stack }
          let waiting ← resume f answer
          waitOrDelete f.tag waiting
  -- The exception passes by the end of `DoComplete()` and the deletion of the tag.
  | raise => modify fun s => { s with stack := s.stack.tail }
  | start tag => do
      let _started ← startTag tag
      pure ()
  | shutdown => shutdownInternal

/-- Services are registered before the server starts, as gRPC asks for, and a handler returns or
raises an error while it runs. -/
def Step.Enabled (s : Server) : Step → Prop
  | registerService _ _ => s.started = false
  | ret _ => s.stack ≠ []
  | raise => s.stack ≠ []
  | start tag => tag.method? = none
  | _ => True

instance Step.decidableEnabled (s : Server) : (l : Step) → Decidable (Step.Enabled s l)
  | registerService _ _ => inferInstanceAs (Decidable (s.started = false))
  | run _ => inferInstanceAs (Decidable True)
  | ret _ => inferInstanceAs (Decidable (s.stack ≠ []))
  | raise => inferInstanceAs (Decidable (s.stack ≠ []))
  | start tag => inferInstanceAs (Decidable (tag.method? = none))
  | shutdown => inferInstanceAs (Decidable True)

/-- The run that takes the steps `ls`. -/
abbrev after (s : Server) (ls : List Step) : Process Server :=
  Process.after Step.exec (.running s) ls

/-- Every step of the run can be taken. -/
abbrev Legal (s : Server) (ls : List Step) : Prop :=
  Process.Along Step.exec Step.Enabled (.running s) ls

/-- The server as its constructor leaves it. -/
def new (starts : List Bool) : Server where
  starts := starts

end Server

end GrpcLua
