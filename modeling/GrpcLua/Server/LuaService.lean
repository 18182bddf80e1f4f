import GrpcLua.Server.Definitions

/-!
# Server — LuaService

The Lua half of the server: `Service.lua`, `Replier.lua`, `Writer.lua` and the constructor of
`Reader.lua` of `grpc/server`, and the `MethodInfo.lua` with which a client stub describes the
method that it calls.

`Msg` are the tables that messages are decoded to, and `decode type str` is `c.decode`, which
returns nil for a string it cannot decode.  A method of a service is counted from 1 in Lua.
-/

namespace GrpcLua
open Prog

/-! ### Descriptors -/

/-- `MethodDescriptor`, of which the names of the types. -/
structure MethodDescriptor where
  name : Bytes
  inputType : Bytes
  outputType : Bytes
  clientStreaming : Bool
  serverStreaming : Bool
  deriving DecidableEq, Repr

/-- `ServiceDescriptor`; protobuf admits no two methods of one name. -/
structure ServiceDescriptor where
  fullName : Bytes
  methods : List MethodDescriptor
  nodup : (methods.map MethodDescriptor.name).Nodup

namespace ServiceDescriptor

/-- `LuaPbIntfImpl::FindRpcMethod()`, which throws where there is no such method. -/
def findRpcMethod {σ : Type} (d : ServiceDescriptor) (name : Bytes) :
    EStateM Exit σ MethodDescriptor :=
  match d.methods.find? (·.name == name) with
  | some m => pure m
  | none => throw .exception

theorem find_of_mem {d : ServiceDescriptor} {m : MethodDescriptor} (h : m ∈ d.methods) :
    d.methods.find? (·.name == m.name) = some m := by
  have hnodup := d.nodup
  generalize d.methods = ms at h hnodup
  induction ms with
  | nil => exact absurd h (by simp)
  | cons m' ms ih =>
      obtain ⟨hnot, hnodup⟩ := List.nodup_cons.mp hnodup
      rcases List.mem_cons.mp h with rfl | h
      · simp
      · have hne : m'.name ≠ m.name := by
          intro he
          exact hnot (List.mem_map.mpr ⟨m, h, he.symm⟩)
        rw [List.find?_cons_of_neg (by simpa using hne)]
        exact ih h hnodup

@[simp] theorem wp_findRpcMethod {σ : Type} {d : ServiceDescriptor} {m : MethodDescriptor}
    (h : m ∈ d.methods) {Q : MethodDescriptor → σ → Prop} {E : Exit → σ → Prop} {s : σ} :
    wp (d.findRpcMethod m.name) Q E s ↔ Q m s := by
  rw [findRpcMethod, find_of_mem h, wp_pure]

end ServiceDescriptor

/-- `"/" .. service_name .. "/" .. method_name` -/
def requestName (serviceName methodName : Bytes) : Bytes :=
  str "/" ++ serviceName ++ str "/" ++ methodName

theorem requestName_inj {serviceName name name' : Bytes}
    (h : requestName serviceName name = requestName serviceName name') : name = name' :=
  List.append_cancel_left h

/-- `impl::Service::InitMethods()`: the service as the C++ code describes it. -/
def Service.ofDescriptor (d : ServiceDescriptor) : Service where
  fullName := d.fullName
  methods := d.methods.map fun m =>
    ⟨requestName d.fullName m.name, m.clientStreaming, m.serverStreaming⟩

/-- The methods are told apart by their request names. -/
theorem Service.method_of_requestName {d : ServiceDescriptor} {m : MethodDescriptor} {i : Nat}
    (h : m ∈ d.methods)
    (hi : (ofDescriptor d).methods[i]?.map MethodInfo.requestName =
      some (requestName d.fullName m.name)) : d.methods[i]? = some m := by
  rw [ofDescriptor, List.getElem?_map, Option.map_map, Option.map_eq_some_iff] at hi
  obtain ⟨m', hm', hname⟩ := hi
  have he : m'.name = m.name := requestName_inj hname
  rw [hm', ← ServiceDescriptor.find_of_mem h, ← he,
    ServiceDescriptor.find_of_mem (List.mem_of_getElem? hm')]

/-! ### The client's side -/

namespace Stub

/-- The `MethodInfo` of a `ServiceStub`. -/
structure MethodInfo where
  methodName : Bytes
  requestName : Bytes
  requestType : Bytes
  responseType : Bytes
  isClientStreaming : Bool
  isServerStreaming : Bool
  deriving DecidableEq, Repr

/-- `MethodInfo:new(service_name, method_name)`; each of the four look-ups finds the method by its
name. -/
def MethodInfo.new {σ : Type} (d : ServiceDescriptor) (methodName : Bytes) :
    EStateM Exit σ MethodInfo := do
  let input ← d.findRpcMethod methodName
  let output ← d.findRpcMethod methodName
  let clientStreaming ← d.findRpcMethod methodName
  let serverStreaming ← d.findRpcMethod methodName
  pure
    { methodName := methodName
      requestName := GrpcLua.requestName d.fullName methodName
      requestType := input.inputType
      responseType := output.outputType
      isClientStreaming := clientStreaming.clientStreaming
      isServerStreaming := serverStreaming.serverStreaming }

/-- What the client knows of a method of the service. -/
def MethodInfo.of (d : ServiceDescriptor) (m : MethodDescriptor) : MethodInfo :=
  ⟨m.name, GrpcLua.requestName d.fullName m.name, m.inputType, m.outputType, m.clientStreaming,
    m.serverStreaming⟩

theorem MethodInfo.wp_new {σ : Type} {d : ServiceDescriptor} {m : MethodDescriptor}
    (h : m ∈ d.methods) {Q : MethodInfo → σ → Prop} {E : Exit → σ → Prop} {s : σ} :
    wp (new d m.name) Q E s ↔ Q (of d m) s := by
  simp only [new, wp_bind, ServiceDescriptor.wp_findRpcMethod h, wp_pure, of]

/-- A stub makes calls only of methods that the service has. -/
theorem MethodInfo.mem_of_new {d : ServiceDescriptor} {name : Bytes} {info : MethodInfo}
    (h : new d name () = .ok info ()) : ∃ m ∈ d.methods, m.name = name ∧ of d m = info := by
  cases hf : d.methods.find? (·.name == name) with
  | none =>
      have hthrow : (new d name : EStateM Exit Unit _) () = .error .exception () := by
        simp only [new, ServiceDescriptor.findRpcMethod, hf]
        rfl
      exact absurd (hthrow.symm.trans h) (by simp)
  | some m =>
      obtain rfl : m.name = name := by simpa using List.find?_some hf
      refine ⟨m, List.mem_of_find?_eq_some hf, rfl, ?_⟩
      have hof : wp (new d m.name) (fun info' _ => info' = of d m) (fun _ _ => False) () :=
        (wp_new (List.mem_of_find?_eq_some hf)).mpr rfl
      rw [wp, h] at hof
      exact hof.symm

end Stub

/-! ### Objects of Lua -/

/-- `Replier`, the wrapper of the C++ replier of `call`. -/
structure Replier where
  call : Nat
  responseType : Bytes
  deriving DecidableEq, Repr

/-- `Writer`, the wrapper of the C++ writer of `call`. -/
structure LuaWriter where
  call : Nat
  msgType : Bytes
  deriving DecidableEq, Repr

/-- What a function of the implementation is called with, after the implementation itself. -/
inductive Arg (Msg : Type) where
  | nil
  | request (msg : Msg)
  | replier (r : Replier)
  | writer (w : LuaWriter)
  deriving DecidableEq, Repr

/-- The reader object of a user: which handlers it defines. -/
structure UserReader where
  onMsg : Bool
  onError : Bool
  onEnd : Bool
  deriving DecidableEq, Repr

/-- A value of Lua, as far as the wrapper of a reader looks at it. -/
inductive Object where
  | nil
  | string (s : Bytes)
  | reader (r : UserReader)
  deriving DecidableEq, Repr

/-- `Reader`, the wrapper of a user's reader. -/
structure LuaReader where
  impl : Object
  msgType : Object
  deriving DecidableEq, Repr

/-- `Reader:new(pb, impl, msg_type)`, which does not use `pb`. -/
def LuaReader.new (_pb impl msgType : Object) : LuaReader := ⟨impl, msgType⟩

/-- The implementation table: the function of a name, if there is one.  It returns, or raises an
error. -/
abbrev Impl (Msg : Type) := Bytes → Option (List (Arg Msg) → Option Object)

/-! ### The service -/

/-- An entry of the method info array.  Its field `func` is never called. -/
structure LuaMethodInfo where
  name : Bytes
  inputType : Bytes
  outputType : Bytes
  deriving DecidableEq, Repr

/-- What has happened to calls: the functions of the implementation that were invoked, and the
error statuses with which the library has answered. -/
structure Calls (Msg : Type) where
  invoked : List (Bytes × List (Arg Msg)) := []
  answered : List (Nat × Status) := []
  deriving DecidableEq, Repr

namespace LuaService
variable {Msg : Type}

abbrev M (Msg : Type) := EStateM Exit (Calls Msg)

/-- `init_method_info_arr()` -/
def initMethodInfoArr (d : ServiceDescriptor) : M Msg (List LuaMethodInfo) :=
  d.methods.mapM fun mthd => do
    let input ← d.findRpcMethod mthd.name
    let output ← d.findRpcMethod mthd.name
    pure ⟨mthd.name, input.inputType, output.outputType⟩

section functions
variable (decode : Bytes → Bytes → Option Msg) (impl : Impl Msg)
  (methodInfoArr : List LuaMethodInfo)

/-- `c.decode(type, str)`, as an argument. -/
def decoded (type str : Bytes) : Arg Msg :=
  match decode type str with
  | some msg => .request msg
  | none => .nil

/-- `self._impl[name](self._impl, ...)`; calling nil raises an error. -/
def invoke (name : Bytes) (args : List (Arg Msg)) : M Msg Object :=
  match impl name with
  | none => throw .exception
  | some f => do
      modify fun s => { s with invoked := s.invoked ++ [(name, args)] }
      match f args with
      | some v => pure v
      | none => throw .exception

/-- `Service:_get_method_info(method_index)`; indexing nil raises an error. -/
def getMethodInfo : Nat → M Msg LuaMethodInfo
  | 0 => throw .exception
  | i + 1 =>
      match methodInfoArr[i]? with
      | some mi => pure mi
      | none => throw .exception

def callSimpleMethod (methodIndex : Nat) (requestStr : Bytes) (cReplier : Nat) : M Msg Unit := do
  let mi ← getMethodInfo methodInfoArr methodIndex
  let request := decoded decode mi.inputType requestStr
  let replier := Replier.mk cReplier mi.outputType
  let _ ← invoke impl mi.name [request, .replier replier]

/-- The implementation is handed `replier`, which is no local variable here but a global one that
nobody assigns. -/
def callS2cStreamingMethod (methodIndex : Nat) (requestStr : Bytes) (cWriter : Nat) :
    M Msg Unit := do
  let mi ← getMethodInfo methodInfoArr methodIndex
  let request := decoded decode mi.inputType requestStr
  let _writer := LuaWriter.mk cWriter mi.outputType
  let _ ← invoke impl mi.name [request, .nil]

/-- The first argument of `Reader:new()` is `pb`, so the input type becomes its `impl`, and its
`msg_type` is nil. -/
def callC2sStreamingMethod (methodIndex : Nat) (cReplier : Nat) : M Msg LuaReader := do
  let mi ← getMethodInfo methodInfoArr methodIndex
  let replier := Replier.mk cReplier mi.outputType
  let readerImpl ← invoke impl mi.name [.replier replier]
  pure (LuaReader.new readerImpl (.string mi.inputType) .nil)

def callBidiStreamingMethod (methodIndex : Nat) (cWriter : Nat) : M Msg LuaReader := do
  let mi ← getMethodInfo methodInfoArr methodIndex
  let writer := LuaWriter.mk cWriter mi.outputType
  let readerImpl ← invoke impl mi.name [.writer writer]
  pure (LuaReader.new readerImpl (.string mi.inputType) .nil)

/-- A function of the Lua service is called.  The streaming ones return a reader. -/
def dispatch : LuaCall → M Msg (Option LuaReader)
  | .callSimpleMethod index request call => do
      callSimpleMethod decode impl methodInfoArr index request call
      pure none
  | .callS2cStreamingMethod index request call => do
      callS2cStreamingMethod decode impl methodInfoArr index request call
      pure none
  | .callC2sStreamingMethod index call => do
      let reader ← callC2sStreamingMethod impl methodInfoArr index call
      pure (some reader)
  | .callBidiStreamingMethod index call => do
      let reader ← callBidiStreamingMethod impl methodInfoArr index call
      pure (some reader)
  | _ => pure none

end functions

/-- C++ code of the server, which looks at nothing of the calls. -/
def ofServer {α : Type} (server : Server) (x : Server.M α) : M Msg α := fun s =>
  match x server with
  | .ok a _ => .ok a s
  | .error e _ => .error e s

@[simp] theorem wp_ofServer {α : Type} {server : Server} {x : Server.M α}
    {Q : α → Calls Msg → Prop} {E : Exit → Calls Msg → Prop} {s : Calls Msg} :
    wp (ofServer server x) Q E s ↔ wp x (fun a _ => Q a s) (fun e _ => E e s) server := by
  unfold wp ofServer
  cases x server <;> rfl

/-- `Service:new()`, and then `impl::Service::CallMethod()` with the function of the Lua service
that it calls. -/
def callMethod (decode : Bytes → Bytes → Option Msg) (impl : Impl Msg) (d : ServiceDescriptor)
    (server : Server) (i : Nat) (payload : Option ByteBuffer) (call : Nat) :
    M Msg (Option LuaReader) := do
  let methodInfoArr ← initMethodInfoArr d
  match ← ofServer server (Server.callMethod (.ofDescriptor d) i payload call) with
  | none => pure none
  | some f => dispatch decode impl methodInfoArr f

end LuaService

end GrpcLua
