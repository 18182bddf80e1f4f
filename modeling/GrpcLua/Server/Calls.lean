import GrpcLua.Server.LuaService

/-!
# Server — Calls

What becomes of a call that a client stub makes.  gRPC delivers it to the method whose request name
is the stub's, which is the method the stub means (`Service.method_of_requestName`).  From there on
the C++ and the Lua half agree about the kinds of methods, the indices and the types, but for one
kind: a method that only the server streams is handed nil in place of its writer.  And nobody
answers a call whose request is missing or cannot be decoded.
-/

namespace GrpcLua
open Prog

namespace LuaService
variable {Msg : Type} {decode : Bytes → Bytes → Option Msg} {impl : Impl Msg}
  {d : ServiceDescriptor}

/-- What a method is to be called with for `payload`, seen from the client: the request, decoded as
the type the client encodes, unless the client streams; and the reply object, which encodes the type
that the client decodes. -/
def expectedArgs (decode : Bytes → Bytes → Option Msg) (info : Stub.MethodInfo)
    (payload : Option ByteBuffer) (call : Nat) : Option (List (Arg Msg)) :=
  let reply : Arg Msg :=
    if info.isServerStreaming then .writer ⟨call, info.responseType⟩
    else .replier ⟨call, info.responseType⟩
  if info.isClientStreaming then some [reply]
  else
    match payload.bind ByteBuffer.contents with
    | none => none
    | some bytes => (decode info.requestType bytes).map fun msg => [.request msg, reply]

/-- The call is served: the function of the method's name has been invoked once, and no other, with
what it is to be called with; or the call has been answered with an error. -/
def Served (decode : Bytes → Bytes → Option Msg) (info : Stub.MethodInfo)
    (payload : Option ByteBuffer) (call : Nat) (c : Calls Msg) : Prop :=
  (∃ args, expectedArgs decode info payload call = some args ∧
    c.invoked = [(info.methodName, args)]) ∨
  ∃ status, status.ok = false ∧ (call, status) ∈ c.answered

/-- What the method is called with in fact. -/
def actualArgs (decode : Bytes → Bytes → Option Msg) (m : MethodDescriptor)
    (payload : Option ByteBuffer) (call : Nat) : Option (List (Arg Msg)) :=
  match m.clientStreaming, payload with
  | true, none =>
      if m.serverStreaming then some [.writer ⟨call, m.outputType⟩]
      else some [.replier ⟨call, m.outputType⟩]
  | true, some _ => none
  | false, none => none
  | false, some buf => buf.contents.map fun bytes =>
      if m.serverStreaming then [decoded decode m.inputType bytes, .nil]
      else [decoded decode m.inputType bytes, .replier ⟨call, m.outputType⟩]

/-- What has happened where a method was called with `args`, if it was called. -/
def called (impl : Impl Msg) (name : Bytes) (args? : Option (List (Arg Msg))) : Calls Msg where
  invoked := if (impl name).isSome then (args?.map (name, ·)).toList else []

theorem wp_initMethodInfoArr {Q : List LuaMethodInfo → Calls Msg → Prop}
    {E : Exit → Calls Msg → Prop} {s : Calls Msg} :
    wp (initMethodInfoArr d) Q E s ↔
      Q (d.methods.map fun m => ⟨m.name, m.inputType, m.outputType⟩) s := by
  suffices h : ∀ ms : List MethodDescriptor, (∀ m ∈ ms, m ∈ d.methods) →
      ∀ Q : List LuaMethodInfo → Calls Msg → Prop,
      wp (ms.mapM fun mthd => do
          let input ← d.findRpcMethod mthd.name
          let output ← d.findRpcMethod mthd.name
          pure (LuaMethodInfo.mk mthd.name input.inputType output.outputType)) Q E s ↔
        Q (ms.map fun m => ⟨m.name, m.inputType, m.outputType⟩) s from h _ (fun _ h' => h') Q
  intro ms
  induction ms with
  | nil => exact fun _ _ => Iff.rfl
  | cons m ms ih =>
      intro hms Q
      have hm := hms m List.mem_cons_self
      simp only [List.mapM_cons, wp_bind, ServiceDescriptor.wp_findRpcMethod hm, wp_pure,
        List.map_cons]
      exact ih (fun m' h' => hms m' (List.mem_cons_of_mem m h')) _

theorem wp_getMethodInfo {m : MethodDescriptor} {i : Nat} (hi : d.methods[i]? = some m)
    {Q : LuaMethodInfo → Calls Msg → Prop} {E : Exit → Calls Msg → Prop} {s : Calls Msg} :
    wp (getMethodInfo (d.methods.map fun m => ⟨m.name, m.inputType, m.outputType⟩) (i + 1)) Q E s ↔
      Q ⟨m.name, m.inputType, m.outputType⟩ s := by
  rw [getMethodInfo, List.getElem?_map, hi]
  rfl

theorem wp_invoke (name : Bytes) (args : List (Arg Msg)) :
    wp (invoke impl name args) (fun _ s' => s' = called impl name (some args))
      (fun _ s' => s' = called impl name (some args)) {} := by
  unfold invoke called
  cases himpl : impl name with
  | none => rfl
  | some f =>
      simp only [wp_bind, wp_modify]
      cases f args <;> rfl

theorem ofDescriptor_method {m : MethodDescriptor} {i : Nat} (hi : d.methods[i]? = some m) :
    (Service.ofDescriptor d).methods[i]? =
      some ⟨requestName d.fullName m.name, m.clientStreaming, m.serverStreaming⟩ := by
  rw [Service.ofDescriptor, List.getElem?_map, hi]
  rfl

/-- The method at the index is called with `actualArgs`, and no other. -/
theorem wp_callMethod {m : MethodDescriptor} {server : Server} {i : Nat} {call : Nat}
    (hi : d.methods[i]? = some m) (payload : Option ByteBuffer) :
    wp (callMethod decode impl d server i payload call)
      (fun _ s' => s' = called impl m.name (actualArgs decode m payload call))
      (fun _ s' => s' = called impl m.name (actualArgs decode m payload call)) {} := by
  have hlen : i < (Service.ofDescriptor d).methods.length := by
    rw [Service.ofDescriptor, List.length_map]
    exact (List.getElem?_eq_some_iff.mp hi).1
  have hmethod := ofDescriptor_method hi
  -- Without a call of Lua, the trace stays empty.
  have hnone : ({} : Calls Msg) = called impl m.name none := by simp [called]
  simp only [callMethod, wp_bind, wp_initMethodInfoArr, wp_ofServer, Server.callMethod, wp_check]
  rw [if_pos (by simpa using hlen)]
  cases payload with
  | none =>
      simp only [Server.callClientStreamingMethod, hmethod, wp_ite, wp_pure]
      cases hc : m.clientStreaming with
      | false => exact hnone.trans (by simp [actualArgs, hc])
      | true =>
          cases hs : m.serverStreaming with
          | false =>
              simp only [dispatch, callC2sStreamingMethod, wp_bind, wp_getMethodInfo hi, wp_pure,
                actualArgs, hc, hs]
              exact wp_invoke _ _
          | true =>
              simp only [dispatch, callBidiStreamingMethod, wp_bind, wp_getMethodInfo hi, wp_pure,
                actualArgs, hc, hs]
              exact wp_invoke _ _
  | some buf =>
      obtain ⟨_ | bytes⟩ := buf
      · cases hc : m.clientStreaming <;> exact hnone.trans (by simp [actualArgs, hc])
      simp only [Server.bufToSlice, Server.callNonClientStreamingMethod, hmethod, wp_bind, wp_ite,
        wp_pure]
      cases hc : m.clientStreaming with
      | true => exact hnone.trans (by simp [actualArgs, hc])
      | false =>
          cases hs : m.serverStreaming with
          | false =>
              simp only [dispatch, callSimpleMethod, wp_bind, wp_getMethodInfo hi, wp_pure,
                actualArgs, hc, hs]
              exact wp_invoke _ _
          | true =>
              simp only [dispatch, callS2cStreamingMethod, wp_bind, wp_getMethodInfo hi, wp_pure,
                actualArgs, hc, hs]
              exact wp_invoke _ _

/-- The two agree where the request is there and decodes, and only one side streams or both. -/
theorem expectedArgs_eq_actualArgs (decode : Bytes → Bytes → Option Msg) (d : ServiceDescriptor)
    {m : MethodDescriptor} {payload : Option ByteBuffer}
    (hpayload : m.clientStreaming = true → payload = none) (call : Nat) :
    (∃ args, expectedArgs decode (.of d m) payload call = some args ∧
      actualArgs decode m payload call = some args) ↔
    (m.clientStreaming = false → m.serverStreaming = false ∧
      ∃ bytes, payload.bind ByteBuffer.contents = some bytes ∧
        (decode m.inputType bytes).isSome) := by
  cases hc : m.clientStreaming with
  | true =>
      rw [hpayload hc]
      refine ⟨fun _ h' => absurd h' (by simp), fun _ => ?_⟩
      cases hs : m.serverStreaming <;> simp [expectedArgs, actualArgs, Stub.MethodInfo.of, hc, hs]
  | false =>
      cases payload with
      | none => simp [actualArgs, hc]
      | some buf =>
          obtain ⟨_ | bytes⟩ := buf
          · simp [actualArgs, hc]
          cases hd : decode m.inputType bytes with
          | none => simp [expectedArgs, Stub.MethodInfo.of, hc, hd]
          | some msg =>
              cases hs : m.serverStreaming <;>
                simp [expectedArgs, actualArgs, Stub.MethodInfo.of, decoded, hc, hs, hd]

/-- **Dispatching.**  A call that a stub makes of any method of the service is delivered to that
method alone; and it is served exactly when the implementation has a function of its name and,
unless the client streams, the server does not stream and the payload holds a request that
decodes. -/
theorem dispatched_iff (decode : Bytes → Bytes → Option Msg) (impl : Impl Msg)
    (d : ServiceDescriptor) {name : Bytes} {info : Stub.MethodInfo}
    (hinfo : Stub.MethodInfo.new d name () = .ok info ()) (server : Server) {i : Nat}
    (hi : (Service.ofDescriptor d).methods[i]?.map MethodInfo.requestName = some info.requestName)
    (payload : Option ByteBuffer) (hpayload : info.isClientStreaming = true → payload = none)
    (call : Nat) :
    Served decode info payload call
        (endState (callMethod decode impl d server i payload call) {}) ↔
      (impl name).isSome = true ∧ (info.isClientStreaming = false →
        info.isServerStreaming = false ∧ ∃ bytes, payload.bind ByteBuffer.contents = some bytes ∧
          (decode info.requestType bytes).isSome) := by
  obtain ⟨m, hm, rfl, rfl⟩ := Stub.MethodInfo.mem_of_new hinfo
  have hm' := Service.method_of_requestName hm hi
  rw [endState_of_wp (P := fun s => s = called impl m.name (actualArgs decode m payload call))
    (wp_callMethod hm' payload)]
  refine Iff.trans ?_ (and_congr_right fun _ =>
    expectedArgs_eq_actualArgs decode d hpayload call)
  constructor
  · rintro (⟨args, he, hinvoked⟩ | ⟨_, _, hanswered⟩)
    · cases himpl : (impl m.name).isSome with
      | false => simp [called, himpl] at hinvoked
      | true =>
          cases ha : actualArgs decode m payload call with
          | none => simp [called, himpl, ha] at hinvoked
          | some args' =>
              obtain ⟨-, rfl⟩ : m.name = (Stub.MethodInfo.of d m).methodName ∧ args' = args := by
                simpa [called, himpl, ha] using hinvoked
              exact ⟨rfl, args', he, rfl⟩
    · simp [called] at hanswered
  · rintro ⟨himpl, args, he, ha⟩
    refine .inl ⟨args, he, ?_⟩
    simp only [called, himpl, ha]
    rfl

/-- A service with one method, which the server streams. -/
def streamingService : ServiceDescriptor where
  fullName := str "routeguide.RouteGuide"
  methods := [⟨str "ListFeatures", str "routeguide.Rectangle", str "routeguide.Feature", false,
    true⟩]
  nodup := by simp

def streamingInfo : Stub.MethodInfo where
  methodName := str "ListFeatures"
  requestName := str "/routeguide.RouteGuide/ListFeatures"
  requestType := str "routeguide.Rectangle"
  responseType := str "routeguide.Feature"
  isClientStreaming := false
  isServerStreaming := true

/-- Its function gets nil for a writer. -/
theorem not_dispatched :
    Stub.MethodInfo.new streamingService (str "ListFeatures") () = .ok streamingInfo () ∧
      (Service.ofDescriptor streamingService).methods[0]?.map MethodInfo.requestName =
        some streamingInfo.requestName ∧
      ¬ Served (fun _ bytes => some bytes) streamingInfo (some ⟨some [1]⟩) 7
        (endState (callMethod (fun _ bytes => some bytes) (fun _ => some fun _ => some .nil)
          streamingService (Server.new []) 0 (some ⟨some [1]⟩) 7) {}) := by
  refine ⟨rfl, by decide, ?_⟩
  rw [show endState (callMethod (fun _ bytes => some bytes) (fun _ => some fun _ => some .nil)
    streamingService (Server.new []) 0 (some ⟨some [1]⟩) 7) {} =
      (⟨[(str "ListFeatures", [.request [1], .nil])], []⟩ : Calls Bytes) by decide]
  rintro (⟨args, he, hinvoked⟩ | ⟨_, _, hanswered⟩)
  · revert hinvoked
    obtain rfl : [.request [1], .writer ⟨7, str "routeguide.Feature"⟩] = args :=
      Option.some.inj he
    decide
  · exact absurd hanswered (by simp)

/-- A service with one method of one request and one response. -/
def simpleService : ServiceDescriptor where
  fullName := str "helloworld.Greeter"
  methods := [⟨str "SayHello", str "helloworld.HelloRequest", str "helloworld.HelloReply", false,
    false⟩]
  nodup := by simp

theorem dispatched_iff_simpleService :
    Served (fun _ bytes => some bytes)
      ⟨str "SayHello", str "/helloworld.Greeter/SayHello", str "helloworld.HelloRequest",
        str "helloworld.HelloReply", false, false⟩ (some ⟨some [1]⟩) 7
      (endState (callMethod (fun _ bytes => some bytes) (fun _ => some fun _ => some .nil)
        simpleService (Server.new []) 0 (some ⟨some [1]⟩) 7) {}) :=
  (dispatched_iff (fun _ bytes => some bytes) (fun _ => some fun _ => some .nil) simpleService
    (show Stub.MethodInfo.new simpleService (str "SayHello") () = .ok _ () from rfl) (Server.new [])
    (i := 0) (by decide) (some ⟨some [1]⟩) (fun h => absurd h (by simp)) 7).mpr
      ⟨rfl, fun _ => ⟨rfl, [1], rfl, rfl⟩⟩

end LuaService

end GrpcLua
