import GrpcLua.Core.Status
import GrpcLua.Support.Traces
import GrpcLua.Support.Outbox
import GrpcLua.Support.Programs

/-!
# Core — Call

The `grpc_call` an object drives, seen from the object.  `CallOperations` fills a batch of
operations and `Call::StartBatch` hands it to gRPC, which may refuse it.  `Env` is what surrounds
an object: gRPC's answers to the batches to come, the status the server ends the call with, and
the trace of all that has passed between the object, gRPC and the user, the latest last.

The trace is where messages are followed: `accepted` are the messages a `Write` returned true
for, `handed` those in a batch gRPC took, `delivered` those whose batch completed with success.
`Sends` says that the three are the three lists of an `Outbox`.
-/

namespace GrpcLua
open Prog

/-- An operation of a batch, `grpc_op` with the data the library fills in. -/
inductive Op where
  | sendInitMd
  | sendMsg (msg : Bytes)
  | recvInitMd
  | recvMsg
  | clientSendClose
  | clientRecvStatus
  | serverSendStatus (status : Status)
  deriving DecidableEq, Repr

/-- `std::string(const char*)`: the bytes before the first NUL. -/
def cString (s : Bytes) : Bytes := s.takeWhile (· != 0)

theorem cString_eq_self {s : Bytes} : cString s = s ↔ (0 : UInt8) ∉ s := by
  induction s with
  | nil => simp [cString]
  | cons b s ih =>
      rw [cString] at ih
      by_cases hb : b = 0
      · simp [cString, hb]
      · simp [cString, hb, ih, Ne.symm hb]

/-- `CallOperations::ServerSendStatus(status, cod)`: the details go through the `const char*` of
`CodServerSendStatus::GetStatusDetailsBuf()`. -/
def Op.ofStatus (status : Status) : Op := .serverSendStatus ⟨status.code, cString status.details⟩

/-- The operations of one `CallOperations`. -/
abbrev Batch := List Op

namespace Batch

/-- The message a batch sends, if it sends one. -/
def msg? (b : Batch) : Option Bytes :=
  b.findSome? fun | .sendMsg m => some m | _ => none

/-- The status a batch sends, if it sends one. -/
def status? (b : Batch) : Option Status :=
  b.findSome? fun | .serverSendStatus s => some s | _ => none

end Batch

/-- What passes between an object, gRPC and the user.  `κ` are the calls of the object's own
kind: its callbacks, or its closing calls. -/
inductive Event (κ : Type) where
  /-- The batch was handed to `StartBatch`, which returned `started`. -/
  | batch (b : Batch) (started : Bool)
  /-- The batch that sends `msg` has completed. -/
  | sent (msg : Bytes) (success : Bool)
  /-- `Write(msg)` returned `accepted`. -/
  | wrote (msg : Bytes) (accepted : Bool)
  | called (k : κ)
  deriving DecidableEq, Repr

section trace
variable {κ : Type}

/-- The batches handed to `StartBatch`. -/
def batches (tr : List (Event κ)) : List Batch :=
  tr.filterMap fun | .batch b _ => some b | _ => none

/-- The messages for which `Write` returned true. -/
def accepted (tr : List (Event κ)) : List Bytes :=
  tr.filterMap fun | .wrote m true => some m | _ => none

/-- The messages handed successfully to `StartBatch`. -/
def handed (tr : List (Event κ)) : List Bytes :=
  tr.filterMap fun | .batch b true => b.msg? | _ => none

/-- The messages that were sent successfully. -/
def delivered (tr : List (Event κ)) : List Bytes :=
  tr.filterMap fun | .sent m true => some m | _ => none

@[simp] theorem batches_append (tr tr' : List (Event κ)) :
    batches (tr ++ tr') = batches tr ++ batches tr' := List.filterMap_append

@[simp] theorem accepted_append (tr tr' : List (Event κ)) :
    accepted (tr ++ tr') = accepted tr ++ accepted tr' := List.filterMap_append

@[simp] theorem handed_append (tr tr' : List (Event κ)) :
    handed (tr ++ tr') = handed tr ++ handed tr' := List.filterMap_append

@[simp] theorem delivered_append (tr tr' : List (Event κ)) :
    delivered (tr ++ tr') = delivered tr ++ delivered tr' := List.filterMap_append

theorem batches_of_prefix {tr tr' : List (Event κ)} (h : tr <+: tr') (hb : batches tr ≠ []) :
    batches tr' ≠ [] := by
  obtain ⟨rest, rfl⟩ := h
  rw [batches_append]
  exact List.append_ne_nil_of_left_ne_nil hb _

theorem handed_batch {b : Batch} {started : Bool} (h : started = false ∨ b.msg? = none) :
    handed [(.batch b started : Event κ)] = [] := by
  rcases h with rfl | h
  · rfl
  · cases started
    · rfl
    · simp only [handed, List.filterMap_cons, h, List.filterMap_nil]

/-- The trace's messages are those of the outbox `o`. -/
structure Sends (tr : List (Event κ)) (o : Outbox Bytes) : Prop where
  accepted : accepted tr = o.accepted
  handed : handed tr = o.started
  delivered : delivered tr = o.finished

end trace

/-! ### The surroundings of an object -/

/-- What surrounds an object. -/
structure Env (κ : Type) where
  /-- What `StartBatch` will return, call after call; true when the list runs out. -/
  starts : List Bool
  /-- The status with which the server ends the call. -/
  final : Status
  trace : List (Event κ)
  deriving DecidableEq, Repr

/-- An object together with its surroundings. -/
class HasEnv (σ : Type) (κ : outParam Type) where
  env : σ → Env κ
  setEnv : σ → Env κ → σ

/-- `Call::StartBatch`. -/
def startBatch {ε σ κ : Type} [HasEnv σ κ] (b : Batch) : EStateM ε σ Bool :=
  modifyGet fun s =>
    let w := HasEnv.env s
    let ok := w.starts.headD true
    (ok, HasEnv.setEnv s { w with starts := w.starts.tail, trace := w.trace ++ [.batch b ok] })

/-- Something passes between the object and the user. -/
def emit {ε σ κ : Type} [HasEnv σ κ] (e : Event κ) : EStateM ε σ Unit :=
  modify fun s =>
    let w := HasEnv.env s
    HasEnv.setEnv s { w with trace := w.trace ++ [e] }

section rules
variable {ε σ κ : Type} [HasEnv σ κ] {E : ε → σ → Prop} {s : σ}

@[simp] theorem wp_startBatch {Q : Bool → σ → Prop} (b : Batch) :
    wp (startBatch b) Q E s ↔ Q ((HasEnv.env s).starts.headD true) (HasEnv.setEnv s
      { HasEnv.env s with
        starts := (HasEnv.env s).starts.tail
        trace := (HasEnv.env s).trace ++ [.batch b ((HasEnv.env s).starts.headD true)] }) :=
  Iff.rfl

@[simp] theorem wp_emit {Q : Unit → σ → Prop} (e : Event κ) :
    wp (emit e) Q E s ↔ Q () (HasEnv.setEnv s
      { HasEnv.env s with trace := (HasEnv.env s).trace ++ [e] }) :=
  Iff.rfl

end rules

end GrpcLua
