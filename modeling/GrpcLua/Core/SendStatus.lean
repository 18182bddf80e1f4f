import GrpcLua.Core.Call
import GrpcLua.Core.CallOpData

/-!
# Core — SendStatus

The way of a status from the server to the client: `CallOperations::ServerSendStatus` with its
`CodServerSendStatus`, the slice that the operation hands to gRPC, and the `CodClientRecvStatus`
that the client's operation fills.

`Op.ofStatus` is what the first two come to (`serverSendStatus_spec`), so that a batch with it sends
what they make of the status (`sends_of_status?`).  The details pass through a `const char*` on the
way, and `Sends.carries_iff` says when that does no harm.
-/

namespace GrpcLua
open Prog

/-! ### Slices -/

/-- A `grpc_slice`: its bytes, and their number. -/
structure Slice where
  bytes : Bytes
  deriving DecidableEq, Repr

/-- `SliceFromCopiedString(str)`: `str.length()` bytes. -/
def sliceFromCopiedString (str : Bytes) : Slice := ⟨str⟩

/-- `StringFromCopiedSlice(slice)`: `GRPC_SLICE_LENGTH(slice)` bytes. -/
def stringFromCopiedSlice (slice : Slice) : Bytes := slice.bytes

@[simp] theorem stringFromCopiedSlice_sliceFromCopiedString (str : Bytes) :
    stringFromCopiedSlice (sliceFromCopiedString str) = str := rfl

/-- The terminator ends the string no earlier than its first NUL does. -/
@[simp] theorem cString_terminated (s : Bytes) : cString (s ++ [0]) = cString s := by
  induction s with
  | nil => rfl
  | cons b s ih =>
      rw [cString] at ih
      by_cases hb : b = 0
      · simp [cString, hb]
      · simp [cString, hb, ih]

/-! ### The server's side -/

/-- `CodServerSendStatus`, without the trailing metadata, which nothing sets. -/
structure CodServerSendStatus where
  sendStatusCode : StatusCode := .ok
  sendStatusDetails : Bytes := []
  deriving DecidableEq, Repr

namespace CodServerSendStatus

/-- `SetStatus(status)`. -/
def setStatus (status : Status) : EStateM Exit CodServerSendStatus Unit := do
  check fun cod => cod.sendStatusCode == .ok
  check fun cod => cod.sendStatusDetails.isEmpty
  set (⟨status.code, status.details⟩ : CodServerSendStatus)

def getStatusCode (cod : CodServerSendStatus) : StatusCode := cod.sendStatusCode

/-- `GetStatusDetailsBuf()`: what the pointer points to. -/
def getStatusDetailsBuf (cod : CodServerSendStatus) : Bytes := cod.sendStatusDetails ++ [0]

end CodServerSendStatus

/-- `CallOperations::ServerSendStatus(status, cod)`.  The overload that it calls takes the details
as a `const std::string&`, which is made of the pointer. -/
def serverSendStatus (status : Status) : EStateM Exit CodServerSendStatus Op := do
  CodServerSendStatus.setStatus status
  let cod ← get
  let statusDetails := cString cod.getStatusDetailsBuf
  pure (.serverSendStatus
    ⟨cod.getStatusCode, stringFromCopiedSlice (sliceFromCopiedString statusDetails)⟩)

/-- A new `CodServerSendStatus` takes any status, and no other takes one. -/
theorem serverSendStatus_spec (status : Status) (cod : CodServerSendStatus) :
    wp (serverSendStatus status) (fun op cod' => cod = {} ∧ op = .ofStatus status ∧
      cod' = ⟨status.code, status.details⟩) (fun e _ => cod ≠ {} ∧ e = .assertion) cod := by
  obtain ⟨code, details⟩ := cod
  simp only [serverSendStatus, CodServerSendStatus.setStatus, wp_bind, wp_check]
  by_cases hcode : code = .ok
  · subst hcode
    cases details with
    | nil =>
        refine ⟨rfl, ?_, rfl⟩
        simp only [Op.ofStatus, CodServerSendStatus.getStatusDetailsBuf, cString_terminated,
          CodServerSendStatus.getStatusCode, stringFromCopiedSlice_sliceFromCopiedString]
    | cons b details => exact ⟨by simp, trivial⟩
  · rw [if_neg (by simpa using hcode)]
    exact ⟨fun h => hcode (congrArg CodServerSendStatus.sendStatusCode h), trivial⟩

/-! ### The client's side -/

namespace Batch

/-- The client's `CodClientRecvStatus`, where the transport delivers the code and the details of the
batch's status unchanged. -/
def received (b : Batch) : Option CodClientRecvStatus :=
  b.status?.map fun st => { statusCode := st.code, statusDetails := st.details }

/-- The batch sends just this status, and the client's `GetStatus()` returns it. -/
def Carries (b : Batch) (status : Status) : Prop :=
  b.status? = some status ∧ b.received.map CodClientRecvStatus.getStatus = some status

instance (b : Batch) (status : Status) : Decidable (b.Carries status) :=
  inferInstanceAs (Decidable (_ ∧ _))

/-- The status that the batch sends is the one of the operation that `ServerSendStatus(status)` adds
with a new `CodServerSendStatus`. -/
def Sends (b : Batch) (status : Status) : Prop :=
  wp (serverSendStatus status) (fun op _ => b.status? = status? [op]) (fun _ _ => False) {}

variable {b : Batch} {status : Status}

theorem sends_of_status? (hb : b.status? = some ⟨status.code, cString status.details⟩) :
    b.Sends status := by
  refine wp_mono (serverSendStatus_spec status {}) ?_ ?_
  · rintro _ _ ⟨-, rfl, -⟩
    exact hb
  · rintro _ _ ⟨hne, -⟩
    exact hne rfl

theorem Sends.status? (h : b.Sends status) :
    b.status? = some ⟨status.code, cString status.details⟩ := by
  have hspec := wp_and h (serverSendStatus_spec status {})
  unfold wp at hspec
  split at hspec
  · obtain ⟨hb, -, rfl, -⟩ := hspec
    exact hb
  · exact hspec.1.elim

/-- What a batch sends is what is received, unless the details have a NUL. -/
theorem Sends.carries_iff (h : b.Sends status) :
    b.Carries status ↔ (0 : UInt8) ∉ status.details := by
  have hb := h.status?
  rw [← cString_eq_self]
  constructor
  · intro hc
    have hsame := hb.symm.trans hc.1
    exact congrArg Status.details (Option.some.inj hsame)
  · intro hcut
    rw [hcut] at hb
    refine ⟨hb, ?_⟩
    rw [received, hb]
    rfl

end Batch

end GrpcLua
