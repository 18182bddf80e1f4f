import GrpcLua.Core.Status
import GrpcLua.Support.Programs

/-!
# Core — CallOpData

What a completed batch leaves behind: the received message of `CodRecvMsg` and the final status
of `CodClientRecvStatus`.
-/

namespace GrpcLua
open Prog

/-- A `grpc_byte_buffer`: what its reader reads, or nothing where the reader cannot be
initialised. -/
structure ByteBuffer where
  contents : Option Bytes
  deriving DecidableEq, Repr

/-- `ByteBufferToString`: the bytes where it returns true. -/
def byteBufferToString (buf : ByteBuffer) : Option Bytes := buf.contents

/-- `CodRecvMsg`; `recvBuf` is null where no message came. -/
structure CodRecvMsg where
  recvBuf : Option ByteBuffer
  deriving DecidableEq, Repr

namespace CodRecvMsg

/-- `HasGotMsg()`: false at the end of a stream. -/
def hasGotMsg (cod : CodRecvMsg) : Bool := cod.recvBuf.isSome

/-- `GetResultMsg(result)`: its status, and what it leaves in `result`. -/
def getResultMsg {σ : Type} (cod : CodRecvMsg) (result : Bytes) :
    EStateM Exit σ (Status × Bytes) :=
  match cod.recvBuf with
  | none => throw .assertion
  | some buf =>
      match byteBufferToString buf with
      | some bytes => pure (.OK, bytes)
      | none => pure (.internalError (str "Failed to read recv byte buffer."), result)

/-- `GetResultMsg` changes nothing but its result. -/
theorem getResultMsg_reads {σ : Type} {cod : CodRecvMsg} {result : Bytes} {s : σ} :
    wp (cod.getResultMsg result) (fun _ s' => s' = s) (fun e s' => e = .assertion ∧ s' = s) s := by
  obtain ⟨_ | buf⟩ := cod
  · exact ⟨rfl, rfl⟩
  · simp only [getResultMsg]
    cases byteBufferToString buf <;> simp

/-- The rule where neither the message nor its status matters. -/
theorem wp_getResultMsg {σ : Type} {cod : CodRecvMsg} {result : Bytes} {s : σ}
    {Q : Status × Bytes → σ → Prop} {E : Exit → σ → Prop} (hQ : ∀ r, Q r s)
    (hE : E .assertion s) : wp (cod.getResultMsg result) Q E s := by
  refine wp_mono getResultMsg_reads ?_ ?_
  · rintro r _ rfl
    exact hQ r
  · rintro _ _ ⟨rfl, rfl⟩
    exact hE

end CodRecvMsg

/-- `CodClientRecvStatus`, with the OK code and the empty details it is constructed with. -/
structure CodClientRecvStatus where
  statusCode : StatusCode := .ok
  statusDetails : Bytes := []
  deriving DecidableEq, Repr

namespace CodClientRecvStatus

def isStatusOk (cod : CodClientRecvStatus) : Bool := cod.statusCode == .ok

def getStatus (cod : CodClientRecvStatus) : Status := ⟨cod.statusCode, cod.statusDetails⟩

@[simp] theorem ok_getStatus (cod : CodClientRecvStatus) : cod.getStatus.ok = cod.isStatusOk := rfl

end CodClientRecvStatus

end GrpcLua
