import Mathlib.Tactic.Common

/-!
# Core — Status

`core::Status` of `core/common/status.h`, over the status codes of `grpc_status_code`.
-/

namespace GrpcLua

/-- A `std::string`: bytes, not characters. -/
abbrev Bytes := List UInt8

/-- A string literal of the source. -/
def str (s : String) : Bytes := s.toUTF8.data.toList

/-- `grpc_status_code`. -/
inductive StatusCode where
  | ok | cancelled | unknown | invalidArgument | deadlineExceeded | notFound | alreadyExists
  | permissionDenied | resourceExhausted | failedPrecondition | aborted | outOfRange
  | unimplemented | internal | unavailable | dataLoss | unauthenticated
  deriving DecidableEq, Repr

/-- `Status`. -/
structure Status where
  code : StatusCode
  details : Bytes
  deriving DecidableEq, Repr

namespace Status

/-- `Status::OK`, which is also what the default constructor builds. -/
def OK : Status := ⟨.ok, []⟩

/-- `Status::ok()`. -/
def ok (s : Status) : Bool := s.code == .ok

/-- `Status::InternalError()`; `SetInternalError()` assigns the same value. -/
def internalError (details : Bytes) : Status := ⟨.internal, details⟩

/-- The status of what a Lua callback has returned: an error string, or nil. -/
def ofLuaErrStr : Option Bytes → Status
  | none => OK
  | some sError => internalError sError

@[simp] theorem ok_OK : OK.ok = true := rfl
@[simp] theorem ok_internalError (details : Bytes) : (internalError details).ok = false := rfl
@[simp] theorem ok_ofLuaErrStr (sError? : Option Bytes) :
    (ofLuaErrStr sError?).ok = sError?.isNone := by cases sError? <;> rfl

end Status

end GrpcLua
