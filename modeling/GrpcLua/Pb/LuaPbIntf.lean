import GrpcLua.Pb.MessageSetter
import GrpcLua.Pb.MsgToTbl

/-!
# Pb — LuaPbIntf

`Encode()` and `Decode()` of `pb/LuaPbIntfImpl.cpp`, over what protobuf makes of a message: `Codec`
are `SerializeAsString()` and `ParseFromString()`, and the messages that come through both.
-/

namespace GrpcLua.Pb
open MessageSetter MsgToTbl

variable {Num Float : Type} [DecidableEq Num]

/-- The wire format.  It carries the messages within its limits: of size, of depth, and of what is a
text. -/
structure Codec (Num Float : Type) where
  serializeAsString : Nat → List (Content Num Float) → Bytes
  parseFromString : Nat → Bytes → Option (List (Content Num Float))
  Carries : Nat → List (Content Num Float) → Prop
  parse_serialize : ∀ type slots, Carries type slots →
    parseFromString type (serializeAsString type slots) = some slots

section
variable (R : Runtime Num Float) (pool : Pool Num Float) (codec : Codec Num Float)

/-- `MakeSharedMessage()`: the type of an empty message. -/
def makeSharedMessage (sTypeName : Bytes) : Except Error Nat :=
  match pool.findMessageTypeByName sTypeName with
  | some type => .ok type
  | none => .error (.exception (str "No message type: " ++ sTypeName))

/-- `LuaRef::checkTable()`. -/
def checkTable : LuaValue Num → Except Error Unit
  | .table _ _ => .ok ()
  | v => .error (LuaValue.typeError "table" v)

/-- `Encode()`. -/
def encode (sMsgTypeName : Bytes) (luaTable : LuaValue Num) : Except Error Bytes := do
  checkTable luaTable
  let type ← makeSharedMessage pool sMsgTypeName
  let slots ← setMsg R pool (pool.descriptor type) (pool.descriptor type).empty luaTable
  .ok (codec.serializeAsString type slots)

/-- `Decode()`. -/
def decode (sMsgTypeName : Bytes) (sData : Bytes) : Except Error (LuaValue Num) := do
  let type ← makeSharedMessage pool sMsgTypeName
  match codec.parseFromString type sData with
  | some slots => .ok (toTbl R pool (pool.descriptor type) slots)
  | none => .ok .nil

end

variable {R : Runtime Num Float} {pool : Pool Num Float} {codec : Codec Num Float}
variable {sTypeName sData : Bytes} {type b : Nat} {es : List (LuaKey Num × LuaValue Num)}
  {slots : List (Content Num Float)}

theorem decode_of_parse (htype : pool.findMessageTypeByName sTypeName = some type)
    (hparse : codec.parseFromString type sData = some slots) :
    decode R pool codec sTypeName sData = .ok (toTbl R pool (pool.descriptor type) slots) := by
  simp only [decode, makeSharedMessage, htype, bind, Except.bind, hparse]

end GrpcLua.Pb
