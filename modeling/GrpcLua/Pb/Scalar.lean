import GrpcLua.Pb.Lua
import Mathlib.Data.List.Lex
import Mathlib.Order.Lattice

/-!
# Pb — Scalar

The scalar types of protobuf, their values, and the two conversions of each: `toValue<T>()`, with
which `MessageSetter` reads a Lua value, and `LuaRefValue`, with which `MsgToTbl` makes one.

A Lua integer that is read has its low bits kept, whatever it is (`LuaIntegerTypeMapping`);
`InRange` are those that this does not change.
-/

namespace GrpcLua.Pb
variable {Num Float : Type}

/-- The types that the key of a map may have. -/
inductive KeyType where
  | int32 | int64 | uint32 | uint64 | bool | string
  deriving DecidableEq, Repr

/-- The key of a map: `google::protobuf::MapKey`. -/
inductive MapKey where
  | int32 (n : BitVec 32)
  | int64 (n : BitVec 64)
  | uint32 (n : BitVec 32)
  | uint64 (n : BitVec 64)
  | bool (b : Bool)
  | string (s : Bytes)
  deriving Repr

/-- `FieldDescriptor::CppType` of what is not a message.  An enum has its names and their numbers; a
closed one, which is one of proto2, has no other numbers. -/
inductive ScalarType where
  | ofKey (t : KeyType)
  | double
  | float
  | enum (closed : Bool) (values : List (Bytes × BitVec 32))
  deriving DecidableEq, Repr

namespace MapKey

def type : MapKey → KeyType
  | int32 _ => .int32
  | int64 _ => .int64
  | uint32 _ => .uint32
  | uint64 _ => .uint64
  | bool _ => .bool
  | string _ => .string

/-- What the keys are ordered by. -/
def code : MapKey → List Nat
  | int32 n => [0, n.toNat]
  | int64 n => [1, n.toNat]
  | uint32 n => [2, n.toNat]
  | uint64 n => [3, n.toNat]
  | bool b => [4, b.toNat]
  | string s => 5 :: s.map UInt8.toNat

theorem code_injective : Function.Injective code := by
  intro k k' h
  cases k <;> cases k' <;> simp [code, BitVec.toNat_inj] at h ⊢
  case int32.int32 | int64.int64 | uint32.uint32 | uint64.uint64 => exact h
  case bool.bool b b' => cases b <;> cases b' <;> first | rfl | cases h
  case string.string => exact List.map_injective_iff.2 (fun a b => UInt8.toNat_inj.1) h

instance : LinearOrder MapKey := LinearOrder.lift' code code_injective

/-- `LuaRefValue` of the key. -/
def toLua : MapKey → LuaKey Num
  | int32 n => .integer (n.signExtend 64)
  | int64 n => .integer n
  | uint32 n => .integer (n.setWidth 64)
  | uint64 n => .integer n
  | bool b => .boolean b
  | string s => .string s

end MapKey

inductive Scalar (Num Float : Type) where
  | ofKey (k : MapKey)
  | double (x : Num)
  | float (x : Float)
  | enum (n : BitVec 32)
  deriving DecidableEq, Repr

namespace ScalarType

/-- The scalar is a value of the type. -/
def Holds : ScalarType → Scalar Num Float → Prop
  | ofKey t, .ofKey k => k.type = t
  | double, .double _ => True
  | float, .float _ => True
  | enum closed values, .enum n => closed = true → n ∈ values.map Prod.snd
  | _, _ => False

/-- The number of the scalar, if it is of a closed enum that does not have it
(`FindValueByNumber()`). -/
def unknownNumber : ScalarType → Scalar Num Float → Option (BitVec 32)
  | enum true values, .enum n => if n ∈ values.map Prod.snd then none else some n
  | _, _ => none

end ScalarType

section
variable (R : Runtime Num Float)

/-- `LuaRefValue` of the scalar. -/
def Scalar.toLua : Scalar Num Float → LuaValue Num
  | ofKey k => k.toLua.toValue
  | double x => .number x
  | float x => .number (R.widen x)
  | enum n => .integer (n.signExtend 64)

/-- `toValue<T>()`, for the type of a key. -/
def KeyType.ofLua : KeyType → LuaValue Num → Except Error MapKey
  | int32, v => (v.checkInteger R).map fun n => .int32 (n.setWidth 32)
  | int64, v => (v.checkInteger R).map .int64
  | uint32, v => (v.checkInteger R).map fun n => .uint32 (n.setWidth 32)
  | uint64, v => (v.checkInteger R).map .uint64
  | bool, v => .ok (.bool v.toBoolean)
  | string, v => (v.checkString R).map .string

/-- `GetEnumValue()`: a name of the enum, or what converts to an integer. -/
def getEnumValue (values : List (Bytes × BitVec 32)) (v : LuaValue Num) :
    Except Error (BitVec 32) :=
  match v with
  | .string sEnum =>
      match values.lookup sEnum with
      | some n => .ok n
      | none => (v.checkInteger R).map (·.setWidth 32)
  | _ => (v.checkInteger R).map (·.setWidth 32)

/-- `toValue<T>()`. -/
def ScalarType.ofLua : ScalarType → LuaValue Num → Except Error (Scalar Num Float)
  | ofKey t, v => (t.ofLua R v).map .ofKey
  | double, v => (v.checkNumber R).map .double
  | float, v => (v.checkNumber R).map fun x => .float (R.narrow x)
  | enum _ values, v => (getEnumValue R values v).map .enum

/-! ### What is made is read back -/

theorem setWidth_signExtend (n : BitVec 32) : (n.signExtend 64).setWidth 32 = n := by
  ext i hi
  simp [BitVec.getLsbD_signExtend, hi]
  omega

@[simp] theorem MapKey.ofLua_toLua (k : MapKey) : k.type.ofLua R k.toLua.toValue = .ok k := by
  cases k with
  | int32 n =>
      simp [type, KeyType.ofLua, toLua, LuaKey.toValue, LuaValue.checkInteger, Except.map,
        setWidth_signExtend]
  | int64 n => rfl
  | uint32 n =>
      simp [type, KeyType.ofLua, toLua, LuaKey.toValue, LuaValue.checkInteger, Except.map]
  | uint64 n => rfl
  | bool b => rfl
  | string s => rfl

theorem ScalarType.ofLua_toLua {t : ScalarType} {s : Scalar Num Float} (h : t.Holds s) :
    t.ofLua R (s.toLua R) = .ok s := by
  cases t <;> cases s <;> simp only [Holds] at h
  case ofKey.ofKey t k =>
    subst h
    simp [ofLua, Scalar.toLua, Except.map]
  case double.double x => rfl
  case float.float x =>
    simp [ofLua, Scalar.toLua, LuaValue.checkNumber, Except.map, R.narrow_widen]
  case enum.enum closed values n =>
    simp [ofLua, Scalar.toLua, getEnumValue, LuaValue.checkInteger, Except.map,
      setWidth_signExtend]

theorem ScalarType.unknownNumber_eq_some {t : ScalarType} {s : Scalar Num Float} {n : BitVec 32} :
    t.unknownNumber s = some n ↔
      ∃ values, t = .enum true values ∧ s = .enum n ∧ n ∉ values.map Prod.snd := by
  constructor
  · intro h
    unfold unknownNumber at h
    split at h
    case h_1 values m =>
      split_ifs at h with hm
      obtain rfl := Option.some.inj h
      exact ⟨values, rfl, rfl, hm⟩
    case h_2 => cases h
  · rintro ⟨values, rfl, rfl, hn⟩
    exact if_neg hn

theorem MapKey.type_of_ofLua {t : KeyType} {v : LuaValue Num} {k : MapKey}
    (h : t.ofLua R v = .ok k) : k.type = t := by
  cases t with
  | bool => cases h; rfl
  | string => cases hv : v.checkString R <;> simp [KeyType.ofLua, hv, Except.map] at h; subst h; rfl
  | int32 | int64 | uint32 | uint64 =>
      cases hv : v.checkInteger R <;> simp [KeyType.ofLua, hv, Except.map] at h
      subst h
      rfl

/-- What is made is of the type, or a number that its enum does not have. -/
theorem ScalarType.holds_iff {t : ScalarType} {v : LuaValue Num} {s : Scalar Num Float}
    (h : t.ofLua R v = .ok s) : t.Holds s ↔ t.unknownNumber s = none := by
  cases t with
  | ofKey t =>
      cases hk : t.ofLua R v with
      | error e => rw [ofLua, hk] at h; cases h
      | ok k =>
          rw [ofLua, hk] at h
          cases h
          exact iff_of_true (MapKey.type_of_ofLua R hk) rfl
  | double =>
      cases hx : v.checkNumber R <;> rw [ofLua, hx] at h <;> cases h
      exact iff_of_true trivial rfl
  | float =>
      cases hx : v.checkNumber R <;> rw [ofLua, hx] at h <;> cases h
      exact iff_of_true trivial rfl
  | enum closed values =>
      cases hn : getEnumValue R values v <;> rw [ofLua, hn] at h <;> cases h
      cases closed <;> simp [Holds, unknownNumber]

end

/-- Keys of one type are different in Lua as well. -/
theorem MapKey.toLua_injective {k k' : MapKey} (ht : k.type = k'.type)
    (h : (k.toLua : LuaKey Num) = k'.toLua) : k = k' := by
  cases k <;> cases k' <;> simp [type, toLua] at ht h ⊢
  case int32.int32 n n' => rw [← setWidth_signExtend n, h, setWidth_signExtend]
  case uint32.uint32 n n' =>
    have hn := congrArg (BitVec.setWidth 32) h
    simpa using hn
  all_goals exact h

/-! ### The integers that keep their value -/

namespace KeyType

/-- The integers of the type; as an integer of Lua, every 64-bit one is. -/
def InRange : KeyType → BitVec 64 → Prop
  | int32, n => -2 ^ 31 ≤ n.toInt ∧ n.toInt < 2 ^ 31
  | uint32, n => 0 ≤ n.toInt ∧ n.toInt < 2 ^ 32
  | _, _ => True

instance (t : KeyType) (n : BitVec 64) : Decidable (t.InRange n) := by
  cases t <;> unfold InRange <;> infer_instance

theorem signExtend_setWidth (n : BitVec 64) :
    (n.setWidth 32).signExtend 64 = n ↔ int32.InRange n := by
  rw [InRange, ← BitVec.toInt_inj, BitVec.toInt_signExtend_of_le (by decide), BitVec.toInt_setWidth,
    BitVec.toInt_eq_toNat_bmod]
  simp only [Int.bmod]
  omega

theorem setWidth_setWidth (n : BitVec 64) :
    (n.setWidth 32).setWidth 64 = n ↔ uint32.InRange n := by
  have hn := n.isLt
  rw [InRange, ← BitVec.toNat_inj, BitVec.toNat_setWidth, BitVec.toNat_setWidth,
    BitVec.toInt_eq_toNat_bmod]
  simp only [Int.bmod]
  omega

/-- A key of the natural Lua type. -/
def Natural : KeyType → LuaKey Num → Prop
  | bool, .boolean _ => True
  | string, .string _ => True
  | int32, .integer _ => True
  | int64, .integer _ => True
  | uint32, .integer _ => True
  | uint64, .integer _ => True
  | _, _ => False

variable {R : Runtime Num Float} {t : KeyType} {k : LuaKey Num}

/-- A natural key is converted, and comes back if it is in range. -/
theorem Natural.exists_ofLua (h : t.Natural k) :
    ∃ mapKey, t.ofLua R k.toValue = .ok mapKey ∧
      (mapKey.toLua = k ↔ ∀ n, k = .integer n → t.InRange n) := by
  cases t <;> cases k <;> simp only [Natural] at h
  case int32.integer n =>
    exact ⟨_, rfl, by simp [MapKey.toLua, signExtend_setWidth]⟩
  case uint32.integer n =>
    exact ⟨_, rfl, by simpa [MapKey.toLua] using setWidth_setWidth n⟩
  case int64.integer n => exact ⟨_, rfl, by simp [MapKey.toLua, InRange]⟩
  case uint64.integer n => exact ⟨_, rfl, by simp [MapKey.toLua, InRange]⟩
  case bool.boolean b => exact ⟨_, rfl, by simp [MapKey.toLua, LuaKey.toValue, LuaValue.toBoolean]⟩
  case string.string s => exact ⟨_, rfl, by simp [MapKey.toLua]⟩

end KeyType

/-- The integer that a key becomes is in the range of its type. -/
theorem MapKey.inRange {k : MapKey} {n : BitVec 64} (h : (k.toLua : LuaKey Num) = .integer n) :
    k.type.InRange n := by
  cases k <;> simp [toLua] at h
  case int32 m => exact (KeyType.signExtend_setWidth n).1 (by rw [← h, setWidth_signExtend])
  case uint32 m => exact (KeyType.setWidth_setWidth n).1 (by rw [← h]; simp)
  all_goals trivial

namespace ScalarType

/-- A value of the natural Lua type; of an enum, an integer or a name. -/
def Natural : ScalarType → LuaValue Num → Prop
  | ofKey t, v => ∃ k, v = k.toValue ∧ t.Natural k
  | double, .number _ => True
  | float, .number _ => True
  | enum _ _, .integer _ => True
  | enum _ values, .string s => (values.lookup s).isSome
  | _, _ => False

/-- The integers of the type. -/
def InRange : ScalarType → BitVec 64 → Prop
  | ofKey t, n => t.InRange n
  | enum closed values, n =>
      KeyType.int32.InRange n ∧ (closed = true → n.setWidth 32 ∈ values.map Prod.snd)
  | _, _ => True

variable {R : Runtime Num Float} {t : ScalarType} {v : LuaValue Num}

/-- A natural value is converted; an integer comes back if it is in range, and only an integer may
be a number that an enum does not have. -/
theorem Natural.exists_ofLua (h : t.Natural v) : ∃ s, t.ofLua R v = .ok s ∧
    (∀ n, v = .integer n →
      (t.unknownNumber s = none ∧ s.toLua R = .integer n ↔ t.InRange n)) ∧
    ((∀ n, v ≠ .integer n) → t.unknownNumber s = none) := by
  cases t with
  | ofKey t =>
      obtain ⟨k, rfl, hk⟩ := h
      obtain ⟨mapKey, hmap, hback⟩ := hk.exists_ofLua (R := R)
      refine ⟨.ofKey mapKey, by rw [ofLua, hmap]; rfl, fun n hn => ?_, fun _ => rfl⟩
      obtain rfl : k = .integer n := by cases k <;> simp_all [LuaKey.toValue]
      have hval : mapKey.toLua.toValue = (.integer n : LuaValue Num) ↔
          mapKey.toLua = (.integer n : LuaKey Num) := by
        cases mapKey <;> simp [MapKey.toLua, LuaKey.toValue]
      rw [Scalar.toLua, hval, hback]
      simp [InRange, unknownNumber]
  | double =>
      cases v <;> simp only [Natural] at h
      exact ⟨_, rfl, by simp, fun _ => rfl⟩
  | float =>
      cases v <;> simp only [Natural] at h
      exact ⟨_, rfl, by simp, fun _ => rfl⟩
  | enum closed values =>
      cases v <;> simp only [Natural] at h
      case integer m =>
        refine ⟨_, rfl, fun n hn => ?_, fun hne => absurd rfl (hne m)⟩
        obtain rfl := LuaValue.integer.inj hn
        cases closed <;>
          simp [Scalar.toLua, InRange, KeyType.signExtend_setWidth, unknownNumber, and_comm]
      case string s =>
        obtain ⟨m, hm⟩ := Option.isSome_iff_exists.1 h
        refine ⟨.enum m, by simp [ofLua, getEnumValue, hm, Except.map], by simp, fun _ => ?_⟩
        -- The number of a name is one of the enum's.
        have hmem : m ∈ values.map Prod.snd := by
          obtain ⟨us, vs, rfl, -⟩ := List.lookup_eq_some_iff.1 hm
          simp
        cases closed with
        | false => rfl
        | true => exact if_pos hmem

theorem Natural.ne_table (h : t.Natural v) (b : Nat) (es : List (LuaKey Num × LuaValue Num)) :
    v ≠ .table b es := by
  rintro rfl
  cases t with
  | ofKey t =>
      obtain ⟨k, hk, -⟩ := h
      cases k <;> cases hk
  | _ => exact h

end ScalarType

end GrpcLua.Pb
