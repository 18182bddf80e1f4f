import GrpcLua.Core.Status
import Mathlib.Data.List.Forall2
import Mathlib.Algebra.Group.Int.Defs
import Mathlib.Algebra.Group.Nat.Defs

/-!
# Pb — Lua

The values of Lua 5.3 as the protobuf module sees them, and what `LuaRef::toValue<T>()` makes of
them (`LuaType.h` of `lua-intf`).

A table is a list of entries in the order in which `lua_next` yields them; `Reorders` relates the
values that differ in that order only, at any depth.  Tables are plain, without metatables: no
`__index`, `__len` or `__pairs` of the user's runs when one is read.  Nothing depends on what a
floating-point number is, so the numbers are a parameter.
-/

namespace GrpcLua.Pb

/-- A key of a table; of an object, its type and its identity. -/
inductive LuaKey (Num : Type) where
  | boolean (b : Bool)
  | integer (n : BitVec 64)
  | number (x : Num)
  | string (s : Bytes)
  | object (typeName : Bytes) (id : Nat)
  deriving DecidableEq, Repr

/-- A value.  Of a table, `border` is what `luaL_len` returns. -/
inductive LuaValue (Num : Type) where
  | nil
  | boolean (b : Bool)
  | integer (n : BitVec 64)
  | number (x : Num)
  | string (s : Bytes)
  | object (typeName : Bytes) (id : Nat)
  | table (border : Nat) (entries : List (LuaKey Num × LuaValue Num))

/-- What a conversion raises. -/
inductive Error where
  /-- A `LuaException`. -/
  | exception (what : Bytes)
  /-- `luaL_argerror`. -/
  | badArgument (what : Bytes)
  /-- An `assert` of the source. -/
  | assertion
  /-- Nothing is raised: an `int` overflows, which is undefined. -/
  | overflow
  deriving DecidableEq, Repr

/-- The numbers of Lua and C++, as the runtime converts them: a `double` is a `Num`. -/
structure Runtime (Num Float : Type) where
  /-- The integer that the number is. -/
  toInteger : Num → Option (BitVec 64)
  ofInteger : BitVec 64 → Num
  /-- The integer or the number that a string denotes. -/
  parse : Bytes → Option (BitVec 64 ⊕ Num)
  format : BitVec 64 ⊕ Num → Bytes
  narrow : Num → Float
  widen : Float → Num
  narrow_widen : ∀ x, narrow (widen x) = x

/-- Numbers that are integers, and strings that denote none. -/
def Runtime.integers : Runtime Int Int where
  toInteger x := if -2 ^ 63 ≤ x ∧ x < 2 ^ 63 then some (BitVec.ofInt 64 x) else none
  ofInteger := BitVec.toInt
  parse _ := none
  format
    | .inl n => str (toString n.toInt)
    | .inr x => str (toString x)
  narrow := id
  widen := id
  narrow_widen _ := rfl

variable {Num Float : Type}

/-- The key as a value. -/
def LuaKey.toValue : LuaKey Num → LuaValue Num
  | boolean b => .boolean b
  | integer n => .integer n
  | number x => .number x
  | string s => .string s
  | object typeName id => .object typeName id

/-- The index of the element at `n` of a list. -/
def indexKey (n : Nat) : LuaKey Num := .integer (BitVec.ofNat 64 (n + 1))

/-- Lengths of a list are told apart by their keys. -/
theorem indexKey_inj {m n : Nat} (hm : m < 2 ^ 31) (hn : n < 2 ^ 31)
    (h : (indexKey m : LuaKey Num) = indexKey n) : m = n := by
  have hbv := congrArg BitVec.toNat (LuaKey.integer.inj h)
  simp only [BitVec.toNat_ofNat] at hbv
  omega

namespace LuaValue

/-- `lua_typename`. -/
def typeName : LuaValue Num → Bytes
  | nil => str "nil"
  | boolean _ => str "boolean"
  | integer _ => str "number"
  | number _ => str "number"
  | string _ => str "string"
  | object name _ => name
  | table _ _ => str "table"

/-- The induction over the values: a table, if every value it holds. -/
theorem induction {P : LuaValue Num → Prop} (atom : ∀ v, (∀ b es, v ≠ table b es) → P v)
    (table : ∀ b es, (∀ k v, (k, v) ∈ es → P v) → P (table b es)) : ∀ v, P v := by
  refine @LuaValue.rec Num P (fun es => ∀ k v, (k, v) ∈ es → P v) (fun e => P e.2)
    ?nil ?boolean ?integer ?number ?string ?object ?table ?empty ?entries ?entry
  case nil => exact atom _ (by simp)
  case boolean => exact fun b => atom _ (by simp)
  case integer => exact fun n => atom _ (by simp)
  case number => exact fun x => atom _ (by simp)
  case string => exact fun s => atom _ (by simp)
  case object => exact fun typeName id => atom _ (by simp)
  case table => exact table
  case empty => simp
  case entries =>
    intro e es hv ih k v h
    rcases List.mem_cons.1 h with rfl | h
    · exact hv
    · exact ih k v h
  case entry => exact fun k v hv => hv

/-! ### Conversions -/

section
variable (R : Runtime Num Float)

/-- `luaL_typeerror`. -/
def typeError (expected : String) (v : LuaValue Num) : Error :=
  .badArgument (str expected ++ str " expected, got " ++ v.typeName)

/-- The integer that a float is, if it is one. -/
def floatToInteger (x : Num) : Except Error (BitVec 64) :=
  match R.toInteger x with
  | some n => .ok n
  | none => .error (.badArgument (str "number has no integer representation"))

/-- `luaL_checkinteger`. -/
def checkInteger : LuaValue Num → Except Error (BitVec 64)
  | integer n => .ok n
  | number x => floatToInteger R x
  | string s =>
      match R.parse s with
      | some (.inl n) => .ok n
      | some (.inr x) => floatToInteger R x
      | none => .error (typeError "number" (string s : LuaValue Num))
  | v => .error (typeError "number" v)

/-- `luaL_checknumber`. -/
def checkNumber : LuaValue Num → Except Error Num
  | integer n => .ok (R.ofInteger n)
  | number x => .ok x
  | string s =>
      match R.parse s with
      | some (.inl n) => .ok (R.ofInteger n)
      | some (.inr x) => .ok x
      | none => .error (typeError "number" (string s : LuaValue Num))
  | v => .error (typeError "number" v)

/-- `luaL_checklstring`: a number is converted to a string. -/
def checkString : LuaValue Num → Except Error Bytes
  | string s => .ok s
  | integer n => .ok (R.format (.inl n))
  | number x => .ok (R.format (.inr x))
  | v => .error (typeError "string" v)

/-- `lua_toboolean`. -/
def toBoolean : LuaValue Num → Bool
  | nil => false
  | boolean b => b
  | _ => true

end

/-! ### Tables -/

/-- The tables in which a key occurs once, and no value is nil, at any depth. -/
inductive Proper : LuaValue Num → Prop where
  | atom {v : LuaValue Num} (h : ∀ b es, v ≠ table b es) : Proper v
  | entries {b : Nat} {es : List (LuaKey Num × LuaValue Num)} (nodup : (es.map Prod.fst).Nodup)
      (present : ∀ k, (k, nil) ∉ es) (values : ∀ k v, (k, v) ∈ es → Proper v) : Proper (table b es)

/-- A proper table has no key twice and no nil, and its values are proper. -/
theorem Proper.table_inv {b : Nat} {es : List (LuaKey Num × LuaValue Num)}
    (h : Proper (LuaValue.table b es)) :
    (es.map Prod.fst).Nodup ∧ (∀ k, (k, nil) ∉ es) ∧ ∀ k v, (k, v) ∈ es → Proper v := by
  cases h with
  | atom h => exact absurd rfl (h b es)
  | entries nodup present values => exact ⟨nodup, present, values⟩

/-- The second value is the first, but for the order in which its tables yield their entries. -/
inductive Reorders : LuaValue Num → LuaValue Num → Prop where
  | refl (v : LuaValue Num) : Reorders v v
  | entries {b : Nat} {es fs es' : List (LuaKey Num × LuaValue Num)}
      (keys : fs.map Prod.fst = es.map Prod.fst)
      (values : List.Forall₂ Reorders (es.map Prod.snd) (fs.map Prod.snd)) (perm : fs.Perm es') :
      Reorders (table b es) (table b es')

section
variable [DecidableEq Num]

/-- `lua_gettable` on a table. -/
def lookup (es : List (LuaKey Num × LuaValue Num)) (k : LuaKey Num) : LuaValue Num :=
  (es.lookup k).getD nil

/-- The value at a place: under one key after another. -/
def get : LuaValue Num → List (LuaKey Num) → LuaValue Num
  | v, [] => v
  | table _ es, k :: p => (lookup es k).get p
  | _, _ :: _ => nil

def isNil : LuaValue Num → Bool
  | nil => true
  | _ => false

/-- `lua_settable`: nil takes the entry away. -/
def assign : List (LuaKey Num × LuaValue Num) → LuaKey Num → LuaValue Num →
    List (LuaKey Num × LuaValue Num)
  | [], k, v => if v.isNil then [] else [(k, v)]
  | (k', v') :: es, k, v =>
      if k' = k then if v.isNil then es else (k, v) :: es else (k', v') :: assign es k v

/-- The border that `luaL_len` finds. -/
def leastBorder (es : List (LuaKey Num × LuaValue Num)) : Nat :=
  ((List.range (es.length + 1)).find? fun n => (lookup es (indexKey n)).isNil).getD 0

/-- The table that holds the entries. -/
def ofEntries (es : List (LuaKey Num × LuaValue Num)) : LuaValue Num := table (leastBorder es) es

variable {es es' : List (LuaKey Num × LuaValue Num)} {k : LuaKey Num} {v : LuaValue Num}

omit [DecidableEq Num] in
@[simp] theorem isNil_iff : v.isNil = true ↔ v = nil := by cases v <;> simp [isNil]

@[simp] theorem get_nil (v : LuaValue Num) : v.get [] = v := by cases v <;> rfl

@[simp] theorem get_table {b : Nat} {p : List (LuaKey Num)} :
    (table b es).get (k :: p) = (lookup es k).get p := rfl

@[simp] theorem nil_get (p : List (LuaKey Num)) : (nil : LuaValue Num).get p = nil := by
  cases p <;> rfl

theorem lookup_cons {k' : LuaKey Num} :
    lookup ((k', v) :: es) k = if k = k' then v else lookup es k := by
  by_cases h : k = k'
  · simp [lookup, h]
  · simp [lookup, List.lookup_cons, beq_eq_false_iff_ne.2 h, h]

/-- What a table without repeated keys has at a key. -/
theorem lookup_eq_of_mem (nodup : (es.map Prod.fst).Nodup) (h : (k, v) ∈ es) : lookup es k = v := by
  induction es with
  | nil => cases h
  | cons e es ih =>
      obtain ⟨k', v'⟩ := e
      obtain ⟨hk', nodup⟩ := List.nodup_cons.1 nodup
      rw [lookup_cons]
      rcases List.mem_cons.1 h with heq | htail
      · cases heq
        rw [if_pos rfl]
      · rw [if_neg, ih nodup htail]
        rintro rfl
        exact hk' (List.mem_map.2 ⟨(k, v), htail, rfl⟩)

/-- A key without an entry is nil. -/
theorem lookup_eq_nil (h : ∀ v, (k, v) ∉ es) : lookup es k = nil := by
  induction es with
  | nil => rfl
  | cons e es ih =>
      obtain ⟨k', v'⟩ := e
      rw [lookup_cons, if_neg, ih fun v hv => h v (List.mem_cons_of_mem _ hv)]
      rintro rfl
      exact h v' List.mem_cons_self

/-- A key has either no entry, or one that `lookup` finds. -/
theorem lookup_cases (nodup : (es.map Prod.fst).Nodup) (k : LuaKey Num) :
    (k, lookup es k) ∈ es ∨ (∀ v, (k, v) ∉ es) ∧ lookup es k = nil := by
  by_cases h : ∃ v, (k, v) ∈ es
  · obtain ⟨v, h⟩ := h
    exact .inl (lookup_eq_of_mem nodup h ▸ h)
  · exact .inr ⟨fun v hv => h ⟨v, hv⟩, lookup_eq_nil fun v hv => h ⟨v, hv⟩⟩

/-- The order of the entries does not matter. -/
theorem lookup_perm (nodup : (es.map Prod.fst).Nodup) (hp : es.Perm es') :
    lookup es' k = lookup es k := by
  have nodup' : (es'.map Prod.fst).Nodup := ((hp.map Prod.fst).nodup_iff).1 nodup
  rcases lookup_cases nodup k with h | ⟨h, hnil⟩
  · exact lookup_eq_of_mem nodup' (hp.mem_iff.1 h)
  · rw [hnil]
    exact lookup_eq_nil fun v hv => h v (hp.mem_iff.2 hv)

/-! ### Assignments -/

/-- A new key comes last. -/
theorem assign_of_notMem (hk : k ∉ es.map Prod.fst) (hv : v ≠ nil) :
    assign es k v = es ++ [(k, v)] := by
  induction es with
  | nil => simp [assign, hv]
  | cons e es ih =>
      obtain ⟨k', v'⟩ := e
      obtain ⟨hne, hk⟩ : k ≠ k' ∧ k ∉ es.map Prod.fst := by simpa using hk
      rw [assign, if_neg hne.symm, ih hk]
      rfl

/-- An assignment adds no key but its own. -/
theorem keys_assign {k' : LuaKey Num} (h : k' ∈ (assign es k v).map Prod.fst) :
    k' = k ∨ k' ∈ es.map Prod.fst := by
  induction es with
  | nil =>
      rw [assign] at h
      split_ifs at h
      · cases h
      · exact .inl (by simpa using h)
  | cons e es ih =>
      obtain ⟨k₁, v₁⟩ := e
      rw [assign] at h
      split_ifs at h with heq hnil
      · exact .inr (List.mem_cons_of_mem _ h)
      · exact (List.mem_cons.1 h).imp_right (List.mem_cons_of_mem _)
      · rcases List.mem_cons.1 h with h | h
        · exact .inr (List.mem_cons.2 (.inl h))
        · exact (ih h).imp_right (List.mem_cons_of_mem _)

/-- An assignment leaves no key twice. -/
theorem nodup_assign (nodup : (es.map Prod.fst).Nodup) : ((assign es k v).map Prod.fst).Nodup := by
  induction es with
  | nil => rw [assign]; split_ifs <;> simp
  | cons e es ih =>
      obtain ⟨k', v'⟩ := e
      obtain ⟨hk', htail⟩ := List.nodup_cons.1 nodup
      rw [assign]
      split_ifs with heq hnil
      · exact htail
      · exact heq ▸ nodup
      · refine List.nodup_cons.2 ⟨fun h => ?_, ih htail⟩
        exact (keys_assign h).elim heq hk'

/-- What is there after an assignment was assigned, or was there before. -/
theorem mem_assign {k' : LuaKey Num} {v' : LuaValue Num} (h : (k', v') ∈ assign es k v) :
    v' = v ∧ v ≠ nil ∨ (k', v') ∈ es := by
  induction es with
  | nil =>
      rw [assign] at h
      split_ifs at h with hnil
      · cases h
      · exact .inl ⟨(Prod.mk.inj (List.mem_singleton.1 h)).2, mt isNil_iff.2 hnil⟩
  | cons e es ih =>
      obtain ⟨k₁, v₁⟩ := e
      rw [assign] at h
      split_ifs at h with heq hnil
      · exact .inr (List.mem_cons_of_mem _ h)
      · rcases List.mem_cons.1 h with h | h
        · exact .inl ⟨(Prod.mk.inj h).2, mt isNil_iff.2 hnil⟩
        · exact .inr (List.mem_cons_of_mem _ h)
      · rcases List.mem_cons.1 h with h | h
        · exact .inr (List.mem_cons.2 (.inl h))
        · exact (ih h).imp_right (List.mem_cons_of_mem _)

/-- The entries that assignments leave: no key twice, and no nil. -/
structure Assigned (es : List (LuaKey Num × LuaValue Num)) : Prop where
  nodup : (es.map Prod.fst).Nodup
  present : ∀ k, (k, nil) ∉ es

omit [DecidableEq Num] in
theorem assigned_nil : Assigned ([] : List (LuaKey Num × LuaValue Num)) := ⟨.nil, by simp⟩

/-- Assigned entries stay so. -/
theorem Assigned.assign (h : Assigned es) (k : LuaKey Num) (v : LuaValue Num) :
    Assigned (assign es k v) := by
  refine ⟨nodup_assign h.nodup, fun k' hk' => ?_⟩
  rcases mem_assign hk' with ⟨rfl, hv⟩ | hk'
  · exact hv rfl
  · exact h.present k' hk'

/-- The entries are what can be looked up. -/
theorem Assigned.mem_iff (h : Assigned es) : (k, v) ∈ es ↔ lookup es k = v ∧ v ≠ nil := by
  constructor
  · exact fun hv => ⟨lookup_eq_of_mem h.nodup hv, fun hnil => h.present k (hnil ▸ hv)⟩
  · rintro ⟨rfl, hv⟩
    rcases lookup_cases h.nodup k with hmem | ⟨-, hnil⟩
    · exact hmem
    · exact absurd hnil hv

/-- A key has what was assigned to it last. -/
theorem lookup_assign (nodup : (es.map Prod.fst).Nodup) {k' : LuaKey Num} :
    lookup (assign es k v) k' = if k' = k then v else lookup es k' := by
  induction es with
  | nil =>
      rw [assign]
      split_ifs with hnil heq heq
      · rw [isNil_iff.1 hnil]
        rfl
      · rfl
      · simp [lookup, heq]
      · rw [lookup_cons, if_neg heq]
  | cons e es ih =>
      obtain ⟨k₁, v₁⟩ := e
      obtain ⟨hk₁, htail⟩ := List.nodup_cons.1 nodup
      rw [assign]
      split_ifs with h₁ hnil heq heq heq
      · subst h₁ heq
        rw [isNil_iff.1 hnil]
        exact lookup_eq_nil fun v hv => hk₁ (List.mem_map.2 ⟨_, hv, rfl⟩)
      · rw [lookup_cons, if_neg (h₁ ▸ heq)]
      · rw [lookup_cons, if_pos heq]
      · rw [lookup_cons, if_neg heq, lookup_cons, if_neg (h₁ ▸ heq)]
      · rw [lookup_cons, ih htail, if_neg (heq ▸ Ne.symm h₁), if_pos heq]
      · rw [lookup_cons, ih htail, if_neg heq, lookup_cons]

/-! ### Lists -/

/-- The values at the indices from 1. -/
def listEntries (vs : List (LuaValue Num)) : List (LuaKey Num × LuaValue Num) :=
  vs.mapIdx fun n v => (indexKey n, v)

variable {vs : List (LuaValue Num)}

omit [DecidableEq Num] in
/-- The entries of a list are its elements, each under its index. -/
theorem mem_listEntries : (k, v) ∈ listEntries vs ↔ ∃ n, k = indexKey n ∧ vs[n]? = some v := by
  constructor
  · intro h
    obtain ⟨n, hn, heq⟩ := List.mem_mapIdx.1 h
    obtain ⟨rfl, rfl⟩ := Prod.mk.inj heq
    exact ⟨n, rfl, by simp [hn]⟩
  · rintro ⟨n, rfl, h⟩
    obtain ⟨hn, rfl⟩ := List.getElem?_eq_some_iff.1 h
    exact List.mem_mapIdx.2 ⟨n, hn, rfl⟩

omit [DecidableEq Num] in
/-- A list has no index twice. -/
theorem nodup_listEntries (hlen : vs.length ≤ 2 ^ 31) : ((listEntries vs).map Prod.fst).Nodup := by
  rw [List.Nodup, List.pairwise_iff_getElem]
  intro m n hm hn hmn h
  simp only [listEntries, List.length_map, List.length_mapIdx] at hm hn
  simp only [listEntries, List.getElem_map, List.getElem_mapIdx] at h
  have heq := indexKey_inj (by omega) (by omega) h
  omega

/-- What a list has under an index is the element there. -/
theorem lookup_listEntries (hlen : vs.length < 2 ^ 31) {n : Nat} (hn : n < 2 ^ 31) :
    lookup (listEntries vs) (indexKey n) = vs.getD n nil := by
  cases h : vs[n]? with
  | some v =>
      rw [List.getD_eq_getElem?_getD, h]
      exact lookup_eq_of_mem (nodup_listEntries (Nat.le_of_lt hlen)) (mem_listEntries.2 ⟨n, rfl, h⟩)
  | none =>
      rw [List.getD_eq_getElem?_getD, h]
      refine lookup_eq_nil fun v hv => ?_
      obtain ⟨m, hm, hget⟩ := mem_listEntries.1 hv
      obtain ⟨hlt, -⟩ := List.getElem?_eq_some_iff.1 hget
      rw [indexKey_inj hn (by omega) hm, hget] at h
      cases h

/-- A list without holes has one border. -/
theorem leastBorder_listEntries (hlen : vs.length < 2 ^ 31) (hv : nil ∉ vs) :
    leastBorder (listEntries vs) = vs.length := by
  have hlength : (listEntries vs).length = vs.length := List.length_mapIdx
  have hfind : ((List.range ((listEntries vs).length + 1)).find? fun n =>
      (lookup (listEntries vs) (indexKey n)).isNil) = some vs.length := by
    rw [hlength, List.find?_range_eq_some]
    refine ⟨?_, by simp, fun n hn => ?_⟩
    · rw [lookup_listEntries hlen hlen]
      simp [isNil]
    · rw [lookup_listEntries hlen (by omega), List.getD_eq_getElem?_getD,
        List.getElem?_eq_getElem hn,
        Option.getD_some, Bool.not_eq_true',
        ← Bool.not_eq_true, isNil_iff]
      exact fun h => hv (h ▸ List.getElem_mem hn)
  rw [leastBorder, hfind]
  rfl

end

/-! ### Reordered tables -/

variable {b : Nat} {es es' fs : List (LuaKey Num × LuaValue Num)} {k : LuaKey Num}
  {v v' : LuaValue Num}

theorem reorders_values_refl (vs : List (LuaValue Num)) : List.Forall₂ Reorders vs vs :=
  List.forall₂_same.2 fun v _ => .refl v

/-- The entries of a table in another order. -/
theorem Reorders.of_perm (hp : es.Perm es') : Reorders (table b es) (table b es') :=
  .entries rfl (reorders_values_refl _) hp

/-- One value reordered, at its place. -/
theorem Reorders.inside {us vs : List (LuaKey Num × LuaValue Num)} (h : Reorders v v')
    (hp : (us ++ (k, v') :: vs).Perm es') :
    Reorders (table b (us ++ (k, v) :: vs)) (table b es') := by
  refine .entries ?_ ?_ hp
  · simp
  · rw [List.map_append, List.map_append]
    exact List.rel_append (reorders_values_refl _) (.cons h (reorders_values_refl _))

/-- An entry, and what it may be reordered to, may both be the last that the table yields. -/
theorem Reorders.last (h : Reorders v v') (hv : (k, v) ∈ es) :
    ∃ us, (us ++ [(k, v)]).Perm es ∧ Reorders (.table b es) (.table b (us ++ [(k, v)])) ∧
      Reorders (.table b es) (.table b (us ++ [(k, v')])) := by
  obtain ⟨us, vs, rfl⟩ := List.append_of_mem hv
  have perm : ∀ v', (us ++ (k, v') :: vs).Perm ((us ++ vs) ++ [(k, v')]) := fun v' =>
    List.perm_middle.trans (List.perm_append_singleton _ _).symm
  exact ⟨us ++ vs, (perm v).symm, .of_perm (perm v), h.inside (perm v')⟩

/-- Entry by entry: the same key, and a value that is related. -/
abbrev Entrywise (P : LuaValue Num → LuaValue Num → Prop)
    (es fs : List (LuaKey Num × LuaValue Num)) : Prop :=
  List.Forall₂ (fun e e' => e'.1 = e.1 ∧ P e.2 e'.2) es fs

/-- Entry by entry, the keys are the same. -/
theorem Entrywise.keys {P : LuaValue Num → LuaValue Num → Prop} (h : Entrywise P es fs) :
    fs.map Prod.fst = es.map Prod.fst := by
  induction h with
  | nil => rfl
  | cons h _ ih => rw [List.map_cons, List.map_cons, h.1, ih]

/-- Each entry has one beside it on the right. -/
theorem Entrywise.exists_right {P : LuaValue Num → LuaValue Num → Prop} (h : Entrywise P es fs)
    (hv : (k, v) ∈ es) : ∃ v', (k, v') ∈ fs ∧ P v v' := by
  induction h with
  | nil => cases hv
  | @cons e e' es fs h _ ih =>
      rcases List.mem_cons.1 hv with rfl | hv
      · exact ⟨e'.2, List.mem_cons.2 (.inl (Prod.ext h.1.symm rfl)), h.2⟩
      · obtain ⟨v', hv', hP⟩ := ih hv
        exact ⟨v', List.mem_cons_of_mem _ hv', hP⟩

/-- Each entry has one beside it on the left. -/
theorem Entrywise.exists_left {P : LuaValue Num → LuaValue Num → Prop} (h : Entrywise P es fs)
    (hv : (k, v') ∈ fs) : ∃ v, (k, v) ∈ es ∧ P v v' := by
  induction h with
  | nil => cases hv
  | @cons e e' es fs h _ ih =>
      rcases List.mem_cons.1 hv with rfl | hv
      · exact ⟨e.2, List.mem_cons.2 (.inl (Prod.ext h.1 rfl)), h.2⟩
      · obtain ⟨v, hv, hP⟩ := ih hv
        exact ⟨v, List.mem_cons_of_mem _ hv, hP⟩

/-- Entrywise, as a relation of the two lists. -/
theorem Entrywise.forall₂ {P : LuaValue Num → LuaValue Num → Prop} (h : Entrywise P es fs)
    {S : LuaKey Num × LuaValue Num → LuaKey Num × LuaValue Num → Prop}
    (hPS : ∀ k v v', (k, v) ∈ es → P v v' → S (k, v) (k, v')) : List.Forall₂ S es fs := by
  induction h with
  | nil => exact .nil
  | @cons e e' es fs h _ ih =>
      obtain ⟨k, v⟩ := e
      obtain ⟨k', v'⟩ := e'
      obtain ⟨rfl, hP⟩ := h
      exact .cons (hPS _ v v' List.mem_cons_self hP)
        (ih fun k v v' hv => hPS k v v' (List.mem_cons_of_mem _ hv))

/-- Values that are related more weakly. -/
theorem Entrywise.imp {P Q : LuaValue Num → LuaValue Num → Prop} (h : Entrywise P es fs)
    (hPQ : ∀ k v v', (k, v) ∈ es → P v v' → Q v v') : Entrywise Q es fs :=
  h.forall₂ fun k v v' hv hP => ⟨rfl, hPQ k v v' hv hP⟩

/-- What a reordered table is: its values reordered, and then its entries. -/
theorem Reorders.table_inv (h : Reorders (.table b es) v') :
    ∃ fs es', v' = .table b es' ∧ Entrywise Reorders es fs ∧ fs.Perm es' := by
  cases h with
  | refl => exact ⟨es, es, rfl, List.forall₂_same.2 fun e _ => ⟨rfl, .refl e.2⟩, .refl es⟩
  | @entries _ _ fs es' keys values perm =>
      refine ⟨fs, es', rfl, ?_, perm⟩
      clear perm
      induction es generalizing fs with
      | nil =>
          obtain rfl : fs = [] := by simpa using keys
          exact .nil
      | cons e es ih =>
          cases fs with
          | nil => simp at keys
          | cons e' fs =>
              obtain ⟨hk, keys⟩ := List.cons.inj keys
              obtain ⟨hv, values⟩ := List.forall₂_cons.1 values
              exact .cons ⟨hk, hv⟩ (ih keys values)

/-- A value that is no table has nothing to reorder. -/
theorem Reorders.atom_inv (hv : ∀ b es, v ≠ .table b es) (h : Reorders v v') : v' = v := by
  cases h with
  | refl => rfl
  | entries => exact absurd rfl (hv _ _)

/-- What is looked up on both sides is related. -/
theorem Entrywise.lookup [DecidableEq Num] {P : LuaValue Num → LuaValue Num → Prop}
    (hnil : P .nil .nil) (h : Entrywise P es fs) (k : LuaKey Num) :
    P (lookup es k) (lookup fs k) := by
  induction h with
  | nil => exact hnil
  | @cons e e' es fs h _ ih =>
      obtain ⟨k₁, v⟩ := e
      obtain ⟨k₂, v'⟩ := e'
      obtain ⟨rfl, hP⟩ := h
      rw [lookup_cons, lookup_cons]
      split_ifs
      · exact hP
      · exact ih

end LuaValue

end GrpcLua.Pb
