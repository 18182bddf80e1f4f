import GrpcLua.Pb.Descriptor

/-!
# Pb — MessageSetter

`MessageSetter` of `pb/MessageSetter.cpp`: a Lua table is written into a message.

`setEntries` is the loop of `SetMsg()`, and `setContent` what `SetField()` makes of a value, given
what the field holds.  `setEntries_toOption` and its like say that each entry is converted by itself
and that the loops are runs in which the last write wins.
-/

namespace GrpcLua.Pb
variable {Num Float : Type} [DecidableEq Num]

/-- `int len = luaTable.len()`. -/
def intLen (border : Nat) : Nat := (BitVec.ofNat 32 border).toInt.toNat

namespace MessageSetter

def expectsTable (f : FieldDescriptor Num Float) (v : LuaValue Num) : Error :=
  .exception (str "Field " ++ f.fullName ++ str " expects a table but got a " ++ v.typeName)

section
variable (R : Runtime Num Float) (pool : Pool Num Float)

/-- What the field comes to hold if the value is no table. -/
def setAtom (f : FieldDescriptor Num Float) (old : Content Num Float) (v : LuaValue Num) :
    Except Error (Content Num Float) :=
  match f.label, f.type with
  | .repeated, _ => .error (expectsTable f v)
  | .map _ _, _ => .error (expectsTable f v)
  | _, .scalar t => (t.ofLua R v).map (f.setScalar old)
  | _, .message _ => .error (expectsTable f v)

/-- `MutableMessage()`. -/
def mutableMessage (d : Descriptor Num Float) : Content Num Float → List (Content Num Float)
  | .message slots => slots
  | _ => d.empty

mutual

/-- The loop of `SetMsg()`. -/
def setEntries (d : Descriptor Num Float) (slots : List (Content Num Float)) :
    List (LuaKey Num × LuaValue Num) → Except Error (List (Content Num Float))
  | [] => .ok slots
  | (k, v) :: es =>
      match k with
      | .string sField =>
          match d.findFieldByName sField with
          | none => .error (.exception
              (str "Message " ++ d.fullName ++ str " has no field: " ++ sField))
          | some i => do
              let c ← setContent (d.field i) (d.get slots i) v
              setEntries d (d.set slots i c) es
      | _ => setEntries d slots es  -- Skip non-string key.

/-- What `SetField()` makes of what the field holds. -/
def setContent (f : FieldDescriptor Num Float) (old : Content Num Float) :
    LuaValue Num → Except Error (Content Num Float)
  | .table border es =>
      match f.label, f.type with
      | .repeated, _ => do
          let converted := convertAll f.element es
          let added ← (List.range (intLen border)).mapM fun n =>
            (converted.lookup (indexKey n)).getD (setAtom R f.element f.element.initial .nil)
          -- `++index` follows the last element.
          if intLen border < 2 ^ 31 - 1 then .ok (old.addAll added) else .error .overflow
      | .map entryName key, _ =>
          (addEntries key (f.value entryName) old.entries es).map .map
      | _, .message t =>
          (setEntries (pool.descriptor t) (mutableMessage (pool.descriptor t) old) es).map .message
      | _, .scalar _ => setAtom R f old (.table border es)
  | v => setAtom R f old v

/-- What `AddToRepeatedField()` makes of each value of a table. -/
def convertAll (f : FieldDescriptor Num Float) :
    List (LuaKey Num × LuaValue Num) → List (LuaKey Num × Except Error (Content Num Float))
  | [] => []
  | (k, v) :: es => (k, setContent f f.initial v) :: convertAll f es

/-- The loop of `SetRepeatedMapField()`, with `AddToMapField()`. -/
def addEntries (key : KeyType) (value : FieldDescriptor Num Float)
    (entries : List (MapKey × Content Num Float)) :
    List (LuaKey Num × LuaValue Num) → Except Error (List (MapKey × Content Num Float))
  | [] => .ok entries
  | (k, v) :: es => do
      let mapKey ← key.ofLua R k.toValue
      let c ← setContent value value.initial v
      addEntries key value (SortedMap.insert mapKey c entries) es

end

/-- `SetField()`. -/
def setField (d : Descriptor Num Float) (slots : List (Content Num Float)) (sField : Bytes)
    (v : LuaValue Num) : Except Error (List (Content Num Float)) :=
  match d.findFieldByName sField with
  | none => .error (.exception (str "Message " ++ d.fullName ++ str " has no field: " ++ sField))
  | some i => (setContent R pool (d.field i) (d.get slots i) v).map (d.set slots i)

/-- `SetMsg()` on a message. -/
def setMsg (d : Descriptor Num Float) (slots : List (Content Num Float)) :
    LuaValue Num → Except Error (List (Content Num Float))
  | .table _ es => setEntries R pool d slots es
  | _ => .error .assertion

/-! ### Each entry by itself -/

/-- What an empty field comes to hold, if nothing is raised. -/
def convert (f : FieldDescriptor Num Float) (v : LuaValue Num) : Option (Content Num Float) :=
  (setContent R pool f f.initial v).toOption

/-- What an entry of a message table writes. -/
def entryWrite (d : Descriptor Num Float) :
    LuaKey Num × LuaValue Num → Option (Option (d.Index × Content Num Float))
  | (.string sField, v) => do
      let i ← d.findFieldByName sField
      let c ← convert R pool (d.field i) v
      some (some (i, c))
  | _ => some none

/-- What an entry of a map table writes. -/
def mapWrite (key : KeyType) (value : FieldDescriptor Num Float) (e : LuaKey Num × LuaValue Num) :
    Option (MapKey × Content Num Float) := do
  let mapKey ← (key.ofLua R e.1.toValue).toOption
  let c ← convert R pool value e.2
  some (mapKey, c)

variable {R pool}
variable {d : Descriptor Num Float} {f : FieldDescriptor Num Float} {v : LuaValue Num}
  {k : LuaKey Num} {es : List (LuaKey Num × LuaValue Num)} {i : d.Index} {c : Content Num Float}

/-- Whether a sequence of two fails, without the error. -/
theorem toOption_bind {α β : Type} (x : Except Error α) (g : α → Except Error β) :
    (x >>= g).toOption = x.toOption.bind fun a => (g a).toOption := by cases x <;> rfl

theorem toOption_map {α β : Type} (x : Except Error α) (g : α → β) :
    (x.map g).toOption = x.toOption.map g := by cases x <;> rfl

/-- Whether a list of conversions fails, without the error. -/
theorem toOption_mapM {α ε : Type} (g : ε → Except Error α) (l : List ε) :
    (l.mapM g).toOption = l.mapM fun e => (g e).toOption := by
  induction l with
  | nil => rfl
  | cons e l ih =>
      rw [List.mapM_cons, List.mapM_cons, toOption_bind]
      cases (g e).toOption with
      | none => rfl
      | some a =>
          change Except.toOption _ = Option.bind _ _
          rw [toOption_bind, ih]
          rfl

/-- `SetMsg()` sets one field after another. -/
theorem setEntries_cons {slots : List (Content Num Float)} {sField : Bytes} :
    setEntries R pool d slots ((.string sField, v) :: es) =
      setField R pool d slots sField v >>= fun slots => setEntries R pool d slots es := by
  rw [setEntries, setField]
  cases d.findFieldByName sField with
  | none => rfl
  | some i =>
      cases hc : setContent R pool (d.field i) (d.get slots i) v <;> simp [hc, Except.map] <;> rfl

/-- A string key writes the field that it names. -/
theorem entryWrite_string {sField : Bytes} :
    entryWrite R pool d (.string sField, v) = (d.findFieldByName sField).bind fun i =>
      (convert R pool (d.field i) v).map fun c => some (i, c) := by
  rw [entryWrite]
  cases d.findFieldByName sField with
  | none => rfl
  | some i => cases hc : convert R pool (d.field i) v <;> simp [hc]

/-- The name of a field writes that field. -/
theorem entryWrite_name :
    entryWrite R pool d (.string (d.field i).name, v) =
      (convert R pool (d.field i) v).map fun c => some (i, c) := by
  rw [entryWrite_string, Descriptor.findFieldByName_name]
  rfl

/-- An entry writes nothing, or the field that its key names. -/
theorem entryWrite_eq_some {e : LuaKey Num × LuaValue Num}
    {w : Option (d.Index × Content Num Float)} (h : entryWrite R pool d e = some w) :
    w = none ∨ ∃ i c, e.1 = .string (d.field i).name ∧ convert R pool (d.field i) e.2 = some c ∧
      w = some (i, c) := by
  obtain ⟨k, v⟩ := e
  cases k with
  | string s =>
      rw [entryWrite_string] at h
      cases hi : d.findFieldByName s with
      | none => simp [hi] at h
      | some i =>
          obtain ⟨c, hc, rfl⟩ : ∃ c, convert R pool (d.field i) v = some c ∧ some (i, c) = w := by
            simpa [hi] using h
          exact .inr ⟨i, c, by rw [Descriptor.findFieldByName_eq_some.1 hi], hc, rfl⟩
  | boolean _ | integer _ | number _ | object _ _ => exact .inl (Option.some.inj h).symm

/-- What holds of an empty field and of what an entry writes, and is kept where a field is cleared,
holds of each field of the message that the entries make. -/
theorem forall_written {P : d.Index → Content Num Float → Prop}
    {ws : List (Option (d.Index × Content Num Float))}
    (hws : es.mapM (entryWrite R pool d) = some ws)
    (hcleared : ∀ j o c, (d.field j).label = .oneof o → P j c → P j c.cleared)
    (hinitial : ∀ i, P i (d.field i).initial)
    (hwritten : ∀ i v c, (.string (d.field i).name, v) ∈ es →
      convert R pool (d.field i) v = some c → P i c) :
    ∀ i, P i (d.get (d.writes.writeAll d.empty ws) i) := by
  refine Descriptor.forall_writeAll hcleared (fun i => ?_) ws fun i c hc => ?_
  · rw [Descriptor.get_empty]
    exact hinitial i
  · obtain ⟨⟨k, v⟩, hkv, hw⟩ := LastWrite.exists_of_mem_converted hws hc
    rcases entryWrite_eq_some hw with hnone | ⟨j, c', rfl, hc', heq⟩
    · cases hnone
    · obtain ⟨rfl, rfl⟩ := Prod.mk.inj (Option.some.inj heq)
      exact hwritten i v c hkv hc'

/-- An entry of a map writes its key and its value. -/
theorem mapWrite_eq_some {key : KeyType} {e : LuaKey Num × LuaValue Num}
    {w : MapKey × Content Num Float} :
    mapWrite R pool key f e = some w ↔
      key.ofLua R e.1.toValue = .ok w.1 ∧ convert R pool f e.2 = some w.2 := by
  obtain ⟨mapKey, c⟩ := w
  rw [mapWrite]
  cases hk : key.ofLua R e.1.toValue <;> cases hc : convert R pool f e.2 <;>
    simp [Except.toOption]

/-- The fields that the table names are as in an empty message. -/
def Untouched (d : Descriptor Num Float) (slots : List (Content Num Float))
    (es : List (LuaKey Num × LuaValue Num)) : Prop :=
  ∀ (i : d.Index) v, (.string (d.field i).name, v) ∈ es → d.get slots i = (d.field i).initial

omit [DecidableEq Num] in
/-- Nothing has touched an empty message. -/
theorem untouched_empty : Untouched d d.empty es := fun _ _ _ => Descriptor.get_empty

omit [DecidableEq Num] in
/-- Setting a field leaves the others as they were in an empty message. -/
theorem Untouched.set {slots : List (Content Num Float)} (nodup : k ∉ es.map Prod.fst)
    (hi : k = .string (d.field i).name) (h : Untouched d slots ((k, v) :: es)) :
    Untouched d (d.set slots i c) es := by
  intro j w hj
  have hne : j ≠ i := by
    rintro rfl
    exact nodup (List.mem_map.2 ⟨_, hj, hi.symm⟩)
  have hget := h j w (List.mem_cons_of_mem _ hj)
  rw [Descriptor.get_set, if_neg hne, hget]
  split_ifs with ho
  · obtain ⟨⟨o, -, ho⟩, -⟩ := ho
    simp [FieldDescriptor.initial, ho, Content.cleared]
  · rfl

/-- The loop of `SetMsg()`: each entry is converted by itself, and the last write wins. -/
theorem setEntries_toOption {slots : List (Content Num Float)} (nodup : (es.map Prod.fst).Nodup)
    (h : Untouched d slots es) :
    (setEntries R pool d slots es).toOption = d.writes.run (entryWrite R pool d) slots es := by
  induction es generalizing slots with
  | nil => rfl
  | cons e es ih =>
      obtain ⟨k, v⟩ := e
      obtain ⟨hk, htail⟩ := List.nodup_cons.1 nodup
      rw [LastWrite.run_cons]
      cases k with
      | string sField =>
          rw [setEntries_cons, toOption_bind, entryWrite_string]
          cases hi : d.findFieldByName sField with
          | none => simp [setField, hi, Except.toOption]
          | some i =>
              have hname : sField = (d.field i).name :=
                (Descriptor.findFieldByName_eq_some.1 hi).symm
              have hinitial : d.get slots i = (d.field i).initial := h i v (by simp [hname])
              rw [setField, hi]
              simp only [hinitial, toOption_map, Option.bind_some]
              change ((convert R pool (d.field i) v).map _).bind _ = _
              cases convert R pool (d.field i) v with
              | none => rfl
              | some c => exact ih htail (h.set hk (by rw [hname]))
      | boolean _ | integer _ | number _ | object _ _ =>
          rw [setEntries]
          · exact ih htail fun i w hw => h i w (List.mem_cons_of_mem _ hw)
          · simp

/-- An entry of a map is converted by itself. -/
theorem addEntries_toOption (key : KeyType) (value : FieldDescriptor Num Float)
    (entries : List (MapKey × Content Num Float)) :
    (addEntries R pool key value entries es).toOption =
      (SortedMap.writes MapKey (Content Num Float)).run (mapWrite R pool key value) entries es := by
  induction es generalizing entries with
  | nil => rfl
  | cons e es ih =>
      obtain ⟨k, v⟩ := e
      rw [addEntries, toOption_bind, LastWrite.run_cons, mapWrite]
      cases (key.ofLua R k.toValue).toOption with
      | none => rfl
      | some mapKey =>
          change Except.toOption (_ >>= _) = _
          rw [toOption_bind]
          change Option.bind (convert R pool value v) _ = _
          cases convert R pool value v with
          | none => rfl
          | some c => exact ih _

/-- The value found under a key is the one converted for it; a missing one is a nil. -/
theorem convertAll_lookup :
    ((convertAll R pool f es).lookup k).getD (setAtom R f f.initial .nil) =
      setContent R pool f f.initial (LuaValue.lookup es k) := by
  induction es with
  | nil => rfl
  | cons e es ih =>
      obtain ⟨k', v⟩ := e
      rw [convertAll, LuaValue.lookup_cons, List.lookup_cons]
      by_cases h : k = k'
      · simp [h]
      · rw [beq_eq_false_iff_ne.2 h, if_neg h]
        exact ih

/-! ### What a field makes of a value -/

/-- What is not a table is set at once. -/
theorem convert_atom (h : ∀ b es, v ≠ .table b es) :
    convert R pool f v = (setAtom R f f.initial v).toOption := by
  cases v with
  | table b es => exact absurd rfl (h b es)
  | _ => rw [convert, setContent]; simp

omit [DecidableEq Num] in
/-- No scalar is made of what a table holds. -/
theorem ofLua_table (t : ScalarType) (b b' : Nat) (es es' : List (LuaKey Num × LuaValue Num)) :
    t.ofLua R (.table b es) = t.ofLua R (.table b' es') := by
  cases t with
  | ofKey t => cases t <;> rfl
  | double | float | enum _ _ => rfl

omit [DecidableEq Num] in
/-- A scalar field is set to what its type takes. -/
theorem setAtom_scalar {t : ScalarType} (hf : f.Singular) (ht : f.type = .scalar t)
    (old : Content Num Float) : setAtom R f old v = (t.ofLua R v).map (f.setScalar old) := by
  cases hl : f.label <;> simp_all [setAtom, FieldDescriptor.Singular]

/-- What a scalar field becomes. -/
theorem convert_scalar {t : ScalarType} (hf : f.Singular) (ht : f.type = .scalar t) :
    convert R pool f v = (t.ofLua R v).toOption.map (f.setScalar f.initial) := by
  have hcontent : setContent R pool f f.initial v = setAtom R f f.initial v := by
    cases v with
    | table b es => cases hl : f.label <;> simp_all [setContent, FieldDescriptor.Singular]
    | _ => rw [setContent]; simp
  rw [convert, hcontent, setAtom_scalar hf ht, toOption_map]

/-- A message of an empty field starts empty. -/
theorem setContent_message {t b : Nat} (hf : f.Singular) (ht : f.type = .message t) :
    setContent R pool f f.initial (.table b es) =
      (setEntries R pool (pool.descriptor t) (pool.descriptor t).empty es).map .message := by
  have hold : mutableMessage (pool.descriptor t) f.initial = (pool.descriptor t).empty := by
    cases hl : f.label <;> simp_all [FieldDescriptor.initial, mutableMessage,
      FieldDescriptor.Singular]
  cases hl : f.label <;> simp_all [setContent, FieldDescriptor.Singular]

/-- A message field becomes what the writes of the entries leave. -/
theorem convert_message {t b : Nat} (hf : f.Singular) (ht : f.type = .message t)
    (nodup : (es.map Prod.fst).Nodup) :
    convert R pool f (.table b es) = ((pool.descriptor t).writes.run
      (entryWrite R pool (pool.descriptor t)) (pool.descriptor t).empty es).map .message := by
  rw [convert, setContent_message hf ht, toOption_map, setEntries_toOption nodup untouched_empty]

/-- A repeated field becomes the elements up to the length, fewer than 2³¹ - 1. -/
theorem convert_list {b : Nat} (hf : f.label = .repeated) :
    convert R pool f (.table b es) = ((List.range (intLen b)).mapM fun n =>
      convert R pool f.element (LuaValue.lookup es (indexKey n))).bind fun cs =>
        if intLen b < 2 ^ 31 - 1 then some ((Content.list []).addAll cs) else none := by
  have hold : f.initial = .list [] := by simp [FieldDescriptor.initial, hf]
  rw [convert, setContent, hf, hold]
  simp only [convertAll_lookup]
  rw [toOption_bind, toOption_mapM]
  refine congrArg (Option.bind _) (funext fun cs => ?_)
  split_ifs <;> rfl

/-- When a repeated field is filled, and with what. -/
theorem convert_list_eq_some {b : Nat} (hf : f.label = .repeated) :
    convert R pool f (.table b es) = some c ↔ intLen b < 2 ^ 31 - 1 ∧
      ∃ cs, ((List.range (intLen b)).mapM fun n =>
        convert R pool f.element (LuaValue.lookup es (indexKey n))) = some cs ∧
        c = (Content.list []).addAll cs := by
  rw [convert_list hf, Option.bind_eq_some_iff]
  constructor
  · rintro ⟨cs, hcs, h⟩
    split_ifs at h with hbound
    exact ⟨hbound, cs, hcs, (Option.some.inj h).symm⟩
  · rintro ⟨hbound, cs, hcs, rfl⟩
    exact ⟨cs, hcs, if_pos hbound⟩

/-- A map field becomes what the writes of the entries leave. -/
theorem convert_map {b : Nat} {entryName : Bytes} {key : KeyType}
    (hf : f.label = .map entryName key) :
    convert R pool f (.table b es) = ((SortedMap.writes MapKey (Content Num Float)).run
      (mapWrite R pool key (f.value entryName)) [] es).map .map := by
  have hold : f.initial = .map [] := by simp [FieldDescriptor.initial, hf]
  rw [convert, setContent, hf, hold]
  simp only [toOption_map, addEntries_toOption]
  rfl

/-- A message, a list and a map are made of a table only. -/
theorem convert_eq_none (h : ∀ b es, v ≠ .table b es)
    (hf : ¬ f.Singular ∨ ∃ t, f.type = .message t) :
    convert R pool f v = none := by
  rw [convert_atom h]
  cases hl : f.label <;> cases ht : f.type <;>
    simp_all [setAtom, FieldDescriptor.Singular, Except.toOption]

omit [DecidableEq Num] in
/-- What a scalar makes of an empty field. -/
theorem setScalar_initial {t : ScalarType} (ht : f.type = .scalar t) (s : Scalar Num Float) :
    f.setScalar f.initial s =
      match t.unknownNumber s with
      | none => .scalar s
      | some n => .unknown f.initial [n] := by
  obtain ⟨hknown, hnumbers⟩ := f.initial_known
  simp only [FieldDescriptor.setScalar, ht, hknown, hnumbers]
  cases t.unknownNumber s <;> rfl

omit [DecidableEq Num] in
/-- A scalar that is set is there, be it as an unknown number. -/
theorem setScalar_ne_absent {t : ScalarType} (ht : f.type = .scalar t) (s : Scalar Num Float) :
    f.setScalar f.initial s ≠ .absent := by
  rw [setScalar_initial ht]
  cases t.unknownNumber s <;> simp

omit [DecidableEq Num] in
/-- A list that is filled is there. -/
theorem addAll_ne_absent (cs : List (Content Num Float)) :
    (Content.list []).addAll cs ≠ .absent := by
  rw [Content.addAll]
  cases (Content.list [] : Content Num Float).numbers ++ cs.flatMap Content.numbers <;>
    simp [Content.withNumbers]

/-- A field that an entry is for does not stay as it was, if it was absent. -/
theorem convert_ne_absent : convert R pool f v ≠ some .absent := by
  intro h
  by_cases hv : ∃ b es, v = .table b es
  · obtain ⟨b, es, rfl⟩ := hv
    rcases f.kinds with hf | ⟨entryName, key, hf⟩ | ⟨hf, t, ht⟩ | ⟨hf, t, ht⟩
    · obtain ⟨-, cs, -, hcs⟩ := (convert_list_eq_some hf).1 h
      exact addAll_ne_absent cs hcs.symm
    · simp [convert_map hf] at h
    · rw [convert_scalar hf ht] at h
      obtain ⟨s, -, hs⟩ := Option.map_eq_some_iff.1 h
      exact setScalar_ne_absent ht s hs
    · rw [convert] at h
      cases hl : f.label <;> simp_all [setContent, toOption_map, FieldDescriptor.Singular]
  · have hv : ∀ b es, v ≠ .table b es := fun b es hv' => hv ⟨b, es, hv'⟩
    rcases f.kinds with hf | ⟨entryName, key, hf⟩ | ⟨hf, t, ht⟩ | ⟨hf, t, ht⟩
    · simp [convert_eq_none hv (.inl fun hs : f.Singular => hs.1 hf)] at h
    · simp [convert_eq_none hv (.inl fun hs : f.Singular => hs.2 _ _ hf)] at h
    · rw [convert_scalar hf ht] at h
      obtain ⟨s, -, hs⟩ := Option.map_eq_some_iff.1 h
      exact setScalar_ne_absent ht s hs
    · simp [convert_eq_none hv (.inr ⟨t, ht⟩)] at h

/-- `SetMsg()` on an empty message, as a field of the type. -/
theorem convert_root (type : Nat) :
    convert R pool (pool.root type) v =
      (setMsg R pool (pool.descriptor type) (pool.descriptor type).empty v).toOption.map
        .message := by
  cases v with
  | table b es =>
      rw [← toOption_map]
      rfl
  | _ => rfl

end

end MessageSetter

end GrpcLua.Pb
