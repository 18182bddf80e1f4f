import GrpcLua.Pb.MessageSetter

/-!
# Pb — Iteration

What a table makes of a message, and the order in which Lua yields its entries.

`Convertible` are the values that a field takes without raising, and `Unambiguous` those of which no
two entries write one place of the message differently.  A value raises in all orders or in none
(`convert_isSome_reorders`); it makes one message in all orders exactly if it is unambiguous
(`independent_iff`).
-/

namespace GrpcLua.Pb
open MessageSetter Pb.LuaValue

variable {Num Float : Type} [DecidableEq Num]

section
variable (R : Runtime Num Float) (pool : Pool Num Float)

/-- Nothing is raised when the field is set to the value; and no `int` overflows, as it does after
2^31 - 1 elements. -/
inductive Convertible : FieldDescriptor Num Float → LuaValue Num → Prop where
  | scalar {f : FieldDescriptor Num Float} {t : ScalarType} {v : LuaValue Num} (hf : f.Singular)
      (ht : f.type = .scalar t) (h : (t.ofLua R v).toOption.isSome) : Convertible f v
  | message {f : FieldDescriptor Num Float} {t b : Nat} {es : List (LuaKey Num × LuaValue Num)}
      (hf : f.Singular) (ht : f.type = .message t)
      (named : ∀ s v, (.string s, v) ∈ es → ((pool.descriptor t).findFieldByName s).isSome)
      (fields : ∀ i v, (.string ((pool.descriptor t).field i).name, v) ∈ es →
        Convertible ((pool.descriptor t).field i) v) :
      Convertible f (.table b es)
  | list {f : FieldDescriptor Num Float} {b : Nat} {es : List (LuaKey Num × LuaValue Num)}
      (hf : f.label = .repeated) (bound : intLen b < 2 ^ 31 - 1)
      (elements : ∀ n < intLen b, Convertible f.element (lookup es (indexKey n))) :
      Convertible f (.table b es)
  | map {f : FieldDescriptor Num Float} {entryName : Bytes} {key : KeyType} {b : Nat}
      {es : List (LuaKey Num × LuaValue Num)} (hf : f.label = .map entryName key)
      (keys : ∀ k v, (k, v) ∈ es → (key.ofLua R k.toValue).toOption.isSome)
      (values : ∀ k v, (k, v) ∈ es → Convertible (f.value entryName) v) :
      Convertible f (.table b es)

/-- The field is set by the value, and not only given a number that its enum does not have. -/
def Sets (f : FieldDescriptor Num Float) (v : LuaValue Num) : Prop :=
  ∀ t s, f.type = .scalar t → t.ofLua R v = .ok s → t.unknownNumber s = none

/-- No two entries of a table write one place of the message differently: no message table sets two
members of one oneof, and where two keys of a map table convert to one key, their values convert
alike. -/
inductive Unambiguous : FieldDescriptor Num Float → LuaValue Num → Prop where
  | atom {f : FieldDescriptor Num Float} {v : LuaValue Num} (h : ∀ b es, v ≠ .table b es) :
      Unambiguous f v
  | scalar {f : FieldDescriptor Num Float} {t : ScalarType} {v : LuaValue Num} (hf : f.Singular)
      (ht : f.type = .scalar t) : Unambiguous f v
  | message {f : FieldDescriptor Num Float} {t b : Nat} {es : List (LuaKey Num × LuaValue Num)}
      (hf : f.Singular) (ht : f.type = .message t)
      (oneofs : ∀ i j v w, (.string ((pool.descriptor t).field i).name, v) ∈ es →
        (.string ((pool.descriptor t).field j).name, w) ∈ es →
        (pool.descriptor t).SameOneof i j → Sets R ((pool.descriptor t).field i) v →
        Sets R ((pool.descriptor t).field j) w → i = j)
      (fields : ∀ i v, (.string ((pool.descriptor t).field i).name, v) ∈ es →
        Unambiguous ((pool.descriptor t).field i) v) :
      Unambiguous f (.table b es)
  | list {f : FieldDescriptor Num Float} {b : Nat} {es : List (LuaKey Num × LuaValue Num)}
      (hf : f.label = .repeated)
      (elements : ∀ n < intLen b, Unambiguous f.element (lookup es (indexKey n))) :
      Unambiguous f (.table b es)
  | map {f : FieldDescriptor Num Float} {entryName : Bytes} {key : KeyType} {b : Nat}
      {es : List (LuaKey Num × LuaValue Num)} (hf : f.label = .map entryName key)
      (keys : ∀ k v k' v' mapKey, (k, v) ∈ es → (k', v') ∈ es →
        key.ofLua R k.toValue = .ok mapKey → key.ofLua R k'.toValue = .ok mapKey →
        convert R pool (f.value entryName) v = convert R pool (f.value entryName) v')
      (values : ∀ k v, (k, v) ∈ es → Unambiguous (f.value entryName) v) :
      Unambiguous f (.table b es)

/-- In every order the field comes to hold the same, or each order raises. -/
def Independent (f : FieldDescriptor Num Float) (v : LuaValue Num) : Prop :=
  ∀ v', Reorders v v' → convert R pool f v' = convert R pool f v

variable {R pool}
variable {f : FieldDescriptor Num Float} {v v' : LuaValue Num} {b : Nat}
  {es es' fs : List (LuaKey Num × LuaValue Num)}

/-! ### The predicates, for each kind of field -/

/-- A scalar field takes what its type takes. -/
theorem convertible_scalar {t : ScalarType} (hf : f.Singular) (ht : f.type = .scalar t) :
    Convertible R pool f v ↔ (t.ofLua R v).toOption.isSome := by
  constructor
  · rintro (⟨-, ht', h⟩ | ⟨-, ht', -, -⟩ | ⟨hl, -, -⟩ | ⟨hm, -, -⟩)
    · obtain rfl : t = _ := by simpa [ht] using ht'
      exact h
    · simp [ht] at ht'
    · exact absurd hl hf.1
    · exact absurd hm (hf.2 _ _)
  · exact .scalar hf ht

/-- A message takes a table whose string keys all name fields that take their values. -/
theorem convertible_message {t : Nat} (hf : f.Singular) (ht : f.type = .message t) :
    Convertible R pool f (.table b es) ↔
      (∀ s v, (.string s, v) ∈ es → ((pool.descriptor t).findFieldByName s).isSome) ∧
      ∀ i v, (.string ((pool.descriptor t).field i).name, v) ∈ es →
        Convertible R pool ((pool.descriptor t).field i) v := by
  constructor
  · rintro (⟨-, ht', -⟩ | ⟨-, ht', named, fields⟩ | ⟨hl, -, -⟩ | ⟨hm, -, -⟩)
    · simp [ht] at ht'
    · obtain rfl : t = _ := by simpa [ht] using ht'
      exact ⟨named, fields⟩
    · exact absurd hl hf.1
    · exact absurd hm (hf.2 _ _)
  · exact fun ⟨named, fields⟩ => .message hf ht named fields

/-- A repeated field takes a table whose elements up to its length it takes. -/
theorem convertible_list (hf : f.label = .repeated) :
    Convertible R pool f (.table b es) ↔ intLen b < 2 ^ 31 - 1 ∧
      ∀ n < intLen b, Convertible R pool f.element (lookup es (indexKey n)) := by
  constructor
  · rintro (⟨hs, -, -⟩ | ⟨hs, -, -, -⟩ | ⟨-, bound, elements⟩ | ⟨hm, -, -⟩)
    · exact absurd hf hs.1
    · exact absurd hf hs.1
    · exact ⟨bound, elements⟩
    · simp [hf] at hm
  · exact fun ⟨bound, elements⟩ => .list hf bound elements

/-- A map field takes a table whose keys and values it takes. -/
theorem convertible_map {entryName : Bytes} {key : KeyType} (hf : f.label = .map entryName key) :
    Convertible R pool f (.table b es) ↔ ∀ k v, (k, v) ∈ es →
      (key.ofLua R k.toValue).toOption.isSome ∧ Convertible R pool (f.value entryName) v := by
  constructor
  · rintro (⟨hs, -, -⟩ | ⟨hs, -, -, -⟩ | ⟨hl, -, -⟩ | ⟨hm, keys, values⟩)
    · exact absurd hf (hs.2 _ _)
    · exact absurd hf (hs.2 _ _)
    · simp [hf] at hl
    · obtain ⟨rfl, rfl⟩ : entryName = _ ∧ key = _ := by simpa [hf] using hm
      exact fun k v hkv => ⟨keys k v hkv, values k v hkv⟩
  · exact fun h => .map hf (fun k v hkv => (h k v hkv).1) fun k v hkv => (h k v hkv).2

/-- No two entries set members of one oneof, and none is ambiguous itself. -/
theorem unambiguous_message {t : Nat} (hf : f.Singular) (ht : f.type = .message t) :
    Unambiguous R pool f (.table b es) ↔
      (∀ i j v w, (.string ((pool.descriptor t).field i).name, v) ∈ es →
        (.string ((pool.descriptor t).field j).name, w) ∈ es →
        (pool.descriptor t).SameOneof i j → Sets R ((pool.descriptor t).field i) v →
        Sets R ((pool.descriptor t).field j) w → i = j) ∧
      ∀ i v, (.string ((pool.descriptor t).field i).name, v) ∈ es →
        Unambiguous R pool ((pool.descriptor t).field i) v := by
  constructor
  · rintro (h | ⟨-, ht'⟩ | ⟨-, ht', oneofs, fields⟩ | ⟨hl, -⟩ | ⟨hm, -, -⟩)
    · exact absurd rfl (h b es)
    · simp [ht] at ht'
    · obtain rfl : t = _ := by simpa [ht] using ht'
      exact ⟨oneofs, fields⟩
    · exact absurd hl hf.1
    · exact absurd hm (hf.2 _ _)
  · exact fun ⟨oneofs, fields⟩ => .message hf ht oneofs fields

/-- A list is unambiguous if its elements are. -/
theorem unambiguous_list (hf : f.label = .repeated) :
    Unambiguous R pool f (.table b es) ↔
      ∀ n < intLen b, Unambiguous R pool f.element (lookup es (indexKey n)) := by
  constructor
  · rintro (h | ⟨hs, -⟩ | ⟨hs, -, -, -⟩ | ⟨-, h⟩ | ⟨hm, -, -⟩)
    · exact absurd rfl (h b es)
    · exact absurd hf hs.1
    · exact absurd hf hs.1
    · exact h
    · simp [hf] at hm
  · exact .list hf

/-- Entries whose keys become one key of the map have one value, and none is ambiguous itself. -/
theorem unambiguous_map {entryName : Bytes} {key : KeyType} (hf : f.label = .map entryName key) :
    Unambiguous R pool f (.table b es) ↔
      (∀ k v k' v' mapKey, (k, v) ∈ es → (k', v') ∈ es →
        key.ofLua R k.toValue = .ok mapKey → key.ofLua R k'.toValue = .ok mapKey →
        convert R pool (f.value entryName) v = convert R pool (f.value entryName) v') ∧
      ∀ k v, (k, v) ∈ es → Unambiguous R pool (f.value entryName) v := by
  constructor
  · rintro (h | ⟨hs, -⟩ | ⟨hs, -, -, -⟩ | ⟨hl, -⟩ | ⟨hm, keys, values⟩)
    · exact absurd rfl (h b es)
    · exact absurd hf (hs.2 _ _)
    · exact absurd hf (hs.2 _ _)
    · simp [hf] at hl
    · obtain ⟨rfl, rfl⟩ : entryName = _ ∧ key = _ := by simpa [hf] using hm
      exact ⟨keys, values⟩
  · exact fun ⟨keys, values⟩ => .map hf keys values

/-! ### What raises -/

/-- A table becomes a message if every string key names a field that takes its value. -/
theorem isSome_message {t : Nat} (hf : f.Singular) (ht : f.type = .message t)
    (nodup : (es.map Prod.fst).Nodup) :
    (convert R pool f (.table b es)).isSome ↔ ∀ s v, (.string s, v) ∈ es →
      ∃ i, (pool.descriptor t).findFieldByName s = some i ∧
        (convert R pool ((pool.descriptor t).field i) v).isSome := by
  rw [convert_message hf ht nodup, Option.isSome_map, LastWrite.run_isSome]
  constructor
  · intro h s v hv
    have hw := h _ hv
    rw [entryWrite_string] at hw
    cases hi : (pool.descriptor t).findFieldByName s with
    | none => simp [hi] at hw
    | some i => exact ⟨i, rfl, by simpa [hi] using hw⟩
  · rintro h ⟨k, v⟩ hv
    cases k with
    | string s =>
        obtain ⟨i, hi, hc⟩ := h s v hv
        simpa [entryWrite_string, hi] using hc
    | boolean _ | integer _ | number _ | object _ _ => rfl

/-- A table becomes a list if every element up to its length is taken. -/
theorem isSome_list (hf : f.label = .repeated) :
    (convert R pool f (.table b es)).isSome ↔ intLen b < 2 ^ 31 - 1 ∧
      ∀ n < intLen b, (convert R pool f.element (lookup es (indexKey n))).isSome := by
  have hall : ((List.range (intLen b)).mapM fun n =>
      convert R pool f.element (lookup es (indexKey n))).isSome ↔
      ∀ n < intLen b, (convert R pool f.element (lookup es (indexKey n))).isSome := by
    simp only [LastWrite.mapM_isSome, List.mem_range]
  rw [convert_list hf, ← hall]
  cases (List.range (intLen b)).mapM fun n => convert R pool f.element (lookup es (indexKey n)) with
  | none => simp
  | some cs => simp [apply_ite Option.isSome]

/-- A table becomes a map if every key and every value is taken. -/
theorem isSome_map {entryName : Bytes} {key : KeyType} (hf : f.label = .map entryName key) :
    (convert R pool f (.table b es)).isSome ↔ ∀ k v, (k, v) ∈ es →
      (key.ofLua R k.toValue).toOption.isSome ∧
        (convert R pool (f.value entryName) v).isSome := by
  rw [convert_map hf, Option.isSome_map, LastWrite.run_isSome]
  constructor
  · intro h k v hv
    obtain ⟨w, hw⟩ := Option.isSome_iff_exists.1 (h _ hv)
    obtain ⟨hk, hc⟩ := mapWrite_eq_some.1 hw
    exact ⟨by rw [hk]; rfl, by rw [hc]; rfl⟩
  · rintro h ⟨k, v⟩ hv
    obtain ⟨hk, hc⟩ := h k v hv
    obtain ⟨mapKey, hk⟩ := Option.isSome_iff_exists.1 hk
    obtain ⟨c, hc⟩ := Option.isSome_iff_exists.1 hc
    simp [mapWrite, hk, hc]

/-- A value that is not a table has no order: it is convertible if it converts. -/
theorem convertible_atom (hv : ∀ b es, v ≠ .table b es) :
    Convertible R pool f v ↔ (convert R pool f v).isSome := by
  constructor
  · rintro (⟨hf, ht, h⟩ | _ | _ | _)
    · rwa [convert_scalar hf ht, Option.isSome_map]
    all_goals exact absurd rfl (hv _ _)
  · intro h
    rcases f.kinds with hf | ⟨entryName, key, hf⟩ | ⟨hf, t, ht⟩ | ⟨hf, t, ht⟩
    · rw [convert_eq_none hv (.inl fun hs => hs.1 hf)] at h
      cases h
    · rw [convert_eq_none hv (.inl fun hs => hs.2 _ _ hf)] at h
      cases h
    · rw [convert_scalar hf ht, Option.isSome_map] at h
      exact .scalar hf ht h
    · rw [convert_eq_none hv (.inr ⟨t, ht⟩)] at h
      cases h

/-- A value is converted exactly if nothing in it raises. -/
theorem convertible_iff (hv : v.Proper) : Convertible R pool f v ↔ (convert R pool f v).isSome := by
  induction v using LuaValue.induction generalizing f with
  | atom v h => exact convertible_atom h
  | table b es ih =>
      obtain ⟨nodup, -, values⟩ := hv.table_inv
      have ih : ∀ {f : FieldDescriptor Num Float} {k v}, (k, v) ∈ es →
          (Convertible R pool f v ↔ (convert R pool f v).isSome) :=
        fun h => ih _ _ h (values _ _ h)
      rcases f.kinds with hf | ⟨entryName, key, hf⟩ | ⟨hf, t, ht⟩ | ⟨hf, t, ht⟩
      · rw [convertible_list hf, isSome_list hf]
        refine and_congr_right' (forall₂_congr fun n _ => ?_)
        rcases lookup_cases nodup (indexKey n) with h | ⟨-, h⟩
        · exact ih h
        · rw [h]
          exact convertible_atom (by simp)
      · rw [convertible_map hf, isSome_map hf]
        exact forall₃_congr fun k v hkv => and_congr_right' (ih hkv)
      · rw [convertible_scalar hf ht, convert_scalar hf ht, Option.isSome_map]
      · rw [convertible_message hf ht, isSome_message hf ht nodup]
        constructor
        · intro ⟨named, fields⟩ s v hsv
          obtain ⟨i, hi⟩ := Option.isSome_iff_exists.1 (named s v hsv)
          obtain rfl := Descriptor.findFieldByName_eq_some.1 hi
          exact ⟨i, hi, (ih hsv).1 (fields i v hsv)⟩
        · intro h
          refine ⟨fun s v hsv => ?_, fun i v hiv => ?_⟩
          · obtain ⟨i, hi, -⟩ := h s v hsv
            rw [hi]
            rfl
          · obtain ⟨j, hj, hc⟩ := h _ v hiv
            obtain rfl : i = j := by simpa using hj
            exact (ih hiv).2 hc

/-- Whether a value raises does not depend on an order. -/
theorem convert_isSome_reorders (hv : v.Proper) (h : Reorders v v') :
    (convert R pool f v').isSome ↔ (convert R pool f v).isSome := by
  -- The values of a table are smaller than the table, and they are converted on their own.
  induction v using LuaValue.induction generalizing f v' with
  | atom v hatom => rw [h.atom_inv hatom]
  | table b es ih =>
      obtain ⟨nodup, -, values⟩ := hv.table_inv
      obtain ⟨fs, es', rfl, hes, perm⟩ := h.table_inv
      have alike : Entrywise (fun v v' => ∀ {f : FieldDescriptor Num Float},
          (convert R pool f v').isSome ↔ (convert R pool f v).isSome) es fs :=
        hes.imp fun k v v' hkv hvv' _ => ih k v hkv (values k v hkv) hvv'
      have nodupF : (fs.map Prod.fst).Nodup := hes.keys ▸ nodup
      have nodup' : (es'.map Prod.fst).Nodup := (perm.map Prod.fst).nodup_iff.1 nodupF
      rcases f.kinds with hf | ⟨entryName, key, hf⟩ | ⟨hf, t, ht⟩ | ⟨hf, t, ht⟩
      · -- The length of a list does not depend on the order.
        rw [isSome_list hf, isSome_list hf]
        refine and_congr_right' (forall₂_congr fun n _ => ?_)
        rw [lookup_perm nodupF perm]
        exact alike.lookup (fun {_} => Iff.rfl) (indexKey n)
      · rw [isSome_map hf, isSome_map hf]
        constructor
        · intro h k v hkv
          obtain ⟨v', hkv', hP⟩ := alike.exists_right hkv
          exact (h k v' (perm.mem_iff.1 hkv')).imp_right hP.1
        · intro h k v' hkv'
          obtain ⟨v, hkv, hP⟩ := alike.exists_left (perm.mem_iff.2 hkv')
          exact (h k v hkv).imp_right hP.2
      · rw [convert_scalar hf ht, convert_scalar hf ht, ofLua_table]
      · rw [isSome_message hf ht nodup', isSome_message hf ht nodup]
        constructor
        · intro h s v hsv
          obtain ⟨v', hsv', hP⟩ := alike.exists_right hsv
          obtain ⟨i, hi, hc⟩ := h s v' (perm.mem_iff.1 hsv')
          exact ⟨i, hi, hP.1 hc⟩
        · intro h s v' hsv'
          obtain ⟨v, hsv, hP⟩ := alike.exists_left (perm.mem_iff.2 hsv')
          obtain ⟨i, hi, hc⟩ := h s v hsv
          exact ⟨i, hi, hP.2 hc⟩

/-! ### What does not depend on the order -/

/-- What a message field becomes is a message. -/
theorem exists_message {t : Nat} {c : Content Num Float} (hf : f.Singular)
    (ht : f.type = .message t) (h : convert R pool f v = some c) : ∃ slots, c = .message slots := by
  by_cases hv : ∃ b es, v = .table b es
  · obtain ⟨b, es, rfl⟩ := hv
    rw [convert] at h
    cases hl : f.label <;>
      simp_all [setContent, toOption_map, FieldDescriptor.Singular] <;>
      exact h.imp fun _ hs => hs.2.symm
  · rw [convert_eq_none (fun b es hv' => hv ⟨b, es, hv'⟩) (.inr ⟨t, ht⟩)] at h
    cases h

/-- A member of a oneof is set by what sets it. -/
theorem sets_iff {o : Nat} {c : Content Num Float} (hf : f.label = .oneof o)
    (h : convert R pool f v = some c) : Sets R f v ↔ c.isAbsent = false := by
  have hsing : f.Singular := by simp [FieldDescriptor.Singular, hf]
  cases ht : f.type with
  | scalar t =>
      rw [convert_scalar hsing ht] at h
      obtain ⟨s, hs, rfl⟩ := Option.map_eq_some_iff.1 h
      have hok : t.ofLua R v = .ok s := by
        cases hv : t.ofLua R v <;> rw [hv] at hs <;> cases hs
        rfl
      have hinitial : f.initial = .absent := by simp [FieldDescriptor.initial, hf]
      have hsets : Sets R f v ↔ t.unknownNumber s = none := by
        constructor
        · exact fun hset => hset t s ht hok
        · intro hnone t' s' ht' hok'
          obtain rfl : t = t' := FieldType.scalar.inj (ht.symm.trans ht')
          exact Except.ok.inj (hok.symm.trans hok') ▸ hnone
      rw [hsets, setScalar_initial ht, hinitial]
      cases t.unknownNumber s with
      | none => exact iff_of_true rfl rfl
      | some n => exact iff_of_false (fun h => by cases h) fun h => by cases h
  | message t =>
      obtain ⟨slots, rfl⟩ := exists_message hsing ht h
      exact iff_of_true (fun t' _ ht' => by rw [ht] at ht'; cases ht') rfl

/-- The writes of a message table that does not set two members of one oneof agree. -/
theorem agree_message {d : Descriptor Num Float} (nodup : (es.map Prod.fst).Nodup)
    (oneofs : ∀ i j v w, (.string (d.field i).name, v) ∈ es → (.string (d.field j).name, w) ∈ es →
      d.SameOneof i j → Sets R (d.field i) v → Sets R (d.field j) w → i = j)
    {ws : List (Option (d.Index × Content Num Float))}
    (hws : es.mapM (entryWrite R pool d) = some ws) : d.writes.Agree ws := by
  intro w hw w' hw' x a a' ha ha'
  obtain ⟨⟨k, v⟩, hkv, he⟩ := LastWrite.exists_of_mem_converted hws hw
  obtain ⟨⟨k', v'⟩, hkv', he'⟩ := LastWrite.exists_of_mem_converted hws hw'
  rcases entryWrite_eq_some he with rfl | ⟨i, c, rfl, hc, rfl⟩
  · cases ha
  rcases entryWrite_eq_some he' with rfl | ⟨j, c', rfl, hc', rfl⟩
  · cases ha'
  by_cases hij : i = j
  · subst hij
    obtain rfl : v = v' := (lookup_eq_of_mem nodup hkv).symm.trans (lookup_eq_of_mem nodup hkv')
    obtain rfl : c = c' := Option.some.inj (hc.symm.trans hc')
    exact Option.some.inj (ha.symm.trans ha')
  · obtain ⟨x, p⟩ := x
    -- A member that another one has cleared was not set, or it is absent.
    have cleared : ∀ {i j : d.Index} {v w : LuaValue Num} {c c' : Content Num Float}, i ≠ j →
        (.string (d.field i).name, v) ∈ es → (.string (d.field j).name, w) ∈ es →
        convert R pool (d.field i) v = some c → convert R pool (d.field j) w = some c' →
        d.SameOneof i j → c.isAbsent = false → Descriptor.part .known c' = .absent := by
      intro i j v w c c' hij hv hw hc hc' ho hset
      by_contra hpart
      have ⟨o, hoi, hoj⟩ := ho
      exact hij (oneofs i j v w hv hw ho ((sets_iff hoi hc).2 hset)
        ((sets_iff hoj hc').2 (Content.isAbsent_eq_false.2 hpart)))
    -- Two fields touch one place only if one clears the other, or both clear it.
    rcases Descriptor.touch_eq_some.1 ha with ⟨rfl, rfl⟩ | ⟨hx, rfl, ho, hset, rfl⟩
    · rcases Descriptor.touch_eq_some.1 ha' with ⟨rfl, -⟩ | ⟨-, rfl, ho', hset', rfl⟩
      · exact absurd rfl hij
      · exact cleared (Ne.symm hij) hkv' hkv hc' hc ho' hset'
    · rcases Descriptor.touch_eq_some.1 ha' with ⟨rfl, rfl⟩ | ⟨-, -, -, -, rfl⟩
      · exact (cleared hij hkv hkv' hc hc' ho hset).symm
      · rfl

/-- The writes of a map table agree, if keys that convert alike have values that do. -/
theorem agree_map {key : KeyType} {value : FieldDescriptor Num Float}
    (keys : ∀ k v k' v' mapKey, (k, v) ∈ es → (k', v') ∈ es →
      key.ofLua R k.toValue = .ok mapKey → key.ofLua R k'.toValue = .ok mapKey →
      convert R pool value v = convert R pool value v')
    {ws : List (MapKey × Content Num Float)} (hws : es.mapM (mapWrite R pool key value) = some ws) :
    (SortedMap.writes MapKey (Content Num Float)).Agree ws := by
  intro w hw w' hw' x a a' ha ha'
  obtain ⟨⟨k, v⟩, hkv, he⟩ := LastWrite.exists_of_mem_converted hws hw
  obtain ⟨⟨k', v'⟩, hkv', he'⟩ := LastWrite.exists_of_mem_converted hws hw'
  obtain ⟨hk, hc⟩ := mapWrite_eq_some.1 he
  obtain ⟨hk', hc'⟩ := mapWrite_eq_some.1 he'
  obtain ⟨rfl, rfl⟩ := SortedMap.touch_eq_some.1 ha
  obtain ⟨hx, rfl⟩ := SortedMap.touch_eq_some.1 ha'
  rw [← hc, ← hc', keys k v k' v' w.1 hkv hkv' hk (hx ▸ hk')]

/-- An unambiguous value makes the same in every order. -/
theorem Unambiguous.independent (hv : v.Proper) (hu : Unambiguous R pool f v) :
    Independent R pool f v := by
  intro v' h
  -- In any order the same writes are made, and where they agree the order does not matter.
  induction v using LuaValue.induction generalizing f v' with
  | atom v hatom => rw [h.atom_inv hatom]
  | table b es ih =>
      obtain ⟨nodup, -, values⟩ := hv.table_inv
      obtain ⟨fs, es', rfl, hes, perm⟩ := h.table_inv
      have alike : Entrywise (fun v v' => ∀ {f : FieldDescriptor Num Float},
          Unambiguous R pool f v → convert R pool f v' = convert R pool f v) es fs :=
        hes.imp fun k v v' hkv hvv' _ hu => ih k v hkv (values k v hkv) hu v' hvv'
      have nodupF : (fs.map Prod.fst).Nodup := hes.keys ▸ nodup
      have nodup' : (es'.map Prod.fst).Nodup := (perm.map Prod.fst).nodup_iff.1 nodupF
      rcases f.kinds with hf | ⟨entryName, key, hf⟩ | ⟨hf, t, ht⟩ | ⟨hf, t, ht⟩
      · rw [unambiguous_list hf] at hu
        rw [convert_list hf, convert_list hf]
        refine congrArg (Option.bind · _) (LastWrite.mapM_congr fun n hn => ?_)
        rw [lookup_perm nodupF perm]
        exact alike.lookup (fun {_} _ => rfl) (indexKey n) (hu n (List.mem_range.1 hn))
      · obtain ⟨keys, values⟩ := (unambiguous_map hf).1 hu
        have hfs : fs.mapM (mapWrite R pool key (f.value entryName)) =
            es.mapM (mapWrite R pool key (f.value entryName)) := by
          refine LastWrite.mapM_congr₂ (alike.forall₂ fun k v v' hkv hP => ?_)
          rw [mapWrite, mapWrite, hP (values k v hkv)]
        rw [convert_map hf, convert_map hf, LastWrite.run_perm SortedMap.sorted_nil
          (fun ws hws => agree_map keys (hfs ▸ hws)) perm, LastWrite.run, hfs, LastWrite.run]
      · rw [convert_scalar hf ht, convert_scalar hf ht, ofLua_table]
      · obtain ⟨oneofs, fields⟩ := (unambiguous_message hf ht).1 hu
        have hfs : fs.mapM (entryWrite R pool (pool.descriptor t)) =
            es.mapM (entryWrite R pool (pool.descriptor t)) := by
          refine LastWrite.mapM_congr₂ (alike.forall₂ fun k v v' hkv hP => ?_)
          cases k with
          | string s =>
              rw [entryWrite_string, entryWrite_string]
              cases hi : (pool.descriptor t).findFieldByName s with
              | none => rfl
              | some i =>
                  obtain rfl := Descriptor.findFieldByName_eq_some.1 hi
                  rw [Option.bind_some, Option.bind_some, hP (fields i v hkv)]
          | boolean _ | integer _ | number _ | object _ _ => rfl
        rw [convert_message hf ht nodup', convert_message hf ht nodup,
          LastWrite.run_perm Descriptor.length_empty
            (fun ws hws => agree_message nodup oneofs (hfs ▸ hws)) perm,
          LastWrite.run, hfs, LastWrite.run]

/-! ### What each order makes alike -/

variable {k : LuaKey Num}

/-- No scalar is made of a table. -/
theorem independent_scalar {t : ScalarType} (hf : f.Singular) (ht : f.type = .scalar t) :
    Independent R pool f v := by
  intro v' h
  by_cases hv : ∃ b es, v = .table b es
  · obtain ⟨b, es, rfl⟩ := hv
    obtain ⟨fs, es', rfl, -, -⟩ := h.table_inv
    rw [convert_scalar hf ht, convert_scalar hf ht, ofLua_table]
  · rw [h.atom_inv fun b es hv' => hv ⟨b, es, hv'⟩]

/-- A list of messages is the list of what has been made of them. -/
theorem list_of_messages {t : Nat} {c : Content Num Float} (hf : f.label = .repeated)
    (ht : f.type = .message t) (hc : convert R pool f (.table b es) = some c) :
    ∃ cs, ((List.range (intLen b)).mapM fun n =>
      convert R pool f.element (lookup es (indexKey n))) = some cs ∧ c = .list cs := by
  obtain ⟨-, cs, hcs, rfl⟩ := (convert_list_eq_some hf).1 hc
  refine ⟨cs, hcs, Content.addAll_nil fun c' hc' => ?_⟩
  obtain ⟨n, -, hn⟩ := LastWrite.exists_of_mem_converted hcs hc'
  obtain ⟨slots, rfl⟩ := exists_message f.singular_element ht hn
  rfl

/-- Where the list does not depend on the order, no element does. -/
theorem Independent.element (hi : Independent R pool f (.table b es))
    (hc : (convert R pool f (.table b es)).isSome) (hf : f.label = .repeated)
    (nodup : (es.map Prod.fst).Nodup) {n : Nat} (hn : n < intLen b) (hv : (indexKey n, v) ∈ es) :
    Independent R pool f.element v := by
  cases ht : f.type with
  | scalar t => exact independent_scalar f.singular_element ht
  | message t =>
      intro v' h
      obtain ⟨us, vs, rfl⟩ := List.append_of_mem hv
      have nodup' : ((us ++ (indexKey n, v') :: vs).map Prod.fst).Nodup := by simpa using nodup
      obtain ⟨c, hc⟩ := Option.isSome_iff_exists.1 hc
      obtain ⟨cs, hcs, rfl⟩ := list_of_messages hf ht hc
      obtain ⟨cs', hcs', heq⟩ := list_of_messages hf ht ((hi _ (h.inside (.refl _))).trans hc)
      obtain rfl := Content.list.inj heq
      have hn' := LastWrite.eq_of_mapM_eq (hcs'.trans hcs.symm) (by rw [hcs']; rfl)
        (List.mem_range.2 hn)
      rwa [lookup_eq_of_mem nodup' (List.mem_append_right _ List.mem_cons_self),
        lookup_eq_of_mem nodup (List.mem_append_right _ List.mem_cons_self)] at hn'

/-- Every order of the entries writes the same map. -/
theorem Independent.map_run {entryName : Bytes} {key : KeyType}
    (hi : Independent R pool f (.table b es)) (hf : f.label = .map entryName key)
    {m : List (MapKey × Content Num Float)} (hc : convert R pool f (.table b es) = some (.map m))
    (h : Reorders (.table b es) (.table b es')) :
    (SortedMap.writes MapKey (Content Num Float)).run (mapWrite R pool key (f.value entryName)) []
      es' = some m := by
  have heq := hi _ h
  rw [hc, convert_map hf] at heq
  exact Option.map_injective (fun _ _ => Content.map.inj) heq

/-- Where the map does not depend on the order, no value does. -/
theorem Independent.value {entryName : Bytes} {key : KeyType}
    (hi : Independent R pool f (.table b es)) (hf : f.label = .map entryName key)
    {m : List (MapKey × Content Num Float)} (hc : convert R pool f (.table b es) = some (.map m))
    (hv : (k, v) ∈ es) : Independent R pool (f.value entryName) v := by
  intro v' h
  obtain ⟨us, -, hlast, hlast'⟩ := h.last (b := b) hv
  obtain ⟨w, hw, hlook⟩ := LastWrite.run_concat SortedMap.sorted_nil (hi.map_run hf hc hlast)
  obtain ⟨w', hw', hlook'⟩ := LastWrite.run_concat SortedMap.sorted_nil (hi.map_run hf hc hlast')
  obtain ⟨hk, hcv⟩ := mapWrite_eq_some.1 hw
  obtain ⟨hk', hcv'⟩ := mapWrite_eq_some.1 hw'
  have hkey : w.1 = w'.1 := Except.ok.inj (hk.symm.trans hk')
  have hm := hlook _ _ (SortedMap.touch_eq_some.2 ⟨rfl, rfl⟩)
  have hm' := hlook' _ _ (SortedMap.touch_eq_some.2 ⟨hkey, rfl⟩)
  rw [hcv, hcv', ← hm, ← hm']

/-- Two entries for one key of the map: each may come last, so their values agree. -/
theorem Independent.keys {entryName : Bytes} {key : KeyType}
    (hi : Independent R pool f (.table b es)) (hf : f.label = .map entryName key)
    {m : List (MapKey × Content Num Float)} (hc : convert R pool f (.table b es) = some (.map m))
    {k' : LuaKey Num} {mapKey : MapKey} (hv : (k, v) ∈ es) (hv' : (k', v') ∈ es)
    (hk : key.ofLua R k.toValue = .ok mapKey) (hk' : key.ofLua R k'.toValue = .ok mapKey) :
    convert R pool (f.value entryName) v = convert R pool (f.value entryName) v' := by
  have hsome := (isSome_map hf).1 (Option.isSome_of_eq_some hc)
  obtain ⟨c, hcv⟩ := Option.isSome_iff_exists.1 (hsome k v hv).2
  obtain ⟨c', hcv'⟩ := Option.isSome_iff_exists.1 (hsome k' v' hv').2
  have hw : mapWrite R pool key (f.value entryName) (k, v) = some (mapKey, c) :=
    mapWrite_eq_some.2 ⟨hk, hcv⟩
  have hw' : mapWrite R pool key (f.value entryName) (k', v') = some (mapKey, c') :=
    mapWrite_eq_some.2 ⟨hk', hcv'⟩
  have hagree := LastWrite.agree_of_perm SortedMap.sorted_nil
    (fun es' hp => hi.map_run hf hc (.of_perm hp)) hv hv' hw hw'
    (SortedMap.touch_eq_some.2 ⟨rfl, rfl⟩) (SortedMap.touch_eq_some.2 ⟨rfl, rfl⟩)
  rw [hcv, hcv', hagree]

/-- Every order of the entries writes the same message. -/
theorem Independent.message_run {t : Nat} (hi : Independent R pool f (.table b es))
    (hf : f.Singular) (ht : f.type = .message t) {slots : List (Content Num Float)}
    (hc : convert R pool f (.table b es) = some (.message slots))
    (h : Reorders (.table b es) (.table b es')) (nodup : (es'.map Prod.fst).Nodup) :
    (pool.descriptor t).writes.run (entryWrite R pool (pool.descriptor t))
      (pool.descriptor t).empty es' = some slots := by
  have heq := hi _ h
  rw [hc, convert_message hf ht nodup] at heq
  exact Option.map_injective (fun _ _ => Content.message.inj) heq

/-- Where the message does not depend on the order, no field does. -/
theorem Independent.field {t : Nat} (hi : Independent R pool f (.table b es))
    (hf : f.Singular) (ht : f.type = .message t) (nodup : (es.map Prod.fst).Nodup)
    {slots : List (Content Num Float)}
    (hc : convert R pool f (.table b es) = some (.message slots)) {i : (pool.descriptor t).Index}
    (hv : (.string ((pool.descriptor t).field i).name, v) ∈ es) :
    Independent R pool ((pool.descriptor t).field i) v := by
  intro v' h
  obtain ⟨us, perm, hlast, hlast'⟩ := h.last (b := b) hv
  have nodupLast := (perm.map Prod.fst).nodup_iff.2 nodup
  obtain ⟨w, hw, hlook⟩ := LastWrite.run_concat Descriptor.length_empty
    (hi.message_run hf ht hc hlast nodupLast)
  obtain ⟨w', hw', hlook'⟩ := LastWrite.run_concat Descriptor.length_empty
    (hi.message_run hf ht hc hlast' (by simpa using nodupLast))
  rw [entryWrite_name] at hw hw'
  obtain ⟨c, hcv, rfl⟩ := Option.map_eq_some_iff.1 hw
  obtain ⟨c', hcv', rfl⟩ := Option.map_eq_some_iff.1 hw'
  have hc := Descriptor.get_eq fun p => hlook (i, p) _ Descriptor.touch_self
  have hc' := Descriptor.get_eq fun p => hlook' (i, p) _ Descriptor.touch_self
  rw [hcv, hcv', ← hc, ← hc']

/-- Two entries for members of one oneof: each may come last, so not both set theirs. -/
theorem Independent.oneofs {t : Nat} (hi : Independent R pool f (.table b es))
    (hf : f.Singular) (ht : f.type = .message t) (nodup : (es.map Prod.fst).Nodup)
    {slots : List (Content Num Float)}
    (hc : convert R pool f (.table b es) = some (.message slots))
    {i j : (pool.descriptor t).Index}
    (hv : (.string ((pool.descriptor t).field i).name, v) ∈ es)
    (hw : (.string ((pool.descriptor t).field j).name, v') ∈ es)
    (ho : (pool.descriptor t).SameOneof i j) (hsets : Sets R ((pool.descriptor t).field i) v)
    (hsets' : Sets R ((pool.descriptor t).field j) v') : i = j := by
  have hsome := (isSome_message hf ht nodup).1 (Option.isSome_of_eq_some hc)
  have converted : ∀ (i : (pool.descriptor t).Index) v,
      (.string ((pool.descriptor t).field i).name, v) ∈ es →
        ∃ c, convert R pool ((pool.descriptor t).field i) v = some c := by
    intro i v hv
    obtain ⟨j, hj, hcj⟩ := hsome _ v hv
    obtain rfl : i = j := by simpa using hj
    exact Option.isSome_iff_exists.1 hcj
  obtain ⟨c, hcv⟩ := converted i v hv
  obtain ⟨c', hcw⟩ := converted j v' hw
  have ⟨o, hoi, hoj⟩ := ho
  have hset := (sets_iff hoi hcv).1 hsets
  have hset' := (sets_iff hoj hcw).1 hsets'
  by_contra hij
  -- The one coming last has cleared the other.
  have hagree := LastWrite.agree_of_perm Descriptor.length_empty
    (fun es' hp => hi.message_run hf ht hc (.of_perm hp) ((hp.map Prod.fst).nodup_iff.1 nodup))
    hw hv (by rw [entryWrite_name, hcw]; rfl) (by rw [entryWrite_name, hcv]; rfl)
    Descriptor.touch_self (Descriptor.touch_sameOneof (Ne.symm hij) ho hset)
  exact Content.isAbsent_eq_false.1 hset' hagree

/-- What is made in every order alike is unambiguous. -/
theorem Independent.unambiguous (hv : v.Proper) (hi : Independent R pool f v)
    (hc : (convert R pool f v).isSome) : Unambiguous R pool f v := by
  induction v using LuaValue.induction generalizing f with
  | atom v hatom => exact .atom hatom
  | table b es ih =>
      obtain ⟨nodup, -, values⟩ := hv.table_inv
      rcases f.kinds with hf | ⟨entryName, key, hf⟩ | ⟨hf, t, ht⟩ | ⟨hf, t, ht⟩
      · refine (unambiguous_list hf).2 fun n hn => ?_
        have helem := ((isSome_list hf).1 hc).2 n hn
        rcases lookup_cases nodup (indexKey n) with hmem | ⟨-, hnil⟩
        · exact ih _ _ hmem (values _ _ hmem) (hi.element hc hf nodup hn hmem) helem
        · rw [hnil]
          exact .atom (by simp)
      · have hsome := (isSome_map hf).1 hc
        obtain ⟨m, hm⟩ : ∃ m, convert R pool f (.table b es) = some (.map m) := by
          rw [convert_map hf, Option.isSome_map] at hc
          obtain ⟨m, hm⟩ := Option.isSome_iff_exists.1 hc
          exact ⟨m, by rw [convert_map hf, hm]; rfl⟩
        refine (unambiguous_map hf).2 ⟨?_, fun k v hkv => ?_⟩
        · exact fun k v k' v' mapKey hkv hkv' hk hk' => hi.keys hf hm hkv hkv' hk hk'
        · exact ih k v hkv (values k v hkv) (hi.value hf hm hkv) (hsome k v hkv).2
      · exact .scalar hf ht
      · have hsome := (isSome_message hf ht nodup).1 hc
        obtain ⟨slots, hs⟩ : ∃ slots, convert R pool f (.table b es) = some (.message slots) := by
          rw [convert_message hf ht nodup, Option.isSome_map] at hc
          obtain ⟨slots, hs⟩ := Option.isSome_iff_exists.1 hc
          exact ⟨slots, by rw [convert_message hf ht nodup, hs]; rfl⟩
        refine (unambiguous_message hf ht).2 ⟨?_, fun i v hiv => ?_⟩
        · exact fun i j v w hiv hjw ho => hi.oneofs hf ht nodup hs hiv hjw ho
        · obtain ⟨j, hj, hcj⟩ := hsome _ v hiv
          obtain rfl : i = j := by simpa using hj
          exact ih _ v hiv (values _ v hiv) (hi.field hf ht nodup hs hiv) hcj

/-- A value makes one thing in all orders exactly if it raises, or is unambiguous. -/
theorem independent_iff_unambiguous (hv : v.Proper) :
    Independent R pool f v ↔ (Convertible R pool f v → Unambiguous R pool f v) := by
  rw [convertible_iff hv]
  constructor
  · exact fun hi hc => hi.unambiguous hv hc
  · intro h v' hre
    by_cases hc : (convert R pool f v).isSome
    · exact (h hc).independent hv v' hre
    · have hc' := mt (convert_isSome_reorders hv hre).1 hc
      rw [Option.not_isSome_iff_eq_none.1 hc, Option.not_isSome_iff_eq_none.1 hc']

variable (R pool) in
/-- `SetMsg()` of the table on an empty message raises in every order in which Lua may yield the
entries, or makes one message in all of them. -/
def OrderFree (type : Nat) (t : LuaValue Num) : Prop :=
  ∀ t', Reorders t t' →
    (setMsg R pool (pool.descriptor type) (pool.descriptor type).empty t').toOption =
      (setMsg R pool (pool.descriptor type) (pool.descriptor type).empty t).toOption

/-- The message that `SetMsg` fills is the value of the root field. -/
theorem orderFree_iff_independent {type : Nat} {t : LuaValue Num} :
    OrderFree R pool type t ↔ Independent R pool (pool.root type) t := by
  refine forall₂_congr fun t' _ => ?_
  rw [convert_root, convert_root]
  exact (Option.map_injective (fun _ _ => Content.message.inj)).eq_iff.symm

/-- The order does not matter exactly if the table raises, or is unambiguous. -/
theorem order_free_iff (type : Nat) (t : LuaValue Num) (ht : t.Proper) :
    OrderFree R pool type t ↔
      (Convertible R pool (pool.root type) t → Unambiguous R pool (pool.root type) t) := by
  rw [orderFree_iff_independent, independent_iff_unambiguous ht]

end

/-- `message Choice { oneof choice { int32 a = 1; int32 b = 2; } }`. -/
def choice : Descriptor Int Int where
  fullName := str "Choice"
  fields :=
    [⟨str "a", str "Choice.a", .oneof 0, .scalar (.ofKey .int32), .ofKey (.int32 0),
        fun _ h => by cases h; rfl⟩,
     ⟨str "b", str "Choice.b", .oneof 0, .scalar (.ofKey .int32), .ofKey (.int32 0),
        fun _ h => by cases h; rfl⟩]
  nodup := by decide

def choicePool : Pool Int Int :=
  ⟨fun _ => choice, fun name => if name = str "Choice" then some 0 else none⟩

theorem order_free_iff_oneMember :
    OrderFree Runtime.integers choicePool 0 (.table 0 [(.string (str "a"), .integer 1)]) ↔
      (Convertible Runtime.integers choicePool (choicePool.root 0)
          (.table 0 [(.string (str "a"), .integer 1)]) →
        Unambiguous Runtime.integers choicePool (choicePool.root 0)
          (.table 0 [(.string (str "a"), .integer 1)])) :=
  order_free_iff 0 _ (.entries (by simp) (by simp) fun _ v hv => by
    obtain ⟨-, rfl⟩ := by simpa using hv
    exact .atom (by simp))

/-- Both members of the oneof: the one that Lua yields last is set. -/
theorem not_order_free :
    ¬ OrderFree Runtime.integers choicePool 0
      (.table 0 [(.string (str "a"), .integer 1), (.string (str "b"), .integer 2)]) := by
  intro h
  have hswap := h _ (.of_perm (.swap _ _ []))
  have hb : (setMsg Runtime.integers choicePool choice choice.empty (.table 0
      [(.string (str "a"), .integer 1), (.string (str "b"), .integer 2)])).toOption =
      some [.absent, .scalar (.ofKey (.int32 2))] := rfl
  have ha : (setMsg Runtime.integers choicePool choice choice.empty (.table 0
      [(.string (str "b"), .integer 2), (.string (str "a"), .integer 1)])).toOption =
      some [.scalar (.ofKey (.int32 1)), .absent] := rfl
  rw [show choicePool.descriptor 0 = choice from rfl, ha, hb] at hswap
  cases hswap

end GrpcLua.Pb
