import GrpcLua.Pb.Iteration
import GrpcLua.Pb.MsgToTbl

/-!
# Pb — RoundTrip

A message, made into a table by `MsgToTbl` and written back by `MessageSetter`, is the message it
was (`setMsg_toTbl`), in whatever order Lua yields the entries of the tables.

`Typed` are the messages of a type in which every scalar with presence of its own is set and every
entry of a map has a value: an absent scalar would come back as its default, and an absent value of
a map not at all.
-/

namespace GrpcLua.Pb
open Pb.LuaValue MessageSetter MsgToTbl

variable {Num Float : Type} [DecidableEq Num]

section
variable (pool : Pool Num Float)

/-- The field may hold this. -/
inductive Typed : FieldDescriptor Num Float → Content Num Float → Prop where
  | absent {f : FieldDescriptor Num Float} (hf : f.Singular)
      (h : (∃ t, f.type = .message t) ∨ ∃ o, f.label = .oneof o) : Typed f .absent
  | scalar {f : FieldDescriptor Num Float} {t : ScalarType} {s : Scalar Num Float}
      (hf : f.Singular) (ht : f.type = .scalar t) (hs : t.Holds s) : Typed f (.scalar s)
  | message {f : FieldDescriptor Num Float} {t : Nat} {slots : List (Content Num Float)}
      (hf : f.Singular) (ht : f.type = .message t)
      (length : slots.length = (pool.descriptor t).fields.length)
      (exclusive : ∀ i j, (pool.descriptor t).SameOneof i j →
        (pool.descriptor t).get slots i ≠ .absent → (pool.descriptor t).get slots j ≠ .absent →
        i = j)
      (fields : ∀ i, Typed ((pool.descriptor t).field i) ((pool.descriptor t).get slots i)) :
      Typed f (.message slots)
  | list {f : FieldDescriptor Num Float} {cs : List (Content Num Float)}
      (hf : f.label = .repeated) (length : cs.length < 2 ^ 31 - 1) (present : .absent ∉ cs)
      (elements : ∀ c ∈ cs, Typed f.element c) : Typed f (.list cs)
  | map {f : FieldDescriptor Num Float} {entryName : Bytes} {key : KeyType}
      {es : List (MapKey × Content Num Float)} (hf : f.label = .map entryName key)
      (sorted : SortedMap.Sorted es) (keys : ∀ k c, (k, c) ∈ es → k.type = key)
      (present : ∀ k, (k, .absent) ∉ es)
      (values : ∀ k c, (k, c) ∈ es → Typed (f.value entryName) c) : Typed f (.map es)

end

variable {R : Runtime Num Float} {pool : Pool Num Float}
variable {f : FieldDescriptor Num Float} {c : Content Num Float} {v : LuaValue Num}

omit [DecidableEq Num] in
/-- A field that may be absent is so at first. -/
theorem Typed.initial_eq (h : Typed pool f .absent) : f.initial = .absent := by
  cases h with
  | absent hf h =>
      rcases h with ⟨t, ht⟩ | ⟨o, ho⟩
      · cases hl : f.label <;> simp_all [FieldDescriptor.initial, FieldDescriptor.Singular]
      · simp [FieldDescriptor.initial, ho]

omit [DecidableEq Num] in
/-- No unknown number is in a message of the type. -/
theorem Typed.known_eq (h : Typed pool f c) : c.known = c ∧ c.numbers = [] := by
  cases h <;> exact ⟨rfl, rfl⟩

omit [DecidableEq Num] in
/-- Only what is not there is absent: there are no unknown numbers. -/
theorem Typed.isAbsent_iff (h : Typed pool f c) : c.isAbsent = true ↔ c = .absent := by
  rw [Content.isAbsent_iff, h.known_eq.1]

/-- An absent field is shown as nil, or is a member of a oneof. -/
theorem Typed.not_shown (h : Typed pool f .absent) :
    getField R pool f .absent = .nil ∨ f.inOneof = true := by
  cases h with
  | absent hf h =>
      rcases h with ht | ⟨o, ho⟩
      · exact .inl (getField_eq_nil.2 ⟨rfl, ht⟩)
      · exact .inr (by simp [FieldDescriptor.inOneof, ho])

variable (R pool) in
/-- The value of the field comes back as what the field holds, whatever the order of its entries. -/
structure ComesBack (f : FieldDescriptor Num Float) (c : Content Num Float) : Prop where
  proper : (getField R pool f c).Proper
  unambiguous : Unambiguous R pool f (getField R pool f c)
  convert_eq : convert R pool f (getField R pool f c) = some c

omit [DecidableEq Num] in
/-- No scalar is shown as a table. -/
theorem scalar_ne_table (s : Scalar Num Float) (b : Nat) (es : List (LuaKey Num × LuaValue Num)) :
    s.toLua R ≠ .table b es := by
  cases s with
  | ofKey k => cases k <;> simp [Scalar.toLua, MapKey.toLua, LuaKey.toValue]
  | _ => simp [Scalar.toLua]

/-- A scalar of the type comes back. -/
theorem comesBack_scalar {t : ScalarType} {s : Scalar Num Float} (hf : f.Singular)
    (ht : f.type = .scalar t) (hs : t.Holds s) : ComesBack R pool f (.scalar s) := by
  have hget : getField R pool f (.scalar s) = s.toLua R := by rw [getField]
  refine ⟨?_, ?_, ?_⟩ <;> rw [hget]
  · exact .atom (scalar_ne_table s)
  · exact .atom (scalar_ne_table s)
  · have hknown := (ScalarType.holds_iff R (ScalarType.ofLua_toLua R hs)).1 hs
    rw [convert_scalar hf ht, ScalarType.ofLua_toLua R hs, Except.toOption, Option.map_some,
      setScalar_initial ht, hknown]

section
variable {d : Descriptor Num Float} {slots : List (Content Num Float)}

/-- The entries of the table are the fields that hold something. -/
theorem mem_toEntries_typed (hlen : slots.length = d.fields.length)
    (htyped : ∀ i, Typed pool (d.field i) (d.get slots i)) {k : LuaKey Num} :
    (k, v) ∈ toEntries R pool d slots ↔ ∃ i : d.Index, d.get slots i ≠ .absent ∧
      k = .string (d.field i).name ∧ v = getField R pool (d.field i) (d.get slots i) := by
  rw [mem_toEntries hlen]
  refine exists_congr fun i => ?_
  constructor
  · rintro ⟨rfl, rfl, hv, ho⟩
    refine ⟨fun habsent => ?_, rfl, rfl⟩
    have htype := htyped i
    rw [habsent] at htype hv ho
    rcases htype.not_shown with hnil | hin
    · exact hv hnil
    · exact ho ⟨hin, rfl⟩
  · rintro ⟨hpresent, rfl, rfl⟩
    exact ⟨rfl, rfl, fun hnil => hpresent (getField_eq_nil.1 hnil).1,
      fun h => hpresent ((htyped i).isAbsent_iff.1 h.2)⟩

/-- A message table writes what the message holds. -/
theorem run_toEntries (hlen : slots.length = d.fields.length)
    (hexclusive : ∀ i j, d.SameOneof i j → d.get slots i ≠ .absent → d.get slots j ≠ .absent →
      i = j)
    (htyped : ∀ i, Typed pool (d.field i) (d.get slots i))
    (hback : ∀ i, d.get slots i ≠ .absent →
      convert R pool (d.field i) (getField R pool (d.field i) (d.get slots i)) =
        some (d.get slots i)) :
    d.writes.run (entryWrite R pool d) d.empty (toEntries R pool d slots) = some slots := by
  -- An entry is of a field that is set, and is written back as what the field holds.
  have hmem : ∀ {k v}, (k, v) ∈ toEntries R pool d slots → ∃ i : d.Index,
      d.get slots i ≠ .absent ∧ k = .string (d.field i).name ∧
        entryWrite R pool d (k, v) = some (some (i, d.get slots i)) := by
    intro k v hkv
    obtain ⟨i, hi, rfl, rfl⟩ := (mem_toEntries_typed hlen htyped).1 hkv
    exact ⟨i, hi, rfl, by rw [entryWrite_name, hback i hi]; rfl⟩
  have hsome : ((toEntries R pool d slots).mapM (entryWrite R pool d)).isSome := by
    rw [LastWrite.mapM_isSome]
    rintro ⟨k, v⟩ hkv
    obtain ⟨i, -, -, hw⟩ := hmem hkv
    rw [hw]
    rfl
  obtain ⟨ws, hws⟩ := Option.isSome_iff_exists.1 hsome
  -- Two members of one oneof are not both set, so that the order does not matter.
  have hagree : d.writes.Agree ws := by
    refine agree_message assigned_toEntries.nodup (fun i j v w hv hw ho _ _ => ?_) hws
    obtain ⟨i', hi', hname, -⟩ := hmem hv
    obtain ⟨j', hj', hname', -⟩ := hmem hw
    obtain rfl := Descriptor.field_name_injective (LuaKey.string.inj hname)
    obtain rfl := Descriptor.field_name_injective (LuaKey.string.inj hname')
    exact hexclusive i j ho hi' hj'
  refine LastWrite.run_eq_some.2 ⟨ws, hws, ?_⟩
  refine d.writes.ext _ _ (LastWrite.valid_writeAll Descriptor.length_empty ws) hlen ?_
  rintro ⟨j, p⟩
  change _ = Descriptor.part p (d.get slots j)
  by_cases hj : d.get slots j = .absent
  · -- What is absent is as it was, or has been cleared by the member that is set.
    rcases LastWrite.look_cases (M := d.writes) Descriptor.length_empty ws (j, p) with
      ⟨us, w, vs, a, hsplit, ha, -, hlook⟩ | ⟨-, hlook⟩
    · obtain ⟨⟨k, v⟩, hkv, hw⟩ := LastWrite.exists_of_mem_converted hws (w := w) (by simp [hsplit])
      obtain ⟨i, hi, -, hw'⟩ := hmem hkv
      obtain rfl : w = some (i, d.get slots i) := Option.some.inj (hw.symm.trans hw')
      rw [hlook, hj]
      rcases Descriptor.touch_eq_some.1 ha with ⟨rfl, -⟩ | ⟨-, rfl, -, -, rfl⟩
      · exact absurd hj hi
      · rfl
    · have htype := htyped j
      rw [hj] at htype
      rw [hlook, hj, ← htype.initial_eq, ← Descriptor.get_empty (i := j)]
      rfl
  · -- What is set is written by its own entry.
    have hentry := (mem_toEntries_typed (R := R) hlen htyped).2 ⟨j, hj, rfl, rfl⟩
    obtain ⟨w, hwmem, hw⟩ := LastWrite.exists_of_mem_mapM hws hentry
    obtain rfl : w = some (j, d.get slots j) := by
      rw [entryWrite_name, hback j hj] at hw
      exact (Option.some.inj hw).symm
    exact LastWrite.look_agree Descriptor.length_empty hagree hwmem Descriptor.touch_self

end

/-- A message of fields that come back comes back. -/
theorem comesBack_message {t : Nat} {slots : List (Content Num Float)} (hf : f.Singular)
    (ht : f.type = .message t) (hlen : slots.length = (pool.descriptor t).fields.length)
    (hexclusive : ∀ i j, (pool.descriptor t).SameOneof i j →
      (pool.descriptor t).get slots i ≠ .absent → (pool.descriptor t).get slots j ≠ .absent → i = j)
    (htyped : ∀ i, Typed pool ((pool.descriptor t).field i) ((pool.descriptor t).get slots i))
    (hback : ∀ i, (pool.descriptor t).get slots i ≠ .absent →
      ComesBack R pool ((pool.descriptor t).field i) ((pool.descriptor t).get slots i)) :
    ComesBack R pool f (.message slots) := by
  have hname : ∀ {i v}, (.string ((pool.descriptor t).field i).name, v) ∈
      toEntries R pool (pool.descriptor t) slots → (pool.descriptor t).get slots i ≠ .absent ∧
        v = getField R pool ((pool.descriptor t).field i) ((pool.descriptor t).get slots i) := by
    intro i v hv
    obtain ⟨j, hj, hij, rfl⟩ := (mem_toEntries_typed hlen htyped).1 hv
    obtain rfl := Descriptor.field_name_injective (LuaKey.string.inj hij)
    exact ⟨hj, rfl⟩
  refine ⟨?_, ?_, ?_⟩ <;> rw [getField_message ht, toTbl, ofEntries]
  · refine .entries assigned_toEntries.nodup assigned_toEntries.present fun k v hkv => ?_
    obtain ⟨i, hi, -, rfl⟩ := (mem_toEntries_typed hlen htyped).1 hkv
    exact (hback i hi).proper
  · refine .message hf ht (fun i j v w hv hw ho _ _ => ?_) fun i v hv => ?_
    · exact hexclusive i j ho (hname hv).1 (hname hw).1
    · obtain ⟨hi, rfl⟩ := hname hv
      exact (hback i hi).unambiguous
  · rw [convert_message hf ht assigned_toEntries.nodup,
      run_toEntries hlen hexclusive htyped fun i hi => (hback i hi).convert_eq]
    rfl

theorem intLen_le (n : Nat) : intLen n ≤ n := by
  rw [intLen, BitVec.toInt_eq_toNat_cond, BitVec.toNat_ofNat]
  have hn : n % 2 ^ 32 ≤ n := Nat.mod_le _ _
  split_ifs <;> omega

/-- A length below 2³¹ is an `int`. -/
theorem intLen_of_lt {n : Nat} (h : n < 2 ^ 31) : intLen n = n := by
  have hn : n % 2 ^ 32 = n := Nat.mod_eq_of_lt (by omega)
  rw [intLen, BitVec.toInt_eq_toNat_cond, BitVec.toNat_ofNat, hn]
  omega

section
variable {cs : List (Content Num Float)}

/-- No element is shown as nil. -/
theorem getField_element_ne_nil (hpresent : .absent ∉ cs) (hc : c ∈ cs) :
    getField R pool f.element c ≠ .nil := fun h => hpresent ((getField_eq_nil.1 h).1 ▸ hc)

/-- No element is shown as nil. -/
theorem nil_notMem_map (hpresent : .absent ∉ cs) :
    (.nil : LuaValue Num) ∉ cs.map (getField R pool f.element) := by
  intro h
  obtain ⟨c, hc, hcnil⟩ := List.mem_map.1 h
  exact getField_element_ne_nil hpresent hc hcnil

/-- A repeated field becomes the list of its elements. -/
theorem getField_list (hlen : cs.length < 2 ^ 31) (hpresent : .absent ∉ cs) :
    getField R pool f (.list cs) =
      .table cs.length (listEntries (cs.map (getField R pool f.element))) := by
  have hlen' : (cs.map (getField R pool f.element)).length < 2 ^ 31 := by rwa [List.length_map]
  rw [getField, addElements_eq_listEntries (Nat.le_of_lt hlen) fun c hc =>
      getField_element_ne_nil hpresent hc,
    ofEntries, leastBorder_listEntries hlen' (nil_notMem_map hpresent), List.length_map]

/-- An element is found under its index. -/
theorem lookup_list (hlen : cs.length < 2 ^ 31) {n : Nat} (hc : cs[n]? = some c) :
    lookup (listEntries (cs.map (getField R pool f.element))) (indexKey n) =
      getField R pool f.element c := by
  obtain ⟨hn, -⟩ := List.getElem?_eq_some_iff.1 hc
  rw [lookup_listEntries (by rwa [List.length_map]) (by omega), List.getD_eq_getElem?_getD,
    List.getElem?_map, hc]
  rfl

/-- A list of elements that come back comes back. -/
theorem comesBack_list (hf : f.label = .repeated) (hbound : cs.length < 2 ^ 31 - 1)
    (hpresent : .absent ∉ cs) (hnumbers : ∀ c ∈ cs, c.numbers = [])
    (hback : ∀ c ∈ cs, ComesBack R pool f.element c) : ComesBack R pool f (.list cs) := by
  have hlen : cs.length < 2 ^ 31 := by omega
  refine ⟨?_, ?_, ?_⟩ <;> rw [getField_list hlen hpresent]
  · refine .entries (nodup_listEntries (by simpa using Nat.le_of_lt hlen)) (fun k hk => ?_)
      fun k v hkv => ?_
    · obtain ⟨n, -, hn⟩ := mem_listEntries.1 hk
      exact nil_notMem_map hpresent (List.mem_of_getElem? hn)
    · obtain ⟨n, -, hn⟩ := mem_listEntries.1 hkv
      obtain ⟨c, hc, rfl⟩ := List.mem_map.1 (List.mem_of_getElem? hn)
      exact (hback c hc).proper
  · refine .list hf fun n hn => ?_
    rw [intLen_of_lt hlen] at hn
    rw [lookup_list hlen (List.getElem?_eq_getElem hn)]
    exact (hback _ (List.getElem_mem hn)).unambiguous
  · refine (convert_list_eq_some hf).2 ?_
    rw [intLen_of_lt hlen]
    refine ⟨hbound, cs, LastWrite.mapM_range fun n c hc => ?_, (Content.addAll_nil hnumbers).symm⟩
    rw [lookup_list hlen hc, (hback c (List.mem_of_getElem? hc)).convert_eq]

end

section
variable {es : List (MapKey × Content Num Float)} {key : KeyType}
  {value : FieldDescriptor Num Float}

/-- The entries of the table of a map are the entries of the map. -/
theorem mem_addEntries (hsorted : SortedMap.Sorted es) (hkeys : ∀ k c, (k, c) ∈ es → k.type = key)
    (hpresent : ∀ k, (k, .absent) ∉ es) {k : LuaKey Num} :
    (k, v) ∈ addEntries R pool value [] es ↔
      ∃ mapKey c, (mapKey, c) ∈ es ∧ k = mapKey.toLua ∧ v = getField R pool value c := by
  have hlookup : ∀ {mapKey c}, (mapKey, c) ∈ es →
      lookup (addEntries R pool value [] es) mapKey.toLua = getField R pool value c := by
    intro mapKey c hc
    obtain ⟨us, vs, rfl⟩ := List.append_of_mem hc
    refine lookup_addEntries assigned_nil fun e he heq => ?_
    have hkey := MapKey.toLua_injective
      ((hkeys _ _ hc).trans (hkeys e.1 e.2 (by simp [he])).symm) heq
    have hlt := (List.pairwise_append.1 hsorted).2.1
    exact absurd hkey ((List.pairwise_cons.1 hlt).1 e he).ne
  rw [(assigned_addEntries assigned_nil).mem_iff]
  constructor
  · rintro ⟨hv, hne⟩
    by_cases hk : ∃ e ∈ es, k = e.1.toLua
    · obtain ⟨⟨mapKey, c⟩, hc, rfl⟩ := hk
      exact ⟨mapKey, c, hc, rfl, hv.symm.trans (hlookup hc)⟩
    · rw [lookup_addEntries_of_ne assigned_nil fun e he heq => hk ⟨e, he, heq⟩] at hv
      exact absurd hv.symm hne
  · rintro ⟨mapKey, c, hc, rfl, rfl⟩
    exact ⟨hlookup hc, fun hnil => hpresent mapKey ((getField_eq_nil.1 hnil).1 ▸ hc)⟩

/-- The entries that are shown write the map again. -/
theorem run_addEntries (hsorted : SortedMap.Sorted es)
    (hkeys : ∀ k c, (k, c) ∈ es → k.type = key) (hpresent : ∀ k, (k, .absent) ∉ es)
    (hback : ∀ k c, (k, c) ∈ es → convert R pool value (getField R pool value c) = some c) :
    (SortedMap.writes MapKey (Content Num Float)).run (mapWrite R pool key value) []
      (addEntries R pool value [] es) = some es := by
  -- An entry is written back as it was.
  have hwrite : ∀ {mapKey c}, (mapKey, c) ∈ es →
      mapWrite R pool key value (mapKey.toLua, getField R pool value c) = some (mapKey, c) := by
    intro mapKey c hc
    refine mapWrite_eq_some.2 ⟨?_, hback _ _ hc⟩
    rw [← hkeys _ _ hc]
    exact MapKey.ofLua_toLua R mapKey
  have hsome : ((addEntries R pool value [] es).mapM (mapWrite R pool key value)).isSome := by
    rw [LastWrite.mapM_isSome]
    rintro ⟨k, v⟩ hkv
    obtain ⟨mapKey, c, hc, rfl, rfl⟩ := (mem_addEntries hsorted hkeys hpresent).1 hkv
    rw [hwrite hc]
    rfl
  obtain ⟨ws, hws⟩ := Option.isSome_iff_exists.1 hsome
  have hmem : ∀ w ∈ ws, w ∈ es := by
    intro w hw
    obtain ⟨⟨k, v⟩, hkv, he⟩ := LastWrite.exists_of_mem_converted hws hw
    obtain ⟨mapKey, c, hc, rfl, rfl⟩ := (mem_addEntries hsorted hkeys hpresent).1 hkv
    obtain rfl := Option.some.inj ((hwrite hc).symm.trans he)
    exact hc
  refine LastWrite.run_eq_some.2 ⟨ws, hws, ?_⟩
  refine (SortedMap.writes MapKey (Content Num Float)).ext _ _
    (LastWrite.valid_writeAll SortedMap.sorted_nil ws) hsorted fun k => ?_
  rcases LastWrite.look_cases (M := SortedMap.writes MapKey (Content Num Float))
      SortedMap.sorted_nil ws k with
    ⟨us, w, vs, a, hsplit, ha, -, hlook⟩ | ⟨huntouched, hlook⟩
  · obtain ⟨rfl, rfl⟩ := SortedMap.touch_eq_some.1 ha
    have hw := hmem w (by simp [hsplit])
    exact hlook.trans ((SortedMap.mem_iff_lookup hsorted).1 hw).symm
  · -- A key that is not written was none of the map's.
    refine hlook.trans ?_
    symm
    change es.lookup k = none
    by_contra hk
    obtain ⟨c, hc⟩ := Option.ne_none_iff_exists'.1 hk
    have hkc := (SortedMap.mem_iff_lookup hsorted).2 hc
    have hentry : (k.toLua, getField R pool value c) ∈ addEntries R pool value [] es :=
      (mem_addEntries hsorted hkeys hpresent).2 ⟨k, c, hkc, rfl, rfl⟩
    obtain ⟨w, hwmem, hw⟩ := LastWrite.exists_of_mem_mapM hws hentry
    obtain rfl := Option.some.inj ((hwrite hkc).symm.trans hw)
    have htouch := huntouched _ hwmem
    rw [SortedMap.touch_eq_some.2 ⟨rfl, rfl⟩] at htouch
    cases htouch

end

/-- A map of values that come back comes back. -/
theorem comesBack_map {entryName : Bytes} {key : KeyType} {es : List (MapKey × Content Num Float)}
    (hf : f.label = .map entryName key) (hsorted : SortedMap.Sorted es)
    (hkeys : ∀ k c, (k, c) ∈ es → k.type = key) (hpresent : ∀ k, (k, .absent) ∉ es)
    (hback : ∀ k c, (k, c) ∈ es → ComesBack R pool (f.value entryName) c) :
    ComesBack R pool f (.map es) := by
  have hget : getField R pool f (.map es) =
      .ofEntries (addEntries R pool (f.value entryName) [] es) := by
    rw [getField, hf]
  have hassigned : Assigned (addEntries R pool (f.value entryName) [] es) :=
    assigned_addEntries assigned_nil
  refine ⟨?_, ?_, ?_⟩ <;> rw [hget, ofEntries]
  · refine .entries hassigned.nodup hassigned.present fun k v hkv => ?_
    obtain ⟨mapKey, c, hc, rfl, rfl⟩ := (mem_addEntries hsorted hkeys hpresent).1 hkv
    exact (hback mapKey c hc).proper
  · refine .map hf (fun k v k' v' mapKey hkv hkv' hk hk' => ?_) fun k v hkv => ?_
    · obtain ⟨m, c, hc, rfl, rfl⟩ := (mem_addEntries hsorted hkeys hpresent).1 hkv
      obtain ⟨m', c', hc', rfl, rfl⟩ := (mem_addEntries hsorted hkeys hpresent).1 hkv'
      rw [← hkeys m c hc, MapKey.ofLua_toLua] at hk
      rw [← hkeys m' c' hc', MapKey.ofLua_toLua] at hk'
      obtain rfl : m = m' := (Except.ok.inj hk).trans (Except.ok.inj hk').symm
      have hlookup := (SortedMap.mem_iff_lookup hsorted).1 hc
      obtain rfl : c = c' :=
        Option.some.inj (hlookup.symm.trans ((SortedMap.mem_iff_lookup hsorted).1 hc'))
      rfl
    · obtain ⟨m, c, hc, rfl, rfl⟩ := (mem_addEntries hsorted hkeys hpresent).1 hkv
      exact (hback m c hc).unambiguous
  · rw [convert_map hf, run_addEntries hsorted hkeys hpresent fun k c hc =>
      (hback k c hc).convert_eq]
    rfl

/-- Whatever a field may hold, unless it is absent, comes back. -/
theorem Typed.comesBack (h : Typed pool f c) (hc : c ≠ .absent) : ComesBack R pool f c := by
  induction h with
  | absent => exact absurd rfl hc
  | scalar hf ht hs => exact comesBack_scalar hf ht hs
  | message hf ht hlen hexclusive hfields ih =>
      exact comesBack_message hf ht hlen hexclusive hfields ih
  | list hf hlen hpresent helements ih =>
      exact comesBack_list hf hlen hpresent (fun c hc => (helements c hc).known_eq.2) fun c hc =>
        ih c hc fun habsent => hpresent (habsent ▸ hc)
  | map hf hsorted hkeys hpresent _ ih =>
      exact comesBack_map hf hsorted hkeys hpresent fun k c hkc =>
        ih k c hkc fun habsent => hpresent k (habsent ▸ hkc)

/-- The table of a message, whatever the order in which Lua yields its entries and those of its
nested tables, makes the message. -/
theorem setMsg_toTbl (R : Runtime Num Float) (type : Nat) (slots : List (Content Num Float))
    (hm : Typed pool (pool.root type) (.message slots)) (t : LuaValue Num)
    (ht : Reorders (toTbl R pool (pool.descriptor type) slots) t) :
    setMsg R pool (pool.descriptor type) (pool.descriptor type).empty t = .ok slots := by
  have hback : ComesBack R pool (pool.root type) (.message slots) := hm.comesBack (by simp)
  have hget : getField R pool (pool.root type) (.message slots) =
      toTbl R pool (pool.descriptor type) slots := getField_message rfl
  have hsame := hback.unambiguous.independent hback.proper t (hget ▸ ht)
  rw [hback.convert_eq, convert_root] at hsame
  obtain ⟨slots', hslots', heq⟩ := Option.map_eq_some_iff.1 hsame
  obtain rfl := Content.message.inj heq
  cases hmsg : setMsg R pool (pool.descriptor type) (pool.descriptor type).empty t with
  | error e => rw [hmsg] at hslots'; cases hslots'
  | ok slots' => rw [hmsg] at hslots'; exact congrArg _ (Option.some.inj hslots')

/-- A box of boxes, each under its number. -/
theorem typed_box {f : FieldDescriptor Int Int} {es : List (MapKey × Content Int Int)}
    (hf : f.Singular) (ht : f.type = .message 0) (hsorted : SortedMap.Sorted es)
    (hkeys : ∀ k c, (k, c) ∈ es → k.type = .int32) (hpresent : ∀ k, (k, .absent) ∉ es)
    (hvalues : ∀ k c, (k, c) ∈ es → Typed boxPool (boxes.value (str "Box.BoxesEntry")) c) :
    Typed boxPool f (.message [.map es]) := by
  have only : ∀ i : Fin 1, i = 0 := fun i => Subsingleton.elim i 0
  refine .message hf ht rfl (fun i j _ _ _ => (only i).trans (only j).symm) fun i => ?_
  obtain rfl := only i
  exact .map rfl hsorted hkeys hpresent hvalues

theorem setMsg_toTbl_boxes :
    setMsg Runtime.integers boxPool (boxPool.descriptor 0) (boxPool.descriptor 0).empty
      (toTbl Runtime.integers boxPool (boxPool.descriptor 0)
        [.map [(.int32 7, .message [.map []])]]) = .ok [.map [(.int32 7, .message [.map []])]] :=
  setMsg_toTbl Runtime.integers 0 _
    (typed_box (boxPool.singular_root 0) rfl (by simp [SortedMap.Sorted]) (by simp [MapKey.type])
      (by simp) fun k c hc => by
        obtain ⟨-, rfl⟩ := by simpa using hc
        exact typed_box (boxes.singular_value _) rfl .nil (by simp) (by simp) (by simp))
    _ (.refl _)

end GrpcLua.Pb
