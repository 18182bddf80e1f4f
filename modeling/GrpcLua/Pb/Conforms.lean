import GrpcLua.Pb.RoundTrip

/-!
# Pb — Conforms

The messages that `SetMsg()` builds.

Whatever the table, a message that is built conforms to its type (`Conforms`): each field holds what
its type may hold, at most one member of a oneof is set, and a map is in the order of its keys.
Such a message need not come back from its own table as it was, since a scalar with presence of its
own that is absent comes back as its default, and an unknown number not at all; but its table does
(`Shows`).
-/

namespace GrpcLua.Pb
open Pb.LuaValue MessageSetter MsgToTbl

variable {Num Float : Type}

/-! ### The messages of a type -/

section
variable (pool : Pool Num Float)

/-- No scalar has presence of its own. -/
def Pool.NoOptional : Prop :=
  ∀ type (i : (pool.descriptor type).Index), ((pool.descriptor type).field i).label ≠ .optional

/-- At most one member of each oneof is set. -/
def Exclusive (d : Descriptor Num Float) (slots : List (Content Num Float)) : Prop :=
  ∀ i j, d.SameOneof i j → (d.get slots i).isAbsent = false → (d.get slots j).isAbsent = false →
    i = j

/-- The content is one that a field of this kind may have. -/
inductive Conforms : FieldDescriptor Num Float → Content Num Float → Prop where
  | absent {f : FieldDescriptor Num Float} (hf : f.initial = .absent) : Conforms f .absent
  | scalar {f : FieldDescriptor Num Float} {t : ScalarType} {s : Scalar Num Float}
      (hf : f.Singular) (ht : f.type = .scalar t) (hs : t.Holds s) : Conforms f (.scalar s)
  | message {f : FieldDescriptor Num Float} {t : Nat} {slots : List (Content Num Float)}
      (hf : f.Singular) (ht : f.type = .message t)
      (length : slots.length = (pool.descriptor t).fields.length)
      (exclusive : Exclusive (pool.descriptor t) slots)
      (fields : ∀ i, Conforms ((pool.descriptor t).field i) ((pool.descriptor t).get slots i)) :
      Conforms f (.message slots)
  | list {f : FieldDescriptor Num Float} {cs : List (Content Num Float)}
      (hf : f.label = .repeated) (length : cs.length < 2 ^ 31 - 1) (present : .absent ∉ cs)
      (known : ∀ c ∈ cs, c.known = c) (elements : ∀ c ∈ cs, Conforms f.element c) :
      Conforms f (.list cs)
  | map {f : FieldDescriptor Num Float} {entryName : Bytes} {key : KeyType}
      {es : List (MapKey × Content Num Float)} (hf : f.label = .map entryName key)
      (sorted : SortedMap.Sorted es) (keys : ∀ k c, (k, c) ∈ es → k.type = key)
      (present : ∀ k c, (k, c) ∈ es → c.isAbsent = false)
      (values : ∀ k c, (k, c) ∈ es → Conforms (f.value entryName) c) : Conforms f (.map es)
  | unknown {f : FieldDescriptor Num Float} {values : List (Bytes × BitVec 32)}
      {c : Content Num Float} {ns : List (BitVec 32)} (hf : f.Singular ∨ f.label = .repeated)
      (ht : f.type = .scalar (.enum true values)) (nonempty : ns ≠ [])
      (numbers : ∀ n ∈ ns, n ∉ values.map Prod.snd) (known : c.known = c)
      (content : Conforms f c) : Conforms f (.unknown c ns)

end

/-- The content without its unknown numbers. -/
def Content.strip : Content Num Float → Content Num Float
  | .absent => .absent
  | .scalar s => .scalar s
  | .message slots => .message (slots.map strip)
  | .list cs => .list (cs.map strip)
  | .map es => .map (es.map fun e => (e.1, strip e.2))
  | .unknown c _ => strip c
decreasing_by
  · decreasing_tactic
  · decreasing_tactic
  · rename_i he
    have hlt := List.sizeOf_lt_of_mem he
    obtain ⟨k, c⟩ := e
    simp only [Prod.mk.sizeOf_spec, Content.map.sizeOf_spec] at hlt ⊢
    omega
  · decreasing_tactic

variable {R : Runtime Num Float} {pool : Pool Num Float} {d : Descriptor Num Float}
variable {f : FieldDescriptor Num Float} {c : Content Num Float} {v : LuaValue Num}
  {slots : List (Content Num Float)} {i : d.Index}

/-- A field that is cleared is absent. -/
theorem Content.isAbsent_cleared : c.cleared.isAbsent = true := by
  cases c <;> rfl

/-- What is no unknown number is known. -/
theorem Conforms.known_eq (h : Conforms pool f c) (hc : c.numbers = []) : c.known = c := by
  cases h with
  | unknown _ _ nonempty => exact absurd hc nonempty
  | _ => rfl

/-- Only a closed enum has unknown numbers. -/
theorem Conforms.of_mem_numbers {n : BitVec 32} (h : Conforms pool f c) (hn : n ∈ c.numbers) :
    ∃ values, f.type = .scalar (.enum true values) ∧ n ∉ values.map Prod.snd := by
  cases h with
  | unknown _ ht _ numbers => exact ⟨_, ht, numbers n hn⟩
  | _ => cases hn

/-- A member of a oneof may be cleared. -/
theorem Conforms.cleared {o : Nat} (hf : f.label = .oneof o) (h : Conforms pool f c) :
    Conforms pool f c.cleared := by
  have habsent : Conforms pool f .absent := .absent (by rw [FieldDescriptor.initial, hf])
  cases h with
  | unknown hs ht nonempty numbers => exact .unknown hs ht nonempty numbers rfl habsent
  | _ => exact habsent

/-- An empty message sets no member of a oneof. -/
theorem exclusive_empty : Exclusive d d.empty := by
  rintro i j ⟨o, hi, -⟩ hpresent
  rw [Descriptor.get_empty, FieldDescriptor.initial, hi] at hpresent
  cases hpresent

/-- A member that is set clears the others. -/
theorem Exclusive.set (h : Exclusive d slots) : Exclusive d (d.set slots i c) := by
  -- What is set in another field was set before, and `i` does not clear it.
  have before : ∀ {j : d.Index}, j ≠ i → (d.get (d.set slots i c) j).isAbsent = false →
      (d.get slots j).isAbsent = false ∧ ¬ (d.SameOneof i j ∧ c.isAbsent = false) := by
    intro j hj hset
    rw [Descriptor.get_set, if_neg hj] at hset
    split_ifs at hset with ho
    · rw [Content.isAbsent_cleared] at hset
      cases hset
    · exact ⟨hset, ho⟩
  have own : (d.get (d.set slots i c) i).isAbsent = false → c.isAbsent = false := by
    rw [Descriptor.get_set, if_pos rfl]
    exact id
  rintro j k ⟨o, hj, hk⟩ hjset hkset
  by_cases hji : j = i
  · by_cases hki : k = i
    · rw [hji, hki]
    · exact absurd ⟨⟨o, hji ▸ hj, hk⟩, own (hji ▸ hjset)⟩ (before hki hkset).2
  · by_cases hki : k = i
    · exact absurd ⟨⟨o, hki ▸ hk, hj⟩, own (hki ▸ hkset)⟩ (before hji hjset).2
    · exact h j k ⟨o, hj, hk⟩ (before hji hjset).1 (before hki hkset).1

/-- A write clears the other members of its oneof. -/
theorem Exclusive.writeAll (h : Exclusive d slots)
    (ws : List (Option (d.Index × Content Num Float))) :
    Exclusive d (d.writes.writeAll slots ws) := by
  induction ws generalizing slots with
  | nil => exact h
  | cons w ws ih =>
      cases w with
      | none => exact ih h
      | some w => exact ih h.set

/-- A field that nothing has set conforms. -/
theorem conforms_initial : Conforms pool f f.initial := by
  rcases f.kinds with hf | ⟨entryName, key, hf⟩ | ⟨hf, t, ht⟩ | ⟨hf, t, ht⟩
  · rw [FieldDescriptor.initial, hf]
    exact .list hf (by simp) (by simp) (by simp) (by simp)
  · rw [FieldDescriptor.initial, hf]
    exact .map hf .nil (by simp) (by simp) (by simp)
  · cases hl : f.label with
    | implicit =>
        rw [FieldDescriptor.initial, hl, ht]
        exact .scalar hf ht (f.defaultHolds t ht)
    | optional | oneof o =>
        have hinitial : f.initial = .absent := by
          rw [FieldDescriptor.initial, hl]
        exact hinitial.symm ▸ .absent hinitial
    | repeated => exact absurd hl hf.1
    | map entryName key => exact absurd hl (hf.2 _ _)
  · have hinitial : f.initial = .absent := by
      cases hl : f.label <;>
        simp_all [FieldDescriptor.initial, FieldDescriptor.Singular]
    exact hinitial.symm ▸ .absent hinitial

/-! ### What is built conforms -/

variable [DecidableEq Num]

/-- What a scalar type takes is a scalar of that type. -/
theorem conforms_scalar {t : ScalarType} (hf : f.Singular) (ht : f.type = .scalar t)
    (h : convert R pool f v = some c) : Conforms pool f c := by
  rw [convert_scalar hf ht] at h
  obtain ⟨s, hs, rfl⟩ := Option.map_eq_some_iff.1 h
  cases hv : t.ofLua R v with
  | error e => rw [hv] at hs; cases hs
  | ok s' =>
      rw [hv] at hs
      obtain rfl := Option.some.inj hs
      rw [setScalar_initial ht]
      cases hn : t.unknownNumber s' with
      | none => exact .scalar hf ht ((ScalarType.holds_iff R hv).2 hn)
      | some n =>
          obtain ⟨values, rfl, -, hvalues⟩ := ScalarType.unknownNumber_eq_some.1 hn
          exact .unknown (.inl hf) ht (List.cons_ne_nil _ _) (by simpa using hvalues)
            f.initial_known.1 conforms_initial

/-- What is not a table becomes a scalar. -/
theorem conforms_atom (hv : ∀ b es, v ≠ .table b es) (h : convert R pool f v = some c) :
    Conforms pool f c := by
  rcases f.kinds with hf | ⟨entryName, key, hf⟩ | ⟨hf, t, ht⟩ | ⟨hf, t, ht⟩
  · rw [convert_eq_none hv (.inl fun hs => hs.1 hf)] at h
    cases h
  · rw [convert_eq_none hv (.inl fun hs => hs.2 _ _ hf)] at h
    cases h
  · exact conforms_scalar hf ht h
  · rw [convert_eq_none hv (.inr ⟨t, ht⟩)] at h
    cases h

section
variable {b : Nat} {es : List (LuaKey Num × LuaValue Num)}

/-- The entries of a table become fields that conform. -/
theorem conforms_message {t : Nat} (hf : f.Singular) (ht : f.type = .message t)
    (nodup : (es.map Prod.fst).Nodup)
    (ih : ∀ k v, (k, v) ∈ es → ∀ f c, convert R pool f v = some c → Conforms pool f c)
    (h : convert R pool f (.table b es) = some c) : Conforms pool f c := by
  rw [convert_message hf ht nodup] at h
  obtain ⟨slots, hslots, rfl⟩ := Option.map_eq_some_iff.1 h
  obtain ⟨ws, hws, rfl⟩ := LastWrite.run_eq_some.1 hslots
  have hlen : ((pool.descriptor t).writes.writeAll (pool.descriptor t).empty ws).length = _ :=
    LastWrite.valid_writeAll (M := (pool.descriptor t).writes) Descriptor.length_empty ws
  refine .message hf ht hlen (exclusive_empty.writeAll ws) (forall_written hws
    (fun _ _ _ ho hc => hc.cleared ho) (fun _ => conforms_initial) fun i v c hiv hc => ?_)
  exact ih _ v hiv _ c hc

/-- The elements of a table become elements that conform, fewer than 2³¹ - 1. -/
theorem conforms_list (hf : f.label = .repeated) (nodup : (es.map Prod.fst).Nodup)
    (ih : ∀ k v, (k, v) ∈ es → ∀ f c, convert R pool f v = some c → Conforms pool f c)
    (h : convert R pool f (.table b es) = some c) : Conforms pool f c := by
  obtain ⟨hbound, cs, hcs, rfl⟩ := (convert_list_eq_some hf).1 h
  have hlen : cs.length = intLen b := by
    rw [← (LastWrite.mapM_eq_some.1 hcs).length_eq, List.length_range]
  have helement : ∀ c ∈ cs, c ≠ .absent ∧ Conforms pool f.element c := by
    intro c hc
    obtain ⟨n, -, hn⟩ := LastWrite.exists_of_mem_converted hcs hc
    refine ⟨fun habsent => convert_ne_absent (habsent ▸ hn), ?_⟩
    rcases lookup_cases nodup (indexKey n) with hmem | ⟨-, hnil⟩
    · exact ih _ _ hmem _ _ hn
    · rw [hnil] at hn
      exact conforms_atom (by simp) hn
  -- The elements that are no unknown numbers.
  have hlist : Conforms pool f (.list (cs.filter (·.numbers.isEmpty))) := by
    refine .list hf (by have := List.length_filter_le (·.numbers.isEmpty) cs; omega)
      (fun habsent => ?_) (fun c hc => ?_) fun c hc => ?_
    · exact (helement _ (List.mem_filter.1 habsent).1).1 rfl
    · obtain ⟨hc, hnumbers⟩ := List.mem_filter.1 hc
      exact (helement c hc).2.known_eq (List.isEmpty_iff.1 hnumbers)
    · exact (helement c (List.mem_filter.1 hc).1).2
  by_cases hnone : cs.flatMap Content.numbers = []
  · rw [Content.addAll, hnone]
    exact hlist
  · obtain ⟨n, hn⟩ := List.exists_mem_of_ne_nil _ hnone
    obtain ⟨c, hc, hn⟩ := List.mem_flatMap.1 hn
    obtain ⟨values, ht, -⟩ := (helement c hc).2.of_mem_numbers hn
    have hadd : (Content.list []).addAll cs =
        .unknown (.list (cs.filter (·.numbers.isEmpty))) (cs.flatMap Content.numbers) :=
      Content.withNumbers_of_ne_nil hnone
    rw [hadd]
    refine .unknown (.inr hf) ht hnone (fun n hn => ?_) rfl hlist
    obtain ⟨c, hc, hn⟩ := List.mem_flatMap.1 hn
    obtain ⟨values', ht', hn⟩ := (helement c hc).2.of_mem_numbers hn
    obtain rfl : values = values' := by
      have heq : ScalarType.enum true values = .enum true values' :=
        FieldType.scalar.inj (ht.symm.trans ht')
      exact (ScalarType.enum.inj heq).2
    exact hn

/-- The field `value` of an entry is set by whatever it takes. -/
theorem isAbsent_of_implicit (hf : f.label = .implicit) (h : convert R pool f v = some c) :
    c.isAbsent = false := by
  have hsing : f.Singular := by simp [FieldDescriptor.Singular, hf]
  cases ht : f.type with
  | scalar t =>
      have hinitial : f.initial = .scalar f.defaultValue := by
        rw [FieldDescriptor.initial, hf, ht]
      rw [convert_scalar hsing ht] at h
      obtain ⟨s, -, rfl⟩ := Option.map_eq_some_iff.1 h
      rw [setScalar_initial ht, hinitial]
      cases t.unknownNumber s <;> rfl
  | message t =>
      obtain ⟨slots, rfl⟩ := exists_message hsing ht h
      rfl

/-- The entries of a table become a sorted map with keys of its type. -/
theorem conforms_map {entryName : Bytes} {key : KeyType} (hf : f.label = .map entryName key)
    (ih : ∀ k v, (k, v) ∈ es → ∀ f c, convert R pool f v = some c → Conforms pool f c)
    (h : convert R pool f (.table b es) = some c) : Conforms pool f c := by
  rw [convert_map hf] at h
  obtain ⟨entries, hentries, rfl⟩ := Option.map_eq_some_iff.1 h
  obtain ⟨ws, hws, rfl⟩ := LastWrite.run_eq_some.1 hentries
  have hmem : ∀ k c, (k, c) ∈ (SortedMap.writes MapKey (Content Num Float)).writeAll [] ws →
      k.type = key ∧ ∃ k' v, (k', v) ∈ es ∧ convert R pool (f.value entryName) v = some c := by
    intro k c hkc
    obtain ⟨⟨k', v⟩, hkv, hw⟩ :=
      LastWrite.exists_of_mem_converted hws (SortedMap.mem_of_mem_writeAll hkc)
    obtain ⟨hk, hc⟩ := mapWrite_eq_some.1 hw
    exact ⟨MapKey.type_of_ofLua R hk, k', v, hkv, hc⟩
  refine .map hf (SortedMap.sorted_writeAll ws) (fun k c hkc => (hmem k c hkc).1)
    (fun k c hkc => ?_) fun k c hkc => ?_
  · obtain ⟨-, k', v, -, hv⟩ := hmem k c hkc
    exact isAbsent_of_implicit rfl hv
  · obtain ⟨-, k', v, hkv, hv⟩ := hmem k c hkc
    exact ih k' v hkv _ _ hv

end

/-- What a field comes to hold conforms to it. -/
theorem convert_conforms (hv : v.Proper) (h : convert R pool f v = some c) :
    Conforms pool f c := by
  induction v using LuaValue.induction generalizing f c with
  | atom v hatom => exact conforms_atom hatom h
  | table b es ih =>
      obtain ⟨nodup, -, hproper⟩ := hv.table_inv
      have ih' : ∀ k v, (k, v) ∈ es → ∀ f c, convert R pool f v = some c → Conforms pool f c :=
        fun k v hkv f c hc => ih k v hkv (hproper k v hkv) hc
      rcases f.kinds with hf | ⟨entryName, key, hf⟩ | ⟨hf, t, ht⟩ | ⟨hf, t, ht⟩
      · exact conforms_list hf nodup ih' h
      · exact conforms_map hf ih' h
      · exact conforms_scalar hf ht h
      · exact conforms_message hf ht nodup ih' h

/-! ### What a message shows -/

variable (R pool) in
/-- The second content, which comes back from its table, has the table of the first. -/
structure Shows (f : FieldDescriptor Num Float) (c c' : Content Num Float) : Prop where
  typed : Typed pool f c'
  shown : getField R pool f c' = getField R pool f c
  present : c.isAbsent = false → c' ≠ .absent
  absent : f.inOneof = true → c.isAbsent = true → c' = .absent
  same : f.label ≠ .optional → pool.NoOptional → c' = c.strip

/-- A scalar with presence of its own that is absent is shown as its default. -/
theorem shows_absent (hf : f.initial = .absent) : ∃ c', Shows R pool f .absent c' := by
  have hsingular : f.Singular := by
    constructor
    · intro hl
      simp [FieldDescriptor.initial, hl] at hf
    · intro entryName key hl
      simp [FieldDescriptor.initial, hl] at hf
  by_cases hlabel : f.label = .optional ∧ ∃ t, f.type = .scalar t
  · obtain ⟨hl, t, ht⟩ := hlabel
    refine ⟨.scalar f.defaultValue, .scalar hsingular ht (f.defaultHolds t ht), ?_,
      (fun h => by cases h), fun ho => ?_, fun h => absurd hl h⟩
    · simp [getField, ht]
    · simp [FieldDescriptor.inOneof, hl] at ho
  · refine ⟨.absent, .absent hsingular ?_, rfl, (fun h => by cases h), fun _ _ => rfl,
      fun _ _ => by rw [Content.strip]⟩
    cases ht : f.type with
    | message t => exact .inl ⟨t, rfl⟩
    | scalar t =>
        cases hl : f.label with
        | implicit => simp [FieldDescriptor.initial, hl, ht] at hf
        | optional => exact absurd ⟨hl, t, ht⟩ hlabel
        | oneof o => exact .inr ⟨o, rfl⟩
        | repeated => exact absurd hl hsingular.1
        | map entryName key => exact absurd hl (hsingular.2 _ _)

/-- Fields that are read alike make the same entries. -/
theorem addFields_congr {oneofs : Bool} {fs : List (FieldDescriptor Num Float)}
    {cs cs' : List (Content Num Float)} {tbl : List (LuaKey Num × LuaValue Num)}
    (hlen : cs'.length = cs.length)
    (h : ∀ (n : Nat) f c c', fs[n]? = some f → cs[n]? = some c → cs'[n]? = some c' →
      getField R pool f c' = getField R pool f c ∧
        (f.inOneof = true → c'.isAbsent = c.isAbsent)) :
    addFields R pool oneofs fs tbl cs' = addFields R pool oneofs fs tbl cs := by
  induction cs generalizing fs cs' tbl with
  | nil => rw [List.length_eq_zero_iff.1 hlen]
  | cons c cs ih =>
      cases cs' with
      | nil => cases hlen
      | cons c' cs' =>
          cases fs with
          | nil => rw [addFields, addFields]
          | cons f fs =>
              obtain ⟨hshown, habsent⟩ := h 0 f c c' rfl rfl rfl
              have hpass : Passes oneofs f c' ↔ Passes oneofs f c := by
                refine and_congr_right fun ho => not_congr (and_congr_right fun honeofs => ?_)
                rw [habsent (ho.trans honeofs)]
              have htail : ∀ tbl, addFields R pool oneofs fs tbl cs' =
                  addFields R pool oneofs fs tbl cs := fun tbl =>
                ih (Nat.succ.inj hlen) fun n f c c' hf hc hc' => h (n + 1) f c c' hf hc hc'
              rw [addFields, addFields, hshown, htail, htail]
              exact if_congr hpass rfl rfl

/-- Messages whose fields show the same make the same table. -/
theorem toEntries_congr {slots' : List (Content Num Float)}
    (hlen : slots.length = d.fields.length) (hlen' : slots'.length = d.fields.length)
    (h : ∀ i : d.Index, Shows R pool (d.field i) (d.get slots i) (d.get slots' i)) :
    toEntries R pool d slots' = toEntries R pool d slots := by
  have hfields : ∀ (n : Nat) f c c', d.fields[n]? = some f → slots[n]? = some c →
      slots'[n]? = some c' → getField R pool f c' = getField R pool f c ∧
        (f.inOneof = true → c'.isAbsent = c.isAbsent) := by
    intro n f c c' hf hc hc'
    obtain ⟨hn, rfl⟩ := List.getElem?_eq_some_iff.1 hf
    have hi := h ⟨n, hn⟩
    simp only [Descriptor.get, List.getD_eq_getElem?_getD, hc, hc', Option.getD_some,
      Descriptor.field] at hi
    refine ⟨hi.shown, fun ho => ?_⟩
    rw [Bool.eq_iff_iff, hi.typed.isAbsent_iff]
    exact ⟨fun habsent => by_contra fun hc => hi.present (Bool.eq_false_of_not_eq_true hc) habsent,
      hi.absent ho⟩
  rw [toEntries, toEntries, addFields_congr (hlen'.trans hlen.symm) hfields,
    addFields_congr (hlen'.trans hlen.symm) hfields]

/-- Elements that show the same make the same list. -/
theorem addElements_map {n : Nat} {cs : List (Content Num Float)}
    {tbl : List (LuaKey Num × LuaValue Num)} {g : Content Num Float → Content Num Float}
    (h : ∀ c ∈ cs, Shows R pool f c (g c)) :
    addElements R pool f n tbl (cs.map g) = addElements R pool f n tbl cs := by
  induction cs generalizing n tbl with
  | nil => rfl
  | cons c cs ih =>
      rw [List.map_cons, addElements, addElements, (h c List.mem_cons_self).shown,
        ih fun c hc => h c (List.mem_cons_of_mem _ hc)]

/-- Values that show the same make the same map. -/
theorem addEntries_map {es : List (MapKey × Content Num Float)}
    {tbl : List (LuaKey Num × LuaValue Num)} {g : MapKey → Content Num Float → Content Num Float}
    (h : ∀ k c, (k, c) ∈ es → Shows R pool f c (g k c)) :
    MsgToTbl.addEntries R pool f tbl (es.map fun e => (e.1, g e.1 e.2)) =
      MsgToTbl.addEntries R pool f tbl es := by
  induction es generalizing tbl with
  | nil => rfl
  | cons e es ih =>
      rw [List.map_cons, MsgToTbl.addEntries, MsgToTbl.addEntries,
        (h e.1 e.2 List.mem_cons_self).shown, ih fun k c hc => h k c (List.mem_cons_of_mem _ hc)]

/-- A message is read back as one that shows the same, if its fields are. -/
theorem shows_message {t : Nat} (hf : f.Singular) (ht : f.type = .message t)
    (hlen : slots.length = (pool.descriptor t).fields.length)
    (hexclusive : Exclusive (pool.descriptor t) slots)
    (h : ∀ i, ∃ c', Shows R pool ((pool.descriptor t).field i) ((pool.descriptor t).get slots i)
      c') : ∃ c', Shows R pool f (.message slots) c' := by
  choose g hg using h
  -- The message that holds what each field shows.
  let slots' := (List.finRange (pool.descriptor t).fields.length).map g
  have hlen' : slots'.length = (pool.descriptor t).fields.length := by simp [slots']
  have hget : ∀ i, (pool.descriptor t).get slots' i = g i := by
    intro i
    simp [slots', Descriptor.get, List.getD_eq_getElem?_getD]
  have hshows : ∀ i, Shows R pool ((pool.descriptor t).field i)
      ((pool.descriptor t).get slots i) ((pool.descriptor t).get slots' i) :=
    fun i => (hget i).symm ▸ hg i
  refine ⟨.message slots', ?_, ?_, fun _ => by simp, (fun _ h => by cases h), fun _ hnone => ?_⟩
  · refine .message hf ht hlen' (fun i j ho hi hj => ?_) fun i => (hshows i).typed
    obtain ⟨o, hio, hjo⟩ := ho
    refine hexclusive i j ⟨o, hio, hjo⟩ ?_ ?_
    · exact Bool.eq_false_of_not_eq_true fun hnone =>
        hi ((hshows i).absent (by simp [FieldDescriptor.inOneof, hio]) hnone)
    · exact Bool.eq_false_of_not_eq_true fun hnone =>
        hj ((hshows j).absent (by simp [FieldDescriptor.inOneof, hjo]) hnone)
  · rw [getField_message ht, getField_message ht, toTbl, toTbl, toEntries_congr hlen hlen' hshows]
  · rw [Content.strip]
    refine congrArg _ (Descriptor.ext_get hlen' (by rwa [List.length_map]) fun i => ?_)
    rw [(hshows i).same (hnone t i) hnone]
    simp [Descriptor.get, List.getD_eq_getElem?_getD, hlen]

/-- A list is read back as one that shows the same, if its elements are. -/
theorem shows_list {cs : List (Content Num Float)} (hf : f.label = .repeated)
    (hlen : cs.length < 2 ^ 31 - 1) (hpresent : .absent ∉ cs) (hknown : ∀ c ∈ cs, c.known = c)
    (h : ∀ c ∈ cs, ∃ c', Shows R pool f.element c c') : ∃ c', Shows R pool f (.list cs) c' := by
  have : Nonempty (Content Num Float) := ⟨.absent⟩
  choose! g hg using h
  refine ⟨.list (cs.map g), ?_, ?_, fun _ => by simp, (fun _ h => by cases h), fun _ hnone => ?_⟩
  · refine .list hf (by simpa using hlen) (fun habsent => ?_) fun c' hc' => ?_
    · obtain ⟨c, hc, hnone⟩ := List.mem_map.1 habsent
      refine (hg c hc).present (Content.isAbsent_eq_false.2 fun h => ?_) hnone
      exact hpresent ((hknown c hc).symm.trans h ▸ hc)
    · obtain ⟨c, hc, rfl⟩ := List.mem_map.1 hc'
      exact (hg c hc).typed
  · rw [getField, getField, addElements_map hg]
  · have hlabel : f.element.label ≠ .optional := by simp [FieldDescriptor.element]
    have hsame : ∀ c ∈ cs, g c = c.strip := fun c hc => (hg c hc).same hlabel hnone
    rw [List.map_congr_left hsame, Content.strip]

/-- A map is read back as one that shows the same, if its values are. -/
theorem shows_map {es : List (MapKey × Content Num Float)} {entryName : Bytes} {key : KeyType}
    (hf : f.label = .map entryName key) (hsorted : SortedMap.Sorted es)
    (hkeys : ∀ k c, (k, c) ∈ es → k.type = key)
    (hpresent : ∀ k c, (k, c) ∈ es → c.isAbsent = false)
    (h : ∀ k c, (k, c) ∈ es → ∃ c', Shows R pool (f.value entryName) c c') :
    ∃ c', Shows R pool f (.map es) c' := by
  have : Nonempty (Content Num Float) := ⟨.absent⟩
  choose! g hg using h
  have hback : ∀ k c', (k, c') ∈ es.map (fun e => (e.1, g e.1 e.2)) →
      ∃ c, (k, c) ∈ es ∧ g k c = c' := by
    intro k c' hkc
    obtain ⟨⟨k', c⟩, hc, heq⟩ := List.mem_map.1 hkc
    obtain ⟨rfl, rfl⟩ := Prod.mk.inj heq
    exact ⟨c, hc, rfl⟩
  refine ⟨.map (es.map fun e => (e.1, g e.1 e.2)), ?_, ?_, fun _ => by simp,
    (fun _ h => by cases h), fun _ hnone => ?_⟩
  · refine .map hf (List.pairwise_map.2 hsorted) (fun k c' hkc => ?_) (fun k habsent => ?_)
      fun k c' hkc => ?_
    · obtain ⟨c, hc, -⟩ := hback k c' hkc
      exact hkeys k c hc
    · obtain ⟨c, hc, hnone⟩ := hback k _ habsent
      exact (hg k c hc).present (hpresent k c hc) hnone
    · obtain ⟨c, hc, rfl⟩ := hback k c' hkc
      exact (hg k c hc).typed
  · rw [getField, getField, hf]
    exact congrArg LuaValue.ofEntries (addEntries_map hg)
  · have hlabel : (f.value entryName).label ≠ .optional := by simp [FieldDescriptor.value]
    have hsame : ∀ e ∈ es, (e.1, g e.1 e.2) = (e.1, e.2.strip) := by
      rintro ⟨k, c⟩ hc
      rw [(hg k c hc).same hlabel hnone]
    rw [List.map_congr_left hsame, Content.strip]

/-- Whatever a field holds shows something that comes back. -/
theorem Conforms.shows (h : Conforms pool f c) : ∃ c', Shows R pool f c c' := by
  induction h with
  | absent hf => exact shows_absent hf
  | scalar hf ht hs =>
      exact ⟨_, .scalar hf ht hs, rfl, fun _ => by simp, (fun _ h => by cases h),
        fun _ _ => by rw [Content.strip]⟩
  | message hf ht hlen hexclusive _ ih => exact shows_message hf ht hlen hexclusive ih
  | list hf hlen hpresent hknown _ ih => exact shows_list hf hlen hpresent hknown ih
  | map hf hsorted hkeys hpresent _ ih => exact shows_map hf hsorted hkeys hpresent ih
  | @unknown f values c ns _ ht _ _ hknown _ ih =>
      -- The unknown numbers are not shown.
      obtain ⟨c', h⟩ := ih
      have habsent : (Content.unknown c ns).isAbsent = c.isAbsent := by
        rw [Content.isAbsent, Content.isAbsent, hknown]
        rfl
      exact ⟨c', h.typed, h.shown.trans (getField_unknown ht).symm, habsent ▸ h.present,
        fun ho => habsent ▸ h.absent ho, fun hl hnone => by rw [h.same hl hnone, Content.strip]⟩

/-! ### `SetMsg()`, `ToTbl()` and `SetMsg()` again -/

section
variable {type : Nat} {t t' : LuaValue Num}

/-- The message that `SetMsg` fills is the value of the root field. -/
theorem convert_of_setMsg
    (h : setMsg R pool (pool.descriptor type) (pool.descriptor type).empty t = .ok slots) :
    convert R pool (pool.root type) t = some (.message slots) := by
  rw [convert_root, h]
  rfl

/-- And the other way round. -/
theorem setMsg_of_convert (h : convert R pool (pool.root type) t = some (.message slots)) :
    setMsg R pool (pool.descriptor type) (pool.descriptor type).empty t = .ok slots := by
  rw [convert_root] at h
  obtain ⟨slots', hslots', heq⟩ := Option.map_eq_some_iff.1 h
  obtain rfl := Content.message.inj heq
  cases hmsg : setMsg R pool (pool.descriptor type) (pool.descriptor type).empty t with
  | error e => rw [hmsg] at hslots'; cases hslots'
  | ok slots' => rw [hmsg] at hslots'; exact congrArg _ (Option.some.inj hslots')

/-- **Soundness.**  Whatever the table, the message that `SetMsg()` builds conforms to its type. -/
theorem setMsg_conforms (R : Runtime Num Float) (ht : t.Proper)
    (h : setMsg R pool (pool.descriptor type) (pool.descriptor type).empty t = .ok slots) :
    Conforms pool (pool.root type) (.message slots) :=
  convert_conforms ht (convert_of_setMsg h)

/-- `message Note { optional string text = 1; }`, with presence. -/
def notePool : Pool Int Int where
  descriptor _ := ⟨str "Note", [⟨str "text", str "Note.text", .optional,
    .scalar (.ofKey .string), .ofKey (.string []), fun _ h => by cases h; rfl⟩], by simp⟩
  findMessageTypeByName name := if name = str "Note" then some 0 else none

theorem setMsg_conforms_number :
    Conforms notePool (notePool.root 0) (.message [.scalar (.ofKey (.string (str "7")))]) :=
  setMsg_conforms (t := .table 0 [(.boolean true, .integer 1), (.string (str "text"), .integer 7)])
    Runtime.integers
    (.entries (by decide) (by simp) fun k v hv => .atom (by rintro b es rfl; simp at hv)) rfl

/-- The table of a message that was built of any table is accepted in every order, and what it
makes shows the same. -/
theorem settles (R : Runtime Num Float) (ht : t.Proper)
    (h : setMsg R pool (pool.descriptor type) (pool.descriptor type).empty t = .ok slots)
    (hre : Reorders (toTbl R pool (pool.descriptor type) slots) t') :
    ∃ slots', Shows R pool (pool.root type) (.message slots) (.message slots') ∧
      setMsg R pool (pool.descriptor type) (pool.descriptor type).empty t' = .ok slots' ∧
      toTbl R pool (pool.descriptor type) slots' = toTbl R pool (pool.descriptor type) slots := by
  have hconforms : Conforms pool (pool.root type) (.message slots) :=
    convert_conforms ht (convert_of_setMsg h)
  obtain ⟨c', hshows⟩ := hconforms.shows (R := R)
  have hback := hshows.typed.comesBack (R := R) (hshows.present rfl)
  -- What the table shows is a message, and comes back in every order.
  obtain ⟨slots', rfl⟩ : ∃ slots', c' = .message slots' := by
    cases hshows.typed with
    | absent => exact absurd rfl (hshows.present rfl)
    | scalar _ htype _ => cases htype
    | message => exact ⟨_, rfl⟩
    | list hl => cases hl
    | map hl => cases hl
  have hshown := hshows.shown
  rw [getField_message (t := type) rfl, getField_message (t := type) rfl] at hshown
  have hget : getField R pool (pool.root type) (.message slots') =
      toTbl R pool (pool.descriptor type) slots := (getField_message rfl).trans hshown
  have hsame := hback.unambiguous.independent hback.proper t' (hget ▸ hre)
  rw [hback.convert_eq] at hsame
  exact ⟨slots', hshows, setMsg_of_convert hsame, hshown⟩

/-- **Tables settle.**  The table of a message that was built of any table is accepted, in whatever
order Lua yields its entries, and makes a message with the same table; the same message but for the
unknown numbers, if no scalar has presence of its own. -/
theorem toTbl_settled (R : Runtime Num Float) (ht : t.Proper)
    (h : setMsg R pool (pool.descriptor type) (pool.descriptor type).empty t = .ok slots)
    (hre : Reorders (toTbl R pool (pool.descriptor type) slots) t') :
    ∃ slots', setMsg R pool (pool.descriptor type) (pool.descriptor type).empty t' = .ok slots' ∧
      toTbl R pool (pool.descriptor type) slots' = toTbl R pool (pool.descriptor type) slots ∧
      (pool.NoOptional → slots' = slots.map Content.strip) := by
  obtain ⟨slots', hshows, hset, hshown⟩ := settles R ht h hre
  have hlabel : (pool.root type).label ≠ .optional := by simp [Pool.root]
  refine ⟨slots', hset, hshown, fun hnone => ?_⟩
  have hsame := hshows.same hlabel hnone
  rw [Content.strip] at hsame
  exact Content.message.inj hsame

/-- An absent text comes back as an empty one. -/
theorem toTbl_settled_absent :
    ∃ slots', setMsg Runtime.integers notePool (notePool.descriptor 0) (notePool.descriptor 0).empty
        (toTbl Runtime.integers notePool (notePool.descriptor 0) [.absent]) = .ok slots' ∧
      toTbl Runtime.integers notePool (notePool.descriptor 0) slots' =
        toTbl Runtime.integers notePool (notePool.descriptor 0) [.absent] ∧
      (notePool.NoOptional → slots' = [.absent].map Content.strip) :=
  toTbl_settled (t := .table 0 []) Runtime.integers
    (.entries .nil (by simp) (by simp)) rfl (.refl _)

/-! ### Reading back -/

/-- What is left of a table that is made into a message, which is then shown. -/
def readBack (R : Runtime Num Float) (pool : Pool Num Float) (type : Nat) (t : LuaValue Num) :
    Except Error (LuaValue Num) := do
  let slots ← setMsg R pool (pool.descriptor type) (pool.descriptor type).empty t
  .ok (toTbl R pool (pool.descriptor type) slots)

/-- What is read back is the table of the message that `SetMsg` has filled. -/
theorem readBack_of_setMsg
    (h : setMsg R pool (pool.descriptor type) (pool.descriptor type).empty t = .ok slots) :
    readBack R pool type t = .ok (toTbl R pool (pool.descriptor type) slots) := by
  rw [readBack, h]
  rfl

end

end GrpcLua.Pb
